/-!
# UTF-8

Encoding of characters and a decoder that never fails: every maximal piece of
bytes that cannot be continued to a character is read as one U+FFFD.
-/

namespace GuestGate.Text

def encode (text : List Char) : List UInt8 :=
  text.flatMap String.utf8EncodeChar

def byteLength (text : List Char) : Nat :=
  (encode text).length

def replacement : Char := '\uFFFD'

/-- Where the decoder stands inside a character: the value so far, how many
bytes are still to come, and the range of the next one. -/
structure Pending where
  value : Nat
  missing : Nat
  low : UInt8
  high : UInt8
deriving DecidableEq, Repr

/-- What a first byte announces: nothing more after ASCII, a longer character,
or no character at all. -/
def Pending.ofLead? (b : UInt8) : Option Pending :=
  if b < 0xc2 then none
  else if b < 0xe0 then some ⟨(b - 0xc0).toNat, 1, 0x80, 0xbf⟩
  else if b = 0xe0 then some ⟨0, 2, 0xa0, 0xbf⟩
  else if b = 0xed then some ⟨13, 2, 0x80, 0x9f⟩
  else if b < 0xf0 then some ⟨(b - 0xe0).toNat, 2, 0x80, 0xbf⟩
  else if b = 0xf0 then some ⟨0, 3, 0x90, 0xbf⟩
  else if b < 0xf4 then some ⟨(b - 0xf0).toNat, 3, 0x80, 0xbf⟩
  else if b = 0xf4 then some ⟨4, 3, 0x80, 0x8f⟩
  else none

def decodeLead (b : UInt8) : List Char × Option Pending :=
  if b < 0x80 then ([Char.ofNat b.toNat], none)
  else
    match Pending.ofLead? b with
    | some pending => ([], some pending)
    | none => ([replacement], none)

/-- Read one byte: the characters it completes and where the decoder stands
after it.  A byte that cannot continue is read again as a first byte. -/
def decodeByte : Option Pending → UInt8 → List Char × Option Pending
  | none, b => decodeLead b
  | some p, b =>
      if p.low ≤ b ∧ b ≤ p.high then
        let value := p.value * 64 + (b.toNat - 0x80)
        if p.missing ≤ 1 then ([Char.ofNat value], none)
        else ([], some ⟨value, p.missing - 1, 0x80, 0xbf⟩)
      else
        let lead := decodeLead b
        (replacement :: lead.1, lead.2)

/-- Read bytes from the middle of a text.  A character cut off by the end is
one U+FFFD. -/
def decodeFrom : Option Pending → List UInt8 → List Char
  | none, [] => []
  | some _, [] => [replacement]
  | state, b :: rest =>
      let read := decodeByte state b
      read.1 ++ decodeFrom read.2 rest

def decode (bytes : List UInt8) : List Char :=
  decodeFrom none bytes

/-- Read bytes as text if they are the encoding of one. -/
def decode? (bytes : List UInt8) : Option (List Char) :=
  if encode (decode bytes) = bytes then some (decode bytes) else none

@[simp]
theorem encode_nil : encode [] = [] := rfl

@[simp]
theorem encode_append (s t : List Char) : encode (s ++ t) = encode s ++ encode t := by
  simp [encode]

@[simp]
theorem byteLength_nil : byteLength [] = 0 := rfl

@[simp]
theorem byteLength_append (s t : List Char) :
    byteLength (s ++ t) = byteLength s + byteLength t := by
  simp [byteLength, encode]

end GuestGate.Text
