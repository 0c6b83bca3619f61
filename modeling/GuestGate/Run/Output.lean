import GuestGate.Text.Utf8

/-!
# Captured output

What a guest writes to its console, up to a number of bytes.  Text is cut in
front of the first character that does not fit, and nothing is taken after a
cut.
-/

namespace GuestGate

/-- A buffer of at most `limit` bytes. -/
structure Output where
  limit : Nat
  buffer : Array UInt8 := #[]
  /-- Whether something did not fit. -/
  truncated : Bool := false
deriving DecidableEq, Repr

namespace Output

def isContinuation (b : UInt8) : Bool :=
  b &&& 0xc0 == 0x80

/-- The last place at or before a given one where a character starts.  The
place is one where a byte follows. -/
def boundary (bytes : List UInt8) : Nat → Nat
  | 0 => 0
  | n + 1 => if isContinuation (bytes.getD (n + 1) 0) then boundary bytes n else n + 1

def push (out : Output) (bytes : List UInt8) : Output :=
  if out.truncated then out
  else
    let room := out.limit - out.buffer.size
    if bytes.length ≤ room then { out with buffer := out.buffer ++ bytes }
    else
      { out with
        buffer := out.buffer ++ bytes.take (boundary bytes room)
        truncated := true }

def write (out : Output) (text : List Char) : Output :=
  out.push (Text.encode text)

def writeLine (out : Output) (text : List Char) : Output :=
  (out.write text).write ['\n']

def text (out : Output) : String :=
  String.ofList (Text.decode out.buffer.toList)

end Output

end GuestGate
