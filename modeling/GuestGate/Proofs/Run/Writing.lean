import GuestGate.Proofs.Run.Capturing
import Mathlib.Data.List.Infix

/-!
# Any writes to captured output

Output takes text, lines and bytes as they are.  Of all that is written the buffer has a first
part that fits, and the output is marked as cut exactly if that is not everything.  A cut is made
in front of a byte that begins a character, so after writes of text the buffer is itself text, and
the longest one that fits.
-/

namespace GuestGate

open Text

inductive Write
  | text (chars : List Char)
  | line (chars : List Char)
  | raw (bytes : List UInt8)
deriving DecidableEq, Repr

namespace Write

def bytes : Write → List UInt8
  | text chars => encode chars
  | line chars => encode (chars ++ ['\n'])
  | raw bytes => bytes

/-- Whether the bytes that are written encode a text. -/
def IsText (w : Write) : Prop :=
  ∃ text, encode text = w.bytes

end Write

namespace Output

variable {out : Output} {all bytes : List UInt8} {kept rest : List Char} {n : Nat}

def perform (out : Output) : Write → Output
  | .text chars => out.write chars
  | .line chars => out.writeLine chars
  | .raw bytes => out.push bytes

/-! ### Bytes that are looked at -/

/-- `boundary`, where a byte must be there to be looked at. -/
def boundary? (bytes : List UInt8) : Nat → Option Nat
  | 0 => some 0
  | n + 1 => do
      let byte ← bytes[n + 1]?
      if isContinuation byte then boundary? bytes n else some (n + 1)

def slice? (bytes : List UInt8) (n : Nat) : Option (List UInt8) :=
  if n ≤ bytes.length then some (bytes.take n) else none

/-- `push` by means of those. -/
def push? (out : Output) (bytes : List UInt8) : Option Output :=
  if out.truncated then some out
  else
    let room := out.limit - out.buffer.size
    if bytes.length ≤ room then some { out with buffer := out.buffer ++ bytes }
    else do
      let place ← boundary? bytes room
      let first ← slice? bytes place
      some { out with buffer := out.buffer ++ first, truncated := true }

def perform? (out : Output) : Write → Option Output
  | .text chars => out.push? (encode chars)
  | .line chars => do
      let begun ← out.push? (encode chars)
      begun.push? (encode ['\n'])
  | .raw bytes => out.push? bytes

theorem boundary_le (bytes : List UInt8) (n : Nat) : boundary bytes n ≤ n := by
  induction n with
  | zero => exact Nat.le_refl 0
  | succ n ih =>
      rw [boundary]
      split
      · exact Nat.le_succ_of_le ih
      · exact Nat.le_refl (n + 1)

theorem boundary?_eq (h : n < bytes.length) : boundary? bytes n = some (boundary bytes n) := by
  induction n with
  | zero => rfl
  | succ n ih =>
      have hbyte : bytes[n + 1]? = some (bytes.getD (n + 1) 0) := by
        rw [List.getD_eq_getElem _ _ h]
        exact List.getElem?_eq_getElem h
      rw [boundary?, hbyte, Option.bind_eq_bind, Option.bind_some, boundary, ih (by omega)]
      split <;> rfl

/-- The place where the room ends is one where a byte follows, and places are only looked for in
front of it. -/
theorem push?_eq (out : Output) (bytes : List UInt8) : out.push? bytes = some (out.push bytes) := by
  rw [push?, push]
  split
  · rfl
  dsimp only
  split
  · rfl
  · next hlong =>
      have hinside : out.limit - out.buffer.size < bytes.length := by omega
      have hplace := boundary_le bytes (out.limit - out.buffer.size)
      have hslice : slice? bytes (boundary bytes (out.limit - out.buffer.size)) =
          some (bytes.take (boundary bytes (out.limit - out.buffer.size))) := by
        rw [slice?, if_pos (by omega)]
      rw [boundary?_eq hinside, Option.bind_eq_bind, Option.bind_some, hslice]
      rfl

theorem perform?_eq (out : Output) (w : Write) : out.perform? w = some (out.perform w) := by
  cases w with
  | text chars => exact push?_eq out _
  | line chars =>
      rw [perform?, push?_eq, Option.bind_eq_bind, Option.bind_some, push?_eq]
      rfl
  | raw bytes => exact push?_eq out bytes

theorem foldlM_perform? (out : Output) (writes : List Write) :
    writes.foldlM perform? out = some (writes.foldl perform out) := by
  induction writes generalizing out with
  | nil => rfl
  | cons w writes ih =>
      rw [List.foldlM_cons, perform?_eq, Option.bind_eq_bind, Option.bind_some, ih]
      rfl

/-! ### All bytes -/

structure Holds (out : Output) (all : List UInt8) : Prop where
  begins : out.buffer.toList <+: all
  fits : out.buffer.size ≤ out.limit
  whole : out.truncated = false → out.buffer.toList = all
  cut : out.truncated = true → out.limit < all.length

theorem holds_empty (limit : Nat) : Holds { limit } [] :=
  ⟨List.prefix_rfl, Nat.zero_le limit, fun _ ↦ rfl, nofun⟩

theorem Holds.push (h : Holds out all) (bytes : List UInt8) :
    Holds (out.push bytes) (all ++ bytes) := by
  have hfits := h.fits
  cases htruncated : out.truncated with
  | true =>
      -- nothing is taken after a cut, so what is kept stays a first part
      have hcut := h.cut htruncated
      rw [push_of_truncated htruncated]
      refine ⟨h.begins.trans (List.prefix_append all bytes), h.fits, ?_, fun _ ↦ ?_⟩
      · simp [htruncated]
      · rw [List.length_append]
        omega
  | false =>
      have hwhole := h.whole htruncated
      have hsize : out.buffer.size = all.length := by rw [← Array.length_toList, hwhole]
      by_cases hroom : bytes.length ≤ out.limit - out.buffer.size
      · have hbuffer : (out.buffer ++ bytes).toList = all ++ bytes := by
          rw [Array.toList_appendList, hwhole]
        rw [push_of_room htruncated hroom]
        refine ⟨?_, ?_, fun _ ↦ hbuffer, by simp [htruncated]⟩
        · rw [hbuffer]
        · change (out.buffer ++ bytes).size ≤ out.limit
          rw [← Array.length_toList, hbuffer, List.length_append]
          omega
      · -- the first bytes go as far as the room at most
        have hplace := boundary_le bytes (out.limit - out.buffer.size)
        have hpush := push_of_long htruncated hroom
        have hbuffer : (out.push bytes).buffer.toList =
            all ++ bytes.take (boundary bytes (out.limit - out.buffer.size)) := by
          rw [hpush, Array.toList_appendList, hwhole]
        refine ⟨?_, ?_, ?_, fun _ ↦ ?_⟩
        · rw [hbuffer]
          exact (List.prefix_append_right_inj all).mpr (List.take_prefix _ bytes)
        · rw [← Array.length_toList, hbuffer, limit_push, List.length_append, List.length_take]
          omega
        · rw [hpush]
          nofun
        · rw [limit_push, List.length_append]
          omega

theorem Holds.perform (h : Holds out all) (w : Write) :
    Holds (out.perform w) (all ++ w.bytes) := by
  cases w with
  | text chars => exact h.push (encode chars)
  | line chars =>
      rw [Write.bytes, encode_append, ← List.append_assoc]
      exact (h.push (encode chars)).push (encode ['\n'])
  | raw bytes => exact h.push bytes

theorem Holds.foldl_perform (h : Holds out all) (writes : List Write) :
    Holds (writes.foldl Output.perform out) (all ++ writes.flatMap Write.bytes) := by
  induction writes generalizing out all with
  | nil =>
      rw [List.flatMap_nil, List.append_nil]
      exact h
  | cons w writes ih =>
      rw [List.foldl_cons, List.flatMap_cons, ← List.append_assoc]
      exact ih (h.perform w)

theorem Holds.truncated_iff (h : Holds out all) : out.truncated = true ↔ out.limit < all.length := by
  constructor
  · exact h.cut
  · intro hlong
    cases htruncated : out.truncated with
    | true => rfl
    | false =>
        have hfits := h.fits
        rw [← Array.length_toList, h.whole htruncated] at hfits
        omega

theorem limit_foldl_perform (out : Output) (writes : List Write) :
    (writes.foldl perform out).limit = out.limit := by
  induction writes generalizing out with
  | nil => rfl
  | cons w writes ih =>
      rw [List.foldl_cons, ih]
      cases w <;> simp [perform, writeLine, write]

theorem perform_of_truncated (h : out.truncated = true) (w : Write) : out.perform w = out := by
  cases w with
  | text chars => exact push_of_truncated h _
  | line chars =>
      rw [perform, writeLine, write, write, push_of_truncated h]
      exact push_of_truncated h _
  | raw bytes => exact push_of_truncated h bytes

theorem foldl_perform_of_truncated (h : out.truncated = true) (writes : List Write) :
    writes.foldl perform out = out := by
  induction writes with
  | nil => rfl
  | cons w writes ih => rw [List.foldl_cons, perform_of_truncated h, ih]

/-! ### Text -/

theorem Captures.perform (h : Captures out kept rest) {w : Write} (hw : w.IsText) :
    ∃ text kept' rest', encode text = w.bytes ∧ kept' ++ rest' = kept ++ rest ++ text ∧
      Captures (out.perform w) kept' rest' := by
  cases w with
  | text chars =>
      obtain ⟨kept', rest', hsplit, hwritten⟩ := h.write chars
      exact ⟨chars, kept', rest', rfl, hsplit, hwritten⟩
  | line chars =>
      obtain ⟨begun, left, hbegun, hwritten⟩ := h.write chars
      obtain ⟨kept', rest', hsplit, hended⟩ := hwritten.write ['\n']
      refine ⟨chars ++ ['\n'], kept', rest', rfl, ?_, hended⟩
      rw [hsplit, hbegun, List.append_assoc]
  | raw bytes =>
      obtain ⟨text, rfl⟩ : ∃ text, encode text = bytes := hw
      obtain ⟨kept', rest', hsplit, hwritten⟩ := h.write text
      exact ⟨text, kept', rest', rfl, hsplit, hwritten⟩

theorem Captures.foldl_perform (h : Captures out kept rest) {writes : List Write}
    (hwrites : ∀ w ∈ writes, w.IsText) :
    ∃ text kept' rest', encode text = writes.flatMap Write.bytes ∧
      kept' ++ rest' = kept ++ rest ++ text ∧
      Captures (writes.foldl Output.perform out) kept' rest' := by
  induction writes generalizing out kept rest with
  | nil => exact ⟨[], kept, rest, rfl, by simp, h⟩
  | cons w writes ih =>
      obtain ⟨first, begun, left, hfirst, hbegun, hwritten⟩ := h.perform (hwrites w List.mem_cons_self)
      obtain ⟨others, kept', rest', hothers, hsplit, hended⟩ :=
        ih hwritten fun w hw ↦ hwrites w (List.mem_cons_of_mem _ hw)
      refine ⟨first ++ others, kept', rest', ?_, ?_, hended⟩
      · rw [encode_append, hfirst, hothers, List.flatMap_cons]
      · rw [hsplit, hbegun, List.append_assoc]

/-- What is kept goes as far as any first part of the text that fits. -/
theorem Captures.prefix_kept (h : Captures out kept rest) {first : List Char}
    (hfirst : first <+: kept ++ rest) (hfits : byteLength first ≤ out.limit) : first <+: kept := by
  cases htruncated : out.truncated with
  | false =>
      rw [h.whole htruncated, List.append_nil] at hfirst
      exact hfirst
  | true =>
      obtain ⟨c, others, rfl, hcut⟩ := h.cut htruncated
      have hnext : ¬ kept ++ [c] <+: first := by
        rintro ⟨more, rfl⟩
        simp only [byteLength_append] at hfits
        omega
      have hone : kept ++ [c] <+: kept ++ c :: others := ⟨others, by simp⟩
      obtain hbefore | hbehind := List.prefix_or_prefix_of_prefix hfirst hone
      · obtain rfl | hkept := List.prefix_concat_iff.mp hbefore
        · exact absurd List.prefix_rfl hnext
        · exact hkept
      · exact absurd hbehind hnext

/-- Of all that is written the buffer has a first part that fits, and the output is cut exactly if
there is more; then nothing is taken any more.  If the writes are text, so is the buffer, and no
longer first part that is text would fit. -/
theorem writes_captured (limit : Nat) (writes : List Write) :
    let out := writes.foldl perform { limit }
    let all := writes.flatMap Write.bytes
    writes.foldlM perform? { limit } = some out ∧
    out.buffer.toList <+: all ∧ out.buffer.size ≤ limit ∧
    (out.truncated = true ↔ limit < all.length) ∧
    ((∀ w ∈ writes, w.IsText) → ∃ kept, out.buffer.toList = encode kept ∧
      ∀ first, encode first <+: all → byteLength first ≤ limit → first <+: kept) ∧
    (out.truncated = true → ∀ more : List Write, more.foldl perform out = out) := by
  intro out all
  have hlimit : out.limit = limit := limit_foldl_perform { limit } writes
  have hholds : Holds out all := (holds_empty limit).foldl_perform writes
  refine ⟨foldlM_perform? { limit } writes, hholds.begins, ?_, ?_, ?_, ?_⟩
  · exact hlimit ▸ hholds.fits
  · exact hlimit ▸ hholds.truncated_iff
  · intro hwrites
    obtain ⟨text, kept, rest, htext, hsplit, hcaptures⟩ :=
      (captures_empty limit).foldl_perform hwrites
    refine ⟨kept, hcaptures.buffer, fun first hfirst hfits ↦ ?_⟩
    have hbegins : encode first <+: encode text := by
      rw [htext]
      exact hfirst
    refine hcaptures.prefix_kept ?_ ?_
    · rw [hsplit]
      exact encode_prefix_iff.mp hbegins
    · rwa [limit_foldl_perform]
  · exact foldl_perform_of_truncated

/-- The euro sign does not fit as a whole. -/
example : (([.text ['a', 'ñ', '€'], .line ['z']] : List Write).foldl perform
    { limit := 5 }).text = "añ" := by
  decide +kernel

end Output

end GuestGate
