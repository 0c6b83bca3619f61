import GuestGate.Proofs.Fallible
import GuestGate.Text.Split
import GuestGate.Text.Utf8

/-!
# Access with faults

Texts are cut at byte offsets, lists are looked up by index and numbers are subtracted.  Each of
these is a fault where there is nothing to be had: behind the end, inside of a character, below
zero.  Offsets that come from looking at the text itself are never one.
-/

namespace GuestGate

/-- What goes wrong when something is looked up that is not there. -/
inductive Fault
  | outOfRange
  | insideCharacter
  | belowZero
  | overflow
deriving DecidableEq, Repr

namespace Checked

open Text

variable {α β : Type}

theorem ok_bind (a : α) (next : α → Except Fault β) : (Except.ok a >>= next) = next a := rfl

/-- Go on with a result and the knowledge of where it comes from, which a recursion may need. -/
def pbind (first : Except Fault α) (next : ∀ a, first = .ok a → Except Fault β) :
    Except Fault β :=
  match first, next with
  | .error fault, _ => .error fault
  | .ok a, next => next a rfl

theorem pbind_of_eq_ok {first : Except Fault α} {a : α} (h : first = .ok a)
    (next : ∀ a, first = .ok a → Except Fault β) : pbind first next = next a h := by
  subst h
  rfl

/-! ### Numbers and lists -/

def minus (a b : Nat) : Except Fault Nat :=
  if b ≤ a then .ok (a - b) else .error .belowZero

def item (list : List α) (index : Nat) : Except Fault α :=
  match list[index]? with
  | some a => .ok a
  | none => .error .outOfRange

def upTo (list : List α) (index : Nat) : Except Fault (List α) :=
  if index ≤ list.length then .ok (list.take index) else .error .outOfRange

def onward (list : List α) (index : Nat) : Except Fault (List α) :=
  if index ≤ list.length then .ok (list.drop index) else .error .outOfRange

theorem minus_of_le {a b : Nat} (h : b ≤ a) : minus a b = .ok (a - b) := if_pos h

theorem item_of_getElem? {list : List α} {index : Nat} {a : α} (h : list[index]? = some a) :
    item list index = .ok a := by
  rw [item, h]

theorem upTo_of_le {list : List α} {index : Nat} (h : index ≤ list.length) :
    upTo list index = .ok (list.take index) := if_pos h

theorem onward_of_le {list : List α} {index : Nat} (h : index ≤ list.length) :
    onward list index = .ok (list.drop index) := if_pos h

/-! ### Texts -/

/-- The two parts of a text on either side of a byte offset. -/
def splitAt : List Char → Nat → Except Fault (List Char × List Char)
  | text, 0 => .ok ([], text)
  | [], _ + 1 => .error .outOfRange
  | c :: rest, n + 1 =>
      if c.utf8Size ≤ n + 1 then do
        let parts ← splitAt rest (n + 1 - c.utf8Size)
        .ok (c :: parts.1, parts.2)
      else .error .insideCharacter

def textUpTo (text : List Char) (offset : Nat) : Except Fault (List Char) := do
  let parts ← splitAt text offset
  .ok parts.1

def textFrom (text : List Char) (offset : Nat) : Except Fault (List Char) := do
  let parts ← splitAt text offset
  .ok parts.2

def slice (text : List Char) (first last : Nat) : Except Fault (List Char) := do
  let front ← textUpTo text last
  textFrom front first

theorem byteLength_cons (c : Char) (text : List Char) :
    byteLength (c :: text) = c.utf8Size + byteLength text := by
  simp [byteLength, encode]

/-- A text is cut without fault where one of its parts ends. -/
theorem splitAt_append (front back : List Char) :
    splitAt (front ++ back) (byteLength front) = .ok (front, back) := by
  induction front with
  | nil => cases back <;> rfl
  | cons c front ih =>
      have hpos := c.utf8Size_pos
      have hlength := byteLength_cons c front
      obtain ⟨n, hn⟩ : ∃ n, byteLength (c :: front) = n + 1 :=
        ⟨byteLength (c :: front) - 1, by omega⟩
      have hrest : n + 1 - c.utf8Size = byteLength front := by omega
      have hfits : c.utf8Size ≤ n + 1 := by omega
      rw [hn, List.cons_append, splitAt, if_pos hfits, hrest, ih]
      rfl

theorem textUpTo_append (front back : List Char) :
    textUpTo (front ++ back) (byteLength front) = .ok front := by
  rw [textUpTo, splitAt_append]
  rfl

theorem textFrom_append (front back : List Char) :
    textFrom (front ++ back) (byteLength front) = .ok back := by
  rw [textFrom, splitAt_append]
  rfl

theorem append_of_splitAt {text : List Char} {n : Nat} {parts : List Char × List Char}
    (h : splitAt text n = .ok parts) : parts.1 ++ parts.2 = text ∧ byteLength parts.1 = n := by
  induction text generalizing n parts with
  | nil =>
      cases n with
      | zero =>
          cases h
          exact ⟨rfl, rfl⟩
      | succ n => cases h
  | cons c text ih =>
      cases n with
      | zero =>
          cases h
          exact ⟨rfl, rfl⟩
      | succ n =>
          rw [splitAt] at h
          split at h
          · next hfits =>
              obtain ⟨inner, hinner, hparts⟩ := bind_eq_ok_iff.mp h
              obtain ⟨happend, hlength⟩ := ih hinner
              cases hparts
              refine ⟨congrArg (c :: ·) happend, ?_⟩
              rw [byteLength_cons, hlength]
              omega
          · cases h

/-- What is left behind an offset is shorter than the text, unless the offset is zero. -/
theorem length_of_textFrom {text rest : List Char} {n : Nat} (h : textFrom text n = .ok rest) :
    rest.length ≤ text.length ∧ (0 < n → rest.length < text.length) := by
  obtain ⟨parts, hparts, hrest⟩ := bind_eq_ok_iff.mp h
  obtain ⟨happend, hlength⟩ := append_of_splitAt hparts
  cases hrest
  have hsum := congrArg List.length happend
  rw [List.length_append] at hsum
  refine ⟨by omega, fun hpos ↦ ?_⟩
  have hfront : 0 < parts.1.length := by
    apply List.length_pos_iff.mpr
    intro hnil
    rw [hnil, byteLength_nil] at hlength
    omega
  omega

theorem slice_append (front inner back : List Char) :
    slice (front ++ inner ++ back) (byteLength front) (byteLength (front ++ inner)) =
      .ok inner := by
  rw [slice, textUpTo_append, ok_bind, textFrom_append]

def find? (piece text : List Char) : Option Nat :=
  (cut piece text).map fun parts ↦ byteLength parts.1

/-! ### Characters with their offsets -/

/-- The characters of a text with the byte offsets at which they begin, counted on from one. -/
def offsetsFrom : Nat → List Char → List (Nat × Char)
  | _, [] => []
  | offset, c :: rest => (offset, c) :: offsetsFrom (offset + c.utf8Size) rest

/-- The byte offset of a character by its index, which for the index behind the last one is the
end of the text. -/
def offsetOf (text : List Char) (index : Nat) : Nat :=
  match (offsetsFrom 0 text)[index]? with
  | some (offset, _) => offset
  | none => byteLength text

theorem getElem?_offsetsFrom (offset : Nat) (front back : List Char) :
    (offsetsFrom offset (front ++ back))[front.length]? =
      back.head?.map fun c ↦ (offset + byteLength front, c) := by
  induction front generalizing offset with
  | nil => cases back <;> rfl
  | cons c front ih =>
      rw [List.cons_append, offsetsFrom, List.length_cons, List.getElem?_cons_succ, ih,
        byteLength_cons, Nat.add_assoc]

theorem offsetOf_append (front back : List Char) :
    offsetOf (front ++ back) front.length = byteLength front := by
  rw [offsetOf, getElem?_offsetsFrom]
  cases back with
  | nil => rw [List.head?_nil, Option.map_none, List.append_nil]
  | cons c back => rw [List.head?_cons, Option.map_some, Nat.zero_add]

end Checked

end GuestGate
