import GuestGate.Proofs.Text.Lines
import GuestGate.Proofs.Text.Words

/-!
# Texts in another case

A text is respelled when some of its letters are put into the other case.  It then has the same
lines, words and blanks, up to the case of the letters in them, and compares in the same way.
-/

namespace GuestGate.Text

/-- A change of characters to characters that differ in case at most. -/
def Respells (f : Char → Char) : Prop :=
  ∀ c, (f c).toLower = c.toLower

variable {c d : Char} {f : Char → Char}

theorem toNat_toUpper (c : Char) :
    c.toUpper.toNat = if 97 ≤ c.toNat ∧ c.toNat ≤ 122 then c.toNat - 32 else c.toNat := by
  have hlower : ('a'.val ≤ c.val ∧ c.val ≤ 'z'.val) ↔ (97 ≤ c.toNat ∧ c.toNat ≤ 122) := by
    simp only [UInt32.le_iff_toNat_le]
    rfl
  by_cases h : 'a'.val ≤ c.val ∧ c.val ≤ 'z'.val
  · have hrange := hlower.mp h
    have hupper : c.toUpper = ⟨c.val + ('A'.val - 'a'.val), _⟩ := dif_pos h
    -- The distance between the cases is negative, and added modulo the size of a word.
    have hstep : ('A'.val - 'a'.val).toNat = 4294967264 := by decide
    have hvalue : c.val.toNat = c.toNat := rfl
    rw [if_pos hrange, hupper, Char.toNat, UInt32.toNat_add, hstep, hvalue]
    omega
  · have hupper : c.toUpper = c := dif_neg h
    rw [if_neg fun h' ↦ h (hlower.mpr h'), hupper]

theorem respells_toUpper : Respells Char.toUpper := by
  intro c
  apply Char.toNat_inj.mp
  rw [toNat_toLower, toNat_toLower, toNat_toUpper]
  split_ifs <;> omega

theorem toLower_eq_self (h : c.isAlpha = false) : c.toLower = c := by
  apply Char.toNat_inj.mp
  have hrange : ¬ c.isAlpha = true := by simp [h]
  rw [isAlpha_iff] at hrange
  rw [toNat_toLower]
  split <;> omega

namespace Respells

variable (hf : Respells f)

include hf

theorem isAlpha (c : Char) : (f c).isAlpha = c.isAlpha := by
  rw [← isAlpha_toLower, hf c, isAlpha_toLower]

/-- Only letters change. -/
theorem eq_self (h : c.isAlpha = false) : f c = c := by
  rw [← toLower_eq_self ((hf.isAlpha c).trans h), hf c, toLower_eq_self h]

theorem eq_iff (h : d.isAlpha = false) : f c = d ↔ c = d := by
  constructor
  · intro hfc
    have hc : c.isAlpha = false := by rw [← hf.isAlpha c, hfc, h]
    rwa [hf.eq_self hc] at hfc
  · rintro rfl
    exact hf.eq_self h

theorem beq_eq (h : d.isAlpha = false) : (f c == d) = (c == d) := by
  rw [Bool.eq_iff_iff, beq_iff_eq, beq_iff_eq, hf.eq_iff h]

theorem isBlank (c : Char) : isBlank (f c) = isBlank c := by
  cases hc : c.isAlpha with
  | false => rw [hf.eq_self hc]
  | true => rw [isBlank_of_isAlpha hc, isBlank_of_isAlpha ((hf.isAlpha c).trans hc)]

theorem sameWord_map (word other : List Char) :
    sameWord (word.map f) other = sameWord word other := by
  have hlower : (word.map f).map Char.toLower = word.map Char.toLower := by
    simpa using fun c _ ↦ hf c
  rw [Bool.eq_iff_iff, sameWord_iff, sameWord_iff, hlower]

end Respells

theorem map_append (f : Char → Char) (a b : String) : (a ++ b).map f = a.map f ++ b.map f := by
  simp [← String.toList_inj]

theorem map_intercalate (f : Char → Char) (separator : String) (parts : List String) :
    (separator.intercalate parts).map f =
      (separator.map f).intercalate (parts.map (String.map f)) := by
  induction parts with
  | nil => simp [← String.toList_inj]
  | cons part rest ih =>
      cases rest with
      | nil => simp
      | cons other more =>
          rw [String.intercalate_cons_cons, map_append, map_append, ih]
          simp

/-! ### Pieces of a respelled text -/

namespace Respells

variable (hf : Respells f)

include hf

theorem lines_map (text : List Char) : lines (text.map f) = (lines text).map (List.map f) := by
  induction text with
  | nil => rfl
  | cons c rest ih =>
      have hhead : (rest.map f).head? = some '\n' ↔ rest.head? = some '\n' := by
        simp [hf.eq_iff (d := '\n') rfl]
      rw [List.map_cons, lines_cons, lines_cons]
      simp only [ih, hhead, hf.eq_iff (d := '\n') rfl, hf.eq_iff (d := '\r') rfl]
      split
      · rfl
      split
      · rfl
      cases lines rest <;> rfl

theorem words_map (text : List Char) : words (text.map f) = (words text).map (List.map f) := by
  induction text with
  | nil => rfl
  | cons c rest ih =>
      rw [List.map_cons, words.eq_def, words.eq_def (c :: rest)]
      dsimp only
      rw [hf.isBlank, ih]
      split
      · rfl
      cases rest with
      | nil => rfl
      | cons d more =>
          cases words (d :: more) with
          | nil => rfl
          | cons word others =>
              simp only [List.map_cons, hf.isBlank]
              split <;> rfl

theorem trimStart_map (text : List Char) : trimStart (text.map f) = (trimStart text).map f := by
  have hblank : Text.isBlank ∘ f = Text.isBlank := funext hf.isBlank
  rw [trimStart, List.dropWhile_map, hblank, trimStart]

theorem trim_map (text : List Char) : trim (text.map f) = (trim text).map f := by
  have hend : ∀ text : List Char, trimEnd text = (trimStart text.reverse).reverse := fun _ ↦ rfl
  rw [trim, hf.trimStart_map, hend, ← List.map_reverse, hf.trimStart_map, ← List.map_reverse,
    ← hend, trim]

theorem cut_map (hd : d.isAlpha = false) (text : List Char) :
    cut [d] (text.map f) = (cut [d] text).map (Prod.map (List.map f) (List.map f)) := by
  induction text with
  | nil => rfl
  | cons c rest ih =>
      have hhead : (d == f c) = (d == c) := by
        rw [BEq.comm, hf.beq_eq hd, BEq.comm]
      simp only [cut, List.map_cons, List.isPrefixOf, hhead, ih]
      by_cases hc : d = c
      · simp [hc]
      · simp only [beq_eq_false_iff_ne.mpr hc]
        cases cut [d] rest <;> rfl

end Respells

end GuestGate.Text
