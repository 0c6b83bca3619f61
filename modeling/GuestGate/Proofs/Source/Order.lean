import Mathlib.Data.Prod.Lex
import GuestGate.Source.Position

/-!
# The order of places

Places of a source are in order by line and, on one line, by column.  A text leads on from
where it starts, and strictly so unless it is empty.
-/

namespace GuestGate

namespace Position

instance : PartialOrder Position :=
  PartialOrder.lift (fun p ↦ toLex (p.line, p.column)) fun p q h ↦ by
    cases p
    cases q
    simpa using h

variable {p q : Position}

theorem le_iff : p ≤ q ↔ p.line < q.line ∨ p.line = q.line ∧ p.column ≤ q.column :=
  Prod.Lex.toLex_le_toLex

theorem lt_iff : p < q ↔ p.line < q.line ∨ p.line = q.line ∧ p.column < q.column :=
  Prod.Lex.toLex_lt_toLex

theorem before_iff : p.before q = true ↔ p ≤ q := by
  simp [before, le_iff]

theorem line_le (h : p ≤ q) : p.line ≤ q.line := by
  rcases le_iff.mp h with h | h <;> omega

theorem lt_next (p : Position) (c : Char) : p < p.next c := by
  rw [lt_iff, next]
  split
  · exact .inl (Nat.lt_succ_self _)
  · exact .inr ⟨rfl, Nat.lt_succ_self _⟩

theorem le_after (p : Position) (text : List Char) : p ≤ p.after text := by
  induction text generalizing p with
  | nil => exact le_refl p
  | cons c text ih =>
      rw [after_cons]
      exact (p.lt_next c).le.trans (ih _)

theorem lt_after (p : Position) {text : List Char} (h : text ≠ []) : p < p.after text := by
  cases text with
  | nil => exact absurd rfl h
  | cons c text =>
      rw [after_cons]
      exact (p.lt_next c).trans_le (le_after _ _)

end Position

end GuestGate
