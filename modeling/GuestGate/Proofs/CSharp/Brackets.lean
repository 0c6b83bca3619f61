import GuestGate.Proofs.CSharp.Header

/-!
# Brackets that match

Counted from the left, no beginning of some tokens closes more brackets than it opens, and in the
end all are closed.  That is what the walk over the tokens finds that keeps only a depth.
-/

namespace GuestGate.CSharp

variable {ts : List Token} {t : Token}

namespace Brackets

variable {b : Brackets} {depth : Nat}

/-- Behind a number of open brackets, some tokens close these and all that they open themselves,
none before it has been opened, and what separates stands inside of brackets. -/
structure Matched (b : Brackets) (depth : Nat) (ts : List Token) : Prop where
  closes_le : ∀ us, us <+: ts → us.countP b.closes ≤ depth + us.countP b.opens
  closed : ts.countP b.closes = depth + ts.countP b.opens
  inside : ∀ us t, us ++ [t] <+: ts → b.separates t = true →
    us.countP b.closes < depth + us.countP b.opens

/-- Whether what opens a bracket does nothing else. -/
def Proper (b : Brackets) : Prop :=
  ∀ t, b.opens t = true → b.closes t = false ∧ b.separates t = false

theorem proper_blocks : blocks.Proper := fun _ h ↦ ⟨Token.isPunct_eq h _, rfl⟩

theorem proper_ofParameters : ofParameters.Proper := by
  intro t h
  simp only [ofParameters, Token.opensGroup, Bool.or_eq_true] at h
  simp only [ofParameters, Token.closesGroup]
  obtain (h | h) | h := h <;> simp [Token.isPunct_eq h]

theorem matched_nil_iff : b.Matched depth [] ↔ depth = 0 := by
  constructor
  · intro h
    simpa using h.closed.symm
  · rintro rfl
    refine ⟨fun us hus ↦ ?_, rfl, fun us t hus ↦ ?_⟩
    · rw [List.prefix_nil.mp hus]
      exact Nat.le_refl _
    · simp at hus

/-- What the first token does to the number of open brackets. -/
theorem matched_cons_iff : b.Matched depth (t :: ts) ↔
    (b.closes t = true → 0 < depth + if b.opens t then 1 else 0) ∧
      (b.separates t = true → 0 < depth) ∧
      b.Matched (depth + (if b.opens t then 1 else 0) - if b.closes t then 1 else 0) ts := by
  constructor
  · intro h
    have hfirst := h.closes_le [t] ⟨ts, rfl⟩
    simp only [List.countP_singleton] at hfirst
    have hclosed := h.closed
    rw [List.countP_cons, List.countP_cons] at hclosed
    refine ⟨fun hcloses ↦ ?_, fun hseparates ↦ ?_, fun us hus ↦ ?_, ?_, fun us u hus hu ↦ ?_⟩
    · rw [if_pos hcloses] at hfirst
      exact hfirst
    · exact h.inside [] t ⟨ts, rfl⟩ hseparates
    · have hle := h.closes_le (t :: us) ((List.prefix_cons_inj t).mpr hus)
      rw [List.countP_cons, List.countP_cons] at hle
      omega
    · omega
    · have hlt := h.inside (t :: us) u ((List.prefix_cons_inj t).mpr hus) hu
      rw [List.countP_cons, List.countP_cons] at hlt
      omega
  · rintro ⟨hcloses, hseparates, h⟩
    have hfirst : (if b.closes t then 1 else 0) ≤ depth + if b.opens t then 1 else 0 := by
      split
      · next hclose => exact hcloses hclose
      · exact Nat.zero_le _
    refine ⟨fun us hus ↦ ?_, ?_, fun us u hus hu ↦ ?_⟩
    · -- a first part is empty, or the first token with a first part of the others
      obtain rfl | ⟨vs, rfl, hvs⟩ := List.prefix_cons_iff.mp hus
      · exact Nat.zero_le _
      · have hle := h.closes_le vs hvs
        rw [List.countP_cons, List.countP_cons]
        omega
    · have hclosed := h.closed
      rw [List.countP_cons, List.countP_cons]
      omega
    · cases us with
      | nil =>
          obtain rfl : u = t := by simpa using hus
          exact hseparates hu
      | cons v vs =>
          obtain ⟨rfl, hvs⟩ := List.cons_prefix_cons.mp hus
          have hlt := h.inside vs u hvs hu
          rw [List.countP_cons, List.countP_cons]
          omega

/-- The depth that is kept while the tokens are read finds out whether brackets match. -/
theorem Proper.balanced_iff (hb : b.Proper) :
    b.balanced depth ts = true ↔ b.Matched depth ts := by
  induction ts generalizing depth with
  | nil => rw [matched_nil_iff, balanced, beq_iff_eq]
  | cons t ts ih =>
      rw [matched_cons_iff]
      cases hopens : b.opens t with
      | true =>
          obtain ⟨hcloses, hseparates⟩ := hb t hopens
          have hstep : b.balanced depth (t :: ts) = b.balanced (depth + 1) ts := by
            cases depth <;> simp [balanced, hopens]
          simp [hstep, ih, hcloses, hseparates]
      | false =>
          cases depth with
          | zero => cases hcloses : b.closes t <;> simp [balanced, ih, hopens, hcloses]
          | succ depth => cases hcloses : b.closes t <;> simp [balanced, ih, hopens, hcloses]

end Brackets

end GuestGate.CSharp
