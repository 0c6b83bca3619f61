import GuestGate.Text.Split

/-!
# Texts cut in two

Where the first and the last separator of a text stand.
-/

namespace GuestGate.Text

theorem cutLast_eq_none_of_not_mem {separator : Char} {text : List Char}
    (h : separator ∉ text) : cutLast separator text = none := by
  cases hcut : cutLast separator text with
  | none => rfl
  | some parts =>
      have happend := append_of_cutLast hcut
      exact absurd (happend ▸ by simp) h

theorem cutLast_append_cons {separator : Char} (before : List Char) {after : List Char}
    (h : separator ∉ after) :
    cutLast separator (before ++ separator :: after) = some (before, after) := by
  induction before with
  | nil => simp [cutLast, cutLast_eq_none_of_not_mem h]
  | cons c rest ih => simp [cutLast, ih]

/-- A cut passes over a character that does not begin the separator. -/
theorem cut_cons_of_ne {first c : Char} (h : first ≠ c) (separator text : List Char) :
    cut (first :: separator) (c :: text) =
      (cut (first :: separator) text).map fun parts ↦ (c :: parts.1, parts.2) := by
  simp [cut, h]

theorem cut_append_eq_some_iff {separator : List Char} (h : separator ≠ [])
    (before after : List Char) :
    cut separator (before ++ (separator ++ after)) = some (before, after) ↔
      ¬ separator <:+: before ++ separator.dropLast := by
  have hpositive : 0 < separator.length := List.length_pos_iff.mpr h
  induction before with
  | nil =>
      have hcut : cut separator (separator ++ after) = some ([], after) := by
        obtain ⟨first, more, rfl⟩ := List.exists_cons_of_ne_nil h
        have hhere : (first :: more).isPrefixOf (first :: (more ++ after)) = true := by
          rw [List.isPrefixOf_iff_prefix]
          exact List.prefix_append (first :: more) after
        rw [List.cons_append, cut, if_pos hhere]
        simp
      refine iff_of_true hcut fun hwithin ↦ ?_
      have hle := hwithin.length_le
      rw [List.nil_append, List.length_dropLast] at hle
      omega
  | cons c rest ih =>
      -- at the first character the separator reaches at most up to its own last one
      have hreach : c :: (rest ++ separator.dropLast) <+: c :: (rest ++ (separator ++ after)) := by
        rw [List.prefix_cons_inj, List.prefix_append_right_inj]
        exact (List.dropLast_prefix _).trans (List.prefix_append _ _)
      have hprefix : separator <+: c :: (rest ++ (separator ++ after)) ↔
          separator <+: c :: (rest ++ separator.dropLast) := by
        refine ⟨fun hstart ↦ List.prefix_of_prefix_length_le hstart hreach ?_,
          fun hstart ↦ hstart.trans hreach⟩
        simp only [List.length_cons, List.length_append, List.length_dropLast]
        omega
      rw [List.cons_append, List.cons_append, List.infix_cons_iff, ← hprefix, not_or, cut,
        ← List.isPrefixOf_iff_prefix]
      split
      · next hstart => simp [hstart]
      · next hstart =>
          refine Iff.trans ?_ (ih.trans (and_iff_right hstart).symm)
          rw [Option.map_eq_some_iff]
          constructor
          · rintro ⟨⟨_, _⟩, hparts, heq⟩
            cases heq
            exact hparts
          · exact fun hparts ↦ ⟨_, hparts, rfl⟩

/-- A text is cut at a character that does not occur before. -/
theorem cut_append_cons {c : Char} {before : List Char} (h : c ∉ before) (after : List Char) :
    cut [c] (before ++ c :: after) = some (before, after) := by
  apply (cut_append_eq_some_iff (List.cons_ne_nil c []) before after).mpr
  rw [List.dropLast_singleton, List.append_nil]
  intro hwithin
  exact h (hwithin.subset List.mem_cons_self)

end GuestGate.Text
