import GuestGate.Text.Split
import Mathlib.Data.List.Basic

/-!
# Lines of a text

How a text falls into lines from its first characters on, and how a text is put together from
given lines.
-/

namespace GuestGate.Text

variable {a text line : List Char}

/-- A line break of two characters is read like one of the second character alone. -/
theorem lines_cons (c : Char) (rest : List Char) : lines (c :: rest) =
    if c = '\n' then [] :: lines rest
    else if c = '\r' ∧ rest.head? = some '\n' then lines rest
    else
      match lines rest with
      | [] => [[c]]
      | line :: more => (c :: line) :: more := by
  rw [lines.eq_def]
  split
  · next heq => cases heq
  · next heq =>
    cases heq
    rfl
  · next heq =>
    cases heq
    simp [lines]
  · next hline hpair heq =>
    cases heq
    have hnot : ¬ (c = '\r' ∧ rest.head? = some '\n') := by
      rintro ⟨hc, hhead⟩
      obtain ⟨more, hmore⟩ := List.head?_eq_some_iff.mp hhead
      exact hpair more hc hmore
    exact ((if_neg hline).trans (if_neg hnot)).symm

theorem newline_not_mem_of_mem_lines (h : line ∈ lines text) : '\n' ∉ line := by
  induction text generalizing line with
  | nil => simp at h
  | cons c rest ih =>
      rw [lines_cons] at h
      split at h
      · rcases List.mem_cons.mp h with rfl | hrest
        · exact List.not_mem_nil
        · exact ih hrest
      split at h
      · exact ih h
      · next hc _ =>
          cases hlines : lines rest with
          | nil =>
              rw [hlines, List.mem_singleton] at h
              rw [h, List.mem_singleton]
              exact Ne.symm hc
          | cons first more =>
              rw [hlines] at h ih
              rcases List.mem_cons.mp h with rfl | hmore
              · rw [List.mem_cons, not_or]
                exact ⟨Ne.symm hc, ih List.mem_cons_self⟩
              · exact ih (List.mem_cons_of_mem first hmore)

/-- The beginning of a text that breaks no line is the beginning of its first line. -/
theorem exists_lines_append (hne : a ≠ []) (hline : '\n' ∉ a) (hlast : a.getLast? ≠ some '\r')
    (rest : List Char) : ∃ first more, lines (a ++ rest) = (a ++ first) :: more := by
  induction a with
  | nil => exact absurd rfl hne
  | cons c a ih =>
      obtain ⟨hc, ha⟩ : '\n' ≠ c ∧ '\n' ∉ a := by simpa [not_or] using hline
      have hpair : ¬ (c = '\r' ∧ (a ++ rest).head? = some '\n') := by
        rintro ⟨rfl, hhead⟩
        cases a with
        | nil => exact hlast rfl
        | cons d more =>
            cases hhead
            exact ha List.mem_cons_self
      rw [List.cons_append, lines_cons, if_neg (Ne.symm hc), if_neg hpair]
      cases a with
      | nil => cases hlines : lines ([] ++ rest) <;> exact ⟨_, _, rfl⟩
      | cons d more =>
          obtain ⟨first, others, hlines⟩ := ih nofun ha (by simpa using hlast)
          rw [hlines]
          exact ⟨first, others, rfl⟩

/-- A text of some lines, each of them ended. -/
def ofLines (ls : List (List Char)) : List Char :=
  ls.flatMap (· ++ ['\r', '\n'])

theorem lines_line_append (h : '\n' ∉ line) (rest : List Char) :
    lines (line ++ '\r' :: '\n' :: rest) = line :: lines rest := by
  induction line with
  | nil => rfl
  | cons c line ih =>
      obtain ⟨hc, hline⟩ : '\n' ≠ c ∧ '\n' ∉ line := by simpa [not_or] using h
      have hhead : (line ++ '\r' :: '\n' :: rest).head? ≠ some '\n' := by
        cases line with
        | nil => simp
        | cons d more =>
            rintro ⟨⟩
            exact hline List.mem_cons_self
      rw [List.cons_append, lines_cons, if_neg (Ne.symm hc), if_neg fun hpair ↦ hhead hpair.2,
        ih hline]

theorem lines_ofLines {ls : List (List Char)} (h : ∀ line ∈ ls, '\n' ∉ line) :
    lines (ofLines ls) = ls := by
  induction ls with
  | nil => rfl
  | cons line ls ih =>
      obtain ⟨hline, hls⟩ := List.forall_mem_cons.mp h
      have hsplit : ofLines (line :: ls) = line ++ '\r' :: '\n' :: ofLines ls := by
        rw [ofLines, List.flatMap_cons, List.append_assoc]
        rfl
      rw [hsplit, lines_line_append hline, ih hls]

end GuestGate.Text
