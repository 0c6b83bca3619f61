import GuestGate.Proofs.CSharp.Cursor
import GuestGate.Proofs.CSharp.Units
import Mathlib.Data.List.Induction

/-!
# Tokens tile the text

A text is a row of tokens with gaps of blanks, comments and `#` lines between them.  The place of
a token is told by the line breaks in front of it, and a lexer that counts lines and columns in
words of 32 bits comes to the same places as long as a text has no more of either.
-/

namespace GuestGate

/-- The characters of a text since its last line break, the last one first. -/
def sinceBreak (text : List Char) : List Char :=
  text.reverse.takeWhile (· != '\n')

theorem sinceBreak_concat (text : List Char) (c : Char) :
    sinceBreak (text ++ [c]) = if c = '\n' then [] else c :: sinceBreak text := by
  unfold sinceBreak
  rw [List.reverse_concat, List.takeWhile_cons]
  by_cases hbreak : c = '\n' <;> simp [hbreak]

theorem length_sinceBreak_le (text : List Char) : (sinceBreak text).length ≤ text.length := by
  have hle := (List.takeWhile_prefix (l := text.reverse) (· != '\n')).length_le
  rwa [List.length_reverse] at hle

/-- The place behind a text, by its line breaks. -/
def Position.behind (text : List Char) : Position :=
  ⟨1 + text.count '\n', 1 + (sinceBreak text).length⟩

theorem Position.after_start (text : List Char) : start.after text = behind text := by
  induction text using List.reverseRecOn with
  | nil => rfl
  | append_singleton text c ih =>
      rw [after_append, ih, after_cons, after_nil, next, behind, behind, sinceBreak_concat,
        List.count_append, List.count_singleton]
      by_cases hbreak : c = '\n'
      · simp [hbreak, Nat.add_assoc]
      · simp [hbreak, Nat.add_comm]

/-- A text with fewer lines and columns than there are words. -/
structure FitsWords (text : List Char) : Prop where
  lines : 1 + text.count '\n' < 0x100000000
  columns : ∀ first, first <+: text → (sinceBreak first).length < 0x100000000

namespace CSharp

/-- A row of pieces between tokens, and the text behind it. -/
inductive Gap : List Char → List Char → Prop
  | nil {rest : List Char} : Gap [] rest
  | cons {unit gap rest : List Char} (hunit : Skipped unit (gap ++ rest)) (h : Gap gap rest) :
      Gap (unit ++ gap) rest

/-- Some tokens and the gaps in front of them, up to the end, are a text that stands behind
another.  No gap could go on where its token begins. -/
inductive Tiled : List Char → List Char → List Token → Prop
  | last {before gap : List Char} (hgap : Gap gap []) : Tiled before gap []
  | token {before gap rest : List Char} {t : Token} {ts : List Token}
      (hgap : Gap gap (t.text ++ rest)) (hne : t.text ≠ [])
      (hends : ∀ unit left, t.text ++ rest = unit ++ left → ¬ Skipped unit left)
      (hplace : t.position = .behind (before ++ gap))
      (h : Tiled (before ++ gap ++ t.text) rest ts) :
      Tiled before (gap ++ (t.text ++ rest)) (t :: ts)

variable {before rest text unit : List Char} {c : Char} {t : Token} {ts : List Token}

theorem Tiled.skip (hunit : Skipped unit rest) (h : Tiled (before ++ unit) rest ts) :
    Tiled before (unit ++ rest) ts := by
  cases h with
  | last hgap =>
      apply Tiled.last
      apply Gap.cons _ hgap
      rwa [List.append_nil]
  | token hgap hne hends hplace h =>
      rw [List.append_assoc before] at h hplace
      rw [← List.append_assoc unit]
      exact .token (.cons hunit hgap) hne hends hplace h

/-- A piece is either passed over or a token where nothing can be passed over. -/
theorem nextPiece_cases (c : Char) (rest : List Char) :
    (∃ taken left, nextPiece c rest = (⟨none, taken⟩, left) ∧ Skipped taken left) ∨
    ∃ kind taken left, nextPiece c rest = (⟨some kind, taken⟩, left) ∧ taken ≠ [] ∧
      ∀ unit behind, c :: rest = unit ++ behind → ¬ Skipped unit behind := by
  cases hskipped : triviaPiece? c rest with
  | some parts =>
      obtain ⟨taken, left⟩ := parts
      refine .inl ⟨c :: taken, left, by rw [nextPiece, hskipped], ?_⟩
      apply triviaPiece?_append_eq_iff.mp
      rw [triviaPiece?_append c rest _ hskipped]
      exact hskipped
  | none =>
      obtain ⟨⟨kind, taken, left⟩, htoken⟩ : ∃ parts, tokenPiece c rest = parts := ⟨_, rfl⟩
      refine .inr ⟨kind, c :: taken, left, by rw [nextPiece, hskipped, htoken], by simp, ?_⟩
      intro unit behind htext hunit
      have hpieces := pieces_of_token hskipped htoken
      rw [htext, pieces_of_skipped hunit] at hpieces
      cases hpieces

/-- Each piece stands behind those before it, so the induction goes along the pieces with the
text that has been read. -/
theorem tiled_tokensOf (before text : List Char) :
    Tiled before text (tokensOf (Position.start.after before) (pieces text)) := by
  fun_induction pieces text generalizing before with
  | case1 => exact .last .nil
  | case2 c rest ih =>
      have hpiece := nextPiece_append c rest
      rcases nextPiece_cases c rest with
        ⟨taken, left, hnext, hskipped⟩ | ⟨kind, taken, left, hnext, hne, hends⟩
      all_goals
        have hrest := ih (before ++ taken)
        rw [hnext, Position.after_append] at hrest
        rw [hnext] at hpiece ⊢
        dsimp only at hpiece hrest
      · rw [← hpiece]
        exact hrest.skip hskipped
      · rw [← hpiece] at hends ⊢
        apply Tiled.token (t := ⟨kind, taken, Position.start.after before⟩) .nil hne hends
        · rw [List.append_nil]
          exact Position.after_start before
        · rwa [List.append_nil]

/-! ### In words -/

/-- A token stands in front of a character that does not end a line. -/
theorem Tiled.split_of_mem (h : Tiled before text ts) (ht : t ∈ ts) :
    ∃ front c back, before ++ text = front ++ c :: back ∧ c ≠ '\n' ∧
      t.position = .behind front := by
  induction h with
  | last => cases ht
  | @token before gap rest first others hgap hne hends hplace _ ih =>
      rcases List.mem_cons.mp ht with rfl | hothers
      · obtain ⟨c, taken, htaken⟩ := List.exists_cons_of_ne_nil hne
        refine ⟨before ++ gap, c, taken ++ rest, by simp [htaken], ?_, hplace⟩
        -- a line break would have been passed over
        rintro rfl
        apply hends ['\n'] (taken ++ rest)
        · rw [htaken]
          rfl
        · exact .blank Text.isBlank_newline
      · obtain ⟨front, c, back, htext, hbreak, hposition⟩ := ih hothers
        refine ⟨front, c, back, ?_, hbreak, hposition⟩
        rw [← htext]
        simp only [List.append_assoc]

theorem split_of_mem_tokens (ht : t ∈ tokens text) :
    ∃ front c back, text = front ++ c :: back ∧ c ≠ '\n' ∧ t.position = .behind front :=
  (tiled_tokensOf [] text).split_of_mem ht

theorem fits_of_fitsWords (h : FitsWords text) (ht : t ∈ tokens text) :
    t.position.Fits := by
  obtain ⟨front, c, back, rfl, hbreak, hposition⟩ := split_of_mem_tokens ht
  rw [hposition]
  constructor
  · have hlines := h.lines
    rw [List.count_append] at hlines
    show 1 + front.count '\n' < 0x100000000
    omega
  · have hcolumns := h.columns (front ++ [c]) ⟨back, by simp⟩
    rw [sinceBreak_concat, if_neg hbreak, List.length_cons, Nat.add_comm] at hcolumns
    exact hcolumns

theorem fits_of_length_lt (h : text.length < 0x100000000) (ht : t ∈ tokens text) :
    t.position.Fits := by
  obtain ⟨front, c, back, rfl, -, hposition⟩ := split_of_mem_tokens ht
  have hlines := List.count_le_length (a := '\n') (l := front)
  have hcolumns := length_sinceBreak_le front
  rw [List.length_append, List.length_cons] at h
  rw [hposition, Position.behind]
  constructor <;> dsimp only <;> omega

/-- The tokens of any text tile it: they are not empty, stand one behind the other with nothing but
blanks, comments and `#` lines between them, and the position of each tells the line breaks in
front of it and the characters since the last one.  A text with fewer lines and columns than there
are words has the same tokens for a lexer that counts in words and cuts at byte offsets; a counter
that must not pass the last word needs a word for the place behind the text as well. -/
theorem tokens_tile (text : List Char) :
    Tiled [] text (tokens text) ∧
      (FitsWords text → Checked.tokens .wraps text = .ok (tokens text)) ∧
      (text.length + 1 < 0x100000000 → Checked.tokens .stops text = .ok (tokens text)) := by
  refine ⟨tiled_tokensOf [] text, fun h ↦ ?_, fun h ↦ ?_⟩
  · apply Checked.tokens_of_fits
    · intro hstops
      cases hstops
    · intro t ht
      exact fits_of_fitsWords h ht
  · apply Checked.tokens_of_fits
    · intro _
      exact h
    · intro t ht
      exact fits_of_length_lt (Nat.lt_of_succ_lt h) ht

end CSharp

end GuestGate
