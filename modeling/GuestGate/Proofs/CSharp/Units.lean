import GuestGate.CSharp.Declaration
import GuestGate.Proofs.Text.Cutting

/-!
# Literals and comments as units

Inside of a literal or of a comment anything can stand, marks and words among it.  A literal is
read as one token up to its closing mark, and a comment is passed over as a whole, so what is
inside of them does not get to the scan.
-/

namespace GuestGate.CSharp

open Text

/-! ### What stands between tokens -/

/-- Whether a line ends where a text begins. -/
def EndsLine (text : List Char) : Prop :=
  text.head?.all (· == '\n') = true

/-- A comment and the text behind it.  One that is not closed goes on to the end. -/
inductive Comment : List Char → List Char → Prop
  | line {body rest : List Char} (hbody : '\n' ∉ body) (hrest : EndsLine rest) :
      Comment ('/' :: '/' :: body) rest
  | block {body rest : List Char} (hbody : ¬ ['*', '/'] <:+: body ++ ['*']) :
      Comment ('/' :: '*' :: (body ++ ['*', '/'])) rest
  | unclosed {body : List Char} (hbody : ¬ ['*', '/'] <:+: body) : Comment ('/' :: '*' :: body) []

/-- A piece of text between tokens and the text behind it: a blank, a comment, or what a `#`
begins, which goes on to the end of its line. -/
inductive Skipped : List Char → List Char → Prop
  | blank {c : Char} {rest : List Char} (hblank : isBlank c = true) : Skipped [c] rest
  | comment {unit rest : List Char} (h : Comment unit rest) : Skipped unit rest
  | directive {body rest : List Char} (hbody : '\n' ∉ body) (hrest : EndsLine rest) :
      Skipped ('#' :: body) rest

variable {c : Char} {body content left opening rest taken text unit : List Char}

theorem consFirst_eq_iff {parts : List Char × List Char} :
    consFirst c parts = (taken, left) ↔ ∃ body, taken = c :: body ∧ parts = (body, left) := by
  obtain ⟨first, second⟩ := parts
  constructor
  · intro h
    obtain ⟨rfl, rfl⟩ := Prod.mk.inj h
    exact ⟨first, rfl, rfl⟩
  · rintro ⟨body, rfl, h⟩
    cases h
    rfl

theorem restOfLine_append_eq_iff :
    restOfLine (body ++ rest) = (body, rest) ↔ '\n' ∉ body ∧ EndsLine rest := by
  induction body with
  | nil =>
      cases rest with
      | nil => simp [restOfLine, EndsLine]
      | cons c rest => by_cases hbreak : c = '\n' <;> simp [restOfLine, EndsLine, consFirst, hbreak]
  | cons c body ih =>
      by_cases hbreak : c = '\n'
      · simp [restOfLine, hbreak]
      · have hne : ¬ '\n' = c := fun h ↦ hbreak h.symm
        rw [List.cons_append, restOfLine, if_neg hbreak, consFirst, List.mem_cons, not_or,
          and_assoc, ← ih]
        simp [Prod.ext_iff, hne]

/-- A comment is passed over up to the first mark that closes one. -/
theorem restOfComment_eq (text : List Char) :
    restOfComment text =
      match cut ['*', '/'] text with
      | some (before, after) => (before ++ ['*', '/'], after)
      | none => (text, []) := by
  fun_induction restOfComment text with
  | case1 => rfl
  | case2 rest => simp [cut]
  | case3 c rest hopen ih =>
      have hprefix : ['*', '/'].isPrefixOf (c :: rest) = false := by
        apply Bool.eq_false_iff.mpr
        intro hclosing
        obtain ⟨more, hmore⟩ := List.isPrefixOf_iff_prefix.mp hclosing
        cases hmore
        exact hopen more rfl rfl
      rw [ih, cut, hprefix]
      cases cut ['*', '/'] rest <;> rfl

theorem restOfComment_append_eq_iff : restOfComment (taken ++ left) = (taken, left) ↔
    (∃ body, taken = body ++ ['*', '/'] ∧ ¬ ['*', '/'] <:+: body ++ ['*']) ∨
      (left = [] ∧ ¬ ['*', '/'] <:+: taken) := by
  rw [restOfComment_eq]
  constructor
  · intro h
    split at h
    · next before after hcut =>
        obtain ⟨rfl, rfl⟩ := Prod.mk.inj h
        have hfirst : cut ['*', '/'] (before ++ (['*', '/'] ++ after)) = some (before, after) := by
          rw [← List.append_assoc]
          exact hcut
        exact .inl ⟨before, rfl, (cut_append_eq_some_iff (by decide) _ _).mp hfirst⟩
    · next hcut =>
        obtain rfl := (Prod.mk.inj h).2
        rw [List.append_nil] at hcut
        refine .inr ⟨rfl, ?_⟩
        intro hwithin
        have hoccurs := occurs_iff.mpr hwithin
        rw [occurs, hcut] at hoccurs
        cases hoccurs
  · rintro (⟨body, rfl, hbody⟩ | ⟨rfl, hopen⟩)
    · have hcut := (cut_append_eq_some_iff (by decide) body left).mpr hbody
      rw [← List.append_assoc] at hcut
      rw [hcut]
    · have hcut : cut ['*', '/'] taken = none := by
        apply Option.not_isSome_iff_eq_none.mp
        intro hsome
        exact hopen (occurs_iff.mp hsome)
      rw [List.append_nil, hcut]

/-- What is passed over at once, and nothing else, is a piece between tokens. -/
theorem triviaPiece?_append_eq_iff :
    triviaPiece? c (taken ++ left) = some (taken, left) ↔ Skipped (c :: taken) left := by
  have hslash : isBlank '/' = false := by decide
  have hhash : isBlank '#' = false := by decide
  constructor
  · intro h
    generalize htext : taken ++ left = text at h
    unfold triviaPiece? at h
    split at h
    · next hblank =>
        cases h
        exact .blank hblank
    split at h
    · next hdirective =>
        subst hdirective htext
        obtain ⟨hbody, hrest⟩ := restOfLine_append_eq_iff.mp (Option.some.inj h)
        exact .directive hbody hrest
    split at h
    · next rest =>
        obtain ⟨body, rfl, hline⟩ := consFirst_eq_iff.mp (Option.some.inj h)
        obtain rfl := (List.cons.inj htext).2
        obtain ⟨hbody, hrest⟩ := restOfLine_append_eq_iff.mp hline
        exact .comment (.line hbody hrest)
    · next rest =>
        obtain ⟨inside, rfl, hinside⟩ := consFirst_eq_iff.mp (Option.some.inj h)
        obtain rfl := (List.cons.inj htext).2
        rcases restOfComment_append_eq_iff.mp hinside with ⟨body, rfl, hbody⟩ | ⟨rfl, hopen⟩
        · exact .comment (.block hbody)
        · exact .comment (.unclosed hopen)
    · cases h
  · intro h
    cases h with
    | blank hblank => simp [triviaPiece?, hblank]
    | directive hbody hrest =>
        have hline := restOfLine_append_eq_iff.mpr ⟨hbody, hrest⟩
        simp [triviaPiece?, hhash, hline]
    | comment hcomment =>
        cases hcomment with
        | line hbody hrest =>
            have hline := restOfLine_append_eq_iff.mpr ⟨hbody, hrest⟩
            simp [triviaPiece?, hslash, hline, consFirst]
        | block hbody =>
            have hinside : restOfComment (_ ++ left) = (_, left) :=
              restOfComment_append_eq_iff.mpr (.inl ⟨_, rfl, hbody⟩)
            rw [List.cons_append]
            simp only [triviaPiece?, hslash, hinside]
            rfl
        | unclosed hopen =>
            have hinside : restOfComment (_ ++ []) = (_, []) :=
              restOfComment_append_eq_iff.mpr (.inr ⟨rfl, hopen⟩)
            rw [List.cons_append]
            simp only [triviaPiece?, hslash, hinside]
            rfl

theorem pieces_of_skipped (h : Skipped unit rest) :
    pieces (unit ++ rest) = ⟨none, unit⟩ :: pieces rest := by
  have hunit : ∃ c taken, unit = c :: taken := by
    cases h with
    | blank hblank => exact ⟨_, _, rfl⟩
    | directive hbody hrest => exact ⟨_, _, rfl⟩
    | comment hcomment => cases hcomment <;> exact ⟨_, _, rfl⟩
  obtain ⟨c, taken, rfl⟩ := hunit
  have hpiece := triviaPiece?_append_eq_iff.mpr h
  rw [List.cons_append, pieces, nextPiece, hpiece]

theorem pieces_of_token {kind : TokenKind} (hskipped : triviaPiece? c text = none)
    (htoken : tokenPiece c text = (kind, taken, left)) :
    pieces (c :: text) = ⟨some kind, c :: taken⟩ :: pieces left := by
  rw [pieces, nextPiece, hskipped, htoken]

/-! ### Literals -/

/-- What can stand between two quotes on one line: characters that are neither a quote, a
backslash nor a line break, and pairs of a backslash and any character. -/
inductive Content (quote : Char) : List Char → Prop
  | nil : Content quote []
  | plain {c : Char} {rest : List Char} (hquote : c ≠ quote) (hslash : c ≠ '\\')
      (hbreak : c ≠ '\n') (h : Content quote rest) : Content quote (c :: rest)
  | pair {c : Char} {rest : List Char} (h : Content quote rest) :
      Content quote ('\\' :: c :: rest)

/-- What can stand in a verbatim string, where a quote is written twice. -/
inductive VerbatimContent : List Char → Prop
  | nil : VerbatimContent []
  | plain {c : Char} {rest : List Char} (hquote : c ≠ '"') (h : VerbatimContent rest) :
      VerbatimContent (c :: rest)
  | pair {rest : List Char} (h : VerbatimContent rest) : VerbatimContent ('"' :: '"' :: rest)

/-- A literal with quotes and the text behind it. -/
inductive Literal : List Char → List Char → Prop
  | regular {content rest : List Char} (h : Content '"' content) :
      Literal ('"' :: (content ++ ['"'])) rest
  | interpolated {content rest : List Char} (h : Content '"' content) :
      Literal ('$' :: '"' :: (content ++ ['"'])) rest
  | verbatim {opening content rest : List Char}
      (hopening : opening ∈ [['@'], ['$', '@'], ['@', '$']]) (h : VerbatimContent content)
      (hrest : rest.head? ≠ some '"') : Literal (opening ++ '"' :: (content ++ ['"'])) rest
  | character {content rest : List Char} (h : Content '\'' content) :
      Literal ('\'' :: (content ++ ['\''])) rest

/-- A reader that stops at a quote and takes pairs along reads content up to the quote. -/
theorem read_content {quote : Char} {read : List Char → List Char × List Char}
    (hstop : ∀ rest, read (quote :: rest) = ([quote], rest))
    (hpair : ∀ c rest, read ('\\' :: c :: rest) = consFirst '\\' (consFirst c (read rest)))
    (hplain : ∀ c rest, c ≠ quote → c ≠ '\\' → c ≠ '\n' →
      read (c :: rest) = consFirst c (read rest))
    (h : Content quote content) (rest : List Char) :
    read (content ++ quote :: rest) = (content ++ [quote], rest) := by
  induction h with
  | nil => exact hstop rest
  | plain hquote hslash hbreak _ ih =>
      rw [List.cons_append, hplain _ _ hquote hslash hbreak, ih]
      rfl
  | pair _ ih =>
      rw [List.cons_append, List.cons_append, hpair, ih]
      rfl

theorem restOfString_content (h : Content '"' content) (rest : List Char) :
    restOfString (content ++ '"' :: rest) = (content ++ ['"'], rest) := by
  apply read_content _ _ _ h
  · intro rest
    simp [restOfString]
  · intro c rest
    rw [restOfString]
  · intro c rest hquote hslash hbreak
    rw [restOfString]
    · simp [hquote, hbreak]
    · intro d more hc
      exact absurd hc hslash

theorem restOfCharacter_content (h : Content '\'' content) (rest : List Char) :
    restOfCharacter (content ++ '\'' :: rest) = (content ++ ['\''], rest) := by
  apply read_content _ _ _ h
  · intro rest
    simp [restOfCharacter]
  · intro c rest
    rw [restOfCharacter]
  · intro c rest hquote hslash hbreak
    rw [restOfCharacter]
    · simp [hquote, hbreak]
    · intro d more hc
      exact absurd hc hslash

theorem restOfVerbatim_content (h : VerbatimContent content) (hrest : rest.head? ≠ some '"') :
    restOfVerbatim (content ++ '"' :: rest) = (content ++ ['"'], rest) := by
  induction h with
  | nil =>
      cases rest with
      | nil => simp [restOfVerbatim]
      | cons c rest =>
          have hquote : c ≠ '"' := by simpa using hrest
          simp [restOfVerbatim, hquote]
  | plain hquote _ ih =>
      simp only [List.cons_append]
      rw [restOfVerbatim]
      · rw [if_neg hquote, ih]
        rfl
      · intro more hc
        exact absurd hc hquote
  | pair _ ih =>
      simp only [List.cons_append]
      rw [restOfVerbatim, ih]
      rfl

theorem pieces_of_literal (h : Literal unit rest) :
    pieces (unit ++ rest) = ⟨some .literal, unit⟩ :: pieces rest := by
  cases h with
  | regular h =>
      apply pieces_of_token
      · rfl
      · simp [tokenPiece, restOfString_content h]
  | interpolated h =>
      apply pieces_of_token
      · rfl
      · simp [tokenPiece, restOfString_content h, consFirst]
  | verbatim hopening h hrest =>
      have hread := restOfVerbatim_content h hrest
      simp only [List.mem_cons, List.not_mem_nil, or_false] at hopening
      rcases hopening with rfl | rfl | rfl
      all_goals
        apply pieces_of_token
        · rfl
        · simp [tokenPiece, hread, consFirst]
  | character h =>
      apply pieces_of_token
      · rfl
      · simp [tokenPiece, restOfCharacter_content h]

/-! ### What gets to the scan -/

/-- A token that is neither a mark nor a word. -/
structure Token.IsOpaque (t : Token) : Prop where
  noMark : ∀ mark, t.isPunct mark = false
  noWord : ∀ word, t.isIdent word = false
  noneOf : ∀ words, t.isOneOf words = false

theorem Token.isOpaque_of_literal {t : Token} (h : t.kind = .literal) : t.IsOpaque := by
  constructor
  · intro mark
    rw [isPunct, h]
    rfl
  · intro word
    rw [isIdent, h]
    rfl
  · intro words
    rw [isOneOf, h]
    rfl

theorem Scanner.push_of_isOpaque {t : Token} (h : t.IsOpaque) (s : Scanner) :
    s.push t = s ∨ s.push t = { s with header := s.header ++ [t] } := by
  unfold push
  split
  · left
    rw [pushInBody, h.noMark, h.noMark]
    rfl
  · right
    rw [pushOutside, h.noMark, h.noMark, h.noMark]
    rfl

/-- Wherever a text goes on with a literal, that is the next token, from its first character to
its last one, and wherever it goes on with a comment, that is passed over as a whole.  For the
scan a literal is neither a mark nor a word, so it can only become a part of a header. -/
theorem units_read_whole (p : Position) (unit rest : List Char) :
    (Literal unit rest → ∃ t : Token, t = ⟨.literal, unit, p⟩ ∧ t.IsOpaque ∧
      tokensOf p (pieces (unit ++ rest)) = t :: tokensOf (p.after unit) (pieces rest) ∧
      ∀ s : Scanner, s.push t = s ∨ s.push t = { s with header := s.header ++ [t] }) ∧
    (Comment unit rest →
      tokensOf p (pieces (unit ++ rest)) = tokensOf (p.after unit) (pieces rest)) := by
  constructor
  · intro h
    have hopaque : Token.IsOpaque ⟨.literal, unit, p⟩ := Token.isOpaque_of_literal rfl
    refine ⟨_, rfl, hopaque, ?_, Scanner.push_of_isOpaque hopaque⟩
    rw [pieces_of_literal h, tokensOf]
  · intro h
    rw [pieces_of_skipped (.comment h), tokensOf]

/-- Of three braces, one in a literal and one in a comment, one is a token. -/
example : ((tokens "\"\\\"\x7b\" \x7b /* \x7b **/".toList).map fun t ↦ String.ofList t.text) =
    ["\"\\\"\x7b\"", "\x7b"] := by
  cbv

end GuestGate.CSharp
