import GuestGate.Proofs.FSharp.Reading

/-!
# What a line of a tree means

The name that a line declares and whether it binds a value are read off its first piece, past the
modifiers.  What the line does to the scan follows.
-/

namespace GuestGate.FSharp

open Text

variable {c : Char} {text word rest : List Char} {column : Nat}

theorem Gap.head?_append (gap : Gap) (text : List Char) :
    (gap.text ++ text).head?.any isBlank = true := by
  have hblanks := gap.blank
  have hne := gap.nonempty
  cases hgap : gap.text <;> simp_all

theorem head?_all_of_any {p : Char → Bool} (h : text.head?.any p = true) :
    text.head?.all p = true := by
  cases text <;> simp_all

/-! ### Modifiers -/

theorem exists_of_isBindingModifier (h : isBindingModifier word = true) :
    ∃ modifier ∈ bindingModifiers, word = modifier.toList := by
  simpa [isBindingModifier] using h

theorem isAlpha_of_isBindingModifier (h : isBindingModifier word = true) :
    ∀ c ∈ word, c.isAlpha = true := by
  obtain ⟨modifier, hmem, rfl⟩ := exists_of_isBindingModifier h
  have hletters : bindingModifiers.all (·.toList.all Char.isAlpha) = true := by decide
  exact List.all_eq_true.mp (List.all_eq_true.mp hletters modifier hmem)

theorem ne_nil_of_isBindingModifier (h : isBindingModifier word = true) : word ≠ [] := by
  rintro rfl
  revert h
  decide

theorem isBlank_of_isBindingModifier (h : isBindingModifier word = true) :
    ∀ c ∈ word, isBlank c = false :=
  fun c hc ↦ isBlank_of_isAlpha (isAlpha_of_isBindingModifier h c hc)

theorem isIdentifierChar_of_isAlpha (h : c.isAlpha = true) : isIdentifierChar c = true := by
  have hcode := isAlpha_iff.mp h
  have hletter : isLetter c = true := (isLetter_of_isAlpha (by omega)).trans h
  simp [isIdentifierChar, isWordChar, isLetterOrNumeral, hletter]

theorem not_isIdentifierChar_of_isBlank (h : isBlank c = true) : isIdentifierChar c = false := by
  have hquote : c ≠ '\'' := by rintro rfl; revert h; decide
  simp [isIdentifierChar, not_isWordChar_of_isBlank h, hquote]

theorem not_isOpeningMark_of_isAlpha (h : c.isAlpha = true) : isOpeningMark c = false := by
  have hmarks : ['(', '<', '=', ':'].all (fun c ↦ !c.isAlpha) = true := by decide
  rw [Bool.eq_false_iff]
  intro hmark
  have hother := List.all_eq_true.mp hmarks c (by simpa [isOpeningMark] using hmark)
  rw [h] at hother
  cases hother

/-- What is found behind a modifier begins with a blank. -/
theorem exists_of_afterModifier? (h : afterModifier? text = some rest) :
    ∃ word, isBindingModifier word = true ∧ word ++ rest = text ∧
      rest.head?.any isBlank = true := by
  obtain ⟨modifier, hmem, hfound⟩ := List.exists_of_findSome?_eq_some h
  obtain ⟨hafter, hblank⟩ := Option.filter_eq_some_iff.mp hfound
  refine ⟨modifier.toList, ?_, append_of_afterPrefix? hafter, hblank⟩
  exact List.any_eq_true.mpr ⟨modifier, hmem, beq_self_eq_true _⟩

theorem afterModifier?_append (h : isBindingModifier word = true)
    (hblank : text.head?.any isBlank = true) : afterModifier? (word ++ text) = some text := by
  cases hfound : afterModifier? (word ++ text) with
  | none =>
      obtain ⟨modifier, hmem, rfl⟩ := exists_of_isBindingModifier h
      have hnone := List.findSome?_eq_none_iff.mp hfound modifier hmem
      rw [afterPrefix?_append, Option.filter_some, if_pos hblank] at hnone
      cases hnone
  | some rest =>
      -- Both parts of the text end where its first blank stands.
      obtain ⟨other, hother, htext, hrest⟩ := exists_of_afterModifier? hfound
      have hfrom {word rest : List Char} (hword : isBindingModifier word = true)
          (hrest : rest.head?.any isBlank = true) : fromBlank (word ++ rest) = rest := by
        have hall : ∀ c ∈ word, (!isBlank c) = true := fun c hc ↦ by
          rw [isBlank_of_isBindingModifier hword c hc]
          rfl
        rw [fromBlank, List.dropWhile_append_of_pos hall]
        exact fromBlank_eq_self (head?_all_of_any hrest)
      rw [← hfrom hother hrest, htext, hfrom h hblank]

theorem afterModifier?_eq_none (h : isBindingModifier (text.takeWhile isIdentifierChar) = false) :
    afterModifier? text = none := by
  cases hfound : afterModifier? text with
  | none => rfl
  | some rest =>
      obtain ⟨word, hword, rfl, hrest⟩ := exists_of_afterModifier? hfound
      have hidentifier : ∀ c ∈ word, isIdentifierChar c = true := fun c hc ↦
        isIdentifierChar_of_isAlpha (isAlpha_of_isBindingModifier hword c hc)
      have hend : rest.head?.all (fun c ↦ !isIdentifierChar c) = true := by
        cases rest with
        | nil => rfl
        | cons c more => simp [not_isIdentifierChar_of_isBlank (by simpa using hrest)]
      rw [takeWhile_append_of_head? hidentifier hend, hword] at h
      cases h

theorem head?_modifiers (modifiers : List Modifier)
    (htext : text.head?.all (fun c ↦ !isBlank c) = true) :
    (modifiers.flatMap Modifier.text ++ text).head?.all (fun c ↦ !isBlank c) = true := by
  cases modifiers with
  | nil => exact htext
  | cons m more =>
      cases hword : m.word with
      | nil => exact absurd hword (ne_nil_of_isBindingModifier m.isModifier)
      | cons c rest =>
          have hc := isBlank_of_isBindingModifier m.isModifier c (hword ▸ List.mem_cons_self)
          simp [Modifier.text, hword, hc]

theorem dropModifiers_eq_self (h : afterModifier? text = none) : dropModifiers text = text := by
  rw [dropModifiers]
  split
  · rfl
  · next hsome =>
      rw [h] at hsome
      cases hsome

theorem dropModifiers_append (modifiers : List Modifier)
    (hblank : text.head?.all (fun c ↦ !isBlank c) = true) (hnone : afterModifier? text = none) :
    dropModifiers (modifiers.flatMap Modifier.text ++ text) = text := by
  induction modifiers with
  | nil => exact dropModifiers_eq_self hnone
  | cons m more ih =>
      have hsplit : (m :: more).flatMap Modifier.text ++ text =
          m.word ++ (m.gap.text ++ (more.flatMap Modifier.text ++ text)) := by
        simp [Modifier.text]
      have hafter := afterModifier?_append m.isModifier
        (m.gap.head?_append (more.flatMap Modifier.text ++ text))
      rw [hsplit, dropModifiers]
      split
      · next hsome =>
          rw [hafter] at hsome
          cases hsome
      · next after hsome =>
          rw [hafter, Option.some.injEq] at hsome
          rw [← hsome, trimStart_blanks_append m.gap.blank,
            trimStart_eq_self (head?_modifiers more hblank), ih]

/-! ### Patterns -/

theorem afterGroup?_append {inside : List Char}
    (flat : inside.all (fun c ↦ c != '(' && c != ')') = true) (rest : List Char) :
    afterGroup? 1 (inside ++ ')' :: rest) = some rest := by
  induction inside with
  | nil => rfl
  | cons c more ih =>
      rw [List.all_cons, Bool.and_eq_true] at flat
      have hc : c ≠ '(' ∧ c ≠ ')' := by simpa using flat.1
      rw [List.cons_append, afterGroup?]
      simpa [hc] using ih flat.2

namespace Pattern

variable (pattern : Pattern)

theorem head?_text (rest : List Char) :
    (pattern.text ++ rest).head?.all (fun c ↦ !isBlank c) = true := by
  cases pattern with
  | name text nonempty isName _ =>
      cases text with
      | nil => exact absurd rfl nonempty
      | cons c more =>
          cases hc : isBlank c with
          | true =>
              have hname := List.all_eq_true.mp isName c List.mem_cons_self
              rw [not_isIdentifierChar_of_isBlank hc] at hname
              cases hname
          | false => simp [Pattern.text, hc]
  | group inside flat => exact (by decide : (!isBlank '(') = true)

theorem afterModifier?_text (hrest : rest.head?.all (fun c ↦ !isIdentifierChar c) = true) :
    afterModifier? (pattern.text ++ rest) = none := by
  apply afterModifier?_eq_none
  cases pattern with
  | name text _ isName notModifier =>
      rw [Pattern.text, takeWhile_append_of_head? (List.all_eq_true.mp isName) hrest, notModifier]
  | group inside flat => exact (by decide : isBindingModifier [] = false)

theorem afterPattern?_text (hrest : rest.head?.all (fun c ↦ !isIdentifierChar c) = true) :
    afterPattern? (pattern.text ++ rest) = some rest := by
  cases pattern with
  | name text nonempty isName _ =>
      have hopen : (text ++ rest).head? ≠ some '(' := by
        cases text with
        | nil => exact absurd rfl nonempty
        | cons c more =>
            have hc := List.all_eq_true.mp isName c List.mem_cons_self
            rintro ⟨⟩
            revert hc
            decide
      rw [Pattern.text, afterPattern?, if_neg hopen, Option.some.injEq]
      exact dropWhile_append_of_head? (List.all_eq_true.mp isName) hrest
  | group inside flat =>
      rw [Pattern.text, List.cons_append, afterPattern?, if_pos List.head?_cons, afterGroup?]
      simpa using afterGroup?_append flat rest

end Pattern

/-- What is bound is a value exactly if a mark follows the pattern. -/
theorem bindsValue_append (gap : Blanks) (modifiers : List Modifier) (pattern : Pattern)
    (hrest : rest.head?.all (fun c ↦ !isIdentifierChar c) = true) :
    bindsValue (gap.text ++ (modifiers.flatMap Modifier.text ++ (pattern.text ++ rest))) =
      (trimStart rest).head?.any (fun c ↦ c == '=' || c == ':') := by
  have hblank := pattern.head?_text rest
  rw [bindsValue, trimStart_blanks_append gap.blank,
    trimStart_eq_self (head?_modifiers modifiers hblank),
    dropModifiers_append modifiers hblank (pattern.afterModifier?_text hrest),
    pattern.afterPattern?_text hrest]

namespace ValueMark

variable (m : ValueMark) (rest : List Char)

theorem head?_append : (m.text ++ rest).head?.all (fun c ↦ !isIdentifierChar c) = true := by
  cases hblanks : m.blanks.text with
  | nil => rcases m.isMark with hm | hm <;> simp [text, hblanks, hm] <;> decide
  | cons c more =>
      have hc := m.blanks.blank c (hblanks ▸ List.mem_cons_self)
      simp [text, hblanks, not_isIdentifierChar_of_isBlank hc]

theorem trimStart_append : trimStart (m.text ++ rest) = m.mark :: rest := by
  have hblank : (m.mark :: rest).head?.all (fun c ↦ !isBlank c) = true := by
    rcases m.isMark with hm | hm <;> simp [hm] <;> decide
  rw [text, List.append_assoc, trimStart_blanks_append m.blanks.blank]
  exact trimStart_eq_self hblank

end ValueMark

/-! ### Names -/

theorem Name.isBlank_text (name : Name) : ∀ c ∈ name.text, isBlank c = false :=
  fun c hc ↦ by simpa using (Bool.and_eq_true_iff.mp (List.all_eq_true.mp name.isName c hc)).1

theorem Name.takeWhile_append (name : Name) (hrest : rest.head?.all isOpeningMark = true) :
    (name.text ++ rest).takeWhile (fun c ↦ !isOpeningMark c) = name.text := by
  have hname : ∀ c ∈ name.text, (!isOpeningMark c) = true := fun c hc ↦
    (Bool.and_eq_true_iff.mp (List.all_eq_true.mp name.isName c hc)).2
  exact takeWhile_append_of_head? hname (by simpa using hrest)

/-- Nor is a name a modifier with a mark attached to it. -/
theorem Name.notModifier_append (name : Name) (hrest : rest.head?.all isOpeningMark = true) :
    isBindingModifier (name.text ++ rest) = false := by
  cases hword : isBindingModifier (name.text ++ rest) with
  | false => rfl
  | true =>
      have hmarks : ∀ c ∈ name.text ++ rest, (!isOpeningMark c) = true := fun c hc ↦ by
        rw [not_isOpeningMark_of_isAlpha (isAlpha_of_isBindingModifier hword c hc)]
        rfl
      have hall := List.takeWhile_eq_self_iff.mpr hmarks
      rw [name.takeWhile_append hrest] at hall
      rw [← hall, name.notModifier] at hword
      cases hword

theorem words_modifiers_append (modifiers : List Modifier) (text : List Char) :
    words (modifiers.flatMap Modifier.text ++ text) =
      modifiers.map Modifier.word ++ words text := by
  induction modifiers with
  | nil => rfl
  | cons m more ih =>
      have hsplit : (m :: more).flatMap Modifier.text ++ text =
          m.word ++ (m.gap.text ++ (more.flatMap Modifier.text ++ text)) := by
        simp [Modifier.text]
      rw [hsplit, words_append_of_head? (ne_nil_of_isBindingModifier m.isModifier)
        (isBlank_of_isBindingModifier m.isModifier) (head?_all_of_any (m.gap.head?_append _)),
        words_blanks_append m.gap.blank, ih]
      rfl

theorem declaredName_cons (keyword : List Char) (modifiers : List Modifier) (name : Name)
    (hrest : rest.head?.all isOpeningMark = true) (more : List (List Char)) :
    declaredName (keyword :: (modifiers.map Modifier.word ++ (name.text ++ rest) :: more)) =
      String.ofList name.text := by
  have hmodifiers : (modifiers.map Modifier.word).find? (fun word ↦ !isBindingModifier word) =
      none := by
    rw [List.find?_eq_none]
    simp only [List.mem_map, Bool.not_eq_true, Bool.not_eq_false', forall_exists_index, and_imp,
      forall_apply_eq_imp_iff₂]
    exact fun m _ ↦ m.isModifier
  have hfind : ((modifiers.map Modifier.word) ++ (name.text ++ rest) :: more).find?
      (fun word ↦ !isBindingModifier word) = some (name.text ++ rest) := by
    rw [List.find?_append, hmodifiers, Option.none_or, List.find?_cons_of_pos]
    rw [name.notModifier_append hrest]
    rfl
  rw [declaredName, List.tail_cons, hfind]
  exact congrArg String.ofList (name.takeWhile_append hrest)

def isLetters (keyword : String) : Bool :=
  !keyword.toList.isEmpty && keyword.toList.all Char.isAlpha

namespace NamedLine

variable {keywords : List String} (line : NamedLine keywords column)

theorem exists_words (hwords : keywords.all isLetters = true) :
    ∃ rest more, rest.head?.all isOpeningMark = true ∧
      words line.code = line.keyword.toList ::
        (line.modifiers.map Modifier.word ++ (line.name.text ++ rest) :: more) := by
  have hletters := List.all_eq_true.mp hwords line.keyword line.isKeyword
  obtain ⟨hne, halpha⟩ : line.keyword.toList ≠ [] ∧ ∀ c ∈ line.keyword.toList, c.isAlpha = true := by
    simpa [isLetters] using hletters
  have hkeyword : ∀ c ∈ line.keyword.toList, isBlank c = false := fun c hc ↦
    isBlank_of_isAlpha (halpha c hc)
  have hattached : (line.after ++ line.left).head?.all (fun c ↦ isBlank c || isOpeningMark c) =
      true := by
    have hattached := line.attached
    cases hafter : line.after with
    | nil => exact line.head?_left (by simpa [hafter] using hattached)
    | cons c more => simpa [hafter] using hattached
  refine ⟨upToBlank (line.after ++ line.left), words (fromBlank (line.after ++ line.left)), ?_, ?_⟩
  · cases htail : line.after ++ line.left with
    | nil => rfl
    | cons c more => cases hc : isBlank c <;> simp_all [upToBlank]
  · have hcode : line.code = line.keyword.toList ++ (line.gap.text ++
        (line.modifiers.flatMap Modifier.text ++
          (line.name.text ++ (line.after ++ line.left)))) := by
      rw [Line.code, line.front_eq]
      simp only [List.append_assoc]
    rw [hcode, words_append_of_head? hne hkeyword (head?_all_of_any (line.gap.head?_append _)),
      words_blanks_append line.gap.blank, words_modifiers_append,
      words_append line.name.nonempty line.name.isBlank_text]

variable (hwords : keywords.all isLetters = true)
include hwords

theorem first_word : (words line.code).head?.map String.ofList = some line.keyword := by
  obtain ⟨rest, more, -, hcode⟩ := line.exists_words hwords
  rw [hcode, List.head?_cons, Option.map_some, String.ofList_toList]

theorem declaredName_words : declaredName (words line.code) = line.declared := by
  obtain ⟨rest, more, hrest, hcode⟩ := line.exists_words hwords
  rw [hcode, declaredName_cons _ _ _ hrest]
  rfl

end NamedLine

/-! ### Meanings -/

/-- The owners of the lines of a module. -/
inductive ModuleLevel : Option Scope → Prop
  | file : ModuleLevel none
  | block (name : String) : ModuleLevel (some (.moduleBody name))

variable {owner : Option Scope}

theorem ModuleLevel.ne_expression (h : ModuleLevel owner) : owner ≠ some .expression := by
  cases h <;> nofun

theorem NamedLine.meaning_type (line : NamedLine ["type", "and"] column) (h : ModuleLevel owner)
    (literal : Bool) :
    meaning owner literal line.code = .scope (.typeBody line.declared) false := by
  have hkeyword : line.keyword = "type" ∨ line.keyword = "and" := by simpa using line.isKeyword
  have hfirst := line.first_word (by decide)
  have hname := line.declaredName_words (by decide)
  rcases hkeyword with hkeyword | hkeyword <;>
    simp [meaning, hfirst, hname, hkeyword, h.ne_expression]

theorem NamedLine.meaning_module (line : NamedLine ["module"] column)
    (h : owner ≠ some .expression) (literal : Bool) :
    meaning owner literal line.code =
      if line.code.getLast? = some '=' then .scope (.moduleBody line.declared) false
      else .root line.declared := by
  have hkeyword : line.keyword = "module" := by simpa using line.isKeyword
  have hfirst := line.first_word (by decide)
  have hname := line.declaredName_words (by decide)
  simp [meaning, hfirst, hname, hkeyword, h]

theorem BlockLine.meaning_code (line : BlockLine column) (h : ModuleLevel owner) (literal : Bool) :
    meaning owner literal line.code = .scope (.moduleBody line.declared) false := by
  have hlast : line.code.getLast? = some '=' := by
    rw [line.code_eq_front line.trailing line.rest_eq, line.front_eq, line.after_eq]
    simp
  rw [line.meaning_module h.ne_expression, if_pos hlast]

theorem Name.getLast?_text (name : Name) (before : List Char) :
    (before ++ name.text).getLast? ≠ some '=' := by
  intro hlast
  have hc := List.getLast?_eq_some_getLast name.nonempty
  rw [List.getLast?_append, hc, Option.some_or, Option.some.injEq] at hlast
  have hname := List.all_eq_true.mp name.isName '=' (List.mem_of_getLast? (hlast ▸ hc))
  revert hname
  decide

theorem HeaderLine.meaning_code (line : HeaderLine column) (h : owner ≠ some .expression)
    (literal : Bool) : meaning owner literal line.code = .root line.declared := by
  have hlast : line.code.getLast? ≠ some '=' := by
    rw [line.code_eq_front line.trailing line.rest_eq, line.front_eq, line.after_eq,
      List.append_nil, ← List.append_assoc, ← List.append_assoc]
    exact line.name.getLast?_text _
  rw [line.meaning_module h, if_neg hlast]

theorem AbbreviationLine.meaning_code (line : AbbreviationLine column) (h : ModuleLevel owner)
    (literal : Bool) : meaning owner literal line.code = .root line.declared := by
  have hfront : ∃ before, line.front = before ++ line.target.text :=
    ⟨line.keyword.toList ++ (line.gap.text ++ (line.modifiers.flatMap Modifier.text ++
      (line.name.text ++ (line.before.text ++ '=' :: line.behind.text)))), by
        rw [line.front_eq, line.after_eq]
        simp only [List.append_assoc, List.cons_append]⟩
  have hlast : line.code.getLast? ≠ some '=' := by
    obtain ⟨before, hfront⟩ := hfront
    rw [line.code_eq_front line.trailing line.rest_eq, hfront]
    exact line.target.getLast?_text before
  rw [line.meaning_module h.ne_expression, if_neg hlast]

theorem BindingLine.code_eq (line : BindingLine column) :
    line.code = "let".toList ++ (line.gap.text ++ (line.modifiers.flatMap Modifier.text ++
      (line.pattern.text ++ (line.mark.elim [] ValueMark.text ++ line.left)))) := by
  rw [Line.code, line.front_eq]
  simp only [List.append_assoc]

theorem BindingLine.bindsValue_code (line : BindingLine column) :
    bindsValue (line.code.drop 3) = line.mark.isSome := by
  have hdrop : line.code.drop 3 = line.gap.text ++ (line.modifiers.flatMap Modifier.text ++
      (line.pattern.text ++ (line.mark.elim [] ValueMark.text ++ line.left))) := by
    rw [line.code_eq]
    rfl
  cases hmark : line.mark with
  | some m =>
      rw [hdrop, hmark, Option.elim_some, bindsValue_append _ _ _ (m.head?_append _),
        m.trimStart_append]
      rcases m.isMark with hm | hm <;> simp [hm]
  | none =>
      obtain ⟨hidentifier, hunmarked⟩ := line.parameters hmark
      have hleft := line.head?_trimStart_left hunmarked
      rw [hdrop, hmark, Option.elim_none, List.nil_append,
        bindsValue_append _ _ _ (line.head?_left hidentifier)]
      cases htrim : trimStart line.left <;> simp_all

theorem BindingLine.meaning_code (line : BindingLine column) (h : ModuleLevel owner)
    (literal : Bool) :
    meaning owner literal line.code = .scope .expression (!literal && line.mark.isSome) := by
  have hlet : ∀ c ∈ "let".toList, isBlank c = false := fun c hc ↦
    isBlank_of_isAlpha (List.all_eq_true.mp (by decide : "let".toList.all Char.isAlpha = true) c hc)
  have hfirst : (words line.code).head? = some "let".toList := by
    rw [line.code_eq, words_append_of_head? (by decide) hlet
      (head?_all_of_any (line.gap.head?_append _)), List.head?_cons]
  cases h <;> simp [meaning, hfirst, line.bindsValue_code]

theorem first_iff {first : Option (List Char)} {keyword : String} :
    first.map String.ofList = some keyword ↔ first = some keyword.toList := by
  rw [Option.map_eq_some_iff]
  constructor
  · rintro ⟨word, hword, rfl⟩
    rw [hword, String.toList_ofList]
  · exact fun h ↦ ⟨keyword.toList, h, String.ofList_toList⟩

namespace WordsLine

variable (line : WordsLine column)

theorem words_code : Text.words line.code = line.words ++ Text.words line.left :=
  words_append_of_apart (line.head?_left line.apart) line.front

theorem first_word : (Text.words line.code).head? = line.words.head? := by
  have hstarts := line.starts
  rw [words_code]
  cases hfront : line.front with
  | nil => simp [hfront] at hstarts
  | cons c more =>
      have hc : isBlank c = false := by simpa [hfront] using hstarts
      rw [words, hfront, words_cons hc]
      rfl

theorem first_word_ne {keyword : String} (h : line.words.head? ≠ some keyword.toList) :
    (Text.words line.code).head?.map String.ofList ≠ some keyword := by
  rw [ne_eq, first_iff, first_word]
  exact h

end WordsLine

theorem OtherLine.meaning_code (line : OtherLine column) (h : ModuleLevel owner) (literal : Bool) :
    meaning owner literal line.code = .scope .expression false := by
  have hother (keyword : String) (hmem : keyword ∈ ["namespace", "module", "type", "and", "let"]) :
      (words line.code).head?.map String.ofList ≠ some keyword :=
    line.first_word_ne (line.isOther keyword hmem)
  have hnamespace := hother "namespace" (by decide)
  have hmodule := hother "module" (by decide)
  have htype := hother "type" (by decide)
  have hand := hother "and" (by decide)
  have hlet := hother "let" (by decide)
  cases h <;>
    simp only [meaning, hnamespace, hmodule, htype, hand, hlet, or_self, if_false, reduceCtorEq,
      Option.some.injEq, decide_false, Bool.false_and]

theorem NamespaceLine.meaning_code (line : NamespaceLine column) (owner : Option Scope)
    (literal : Bool) : meaning owner literal line.code = .scope .expression false := by
  have hfirst : (words line.code).head? = some "namespace".toList :=
    line.first_word.trans line.isNamespace
  simp [meaning, hfirst]

theorem isStaticValue_iff (words : List (List Char)) :
    (words.head? = some "static".toList ∧ isStaticValue words = true) ↔
      (["static".toList, "let".toList].isPrefixOf words ||
        ["static".toList, "member".toList, "val".toList].isPrefixOf words) = true := by
  match words with
  | [] | [a] | [a, b] | a :: b :: c :: more =>
      simp only [isStaticValue, List.isPrefixOf, Bool.or_eq_true, Bool.and_eq_true, beq_iff_eq]
      grind

theorem MemberLine.meaning_code (line : MemberLine column) (name : String) (literal : Bool) :
    meaning (some (.typeBody name)) literal line.code = .scope .expression line.initializes := by
  have hother (keyword : String) (hmem : keyword ∈ ["namespace", "module", "type", "and"]) :
      (words line.code).head?.map String.ofList ≠ some keyword :=
    line.first_word_ne (line.isMember keyword hmem)
  have hsame {begin : List (List Char)} (hlength : begin.length ≤ 3) :
      begin.isPrefixOf (words line.code) = begin.isPrefixOf line.words := by
    rw [line.words_code]
    obtain hmany | ⟨trailing, hrest⟩ := line.decided
    · rw [Bool.eq_iff_iff, List.isPrefixOf_iff_prefix, List.isPrefixOf_iff_prefix]
      refine ⟨fun h ↦ ?_, fun h ↦ h.trans (List.prefix_append _ _)⟩
      exact List.prefix_of_prefix_length_le h (List.prefix_append _ _) (hlength.trans hmany)
    · have hleft : line.left = [] := by rw [Line.left, hrest, trailing.trimEnd_text]
      rw [hleft, words, List.append_nil]
  have hinitializes : ((words line.code).head?.map String.ofList = some "static" ∧
      isStaticValue (words line.code) = true) ↔ line.initializes = true := by
    rw [first_iff, isStaticValue_iff, hsame (by decide), hsame (by decide),
      MemberLine.initializes]
  have hnamespace := hother "namespace" (by decide)
  have hmodule := hother "module" (by decide)
  have htype := hother "type" (by decide)
  have hand := hother "and" (by decide)
  simp only [meaning, hnamespace, hmodule, htype, hand, or_self, if_false, reduceCtorEq,
    Option.some.injEq, LineMeaning.scope.injEq, true_and]
  rw [Bool.eq_iff_iff, Bool.and_eq_true, decide_eq_true_eq, hinitializes]

end GuestGate.FSharp
