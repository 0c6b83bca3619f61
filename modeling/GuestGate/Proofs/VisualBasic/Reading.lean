import GuestGate.Proofs.Text.Cutting
import GuestGate.Proofs.Text.Words
import GuestGate.Proofs.VisualBasic.Syntax

/-!
# Reading a line of a tree

What the scan sees of a line is its code up to trailing blanks, so its words are those of the
code: the modifiers, and then the word that decides what the line does, with whatever is
attached to it.
-/

namespace GuestGate.VisualBasic

open Text

variable {allowed : Char → Bool} {inString : Bool} {c d : Char} {a b text word : List Char}
  {keyword : String} {keywords : List String}

/-! ### Characters -/

theorem ne_of_isBlank (hc : isBlank c = true) (hd : isBlank d = false) : c ≠ d := by
  rintro rfl
  simp [hc] at hd

theorem ne_of_isAlpha (hc : c.isAlpha = true) (hd : d.isAlpha = false) : c ≠ d := by
  rintro rfl
  simp [hc] at hd

theorem isCommentMark_iff : isCommentMark c = true ↔ c = '\'' ∨ c = '\u2018' ∨ c = '\u2019' := by
  simp [isCommentMark, or_assoc]

theorem not_isCommentMark_of_isBlank (h : isBlank c = true) : isCommentMark c = false := by
  cases hmark : isCommentMark c with
  | false => rfl
  | true => rcases isCommentMark_iff.mp hmark with rfl | rfl | rfl <;> revert h <;> decide

theorem not_isCommentMark_of_isAlpha (h : c.isAlpha = true) : isCommentMark c = false := by
  cases hmark : isCommentMark c with
  | false => rfl
  | true => rcases isCommentMark_iff.mp hmark with rfl | rfl | rfl <;> revert h <;> decide

/-! ### Code -/

theorem isCode_append (ha : isCode allowed inString a = true)
    (hb : isCode allowed false b = true) : isCode allowed inString (a ++ b) = true := by
  induction a generalizing inString with
  | nil =>
      have hout : inString = false := by simpa [isCode] using ha
      simpa [hout] using hb
  | cons c rest ih =>
      simp only [List.cons_append, isCode] at ha ⊢
      split
      · next hquote => exact ih (by simpa [hquote] using ha)
      · next hquote =>
          simp only [hquote, if_false, Bool.and_eq_true] at ha ⊢
          exact ⟨ha.1, ih ha.2⟩

theorem isCode_mono (h : isCode allowed inString a = true) :
    isCode (fun _ ↦ true) inString a = true := by
  induction a generalizing inString with
  | nil => exact h
  | cons c rest ih =>
      simp only [isCode] at h ⊢
      split
      · next hquote => exact ih (by simpa [hquote] using h)
      · next hquote =>
          simp only [hquote, if_false, Bool.and_eq_true, Bool.or_eq_true] at h ⊢
          exact ⟨h.1.imp_right fun hc ↦ by simpa using hc.2, ih h.2⟩

/-- Text without quotes and comment marks. -/
theorem isCode_of_forall
    (h : ∀ c ∈ a, c ≠ '"' ∧ isCommentMark c = false ∧ allowed c = true) :
    isCode allowed false a = true := by
  induction a with
  | nil => rfl
  | cons c rest ih =>
      obtain ⟨hquote, hmark, hallowed⟩ := h c (by simp)
      have hrest := ih fun d hd ↦ h d (by simp [hd])
      simp [isCode, hquote, hmark, hallowed, hrest]

theorem isCode_blanks (ha : ∀ c ∈ a, isBlank c = true)
    (hallowed : ∀ c, isBlank c = true → allowed c = true) : isCode allowed false a = true :=
  isCode_of_forall fun c hc ↦ ⟨ne_of_isBlank (ha c hc) (by decide),
    not_isCommentMark_of_isBlank (ha c hc), hallowed c (ha c hc)⟩

theorem stripComment_append (ha : isCode allowed inString a = true) (b : List Char) :
    stripComment inString (a ++ b) = a ++ stripComment false b := by
  induction a generalizing inString with
  | nil =>
      have hout : inString = false := by simpa [isCode] using ha
      simp [hout]
  | cons c rest ih =>
      simp only [List.cons_append, isCode, stripComment] at ha ⊢
      split
      · next hquote => rw [ih (by simpa [hquote] using ha)]
      · next hquote =>
          simp only [hquote, if_false, Bool.and_eq_true] at ha
          have hmark : (!inString && isCommentMark c) = false := by
            cases inString <;> simp_all
          rw [if_neg (by simp [hmark]), ih ha.2]

theorem head?_stripComment (h : text.head?.all isBlank = true) :
    (stripComment false text).head?.all isBlank = true := by
  cases text with
  | nil => rfl
  | cons c rest =>
      have hc : isBlank c = true := h
      have hquote := ne_of_isBlank (d := '"') hc (by decide)
      simp [stripComment, hquote, not_isCommentMark_of_isBlank hc, hc]

theorem Comment.stripComment_text (comment : Comment) :
    stripComment false comment.text = [] := by
  have hmarked := comment.marked
  cases htext : comment.text with
  | nil => rfl
  | cons c rest =>
      rw [htext] at hmarked
      have hmark : isCommentMark c = true := hmarked
      have hquote : c ≠ '"' := by rintro rfl; revert hmark; decide
      simp [stripComment, hquote, hmark]

theorem hasInitializer_append (ha : isCode (· != '=') inString a = true) (b : List Char) :
    hasInitializer inString (a ++ b) = hasInitializer false b := by
  induction a generalizing inString with
  | nil =>
      have hout : inString = false := by simpa [isCode] using ha
      simp [hout]
  | cons c rest ih =>
      simp only [List.cons_append, isCode, hasInitializer] at ha ⊢
      split
      · next hquote => exact ih (by simpa [hquote] using ha)
      · next hquote =>
          simp only [hquote, if_false, Bool.and_eq_true] at ha
          have hequals : (c == '=' && !inString) = false := by
            cases inString <;> simp_all
          rw [hequals, Bool.false_or, ih ha.2]

theorem hasInitializer_append_blanks {blanks : List Char}
    (hblanks : ∀ c ∈ blanks, isBlank c = true) (text : List Char) :
    hasInitializer inString (text ++ blanks) = hasInitializer inString text := by
  induction text generalizing inString with
  | nil =>
      induction blanks with
      | nil => rfl
      | cons c rest ih =>
          have hquote := ne_of_isBlank (d := '"') (hblanks c (by simp)) (by decide)
          have hequals := ne_of_isBlank (d := '=') (hblanks c (by simp)) (by decide)
          simpa [hasInitializer, hquote, hequals] using ih fun d hd ↦ hblanks d (by simp [hd])
  | cons c rest ih => simp only [List.cons_append, hasInitializer, ih]

theorem hasInitializer_trimEnd (text : List Char) :
    hasInitializer false (trimEnd text) = hasInitializer false text := by
  obtain ⟨blanks, hblanks, htext⟩ := exists_append_trimEnd text
  rw [congrArg (hasInitializer false) htext, hasInitializer_append_blanks hblanks]

/-! ### Keywords -/

theorem isOneOf_iff :
    isOneOf word keywords = true ↔ ∃ keyword ∈ keywords, isKeyword word keyword = true := by
  simp [isOneOf]

theorem isOneOf_of_subset {others : List String} (h : isOneOf word keywords = false)
    (hsubset : others ⊆ keywords) : isOneOf word others = false := by
  rw [isOneOf, List.any_eq_false] at h ⊢
  exact fun keyword hkeyword ↦ h keyword (hsubset hkeyword)

/-- A word that is a keyword is another one only if the two are the same. -/
theorem isKeyword_congr (h : isKeyword word keyword = true) (other : String) :
    isKeyword word other = isKeyword keyword.toList other :=
  sameWord_congr h _

theorem isOneOf_congr (h : isKeyword word keyword = true) (others : List String) :
    isOneOf word others = isOneOf keyword.toList others := by
  rw [isOneOf, isOneOf, funext (isKeyword_congr h)]

theorem isAlpha_of_isKeyword (h : isKeyword word keyword = true)
    (hkeyword : keyword.toList.all Char.isAlpha = true) : ∀ c ∈ word, c.isAlpha = true :=
  isAlpha_of_sameWord h (List.all_eq_true.mp hkeyword)

theorem isKeyword_eq_false (hkeyword : keyword.toList.all Char.isAlpha = true) (hmem : c ∈ word)
    (hc : c.isAlpha = false) : isKeyword word keyword = false := by
  rw [← Bool.not_eq_true]
  intro h
  simpa [hc] using isAlpha_of_isKeyword h hkeyword c hmem

/-- What is attached to a word, unless it is a letter, keeps it from being a keyword. -/
theorem isKeyword_append (hkeyword : keyword.toList.all Char.isAlpha = true)
    (hword : isKeyword word keyword = false)
    (hattached : a.head?.all (fun c ↦ !c.isAlpha) = true) :
    isKeyword (word ++ a) keyword = false := by
  cases a with
  | nil => simpa using hword
  | cons c rest => exact isKeyword_eq_false hkeyword (c := c) (by simp) (by simpa using hattached)

theorem isOneOf_append (hkeywords : keywords.all (·.toList.all Char.isAlpha) = true)
    (hword : isOneOf word keywords = false)
    (hattached : a.head?.all (fun c ↦ !c.isAlpha) = true) :
    isOneOf (word ++ a) keywords = false := by
  simp only [isOneOf, List.any_eq_false, Bool.not_eq_true] at hword ⊢
  exact fun keyword hkeyword ↦
    isKeyword_append (List.all_eq_true.mp hkeywords keyword hkeyword) (hword keyword hkeyword) hattached

theorem isAlpha_of_mem_modifiers :
    ∀ keyword ∈ modifiers, keyword.toList.all Char.isAlpha = true := by
  decide

theorem isBlank_of_isKeyword (h : isKeyword word keyword = true)
    (hkeyword : keyword.toList.all Char.isAlpha = true) : ∀ c ∈ word, isBlank c = false :=
  fun c hc ↦ isBlank_of_isAlpha (isAlpha_of_isKeyword h hkeyword c hc)

theorem ne_nil_of_isKeyword (h : isKeyword word keyword = true) (hkeyword : keyword.toList ≠ []) :
    word ≠ [] := by
  rintro rfl
  exact hkeyword (List.length_eq_zero_iff.mp (length_eq_of_sameWord h).symm)

theorem exists_of_isRemark (h : isRemark text = true) :
    ∃ word rest, text = word ++ rest ∧ isKeyword word "REM" = true ∧
      rest.head?.all isBlank = true := by
  simp only [isRemark, Bool.and_eq_true] at h
  exact ⟨text.take 3, text.drop 3, (List.take_append_drop 3 text).symm, h⟩

theorem isRemark_append {rest : List Char} (hword : isKeyword word "REM" = true)
    (hrest : rest.head?.all isBlank = true) : isRemark (word ++ rest) = true := by
  have hlength : word.length = 3 := length_eq_of_sameWord hword
  simp only [isRemark, Bool.and_eq_true, ← hlength, List.take_left, List.drop_left]
  exact ⟨hword, hrest⟩

theorem words_of_remark {rest : List Char} (hword : isKeyword word "REM" = true)
    (hrest : rest.head?.all isBlank = true) : words (word ++ rest) = word :: words rest :=
  words_append_of_head? (ne_nil_of_isKeyword hword (by decide))
    (isBlank_of_isKeyword hword (by decide)) hrest

/-! ### Margins -/

theorem Attribute.isCode_text (attr : Attribute) :
    VisualBasic.isCode (fun _ ↦ true) false attr.text = true := by
  have hopen : VisualBasic.isCode (fun _ ↦ true) false ['<'] = true := by decide
  have hclose : VisualBasic.isCode (fun _ ↦ true) false ['>'] = true := by decide
  have hgap : VisualBasic.isCode (fun _ ↦ true) false attr.gap.text = true :=
    isCode_blanks attr.gap.blank fun _ _ ↦ rfl
  simpa [Attribute.text] using
    isCode_append hopen (isCode_append attr.isCode (isCode_append hclose hgap))

theorem isCode_flatMap {α : Type} {items : List α} {f : α → List Char}
    (h : ∀ item ∈ items, isCode allowed false (f item) = true) :
    isCode allowed false (items.flatMap f) = true := by
  induction items with
  | nil => rfl
  | cons item rest ih =>
      rw [List.flatMap_cons]
      exact isCode_append (h item (by simp)) (ih fun other hother ↦ h other (by simp [hother]))

theorem Margin.isCode_text (margin : Margin) :
    isCode (fun _ ↦ true) false margin.text = true :=
  isCode_append (isCode_blanks margin.indent.blank fun _ _ ↦ rfl)
    (isCode_flatMap fun attr _ ↦ attr.isCode_text)

theorem dropAttributes_of_cut {inside before rest : List Char}
    (h : cut ['>'] inside = some (before, rest)) :
    dropAttributes ('<' :: inside) = dropAttributes (trimStart rest) := by
  rw [dropAttributes]
  split
  · next hcut => simp [h] at hcut
  · next hcut =>
      rw [h, Option.some.injEq, Prod.mk.injEq] at hcut
      rw [hcut.2]

theorem dropAttributes_of_cut_eq_none {inside : List Char} (h : cut ['>'] inside = none) :
    dropAttributes ('<' :: inside) = [] := by
  rw [dropAttributes]
  split
  · rfl
  · next hcut => simp [h] at hcut

theorem dropAttributes_attribute {inside : List Char} (h : '>' ∉ inside) (rest : List Char) :
    dropAttributes ('<' :: (inside ++ '>' :: rest)) = dropAttributes (trimStart rest) :=
  dropAttributes_of_cut (cut_append_cons h rest)

theorem dropAttributes_eq_self (h : text.head? ≠ some '<') : dropAttributes text = text := by
  rw [dropAttributes]
  rintro inside rfl
  exact h rfl

theorem head?_attributes (attributes : List Attribute)
    (htext : text.head?.all (fun c ↦ !isBlank c) = true) :
    (attributes.flatMap Attribute.text ++ text).head?.all (fun c ↦ !isBlank c) = true := by
  cases attributes with
  | nil => exact htext
  | cons attr rest => exact (by decide : (!isBlank '<') = true)

theorem trimEnd_of_head? (htext : text.head?.all (fun c ↦ !isBlank c) = true) :
    (trimEnd text).head? = text.head? := by
  cases text with
  | nil => rfl
  | cons c rest => rw [trimEnd_cons (by simpa using htext)]; rfl

theorem dropAttributes_trimEnd (attributes : List Attribute)
    (htext : text.head?.all (fun c ↦ !isBlank c) = true) (hattribute : text.head? ≠ some '<') :
    dropAttributes (trimEnd (attributes.flatMap Attribute.text ++ text)) = trimEnd text := by
  induction attributes with
  | nil => exact dropAttributes_eq_self (by rwa [List.flatMap_nil, List.nil_append,
      trimEnd_of_head? htext])
  | cons attr rest ih =>
      have hsplit : (attr :: rest).flatMap Attribute.text ++ text =
          ('<' :: attr.inside) ++ '>' ::
            (attr.gap.text ++ (rest.flatMap Attribute.text ++ text)) := by
        simp [Attribute.text]
      rw [hsplit, trimEnd_append_cons _ (by decide), List.cons_append,
        dropAttributes_attribute attr.unclosed, trimStart_trimEnd,
        trimStart_blanks_append attr.gap.blank, trimStart_eq_self (head?_attributes rest htext), ih]

/-- The code of a line is what follows its margin, without trailing blanks. -/
theorem codeOf_margin (margin : Margin) {code : List Char} (comment : Comment)
    (hcode : isCode (fun _ ↦ true) false code = true)
    (hblank : code.head?.all (fun c ↦ !isBlank c) = true) (hattribute : code.head? ≠ some '<')
    (hremark : (words code).head?.all (fun word ↦ !isKeyword word "REM") = true) :
    codeOf (margin.text ++ (code ++ comment.text)) = trimEnd code := by
  have hstrip : stripComment false (margin.text ++ (code ++ comment.text)) =
      margin.text ++ code := by
    rw [stripComment_append margin.isCode_text, stripComment_append hcode,
      comment.stripComment_text, List.append_nil]
  have htrim : trim (margin.text ++ code) =
      trimEnd (margin.attributes.flatMap Attribute.text ++ code) := by
    rw [trim, Margin.text, List.append_assoc, trimStart_blanks_append margin.indent.blank,
      trimStart_eq_self (head?_attributes _ hblank)]
  have hnot : isRemark (trimEnd (margin.attributes.flatMap Attribute.text ++ code)) = false := by
    rw [← Bool.not_eq_true]
    intro hremark'
    obtain ⟨word, rest, htext, hword, hrest⟩ := exists_of_isRemark hremark'
    have hwords := words_of_remark hword hrest
    rw [← htext, words_trimEnd] at hwords
    cases hattributes : margin.attributes with
    | nil =>
        rw [hattributes, List.flatMap_nil, List.nil_append] at hwords
        simp [hwords, hword] at hremark
    | cons attr more =>
        -- The first word begins with the bracket of the attribute.
        have hletters := isAlpha_of_isKeyword hword (by decide)
        rw [hattributes, List.flatMap_cons, Attribute.text, List.cons_append, List.cons_append,
          words_cons (by decide), List.cons.injEq] at hwords
        have hopen := hletters '<' (by simp [← hwords.1])
        revert hopen
        decide
  rw [codeOf, hstrip, htrim]
  simp only [hnot, Bool.false_eq_true, if_false]
  exact dropAttributes_trimEnd _ hblank hattribute

theorem Filler.words_codeOf_text (line : Filler) : words (codeOf line.text) = [] := by
  cases line with
  | blank margin comment =>
      have hcode : codeOf (margin.text ++ ([] ++ comment.text)) = trimEnd [] :=
        codeOf_margin margin comment rfl rfl nofun rfl
      rw [List.nil_append] at hcode
      rw [Filler.text, hcode]
      rfl
  | remark indent word hword rest apart =>
      have hletters := isAlpha_of_isKeyword hword (by decide)
      have hblank : ∀ c ∈ word, isBlank c = false := isBlank_of_isKeyword hword (by decide)
      have hcode : isCode (fun _ ↦ true) false word = true := isCode_of_forall fun c hc ↦
        ⟨ne_of_isAlpha (hletters c hc) (by decide), not_isCommentMark_of_isAlpha (hletters c hc),
          rfl⟩
      have hhead : (word ++ stripComment false rest).head?.all (fun c ↦ !isBlank c) = true := by
        cases word with
        | nil => exact absurd hword (by decide)
        | cons c more => simp [hblank]
      have hstrip := head?_trimEnd (head?_stripComment apart)
      have htrim : trim (indent.text ++ (word ++ stripComment false rest)) =
          word ++ trimEnd (stripComment false rest) := by
        rw [trim, trimStart_blanks_append indent.blank, trimStart_eq_self hhead,
          trimEnd_append hblank]
      rw [codeOf, Filler.text, stripComment_append (isCode_blanks indent.blank fun _ _ ↦ rfl),
        stripComment_append hcode, htrim]
      simp [isRemark_append hword hstrip]

/-! ### Lines -/

theorem Modifier.nonempty (m : Modifier) : m.text ≠ [] := by
  obtain ⟨keyword, hmem, hkeyword⟩ := isOneOf_iff.mp m.isModifier
  have hne : ∀ keyword ∈ modifiers, keyword.toList ≠ [] := by decide
  exact ne_nil_of_isKeyword hkeyword (hne keyword hmem)

theorem Modifier.isAlpha (m : Modifier) : ∀ c ∈ m.text, c.isAlpha = true := by
  obtain ⟨keyword, hmem, hkeyword⟩ := isOneOf_iff.mp m.isModifier
  exact isAlpha_of_isKeyword hkeyword (isAlpha_of_mem_modifiers keyword hmem)

/-- A modifier is no keyword of another kind. -/
theorem Modifier.isKeyword_eq_false (m : Modifier)
    (h : ∀ modifier ∈ modifiers, isKeyword modifier.toList keyword = false) :
    isKeyword m.text keyword = false := by
  obtain ⟨modifier, hmem, hmodifier⟩ := isOneOf_iff.mp m.isModifier
  exact (isKeyword_congr hmodifier keyword).trans (h modifier hmem)

theorem Name.isBlank_eq_false (name : Name) : ∀ c ∈ name.text, isBlank c = false := by
  intro c hc
  have hname := name.isName c hc
  simp only [isNameChar, Bool.and_eq_true, Bool.not_eq_true'] at hname
  exact hname.1.1.1

theorem Name.isCode_text (name : Name) (hequals : '=' ∉ name.text) :
    isCode (· != '=') false name.text = true := by
  refine isCode_of_forall fun c hc ↦ ?_
  have hname := name.isName c hc
  simp only [isNameChar, Bool.and_eq_true, Bool.not_eq_true', bne_iff_ne] at hname
  refine ⟨hname.1.1.2, hname.2, ?_⟩
  rw [bne_iff_ne]
  rintro rfl
  exact hequals hc

theorem Gap.isCode_text (gap : Gap) : isCode (· != '=') false gap.text = true :=
  isCode_blanks gap.blank fun _ hc ↦ bne_iff_ne.mpr (ne_of_isBlank hc (by decide))

theorem Modifier.isCode_text (m : Modifier) : isCode (· != '=') false m.text = true :=
  isCode_of_forall fun c hc ↦
    ⟨ne_of_isAlpha (m.isAlpha c hc) (by decide), not_isCommentMark_of_isAlpha (m.isAlpha c hc),
      bne_iff_ne.mpr (ne_of_isAlpha (m.isAlpha c hc) (by decide))⟩

theorem Gap.head?_append (gap : Gap) (rest : List Char) :
    (gap.text ++ rest).head?.all isBlank = true := by
  have hblank := gap.blank
  cases hgap : gap.text with
  | nil => exact absurd hgap gap.nonempty
  | cons c more => exact hblank c (by simp [hgap])

namespace Line

variable (line : Line)

/-- The word after the modifiers, with what is attached to it. -/
def first : List Char :=
  line.word.text ++ upToBlank line.tail

def others : List (List Char) :=
  words (fromBlank line.tail)

/-- Up to the word there is no equals sign. -/
theorem isCode_front :
    VisualBasic.isCode (· != '=') false
      (line.modifiers.flatMap (fun m ↦ m.text ++ m.gap.text) ++ line.word.text) = true :=
  isCode_append (isCode_flatMap fun m _ ↦ isCode_append m.isCode_text m.gap.isCode_text)
    (line.word.isCode_text line.noEquals)

theorem isCode_code : VisualBasic.isCode (fun _ ↦ true) false line.code = true := by
  rw [code, ← List.append_assoc]
  exact isCode_append (isCode_mono line.isCode_front) line.isCode

theorem words_code : words line.code =
    line.modifiers.map Modifier.text ++ line.first :: line.others := by
  have hword : words (line.word.text ++ line.tail) = line.first :: line.others :=
    words_append line.word.nonempty line.word.isBlank_eq_false line.tail
  rw [code]
  induction line.modifiers with
  | nil => exact hword
  | cons m rest ih =>
      rw [List.flatMap_cons, List.append_assoc, List.append_assoc,
        words_append_of_head? m.nonempty (fun c hc ↦ isBlank_of_isAlpha (m.isAlpha c hc))
          (m.gap.head?_append _), words_blanks_append m.gap.blank, ih]
      rfl

theorem first_not_modifier : isOneOf line.first ("REM" :: VisualBasic.modifiers) = false :=
  isOneOf_append (by decide) line.notModifier (head?_upToBlank line.apart)

theorem exists_head?_code :
    ∃ c, line.code.head? = some c ∧ isBlank c = false ∧ c ≠ '<' := by
  rw [code]
  cases line.modifiers with
  | nil =>
      have hattribute := line.noAttribute
      have hblank := line.word.isBlank_eq_false
      cases hword : line.word.text with
      | nil => exact absurd hword line.word.nonempty
      | cons c rest =>
          rw [hword] at hattribute
          exact ⟨c, rfl, hblank c (by simp [hword]), by simpa using hattribute⟩
  | cons m rest =>
      have hletters := m.isAlpha
      cases htext : m.text with
      | nil => exact absurd htext m.nonempty
      | cons c more =>
          have hc := hletters c (by simp [htext])
          exact ⟨c, by simp [htext], isBlank_of_isAlpha hc, ne_of_isAlpha hc (by decide)⟩

theorem codeOf_text : codeOf line.text = trimEnd line.code := by
  obtain ⟨c, hhead, hblank, hattribute⟩ := line.exists_head?_code
  refine codeOf_margin line.margin line.comment line.isCode_code (by simp [hhead, hblank])
    (by simpa [hhead] using hattribute) ?_
  have hfirst := line.first_not_modifier
  simp only [isOneOf, List.any_cons, Bool.or_eq_false_iff] at hfirst
  rw [line.words_code]
  cases line.modifiers with
  | nil => simp [hfirst.1]
  | cons m rest =>
      have hm : isKeyword m.text "REM" = false := m.isKeyword_eq_false (by decide)
      simp [hm]

theorem words_codeOf_text : words (codeOf line.text) =
    line.modifiers.map Modifier.text ++ line.first :: line.others := by
  rw [codeOf_text, words_trimEnd, words_code]

theorem isOneOf_first : isOneOf line.first VisualBasic.modifiers = false := by
  have hfirst := line.first_not_modifier
  rw [isOneOf, List.any_cons, Bool.or_eq_false_iff] at hfirst
  exact hfirst.2

theorem takeWhile_words :
    (words (codeOf line.text)).takeWhile (isOneOf · VisualBasic.modifiers) =
      line.modifiers.map Modifier.text := by
  rw [line.words_codeOf_text, List.takeWhile_append_of_pos, List.takeWhile_cons,
    line.isOneOf_first]
  · simp
  · simpa using fun m _ ↦ m.isModifier

theorem dropWhile_words :
    (words (codeOf line.text)).dropWhile (isOneOf · VisualBasic.modifiers) =
      line.first :: line.others := by
  rw [line.words_codeOf_text, List.dropWhile_append_of_pos, List.dropWhile_cons,
    line.isOneOf_first]
  · simp
  · simpa using fun m _ ↦ m.isModifier

theorem hasInitializer_codeOf_text :
    hasInitializer false (codeOf line.text) = hasInitializer false line.tail := by
  rw [codeOf_text, hasInitializer_trimEnd, code, ← List.append_assoc,
    hasInitializer_append line.isCode_front]

theorem first_of_apart (h : line.tail.head?.all isBlank = true) :
    line.first = line.word.text := by
  rw [first, upToBlank_eq_nil h, List.append_nil]

theorem others_of_apart (h : line.tail.head?.all isBlank = true) :
    line.others = words line.tail := by
  rw [others, fromBlank_eq_self h]

end Line

namespace NamedLine

variable {keyword : String} (line : NamedLine keyword)

theorem tail_apart : line.tail.head?.all isBlank = true := by
  rw [line.tail_eq]
  exact line.gap.head?_append _

theorem others_eq : line.others =
    (line.name.text ++ upToBlank line.rest) :: words (fromBlank line.rest) := by
  rw [line.toLine.others_of_apart line.tail_apart, line.tail_eq,
    words_blanks_append line.gap.blank,
    words_append line.name.nonempty line.name.isBlank_eq_false]

theorem beforeParenthesis_name :
    beforeParenthesis (line.name.text ++ upToBlank line.rest) = line.name.text := by
  have hname : ∀ c ∈ line.name.text, (c != '(') = true := fun c hc ↦ by
    have hc := line.name.isName c hc
    simp only [isNameChar, Bool.and_eq_true] at hc
    exact hc.1.2
  have hrest : (upToBlank line.rest).head?.all (fun c ↦ c == '(') = true := by
    have hends := line.ends
    cases hline : line.rest with
    | nil => rfl
    | cons c more =>
        rw [hline] at hends
        cases hc : isBlank c with
        | true => simp [upToBlank, hc]
        | false => simpa [upToBlank, hc] using hends
  rw [beforeParenthesis, List.takeWhile_append_of_pos hname]
  cases hup : upToBlank line.rest with
  | nil => simp
  | cons c more => simp_all

end NamedLine

namespace EndLine

variable (line : EndLine keyword)

theorem tail_apart : line.tail.head?.all isBlank = true := by
  rw [line.tail_eq]
  exact line.gap.head?_append _

theorem words_codeOf_text (hkeyword : keyword.toList.all Char.isAlpha = true)
    (hne : keyword.toList ≠ []) :
    words (codeOf line.text) = line.word.text :: line.block :: words line.rest := by
  rw [line.toLine.words_codeOf_text, line.unmodified,
    line.toLine.first_of_apart line.tail_apart, line.toLine.others_of_apart line.tail_apart,
    line.tail_eq, words_blanks_append line.gap.blank,
    words_append_of_head? (ne_nil_of_isKeyword line.isBlock hne)
      (isBlank_of_isKeyword line.isBlock hkeyword) line.ends]
  rfl

end EndLine

/-! ### Lines that close a body -/

variable {first second : String} {more : List (List Char)}

theorem BeginsWith.blanks_append {blanks : List Char} (hblanks : ∀ c ∈ blanks, isBlank c = true)
    (h : BeginsWith first second text) : BeginsWith first second (blanks ++ text) := by
  induction blanks with
  | nil => exact h
  | cons c rest ih => exact .blank (hblanks c (by simp)) (ih fun d hd ↦ hblanks d (by simp [hd]))

theorem beginsWith_of_words (h : words text = a :: b :: more) (ha : isKeyword a first = true)
    (hb : isKeyword b second = true) {after : List Char}
    (hafter : after.head?.all (fun c ↦ isBlank c || isCommentMark c) = true) :
    BeginsWith first second (text ++ after) := by
  obtain ⟨indent, rest, rfl, hindent, -, hrest, hmore⟩ := exists_of_words h
  cases rest with
  | nil => cases hmore
  | cons c rest =>
      -- The blank that ends the first word begins the gap, which so is not empty.
      have hc : isBlank c = true := hrest
      rw [words_cons_of_isBlank hc] at hmore
      obtain ⟨gap, rest, rfl, hgap, -, hrest, -⟩ := exists_of_words hmore
      have hends : (rest ++ after).head?.all (fun c ↦ isBlank c || isCommentMark c) = true := by
        cases rest with
        | nil => exact hafter
        | cons d rest => simp_all
      have hkeywords : BeginsWith first second (a ++ ((c :: gap) ++ (b ++ (rest ++ after)))) :=
        .keywords ha ⟨by simp, by simpa [hc] using hgap⟩ hb hends
      simpa using hkeywords.blanks_append hindent

theorem not_mem_of_cut {separator : Char} {before after : List Char}
    (h : cut [separator] text = some (before, after)) : separator ∉ before := by
  induction text generalizing before with
  | nil => simp [cut] at h
  | cons c rest ih =>
      simp only [cut] at h
      split at h
      · simp only [Option.some.injEq, Prod.mk.injEq] at h
        simp [← h.1]
      · next hc =>
          obtain ⟨parts, hparts, heq⟩ := Option.map_eq_some_iff.mp h
          simp only [Prod.mk.injEq] at heq
          obtain ⟨rfl, rfl⟩ := heq
          simp at hc
          simp [hc, ih hparts]

theorem beginsWith_of_dropAttributes (h : words (dropAttributes text) = a :: b :: more)
    (ha : isKeyword a first = true) (hb : isKeyword b second = true) {after : List Char}
    (hafter : after.head?.all (fun c ↦ isBlank c || isCommentMark c) = true) :
    BeginsWith first second (text ++ after) := by
  fun_induction dropAttributes text with
  | case1 inside hcut => cases h
  | case2 inside before rest hcut ih =>
      obtain ⟨blanks, hblanks, hrest⟩ := exists_append_trimStart rest
      have hbegins := (ih h).blanks_append hblanks
      rw [← List.append_assoc, ← hrest] at hbegins
      have hsplit : '<' :: inside ++ after = '<' :: (before ++ '>' :: (rest ++ after)) := by
        simp [← append_of_cut hcut]
      rw [hsplit]
      exact .attributes (not_mem_of_cut hcut) hbegins
  | case3 text => exact beginsWith_of_words h ha hb hafter

theorem exists_append_stripComment (inString : Bool) (text : List Char) :
    ∃ comment, text = stripComment inString text ++ comment ∧
      comment.head?.all isCommentMark = true := by
  induction text generalizing inString with
  | nil => exact ⟨[], rfl, rfl⟩
  | cons c rest ih =>
      rw [stripComment]
      split
      · obtain ⟨comment, hrest, hcomment⟩ := ih (!inString)
        exact ⟨comment, by rw [List.cons_append, ← hrest], hcomment⟩
      · split
        · next hmark =>
            exact ⟨c :: rest, rfl, by simp_all⟩
        · obtain ⟨comment, hrest, hcomment⟩ := ih inString
          exact ⟨comment, by rw [List.cons_append, ← hrest], hcomment⟩

/-- Only a line that begins with two keywords has them as the first words of its code. -/
theorem beginsWith_of_codeOf (h : words (codeOf text) = a :: b :: more)
    (ha : isKeyword a first = true) (hb : isKeyword b second = true) :
    BeginsWith first second text := by
  obtain ⟨comment, hcomment, hmark⟩ := exists_append_stripComment false text
  obtain ⟨indent, hindent, hstart⟩ := exists_append_trimStart (stripComment false text)
  obtain ⟨blanks, hblanks, hend⟩ := exists_append_trimEnd (trimStart (stripComment false text))
  have hafter :
      (blanks ++ comment).head?.all (fun c ↦ isBlank c || isCommentMark c) = true := by
    cases blanks with
    | nil =>
        cases comment with
        | nil => rfl
        | cons c rest =>
            have hc : isCommentMark c = true := hmark
            simp [hc]
    | cons c rest => simp [hblanks c (by simp)]
  have htext : text = indent ++ (trim (stripComment false text) ++ (blanks ++ comment)) := by
    rw [trim, ← List.append_assoc _ blanks, ← hend, ← List.append_assoc, ← hstart, ← hcomment]
  simp only [codeOf] at h
  split at h
  · cases h
  · rw [htext]
    exact (beginsWith_of_dropAttributes h ha hb hafter).blanks_append hindent

/-- The first two words of a line that begins with two keywords, of which the second can have
a comment attached to it. -/
theorem BeginsWith.exists_words (hfirst : first.toList.all Char.isAlpha = true)
    (hne : first.toList ≠ []) (hsecond : second.toList.all Char.isAlpha = true)
    (hne' : second.toList ≠ []) (h : BeginsWith first second text) :
    ∃ a b comment more, words (dropAttributes (trimStart text)) = a :: (b ++ comment) :: more ∧
      isKeyword a first = true ∧ isKeyword b second = true := by
  induction h with
  | @keywords a gap b rest isFirst isGap isSecond ends =>
      have hletters := isAlpha_of_isKeyword isFirst hfirst
      have hane := ne_nil_of_isKeyword isFirst hne
      have hgap : (gap ++ (b ++ rest)).head?.all isBlank = true := by
        cases gap with
        | nil => exact absurd rfl isGap.1
        | cons c more => exact isGap.2 c (by simp)
      obtain ⟨c, more, rfl⟩ := List.exists_cons_of_ne_nil hane
      have hc := hletters c (by simp)
      refine ⟨c :: more, b, upToBlank rest, words (fromBlank rest), ?_, isFirst, isSecond⟩
      rw [trimStart_eq_self (by simp [isBlank_of_isAlpha hc]),
        dropAttributes_eq_self (by simpa using ne_of_isAlpha hc (by decide)),
        words_append_of_head? hane (isBlank_of_isKeyword isFirst hfirst) hgap,
        words_blanks_append isGap.2, words_append (ne_nil_of_isKeyword isSecond hne')
          (isBlank_of_isKeyword isSecond hsecond)]
  | @blank c rest hblank begins ih =>
      have hstart : trimStart (c :: rest) = trimStart rest := by simp [trimStart, hblank]
      rw [hstart]
      exact ih
  | @attributes inside rest unclosed begins ih =>
      rw [trimStart_eq_self (by exact (by decide : (!isBlank '<') = true)),
        dropAttributes_attribute unclosed]
      exact ih

end GuestGate.VisualBasic
