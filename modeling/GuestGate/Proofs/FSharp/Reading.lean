import GuestGate.Proofs.FSharp.Syntax
import GuestGate.Proofs.Text.Cutting
import GuestGate.Proofs.Text.Words

/-!
# Reading a line of a tree

What the scan sees of a line is the piece that decides with a part of what follows it, so the
meaning of the line can be told from its pieces.
-/

namespace GuestGate.FSharp

open Text

variable {inString : Bool} {c : Char} {a b text word rest : List Char} {column : Nat}

/-! ### Comments -/

theorem isCode_append (ha : isCode inString a = true)
    (hapart : a.getLast? ≠ some '/' ∨ b.head? ≠ some '/') (hb : isCode false b = true) :
    isCode inString (a ++ b) = true := by
  induction a generalizing inString with
  | nil =>
      have hout : inString = false := by simpa [isCode] using ha
      simpa [hout] using hb
  | cons c more ih =>
      have hmore : more.getLast? ≠ some '/' ∨ b.head? ≠ some '/' := by
        cases more with
        | nil => simp
        | cons d more => simpa using hapart
      have hslash : (c == '/' && (more ++ b).head? == some '/') =
          (c == '/' && more.head? == some '/') := by
        cases more with
        | nil => rcases hapart with hc | hb <;> simp_all
        | cons d more => rfl
      rw [List.cons_append, isCode, hslash]
      rw [isCode] at ha
      split
      · next hquote => exact ih (by simpa [hquote] using ha) hmore
      · next hquote =>
          simp only [hquote, if_false, Bool.and_eq_true] at ha ⊢
          exact ⟨ha.1, ih ha.2 hmore⟩

/-- Text without quotes and slashes. -/
theorem isCode_of_forall (h : ∀ c ∈ a, c ≠ '"' ∧ c ≠ '/') : isCode false a = true := by
  induction a with
  | nil => rfl
  | cons c more ih =>
      obtain ⟨hquote, hslash⟩ := h c List.mem_cons_self
      simp [isCode, hquote, hslash, ih fun d hd ↦ h d (List.mem_cons_of_mem c hd)]

theorem stripComment_append (ha : isCode inString a = true) (hlast : a.getLast? ≠ some '/')
    (b : List Char) : stripComment inString (a ++ b) = a ++ stripComment false b := by
  induction a generalizing inString with
  | nil =>
      have hout : inString = false := by simpa [isCode] using ha
      rw [hout]
      rfl
  | cons c more ih =>
      have hmore : more.getLast? ≠ some '/' := by
        cases more with
        | nil => simp
        | cons d more => simpa using hlast
      -- only a slash at the very end could begin a comment together with what follows
      have hslash : (!inString && c == '/' && (more ++ b).head? == some '/') = false := by
        rw [isCode] at ha
        cases more with
        | nil => cases inString <;> simp_all
        | cons d more =>
            split at ha
            · next hquote => simp [hquote]
            · simp only [Bool.and_eq_true, Bool.or_eq_true] at ha
              cases inString with
              | true => rfl
              | false =>
                  have hnot := ha.1.resolve_left Bool.false_ne_true
                  rw [Bool.not_eq_true'] at hnot
                  exact hnot
      rw [List.cons_append, stripComment, hslash]
      simp only [Bool.false_eq_true, if_false, List.cons_append, List.cons.injEq, true_and]
      rw [isCode] at ha
      split
      · next hquote => exact ih (by simpa [hquote] using ha) hmore
      · next hquote =>
          simp only [hquote, if_false, Bool.and_eq_true] at ha
          exact ih ha.2 hmore

theorem head?_stripComment {p : Char → Bool} (h : text.head?.all p = true) :
    (stripComment inString text).head?.all p = true := by
  cases text with
  | nil => rfl
  | cons c more =>
      rw [stripComment]
      split
      · rfl
      · exact h

theorem stripComment_cons_of_isBlank (h : isBlank c = true) (rest : List Char) :
    stripComment false (c :: rest) = c :: stripComment false rest := by
  have hslash : c ≠ '/' := by rintro rfl; revert h; decide
  have hquote : c ≠ '"' := by rintro rfl; revert h; decide
  simp [stripComment, hslash, hquote]

theorem stripComment_blanks_append (h : ∀ c ∈ a, isBlank c = true) (rest : List Char) :
    stripComment false (a ++ rest) = a ++ stripComment false rest := by
  induction a with
  | nil => rfl
  | cons c more ih =>
      rw [List.cons_append, stripComment_cons_of_isBlank (h c List.mem_cons_self),
        ih fun d hd ↦ h d (List.mem_cons_of_mem c hd)]
      rfl

theorem trimStart_stripComment (text : List Char) :
    trimStart (stripComment false text) = stripComment false (trimStart text) := by
  induction text with
  | nil => rfl
  | cons c more ih =>
      cases hc : isBlank c with
      | true =>
          rw [stripComment_cons_of_isBlank hc]
          simpa [trimStart, hc] using ih
      | false =>
          have hhead : (c :: more).head?.all (fun c ↦ !isBlank c) = true := by simp [hc]
          rw [trimStart_eq_self hhead, trimStart_eq_self (head?_stripComment hhead)]

theorem Comment.stripComment_text (comment : Comment) :
    stripComment false comment.text = [] := by
  have hmarked := comment.marked
  match htext : comment.text with
  | [] => rfl
  | [c] => simp [htext] at hmarked
  | c :: d :: more =>
      obtain ⟨hc, hd⟩ : '/' = c ∧ '/' = d := by simpa [htext] using hmarked
      simp [stripComment, ← hc, ← hd]

theorem Trailing.trimEnd_text (trailing : Trailing) :
    trimEnd (stripComment false trailing.text) = [] := by
  rw [text, stripComment_blanks_append trailing.blanks.blank, trailing.comment.stripComment_text,
    List.append_nil, trimEnd_eq_nil trailing.blanks.blank]

/-- Code after which a comment can start. -/
structure Solid (a : List Char) : Prop where
  isCode : FSharp.isCode false a = true
  last : a.getLast? ≠ some '/'

theorem Solid.append (ha : Solid a) (hb : Solid b) : Solid (a ++ b) := by
  refine ⟨isCode_append ha.isCode (.inl ha.last) hb.isCode, ?_⟩
  rw [List.getLast?_append]
  cases hlast : b.getLast? with
  | none => simpa using ha.last
  | some c => simpa [hlast] using hb.last

theorem solid_of_forall (h : ∀ c ∈ a, c ≠ '"' ∧ c ≠ '/') : Solid a :=
  ⟨isCode_of_forall h, fun hlast ↦ (h '/' (List.mem_of_getLast? hlast)).2 rfl⟩

theorem Blanks.solid (blanks : Blanks) : Solid blanks.text := by
  refine solid_of_forall fun c hc ↦ ?_
  have hblank := blanks.blank c hc
  constructor <;> rintro rfl <;> revert hblank <;> decide

theorem solid_flatMap {α : Type} {items : List α} {f : α → List Char}
    (h : ∀ item, Solid (f item)) : Solid (items.flatMap f) := by
  induction items with
  | nil => exact solid_of_forall nofun
  | cons item rest ih => exact (h item).append ih

/-! ### Attributes -/

theorem Attribute.solid (attr : Attribute) : Solid attr.text := by
  have hopen : Solid ['[', '<'] := solid_of_forall (by simp)
  have hclose : Solid ['>', ']'] := solid_of_forall (by simp)
  have hend : Solid (['>', ']'] ++ attr.gap.text) := hclose.append attr.gap.solid
  have hinside : Solid (attr.inside ++ (['>', ']'] ++ attr.gap.text)) := by
    refine ⟨isCode_append attr.isCode (.inr (by simp)) hend.isCode, ?_⟩
    rw [List.getLast?_append]
    simpa using hend.last
  exact hopen.append hinside

theorem Margin.solid (margin : Margin column) : Solid margin.text :=
  margin.indent.solid.append (solid_flatMap Attribute.solid)

theorem cut_append {inside : List Char} (h : occurs ['>', ']'] inside = false)
    (rest : List Char) : cut ['>', ']'] (inside ++ (['>', ']'] ++ rest)) = some (inside, rest) := by
  apply (cut_append_eq_some_iff (by decide) inside rest).mpr
  have hclosing : (['>', ']'] : List Char).dropLast = ['>'] := rfl
  rw [hclosing, List.infix_concat_iff, not_or]
  constructor
  · rintro ⟨front, hfront⟩
    have hlast := congrArg List.getLast? hfront
    simp at hlast
  · intro hwithin
    rw [occurs_iff.mpr hwithin] at h
    cases h

theorem takeAttributes_append {inside : List Char} (h : occurs ['>', ']'] inside = false)
    (rest : List Char) :
    takeAttributes (['[', '<'] ++ (inside ++ (['>', ']'] ++ rest))) =
      (occurs "Literal".toList inside || (takeAttributes (trimStart rest)).1,
        (takeAttributes (trimStart rest)).2) := by
  have hopen : afterPrefix? ['[', '<'] (['[', '<'] ++ (inside ++ (['>', ']'] ++ rest))) =
      some (inside ++ (['>', ']'] ++ rest)) := afterPrefix?_append _ _
  rw [takeAttributes]
  split
  · next hnone =>
      rw [hopen] at hnone
      cases hnone
  · next after hsome =>
      rw [hopen, Option.some.injEq] at hsome
      subst hsome
      split
      · next hnone =>
          rw [cut_append h] at hnone
          cases hnone
      · next inner after hcut =>
          rw [cut_append h, Option.some.injEq, Prod.mk.injEq] at hcut
          obtain ⟨rfl, rfl⟩ := hcut
          rfl

theorem takeAttributes_eq_self (h : ['[', '<'].isPrefixOf text = false) :
    takeAttributes text = (false, text) := by
  rw [takeAttributes]
  split
  · rfl
  · next after hsome =>
      rw [← append_of_afterPrefix? hsome] at h
      simp at h

theorem head?_attributes (attributes : List Attribute)
    (htext : text.head?.all (fun c ↦ !isBlank c) = true) :
    (attributes.flatMap Attribute.text ++ text).head?.all (fun c ↦ !isBlank c) = true := by
  cases attributes with
  | nil => exact htext
  | cons attr rest => exact (by decide : (!isBlank '[') = true)

theorem takeAttributes_trimEnd (attributes : List Attribute)
    (htext : text.head?.all (fun c ↦ !isBlank c) = true)
    (hattribute : ['[', '<'].isPrefixOf (trimEnd text) = false) :
    takeAttributes (trimEnd (attributes.flatMap Attribute.text ++ text)) =
      (attributes.any Attribute.isLiteral, trimEnd text) := by
  induction attributes with
  | nil => exact takeAttributes_eq_self hattribute
  | cons attr rest ih =>
      have hsplit : (attr :: rest).flatMap Attribute.text ++ text =
          (['[', '<'] ++ (attr.inside ++ ['>'])) ++ ']' ::
            (attr.gap.text ++ (rest.flatMap Attribute.text ++ text)) := by
        simp [Attribute.text]
      have hjoin (after : List Char) : (['[', '<'] ++ (attr.inside ++ ['>'])) ++ ']' :: after =
          ['[', '<'] ++ (attr.inside ++ (['>', ']'] ++ after)) := by simp
      rw [hsplit, trimEnd_append_cons _ (by decide), hjoin, takeAttributes_append attr.unclosed,
        trimStart_trimEnd, trimStart_blanks_append attr.gap.blank,
        trimStart_eq_self (head?_attributes rest htext), ih]
      rfl

/-! ### Lines -/

/-- What is read from a line whose comment is off. -/
theorem read_of_stripComment {indent : Blanks} {attributes : List Attribute}
    (hstrip : stripComment false text = indent.text ++ (attributes.flatMap Attribute.text ++ a))
    (hblank : a.head?.all (fun c ↦ !isBlank c) = true)
    (hattribute : ['[', '<'].isPrefixOf (trimEnd a) = false)
    (hcomment : ['(', '*'].isPrefixOf (trimEnd a) = false) :
    CodeLine.read text =
      some ⟨byteLength indent.text, attributes.any Attribute.isLiteral, trimEnd a⟩ := by
  have hhead := head?_attributes attributes hblank
  have htrim : trim (stripComment false text) =
      trimEnd (attributes.flatMap Attribute.text ++ a) := by
    rw [hstrip, trim_blanks_append indent.blank hhead]
  have hnot : ['(', '*'].isPrefixOf (trimEnd (attributes.flatMap Attribute.text ++ a)) = false := by
    cases attributes with
    | nil => exact hcomment
    | cons attr rest =>
        have hsplit : (attr :: rest).flatMap Attribute.text ++ a =
            '[' :: ('<' :: (attr.inside ++ (['>', ']'] ++ attr.gap.text)) ++
              (rest.flatMap Attribute.text ++ a)) := by
          simp [Attribute.text]
        rw [hsplit, trimEnd_cons (by decide)]
        rfl
  have hindent : byteLength ((stripComment false text).takeWhile isBlank) =
      byteLength indent.text := by
    rw [hstrip, takeWhile_append_of_head? indent.blank hhead]
  simp only [CodeLine.read, htrim, hindent, hnot, Bool.false_eq_true, if_false,
    takeAttributes_trimEnd attributes hblank hattribute]

theorem read_eq_none (h : ['(', '*'].isPrefixOf (trim (stripComment false text)) = true) :
    CodeLine.read text = none := by
  simp only [CodeLine.read, h, if_true]

theorem Lead.read_attributes (indent : Blanks) (attr : Attribute) (more : List Attribute)
    (comment : Comment) : CodeLine.read (attributes indent attr more comment).text =
      some ⟨byteLength indent.text, (attr :: more).any Attribute.isLiteral, []⟩ := by
  have hsolid : Solid (indent.text ++ (attr :: more).flatMap Attribute.text) :=
    indent.solid.append (solid_flatMap Attribute.solid)
  refine read_of_stripComment (a := []) ?_ rfl rfl rfl
  rw [text, ← List.append_assoc, stripComment_append hsolid.isCode hsolid.last,
    comment.stripComment_text, List.append_nil, List.append_nil]

/-- The marks that open a block comment are left, whatever is cut off behind them. -/
theorem Blanks.read_blockComment (indent : Blanks) (rest : List Char) :
    CodeLine.read (indent.text ++ (['(', '*'] ++ rest)) = none := by
  have hsolid : Solid (indent.text ++ ['(', '*']) :=
    indent.solid.append (solid_of_forall (by simp))
  have hopen : ∀ rest : List Char, ('(' :: '*' :: rest).head?.all (fun c ↦ !isBlank c) = true :=
    fun _ ↦ (by decide : (!isBlank '(') = true)
  apply read_eq_none
  rw [← List.append_assoc, stripComment_append hsolid.isCode hsolid.last, List.append_assoc,
    List.cons_append, List.cons_append, List.nil_append, trim_blanks_append indent.blank (hopen _),
    trimEnd_cons (by decide), trimEnd_cons (by decide)]
  rfl

theorem Filler.read_text (line : Filler) (code : CodeLine)
    (h : CodeLine.read line.text = some code) : code.code = [] ∧ code.literal = false := by
  cases line with
  | blank trailing =>
      have hstrip : stripComment false trailing.text =
          trailing.blanks.text ++ ([].flatMap Attribute.text ++ []) := by
        rw [Trailing.text, stripComment_blanks_append trailing.blanks.blank,
          trailing.comment.stripComment_text]
        rfl
      have hread := read_of_stripComment hstrip rfl rfl rfl
      rw [Filler.text, hread, Option.some.injEq] at h
      rw [← h]
      exact ⟨rfl, rfl⟩
  | block indent inside after =>
      rw [Filler.text, indent.read_blockComment] at h
      cases h

theorem stripComment_isPrefix (inString : Bool) (text : List Char) :
    stripComment inString text <+: text := by
  induction text generalizing inString with
  | nil => exact List.prefix_rfl
  | cons c more ih =>
      rw [stripComment]
      split
      · exact List.nil_prefix
      · exact List.cons_prefix_cons.mpr ⟨rfl, ih _⟩

theorem trimEnd_stripComment_isPrefix (text : List Char) :
    trimEnd (stripComment false text) <+: text := by
  obtain ⟨blanks, -, htrim⟩ := exists_append_trimEnd (stripComment false text)
  exact (List.prefix_append _ blanks).trans (htrim ▸ stripComment_isPrefix false text)

theorem isPrefixOf_of_isPrefix {begin : List Char} (h : a <+: b)
    (hb : begin.isPrefixOf b = false) : begin.isPrefixOf a = false := by
  rw [Bool.eq_false_iff, ne_eq, List.isPrefixOf_iff_prefix] at hb ⊢
  exact fun ha ↦ hb (ha.trans h)

namespace Line

variable (line : Line column)

/-- What is left of what follows the piece that decides. -/
def left : List Char :=
  trimEnd (stripComment false line.rest)

def code : List Char :=
  line.front ++ line.left

theorem solid_front : Solid line.front := by
  refine ⟨line.isCode, fun hlast ↦ ?_⟩
  have hends := line.ends
  rw [hlast] at hends
  revert hends
  decide

theorem head?_left {p : Char → Bool} (h : line.rest.head?.all p = true) :
    line.left.head?.all p = true :=
  head?_trimEnd (head?_stripComment h)

theorem head?_trimStart_left {p : Char → Bool} (h : (trimStart line.rest).head?.all p = true) :
    (trimStart line.left).head?.all p = true := by
  rw [left, trimStart_trimEnd, trimStart_stripComment]
  exact head?_trimEnd (head?_stripComment h)

theorem isPrefixOf_code {begin : List Char}
    (h : begin.isPrefixOf (line.front ++ line.rest) = false) :
    begin.isPrefixOf line.code = false :=
  isPrefixOf_of_isPrefix ((List.prefix_append_right_inj _).mpr (trimEnd_stripComment_isPrefix _)) h

theorem trimEnd_front (rest : List Char) :
    trimEnd (line.front ++ rest) = line.front ++ trimEnd rest := by
  have hends := line.ends
  obtain ⟨c, hlast, hc⟩ := (Option.any_eq_true ..).mp hends
  obtain ⟨before, hfront⟩ := List.getLast?_eq_some_iff.mp hlast
  have hblank : isBlank c = false := by simp_all
  rw [hfront, List.append_assoc]
  simpa using trimEnd_append_cons before hblank rest

theorem code_ne_nil : line.code ≠ [] := by
  have hstarts := line.starts
  cases hfront : line.front <;> simp_all [code]

theorem read_text : CodeLine.read line.text =
    some ⟨column, line.margin.attributes.any Attribute.isLiteral, line.code⟩ := by
  have hsolid : Solid (line.margin.text ++ line.front) := line.margin.solid.append line.solid_front
  have hstrip : stripComment false line.text = line.margin.indent.text ++
      (line.margin.attributes.flatMap Attribute.text ++
        (line.front ++ stripComment false line.rest)) := by
    rw [text, ← List.append_assoc, stripComment_append hsolid.isCode hsolid.last, Margin.text]
    simp only [List.append_assoc]
  have hblank : (line.front ++ stripComment false line.rest).head?.all
      (fun c ↦ !isBlank c) = true := by
    have hstarts := line.starts
    cases hfront : line.front <;> simp_all
  have hcode : trimEnd (line.front ++ stripComment false line.rest) = line.code :=
    line.trimEnd_front _
  rw [read_of_stripComment hstrip hblank (hcode ▸ line.isPrefixOf_code line.noAttribute)
    (hcode ▸ line.isPrefixOf_code line.noComment), hcode, line.margin.width]

theorem code_eq_front (trailing : Trailing) (h : line.rest = trailing.text) :
    line.code = line.front := by
  rw [code, left, h, trailing.trimEnd_text, List.append_nil]

end Line

end GuestGate.FSharp
