import GuestGate.Proofs.VisualBasic.Scanning

/-!
# Bodies with any statements

For the scan a body is over with the first line that begins with `End` and the keyword of the
member, be it the end of a lambda.  What stands behind that line is exposed: it is read as if it
were declared in the type, and there an equals sign is the mark of an initializer.
-/

namespace GuestGate.VisualBasic

open Text Scanner

/-! ### Statements -/

def endsBody (keyword : String) (line : List Char) : Bool :=
  match words (codeOf line) with
  | first :: second :: _ => isKeyword first "End" && isKeyword second keyword
  | _ => false

def assigns (text : List Char) : Bool :=
  !isCode (· != '=') false text

/-- A line that begins with `End` and ends no type, such as `End If` or the end of a lambda. -/
structure EndStatement extends Line where
  isEnd : isKeyword word.text "End" = true
  unmodified : modifiers = []
  standsApart : tail.head?.all isBlank = true
  endsNoType : (words tail).head?.all (fun word ↦ (TypeBlock.ofWord? word).isNone) = true

/-- A line of a body, as it is read where members are declared. -/
inductive Statement
  | filler (line : Filler)
  | ending (line : EndStatement)
  | plain (line : Line) (unreserved : isOneOf line.first reservedWords = false)

namespace Statement

def text : Statement → List Char
  | filler line => line.text
  | ending line => line.text
  | plain line _ => line.text

def initializes (kind : TypeBlock) : Statement → Bool
  | plain line _ => line.isShared kind && !line.has "Const" && assigns line.tail
  | _ => false

end Statement

/-! ### Members with a body -/

/-- A line that ends a body for the scan, and what stands in the body behind it. -/
structure Remainder (keyword : String) where
  line : List Char
  ends : endsBody keyword line = true
  statements : List Statement

/-- What is between the first and the last line of a body: any lines that do not end it, and what
there is from the first one that does. -/
structure Inside (keyword : String) where
  passed : List (List Char)
  inside : ∀ line ∈ passed, endsBody keyword line = false
  remainder : Option (Remainder keyword)

namespace Inside

variable {keyword : String}

def lines (inside : Inside keyword) : List (List Char) :=
  inside.passed ++
    inside.remainder.elim [] fun rest ↦ rest.line :: rest.statements.map Statement.text

def exposed (inside : Inside keyword) : List Statement :=
  inside.remainder.elim [] Remainder.statements

end Inside

/-- The lines that open a body, the accessor of a property among them. -/
inductive Opening
  | procedure (kind : BodyKind) (isProcedure : kind ∈ [.sub, .function, .operator])
      (head : NamedLine kind.keyword) (bodied : head.has "MustOverride" = false)
  | property (head : PropertyLine) (valueless : head.value = none)
      (bodied : head.has "MustOverride" = false) (fillers : List Filler)
      (accessor : AccessorLine) (apart : accessor.StandsApart)

namespace Opening

def kind : Opening → BodyKind
  | procedure kind .. => kind
  | property .. => .property

def head : Opening → Line
  | procedure _ _ head _ => head.toLine
  | property head .. => head.toLine

def lines : Opening → List (List Char)
  | procedure _ _ head _ => [head.text]
  | property head _ _ fillers accessor _ =>
      head.text :: (fillers.map Filler.text ++ [accessor.text])

def initializes (type : TypeBlock) : Opening → Bool
  | procedure kind _ head _ =>
      kind == .sub && isKeyword head.name.text "New" && head.isShared type
  | property .. => false

end Opening

/-- A sub, a function, an operator or a property with a body. -/
inductive BodiedMember
  | opened (opening : Opening) (inside : Inside opening.kind.keyword)
      (closing : EndLine opening.kind.keyword)
  /-- A property whose first accessor has something attached to its word, which opens no body. -/
  | unopened (head : PropertyLine) (valueless : head.value = none)
      (bodied : head.has "MustOverride" = false) (fillers : List Filler)
      (accessor : AccessorLine) (attached : ¬ accessor.StandsApart)
      (statements : List Statement) (closing : EndLine "Property")

namespace BodiedMember

def lines : BodiedMember → List (List Char)
  | opened opening inside closing => opening.lines ++ (inside.lines ++ [closing.text])
  | unopened head _ _ fillers accessor _ statements closing =>
      head.text :: (fillers.map Filler.text ++
        (accessor.text :: (statements.map Statement.text ++ [closing.text])))

def emptied : BodiedMember → List (List Char)
  | opened opening _ closing => [opening.head.text, closing.text]
  | unopened head _ _ _ _ _ _ closing => [head.text, closing.text]

def initializes (kind : TypeBlock) : BodiedMember → Bool
  | opened opening _ _ => opening.initializes kind
  | unopened .. => false

/-- What is inside, but not passed over. -/
def exposed : BodiedMember → List Statement
  | opened _ inside _ => inside.exposed
  | unopened _ _ _ _ accessor attached statements _ =>
      .plain accessor.toLine (accessor.first_unreserved attached) :: statements

/-- An entry for the member itself if it initializes its type, and one for each statement that is
taken for an initializer. -/
def entries (m : BodiedMember) (kind : TypeBlock) (types : List String) : List String :=
  entryIf (m.initializes kind) types ++
    m.exposed.flatMap fun statement ↦ entryIf (statement.initializes kind) types

end BodiedMember

/-! ### Reading -/

variable {s t : Scanner} {name text : List Char} {kind : TypeBlock} {body : BodyKind}
  {types : List (List Char × TypeBlock)} {outer : List Block} {inString : Bool}
  {keyword : String}

theorem hasInitializer_eq (h : isCode (fun _ ↦ true) inString text = true) :
    hasInitializer inString text = !isCode (· != '=') inString text := by
  induction text generalizing inString with
  | nil =>
      have hout : inString = false := by simpa [isCode] using h
      rw [hout]
      rfl
  | cons c rest ih =>
      simp only [isCode, hasInitializer] at h ⊢
      split
      · next hquote => exact ih (by simpa [hquote] using h)
      · next hquote =>
          simp only [hquote, if_false, Bool.and_eq_true] at h
          rw [ih h.2]
          cases inString with
          | true => simp
          | false =>
              have hmark : isCommentMark c = false := by simpa using h.1
              cases hequals : c == '=' <;> simp [bne, hequals, hmark]

/-- A body is left with the first line that ends it, and no other line inside of it counts. -/
theorem Scanner.push_inside (h : s.blocks = .body body :: outer) (line : List Char) :
    s.push line = if endsBody body.keyword line then s.closeBlock else s := by
  match hwords : words (codeOf line) with
  | [] => simp [push, endsBody, hwords]
  | [first] => simp [push, pushInBody, endsBody, hwords, h]
  | first :: second :: more => simp [push, pushInBody, endsBody, hwords, h]

theorem Scanner.foldl_push_passed (h : s.blocks = .body body :: outer) {passed : List (List Char)}
    (hpassed : ∀ line ∈ passed, endsBody body.keyword line = false) :
    passed.foldl push s = s := by
  induction passed with
  | nil => rfl
  | cons line rest ih =>
      have hpush : s.push line = s := by
        rw [push_inside h, hpassed line List.mem_cons_self]
        rfl
      rw [List.foldl_cons, hpush]
      exact ih fun other hother ↦ hpassed other (List.mem_cons_of_mem line hother)

theorem EndStatement.push_text (line : EndStatement) (h : s.Within types) :
    s.push line.text = s.settle := by
  have hfirst : line.first = line.word.text := line.toLine.first_of_apart line.standsApart
  have hwords : words (codeOf line.text) = line.word.text :: words line.tail := by
    rw [line.toLine.words_codeOf_text, line.unmodified, hfirst,
      line.toLine.others_of_apart line.standsApart]
    rfl
  have haccessor : startsAccessor (words (codeOf line.text)) = false := by
    rw [startsAccessor_codeOf_text, hfirst, isOneOf_congr line.isEnd]
    decide
  have hnotType : (words line.tail).head?.any
      (fun word ↦ (TypeBlock.ofWord? word).isSome) = false := by
    have hnone := line.endsNoType
    cases htail : words line.tail with
    | nil => rfl
    | cons word more => simpa [htail] using hnone
  rw [h.push_eq (words_codeOf_text_ne_nil line.toLine) haccessor, hwords, pushOutside,
    List.head?_cons, Option.any_some, line.isEnd, if_pos rfl, pushEnd]
  simp only [List.getElem?_cons_succ, ← List.head?_eq_getElem?, hnotType]

theorem Statement.adds_text (statement : Statement) (h : s.Within ((name, kind) :: types))
    (hname : name ≠ []) (hkind : kind ≠ .interfaceBlock) :
    s.Adds (s.push statement.text)
      (entryIf (statement.initializes kind) (pathOf ((name, kind) :: types))) := by
  cases statement with
  | filler line =>
      rw [Statement.text, push_filler]
      exact .refl s
  | ending line =>
      rw [Statement.text, line.push_text h]
      exact h.adds_settle
  | plain line unreserved =>
      rw [Statement.text, h.push_unreserved hname hkind line unreserved,
        hasInitializer_eq line.isCode]
      exact h.adds (.inl (recordIf_blocks _ _)) (h.recordIf_found _)

theorem Statement.adds_lines (statements : List Statement)
    (h : s.Within ((name, kind) :: types)) (hname : name ≠ []) (hkind : kind ≠ .interfaceBlock) :
    s.Adds ((statements.map Statement.text).foldl push s)
      (statements.flatMap fun statement ↦
        entryIf (statement.initializes kind) (pathOf ((name, kind) :: types))) := by
  induction statements generalizing s with
  | nil => exact .refl s
  | cons statement rest ih =>
      have hfirst := statement.adds_text h hname hkind
      rw [List.map_cons, List.foldl_cons, List.flatMap_cons]
      exact hfirst.append (ih (hfirst.within h))

/-- The end of a member, where it is read as one of the declarations of the type. -/
theorem EndLine.push_outside (closing : EndLine keyword) (h : s.Within types)
    (hkeyword : keyword.toList.all Char.isAlpha = true) (hne : keyword.toList ≠ [])
    (hnone : TypeBlock.ofWord? keyword.toList = none) : s.push closing.text = s.settle := by
  have hblock : TypeBlock.ofWord? closing.block = none := by
    simpa only [TypeBlock.ofWord?, isKeyword_congr closing.isBlock] using hnone
  rw [h.push_end closing hkeyword hne]
  simp [pushEnd, hblock]

theorem Inside.adds_lines (inside : Inside body.keyword) (closing : EndLine body.keyword)
    (h : t.blocks = .body body :: outer) (hclosed : t.closeBlock.Within ((name, kind) :: types))
    (hname : name ≠ []) (hkind : kind ≠ .interfaceBlock) :
    t.closeBlock.Adds ((inside.lines ++ [closing.text]).foldl push t)
      (inside.exposed.flatMap fun statement ↦
        entryIf (statement.initializes kind) (pathOf ((name, kind) :: types))) := by
  rw [lines, exposed, List.append_assoc, List.foldl_append, foldl_push_passed h inside.inside]
  cases inside.remainder with
  | none =>
      rw [Option.elim_none, List.nil_append, List.foldl_cons, List.foldl_nil, push_endBody h]
      exact .refl _
  | some rest =>
      have hleft : t.push rest.line = t.closeBlock := by
        rw [push_inside h, rest.ends]
        rfl
      have hexposed := Statement.adds_lines rest.statements hclosed hname hkind
      have hwithin := hexposed.within hclosed
      -- The end of the member has nothing left to close.
      have hend := closing.push_outside hwithin body.isAlpha_keyword body.keyword_ne_nil
        (by cases body <;> decide)
      rw [Option.elim_some, Option.elim_some, List.cons_append, List.foldl_cons, hleft,
        List.foldl_append, List.foldl_cons, List.foldl_nil, hend]
      simpa using hexposed.append hwithin.adds_settle

theorem Opening.exists_opened (opening : Opening) (h : s.Within ((name, kind) :: types))
    (hname : name ≠ []) (hkind : kind ≠ .interfaceBlock) (closing : EndLine opening.kind.keyword) :
    ∃ t : Scanner, opening.lines.foldl push s = t ∧
      t.blocks = .body opening.kind :: s.settle.blocks ∧
      t.found = s.found ++
        entryIf (opening.initializes kind) (pathOf ((name, kind) :: types)) := by
  cases opening with
  | procedure body isProcedure head bodied =>
      have hpush := h.push_procedure hname hkind
        ⟨body, isProcedure, head, some ([], closing), by simp [bodied]⟩
      simp only [bodied, Bool.false_eq_true, if_false] at hpush
      exact ⟨_, hpush, congrArg _ (recordIf_blocks _ _), h.recordIf_found _⟩
  | property head valueless bodied fillers accessor apart =>
      have hhead : s.push head.text = s.settle.openBlock .propertyHeader := by
        rw [h.push_property hname hkind, valueless, bodied]
        rfl
      refine ⟨(s.settle.openBlock .propertyHeader).closeBlock.openBlock (.body .property), ?_, rfl,
        by simp [openBlock, closeBlock, initializes]⟩
      rw [lines, List.foldl_cons, List.foldl_append, foldl_push_fillers, hhead, List.foldl_cons,
        List.foldl_nil, push_accessor rfl accessor apart]

/-- A property stays open until the line behind its fillers. -/
theorem Scanner.Within.adds_propertyHead {head : PropertyLine}
    (h : s.Within ((name, kind) :: types)) (hname : name ≠ []) (hkind : kind ≠ .interfaceBlock)
    (valueless : head.value = none) (bodied : head.has "MustOverride" = false)
    (fillers : List Filler) :
    s.Adds ((head.text :: fillers.map Filler.text).foldl push s) [] := by
  have hhead : s.push head.text = s.settle.openBlock .propertyHeader := by
    rw [h.push_property hname hkind, valueless, bodied]
    rfl
  rw [List.foldl_cons, foldl_push_fillers, hhead]
  exact h.adds (.inr rfl) (by simp [openBlock])

theorem BodiedMember.adds_lines (m : BodiedMember) (h : s.Within ((name, kind) :: types))
    (hname : name ≠ []) (hkind : kind ≠ .interfaceBlock) :
    s.Adds (m.lines.foldl push s) (m.entries kind (pathOf ((name, kind) :: types))) := by
  cases m with
  | opened opening inside closing =>
      obtain ⟨t, ht, hblocks, hfound⟩ := opening.exists_opened h hname hkind closing
      have hopened : s.Adds t.closeBlock
          (entryIf (opening.initializes kind) (pathOf ((name, kind) :: types))) :=
        h.adds (.inl (congrArg List.tail hblocks)) hfound
      rw [lines, List.foldl_append, ht]
      exact hopened.append (inside.adds_lines closing hblocks (hopened.within h) hname hkind)
  | unopened head valueless bodied fillers accessor attached statements closing =>
      have hhead := h.adds_propertyHead hname hkind valueless bodied fillers
      have hexposed := Statement.adds_lines
        (.plain accessor.toLine (accessor.first_unreserved attached) :: statements)
        (hhead.within h) hname hkind
      have hall := hhead.append hexposed
      have hwithin := hall.within h
      have hend := closing.push_outside hwithin (by decide) (by decide) (by decide)
      have hsplit : lines (.unopened head valueless bodied fillers accessor attached statements
            closing) =
          (head.text :: fillers.map Filler.text) ++
            ((accessor.text :: statements.map Statement.text) ++ [closing.text]) := by
        simp [lines]
      have hlast := hall.append (hend ▸ hwithin.adds_settle)
      rw [hsplit, List.foldl_append, List.foldl_append, List.foldl_cons, List.foldl_nil]
      simpa [entries, initializes, exposed, Statement.text] using hlast

/-- A property whose end comes right behind its first line. -/
theorem PropertyLine.adds_emptied (head : PropertyLine) (closing : EndLine "Property")
    (valueless : head.value = none) (bodied : head.has "MustOverride" = false)
    (h : s.Within ((name, kind) :: types)) (hname : name ≠ []) (hkind : kind ≠ .interfaceBlock) :
    s.Adds ([head.text, closing.text].foldl push s) [] := by
  have hhead := h.adds_propertyHead hname hkind valueless bodied []
  have hwithin := hhead.within h
  have hend := closing.push_outside hwithin (by decide) (by decide) (by decide)
  have hlast := hhead.append (hend ▸ hwithin.adds_settle)
  exact hlast

theorem BodiedMember.adds_emptied (m : BodiedMember) (h : s.Within ((name, kind) :: types))
    (hname : name ≠ []) (hkind : kind ≠ .interfaceBlock) :
    s.Adds (m.emptied.foldl push s)
      (entryIf (m.initializes kind) (pathOf ((name, kind) :: types))) := by
  cases m with
  | unopened head valueless bodied _ _ _ _ closing =>
      exact head.adds_emptied closing valueless bodied h hname hkind
  | opened opening inside closing =>
      cases opening with
      | property head valueless bodied =>
          exact head.adds_emptied closing valueless bodied h hname hkind
      | procedure body isProcedure head bodied =>
          have hempty := adds_lines
            (.opened (.procedure body isProcedure head bodied) ⟨[], nofun, none⟩ closing)
            h hname hkind
          simpa [entries, initializes, exposed, lines, emptied, Opening.lines, Opening.head,
            Inside.lines, Inside.exposed] using hempty

end GuestGate.VisualBasic
