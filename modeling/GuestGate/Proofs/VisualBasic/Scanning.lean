import GuestGate.Proofs.VisualBasic.Reading

/-!
# Scanning a tree of lines

A property whose first line has been read stays open until the next line tells whether it has
a body.  So what a member does is told of the state once that is settled: it leaves the open
blocks as they were, and adds an entry if it initializes its type.
-/

namespace GuestGate.VisualBasic

open Text

variable {word : List Char} {keyword : String}

/-! ### Keywords -/

namespace TypeBlock

theorem ofWord?_of_isKeyword {kind : TypeBlock} (h : isKeyword word kind.keyword = true) :
    ofWord? word = some kind := by
  simp only [ofWord?, isKeyword_congr h]
  cases kind <;> decide

theorem ofWord?_eq_none (h : isOneOf word ["Class", "Structure", "Module", "Interface"] = false) :
    ofWord? word = none := by
  simp only [isOneOf, List.any_cons, List.any_nil, Bool.or_false, Bool.or_eq_false_iff] at h
  obtain ⟨hclass, hstructure, hmodule, hinterface⟩ := h
  simp [ofWord?, hclass, hstructure, hmodule, hinterface]

end TypeBlock

namespace BodyKind

theorem procedure?_of_isKeyword {kind : BodyKind} (hkind : kind ∈ [sub, function, operator])
    (h : isKeyword word kind.keyword = true) : procedure? word = some kind := by
  simp only [procedure?, isKeyword_congr h]
  revert hkind
  cases kind <;> decide

theorem procedure?_eq_none (h : isOneOf word ["Sub", "Function", "Operator"] = false) :
    procedure? word = none := by
  simp only [isOneOf, List.any_cons, List.any_nil, Bool.or_false, Bool.or_eq_false_iff] at h
  simp [procedure?, keyword, h]

theorem isAlpha_keyword (kind : BodyKind) : kind.keyword.toList.all Char.isAlpha = true := by
  cases kind <;> decide

theorem keyword_ne_nil (kind : BodyKind) : kind.keyword.toList ≠ [] := by
  cases kind <;> decide

end BodyKind

/-! ### Settled states -/

namespace Scanner

variable {s t u : Scanner} {entries others : List String}
  {types : List (List Char × TypeBlock)} {name : List Char} {kind : TypeBlock}

/-- The state once it is clear that the property read last has no body. -/
def settle (s : Scanner) : Scanner :=
  match s.blocks with
  | .propertyHeader :: _ => s.closeBlock
  | _ => s

@[simp]
theorem settle_found (s : Scanner) : s.settle.found = s.found := by
  unfold settle
  split <;> rfl

/-- Whether the open blocks are types alone, once the state is settled. -/
def Within (s : Scanner) (types : List (List Char × TypeBlock)) : Prop :=
  s.settle.blocks = types.map fun type ↦ .type type.1 type.2

/-- What is read between `s` and `t` leaves the blocks as they are and adds entries. -/
structure Adds (s t : Scanner) (entries : List String) : Prop where
  blocks : t.settle.blocks = s.settle.blocks
  found : t.found = s.found ++ entries

theorem Adds.refl (s : Scanner) : s.Adds s [] :=
  ⟨rfl, (List.append_nil _).symm⟩

theorem Adds.append (h : s.Adds t entries) (hrest : t.Adds u others) :
    s.Adds u (entries ++ others) :=
  ⟨hrest.blocks.trans h.blocks, by rw [hrest.found, h.found, List.append_assoc]⟩

theorem Adds.within (h : s.Adds t entries) (hs : s.Within types) : t.Within types :=
  h.blocks.trans hs

theorem settle_eq_self (h : s.blocks = types.map fun type ↦ .type type.1 type.2) :
    s.settle = s := by
  unfold settle
  rw [h]
  cases types <;> rfl

/-- A state whose blocks are those of a settled one, or in which a property is open besides. -/
theorem Within.adds (h : s.Within types)
    (hblocks : t.blocks = s.settle.blocks ∨ t.blocks = .propertyHeader :: s.settle.blocks)
    (hfound : t.found = s.found ++ entries) : s.Adds t entries := by
  refine ⟨?_, hfound⟩
  rcases hblocks with hblocks | hblocks
  · rw [settle_eq_self (hblocks.trans h), hblocks]
  · simp [settle, hblocks, closeBlock]

theorem Within.adds_settle (h : s.Within types) : s.Adds s.settle [] :=
  h.adds (.inl rfl) (by simp)

theorem Within.openTypes_eq (h : s.Within types) : s.settle.openTypes = types := by
  rw [openTypes, h, List.filterMap_map]
  exact List.filterMap_some

def pathOf (types : List (List Char × TypeBlock)) : List String :=
  types.reverse.map fun type ↦ String.ofList type.1

theorem pathOf_cons (name : List Char) (kind : TypeBlock) (types : List (List Char × TypeBlock)) :
    pathOf ((name, kind) :: types) = pathOf types ++ [String.ofList name] := by
  simp [pathOf]

theorem Within.typePath_eq (h : s.Within types) :
    s.settle.typePath = String.intercalate "+" (pathOf types) := by
  rw [typePath, h.openTypes_eq, pathOf]

theorem Within.isInside_eq (h : s.Within ((name, kind) :: types)) (other : TypeBlock) :
    s.settle.isInside other = (kind == other) := by
  simp [isInside, h.openTypes_eq]

theorem Within.typePath_ne (h : s.Within ((name, kind) :: types)) (hname : name ≠ []) :
    s.settle.typePath ≠ "" := by
  rw [h.typePath_eq, pathOf_cons]
  have hname' : String.ofList name ≠ "" := by simpa [← String.toList_inj] using hname
  by_cases hpath : pathOf types = []
  · simpa [hpath] using hname'
  · rw [String.intercalate_append_of_ne_nil hpath (by simp)]
    simp [← String.toList_inj]

/-! ### One line -/

theorem push_filler (s : Scanner) (line : Filler) : s.push line.text = s := by
  simp [push, line.words_codeOf_text]

/-- A line that opens no body of a property settles the state. -/
theorem Within.push_eq (h : s.Within types) {line : List Char}
    (hwords : words (codeOf line) ≠ []) (haccessor : startsAccessor (words (codeOf line)) = false) :
    s.push line = s.settle.pushOutside (codeOf line) (words (codeOf line)) := by
  have hsome : (words (codeOf line)).isEmpty = false := by simpa using hwords
  simp only [push, hsome, Bool.false_eq_true, if_false]
  unfold Within at h
  cases hblocks : s.blocks with
  | nil => simp [settle, hblocks]
  | cons block outer =>
      cases block with
      | type name kind => simp [settle, hblocks]
      | propertyHeader => simp [settle, hblocks, haccessor]
      | body kind =>
          -- A body is no type, and settling leaves it open.
          rw [settle, hblocks] at h
          cases types <;> simp [hblocks] at h

theorem startsAccessor_codeOf_text (line : Line) :
    startsAccessor (words (codeOf line.text)) = isOneOf line.first ["Get", "Set"] := by
  rw [startsAccessor, line.dropWhile_words]
  rfl

theorem words_codeOf_text_ne_nil (line : Line) : words (codeOf line.text) ≠ [] := by
  simp [line.words_codeOf_text]

theorem Within.push_declaration (h : s.Within types) (line : Line)
    (hfirst : isOneOf line.first ["Get", "Set", "End"] = false) :
    s.push line.text = s.settle.pushDeclaration (codeOf line.text) (words (codeOf line.text)) := by
  simp only [isOneOf, List.any_cons, List.any_nil, Bool.or_false, Bool.or_eq_false_iff] at hfirst
  obtain ⟨hget, hset, hend⟩ := hfirst
  have haccessor : startsAccessor (words (codeOf line.text)) = false := by
    rw [startsAccessor_codeOf_text]
    simp [isOneOf, hget, hset]
  have hnotEnd : (words (codeOf line.text)).head?.any (isKeyword · "End") = false := by
    rw [line.words_codeOf_text]
    cases line.modifiers with
    | nil => exact hend
    | cons m rest => exact m.isKeyword_eq_false (by decide)
  rw [h.push_eq (words_codeOf_text_ne_nil line) haccessor, pushOutside, hnotEnd]
  exact if_neg Bool.false_ne_true

theorem pushDeclaration_of_some {line : Line} (hkind : TypeBlock.ofWord? line.first = some kind) :
    s.pushDeclaration (codeOf line.text) (words (codeOf line.text)) =
      s.openBlock (.type (beforeParenthesis (line.others.head?.getD [])) kind) := by
  simp only [pushDeclaration, line.dropWhile_words, hkind]

theorem pushDeclaration_of_none {line : Line} (hnone : TypeBlock.ofWord? line.first = none) :
    s.pushDeclaration (codeOf line.text) (words (codeOf line.text)) =
      if s.typePath = "" ∨ s.isInside .interfaceBlock then s
      else s.pushMember (codeOf line.text) (line.modifiers.map Modifier.text) line.first
        line.others := by
  simp only [pushDeclaration, line.dropWhile_words, line.takeWhile_words, hnone]

/-- A line that starts no block, outside of types or inside an interface. -/
theorem Within.push_header (h : s.Within types) (line : HeaderLine)
    (houtside : s.settle.typePath = "" ∨ s.settle.isInside .interfaceBlock) :
    s.push line.text = s.settle := by
  have hfirst : isOneOf line.first
      ["Class", "Structure", "Module", "Interface", "Get", "Set", "End"] = false :=
    isOneOf_append (by decide) line.isHeader (head?_upToBlank line.apart)
  rw [h.push_declaration line.toLine (isOneOf_of_subset hfirst (by decide)),
    pushDeclaration_of_none (TypeBlock.ofWord?_eq_none (isOneOf_of_subset hfirst (by decide)))]
  exact if_pos houtside

theorem Within.push_type (h : s.Within types) (kind : TypeBlock)
    (head : NamedLine kind.keyword) :
    s.push head.text = s.settle.openBlock (.type head.name.text kind) := by
  have hfirst : head.first = head.word.text := head.toLine.first_of_apart head.tail_apart
  have hnot : isOneOf head.first ["Get", "Set", "End"] = false := by
    rw [hfirst, isOneOf_congr head.isKeyword]
    cases kind <;> decide
  have hkind : TypeBlock.ofWord? head.first = some kind := by
    rw [hfirst]
    exact TypeBlock.ofWord?_of_isKeyword head.isKeyword
  rw [h.push_declaration head.toLine hnot, pushDeclaration_of_some hkind, head.others_eq]
  simp only [List.head?_cons, Option.getD_some, head.beforeParenthesis_name]

theorem Within.push_end (h : s.Within types) (closing : EndLine keyword)
    (hkeyword : keyword.toList.all Char.isAlpha = true) (hne : keyword.toList ≠ []) :
    s.push closing.text =
      s.settle.pushEnd (closing.word.text :: closing.block :: words closing.rest) := by
  have haccessor : startsAccessor (words (codeOf closing.text)) = false := by
    rw [startsAccessor_codeOf_text, closing.toLine.first_of_apart closing.tail_apart,
      isOneOf_congr closing.isEnd]
    decide
  rw [h.push_eq (words_codeOf_text_ne_nil closing.toLine) haccessor,
    closing.words_codeOf_text hkeyword hne, pushOutside]
  exact if_pos closing.isEnd

/-- The end of a namespace closes nothing. -/
theorem Within.push_endNamespace (h : s.Within types) (closing : EndLine "Namespace") :
    s.push closing.text = s.settle := by
  have hnone : TypeBlock.ofWord? closing.block = none := by
    simp only [TypeBlock.ofWord?, isKeyword_congr closing.isBlock]
    decide
  rw [h.push_end closing (by decide) (by decide)]
  simp [pushEnd, hnone]

theorem Within.push_endType (h : s.Within ((name, kind) :: types))
    (closing : EndLine kind.keyword) : s.push closing.text = s.settle.closeBlock := by
  have hsome := TypeBlock.ofWord?_of_isKeyword closing.isBlock
  rw [h.push_end closing (by cases kind <;> decide) (by cases kind <;> decide)]
  rw [Within, List.map_cons] at h
  simp [pushEnd, hsome, h]

/-! ### Bodies -/

theorem push_bodyLine {outer : List Block} {kind : BodyKind} (h : s.blocks = .body kind :: outer)
    (line : BodyLine kind.keyword) : s.push line.text = s := by
  simp only [push, h]
  split
  · rfl
  · simp only [pushInBody]
    split
    · next first second more hwords =>
        split
        · next hend =>
            rw [Bool.and_eq_true] at hend
            exact absurd (beginsWith_of_codeOf hwords hend.1 hend.2) line.inside
        · rfl
    · rfl

theorem push_endBody {outer : List Block} {kind : BodyKind} (h : s.blocks = .body kind :: outer)
    (closing : EndLine kind.keyword) : s.push closing.text = s.closeBlock := by
  have hwords := closing.words_codeOf_text kind.isAlpha_keyword kind.keyword_ne_nil
  simp [push, h, hwords, pushInBody, closing.isEnd, closing.isBlock]

theorem foldl_push_body {outer : List Block} {kind : BodyKind}
    (h : s.blocks = .body kind :: outer) (inside : List (BodyLine kind.keyword))
    (closing : EndLine kind.keyword) :
    (inside.map BodyLine.text ++ [closing.text]).foldl push s = s.closeBlock := by
  induction inside with
  | nil => rw [List.map_nil, List.nil_append, List.foldl_cons, List.foldl_nil, push_endBody h]
  | cons line rest ih => rwa [List.map_cons, List.cons_append, List.foldl_cons, push_bodyLine h]

/-! ### Members -/

@[simp]
theorem recordIf_blocks (s : Scanner) (condition : Bool) :
    (s.recordIf condition).blocks = s.blocks := by
  cases condition <;> rfl

theorem recordIf_found (s : Scanner) (condition : Bool) :
    (s.recordIf condition).found = s.found ++ if condition then [s.typePath] else [] := by
  cases condition <;> simp [recordIf]

theorem Within.recordIf_found (h : s.Within types) (condition : Bool) :
    (s.settle.recordIf condition).found =
      s.found ++ entryIf condition (pathOf types) := by
  rw [Scanner.recordIf_found, h.typePath_eq, settle_found, entryIf]

/-- A line directly inside a type that can have members. -/
theorem Within.push_member (h : s.Within ((name, kind) :: types)) (hname : name ≠ [])
    (hkind : kind ≠ .interfaceBlock) (line : Line)
    (hfirst : isOneOf line.first
      ["Class", "Structure", "Module", "Interface", "Get", "Set", "End"] = false) :
    s.push line.text = s.settle.pushMember (codeOf line.text)
      (line.modifiers.map Modifier.text) line.first line.others := by
  have hinside : ¬ (s.settle.typePath = "" ∨ s.settle.isInside .interfaceBlock = true) := by
    rw [h.isInside_eq]
    simp [h.typePath_ne hname, hkind]
  rw [h.push_declaration line (isOneOf_of_subset hfirst (by decide)),
    pushDeclaration_of_none (TypeBlock.ofWord?_eq_none (isOneOf_of_subset hfirst (by decide)))]
  exact if_neg hinside

theorem any_modifiers (line : Line) (modifier : String) :
    (line.modifiers.map Modifier.text).any (isKeyword · modifier) = line.has modifier :=
  List.any_map

theorem Within.isShared_eq (h : s.Within ((name, kind) :: types)) (line : Line) :
    (line.has "Shared" || s.settle.isInside .moduleBlock) = line.isShared kind := by
  rw [h.isInside_eq]
  rfl

/-- Whatever starts with no reserved word is taken for a field. -/
theorem Within.push_unreserved (h : s.Within ((name, kind) :: types)) (hname : name ≠ [])
    (hkind : kind ≠ .interfaceBlock) (line : Line)
    (hfirst : isOneOf line.first reservedWords = false) :
    s.push line.text = s.settle.recordIf
      (line.isShared kind && !line.has "Const" && hasInitializer false line.tail) := by
  have hprocedure := BodyKind.procedure?_eq_none (isOneOf_of_subset hfirst (by decide))
  have hnotField : isOneOf line.first nonFieldKeywords = false :=
    isOneOf_of_subset hfirst (by decide)
  have hothers : isOneOf line.first ["Property", "Enum", "Custom"] = false :=
    isOneOf_of_subset hfirst (by decide)
  simp only [isOneOf, List.any_cons, List.any_nil, Bool.or_false, Bool.or_eq_false_iff] at hothers
  obtain ⟨hproperty, henum, hcustom⟩ := hothers
  rw [h.push_member hname hkind line (isOneOf_of_subset hfirst (by decide)), pushMember,
    hprocedure]
  simp only [hproperty, henum, hcustom, hnotField, line.hasInitializer_codeOf_text, any_modifiers,
    h.isShared_eq, Bool.false_eq_true, if_false, Bool.not_false, Bool.true_and]

theorem Within.push_field (h : s.Within ((name, kind) :: types)) (hname : name ≠ [])
    (hkind : kind ≠ .interfaceBlock) (f : FieldLine) :
    s.push f.text = s.settle.recordIf (f.initializes kind) := by
  have hfirst : isOneOf f.first reservedWords = false :=
    isOneOf_append (by decide) f.notReserved (head?_upToBlank f.apart)
  have hvalue : hasInitializer false f.tail = f.value.isSome := by
    rw [f.tail_eq, hasInitializer_append f.declared.isCode]
    cases f.value <;> simp [hasInitializer, Value.withEquals]
  rw [h.push_unreserved hname hkind f.toLine hfirst, hvalue]
  rfl

theorem Within.push_property (h : s.Within ((name, kind) :: types)) (hname : name ≠ [])
    (hkind : kind ≠ .interfaceBlock) (head : PropertyLine) :
    s.push head.text =
      if head.value.isSome then s.settle.recordIf (head.isShared kind)
      else if head.has "MustOverride" then s.settle
      else s.settle.openBlock .propertyHeader := by
  have hapart : head.tail.head?.all isBlank = true := by
    rw [head.tail_eq]
    exact head.gap.head?_append _
  have hfirst : head.first = head.word.text := head.toLine.first_of_apart hapart
  have hcongr := isOneOf_congr head.isProperty
  have hvalue : hasInitializer false (codeOf head.text) = head.value.isSome := by
    have hparentheses : isCode (· != '=') false head.parentheses = true := by
      rcases head.parameterless with hnone | hempty
      · rw [hnone]; rfl
      · rw [hempty]; decide
    rw [head.toLine.hasInitializer_codeOf_text, head.tail_eq,
      hasInitializer_append head.gap.isCode_text,
      hasInitializer_append (head.name.isCode_text head.name_noEquals),
      hasInitializer_append hparentheses, hasInitializer_append head.declared.isCode]
    cases head.value <;> simp [hasInitializer, Value.withEquals]
  have hprocedure : BodyKind.procedure? head.first = none := by
    rw [hfirst]
    exact BodyKind.procedure?_eq_none (by rw [hcongr]; decide)
  have hproperty : isKeyword head.first "Property" = true := hfirst ▸ head.isProperty
  rw [h.push_member hname hkind head.toLine (by rw [hfirst, hcongr]; decide), pushMember,
    hprocedure]
  simp only [hproperty, if_true, hvalue, any_modifiers, h.isShared_eq]

theorem Within.push_procedure (h : s.Within ((name, kind) :: types)) (hname : name ≠ [])
    (hkind : kind ≠ .interfaceBlock) (p : ProcedureSyntax) :
    s.push p.head.text =
      if p.head.has "MustOverride" then s.settle.recordIf (p.initializes kind)
      else (s.settle.recordIf (p.initializes kind)).openBlock (.body p.kind) := by
  have hfirst : p.head.first = p.head.word.text :=
    p.head.toLine.first_of_apart p.head.tail_apart
  have hprocedure : BodyKind.procedure? p.head.first = some p.kind := by
    rw [hfirst]
    exact BodyKind.procedure?_of_isKeyword p.isProcedure p.head.isKeyword
  have hnot : isOneOf p.head.first
      ["Class", "Structure", "Module", "Interface", "Get", "Set", "End"] = false := by
    rw [hfirst, isOneOf_congr p.head.isKeyword]
    cases p.kind <;> decide
  rw [h.push_member hname hkind p.head.toLine hnot, pushMember, hprocedure]
  simp only [p.head.others_eq, List.head?_cons, Option.any_some, p.head.beforeParenthesis_name,
    any_modifiers, h.isShared_eq]
  rfl

end Scanner

/-! ### Reading a tree -/

open Scanner

variable {s : Scanner} {name : List Char} {kind : TypeBlock}
  {types : List (List Char × TypeBlock)}

theorem FieldLine.adds_text (f : FieldLine) (h : s.Within ((name, kind) :: types))
    (hname : name ≠ []) (hkind : kind ≠ .interfaceBlock) :
    s.Adds (s.push f.text) (entryIf (f.initializes kind) (pathOf ((name, kind) :: types))) := by
  rw [h.push_field hname hkind]
  exact h.adds (.inl (recordIf_blocks _ _)) (h.recordIf_found _)

theorem ProcedureSyntax.adds_lines (p : ProcedureSyntax) (h : s.Within ((name, kind) :: types))
    (hname : name ≠ []) (hkind : kind ≠ .interfaceBlock) :
    s.Adds (p.lines.foldl push s)
      (entryIf (p.initializes kind) (pathOf ((name, kind) :: types))) := by
  have hbodiless := p.bodiless
  rw [lines, List.foldl_cons, h.push_procedure hname hkind, ← hbodiless]
  cases p.body with
  | none => exact h.adds (.inl (recordIf_blocks _ _)) (h.recordIf_found _)
  | some body =>
      simp only [Option.isNone_some, Bool.false_eq_true, if_false, Option.elim_some]
      rw [foldl_push_body rfl]
      exact h.adds (.inl (recordIf_blocks _ _)) (h.recordIf_found _)

theorem foldl_push_fillers (s : Scanner) (fillers : List Filler) :
    (fillers.map Filler.text).foldl push s = s := by
  induction fillers with
  | nil => rfl
  | cons line rest ih => rwa [List.map_cons, List.foldl_cons, push_filler]

theorem push_accessor {outer : List Block} (h : s.blocks = .propertyHeader :: outer)
    (accessor : AccessorLine) (hapart : accessor.StandsApart) :
    s.push accessor.text = s.closeBlock.openBlock (.body .property) := by
  have haccessor : startsAccessor (words (codeOf accessor.text)) = true := by
    rw [startsAccessor_codeOf_text, accessor.toLine.first_of_apart hapart]
    exact accessor.isAccessor
  have hwords : (words (codeOf accessor.text)).isEmpty = false := by
    simpa using words_codeOf_text_ne_nil accessor.toLine
  simp [push, hwords, h, haccessor]

/-- The word of an accessor is hidden by what is attached to it. -/
theorem AccessorLine.first_unreserved (accessor : AccessorLine) (h : ¬ accessor.StandsApart) :
    isOneOf accessor.first reservedWords = false := by
  have hends := accessor.ends
  have hletters : reservedWords.all (·.toList.all Char.isAlpha) = true := by decide
  have hmem : '(' ∈ accessor.first := by
    rw [AccessorLine.StandsApart] at h
    rw [Line.first]
    cases htail : accessor.tail with
    | nil => simp [htail] at h
    | cons c rest =>
        have hblank : isBlank c = false := by simpa [htail] using h
        have hc : c = '(' := by simpa [htail, hblank] using hends
        simp [upToBlank, hc, (by decide : isBlank '(' = false)]
  rw [isOneOf, List.any_eq_false]
  intro keyword hkeyword
  simp [isKeyword_eq_false (List.all_eq_true.mp hletters keyword hkeyword) hmem (by decide)]

/-- An accessor with something attached to its word opens no body, as it is taken for a field. -/
theorem push_attached (h : s.Within ((name, kind) :: types)) (hname : name ≠ [])
    (hkind : kind ≠ .interfaceBlock) (accessor : AccessorLine)
    (hattached : ¬ accessor.StandsApart) :
    s.push accessor.text = s.settle.recordIf
      (accessor.isShared kind && !accessor.has "Const" && hasInitializer false accessor.tail) :=
  h.push_unreserved hname hkind accessor.toLine (accessor.first_unreserved hattached)

theorem PropertyBody.foldl_push_lines {outer : List Block}
    (h : s.blocks = .propertyHeader :: outer) (body : PropertyBody)
    (hapart : body.accessor.StandsApart) : body.lines.foldl push s = s.closeBlock := by
  rw [lines, List.foldl_append, foldl_push_fillers, List.foldl_cons, push_accessor h _ hapart]
  have hopen : (s.closeBlock.openBlock (.body .property)).blocks =
      .body .property :: s.closeBlock.blocks := rfl
  exact foldl_push_body hopen body.inside body.closing

theorem PropertySyntax.adds_lines (p : PropertySyntax) (h : s.Within ((name, kind) :: types))
    (hname : name ≠ []) (hkind : kind ≠ .interfaceBlock)
    (hapart : ∀ body ∈ p.body, body.accessor.StandsApart) :
    s.Adds (p.lines.foldl push s)
      (entryIf (p.initializes kind) (pathOf ((name, kind) :: types))) := by
  have hbodied := p.bodied
  rw [lines, List.foldl_cons, h.push_property hname hkind, initializes]
  cases hbody : p.body with
  | none =>
      cases hvalue : p.head.value.isSome with
      | true =>
          rw [Bool.and_true]
          exact h.adds (.inl (recordIf_blocks _ _)) (h.recordIf_found _)
      | false =>
          simp only [Bool.and_false, Bool.false_eq_true, if_false]
          split
          · exact h.adds (.inl rfl) (by simp)
          · exact h.adds (.inr rfl) (by simp [openBlock])
  | some body =>
      -- The pending property is what lets the accessor open the body.
      obtain ⟨hvalue, hoverride⟩ := hbodied (by simp [hbody])
      rw [Option.isNone_iff_eq_none] at hvalue
      simp only [hvalue, hoverride, Option.isSome_none, Bool.and_false, Bool.false_eq_true,
        if_false, Option.elim_some]
      rw [body.foldl_push_lines rfl (hapart body hbody)]
      exact h.adds (.inl rfl) (by simp [openBlock, closeBlock])

theorem Member.adds_lines (m : Member) (h : s.Within ((name, kind) :: types))
    (hname : name ≠ []) (hkind : kind ≠ .interfaceBlock)
    (hapart : ∀ accessor ∈ m.accessor?, accessor.StandsApart) :
    s.Adds (m.lines.foldl push s)
      (entryIf (m.initializes kind) (pathOf ((name, kind) :: types))) := by
  cases m with
  | field f =>
      rw [lines, List.foldl_cons, List.foldl_nil]
      exact f.adds_text h hname hkind
  | property p =>
      refine p.adds_lines h hname hkind fun body hbody ↦ hapart body.accessor ?_
      exact Option.mem_map_of_mem _ hbody
  | procedure p => exact p.adds_lines h hname hkind

/-- A type, given what is read inside of it. -/
theorem adds_type (h : s.Within types) (inner : TypeBlock) (head : NamedLine inner.keyword)
    (closing : EndLine inner.keyword) {inside : List (List Char)} {entries : List String}
    (hinside : ∀ u : Scanner, u.Within ((head.name.text, inner) :: types) →
      u.Adds (inside.foldl push u) entries) :
    s.Adds ((head.text :: (inside ++ [closing.text])).foldl push s) entries := by
  have hopen : (s.settle.openBlock (.type head.name.text inner)).Within
      ((head.name.text, inner) :: types) := by
    have hblocks : (s.settle.openBlock (.type head.name.text inner)).blocks =
        ((head.name.text, inner) :: types).map fun type ↦ .type type.1 type.2 :=
      congrArg (List.cons _) h
    rw [Within, settle_eq_self hblocks, hblocks]
  have hadds := hinside _ hopen
  have hwithin := hadds.within hopen
  rw [List.foldl_cons, h.push_type, List.foldl_append, List.foldl_cons, List.foldl_nil,
    hwithin.push_endType closing]
  refine h.adds (.inl ?_) ?_
  · rw [Within] at hwithin
    rw [closeBlock, hwithin, h]
    rfl
  · rw [closeBlock, settle_found, hadds.found]
    simp [openBlock]

namespace Members

theorem adds_lines (members : Members kind) (h : s.Within ((name, kind) :: types))
    (hname : name ≠ []) (hapart : ∀ accessor ∈ members.accessors, accessor.StandsApart) :
    s.Adds (members.lines.foldl push s)
      (members.initializers (pathOf ((name, kind) :: types))) := by
  induction members generalizing s name types with
  | nil => exact .refl s
  | filler line rest ih =>
      rw [lines, List.foldl_cons, push_filler]
      exact ih h hname hapart
  | header inInterface line rest ih =>
      have hinside : s.settle.isInside .interfaceBlock = true := by
        rw [h.isInside_eq, inInterface]
        rfl
      rw [lines, List.foldl_cons, h.push_header line (.inr hinside)]
      exact h.adds_settle.append (ih (h.adds_settle.within h) hname hapart)
  | member outside m rest ih =>
      simp only [accessors, List.mem_append] at hapart
      have hmember := m.adds_lines h hname outside fun accessor haccessor ↦
        hapart accessor (.inl (by simpa using haccessor))
      rw [lines, List.foldl_append]
      exact hmember.append (ih (hmember.within h) hname fun accessor haccessor ↦
        hapart accessor (.inr haccessor))
  | @type outer inner head members closing rest ihMembers ihRest =>
      simp only [accessors, List.mem_append] at hapart
      -- the members are read one type further in, where the path is longer by its name
      have hinside : ∀ u : Scanner,
          u.Within ((head.name.text, inner) :: (name, outer) :: types) →
          u.Adds (members.lines.foldl push u)
            (members.initializers (pathOf ((name, outer) :: types) ++ [head.typeName])) :=
        fun u hu ↦ pathOf_cons head.name.text inner ((name, outer) :: types) ▸
          ihMembers hu head.name.nonempty fun accessor haccessor ↦
            hapart accessor (.inl haccessor)
      have hsplit : (type inner head members closing rest).lines =
          (head.text :: (members.lines ++ [closing.text])) ++ rest.lines := by simp [lines]
      have htype := adds_type h inner head closing hinside
      rw [hsplit, List.foldl_append]
      exact htype.append (ihRest (htype.within h) hname fun accessor haccessor ↦
        hapart accessor (.inr haccessor))

end Members

namespace Source

theorem settle_typePath (h : s.Within []) : s.settle.typePath = "" := by
  rw [h.typePath_eq]
  rfl

theorem push_namespace (h : s.Within []) (head : NamedLine "Namespace") :
    s.push head.text = s.settle := by
  have hfirst : head.first = head.word.text := head.toLine.first_of_apart head.tail_apart
  have hcongr := isOneOf_congr head.isKeyword
  have hnone : TypeBlock.ofWord? head.first = none :=
    TypeBlock.ofWord?_eq_none (by rw [hfirst, hcongr]; decide)
  rw [h.push_declaration head.toLine (by rw [hfirst, hcongr]; decide),
    pushDeclaration_of_none hnone]
  exact if_pos (.inl (settle_typePath h))

theorem adds_lines (source : Source) (h : s.Within [])
    (hapart : ∀ accessor ∈ source.accessors, accessor.StandsApart) :
    s.Adds (source.lines.foldl push s) source.initializers := by
  induction source generalizing s with
  | nil => exact .refl s
  | filler line rest ih =>
      rw [lines, List.foldl_cons, push_filler]
      exact ih h hapart
  | directive line rest ih =>
      rw [lines, List.foldl_cons, h.push_header line (.inl (settle_typePath h))]
      exact h.adds_settle.append (ih (h.adds_settle.within h) hapart)
  | block head inside closing rest ihInside ihRest =>
      simp only [accessors, List.mem_append] at hapart
      have hinside := h.adds_settle.append
        (ihInside (h.adds_settle.within h) fun accessor haccessor ↦
          hapart accessor (.inl haccessor))
      have hwithin := hinside.within h
      -- Namespaces are no blocks of the scan, so their first and last lines only settle it.
      have hblock := hinside.append hwithin.adds_settle
      rw [lines, List.foldl_cons, push_namespace h, List.foldl_append, List.foldl_cons,
        hwithin.push_endNamespace]
      simpa [initializers] using hblock.append (ihRest (hblock.within h) fun accessor haccessor ↦
        hapart accessor (.inr haccessor))
  | type kind head members closing rest ih =>
      simp only [accessors, List.mem_append] at hapart
      have hinside : ∀ u : Scanner, u.Within [(head.name.text, kind)] →
          u.Adds (members.lines.foldl push u) (members.initializers [head.typeName]) :=
        fun u hu ↦ members.adds_lines hu head.name.nonempty fun accessor haccessor ↦
          hapart accessor (.inl haccessor)
      have hsplit : (type kind head members closing rest).lines =
          (head.text :: (members.lines ++ [closing.text])) ++ rest.lines := by simp [lines]
      have htype := adds_type h kind head closing hinside
      rw [hsplit, List.foldl_append]
      exact htype.append (ih (htype.within h) fun accessor haccessor ↦
        hapart accessor (.inr haccessor))

end Source

/-- The scan of a source whose lines are those of a tree finds exactly one entry for each member
of the tree that initializes its type, in order, unless something is attached to the word of an
accessor that opens the body of a property. -/
theorem sharedInitializers_of_lines {text : List Char} {source : Source}
    (h : lines text = source.lines)
    (hapart : ∀ accessor ∈ source.accessors, accessor.StandsApart) :
    sharedInitializers text = source.initializers := by
  have hadds := source.adds_lines (s := {}) rfl hapart
  rw [sharedInitializers, h]
  exact hadds.found

/-! ### A property that can only be written -/

def writeOnlyText (accessor : String) : List Char :=
  "Module M\nWriteOnly Property Size As Integer\n".toList ++ (accessor.toList ++
    "\nfield = value\nEnd Set\nEnd Property\nDim count = 1\nEnd Module\n".toList)

def space : Gap where
  text := [' ']
  blank := List.all_eq_true.mp (by decide)
  nonempty := by decide

def plainName (text : String) (h : text.toList ≠ [] ∧ text.toList.all isNameChar = true) : Name :=
  ⟨text.toList, h.1, List.all_eq_true.mp h.2⟩

def plainLine (modifiers : List Modifier) (word : Name) (tail : List Char)
    (hword : word.text.head? ≠ some '<' ∧ '=' ∉ word.text ∧
      isOneOf word.text ("REM" :: VisualBasic.modifiers) = false)
    (htail : isCode (fun _ ↦ true) false tail = true ∧
      tail.head?.all (fun c ↦ !c.isAlpha) = true) : Line where
  margin := ⟨⟨[], nofun⟩, []⟩
  modifiers := modifiers
  word := word
  tail := tail
  comment := ⟨[], rfl⟩
  noAttribute := hword.1
  noEquals := hword.2.1
  notModifier := hword.2.2
  isCode := htail.1
  apart := htail.2

def moduleHead : NamedLine "Module" where
  toLine := plainLine [] (plainName "Module" (by decide)) " M".toList
    (by decide) (by decide)
  isKeyword := by decide
  gap := space
  name := plainName "M" (by decide)
  rest := []
  tail_eq := by decide
  ends := by decide

def endLine (keyword : String)
    (hcode : isCode (fun _ ↦ true) false (' ' :: keyword.toList) = true)
    (hblock : isKeyword keyword.toList keyword = true) : EndLine keyword where
  toLine := plainLine [] (plainName "End" (by decide)) (' ' :: keyword.toList)
    (by decide) ⟨hcode, rfl⟩
  isEnd := (by decide : isKeyword "End".toList "End" = true)
  unmodified := rfl
  gap := space
  block := keyword.toList
  rest := []
  tail_eq := congrArg (List.cons ' ') (List.append_nil _).symm
  isBlock := hblock
  ends := rfl

def moduleEnd : EndLine "Module" :=
  endLine "Module" (by decide) (by decide)

def propertyHead : PropertyLine where
  toLine := plainLine [⟨"WriteOnly".toList, by decide, space⟩]
    (plainName "Property" (by decide)) " Size As Integer".toList (by decide) (by decide)
  isProperty := by decide
  gap := space
  name := plainName "Size" (by decide)
  name_noEquals := by decide
  parentheses := []
  parameterless := .inl rfl
  declared := ⟨" As Integer".toList, by decide⟩
  noParameters := by decide
  value := none
  tail_eq := by decide

def setter (tail : List Char)
    (htail : isCode (fun _ ↦ true) false tail = true ∧
      tail.head?.all (fun c ↦ !c.isAlpha) = true)
    (hends : tail.head?.all (fun c ↦ isBlank c || c == '(') = true) : AccessorLine where
  toLine := plainLine [] (plainName "Set" (by decide)) tail (by decide) htail
  isAccessor := (by decide : isOneOf "Set".toList ["Get", "Set"] = true)
  ends := hends

def countField : FieldLine where
  toLine := plainLine [⟨"Dim".toList, by decide, space⟩]
    (plainName "count" (by decide)) " = 1".toList (by decide) (by decide)
  notReserved := by decide
  declared := ⟨" ".toList, by decide⟩
  value := some ⟨" 1".toList, by decide⟩
  tail_eq := by decide

theorem not_beginsWith_of_words {line : List Char} (a b : List Char) (more : List (List Char))
    (hhead : line.head?.all (fun c ↦ !isBlank c && c != '<') = true)
    (hwords : words line = a :: b :: more)
    (hne : isKeyword a "End" = false ∨ b.length < 8) :
    ¬ BeginsWith "End" "Property" line := by
  intro h
  obtain ⟨a', b', comment, more', hwords', ha, hb⟩ :=
    h.exists_words (by decide) (by decide) (by decide) (by decide)
  have hblank : line.head?.all (fun c ↦ !isBlank c) = true := by
    cases line <;> simp_all
  have hattribute : line.head? ≠ some '<' := by
    cases line <;> simp_all
  rw [trimStart_eq_self hblank, dropAttributes_eq_self hattribute, hwords, List.cons.injEq,
    List.cons.injEq] at hwords'
  obtain ⟨rfl, rfl, -⟩ := hwords'
  have hlength : b'.length = 8 := length_eq_of_sameWord hb
  rcases hne with hne | hne
  · simp [ha] at hne
  · rw [List.length_append] at hne
    omega

def setterBody : List (BodyLine "Property") :=
  [⟨"field = value".toList,
      not_beginsWith_of_words "field".toList "=".toList ["value".toList]
        (by decide) (by decide) (.inl (by decide))⟩,
    ⟨"End Set".toList,
      not_beginsWith_of_words "End".toList "Set".toList []
        (by decide) (by decide) (.inr (by decide))⟩]

def writeOnlySource (accessor : AccessorLine) : Source :=
  .type .moduleBlock moduleHead
    (.member (by decide)
      (.property {
        head := propertyHead
        body := some ⟨[], accessor, setterBody, endLine "Property" (by decide) (by decide)⟩
        bodied := fun _ ↦ by decide })
      (.member (by decide) (.field countField) .nil))
    (endLine "Module" (by decide) (by decide)) .nil

def separateSetter : AccessorLine :=
  setter " (value As Integer)".toList (by decide) (by decide)

def attachedSetter : AccessorLine :=
  setter "(value As Integer)".toList (by decide) (by decide)

theorem initializers_writeOnlySource (accessor : AccessorLine) :
    (writeOnlySource accessor).initializers = ["M"] := by
  have hproperty : propertyHead.value.isSome = false := by decide
  have hfield : countField.initializes .moduleBlock = true := by decide
  have hname : @NamedLine.typeName TypeBlock.moduleBlock.keyword moduleHead = "M" := by
    decide +kernel
  simpa [writeOnlySource, Source.initializers, Members.initializers, Member.initializes,
    PropertySyntax.initializes, hproperty, hfield, entryIf] using hname

/-- With a blank after the word of the accessor only the field is found. -/
theorem sharedInitializers_separateSetter :
    lines (writeOnlyText "Set (value As Integer)") = (writeOnlySource separateSetter).lines ∧
    (∀ accessor ∈ (writeOnlySource separateSetter).accessors, accessor.StandsApart) ∧
    sharedInitializers (writeOnlyText "Set (value As Integer)") = ["M"] := by
  have hlines : lines (writeOnlyText "Set (value As Integer)") =
      (writeOnlySource separateSetter).lines := by decide +kernel
  have hapart : ∀ accessor ∈ (writeOnlySource separateSetter).accessors,
      accessor.StandsApart := by
    intro accessor haccessor
    have heq : accessor = separateSetter := by
      simpa [writeOnlySource, Source.accessors, Members.accessors, Member.accessor?] using haccessor
    rw [heq, AccessorLine.StandsApart]
    decide
  refine ⟨hlines, hapart, ?_⟩
  rw [sharedInitializers_of_lines hlines hapart, initializers_writeOnlySource]

/-- With its parameter attached the accessor is not recognized, and an assignment inside of it
is taken for another field of the module. -/
theorem sharedInitializers_attachedSetter :
    lines (writeOnlyText "Set(value As Integer)") = (writeOnlySource attachedSetter).lines ∧
    (writeOnlySource attachedSetter).initializers = ["M"] ∧
    sharedInitializers (writeOnlyText "Set(value As Integer)") = ["M", "M"] := by
  refine ⟨?_, initializers_writeOnlySource attachedSetter, ?_⟩
  · decide +kernel
  · decide +kernel

end GuestGate.VisualBasic
