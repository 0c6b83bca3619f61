import GuestGate.Proofs.Text.Respelling
import GuestGate.Proofs.VisualBasic.Reading

/-!
# Sources in another case

The scan of a respelled source goes through the states of the scan of the source, with the names
in them respelled: every piece of a line is cut out in the same way, and what decides the next
state is comparisons with keywords and with characters that are no letters.
-/

namespace GuestGate.VisualBasic

open Text

variable {f : Char → Char}

section Reading

variable (hf : Respells f)

include hf

/-! ### Words -/

theorem isKeyword_map (word : List Char) : isKeyword (word.map f) = isKeyword word :=
  funext fun _ ↦ hf.sameWord_map word _

theorem isOneOf_map (word : List Char) : isOneOf (word.map f) = isOneOf word := by
  funext keywords
  rw [isOneOf, isOneOf, isKeyword_map hf]

theorem beforeParenthesis_map (word : List Char) :
    beforeParenthesis (word.map f) = (beforeParenthesis word).map f := by
  have hopen : (fun c ↦ c != '(') ∘ f = fun c ↦ c != '(' :=
    funext fun _ ↦ congrArg not (hf.beq_eq rfl)
  rw [beforeParenthesis, List.takeWhile_map, hopen, beforeParenthesis]

theorem TypeBlock.ofWord?_map (word : List Char) :
    TypeBlock.ofWord? (word.map f) = TypeBlock.ofWord? word := by
  simp only [TypeBlock.ofWord?, isKeyword_map hf]

theorem BodyKind.procedure?_map (word : List Char) :
    BodyKind.procedure? (word.map f) = BodyKind.procedure? word := by
  simp only [BodyKind.procedure?, isKeyword_map hf]

/-! ### Lines -/

theorem isCommentMark_map (c : Char) : isCommentMark (f c) = isCommentMark c := by
  rw [isCommentMark, hf.beq_eq rfl, hf.beq_eq rfl, hf.beq_eq rfl, isCommentMark]

theorem stripComment_map (inString : Bool) (line : List Char) :
    stripComment inString (line.map f) = (stripComment inString line).map f := by
  induction line generalizing inString with
  | nil => rfl
  | cons c rest ih =>
      simp only [List.map_cons, stripComment, hf.eq_iff (d := '"') rfl, isCommentMark_map hf, ih]
      split
      · rfl
      split <;> rfl

theorem hasInitializer_map (inString : Bool) (code : List Char) :
    hasInitializer inString (code.map f) = hasInitializer inString code := by
  induction code generalizing inString with
  | nil => rfl
  | cons c rest ih =>
      simp only [List.map_cons, hasInitializer, hf.eq_iff (d := '"') rfl,
        hf.beq_eq (d := '=') rfl, ih]

theorem isRemark_map (code : List Char) : isRemark (code.map f) = isRemark code := by
  have hafter : ((code.map f).drop 3).head?.all isBlank = (code.drop 3).head?.all isBlank := by
    rw [← List.map_drop]
    cases code.drop 3 with
    | nil => rfl
    | cons c rest => exact hf.isBlank c
  rw [isRemark, isRemark, ← List.map_take, isKeyword_map hf, hafter]

theorem dropAttributes_map (code : List Char) :
    dropAttributes (code.map f) = (dropAttributes code).map f := by
  have hopen : f '<' = '<' := hf.eq_self rfl
  -- one attribute list is taken off at a time, and what is cut off ends at a character
  -- that no respelling changes
  induction code using dropAttributes.induct with
  | case1 inside hcut =>
      have hcut' : cut ['>'] (inside.map f) = none := by rw [hf.cut_map rfl, hcut]; rfl
      rw [List.map_cons, hopen, dropAttributes_of_cut_eq_none hcut,
        dropAttributes_of_cut_eq_none hcut', List.map_nil]
  | case2 inside before rest hcut ih =>
      have hcut' : cut ['>'] (inside.map f) = some (before.map f, rest.map f) := by
        rw [hf.cut_map rfl, hcut]; rfl
      rw [List.map_cons, hopen, dropAttributes_of_cut hcut, dropAttributes_of_cut hcut',
        hf.trimStart_map, ih]
  | case3 code hcode =>
      have hhead : code.head? ≠ some '<' := by
        intro hhead
        obtain ⟨inside, hinside⟩ := List.head?_eq_some_iff.mp hhead
        exact hcode inside hinside
      have hhead' : (code.map f).head? ≠ some '<' := by
        simpa [hf.eq_iff (d := '<') rfl] using hhead
      rw [dropAttributes_eq_self hhead, dropAttributes_eq_self hhead']

theorem codeOf_map (line : List Char) : codeOf (line.map f) = (codeOf line).map f := by
  simp only [codeOf, stripComment_map hf, hf.trim_map, isRemark_map hf, dropAttributes_map hf]
  split <;> rfl

end Reading

/-! ### States -/

def Block.respell (f : Char → Char) : Block → Block
  | type name kind => type (name.map f) kind
  | body kind => body kind
  | propertyHeader => propertyHeader

namespace Scanner

/-- The state with the names of the open types and of those found respelled. -/
def respell (f : Char → Char) (s : Scanner) : Scanner where
  blocks := s.blocks.map (Block.respell f)
  found := s.found.map (String.map f)

@[simp]
theorem respell_blocks (f : Char → Char) (s : Scanner) :
    (s.respell f).blocks = s.blocks.map (Block.respell f) := rfl

theorem openTypes_respell (s : Scanner) :
    (s.respell f).openTypes = s.openTypes.map (Prod.map (List.map f) id) := by
  have htype : Block.type? ∘ Block.respell f =
      fun block ↦ (Block.type? block).map (Prod.map (List.map f) id) := by
    funext block
    cases block <;> rfl
  rw [openTypes, respell, List.filterMap_map, htype, openTypes, List.map_filterMap]

theorem isInside_respell (s : Scanner) (kind : TypeBlock) :
    (s.respell f).isInside kind = s.isInside kind := by
  rw [isInside, openTypes_respell, List.head?_map, Option.any_map]
  rfl

theorem typePath_respell (hf : Respells f) (s : Scanner) :
    (s.respell f).typePath = s.typePath.map f := by
  have hplus : String.map f "+" = "+" := by
    rw [← String.toList_inj, String.toList_map]
    exact congrArg (fun c ↦ [c]) (hf.eq_self rfl)
  have hname (type : List Char × TypeBlock) :
      String.ofList (type.1.map f) = (String.ofList type.1).map f := by
    simp [← String.toList_inj]
  rw [typePath, typePath, map_intercalate, hplus, openTypes_respell, ← List.map_reverse,
    List.map_map, List.map_map]
  exact congrArg _ (List.map_congr_left fun type _ ↦ hname type)

theorem openBlock_respell (s : Scanner) (block : Block) :
    (s.respell f).openBlock (block.respell f) = (s.openBlock block).respell f := rfl

theorem closeBlock_respell (s : Scanner) :
    (s.respell f).closeBlock = s.closeBlock.respell f := by
  simp [closeBlock, respell]

theorem recordIf_respell (hf : Respells f) (s : Scanner) (condition : Bool) :
    (s.respell f).recordIf condition = (s.recordIf condition).respell f := by
  cases condition with
  | false => rfl
  | true =>
      simp only [recordIf, if_true, typePath_respell hf]
      simp [respell]

/-! ### Lines -/

section Push

variable (hf : Respells f)

include hf

theorem pushInBody_respell (s : Scanner) (kind : BodyKind) (words : List (List Char)) :
    (s.respell f).pushInBody kind (words.map (List.map f)) =
      (s.pushInBody kind words).respell f := by
  match words with
  | [] | [_] => rfl
  | first :: second :: _ =>
      simp only [pushInBody, List.map_cons, isKeyword_map hf, closeBlock_respell]
      split <;> rfl

theorem pushEnd_respell (s : Scanner) (words : List (List Char)) :
    (s.respell f).pushEnd (words.map (List.map f)) = (s.pushEnd words).respell f := by
  have hcloses : (words.map (List.map f))[1]?.any (fun word ↦ (TypeBlock.ofWord? word).isSome) =
      words[1]?.any (fun word ↦ (TypeBlock.ofWord? word).isSome) := by
    simp only [List.getElem?_map, Option.any_map, TypeBlock.ofWord?_map hf]
  obtain ⟨blocks, found⟩ := s
  simp only [pushEnd, hcloses]
  cases words[1]?.any (fun word ↦ (TypeBlock.ofWord? word).isSome) with
  | false => rfl
  | true =>
      cases blocks with
      | nil => rfl
      | cons block rest => cases block <;> rfl

theorem pushMember_respell (s : Scanner) (code : List Char) (modifiers : List (List Char))
    (keyword : List Char) (rest : List (List Char)) :
    (s.respell f).pushMember (code.map f) (modifiers.map (List.map f)) (keyword.map f)
        (rest.map (List.map f)) =
      (s.pushMember code modifiers keyword rest).respell f := by
  have hhas (modifier : String) :
      (modifiers.map (List.map f)).any (fun word ↦ isKeyword word modifier) =
        modifiers.any fun word ↦ isKeyword word modifier := by
    simp only [List.any_map, Function.comp_def, isKeyword_map hf]
  have hnew : (rest.map (List.map f)).head?.any
        (fun word ↦ isKeyword (beforeParenthesis word) "New") =
      rest.head?.any fun word ↦ isKeyword (beforeParenthesis word) "New" := by
    simp only [List.head?_map, Option.any_map, beforeParenthesis_map hf, isKeyword_map hf]
  simp only [pushMember, hhas, hnew, isInside_respell, BodyKind.procedure?_map hf,
    isKeyword_map hf, isOneOf_map hf, hasInitializer_map hf, recordIf_respell hf]
  cases BodyKind.procedure? keyword with
  | some kind =>
      simp only [apply_ite (respell f)]
      rfl
  | none =>
      simp only [apply_ite (respell f)]
      rfl

theorem pushDeclaration_respell (s : Scanner) (code : List Char) (words : List (List Char)) :
    (s.respell f).pushDeclaration (code.map f) (words.map (List.map f)) =
      (s.pushDeclaration code words).respell f := by
  have hmodifier : (fun word ↦ isOneOf word modifiers) ∘ List.map f =
      fun word ↦ isOneOf word modifiers := by
    funext word
    rw [Function.comp_apply, isOneOf_map hf]
  rw [pushDeclaration, pushDeclaration, List.dropWhile_map, List.takeWhile_map, hmodifier]
  cases words.dropWhile fun word ↦ isOneOf word modifiers with
  | nil => rfl
  | cons keyword rest =>
      simp only [List.map_cons, TypeBlock.ofWord?_map hf, typePath_respell hf, isInside_respell,
        String.map_eq_empty, pushMember_respell hf]
      cases TypeBlock.ofWord? keyword with
      | some kind =>
          have hname : (rest.map (List.map f)).head?.getD [] = (rest.head?.getD []).map f := by
            cases rest <;> rfl
          simp only [hname, beforeParenthesis_map hf]
          exact openBlock_respell s (.type _ kind)
      | none =>
          dsimp only
          split <;> rfl

theorem startsAccessor_map (words : List (List Char)) :
    startsAccessor (words.map (List.map f)) = startsAccessor words := by
  simp only [startsAccessor, List.dropWhile_map, Function.comp_def, List.head?_map,
    Option.any_map, isOneOf_map hf]

theorem pushOutside_respell (s : Scanner) (code : List Char) (words : List (List Char)) :
    (s.respell f).pushOutside (code.map f) (words.map (List.map f)) =
      (s.pushOutside code words).respell f := by
  have hend : (words.map (List.map f)).head?.any (isKeyword · "End") =
      words.head?.any (isKeyword · "End") := by
    simp only [List.head?_map, Option.any_map, isKeyword_map hf]
  rw [pushOutside, pushOutside, hend, pushEnd_respell hf, pushDeclaration_respell hf]
  split <;> rfl

theorem push_respell (s : Scanner) (line : List Char) :
    (s.respell f).push (line.map f) = (s.push line).respell f := by
  have hempty (words : List (List Char)) : (words.map (List.map f)).isEmpty = words.isEmpty :=
    List.isEmpty_map
  simp only [push, codeOf_map hf, hf.words_map, hempty]
  split
  · rfl
  -- the innermost block decides how the line is read, and it is of the same kind
  rw [respell_blocks]
  cases s.blocks with
  | nil => exact pushOutside_respell hf s _ _
  | cons block rest =>
      cases block with
      | type name kind => exact pushOutside_respell hf s _ _
      | body kind => exact pushInBody_respell hf s kind _
      | propertyHeader =>
          simp only [List.map_cons, Block.respell, startsAccessor_map hf, closeBlock_respell]
          split
          · exact openBlock_respell s.closeBlock (.body .property)
          · exact pushOutside_respell hf s.closeBlock _ _

theorem foldl_push_respell (s : Scanner) (lines : List (List Char)) :
    (lines.map (List.map f)).foldl push (s.respell f) = (lines.foldl push s).respell f := by
  induction lines generalizing s with
  | nil => rfl
  | cons line rest ih =>
      rw [List.map_cons, List.foldl_cons, List.foldl_cons, push_respell hf, ih]

end Push

end Scanner

theorem sharedInitializers_map (hf : Respells f) (text : List Char) :
    sharedInitializers (text.map f) = (sharedInitializers text).map (String.map f) := by
  have hscan := Scanner.foldl_push_respell hf {} (lines text)
  rw [sharedInitializers, hf.lines_map]
  exact congrArg Scanner.found hscan

/-- Keywords are told apart without regard to case, so that a source in capitals has the same
shared initializers, and the names of the types are capitals as well. -/
theorem sharedInitializers_toUpper (text : List Char) :
    sharedInitializers (text.map Char.toUpper) =
      (sharedInitializers text).map String.toUpper :=
  sharedInitializers_map respells_toUpper text

end GuestGate.VisualBasic
