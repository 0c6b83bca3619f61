import GuestGate.Text.Split

/-!
# Shared initializers in Visual Basic sources

A scan line by line, over the blocks that are open.  Keywords are compared
without regard to case, and lines of bodies are passed over.
-/

namespace GuestGate.VisualBasic

open Text

def isKeyword (word : List Char) (keyword : String) : Bool :=
  sameWord word keyword.toList

def isOneOf (word : List Char) (keywords : List String) : Bool :=
  keywords.any (isKeyword word)

def modifiers : List String :=
  ["Public", "Private", "Protected", "Friend", "Shared", "Shadows", "Overloads", "Overrides",
   "Overridable", "NotOverridable", "MustOverride", "ReadOnly", "WriteOnly", "Dim", "Const",
   "Static", "Partial", "Async", "Iterator", "Default", "WithEvents", "Widening", "Narrowing",
   "MustInherit", "NotInheritable"]

def nonFieldKeywords : List String :=
  ["Declare", "Delegate", "Event", "Inherits", "Implements", "Imports", "Option", "Namespace"]

def isCommentMark (c : Char) : Bool :=
  c == '\'' || c == '\u2018' || c == '\u2019'

/-- A line up to its comment.  The flag says whether the line so far ends
inside a string. -/
def stripComment : Bool → List Char → List Char
  | _, [] => []
  | inString, c :: rest =>
      if c = '"' then c :: stripComment (!inString) rest
      else if !inString && isCommentMark c then []
      else c :: stripComment inString rest

def isRemark (code : List Char) : Bool :=
  isKeyword (code.take 3) "REM" && (code.drop 3).head?.all isBlank

/-- Take attribute lists off the front of the code.  One that does not end on
the line takes all of it. -/
def dropAttributes (code : List Char) : List Char :=
  match code with
  | '<' :: inside =>
      match _h : cut ['>'] inside with
      | none => []
      | some (_, rest) => dropAttributes (trimStart rest)
  | _ => code
termination_by code.length
decreasing_by
  have h1 := congrArg List.length (append_of_cut _h)
  have h2 := length_trimStart_le rest
  simp only [List.length_append, List.length_cons] at h1 ⊢
  omega

def codeOf (line : List Char) : List Char :=
  let code := trim (stripComment false line)
  if isRemark code then [] else dropAttributes code

/-- Whether an equals sign stands outside strings.  The flag says whether the
code so far ends inside one. -/
def hasInitializer : Bool → List Char → Bool
  | _, [] => false
  | inString, c :: rest =>
      if c = '"' then hasInitializer (!inString) rest
      else (c == '=' && !inString) || hasInitializer inString rest

def beforeParenthesis (word : List Char) : List Char :=
  word.takeWhile fun c ↦ c != '('

inductive TypeBlock
  | classBlock
  | structureBlock
  | moduleBlock
  | interfaceBlock
deriving DecidableEq, Repr

def TypeBlock.ofWord? (word : List Char) : Option TypeBlock :=
  if isKeyword word "Class" then some .classBlock
  else if isKeyword word "Structure" then some .structureBlock
  else if isKeyword word "Module" then some .moduleBlock
  else if isKeyword word "Interface" then some .interfaceBlock
  else none

/-- The blocks with a body that is passed over. -/
inductive BodyKind
  | sub
  | function
  | operator
  | property
  | enumeration
  | event
deriving DecidableEq, Repr

def BodyKind.keyword : BodyKind → String
  | sub => "Sub"
  | function => "Function"
  | operator => "Operator"
  | property => "Property"
  | enumeration => "Enum"
  | event => "Event"

def BodyKind.procedure? (word : List Char) : Option BodyKind :=
  [sub, function, operator].find? fun kind ↦ isKeyword word kind.keyword

inductive Block
  | type (name : List Char) (kind : TypeBlock)
  | body (kind : BodyKind)
  /-- After the header of a property, which may or may not have a body. -/
  | propertyHeader
deriving DecidableEq, Repr

def Block.type? : Block → Option (List Char × TypeBlock)
  | type name kind => some (name, kind)
  | _ => none

structure Scanner where
  /-- Open blocks, innermost first. -/
  blocks : List Block := []
  /-- The paths of the types with shared initializers found. -/
  found : List String := []
deriving DecidableEq, Repr

namespace Scanner

def openTypes (s : Scanner) : List (List Char × TypeBlock) :=
  s.blocks.filterMap Block.type?

def typePath (s : Scanner) : String :=
  String.intercalate "+" (s.openTypes.reverse.map fun type ↦ String.ofList type.1)

def isInside (s : Scanner) (kind : TypeBlock) : Bool :=
  s.openTypes.head?.any fun type ↦ type.2 == kind

def openBlock (s : Scanner) (block : Block) : Scanner :=
  { s with blocks := block :: s.blocks }

def closeBlock (s : Scanner) : Scanner :=
  { s with blocks := s.blocks.tail }

def recordIf (s : Scanner) (condition : Bool) : Scanner :=
  if condition then { s with found := s.found ++ [s.typePath] } else s

/-- A line inside a body: only its matching `End` counts. -/
def pushInBody (s : Scanner) (kind : BodyKind) (words : List (List Char)) : Scanner :=
  match words with
  | first :: second :: _ =>
      if isKeyword first "End" && isKeyword second kind.keyword then s.closeBlock else s
  | _ => s

/-- A line that starts with `End`: it closes a type block. -/
def pushEnd (s : Scanner) (words : List (List Char)) : Scanner :=
  let closesType := words[1]?.any fun word ↦ (TypeBlock.ofWord? word).isSome
  match closesType, s.blocks with
  | true, .type _ _ :: _ => s.closeBlock
  | _, _ => s

/-- A member of a type, after its modifiers. -/
def pushMember (s : Scanner) (code : List Char) (modifiers : List (List Char))
    (keyword : List Char) (rest : List (List Char)) : Scanner :=
  let has := fun modifier ↦ modifiers.any fun word ↦ isKeyword word modifier
  let shared := has "Shared" || s.isInside .moduleBlock
  let bodiless := has "MustOverride"
  match BodyKind.procedure? keyword with
  | some kind =>
      let isNew := rest.head?.any fun word ↦ isKeyword (beforeParenthesis word) "New"
      let s := s.recordIf (kind == .sub && isNew && shared)
      if bodiless then s else s.openBlock (.body kind)
  | none =>
      if isKeyword keyword "Property" then
        if hasInitializer false code then s.recordIf shared
        else if bodiless then s
        else s.openBlock .propertyHeader
      else if isKeyword keyword "Enum" then s.openBlock (.body .enumeration)
      else if isKeyword keyword "Custom" then s.openBlock (.body .event)
      else
        s.recordIf
          (!isOneOf keyword nonFieldKeywords && shared && !has "Const" && hasInitializer false code)

/-- A declaration: a type, or a member of the innermost type unless that is an
interface. -/
def pushDeclaration (s : Scanner) (code : List Char) (words : List (List Char)) : Scanner :=
  let isModifier := fun word ↦ isOneOf word modifiers
  match words.dropWhile isModifier with
  | [] => s
  | keyword :: rest =>
      match TypeBlock.ofWord? keyword with
      | some kind => s.openBlock (.type (beforeParenthesis (rest.head?.getD [])) kind)
      | none =>
          if s.typePath = "" ∨ s.isInside .interfaceBlock then s
          else s.pushMember code (words.takeWhile isModifier) keyword rest

def startsAccessor (words : List (List Char)) : Bool :=
  (words.dropWhile fun word ↦ isOneOf word modifiers).head?.any fun word ↦
    isOneOf word ["Get", "Set"]

def pushOutside (s : Scanner) (code : List Char) (words : List (List Char)) : Scanner :=
  if words.head?.any (isKeyword · "End") then s.pushEnd words
  else s.pushDeclaration code words

def push (s : Scanner) (line : List Char) : Scanner :=
  let code := codeOf line
  let words := words code
  if words.isEmpty then s
  else
    match s.blocks with
    | .body kind :: _ => s.pushInBody kind words
    | .propertyHeader :: _ =>
        let s := s.closeBlock
        if startsAccessor words then s.openBlock (.body .property)
        else s.pushOutside code words
    | _ => s.pushOutside code words

end Scanner

/-- The types of a source with a shared field initializer or a shared
constructor, one entry for each of those.  Members of a module are shared. -/
def sharedInitializers (text : List Char) : List String :=
  ((lines text).foldl Scanner.push {}).found

end GuestGate.VisualBasic
