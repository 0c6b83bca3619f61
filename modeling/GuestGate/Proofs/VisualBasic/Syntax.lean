import GuestGate.VisualBasic.Initializer

/-!
# Trees of lines

Namespaces, types and members as they are nested in a source with one declaration on each
line.  A line is kept as the pieces of its text, and what these may contain is part of it, so
every tree is well-formed.  A tree knows which of its types are initialized, and where; it
says nothing of how that is found.
-/

namespace GuestGate.VisualBasic

open Text

/-! ### Pieces of lines -/

/-- Whether all strings in a text are closed and what is outside of them is allowed and starts
no comment.  The flag says whether the text begins inside a string. -/
def isCode (allowed : Char → Bool) : Bool → List Char → Bool
  | inString, [] => !inString
  | inString, c :: rest =>
      if c = '"' then isCode allowed (!inString) rest
      else (inString || (allowed c && !isCommentMark c)) && isCode allowed inString rest

def isNameChar (c : Char) : Bool :=
  !isBlank c && c != '"' && c != '(' && !isCommentMark c

structure Blanks where
  text : List Char
  blank : ∀ c ∈ text, isBlank c = true

structure Gap extends Blanks where
  nonempty : text ≠ []

structure Name where
  text : List Char
  nonempty : text ≠ []
  isName : ∀ c ∈ text, isNameChar c = true

structure Comment where
  text : List Char
  marked : text.head?.all isCommentMark = true

/-- What stands outside of strings in front of an equals sign. -/
structure Declared where
  text : List Char
  isCode : VisualBasic.isCode (· != '=') false text = true

structure Value where
  text : List Char
  isCode : VisualBasic.isCode (fun _ ↦ true) false text = true

def Value.withEquals (value : Value) : List Char :=
  '=' :: value.text

structure Attribute where
  inside : List Char
  isCode : VisualBasic.isCode (fun _ ↦ true) false inside = true
  unclosed : '>' ∉ inside
  gap : Blanks

def Attribute.text (a : Attribute) : List Char :=
  '<' :: (a.inside ++ '>' :: a.gap.text)

structure Modifier where
  text : List Char
  isModifier : isOneOf text modifiers = true
  gap : Gap

structure Margin where
  indent : Blanks
  attributes : List Attribute

def Margin.text (margin : Margin) : List Char :=
  margin.indent.text ++ margin.attributes.flatMap Attribute.text

/-! ### Lines -/

inductive Filler
  | blank (margin : Margin) (comment : Comment)
  | remark (indent : Blanks) (word : List Char) (isRemark : isKeyword word "REM" = true)
      (rest : List Char) (apart : rest.head?.all isBlank = true)

def Filler.text : Filler → List Char
  | blank margin comment => margin.text ++ comment.text
  | remark indent word _ rest _ => indent.text ++ (word ++ rest)

/-- A line with code: its modifiers, the word after them, and what follows that word. -/
structure Line where
  margin : Margin
  modifiers : List Modifier
  word : Name
  tail : List Char
  comment : Comment
  noAttribute : word.text.head? ≠ some '<'
  noEquals : '=' ∉ word.text
  notModifier : isOneOf word.text ("REM" :: VisualBasic.modifiers) = false
  isCode : VisualBasic.isCode (fun _ ↦ true) false tail = true
  apart : tail.head?.all (fun c ↦ !c.isAlpha) = true

namespace Line

variable (line : Line)

def code : List Char :=
  line.modifiers.flatMap (fun m ↦ m.text ++ m.gap.text) ++ (line.word.text ++ line.tail)

def text : List Char :=
  line.margin.text ++ (line.code ++ line.comment.text)

def has (modifier : String) : Bool :=
  line.modifiers.any fun m ↦ isKeyword m.text modifier

def isShared (kind : TypeBlock) : Bool :=
  line.has "Shared" || kind == .moduleBlock

end Line

/-- A line with a keyword and the name of what is declared.  What follows the name may belong
to a list of parameters. -/
structure NamedLine (keyword : String) extends Line where
  isKeyword : VisualBasic.isKeyword word.text keyword = true
  gap : Gap
  name : Name
  rest : List Char
  tail_eq : tail = gap.text ++ (name.text ++ rest)
  ends : rest.head?.all (fun c ↦ isBlank c || c == '(') = true

structure EndLine (keyword : String) extends Line where
  isEnd : isKeyword word.text "End" = true
  unmodified : modifiers = []
  gap : Gap
  block : List Char
  rest : List Char
  tail_eq : tail = gap.text ++ (block ++ rest)
  isBlock : isKeyword block keyword = true
  ends : rest.head?.all isBlank = true

def reservedWords : List String :=
  ["Class", "Structure", "Module", "Interface", "Sub", "Function", "Operator", "Property",
   "Enum", "Custom", "Get", "Set", "End"] ++ nonFieldKeywords

structure FieldLine extends Line where
  notReserved : isOneOf word.text reservedWords = false
  declared : Declared
  value : Option Value
  tail_eq : tail = declared.text ++ value.elim [] Value.withEquals

structure PropertyLine extends Line where
  isProperty : isKeyword word.text "Property" = true
  gap : Gap
  name : Name
  name_noEquals : '=' ∉ name.text
  parentheses : List Char
  parameterless : parentheses = [] ∨ parentheses = ['(', ')']
  declared : Declared
  noParameters : (trimStart declared.text).head? ≠ some '('
  value : Option Value
  tail_eq : tail =
    gap.text ++ (name.text ++ (parentheses ++ (declared.text ++ value.elim [] Value.withEquals)))

/-- A line outside of types, or directly inside an interface. -/
structure HeaderLine extends Line where
  isHeader : isOneOf word.text
    ["Class", "Structure", "Module", "Interface", "Get", "Set", "End"] = false

structure AccessorLine extends Line where
  isAccessor : isOneOf word.text ["Get", "Set"] = true
  ends : tail.head?.all (fun c ↦ isBlank c || c == '(') = true

/-- Whether nothing is attached to the word of the accessor. -/
def AccessorLine.StandsApart (accessor : AccessorLine) : Prop :=
  accessor.tail.head?.all isBlank = true

/-- A line that begins with two keywords, after its indentation and its attribute lists. -/
inductive BeginsWith (first second : String) : List Char → Prop
  | keywords {a gap b rest : List Char} (isFirst : isKeyword a first = true)
      (isGap : gap ≠ [] ∧ ∀ c ∈ gap, isBlank c = true) (isSecond : isKeyword b second = true)
      (ends : rest.head?.all (fun c ↦ isBlank c || isCommentMark c) = true) :
      BeginsWith first second (a ++ (gap ++ (b ++ rest)))
  | blank {c : Char} {rest : List Char} (isBlank : isBlank c = true)
      (begins : BeginsWith first second rest) : BeginsWith first second (c :: rest)
  | attributes {inside rest : List Char} (unclosed : '>' ∉ inside)
      (begins : BeginsWith first second rest) :
      BeginsWith first second ('<' :: (inside ++ '>' :: rest))

/-- A line of a body, which can be anything but the one that closes the body. -/
structure BodyLine (keyword : String) where
  text : List Char
  inside : ¬ BeginsWith "End" keyword text

/-! ### Members -/

/-- A sub, a function or an operator.  It has a body unless it must be overridden. -/
structure ProcedureSyntax where
  kind : BodyKind
  isProcedure : kind ∈ [.sub, .function, .operator]
  head : NamedLine kind.keyword
  body : Option (List (BodyLine kind.keyword) × EndLine kind.keyword)
  bodiless : body.isNone = head.has "MustOverride"

namespace ProcedureSyntax

variable (p : ProcedureSyntax)

def lines : List (List Char) :=
  p.head.text :: p.body.elim [] fun body ↦ body.1.map BodyLine.text ++ [body.2.text]

def initializes (kind : TypeBlock) : Bool :=
  p.kind == .sub && isKeyword p.head.name.text "New" && p.head.isShared kind

end ProcedureSyntax

structure PropertyBody where
  fillers : List Filler
  accessor : AccessorLine
  inside : List (BodyLine "Property")
  closing : EndLine "Property"

def PropertyBody.lines (body : PropertyBody) : List (List Char) :=
  body.fillers.map Filler.text ++
    body.accessor.text :: (body.inside.map BodyLine.text ++ [body.closing.text])

structure PropertySyntax where
  head : PropertyLine
  body : Option PropertyBody
  bodied : body.isSome → head.value.isNone ∧ head.has "MustOverride" = false

namespace PropertySyntax

variable (p : PropertySyntax)

def lines : List (List Char) :=
  p.head.text :: p.body.elim [] PropertyBody.lines

def initializes (kind : TypeBlock) : Bool :=
  p.head.isShared kind && p.head.value.isSome

end PropertySyntax

def FieldLine.initializes (f : FieldLine) (kind : TypeBlock) : Bool :=
  f.isShared kind && !f.has "Const" && f.value.isSome

inductive Member
  | field (f : FieldLine)
  | property (p : PropertySyntax)
  | procedure (p : ProcedureSyntax)

namespace Member

def lines : Member → List (List Char)
  | field f => [f.text]
  | property p => p.lines
  | procedure p => p.lines

def initializes (kind : TypeBlock) : Member → Bool
  | field f => f.initializes kind
  | property p => p.initializes kind
  | procedure p => p.initializes kind

def accessor? : Member → Option AccessorLine
  | property p => p.body.map PropertyBody.accessor
  | _ => none

end Member

/-! ### Trees -/

def TypeBlock.keyword : TypeBlock → String
  | classBlock => "Class"
  | structureBlock => "Structure"
  | moduleBlock => "Module"
  | interfaceBlock => "Interface"

def NamedLine.typeName {keyword : String} (head : NamedLine keyword) : String :=
  String.ofList head.name.text

/-- An entry for the innermost of some types, named from outside in, if a condition holds. -/
def entryIf (condition : Bool) (types : List String) : List String :=
  if condition then [String.intercalate "+" types] else []

@[simp]
theorem entryIf_false (types : List String) : entryIf false types = [] := rfl

/-- What is between the first and the last line of a type, one thing after another. -/
inductive Members : TypeBlock → Type
  | nil {kind : TypeBlock} : Members kind
  | filler {kind : TypeBlock} (line : Filler) (rest : Members kind) : Members kind
  | header {kind : TypeBlock} (inInterface : kind = .interfaceBlock) (line : HeaderLine)
      (rest : Members kind) : Members kind
  | member {kind : TypeBlock} (outside : kind ≠ .interfaceBlock) (m : Member)
      (rest : Members kind) : Members kind
  | type {kind : TypeBlock} (inner : TypeBlock) (head : NamedLine inner.keyword)
      (members : Members inner) (closing : EndLine inner.keyword) (rest : Members kind) :
      Members kind

namespace Members

def lines {kind : TypeBlock} : Members kind → List (List Char)
  | nil => []
  | filler line rest => line.text :: rest.lines
  | header _ line rest => line.text :: rest.lines
  | member _ m rest => m.lines ++ rest.lines
  | type _ head members closing rest =>
      head.text :: (members.lines ++ closing.text :: rest.lines)

def initializers {kind : TypeBlock} (types : List String) : Members kind → List String
  | nil => []
  | filler _ rest | header _ _ rest => rest.initializers types
  | member _ m rest => entryIf (m.initializes kind) types ++ rest.initializers types
  | type _ head members _ rest =>
      members.initializers (types ++ [head.typeName]) ++ rest.initializers types

def accessors {kind : TypeBlock} : Members kind → List AccessorLine
  | nil => []
  | filler _ rest | header _ _ rest => rest.accessors
  | member _ m rest => m.accessor?.toList ++ rest.accessors
  | type _ _ members _ rest => members.accessors ++ rest.accessors

end Members

inductive Source
  | nil
  | filler (line : Filler) (rest : Source)
  /-- Something on one line that concerns all of the source, such as an import. -/
  | directive (line : HeaderLine) (rest : Source)
  | block (head : NamedLine "Namespace") (inside : Source) (closing : EndLine "Namespace")
      (rest : Source)
  | type (kind : TypeBlock) (head : NamedLine kind.keyword) (members : Members kind)
      (closing : EndLine kind.keyword) (rest : Source)

namespace Source

def lines : Source → List (List Char)
  | nil => []
  | filler line rest => line.text :: rest.lines
  | directive line rest => line.text :: rest.lines
  | block head inside closing rest =>
      head.text :: (inside.lines ++ closing.text :: rest.lines)
  | type _ head members closing rest =>
      head.text :: (members.lines ++ closing.text :: rest.lines)

def initializers : Source → List String
  | nil => []
  | filler _ rest | directive _ rest => rest.initializers
  | block _ inside _ rest => inside.initializers ++ rest.initializers
  | type _ head members _ rest => members.initializers [head.typeName] ++ rest.initializers

def accessors : Source → List AccessorLine
  | nil => []
  | filler _ rest | directive _ rest => rest.accessors
  | block _ inside _ rest => inside.accessors ++ rest.accessors
  | type _ _ members _ rest => members.accessors ++ rest.accessors

end Source

end GuestGate.VisualBasic
