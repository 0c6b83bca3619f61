import GuestGate.FSharp.Binding

/-!
# Trees of declarations

Modules, types and bindings as they are nested in a source by indentation.  All that is declared
in a block stands at one column, and what is declared inside of it at a column further in.  A line
is kept as the pieces of its text; of what follows the piece that decides nothing is asked.
-/

namespace GuestGate.FSharp

open Text

/-! ### Pieces of lines -/

/-- Whether all strings in a text are closed and no comment starts outside of them.  The flag says
whether the text begins inside a string. -/
def isCode : Bool → List Char → Bool
  | inString, [] => !inString
  | inString, c :: rest =>
      if c = '"' then isCode (!inString) rest
      else (inString || !(c == '/' && rest.head? == some '/')) && isCode inString rest

structure Blanks where
  text : List Char
  blank : ∀ c ∈ text, isBlank c = true

structure Gap extends Blanks where
  nonempty : text ≠ []

structure Comment where
  text : List Char
  marked : (text.isEmpty || ['/', '/'].isPrefixOf text) = true

/-- What may stand behind the code of a line. -/
structure Trailing where
  blanks : Blanks
  comment : Comment

def Trailing.text (trailing : Trailing) : List Char :=
  trailing.blanks.text ++ trailing.comment.text

structure Attribute where
  inside : List Char
  isCode : FSharp.isCode false inside = true
  unclosed : occurs ['>', ']'] inside = false
  gap : Blanks

namespace Attribute

variable (attr : Attribute)

def text : List Char :=
  ['[', '<'] ++ (attr.inside ++ (['>', ']'] ++ attr.gap.text))

def isLiteral : Bool :=
  occurs "Literal".toList attr.inside

end Attribute

structure Margin (column : Nat) where
  indent : Blanks
  width : byteLength indent.text = column
  attributes : List Attribute

def Margin.text {column : Nat} (margin : Margin column) : List Char :=
  margin.indent.text ++ margin.attributes.flatMap Attribute.text

structure Modifier where
  word : List Char
  isModifier : isBindingModifier word = true
  gap : Gap

def Modifier.text (m : Modifier) : List Char :=
  m.word ++ m.gap.text

def isOpeningMark (c : Char) : Bool :=
  ['(', '<', '=', ':'].contains c

structure Name where
  text : List Char
  nonempty : text ≠ []
  isName : text.all (fun c ↦ !isBlank c && !isOpeningMark c) = true
  notModifier : isBindingModifier text = false

def isIdentifierChar (c : Char) : Bool :=
  isWordChar c || c == '\''

/-- What a binding binds: a name, or an operator or some names in parentheses. -/
inductive Pattern
  | name (text : List Char) (nonempty : text ≠ [])
      (isName : text.all isIdentifierChar = true)
      (notModifier : isBindingModifier text = false)
  | group (inside : List Char) (flat : inside.all (fun c ↦ c != '(' && c != ')') = true)

def Pattern.text : Pattern → List Char
  | name text _ _ _ => text
  | group inside _ => '(' :: (inside ++ [')'])

structure ValueMark where
  blanks : Blanks
  mark : Char
  isMark : mark = '=' ∨ mark = ':'

def ValueMark.text (m : ValueMark) : List Char :=
  m.blanks.text ++ [m.mark]

/-! ### Lines -/

/-- A line without code. -/
inductive Filler
  | blank (trailing : Trailing)
  | block (indent : Blanks) (inside : List Char) (after : Blanks)

def Filler.text : Filler → List Char
  | blank trailing => trailing.text
  | block indent inside after =>
      indent.text ++ (['(', '*'] ++ (inside ++ (['*', ')'] ++ after.text)))

/-- A line in front of a declaration that belongs to it. -/
inductive Lead
  | filler (line : Filler)
  | attributes (indent : Blanks) (attr : Attribute) (more : List Attribute) (comment : Comment)

namespace Lead

def text : Lead → List Char
  | filler line => line.text
  | attributes indent attr more comment =>
      indent.text ++ ((attr :: more).flatMap Attribute.text ++ comment.text)

def isLiteral : Lead → Bool
  | filler _ => false
  | attributes _ attr more _ => (attr :: more).any Attribute.isLiteral

end Lead

/-- A line of code with the lines in front of it.  Its code begins with `front`, and what follows
may be anything. -/
structure Line (column : Nat) where
  lead : List Lead
  margin : Margin column
  front : List Char
  rest : List Char
  isCode : FSharp.isCode false front = true
  starts : front.head?.any (fun c ↦ !isBlank c) = true
  ends : front.getLast?.any (fun c ↦ !isBlank c && c != '/') = true
  noAttribute : ['[', '<'].isPrefixOf (front ++ rest) = false
  noComment : ['(', '*'].isPrefixOf (front ++ rest) = false

namespace Line

variable {column : Nat} (line : Line column)

def text : List Char :=
  line.margin.text ++ (line.front ++ line.rest)

def lines : List (List Char) :=
  line.lead.map Lead.text ++ [line.text]

def isLiteral : Bool :=
  line.lead.any Lead.isLiteral || line.margin.attributes.any Attribute.isLiteral

end Line

/-- A line that binds a value or a function. -/
structure BindingLine (column : Nat) extends Line column where
  gap : Gap
  modifiers : List Modifier
  pattern : Pattern
  mark : Option ValueMark
  front_eq : front = "let".toList ++ (gap.text ++ (modifiers.flatMap Modifier.text ++
    (pattern.text ++ mark.elim [] ValueMark.text)))
  parameters : mark = none → rest.head?.all (fun c ↦ !isIdentifierChar c) = true ∧
    (trimStart rest).head?.all (fun c ↦ c != '=' && c != ':') = true

def BindingLine.initializes {column : Nat} (line : BindingLine column) : Bool :=
  line.mark.isSome && !line.isLiteral

structure NamedLine (keywords : List String) (column : Nat) extends Line column where
  keyword : String
  isKeyword : keyword ∈ keywords
  gap : Gap
  modifiers : List Modifier
  name : Name
  after : List Char
  front_eq : front = keyword.toList ++ (gap.text ++ (modifiers.flatMap Modifier.text ++
    (name.text ++ after)))
  attached : (after ++ rest).head?.all (fun c ↦ isBlank c || isOpeningMark c) = true

def NamedLine.declared {keywords : List String} {column : Nat}
    (line : NamedLine keywords column) : String :=
  String.ofList line.name.text

structure BlockLine (column : Nat) extends NamedLine ["module"] column where
  blanks : Blanks
  after_eq : after = blanks.text ++ ['=']
  trailing : Trailing
  rest_eq : rest = trailing.text

structure HeaderLine (column : Nat) extends NamedLine ["module"] column where
  after_eq : after = []
  trailing : Trailing
  rest_eq : rest = trailing.text

structure AbbreviationLine (column : Nat) extends NamedLine ["module"] column where
  before : Blanks
  behind : Blanks
  target : Name
  after_eq : after = before.text ++ ('=' :: (behind.text ++ target.text))
  trailing : Trailing
  rest_eq : rest = trailing.text

structure WordsLine (column : Nat) extends Line column where
  apart : rest.head?.all isBlank = true

def WordsLine.words {column : Nat} (line : WordsLine column) : List (List Char) :=
  Text.words line.front

/-- A line in a module that declares nothing of what is looked for. -/
structure OtherLine (column : Nat) extends WordsLine column where
  isOther : ∀ keyword ∈ ["namespace", "module", "type", "and", "let"],
    (Text.words front).head? ≠ some keyword.toList

structure NamespaceLine (column : Nat) extends WordsLine column where
  isNamespace : (Text.words front).head? = some "namespace".toList

structure MemberLine (column : Nat) extends WordsLine column where
  isMember : ∀ keyword ∈ ["namespace", "module", "type", "and"],
    (Text.words front).head? ≠ some keyword.toList
  decided : 3 ≤ (Text.words front).length ∨ ∃ trailing : Trailing, rest = trailing.text

def MemberLine.initializes {column : Nat} (line : MemberLine column) : Bool :=
  ["static".toList, "let".toList].isPrefixOf line.words ||
    ["static".toList, "member".toList, "val".toList].isPrefixOf line.words

/-- A line of the expression that starts at a column. -/
inductive Nested (column : Nat)
  | filler (line : Filler)
  | deeper (indent : Blanks) (isDeeper : column < byteLength indent.text) (rest : List Char)
      (starts : rest.head?.any (fun c ↦ !isBlank c) = true)
      (noAttribute : ['[', '<'].isPrefixOf rest = false)

def Nested.text {column : Nat} : Nested column → List Char
  | filler line => line.text
  | deeper indent _ rest _ _ => indent.text ++ rest

/-! ### Trees -/

structure Member (column : Nat) where
  line : MemberLine column
  nested : List (Nested column)

def Member.lines {column : Nat} (m : Member column) : List (List Char) :=
  m.line.lines ++ m.nested.map Nested.text

/-- A binding that runs code on start: the modules and types around it, from outside in, and the
last abbreviation in front of it. -/
structure Initializer where
  above : Option String
  names : List String

namespace Initializer

variable (i : Initializer) (root : String)

def path : String :=
  String.intercalate "+" (root :: i.names)

/-- The path with the name of the file taken from the abbreviation, if there is one. -/
def foundPath : String :=
  String.intercalate "+" (i.above.getD root :: i.names)

end Initializer

inductive Declarations : Nat → Type
  | nil {column : Nat} : Declarations column
  | filler {column : Nat} (line : Filler) (rest : Declarations column) : Declarations column
  | binding {column : Nat} (line : BindingLine column) (nested : List (Nested column))
      (rest : Declarations column) : Declarations column
  | other {column : Nat} (line : OtherLine column) (nested : List (Nested column))
      (rest : Declarations column) : Declarations column
  | abbreviation {column : Nat} (line : AbbreviationLine column) (rest : Declarations column) :
      Declarations column
  | block {column inner : Nat} (line : BlockLine column) (deeper : column < inner)
      (inside : Declarations inner) (rest : Declarations column) : Declarations column
  | type {column inner : Nat} (line : NamedLine ["type", "and"] column) (deeper : column < inner)
      (members : List (Member inner)) (rest : Declarations column) : Declarations column

namespace Declarations

def lines {column : Nat} : Declarations column → List (List Char)
  | nil => []
  | filler line rest => line.text :: rest.lines
  | binding line nested rest => line.lines ++ (nested.map Nested.text ++ rest.lines)
  | other line nested rest => line.lines ++ (nested.map Nested.text ++ rest.lines)
  | abbreviation line rest => line.lines ++ rest.lines
  | block line _ inside rest => line.lines ++ (inside.lines ++ rest.lines)
  | type line _ members rest => line.lines ++ (members.flatMap Member.lines ++ rest.lines)

/-- The last abbreviation, given the last one in front of the declarations. -/
def lastAbbreviation {column : Nat} (above : Option String) : Declarations column → Option String
  | nil => above
  | filler _ rest | binding _ _ rest | other _ _ rest | type _ _ _ rest =>
      rest.lastAbbreviation above
  | abbreviation line rest => rest.lastAbbreviation (some line.declared)
  | block _ _ inside rest => rest.lastAbbreviation (inside.lastAbbreviation above)

def initializers {column : Nat} (above : Option String) (names : List String) :
    Declarations column → List Initializer
  | nil => []
  | filler _ rest | other _ _ rest => rest.initializers above names
  | binding line _ rest =>
      (if line.initializes then [⟨above, names⟩] else []) ++ rest.initializers above names
  | abbreviation line rest => rest.initializers (some line.declared) names
  | block line _ inside rest =>
      inside.initializers above (names ++ [line.declared]) ++
        rest.initializers (inside.lastAbbreviation above) names
  | type line _ members rest =>
      ((members.filter fun m ↦ m.line.initializes).map fun _ ↦
        ⟨above, names ++ [line.declared]⟩) ++ rest.initializers above names

end Declarations

inductive Header
  | implicit
  | module {column : Nat} (line : HeaderLine column)
  | inNamespace {column : Nat} (line : NamespaceLine column)

namespace Header

def lines : Header → List (List Char)
  | implicit => []
  | module line => line.lines
  | inNamespace line => line.lines

def root : Header → String
  | module line => line.declared
  | _ => implicitModule

end Header

structure Source where
  header : Header
  column : Nat
  declarations : Declarations column

namespace Source

variable (source : Source)

def lines : List (List Char) :=
  source.header.lines ++ source.declarations.lines

def initializers : List Initializer :=
  source.declarations.initializers none []

def paths : List String :=
  source.initializers.map (Initializer.path · source.header.root)

def isUnderNamespace : Bool :=
  match source.header with
  | @Header.inNamespace column _ => column < source.column
  | _ => false

end Source

end GuestGate.FSharp
