import GuestGate.Text.Split
import GuestGate.Text.Utf8

/-!
# Module-level bindings in F# sources

A scan line by line.  Indentation alone says what a line belongs to: every
line opens a scope that ends before the next line that is not indented deeper.
-/

namespace GuestGate.FSharp

open Text

def bindingModifiers : List String :=
  ["rec", "mutable", "private", "internal", "public", "inline"]

def isBindingModifier (word : List Char) : Bool :=
  bindingModifiers.any fun modifier ↦ word == modifier.toList

/-- A line up to its `//` comment.  The flag says whether the line so far ends
inside a string. -/
def stripComment : Bool → List Char → List Char
  | _, [] => []
  | inString, c :: rest =>
      if !inString && c == '/' && rest.head? == some '/' then []
      else c :: stripComment (if c = '"' then !inString else inString) rest

/-- Take attributes off the front of a line.  The first result says whether
one of them makes the next binding a literal. -/
def takeAttributes (code : List Char) : Bool × List Char :=
  match _hopen : afterPrefix? ['[', '<'] code with
  | none => (false, code)
  | some inside =>
      match _hcut : cut ['>', ']'] inside with
      | none => (false, code)
      | some (inner, rest) =>
          let next := takeAttributes (trimStart rest)
          (occurs "Literal".toList inner || next.1, next.2)
termination_by code.length
decreasing_by
  have h1 := congrArg List.length (append_of_cut _hcut)
  have h2 := length_of_afterPrefix? _hopen
  have h3 := length_trimStart_le rest
  simp only [List.length_append] at h1
  simp at h2
  omega

/-- A line without its comment: how far it is indented, in bytes, whether its
attributes make a literal, and the code after them. -/
structure CodeLine where
  indent : Nat
  literal : Bool
  code : List Char
deriving DecidableEq, Repr

/-- The code of a line, unless it starts with a block comment. -/
def CodeLine.read (line : List Char) : Option CodeLine :=
  let code := stripComment false line
  let trimmed := trim code
  if ['(', '*'].isPrefixOf trimmed then none
  else
    let attributes := takeAttributes trimmed
    some ⟨byteLength (code.takeWhile isBlank), attributes.1, attributes.2⟩

/-- The name that a declaration gives: its first word that is no modifier, up
to an opening mark. -/
def declaredName (words : List (List Char)) : String :=
  match words.tail.find? fun word ↦ !isBindingModifier word with
  | some word => String.ofList (word.takeWhile fun c ↦ !(['(', '<', '=', ':'].contains c))
  | none => ""

def afterModifier? (text : List Char) : Option (List Char) :=
  bindingModifiers.findSome? fun modifier ↦
    (afterPrefix? modifier.toList text).filter fun rest ↦ rest.head?.any isBlank

def dropModifiers (text : List Char) : List Char :=
  match _h : afterModifier? text with
  | none => text
  | some rest => dropModifiers (trimStart rest)
termination_by text.length
decreasing_by
  obtain ⟨modifier, hmem, hfound⟩ := List.exists_of_findSome?_eq_some _h
  obtain ⟨hrest, _⟩ := Option.filter_eq_some_iff.1 hfound
  have h1 := length_of_afterPrefix? hrest
  have h2 := length_trimStart_le rest
  have h3 : 0 < modifier.toList.length := by
    simp only [bindingModifiers, List.mem_cons, List.not_mem_nil, or_false] at hmem
    rcases hmem with rfl | rfl | rfl | rfl | rfl | rfl <;> decide
  omega

/-- What follows the parenthesis that closes the first one of a text. -/
def afterGroup? : Nat → List Char → Option (List Char)
  | _, [] => none
  | depth, c :: rest =>
      let depth := if c = '(' then depth + 1 else if c = ')' then depth - 1 else depth
      if depth = 0 then some rest else afterGroup? depth rest

def afterPattern? (text : List Char) : Option (List Char) :=
  if text.head? = some '(' then afterGroup? 0 text
  else some (text.dropWhile fun c ↦ isWordChar c || c == '\'')

/-- Whether the text after `let` binds a value rather than a function. -/
def bindsValue (binding : List Char) : Bool :=
  match afterPattern? (dropModifiers (trimStart binding)) with
  | none => false
  | some rest => (trimStart rest).head?.any fun c ↦ c == '=' || c == ':'

/-- What a line opens for the lines indented under it. -/
inductive Scope
  | moduleBody (name : String)
  | typeBody (name : String)
  | expression
deriving DecidableEq, Repr

def Scope.name? : Scope → Option String
  | moduleBody name => some name
  | typeBody name => some name
  | expression => none

def implicitModule : String := "Program"

structure Scanner where
  /-- The module around the whole file. -/
  root : String := implicitModule
  /-- Open scopes with their indentation, innermost first. -/
  scopes : List (Nat × Scope) := []
  /-- Whether the next binding is a literal. -/
  literal : Bool := false
  /-- The paths of the bindings found. -/
  found : List String := []
deriving DecidableEq, Repr

/-- What a line turns out to be: the new root, or a scope that it opens and
whether it is a binding that runs code on start. -/
inductive LineMeaning
  | root (name : String)
  | scope (scope : Scope) (initializes : Bool)
deriving DecidableEq, Repr

def isStaticValue (words : List (List Char)) : Bool :=
  words[1]? == some "let".toList ||
    (words[1]? == some "member".toList && words[2]? == some "val".toList)

/-- The meaning of a line of code in the scope that owns it. -/
def meaning (owner : Option Scope) (literal : Bool) (code : List Char) : LineMeaning :=
  let words := words code
  let first := words.head?.map String.ofList
  if owner = some .expression ∨ first = some "namespace" then .scope .expression false
  else if first = some "module" then
    if code.getLast? = some '=' then .scope (.moduleBody (declaredName words)) false
    else .root (declaredName words)
  else if first = some "type" ∨ first = some "and" then
    .scope (.typeBody (declaredName words)) false
  else
    match owner with
    | some (.typeBody _) =>
        .scope .expression (first = some "static" && isStaticValue words)
    | _ =>
        .scope .expression (first = some "let" && !literal && bindsValue (code.drop 3))

namespace Scanner

def path (s : Scanner) : String :=
  String.intercalate "+" (s.root :: (s.scopes.reverse.filterMap fun scope ↦ scope.2.name?))

/-- Close the scopes that a line is not indented deeper than. -/
def close (s : Scanner) (indent : Nat) : Scanner :=
  { s with scopes := s.scopes.dropWhile fun scope ↦ indent ≤ scope.1 }

def pushCode (s : Scanner) (line : CodeLine) : Scanner :=
  let s := s.close line.indent
  match meaning (s.scopes.head?.map Prod.snd) (s.literal || line.literal) line.code with
  | .root name => { s with root := name, literal := false }
  | .scope scope initializes =>
      { s with
        scopes := (line.indent, scope) :: s.scopes
        literal := false
        found := if initializes then s.found ++ [s.path] else s.found }

/-- Take the next line into account.  A line of nothing but attributes passes
them on to the next one. -/
def push (s : Scanner) (line : List Char) : Scanner :=
  match CodeLine.read line with
  | none => s
  | some code =>
      if code.code.isEmpty then { s with literal := s.literal || code.literal }
      else s.pushCode code

end Scanner

def staticBindings (text : List Char) : List String :=
  ((lines text).foldl Scanner.push {}).found

end GuestGate.FSharp
