import GuestGate.CSharp.Token

/-!
# Declaration headers

The tokens in front of a `{` or a `;` tell what is being declared: a type, a
method with its parameters, or a member that may be static and initialized.
Only tokens outside parentheses and brackets count.
-/

namespace GuestGate.CSharp

def typeKeywords : List String :=
  ["class", "struct", "interface", "enum", "record"]

def statementWords : List String :=
  ["if", "while", "for", "foreach", "switch", "using", "lock", "catch", "return", "new", "typeof",
   "sizeof", "nameof", "default", "base", "this", "checked", "unchecked", "fixed", "when",
   "await", "throw", "is"]

def modifiers : List String :=
  ["public", "private", "protected", "internal", "static", "virtual", "override", "abstract",
   "sealed", "async", "extern", "unsafe", "readonly", "partial", "ref", "volatile"]

namespace Token

def opensGroup (t : Token) : Bool :=
  t.isPunct "(" || t.isPunct "["

def closesGroup (t : Token) : Bool :=
  t.isPunct ")" || t.isPunct "]"

/-- How deep in groups the tokens after this one are.  A group that was never
opened cannot be closed. -/
def depthAfter (t : Token) (depth : Nat) : Nat :=
  if t.opensGroup then depth + 1 else if t.closesGroup then depth - 1 else depth

end Token

def topLevel : Nat → List Token → List Token
  | _, [] => []
  | depth, t :: rest =>
      if depth = 0 then t :: topLevel (t.depthAfter depth) rest
      else topLevel (t.depthAfter depth) rest

def hasTopWord (header : List Token) (word : String) : Bool :=
  (topLevel 0 header).any (·.isIdent word)

def isStatic (header : List Token) : Bool :=
  hasTopWord header "static"

def hasInitializer (header : List Token) : Bool :=
  (topLevel 0 header).any (·.isPunct "=")

/-- What follows the first type keyword that stands outside all groups and
before the first parenthesis. -/
def afterTypeKeyword? : Nat → List Token → Option (List Token)
  | _, [] => none
  | depth, t :: rest =>
      if depth = 0 ∧ t.isPunct "(" then none
      else if depth = 0 ∧ t.isOneOf typeKeywords then some rest
      else afterTypeKeyword? (t.depthAfter depth) rest

/-- The name of the type that a header declares: the first word after its
keyword that is no type keyword itself. -/
def declaredType? (header : List Token) : Option String := do
  let rest ← afterTypeKeyword? 0 header
  let name ← rest.find? fun t ↦ t.kind == .ident && !t.isOneOf typeKeywords
  return String.ofList name.text

/-! ### Methods -/

/-- Skip generic arguments backwards, from their last `>` to in front of the
`<` that opens them. -/
def skipArguments : Nat → List Token → Option (List Token)
  | _, [] => none
  | depth, t :: before =>
      if t.isPunct ">" then skipArguments (depth + 1) before
      else if t.isPunct "<" then
        if depth ≤ 1 then some before else skipArguments (depth - 1) before
      else skipArguments depth before

/-- The name in front of a parenthesis, given the tokens before it from last
to first.  Generic arguments are skipped.  After the word `operator` any token
is a name. -/
def nameBefore? (before : List Token) : Option Token :=
  let fromName :=
    match before with
    | t :: _ => if t.isPunct ">" then skipArguments 0 before else some before
    | [] => none
  match fromName with
  | some (name :: earlier) =>
      let isName := name.kind == .ident && !name.isOneOf statementWords && !name.isOneOf modifiers
      let isOperator := (earlier.head?.map (·.isIdent "operator")).getD false
      if isName || isOperator then some name else none
  | _ => none

/-- A method as its header shows it: the name, and the tokens after the
parenthesis that opens its parameter list. -/
structure MethodHeader where
  name : Token
  parameters : List Token
deriving DecidableEq, Repr

/-- The first parenthesis outside all groups with a name in front opens the
parameters, unless an initializer or an expression body comes first. -/
def parameterList? : Nat → List Token → List Token → Option MethodHeader
  | _, _, [] => none
  | depth, before, t :: rest =>
      if depth = 0 ∧ (t.isPunct "=" ∨ t.isPunct "=>") then none
      else if depth = 0 ∧ t.isPunct "(" then
        match nameBefore? before with
        | some name => some ⟨name, rest⟩
        | none => parameterList? (t.depthAfter depth) (t :: before) rest
      else parameterList? (t.depthAfter depth) (t :: before) rest

/-- The method that a header declares.  A delegate is none. -/
def methodHeader? (header : List Token) : Option MethodHeader :=
  if hasTopWord header "delegate" then none else parameterList? 0 [] header

/-- Where a parameter list stands: how deep in brackets, and whether the next
token is the first of a parameter. -/
structure ParameterScan where
  depth : Nat := 0
  fresh : Bool := true

/-- The lines on which the parameters begin, up to the closing parenthesis. -/
def parameterLinesFrom : ParameterScan → List Token → List Nat
  | _, [] => []
  | ⟨depth, fresh⟩, t :: rest =>
      if depth = 0 ∧ t.isPunct ")" then []
      else if depth = 0 ∧ t.isPunct "," then parameterLinesFrom ⟨depth, true⟩ rest
      else
        let depth :=
          if t.opensGroup || t.isPunct "<" then depth + 1
          else if t.closesGroup || t.isPunct ">" then depth - 1
          else depth
        if fresh then t.position.line :: parameterLinesFrom ⟨depth, false⟩ rest
        else parameterLinesFrom ⟨depth, false⟩ rest

def parameterLines (tokens : List Token) : List Nat :=
  parameterLinesFrom {} tokens

/-- The name of a method: its word, or `operator` where the name is a mark. -/
def MethodHeader.methodName (m : MethodHeader) : String :=
  if m.name.kind = .ident then String.ofList m.name.text else "operator"

end GuestGate.CSharp
