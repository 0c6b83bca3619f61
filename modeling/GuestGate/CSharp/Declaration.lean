import GuestGate.CSharp.Header

/-!
# Declarations in C# sources

A scan over the tokens that keeps the open scopes and the tokens since the
last declaration.  Bodies of members are balanced braces and nothing else, so
their statements are never taken for declarations.
-/

namespace GuestGate.CSharp

/-- A method, constructor or operator, from its first token to the closing
brace or semicolon. -/
structure Method where
  name : String
  first : Position
  last : Position
  parameterLines : List Nat
deriving DecidableEq, Repr

def Method.contains (m : Method) (p : Position) : Bool :=
  m.first.before p && p.before m.last

/-- A static field initializer or a static constructor: the type it belongs to
and its line. -/
structure StaticInitializer where
  typeName : String
  line : Nat
deriving DecidableEq, Repr

structure Declarations where
  methods : List Method := []
  staticInitializers : List StaticInitializer := []
deriving DecidableEq, Repr

def Declarations.methodAt? (d : Declarations) (p : Position) : Option Method :=
  d.methods.find? (·.contains p)

/-- What an open brace belongs to. -/
inductive Scope
  | namespaceBody
  | typeBody (name : String)
  /-- The body of a member.  That of a method knows which one it ends. -/
  | memberBody (method : Option Nat)
deriving DecidableEq, Repr

structure Scanner where
  /-- Open scopes, innermost first. -/
  scopes : List Scope := []
  /-- Tokens since the last declaration. -/
  header : List Token := []
  /-- Whether the last member was static and could still be initialized. -/
  awaitsInitializer : Bool := false
  found : Declarations := {}
deriving DecidableEq, Repr

namespace Scanner

def typeName? : Scope → Option String
  | .typeBody name => some name
  | _ => none

def openTypes? (s : Scanner) : Option (List String) :=
  match s.scopes with
  | .typeBody _ :: _ => some (s.scopes.filterMap typeName?)
  | _ => none

def typePath (types : List String) : String :=
  String.intercalate "+" types.reverse

/-- Record a static initializer on the line of the header. -/
def recordStatic (s : Scanner) (types : List String) : Scanner :=
  let line := (s.header.head?.map fun t ↦ t.position.line).getD 0
  { s with found :=
      { s.found with
        staticInitializers := s.found.staticInitializers ++ [⟨typePath types, line⟩] } }

/-- Record a method that ends at a position, as far as is known.  A static one
with the name of its type is an initializer as well. -/
def recordMethod (s : Scanner) (types : List String) (m : MethodHeader) (last : Position) :
    Scanner :=
  let first := (s.header.head?.map Token.position).getD last
  let method : Method := ⟨m.methodName, first, last, parameterLines m.parameters⟩
  let s' := { s with found := { s.found with methods := s.found.methods ++ [method] } }
  if isStatic s.header ∧ types.head? = some m.methodName then s'.recordStatic types else s'

/-- The scope that an open brace starts, after recording what its header
declares. -/
def openScope (s : Scanner) (p : Position) : Scanner × Scope :=
  if s.header.any (·.isIdent "namespace") then (s, .namespaceBody)
  else
    match declaredType? s.header with
    | some name => (s, .typeBody name)
    | none =>
        match s.openTypes? with
        | none => (s, .memberBody none)
        | some types =>
            let s := { s with awaitsInitializer := false }
            match methodHeader? s.header with
            | some m => (s.recordMethod types m p, .memberBody (some s.found.methods.length))
            | none =>
                if isStatic s.header then
                  if hasInitializer s.header then (s.recordStatic types, .memberBody none)
                  else ({ s with awaitsInitializer := true }, .memberBody none)
                else (s, .memberBody none)

def endDeclaration (s : Scanner) (p : Position) : Scanner :=
  match s.openTypes?, s.header with
  | some types, t :: _ =>
      if (declaredType? s.header).isSome then s
      else
        match methodHeader? s.header with
        | some m => s.recordMethod types m p
        | none =>
            if (t.isPunct "=" && s.awaitsInitializer) || (isStatic s.header && hasInitializer s.header)
            then s.recordStatic types
            else s
  | _, _ => s

def endMethod (s : Scanner) (method : Nat) (p : Position) : Scanner :=
  { s with found :=
      { s.found with methods := s.found.methods.modify method fun m ↦ { m with last := p } } }

/-- A token in the body of a member: only braces count. -/
def pushInBody (s : Scanner) (method : Option Nat) (outer : List Scope) (t : Token) : Scanner :=
  if t.isPunct "\x7b" then { s with scopes := .memberBody none :: s.scopes }
  else if t.isPunct "\x7d" then
    let s := { s with scopes := outer }
    match method with
    | some index => s.endMethod index t.position
    | none => s
  else s

def pushOutside (s : Scanner) (t : Token) : Scanner :=
  if t.isPunct "\x7b" then
    let (s, scope) := s.openScope t.position
    { s with scopes := scope :: s.scopes, header := [] }
  else if t.isPunct ";" then
    { s.endDeclaration t.position with awaitsInitializer := false, header := [] }
  else if t.isPunct "\x7d" then { s with scopes := s.scopes.tail, header := [] }
  else { s with header := s.header ++ [t] }

def push (s : Scanner) (t : Token) : Scanner :=
  match s.scopes with
  | .memberBody method :: outer => s.pushInBody method outer t
  | _ => s.pushOutside t

end Scanner

def Declarations.scan (text : List Char) : Declarations :=
  ((tokens text).foldl Scanner.push {}).found

end GuestGate.CSharp
