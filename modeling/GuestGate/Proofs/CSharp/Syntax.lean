import GuestGate.CSharp.Declaration

/-!
# Trees of declarations

Namespaces, types and members as they are nested in a source, with all their tokens.  A tree
knows the methods that it declares and the places where something static is initialized; it
says nothing of how they are found.  What the parts of a declaration may contain is part of
them, so every tree is well-formed.
-/

namespace GuestGate.CSharp

/-! ### Tokens with a part to play -/

namespace Token

def isPlain (t : Token) : Bool :=
  !t.isPunct "\x7b" && !t.isPunct "\x7d" && !t.isPunct ";"

/-- What the header of a type or of a member may contain. -/
def isInner (t : Token) : Bool :=
  t.isPlain && !t.isIdent "namespace"

def isTail (t : Token) : Bool :=
  t.isInner && !t.isOneOf ["static", "delegate"]

def isValue (t : Token) : Bool :=
  t.isTail && !t.isOneOf typeKeywords

/-- What may stand in front of a declared name, unless it is inside a group. -/
def isQuiet (t : Token) : Bool :=
  !t.isOneOf ("delegate" :: typeKeywords) && !t.isPunct "(" && !t.isPunct "=" && !t.isPunct "=>"

def isName (t : Token) : Bool :=
  t.kind == .ident && !t.isOneOf ("namespace" :: "delegate" :: typeKeywords) &&
    !t.isOneOf statementWords && !t.isOneOf modifiers

end Token

structure Mark (mark : String) where
  token : Token
  isMark : token.isPunct mark = true

structure Name where
  token : Token
  isName : token.isName = true

def Name.text (name : Name) : String :=
  String.ofList name.token.text

/-! ### Brackets -/

/-- Which tokens open and close brackets, and which separate what is outside of them. -/
structure Brackets where
  opens : Token → Bool
  closes : Token → Bool
  separates : Token → Bool := fun _ ↦ false

namespace Brackets

def groups : Brackets where
  opens := Token.opensGroup
  closes := Token.closesGroup

def blocks : Brackets where
  opens t := t.isPunct "\x7b"
  closes t := t.isPunct "\x7d"

def angles : Brackets where
  opens t := t.isPunct "<"
  closes t := t.isPunct ">"

def ofParameters : Brackets where
  opens t := t.opensGroup || t.isPunct "<"
  closes t := t.closesGroup || t.isPunct ">"
  separates t := t.isPunct ","

/-- Whether some tokens inside a number of brackets close all of these and each that they
open, with no separator outside. -/
def balanced (b : Brackets) : Nat → List Token → Bool
  | depth, [] => depth == 0
  | 0, t :: rest =>
      if b.opens t then b.balanced 1 rest
      else !b.closes t && !b.separates t && b.balanced 0 rest
  | depth + 1, t :: rest =>
      if b.opens t then b.balanced (depth + 2) rest
      else if b.closes t then b.balanced depth rest
      else b.balanced (depth + 1) rest

/-- What the first of some balanced tokens does. -/
theorem balanced_cons {b : Brackets} {depth : Nat} {t : Token} {ts : List Token}
    (h : b.balanced depth (t :: ts) = true) :
    (b.opens t = true ∧ b.balanced (depth + 1) ts = true) ∨
    (b.opens t = false ∧ b.closes t = true ∧ ∃ d, depth = d + 1 ∧ b.balanced d ts = true) ∨
    (b.opens t = false ∧ b.closes t = false ∧ (depth = 0 → b.separates t = false) ∧
      b.balanced depth ts = true) := by
  cases depth with
  | zero =>
      rw [balanced] at h
      cases hopens : b.opens t with
      | true => exact .inl ⟨rfl, by simpa [hopens] using h⟩
      | false =>
          simp only [hopens, Bool.false_eq_true, if_false, Bool.and_eq_true,
            Bool.not_eq_true'] at h
          exact .inr (.inr ⟨rfl, h.1.1, fun _ ↦ h.1.2, h.2⟩)
  | succ depth =>
      rw [balanced] at h
      cases hopens : b.opens t with
      | true => exact .inl ⟨rfl, by simpa [hopens] using h⟩
      | false =>
          cases hcloses : b.closes t with
          | true =>
              exact .inr (.inl ⟨rfl, rfl, depth, rfl, by simpa [hopens, hcloses] using h⟩)
          | false =>
              exact .inr (.inr ⟨rfl, rfl, nofun, by simpa [hopens, hcloses] using h⟩)

end Brackets

/-! ### Parts of declarations -/

structure Front where
  tokens : List Token
  balanced : Brackets.groups.balanced 0 tokens = true
  inner : tokens.all Token.isInner = true
  quiet : (topLevel 0 tokens).all Token.isQuiet = true

namespace Front

def isStatic (front : Front) : Bool :=
  CSharp.isStatic front.tokens

def first (front : Front) (name : Token) : Token :=
  front.tokens.headD name

end Front

structure TypeParameters where
  opening : Mark "<"
  inside : List Token
  closing : Mark ">"
  angled : Brackets.angles.balanced 0 inside = true
  grouped : Brackets.groups.balanced 0 inside = true
  tail : inside.all Token.isTail = true
  quiet : (topLevel 0 inside).all Token.isQuiet = true

def TypeParameters.tokens (types : TypeParameters) : List Token :=
  types.opening.token :: (types.inside ++ [types.closing.token])

structure Parameter where
  first : Token
  others : List Token
  balanced : Brackets.ofParameters.balanced 0 (first :: others) = true
  tail : (first :: others).all Token.isTail = true

namespace Parameter

def tokens (p : Parameter) : List Token :=
  p.first :: p.others

def line (p : Parameter) : Nat :=
  p.first.position.line

end Parameter

inductive Parameters
  | none
  | some (first : Parameter) (others : List (Mark "," × Parameter))

namespace Parameters

def tokens : Parameters → List Token
  | none => []
  | some first others => first.tokens ++ others.flatMap fun p ↦ p.1.token :: p.2.tokens

def lines : Parameters → List Nat
  | none => []
  | some first others => first.line :: others.map fun p ↦ p.2.line

end Parameters

/-- A block of braces.  Anything can stand inside, as long as all its braces match. -/
structure Block where
  opening : Mark "\x7b"
  inside : List Token
  closing : Mark "\x7d"
  balanced : Brackets.blocks.balanced 0 inside = true

def Block.tokens (block : Block) : List Token :=
  block.opening.token :: (block.inside ++ [block.closing.token])

inductive Body
  | braced (block : Block)
  | expression (arrow : Mark "=>") (value : List Token) (tail : value.all Token.isTail = true)
      (semicolon : Mark ";")
  | none (semicolon : Mark ";")

namespace Body

def head : Body → List Token
  | expression arrow value .. => arrow.token :: value
  | _ => []

def rest : Body → List Token
  | braced block => block.tokens
  | expression _ _ _ semicolon | none semicolon => [semicolon.token]

def last : Body → Token
  | braced block => block.closing.token
  | expression _ _ _ semicolon | none semicolon => semicolon.token

end Body

structure Initializer where
  equals : Mark "="
  value : List Token
  isValue : value.all Token.isValue = true

def Initializer.tokens (init : Initializer) : List Token :=
  init.equals.token :: init.value

/-! ### Members -/

/-- A place where something static is initialized: the types around it from inside out, the
first token of the member, and the token with which the initialization begins. -/
structure StaticSite where
  types : List String
  member : Token
  start : Token

namespace StaticSite

def ofMember (site : StaticSite) : StaticInitializer :=
  ⟨Scanner.typePath site.types, site.member.position.line⟩

def ofStart (site : StaticSite) : StaticInitializer :=
  ⟨Scanner.typePath site.types, site.start.position.line⟩

end StaticSite

structure MethodSyntax where
  front : Front
  name : Name
  types : Option TypeParameters
  opening : Mark "("
  parameters : Parameters
  closing : Mark ")"
  /-- Constraints, or a call of another constructor. -/
  tail : List Token
  isTail : tail.all Token.isTail = true
  body : Body

namespace MethodSyntax

variable (m : MethodSyntax)

def first : Token :=
  m.front.first m.name.token

/-- What follows the parenthesis that opens the parameters, up to the end of the header. -/
def afterOpening : List Token :=
  m.parameters.tokens ++ m.closing.token :: (m.tail ++ m.body.head)

def header : List Token :=
  m.front.tokens ++ m.name.token :: ((m.types.elim [] TypeParameters.tokens) ++
    m.opening.token :: m.afterOpening)

def tokens : List Token :=
  m.header ++ m.body.rest

def declared : Method :=
  ⟨m.name.text, m.first.position, m.body.last.position, m.parameters.lines⟩

/-- A static constructor initializes its type. -/
def sites (types : List String) : List StaticSite :=
  if m.front.isStatic ∧ types.head? = some m.name.text then [⟨types, m.first, m.first⟩] else []

end MethodSyntax

structure FieldSyntax where
  front : Front
  name : Name
  initializer : Option Initializer
  semicolon : Mark ";"

namespace FieldSyntax

variable (f : FieldSyntax)

def first : Token :=
  f.front.first f.name.token

def header : List Token :=
  f.front.tokens ++ f.name.token :: f.initializer.elim [] Initializer.tokens

def tokens : List Token :=
  f.header ++ [f.semicolon.token]

def sites (types : List String) : List StaticSite :=
  if f.front.isStatic ∧ f.initializer.isSome then [⟨types, f.first, f.first⟩] else []

end FieldSyntax

/-- A property with accessors in braces, and perhaps an initializer behind them. -/
structure PropertySyntax where
  front : Front
  name : Name
  accessors : Block
  initializer : Option (Initializer × Mark ";")

namespace PropertySyntax

variable (p : PropertySyntax)

def first : Token :=
  p.front.first p.name.token

def header : List Token :=
  p.front.tokens ++ [p.name.token]

def tokens : List Token :=
  p.header ++ (p.accessors.tokens ++
    p.initializer.elim [] fun init ↦ init.1.tokens ++ [init.2.token])

def sites (types : List String) : List StaticSite :=
  match p.initializer with
  | some init => if p.front.isStatic then [⟨types, p.first, init.1.equals.token⟩] else []
  | none => []

end PropertySyntax

structure TypeHead where
  front : Front
  keyword : Token
  isKeyword : keyword.isOneOf typeKeywords = true
  /-- A record can have a second keyword. -/
  others : List Token
  areKeywords : others.all (·.isOneOf typeKeywords) = true
  name : Token
  isName : name.kind = .ident ∧ name.isOneOf ("namespace" :: typeKeywords) = false
  tail : List Token
  inner : tail.all Token.isInner = true

namespace TypeHead

variable (head : TypeHead)

def text : String :=
  String.ofList head.name.text

def tokens : List Token :=
  head.front.tokens ++ head.keyword :: (head.others ++ head.name :: head.tail)

end TypeHead

/-! ### Trees -/

inductive Members
  | nil
  | method (m : MethodSyntax) (rest : Members)
  | field (f : FieldSyntax) (rest : Members)
  | property (p : PropertySyntax) (rest : Members)
  | type (head : TypeHead) (opening : Mark "\x7b") (members : Members) (closing : Mark "\x7d")
      (rest : Members)

namespace Members

def tokens : Members → List Token
  | nil => []
  | method m rest => m.tokens ++ rest.tokens
  | field f rest => f.tokens ++ rest.tokens
  | property p rest => p.tokens ++ rest.tokens
  | type head opening members closing rest =>
      head.tokens ++ opening.token :: (members.tokens ++ closing.token :: rest.tokens)

def methods : Members → List Method
  | nil => []
  | method m rest => m.declared :: rest.methods
  | field _ rest | property _ rest => rest.methods
  | type _ _ members _ rest => members.methods ++ rest.methods

def sites (types : List String) : Members → List StaticSite
  | nil => []
  | method m rest => m.sites types ++ rest.sites types
  | field f rest => f.sites types ++ rest.sites types
  | property p rest => p.sites types ++ rest.sites types
  | type head _ members _ rest => members.sites (head.text :: types) ++ rest.sites types

end Members

inductive Source
  | nil
  /-- Something that ends with a semicolon: an import, or a namespace for all of a file. -/
  | directive (tokens : List Token) (inner : tokens.all Token.isPlain = true) (semicolon : Mark ";")
      (rest : Source)
  | block (header : List Token) (plain : header.all Token.isPlain = true)
      (isNamespace : header.any (·.isIdent "namespace") = true) (opening : Mark "\x7b")
      (inside : Source) (closing : Mark "\x7d") (rest : Source)
  | type (head : TypeHead) (opening : Mark "\x7b") (members : Members) (closing : Mark "\x7d")
      (rest : Source)

namespace Source

def tokens : Source → List Token
  | nil => []
  | directive tokens _ semicolon rest => tokens ++ semicolon.token :: rest.tokens
  | block header _ _ opening inside closing rest =>
      header ++ opening.token :: (inside.tokens ++ closing.token :: rest.tokens)
  | type head opening members closing rest =>
      head.tokens ++ opening.token :: (members.tokens ++ closing.token :: rest.tokens)

def methods : Source → List Method
  | nil => []
  | directive _ _ _ rest => rest.methods
  | block _ _ _ _ inside _ rest => inside.methods ++ rest.methods
  | type _ _ members _ rest => members.methods ++ rest.methods

def sites : Source → List StaticSite
  | nil => []
  | directive _ _ _ rest => rest.sites
  | block _ _ _ _ inside _ rest => inside.sites ++ rest.sites
  | type head _ members _ rest => members.sites [head.text] ++ rest.sites

end Source

end GuestGate.CSharp
