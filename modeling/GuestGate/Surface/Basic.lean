import GuestGate.Member

/-!
# The reference surface

The table of types that compiled code can see, with their bases, properties
and methods.  Rules are checked against this table.
-/

namespace GuestGate

open Text

inductive TypeKind
  | classType
  | structType
  | enumType
  | interfaceType
deriving DecidableEq, Repr

def TypeKind.name : TypeKind → String
  | classType => "class"
  | structType => "struct"
  | enumType => "enum"
  | interfaceType => "interface"

def TypeKind.ofName? (word : String) : Option TypeKind :=
  [classType, structType, enumType, interfaceType].find? fun kind ↦ kind.name == word

structure PropertyEntry where
  name : String
  type : String
deriving DecidableEq, Repr

/-- A method and the full name of the type it returns.  All overloads of a
name share one entry. -/
structure MethodEntry where
  name : String
  returns : String
deriving DecidableEq, Repr

structure TypeEntry where
  namespaceName : String
  name : String
  kind : TypeKind := .classType
  base : Option String := none
  properties : List PropertyEntry := []
  methods : List MethodEntry := []
deriving DecidableEq, Repr

namespace TypeEntry

def fullName (t : TypeEntry) : String :=
  joinTypePath t.namespaceName t.name

/-- Whether a full name means this type.  The name of the type is taken off the end; before
it stands the namespace and a dot, or nothing at all in the empty namespace. -/
def isNamed (t : TypeEntry) (full : String) : Bool :=
  match beforeSuffix? t.name.toList full.toList with
  | some [] => t.namespaceName == ""
  | some before => beforeSuffix? ['.'] before == some t.namespaceName.toList
  | none => false

end TypeEntry

/-- A table of exported types under a version. -/
structure Surface where
  version : String
  types : List TypeEntry
deriving DecidableEq, Repr

namespace Surface

def find? (s : Surface) (namespaceName name : String) : Option Nat :=
  s.types.findIdx? fun t ↦ t.namespaceName == namespaceName && t.name == name

def findFull? (s : Surface) (full : String) : Option Nat :=
  s.types.findIdx? (·.isNamed full)

def rowsIn (s : Surface) (namespaceName : String) : List Nat :=
  (s.types.zipIdx.filter fun t ↦ t.1.namespaceName == namespaceName).map Prod.snd

/-- The row of the base of the type in a row, as far as the table knows it. -/
def base? (s : Surface) (row : Nat) : Option Nat :=
  s.types[row]?.bind fun t ↦ t.base.bind s.findFull?

/-- The rows above a row, up to the end of the chain or the first row that has
been visited.  Every step visits another row, so the number of rows is enough
fuel. -/
def climb (s : Surface) : Nat → List Nat → Nat → List Nat
  | 0, _, _ => []
  | fuel + 1, visited, row =>
      match s.base? row with
      | none => []
      | some above =>
          if above ∈ visited then [] else above :: s.climb fuel (above :: visited) above

def chain (s : Surface) (row : Nat) : List Nat :=
  row :: s.climb s.types.length [row] row

def ancestry (s : Surface) (row : Nat) : List TypeEntry :=
  (s.chain row).filterMap (s.types[·]?)

/-- Whether a type is the root or derives from it, both by full name. -/
def derivesFrom (s : Surface) (full root : String) : Bool :=
  full == root ||
    match s.findFull? full with
    | some row => (s.ancestry row).any fun t ↦ t.fullName == root
    | none => false

/-- The properties of a type, its own before those of its bases. -/
def properties (s : Surface) (row : Nat) : List PropertyEntry :=
  (s.ancestry row).flatMap TypeEntry.properties

def methods (s : Surface) (row : Nat) : List MethodEntry :=
  (s.ancestry row).flatMap TypeEntry.methods

/-- Whether a type or one of its bases has a member: a method of that name or
a property with that accessor. -/
def hasMember (s : Surface) (row : Nat) (member : String) : Bool :=
  (s.methods row).any (fun m ↦ m.name == member) ||
    (s.properties row).any (fun p ↦ getterName p.name == member)

end Surface

end GuestGate
