import GuestGate.Policy.Access
import GuestGate.Policy.Rewriter
import GuestGate.Surface.Basic

/-!
# Policy rules

Rules are written per namespace, type and member.  A family stands for the
rules of all types of a namespace that derive from one root; they are read off
the surface.
-/

namespace GuestGate

open Text

/-- A rule for a member, all overloads of the name. -/
structure MemberRule where
  name : String
  access : AccessLevel
  rewriter : Option Rewriter := none

/-- A rule for a type with the rules of its members.  Rules that a family
generates are not checked against the surface again. -/
structure TypeRule where
  name : String
  access : AccessLevel
  members : List MemberRule := []
  generated : Bool := false

structure NamespaceRule where
  name : String
  access : AccessLevel
  types : List TypeRule := []

inductive FamilyMode
  /-- Getters that expose no native handle, and methods that lead to another
  type of the family. -/
  | introspection
  /-- Everything but members that compile code. -/
  | denyDynamicCompilation
deriving DecidableEq, Repr

/-- The exported types of a namespace that derive from a root. -/
structure FamilyRule where
  namespaceName : String
  root : String
  mode : FamilyMode
deriving DecidableEq, Repr

inductive PolicyRule
  | explicit (rule : NamespaceRule)
  | family (rule : FamilyRule)

namespace FamilyRule

def memberRules (family : FamilyRule) (s : Surface) (row : Nat) : List MemberRule :=
  match family.mode with
  | .introspection =>
      ((s.properties row).filter fun p ↦ !occurs "Handle".toList p.name.toList).map
          (fun p ↦ ⟨getterName p.name, .allowed, none⟩) ++
        ((s.methods row).filter fun m ↦ s.derivesFrom m.returns family.root).map
          (fun m ↦ ⟨m.name, .allowed, none⟩)
  | .denyDynamicCompilation =>
      ((s.methods row).filter fun m ↦ occurs "Compile".toList m.name.toList).map
        (fun m ↦ ⟨m.name, .denied, none⟩)

def typeAccess (family : FamilyRule) : AccessLevel :=
  match family.mode with
  | .introspection => .neutral
  | .denyDynamicCompilation => .allowed

/-- The rule for one type of the namespace.  Enumerations are allowed as they
are, and types outside the family get no rule. -/
def typeRule? (family : FamilyRule) (s : Surface) (row : Nat) : Option TypeRule :=
  s.types[row]?.bind fun t ↦
    if t.kind = .enumType then
      some { name := t.name, access := .allowed, generated := true }
    else if s.derivesFrom t.fullName family.root then
      some
        { name := t.name, access := family.typeAccess
          members := family.memberRules s row, generated := true }
    else none

def toNamespaceRule (family : FamilyRule) (s : Surface) : NamespaceRule where
  name := family.namespaceName
  access := .neutral
  types := (s.rowsIn family.namespaceName).filterMap (family.typeRule? s)

end FamilyRule

def PolicyRule.toNamespaceRule (s : Surface) : PolicyRule → NamespaceRule
  | explicit rule => rule
  | family rule => rule.toNamespaceRule s

end GuestGate
