import Std.Data.TreeMap
import GuestGate.Text.Split

/-!
# Members of the library

A member is named by its namespace, its type and its own name.  It is written
`Namespace.Type::Member`; the namespace ends at the last dot of the type path.
-/

namespace GuestGate

open Text

/-- Namespace and type name of a type path: the namespace ends at the last dot
and is empty when there is none. -/
def splitTypePath (path : String) : String × String :=
  match cutLast '.' path.toList with
  | some parts => (String.ofList parts.1, String.ofList parts.2)
  | none => ("", path)

/-- The path of a type: its namespace, a dot and its name, or only its name in
the empty namespace. -/
def joinTypePath (namespaceName typeName : String) : String :=
  if namespaceName = "" then typeName else namespaceName ++ "." ++ typeName

def getterName (property : String) : String :=
  "get_" ++ property

structure MemberRef where
  namespaceName : String
  typeName : String
  name : String
deriving DecidableEq, Repr

namespace MemberRef

def order : MemberRef → MemberRef → Ordering :=
  compareLex (compareOn namespaceName) (compareLex (compareOn typeName) (compareOn name))

instance : Ord MemberRef := ⟨order⟩

instance : Std.TransOrd MemberRef :=
  inferInstanceAs (Std.TransCmp
    (compareLex (compareOn namespaceName) (compareLex (compareOn typeName) (compareOn name))))

theorem eq_of_order {a b : MemberRef} (h : order a b = .eq) : a = b := by
  obtain ⟨aNamespace, aType, aName⟩ := a
  obtain ⟨bNamespace, bType, bName⟩ := b
  simp only [order, compareLex_eq_eq, compareOn, Std.LawfulEqCmp.compare_eq_iff_eq] at h
  obtain ⟨rfl, rfl, rfl⟩ := h
  rfl

instance : Std.LawfulEqOrd MemberRef where
  eq_of_compare := eq_of_order

def ofTypePath (path name : String) : MemberRef :=
  let parts := splitTypePath path
  ⟨parts.1, parts.2, name⟩

def typePath (m : MemberRef) : String :=
  joinTypePath m.namespaceName m.typeName

def render (m : MemberRef) : String :=
  m.typePath ++ "::" ++ m.name

/-- Read a member.  The first `::` ends the type path, and neither the path nor
the name is empty. -/
def parse? (text : String) : Option MemberRef :=
  match cut "::".toList text.toList with
  | some (path, name) =>
      if path.isEmpty || name.isEmpty then none
      else some (ofTypePath (String.ofList path) (String.ofList name))
  | none => none

end MemberRef

end GuestGate
