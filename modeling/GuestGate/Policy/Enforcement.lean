import GuestGate.Failure

/-!
# Enforcement

A compiled program is checked member by member before anything runs.  One that
passes carries one guarded call site for each member it uses; one that does
not is refused with the full list of its violations.
-/

namespace GuestGate

/-- A compiled program, not yet checked: what the compiler wrote and the calls
it contains. -/
structure Assembly (α : Type) where
  streams : α
  references : List CallSite

abbrev CallSiteMap : Type := Std.TreeMap MemberRef CallSite compare

/-- A program whose every reference passed the policy. -/
structure VerifiedAssembly (α : Type) where
  streams : α
  callSites : CallSiteMap
  surfaceVersion : String

namespace PolicyTree

/-- A call site after the rewriter that the policy has chosen, if any. -/
def guarded (rewriter : Option Rewriter) (site : CallSite) : CallSite :=
  match rewriter with
  | some r => r.applyTo site
  | none => site

structure Findings where
  callSites : CallSiteMap := ∅
  violations : List Violation := []

/-- Take one reference into account.  Only the first reference to a member
counts, whether it is allowed or not. -/
def inspect (tree : PolicyTree) (found : Findings) (site : CallSite) : Findings :=
  match tree.resolve site.member with
  | .denied _ =>
      if found.violations.any fun v ↦ v.member == site.member then found
      else { found with violations := found.violations ++ [⟨site.member, site.line⟩] }
  | .allowed rewriter =>
      if found.callSites.contains site.member then found
      else { found with callSites := found.callSites.insert site.member (guarded rewriter site) }

def enforce {α : Type} (tree : PolicyTree) (assembly : Assembly α) :
    Except Failure (VerifiedAssembly α) :=
  let found := assembly.references.foldl tree.inspect {}
  if found.violations.isEmpty then
    .ok ⟨assembly.streams, found.callSites, tree.surfaceVersion⟩
  else .error (.policyViolation found.violations)

end PolicyTree

end GuestGate
