import GuestGate.Policy.Enforcement
import GuestGate.Run.Machine

/-!
# Linking

The imports of a module are linked to host members, and only those that were
verified beforehand.  A link carries the verified call site, with the guards
that policy has attached to it.
-/

namespace GuestGate

namespace GuestModule

def importedMembers (m : GuestModule) : List MemberRef :=
  m.imports.map Import.member

def describeImports (m : GuestModule) : List CallSite :=
  m.imports.map Import.callSite

/-- The imported members without a verified call site, each once. -/
def unverified (m : GuestModule) (sites : CallSiteMap) : List MemberRef :=
  (m.importedMembers.filter fun member ↦ !sites.contains member).eraseDups

/-- The verified call sites of the imported members, in member order. -/
def importedSites (m : GuestModule) (sites : CallSiteMap) : List CallSite :=
  (sites.toList.filter fun entry ↦ m.importedMembers.contains entry.1).map Prod.snd

end GuestModule

/-- Link one more call site, as the host member that it names.  No member can be
linked twice. -/
def linkNext (links : List Link) (site : CallSite) : Except Failure (List Link) :=
  match HostMember.ofMember? site.member with
  | none => .error (.moduleLoad (.unimplemented site.member))
  | some member =>
      if links.any (·.member == member) then .error (.moduleLoad (.definedTwice site.member))
      else .ok (links ++ [⟨member, site⟩])

/-- The links of a module.  An import that was never verified is a violation,
whether the host offers it or not. -/
def GuestModule.link (m : GuestModule) (sites : CallSiteMap) : Except Failure (List Link) :=
  if (m.unverified sites).isEmpty then (m.importedSites sites).foldlM linkNext []
  else .error (.policyViolation ((m.unverified sites).map fun member ↦ ⟨member, none⟩))

/-- Whether all imports of a guest are linked.  A rewriter may have made a call site
of another member, and then an import is left without a link. -/
def Instance.isResolved (inst : Instance) : Bool :=
  inst.guest.imports.all fun i ↦
    inst.links.any fun link ↦ HostMember.ofMember? i.member == some link.member

end GuestGate
