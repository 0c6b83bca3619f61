import GuestGate.Host.Member
import GuestGate.Proofs.Member

/-!
# Names of imported members

An import names a type by its path, and the member it means has the path cut at the
last dot.  Cutting and joining again may lose a leading dot, but never the member, so
an import means a host member under one spelling of its names only.
-/

namespace GuestGate

namespace HostMember

/-- The library member that a host member stands in for. -/
def ref (host : HostMember) : MemberRef :=
  .ofTypePath host.typePath host.name

theorem ofMember?_ref (host : HostMember) : ofMember? host.ref = some host := by
  cases host <;> rfl

end HostMember

theorem Import.not_mem_typeName (i : Import) : '.' ∉ i.member.typeName.toList :=
  not_mem_snd_splitTypePath i.moduleName

/-- An import means a host member exactly when it means the library member of that name. -/
theorem Import.ofMember?_eq_some_iff {i : Import} {host : HostMember} :
    HostMember.ofMember? i.member = some host ↔ i.member = host.ref := by
  constructor
  · intro h
    have hsame := List.find?_some h
    simp only [Bool.and_eq_true, beq_iff_eq] at hsame
    rw [HostMember.ref, hsame.1, hsame.2]
    exact (MemberRef.ofTypePath_typePath i.not_mem_typeName).symm
  · intro h
    rw [h, HostMember.ofMember?_ref]

theorem Import.ofMember?_eq_none_iff {i : Import} :
    HostMember.ofMember? i.member = none ↔ ∀ host : HostMember, i.member ≠ host.ref := by
  constructor
  · intro hnone host h
    rw [h, HostMember.ofMember?_ref] at hnone
    cases hnone
  · intro hall
    cases h : HostMember.ofMember? i.member with
    | none => rfl
    | some host => exact absurd (Import.ofMember?_eq_some_iff.mp h) (hall host)

/-- The import of a host member is described with the member's own shapes. -/
theorem Import.parameters_callSite {i : Import} {host : HostMember} (h : i.member = host.ref) :
    i.callSite.parameters = host.shapes := by
  simp [Import.callSite, Import.ofMember?_eq_some_iff.mpr h]

end GuestGate
