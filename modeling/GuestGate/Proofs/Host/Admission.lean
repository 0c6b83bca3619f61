import GuestGate.Host.Basic
import GuestGate.Policy.Bundled
import GuestGate.Proofs.Host.Linking

/-!
# Which modules get to run

A host lets code of a guest run only in an instance whose imports are all linked.  What
happens before that can end in a policy violation, and nothing that happens after it can.
-/

namespace GuestGate

/-! ## Failures of a running guest -/

theorem Interruption.isPolicyViolation_toFailure (interruption : Interruption)
    (config : RunConfig) : (interruption.toFailure config).isPolicyViolation = false := by
  cases interruption <;> rfl

theorem Machine.isPolicyViolation_of_conclude {m : Machine} {config : RunConfig} {halt : Halt}
    {failure : Failure} (h : m.conclude config halt = .error failure) :
    failure.isPolicyViolation = false := by
  induction halt with
  | exited => cases h
  | interrupted interruption =>
      cases h
      exact interruption.isPolicyViolation_toFailure config
  | outOfFuel =>
      simp only [conclude] at h
      split at h <;> cases h <;> rfl
  | rejected rejection =>
      simp only [conclude] at h
      split at h <;> cases h
      rfl
  | trapped cause =>
      simp only [conclude] at h
      split at h <;> cases h
      rfl
  | faulted fault =>
      simp only [conclude] at h
      split at h <;> cases h
      rfl
  | nested halt ih => exact ih h

theorem GuestModule.isPolicyViolation_of_start {module : GuestModule} {config : RunConfig}
    {failure : Failure} (h : module.start config = .error failure) :
    failure.isPolicyViolation = false := by
  simp only [start] at h
  split at h
  · cases h
    rfl
  · split at h
    · cases h
      rfl
    · split at h <;> cases h
      rfl

namespace Instance

theorem isPolicyViolation_of_enter {inst : Instance} {m : Machine} {failure : Failure}
    (h : inst.enter m = .error failure) : failure.isPolicyViolation = false := by
  simp only [enter] at h
  split at h <;> cases h <;> rfl

/-- A guest can fail in many ways once it is there, but not by violating the policy. -/
theorem isPolicyViolation_of_execute {inst : Instance} {config : RunConfig} {failure : Failure}
    (h : inst.execute config = .error failure) : failure.isPolicyViolation = false := by
  rw [execute, bind_eq_error_iff] at h
  obtain hstart | ⟨m, -, h⟩ := h
  · exact GuestModule.isPolicyViolation_of_start hstart
  · obtain henter | ⟨outcome, -, h⟩ := bind_eq_error_iff.mp h
    · exact isPolicyViolation_of_enter henter
    · cases outcome with
      | running last =>
          have hconclude : last.conclude config .exited = .error failure := h
          exact Machine.isPolicyViolation_of_conclude hconclude
      | halted last halt => exact Machine.isPolicyViolation_of_conclude h

end Instance

/-! ## Before a guest runs -/

namespace Host

variable {host : Host} {module : GuestModule} {sites : CallSiteMap} {cancelAt : Option Nat}

/-- The instance in which the code of a module may run: it is linked, nothing has
interrupted it so far, and every import has a link. -/
def prepare (host : Host) (module : GuestModule) (sites : CallSiteMap) (cancelAt : Option Nat) :
    Except Failure Instance := do
  let links ← module.link sites
  let inst : Instance := { guest := module, links, deadline := host.config.timeout, cancelAt }
  match (inst.watch 0).check.noticed with
  | some interruption => .error (interruption.toFailure host.config)
  | none => if inst.isResolved then .ok inst else .error (.moduleLoad .instantiation)

/-- A run is admission, and then the execution of the admitted instance. -/
theorem run_eq_prepare_bind : host.run module sites cancelAt =
    (host.prepare module sites cancelAt).bind (·.execute host.config) := by
  cases hlink : module.link sites with
  | error failure => simp only [run, prepare, hlink, bind, Except.bind]
  | ok links =>
      simp only [run, prepare, hlink, bind, Except.bind]
      cases (Instance.watch { guest := module, links, deadline := host.config.timeout, cancelAt }
        0).check.noticed with
      | some interruption => rfl
      | none =>
          -- an unresolved import is found before the run
          simp only
          split <;> rfl

theorem prepare_of_link_eq_error {failure : Failure} (h : module.link sites = .error failure) :
    host.prepare module sites cancelAt = .error failure := by
  rw [prepare, h]
  rfl

theorem prepare_of_link_eq_ok (host : Host) (cancelAt : Option Nat) {links : List Link}
    (h : module.link sites = .ok links) :
    (∃ interruption : Interruption,
      host.prepare module sites cancelAt = .error (interruption.toFailure host.config)) ∨
      host.prepare module sites cancelAt = .error (.moduleLoad .instantiation) ∨
      ∃ inst, host.prepare module sites cancelAt = .ok inst ∧ inst.guest = module ∧
        inst.links = links ∧ inst.isResolved := by
  simp only [prepare, h, bind, Except.bind]
  split
  · next interruption _ => exact .inl ⟨interruption, rfl⟩
  · split
    · next hresolved => exact .inr (.inr ⟨_, rfl, rfl, rfl, hresolved⟩)
    · exact .inr (.inl rfl)

variable {tree : PolicyTree} {assembly : Assembly Streams} {verified : VerifiedAssembly Streams}

/-- Executing a verified program runs the module that its image loads as. -/
theorem execute_eq_prepare_bind (cancelAt : Option Nat)
    (hloaded : (host.load verified.streams.binary).2 = .ok module) :
    (host.execute verified cancelAt).2 =
      (host.prepare module verified.callSites cancelAt).bind (·.execute host.config) := by
  rw [execute, hloaded]
  exact run_eq_prepare_bind

theorem isPolicyViolation_of_linked {links : List Link} (hlink : module.link sites = .ok links)
    {failure : Failure} (h : (host.prepare module sites cancelAt).bind (·.execute host.config) =
      .error failure) : failure.isPolicyViolation = false := by
  obtain ⟨interruption, hprepare⟩ | hprepare | ⟨inst, hprepare, -⟩ :=
    prepare_of_link_eq_ok host cancelAt hlink
  · rw [hprepare] at h
    cases h
    exact interruption.isPolicyViolation_toFailure host.config
  · rw [hprepare] at h
    cases h
    rfl
  · rw [hprepare] at h
    exact Instance.isPolicyViolation_of_execute h

end Host

theorem Instance.exists_ref_of_isResolved {inst : Instance} (h : inst.isResolved) {i : Import}
    (hi : i ∈ inst.guest.imports) : ∃ link ∈ inst.links, i.member = link.member.ref := by
  have hany := List.all_eq_true.mp h i hi
  obtain ⟨link, hlink, hmember⟩ := List.any_eq_true.mp hany
  exact ⟨link, hlink, Import.ofMember?_eq_some_iff.mp (eq_of_beq hmember)⟩

/-! ## Imports and references -/

namespace GuestModule

/-- A module imports a member that none of the references is about. -/
def Unreferenced (m : GuestModule) (references : List CallSite) (member : MemberRef) : Prop :=
  member ∈ m.importedMembers ∧ ∀ site ∈ references, site.member ≠ member

/-- Violations list the unreferenced members of a module, each once and without a line, in
the order in which they are imported first. -/
structure Reports (m : GuestModule) (references : List CallSite) (violations : List Violation) :
    Prop where
  nodup : (violations.map Violation.member).Nodup
  mem_iff : ∀ v, v ∈ violations ↔ v.line = none ∧ m.Unreferenced references v.member
  ordered : violations.Pairwise fun a b ↦
    m.importedMembers.idxOf a.member < m.importedMembers.idxOf b.member

variable {m : GuestModule} {references : List CallSite} {members : List MemberRef}

theorem reports_map (hmem : ∀ member, member ∈ members ↔ m.Unreferenced references member)
    (hordered : members.Pairwise fun a b ↦ m.importedMembers.idxOf a < m.importedMembers.idxOf b) :
    m.Reports references (members.map fun member ↦ ⟨member, none⟩) where
  nodup := by
    rw [List.map_map]
    refine List.pairwise_map.mpr (hordered.imp fun {a b} hlt heq ↦ ?_)
    have hsame : a = b := heq
    rw [hsame] at hlt
    exact Nat.lt_irrefl _ hlt
  mem_iff v := by
    rw [← hmem, List.mem_map]
    constructor
    · rintro ⟨member, hmember, rfl⟩
      exact ⟨rfl, hmember⟩
    · rintro ⟨hline, hmember⟩
      exact ⟨v.member, hmember, by rw [← hline]⟩
  ordered := List.pairwise_map.mpr hordered

theorem Unreferenced.of_describeImports {member : MemberRef} :
    ¬ m.Unreferenced m.describeImports member := by
  rintro ⟨himported, hnone⟩
  obtain ⟨i, hi, rfl⟩ := mem_importedMembers.mp himported
  exact hnone i.callSite (List.mem_map_of_mem hi) rfl

end GuestModule

namespace Host

variable {host : Host} {module : GuestModule} {cancelAt : Option Nat} {tree : PolicyTree}
  {assembly : Assembly Streams} {verified : VerifiedAssembly Streams}

theorem mem_unverified_iff (haccepted : tree.enforce assembly = .ok verified) (member : MemberRef) :
    member ∈ module.unverified verified.callSites ↔
      module.Unreferenced assembly.references member := by
  rw [GuestModule.mem_unverified, PolicyTree.callSites_eq_none_iff haccepted,
    GuestModule.Unreferenced]

theorem not_unreferenced_of_verified (haccepted : tree.enforce assembly = .ok verified)
    (hnil : module.unverified verified.callSites = []) (member : MemberRef) :
    ¬ module.Unreferenced assembly.references member := by
  rw [← mem_unverified_iff haccepted, hnil]
  exact List.not_mem_nil

/-- The ends of admission for the call sites of a verified program. -/
theorem prepare_cases (haccepted : tree.enforce assembly = .ok verified) (host : Host)
    (module : GuestModule) (cancelAt : Option Nat) :
    ((∃ member, module.Unreferenced assembly.references member) ∧ ∃ violations,
      module.Reports assembly.references violations ∧
        host.prepare module verified.callSites cancelAt = .error (.policyViolation violations)) ∨
    ((∀ member, ¬ module.Unreferenced assembly.references member) ∧ ∃ fault,
      module.link verified.callSites = .error (.moduleLoad fault) ∧
        host.prepare module verified.callSites cancelAt = .error (.moduleLoad fault)) ∨
    ((∀ member, ¬ module.Unreferenced assembly.references member) ∧ ∃ links,
      module.Linked verified.callSites links ∧ module.link verified.callSites = .ok links) := by
  obtain ⟨hne, herror⟩ | ⟨hnil, fault, herror⟩ | ⟨hnil, links, hlinked, hok⟩ :=
    GuestModule.link_cases module verified.callSites
  · refine .inl ⟨?_, _, GuestModule.reports_map (mem_unverified_iff haccepted)
      GuestModule.pairwise_unverified, prepare_of_link_eq_error herror⟩
    obtain ⟨member, hmember⟩ := List.exists_mem_of_ne_nil _ hne
    exact ⟨member, (mem_unverified_iff haccepted member).mp hmember⟩
  · exact .inr (.inl ⟨not_unreferenced_of_verified haccepted hnil, fault, herror,
      prepare_of_link_eq_error herror⟩)
  · exact .inr (.inr ⟨not_unreferenced_of_verified haccepted hnil, links, hlinked, hok⟩)

/-- What is admitted has only imports of host members, each with a verified call site. -/
theorem imports_of_prepare {sites : CallSiteMap} {inst : Instance}
    (h : host.prepare module sites cancelAt = .ok inst) {i : Import} (hi : i ∈ module.imports) :
    (∃ member : HostMember, i.member = member.ref) ∧ ∃ site, sites[i.member]? = some site := by
  cases hlink : module.link sites with
  | error failure =>
      rw [prepare_of_link_eq_error hlink] at h
      cases h
  | ok links =>
      obtain ⟨_, hprepare⟩ | hprepare | ⟨_, hprepare, hguest, -, hresolved⟩ :=
        prepare_of_link_eq_ok host cancelAt hlink
      · rw [hprepare] at h
        cases h
      · rw [hprepare] at h
        cases h
      · rw [hprepare] at h
        cases h
        obtain ⟨link, -, href⟩ := Instance.exists_ref_of_isResolved hresolved (hguest ▸ hi)
        obtain ⟨found, -, hsite⟩ := (GuestModule.linked_of_link hlink).complete i hi
        exact ⟨⟨link.member, href⟩, _, hsite⟩

/-- An import that the host does not offer keeps a guest from being admitted, whatever the
rewriters have made of its call site. -/
theorem prepare_of_foreign_import (host : Host) {sites : CallSiteMap} {links : List Link}
    (hlink : module.link sites = .ok links) (cancelAt : Option Nat) {i : Import}
    (hi : i ∈ module.imports) (hforeign : ∀ member : HostMember, i.member ≠ member.ref) :
    (∃ interruption : Interruption,
      host.prepare module sites cancelAt = .error (interruption.toFailure host.config)) ∨
      host.prepare module sites cancelAt = .error (.moduleLoad .instantiation) := by
  obtain hinterrupted | hprepare | ⟨inst, hprepare, -⟩ := prepare_of_link_eq_ok host cancelAt hlink
  · exact .inl hinterrupted
  · exact .inr hprepare
  · obtain ⟨⟨member, href⟩, -⟩ := imports_of_prepare hprepare hi
    exact absurd href (hforeign member)

/-- What is admitted imports nothing but host members that the policy allows. -/
theorem isAllowed_of_prepare (haccepted : tree.enforce assembly = .ok verified) {inst : Instance}
    (h : host.prepare module verified.callSites cancelAt = .ok inst) {i : Import}
    (hi : i ∈ module.imports) :
    ∃ member : HostMember, i.member = member.ref ∧ (tree.resolve i.member).isAllowed := by
  obtain ⟨⟨member, href⟩, site, hsite⟩ := imports_of_prepare h hi
  exact ⟨member, href, PolicyTree.isAllowed_of_callSites haccepted hsite⟩

section Execution

variable (haccepted : tree.enforce assembly = .ok verified)
  (hloaded : (host.load verified.streams.binary).2 = .ok module)

include haccepted hloaded

/-- Linking reports all imports that no reference is about, before any code is run. -/
theorem execute_of_unreferenced (h : ∃ member, module.Unreferenced assembly.references member) :
    ∃ violations, module.Reports assembly.references violations ∧
      host.prepare module verified.callSites cancelAt = .error (.policyViolation violations) ∧
      (host.execute verified cancelAt).2 = .error (.policyViolation violations) := by
  rw [execute_eq_prepare_bind cancelAt hloaded]
  obtain ⟨-, found, hreports, herror⟩ | ⟨hnone, -⟩ | ⟨hnone, -⟩ :=
    prepare_cases haccepted host module cancelAt
  · refine ⟨found, hreports, herror, ?_⟩
    rw [herror]
    rfl
  · exact absurd h (not_exists.mpr hnone)
  · exact absurd h (not_exists.mpr hnone)

/-- Once everything is linked the run knows no policy. -/
theorem execute_ne_policyViolation
    (hnone : ∀ member, ¬ module.Unreferenced assembly.references member)
    (violations : List Violation) :
    (host.execute verified cancelAt).2 ≠ .error (.policyViolation violations) := by
  rw [execute_eq_prepare_bind cancelAt hloaded]
  intro h
  obtain ⟨hsome, -⟩ | ⟨-, fault, -, herror⟩ | ⟨-, links, -, hok⟩ :=
    prepare_cases haccepted host module cancelAt
  · exact absurd hsome (not_exists.mpr hnone)
  · rw [herror] at h
    cases h
  · have hfalse := isPolicyViolation_of_linked hok h
    cases hfalse

theorem execute_of_foreign_import
    (hnone : ∀ member, ¬ module.Unreferenced assembly.references member) {i : Import}
    (hi : i ∈ module.imports) (hforeign : ∀ member : HostMember, i.member ≠ member.ref) :
    (∃ fault, (host.execute verified cancelAt).2 = .error (.moduleLoad fault)) ∨
      ∃ interruption : Interruption,
        (host.execute verified cancelAt).2 = .error (interruption.toFailure host.config) := by
  rw [execute_eq_prepare_bind cancelAt hloaded]
  obtain ⟨hsome, -⟩ | ⟨-, fault, -, herror⟩ | ⟨-, links, -, hok⟩ :=
    prepare_cases haccepted host module cancelAt
  · exact absurd hsome (not_exists.mpr hnone)
  · rw [herror]
    exact .inl ⟨fault, rfl⟩
  · obtain ⟨interruption, hprepare⟩ | hprepare :=
      prepare_of_foreign_import host hok cancelAt hi hforeign
    · rw [hprepare]
      exact .inr ⟨interruption, rfl⟩
    · rw [hprepare]
      exact .inl ⟨.instantiation, rfl⟩

/-- Where the call sites stand under their own members, each import is looked at in linking. -/
theorem execute_of_keepsMembers (hkeeps : tree.KeepsMembers)
    (hnone : ∀ member, ¬ module.Unreferenced assembly.references member)
    (hsome : ∃ i ∈ module.imports, ∀ member : HostMember, i.member ≠ member.ref) :
    ∃ i ∈ module.imports, (∀ member : HostMember, i.member ≠ member.ref) ∧
      (host.execute verified cancelAt).2 = .error (.moduleLoad (.unimplemented i.member)) := by
  have hkeyed := PolicyTree.keyed_of_enforce hkeeps haccepted
  rw [execute_eq_prepare_bind cancelAt hloaded]
  obtain ⟨hunreferenced, -⟩ | ⟨-, fault, hlink, herror⟩ | ⟨-, links, hlinked, -⟩ :=
    prepare_cases haccepted host module cancelAt
  · exact absurd hunreferenced (not_exists.mpr hnone)
  · obtain ⟨i, hi, hhost, rfl⟩ := GuestModule.unimplemented_of_link hkeyed hlink
    refine ⟨i, hi, Import.ofMember?_eq_none_iff.mp hhost, ?_⟩
    rw [herror]
    rfl
  · obtain ⟨i, hi, hforeign⟩ := hsome
    obtain ⟨link, -, href⟩ := hlinked.complete_of_keyed hkeyed hi
    exact absurd href (hforeign link.member)

end Execution

/-- A module runs only on verified imports, whatever it was verified for.  Executing it is
admission followed by its own code; an import that no reference is about is a policy
violation found before that code, an import that the host does not offer keeps the module
from being loaded, and what is admitted imports nothing but host members that the policy
allows.  Where rewriters keep the member of a call, the import that the host does not offer
is found while linking, before anything can interrupt the run. -/
theorem execute_verified (haccepted : tree.enforce assembly = .ok verified) (host : Host)
    (cancelAt : Option Nat) (hloaded : (host.load verified.streams.binary).2 = .ok module) :
    (host.execute verified cancelAt).2 =
        (host.prepare module verified.callSites cancelAt).bind (·.execute host.config) ∧
      ((∃ violations, (host.execute verified cancelAt).2 = .error (.policyViolation violations)) ↔
        ∃ member, module.Unreferenced assembly.references member) ∧
      (∀ violations, (host.execute verified cancelAt).2 = .error (.policyViolation violations) →
        module.Reports assembly.references violations ∧
          host.prepare module verified.callSites cancelAt = .error (.policyViolation violations)) ∧
      ((∀ member, ¬ module.Unreferenced assembly.references member) →
        (∃ i ∈ module.imports, ∀ member : HostMember, i.member ≠ member.ref) →
        (∃ fault, (host.execute verified cancelAt).2 = .error (.moduleLoad fault)) ∨
          ∃ interruption : Interruption,
            (host.execute verified cancelAt).2 = .error (interruption.toFailure host.config)) ∧
      (tree.KeepsMembers → (∀ member, ¬ module.Unreferenced assembly.references member) →
        (∃ i ∈ module.imports, ∀ member : HostMember, i.member ≠ member.ref) →
        ∃ i ∈ module.imports, (∀ member : HostMember, i.member ≠ member.ref) ∧
          (host.execute verified cancelAt).2 = .error (.moduleLoad (.unimplemented i.member))) ∧
      (∀ inst, host.prepare module verified.callSites cancelAt = .ok inst → ∀ i ∈ module.imports,
        ∃ member : HostMember, i.member = member.ref ∧ (tree.resolve i.member).isAllowed) ∧
      (assembly.references = module.describeImports → ∀ violations,
        (host.execute verified cancelAt).2 ≠ .error (.policyViolation violations)) := by
  refine ⟨execute_eq_prepare_bind cancelAt hloaded, ⟨?_, ?_⟩, ?_, ?_, ?_, ?_, ?_⟩
  · rintro ⟨violations, h⟩
    apply Classical.byContradiction
    intro hnone
    exact execute_ne_policyViolation haccepted hloaded (not_exists.mp hnone) violations h
  · intro hsome
    obtain ⟨violations, -, -, h⟩ := execute_of_unreferenced haccepted hloaded hsome
    exact ⟨violations, h⟩
  · intro violations h
    by_cases hsome : ∃ member, module.Unreferenced assembly.references member
    · obtain ⟨found, hreports, hprepare, hfound⟩ :=
        execute_of_unreferenced haccepted hloaded hsome
      cases hfound.symm.trans h
      exact ⟨hreports, hprepare⟩
    · exact absurd h
        (execute_ne_policyViolation haccepted hloaded (not_exists.mp hsome) violations)
  · rintro hnone ⟨i, hi, hforeign⟩
    exact execute_of_foreign_import haccepted hloaded hnone hi hforeign
  · exact execute_of_keepsMembers haccepted hloaded
  · intro inst hprepare i hi
    exact isAllowed_of_prepare haccepted hprepare hi
  · intro hsame violations
    apply execute_ne_policyViolation haccepted hloaded
    rw [hsame]
    exact fun member ↦ GuestModule.Unreferenced.of_describeImports

/-- A guest that sleeps and then prints a line. -/
def sleeptalker : Guest where
  script := [.plain (.sleep 10), .writeLine []]

/-- The sleeptalker, compiled by something that saw it only sleep. -/
def sleeptalkerAssembly : Assembly Streams where
  streams := { binary := .script sleeptalker }
  references := [HostMember.sleep.toImport.callSite]

theorem execute_sleeptalker : ∃ tree verified violations,
    PolicyTree.build .bundled PolicyRule.safeDefaults = .ok tree ∧
    tree.enforce sleeptalkerAssembly = .ok verified ∧
    ((Host.new {}).execute verified).2 = .error (.policyViolation violations) ∧
    ⟨HostMember.writeLine.ref, none⟩ ∈ violations := by
  obtain ⟨tree, hbuild, verified, haccepted⟩ :
      ∃ tree, PolicyTree.build .bundled PolicyRule.safeDefaults = .ok tree ∧
        ∃ verified, tree.enforce sleeptalkerAssembly = .ok verified :=
    ⟨_, rfl, _, rfl⟩
  have hstreams : verified.streams = sleeptalkerAssembly.streams :=
    (PolicyTree.verified_of_enforce haccepted).1
  have hloaded : ((Host.new {}).load verified.streams.binary).2 = .ok sleeptalker.assemble := by
    rw [hstreams]
    rfl
  have hprints : sleeptalker.assemble.Unreferenced sleeptalkerAssembly.references
      HostMember.writeLine.ref := ⟨by decide, by decide⟩
  obtain ⟨-, hviolates, hreports, -⟩ := execute_verified haccepted (Host.new {}) none hloaded
  obtain ⟨violations, hexecute⟩ := hviolates.mpr ⟨_, hprints⟩
  obtain ⟨hlisted, -⟩ := hreports violations hexecute
  exact ⟨tree, verified, violations, hbuild, haccepted, hexecute,
    (hlisted.mem_iff _).mpr ⟨rfl, hprints⟩⟩

end Host

end GuestGate
