import GuestGate.Proofs.Run.Asking
import GuestGate.Proofs.Run.Limits

/-!
# What comes of a refused growth

The limiter remembers a refusal exactly if something that was asked for is too large.  At the
start of a run and where a run stops for a reason this is looked at, and the failure says so.
Where the guest leaves its entry point by itself it is not looked at.
-/

namespace GuestGate

/-! ### What the limiter remembers -/

namespace Limiter

variable (l : Limiter)

@[simp]
theorem ceiling_asked (g : Growth) : (l.asked g).ceiling = l.ceiling := by
  cases g <;> simp only [asked, growMemory, growTable] <;> split <;> rfl

theorem growMemory_eq (bytes : Nat) : l.growMemory bytes =
    (l.asked (.memory bytes), !(Growth.memory bytes).isRefused l.ceiling) := by
  by_cases h : bytes ≤ l.ceiling <;> simp [asked, growMemory, Growth.isRefused, ← Nat.not_le, h]

theorem growTable_eq (elements : Nat) : l.growTable elements =
    (l.asked (.table elements), !(Growth.table elements).isRefused l.ceiling) := by
  by_cases h : elements ≤ tableCeiling <;>
    simp [asked, growTable, Growth.isRefused, ← Nat.not_le, h]

theorem exceeded_asked (g : Growth) :
    (l.asked g).exceeded = (l.exceeded || g.isRefused l.ceiling) := by
  cases g with
  | memory bytes =>
      by_cases h : bytes ≤ l.ceiling <;>
        simp [asked, growMemory, Growth.isRefused, ← Nat.not_le, h]
  | table elements =>
      by_cases h : elements ≤ tableCeiling <;>
        simp [asked, growTable, Growth.isRefused, ← Nat.not_le, h]

/-- A refusal is remembered, whatever is asked for after it. -/
theorem exceeded_foldl_asked (requests : List Growth) (l : Limiter) :
    (requests.foldl asked l).exceeded =
      (l.exceeded || requests.any (Growth.isRefused l.ceiling)) := by
  induction requests generalizing l with
  | nil => simp
  | cons g rest ih =>
      rw [List.foldl_cons, ih, exceeded_asked, ceiling_asked, List.any_cons, Bool.or_assoc]

end Limiter

/-! ### The start of a run -/

namespace GuestModule

variable {guest : GuestModule} {config : RunConfig}

/-- The initial requests are made one after the other, up to the first one that is refused. -/
theorem requestInitial_eq (h : guest.imports.all importAgrees) (l : Limiter) :
    guest.requestInitial l = ((guest.initialRequests l.ceiling).foldl Limiter.asked l,
      !(guest.initialRequests l.ceiling).any (Growth.isRefused l.ceiling)) := by
  unfold requestInitial initialRequests
  -- with the number itself, every check would count up to it
  obtain ⟨size, hsize⟩ : ∃ size, pageSize = size := ⟨_, rfl⟩
  rw [hsize]
  cases guest.memory with
  | none => cases guest.table <;> simp [h, Limiter.growTable_eq]
  | some memory =>
      cases hrefused : Growth.isRefused l.ceiling (.memory (memory.pages * size)) <;>
        cases guest.table <;> simp [h, hrefused, Limiter.growMemory_eq, Limiter.growTable_eq]

theorem limiter_of_start {m : Machine} (h : guest.start config = .ok m) :
    m.limiter = (guest.initialRequests config.maxMemory).foldl Limiter.asked
      { ceiling := config.maxMemory } := by
  unfold start at h
  dsimp only at h
  split at h
  · cases h
  · next himports =>
    split at h
    · cases h
    split at h
    · cases h
    · cases h
      have himports : guest.imports.all importAgrees := by simpa using himports
      rw [requestInitial_eq himports]

theorem start_of_refused {g : Growth} (hg : g ∈ guest.initialRequests config.maxMemory)
    (hrefused : g.isRefused config.maxMemory) :
    guest.start config = .error (.memoryLimitExceeded (.initial config.maxMemory)) := by
  have himports : guest.imports.all importAgrees := by
    cases himports : guest.imports.all importAgrees with
    | true => rfl
    | false => simp [initialRequests, himports] at hg
  have hany : (guest.initialRequests config.maxMemory).any (Growth.isRefused config.maxMemory) :=
    List.any_eq_true.mpr ⟨g, hg, hrefused⟩
  simp [start, himports, requestInitial_eq, hany]

theorem exists_refused_of_start {fault : MemoryFault}
    (h : guest.start config = .error (.memoryLimitExceeded fault)) :
    ∃ g ∈ guest.initialRequests config.maxMemory, g.isRefused config.maxMemory = true := by
  unfold start at h
  dsimp only at h
  split at h
  · cases h
  · next himports =>
    have himports : guest.imports.all importAgrees := by simpa using himports
    split at h
    · next hrefused =>
      rw [requestInitial_eq himports] at hrefused
      simpa using hrefused
    split at h <;> cases h

end GuestModule

/-! ### The end of a run -/

namespace Halt

def returns : Halt → Bool
  | exited => true
  | nested halt => halt.returns
  | _ => false

def interruption? : Halt → Option Interruption
  | interrupted interruption => some interruption
  | nested halt => halt.interruption?
  | _ => none

end Halt

def Outcome.returns : Outcome → Bool
  | running _ => true
  | halted _ halt => halt.returns

/-- A refusal is reported wherever a run stops, except for an interruption.  It is not where
the guest has left its entry point. -/
theorem Machine.conclude_of_exceeded {m : Machine} (h : m.limiter.exceeded = true)
    (config : RunConfig) (halt : Halt) : m.conclude config halt =
      if halt.returns then .ok (m.result config .completed)
      else .error (halt.interruption?.elim (.memoryLimitExceeded (.growth config.maxMemory))
        (Interruption.toFailure config)) := by
  -- a call of guest code inside another one ends the run as its own reason does
  induction halt with
  | nested halt ih => exact ih
  | _ => simp [conclude, Halt.returns, Halt.interruption?, h]

/-- The memory limit is only reported where a refusal is remembered. -/
theorem Machine.exceeded_of_conclude {m : Machine} {config : RunConfig} {halt : Halt}
    {fault : MemoryFault} (h : m.conclude config halt = .error (.memoryLimitExceeded fault)) :
    m.limiter.exceeded = true := by
  induction halt with
  | nested halt ih => exact ih h
  | exited => cases h
  | interrupted interruption => cases interruption <;> cases h
  | _ =>
      unfold conclude at h
      split at h
      · assumption
      · cases h

theorem Outcome.exceeded_of_conclude {o : Outcome} {config : RunConfig} {fault : MemoryFault}
    (h : o.conclude config = .error (.memoryLimitExceeded fault)) :
    o.machine.limiter.exceeded = true := by
  cases o with
  | running m => cases h
  | halted m halt => exact Machine.exceeded_of_conclude h

theorem Outcome.conclude_of_exceeded {o : Outcome} (h : o.machine.limiter.exceeded = true)
    (config : RunConfig) :
    (o.returns = true → ∃ r, o.conclude config = .ok r ∧ r.status = .completed) ∧
      (o.returns = false →
        o.conclude config = .error (.memoryLimitExceeded (.growth config.maxMemory)) ∨
          ∃ i : Interruption, o.conclude config = .error (i.toFailure config)) := by
  cases o with
  | running m => exact ⟨fun _ ↦ ⟨_, rfl, rfl⟩, nofun⟩
  | halted m halt =>
      have hconclude : m.conclude config halt = _ := Machine.conclude_of_exceeded h config halt
      constructor
      · intro hreturns
        exact ⟨_, hconclude.trans (if_pos hreturns), rfl⟩
      · intro hstops
        have hnot : ¬ halt.returns = true := Bool.eq_false_iff.mp hstops
        rw [if_neg hnot] at hconclude
        cases hinterruption : halt.interruption? <;> rw [hinterruption] at hconclude
        · exact .inl hconclude
        · exact .inr ⟨_, hconclude⟩

namespace Instance

variable {inst : Instance} {config : RunConfig}

def outcome (inst : Instance) (config : RunConfig) : Except Failure Outcome := do
  let m ← inst.guest.start config
  (inst.nest inst.maxNesting).enter m

/-- The guest runs until it leaves its entry point by itself. -/
def Returns (inst : Instance) (config : RunConfig) : Prop :=
  ∃ o, inst.outcome config = .ok o ∧ o.returns

theorem execute_eq_bind (inst : Instance) (config : RunConfig) :
    inst.execute config = inst.outcome config >>= Outcome.conclude config := by
  simp [execute, outcome, bind_assoc]

/-- The moments of a run lead from the memory at its start to the memory at its end. -/
theorem exists_leads_of_outcome {o : Outcome} (h : inst.outcome config = .ok o) :
    ∃ m, inst.guest.start config = .ok m ∧
      Leads inst.guest.maxBytes m.holding (inst.moments config) o.machine.holding := by
  obtain ⟨m, hstart, henter⟩ := bind_eq_ok_iff.mp h
  have hbody := Instr.grows_runAll (inst.growsWithin_nest inst.maxNesting)
    (inst.nest inst.maxNesting).guest.entry.body
  have hgrows : Grows _ m _ (m.tickThen (inst.nest inst.maxNesting) _) :=
    Machine.grows_tickThen hbody
  rw [← enter_eq_ok henter, Grows, guest_nest] at hgrows
  refine ⟨m, hstart, ?_⟩
  rw [moments, hstart]
  simpa only [enterMoments, guest_nest] using hgrows

theorem limiter_of_outcome {o : Outcome} (h : inst.outcome config = .ok o) :
    o.machine.limiter = (inst.requests config).foldl Limiter.asked
      { ceiling := config.maxMemory } := by
  obtain ⟨m, hstart, hleads⟩ := exists_leads_of_outcome h
  rw [requests, List.foldl_append, ← GuestModule.limiter_of_start hstart]
  exact hleads.limiter_eq

theorem enterMoments_of_body_nil {nested : List Instr → Machine → List Moment}
    (h : inst.guest.entry.body = []) (m : Machine) : inst.enterMoments nested m = [] := by
  unfold enterMoments Machine.tickMoments
  rw [h]
  split
  · rw [Instr.momentsAll]
  · rfl

theorem exists_outcome_of_mem_moments {x : Moment} (h : x ∈ inst.moments config) :
    ∃ o, inst.outcome config = .ok o := by
  unfold moments at h
  cases hstart : inst.guest.start config with
  | error failure => simp [hstart] at h
  | ok m =>
      rw [hstart] at h
      cases hentry : (inst.nest inst.maxNesting).guest.entry with
      | code body => exact ⟨_, bind_eq_ok_iff.mpr ⟨m, hstart, by rw [enter, hentry]⟩⟩
      | missing => simp [enterMoments_of_body_nil, hentry, Entry.body] at h
      | unusable => simp [enterMoments_of_body_nil, hentry, Entry.body] at h

/-- Where something is refused, either the run does not start for this reason, or the limiter
remembers it at the end of the code. -/
theorem outcome_of_refused {g : Growth} (hg : g ∈ inst.requests config)
    (hrefused : g.isRefused config.maxMemory) :
    inst.outcome config = .error (.memoryLimitExceeded (.initial config.maxMemory)) ∨
      ∃ o, inst.outcome config = .ok o ∧ o.machine.limiter.exceeded = true := by
  rcases List.mem_append.mp hg with hinitial | hmoment
  · left
    rw [outcome, GuestModule.start_of_refused hinitial hrefused]
    rfl
  · right
    -- something has been performed, so the guest was started and has an entry point
    obtain ⟨x, hx, -⟩ := List.mem_filterMap.mp hmoment
    obtain ⟨o, ho⟩ := exists_outcome_of_mem_moments hx
    refine ⟨o, ho, ?_⟩
    rw [limiter_of_outcome ho, Limiter.exceeded_foldl_asked]
    exact Bool.or_eq_true_iff.mpr (.inr (List.any_eq_true.mpr ⟨g, hg, hrefused⟩))

theorem execute_of_refused {g : Growth} (hg : g ∈ inst.requests config)
    (hrefused : g.isRefused config.maxMemory) :
    (inst.Returns config → ∃ r, inst.execute config = .ok r ∧ r.status = .completed) ∧
      (¬ inst.Returns config →
        (∃ fault, inst.execute config = .error (.memoryLimitExceeded fault)) ∨
          ∃ i : Interruption, inst.execute config = .error (i.toFailure config)) := by
  rw [execute_eq_bind]
  rcases outcome_of_refused hg hrefused with hstart | ⟨o, ho, hexceeded⟩
  · rw [hstart]
    refine ⟨?_, fun _ ↦ .inl ⟨_, rfl⟩⟩
    rintro ⟨o, ho, -⟩
    rw [hstart] at ho
    cases ho
  · obtain ⟨hcompletes, hstops⟩ := Outcome.conclude_of_exceeded hexceeded config
    have hreturns : inst.Returns config ↔ o.returns = true := by simp [Returns, ho]
    rw [ho, hreturns]
    refine ⟨hcompletes, fun hnot ↦ ?_⟩
    exact (hstops (Bool.eq_false_iff.mpr hnot)).imp_left fun hfault ↦ ⟨_, hfault⟩

/-- A run in which something is refused fails with the memory limit, whatever the guest does
after it and whatever stops it, unless it is interrupted or leaves its entry point by itself.
A guest that leaves its entry point has a result as if nothing had been refused. -/
theorem refusal_reported_iff {g : Growth} (hg : g ∈ inst.requests config)
    (hrefused : g.isRefused config.maxMemory) :
    ((∃ fault, inst.execute config = .error (.memoryLimitExceeded fault)) ↔
      ¬ inst.Returns config ∧
        ∀ i : Interruption, inst.execute config ≠ .error (i.toFailure config)) ∧
      (inst.Returns config → ∃ r, inst.execute config = .ok r ∧ r.status = .completed) := by
  obtain ⟨hcompletes, hstops⟩ := execute_of_refused hg hrefused
  refine ⟨⟨?_, ?_⟩, hcompletes⟩
  · rintro ⟨fault, hfault⟩
    refine ⟨fun hreturns ↦ ?_, fun i hi ↦ ?_⟩
    · obtain ⟨r, hr, -⟩ := hcompletes hreturns
      rw [hfault] at hr
      cases hr
    · rw [hfault] at hi
      cases i <;> cases hi
  · rintro ⟨hnot, hquiet⟩
    exact (hstops hnot).resolve_right fun ⟨i, hi⟩ ↦ hquiet i hi

def grower (rest : List Instr) : Instance where
  guest := {
    memory := some { pages := 1 }
    entry := .code (.act (.grow 2 true) :: rest) }
  links := []
  deadline := 1000000000
  maxNesting := 1

def twoPages : RunConfig where
  maxMemory := 2 * pageSize

theorem refused_grower (rest : List Instr) :
    ∃ g ∈ (grower rest).requests twoPages, g.isRefused twoPages.maxMemory :=
  ⟨.memory (3 * pageSize), .tail _ (.head _), rfl⟩

/-- A guest that traps after a refusal fails with the memory limit and not with the trap. -/
theorem refusal_reported_at_trap : ∃ g ∈ (grower [.act (.trap .unreachable)]).requests twoPages,
    g.isRefused twoPages.maxMemory ∧ ∃ fault,
      (grower [.act (.trap .unreachable)]).execute twoPages =
        .error (.memoryLimitExceeded fault) := by
  obtain ⟨g, hg, hrefused⟩ := refused_grower [.act (.trap .unreachable)]
  refine ⟨g, hg, hrefused, (refusal_reported_iff hg hrefused).1.mpr ⟨?_, fun i ↦ ?_⟩⟩
  · rintro ⟨o, ho, hreturns⟩
    have hstops : ((grower [.act (.trap .unreachable)]).outcome twoPages).map Outcome.returns =
        .ok false := rfl
    obtain ⟨o', ho', hfalse⟩ := map_eq_ok_iff.mp hstops
    cases ho.symm.trans ho'
    exact absurd hreturns (Bool.eq_false_iff.mp hfalse)
  · cases i <;> nofun

/-- A guest that returns after a refusal has completed. -/
theorem refusal_unreported_on_return : ∃ g ∈ (grower []).requests twoPages,
    g.isRefused twoPages.maxMemory ∧
      ∃ r, (grower []).execute twoPages = .ok r ∧ r.status = .completed := by
  obtain ⟨g, hg, hrefused⟩ := refused_grower []
  exact ⟨g, hg, hrefused, _, rfl, rfl⟩

/-! ### Where a memory limit comes from -/

theorem exists_refused_of_memoryLimitExceeded {fault : MemoryFault}
    (h : inst.execute config = .error (.memoryLimitExceeded fault)) :
    ∃ g ∈ inst.requests config, g.isRefused config.maxMemory = true := by
  rw [execute_eq_bind] at h
  rcases bind_eq_error_iff.mp h with hfailed | ⟨o, ho, hconclude⟩
  · -- the limit is met before the guest runs
    rcases bind_eq_error_iff.mp hfailed with hstart | ⟨m, -, henter⟩
    · obtain ⟨g, hg, hrefused⟩ := GuestModule.exists_refused_of_start hstart
      exact ⟨g, List.mem_append_left _ hg, hrefused⟩
    · unfold enter at henter
      split at henter <;> cases henter
  · have hexceeded := Outcome.exceeded_of_conclude hconclude
    rw [limiter_of_outcome ho, Limiter.exceeded_foldl_asked] at hexceeded
    simpa using hexceeded

/-- A run that fails with the memory limit has asked, at its start or while it went on, for a
memory past the limit or for a table past the elements that a table may have. -/
theorem oversized_of_memoryLimitExceeded {fault : MemoryFault}
    (h : inst.execute config = .error (.memoryLimitExceeded fault)) :
    (∃ bytes, .memory bytes ∈ inst.requests config ∧ config.maxMemory < bytes) ∨
      ∃ elements, .table elements ∈ inst.requests config ∧ Limiter.tableCeiling < elements := by
  obtain ⟨g, hg, hrefused⟩ := exists_refused_of_memoryLimitExceeded h
  cases g with
  | memory bytes => exact .inl ⟨bytes, hg, of_decide_eq_true hrefused⟩
  | table elements => exact .inr ⟨elements, hg, of_decide_eq_true hrefused⟩

/-- A guest that traps after it has asked for more memory than it may have. -/
theorem oversized_grower : ∃ fault,
    (grower [.act (.trap .unreachable)]).execute twoPages =
      .error (.memoryLimitExceeded fault) ∧
    ((∃ bytes, .memory bytes ∈ (grower [.act (.trap .unreachable)]).requests twoPages ∧
        twoPages.maxMemory < bytes) ∨
      ∃ elements, .table elements ∈ (grower [.act (.trap .unreachable)]).requests twoPages ∧
        Limiter.tableCeiling < elements) :=
  ⟨.growth twoPages.maxMemory, rfl, oversized_of_memoryLimitExceeded rfl⟩

def hoarder : Instance where
  guest := {
    table := some 1
    entry := .code [.act (.growTable 10000 true), .act (.trap .unreachable)] }
  links := []
  deadline := 1000000000
  maxNesting := 1

/-- The memory limit is also reported where no memory has been asked for at all. -/
theorem memoryLimit_of_table :
    (∃ fault, hoarder.execute twoPages = .error (.memoryLimitExceeded fault)) ∧
      ¬ ∃ bytes, .memory bytes ∈ hoarder.requests twoPages ∧ twoPages.maxMemory < bytes := by
  have hrequests : hoarder.requests twoPages = [.table 1, .table 10001] := rfl
  exact ⟨⟨.growth twoPages.maxMemory, rfl⟩, by simp [hrequests]⟩

end Instance

end GuestGate
