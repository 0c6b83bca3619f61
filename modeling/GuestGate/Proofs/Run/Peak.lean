import GuestGate.Proofs.Run.Performing
import GuestGate.Proofs.Run.Refusal

/-!
# The largest memory of a run

A result reports the largest memory that the limiter has granted.  The limiter is asked before
the guest's own declared maximum is looked at, so this is the largest memory that the guest has
had exactly if it was granted nothing past what it declares.
-/

namespace GuestGate

/-! ### Single requests -/

theorem Moment.bytes_le_of_request? {x : Moment} {bytes : Nat}
    (h : x.request? = some (.memory bytes)) : x.machine.holding.bytes ≤ bytes := by
  unfold Moment.request? at h
  split at h
  · split at h
    · cases h
    · cases h
      exact Nat.mul_le_mul_right _ (Nat.le_add_right _ _)
  · split at h <;> cases h
  · cases h

namespace Limiter

variable (l : Limiter)

theorem peakMemory_asked (g : Growth) : (l.asked g).peakMemory =
    match g with
    | .memory bytes => if bytes ≤ l.ceiling then max l.peakMemory bytes else l.peakMemory
    | .table _ => l.peakMemory := by
  cases g <;> simp only [asked, growMemory, growTable] <;> split <;> rfl

theorem peakMemory_le_asked (g : Growth) : l.peakMemory ≤ (l.asked g).peakMemory := by
  rw [peakMemory_asked]
  split
  · split
    · exact Nat.le_max_left _ _
    · exact Nat.le_refl _
  · exact Nat.le_refl _

theorem peakMemory_le_foldl (requests : List Growth) (l : Limiter) :
    l.peakMemory ≤ (requests.foldl asked l).peakMemory := by
  induction requests generalizing l with
  | nil => exact Nat.le_refl _
  | cons g rest ih => exact Nat.le_trans (l.peakMemory_le_asked g) (ih (l.asked g))

/-- Whatever was granted is below the peak. -/
theorem le_peakMemory_of_mem {requests : List Growth} {bytes : Nat}
    (hmem : .memory bytes ∈ requests) {l : Limiter} (hgranted : bytes ≤ l.ceiling) :
    bytes ≤ (requests.foldl asked l).peakMemory := by
  induction requests generalizing l with
  | nil => cases hmem
  | cons g rest ih =>
      rcases List.mem_cons.mp hmem with rfl | hrest
      · have hpeak : bytes ≤ (l.asked (.memory bytes)).peakMemory := by
          simp only [peakMemory_asked, hgranted, if_true]
          exact Nat.le_max_right _ _
        exact Nat.le_trans hpeak (peakMemory_le_foldl rest _)
      · exact ih hrest (by rwa [ceiling_asked])

end Limiter

/-! ### Along the moments of a run -/

namespace Leads

variable {maximum : Nat} {h last : Holding} {moments : List Moment}

/-- What every request keeps holds at the end. -/
theorem keeps {P : Holding → Prop} (hleads : Leads maximum h moments last)
    (hstep : ∀ h, ∀ x ∈ moments, ∀ g, x.request? = some g → x.machine.holding = h → P h →
      P (h.grow maximum g))
    (hstart : P h) : P last := by
  induction moments generalizing h with
  | nil =>
      cases hleads
      exact hstart
  | cons x rest ih =>
      obtain ⟨hfinds, hrest⟩ := hleads
      have hnext : P (h.after maximum x) := by
        unfold Holding.after
        cases hrequest : x.request? with
        | none => exact hstart
        | some g => exact hstep h x (.head _) g hrequest hfinds hstart
      exact ih hrest (fun h x hx ↦ hstep h x (.tail _ hx)) hnext

theorem bytes_le_grow {x : Moment} {g : Growth} (hrequest : x.request? = some g)
    (hfinds : x.machine.holding = h) : h.bytes ≤ (h.grow maximum g).bytes := by
  cases g with
  | table elements => exact Nat.le_refl _
  | memory bytes =>
      have hlarger := Moment.bytes_le_of_request? hrequest
      rw [hfinds] at hlarger
      dsimp only [Holding.grow]
      split
      · exact hlarger
      · exact Nat.le_refl _

/-- Memory is never given back. -/
theorem bytes_le (hleads : Leads maximum h moments last) : h.bytes ≤ last.bytes :=
  hleads.keeps (P := fun later ↦ h.bytes ≤ later.bytes)
    (fun _ _ _ _ hrequest hfinds hle ↦ Nat.le_trans hle (bytes_le_grow hrequest hfinds))
    (Nat.le_refl _)

/-- The memory at the end is the largest one. -/
theorem bytes_le_of_mem (hleads : Leads maximum h moments last) {x : Moment} (hx : x ∈ moments) :
    x.machine.holding.bytes ≤ last.bytes := by
  induction moments generalizing h with
  | nil => cases hx
  | cons y rest ih =>
      rcases List.mem_cons.mp hx with rfl | hrest
      · rw [hleads.1]
        exact hleads.bytes_le
      · exact ih hleads.2 hrest

theorem bytes_le_maximum (hleads : Leads maximum h moments last) (hstart : h.bytes ≤ maximum) :
    last.bytes ≤ maximum := by
  refine hleads.keeps (P := fun later ↦ later.bytes ≤ maximum) ?_ hstart
  intro h x _ g _ _ hle
  cases g with
  | table elements => exact hle
  | memory bytes =>
      dsimp only [Holding.grow]
      split
      · next hfits => exact hfits.2
      · exact hle

theorem bytes_le_peak (hleads : Leads maximum h moments last)
    (hstart : h.bytes ≤ h.limiter.peakMemory) : last.bytes ≤ last.limiter.peakMemory := by
  refine hleads.keeps (P := fun later ↦ later.bytes ≤ later.limiter.peakMemory) ?_ hstart
  intro h x _ g _ _ hle
  have hpeak : h.bytes ≤ (h.limiter.asked g).peakMemory :=
    Nat.le_trans hle (h.limiter.peakMemory_le_asked g)
  cases g with
  | table elements => exact hpeak
  | memory bytes =>
      dsimp only [Holding.grow]
      split
      · next hfits => exact Limiter.le_peakMemory_of_mem (List.mem_singleton_self _) hfits.1
      · exact hpeak

/-- As long as nothing is granted past the maximum, the peak is the memory that there is. -/
theorem peak_eq_bytes (hleads : Leads maximum h moments last)
    (hdeclared : ∀ bytes, .memory bytes ∈ moments.filterMap Moment.request? →
      bytes ≤ h.limiter.ceiling → bytes ≤ maximum)
    (hstart : h.limiter.peakMemory = h.bytes) : last.limiter.peakMemory = last.bytes := by
  have hend : last.limiter.ceiling = h.limiter.ceiling ∧
      last.limiter.peakMemory = last.bytes := by
    refine hleads.keeps (P := fun later ↦ later.limiter.ceiling = h.limiter.ceiling ∧
      later.limiter.peakMemory = later.bytes) ?_ ⟨rfl, hstart⟩
    rintro later x hx g hrequest hfinds ⟨hceiling, hpeak⟩
    refine ⟨(Limiter.ceiling_asked _ g).trans hceiling, ?_⟩
    cases g with
    | table elements => exact (Limiter.peakMemory_asked _ _).trans hpeak
    | memory bytes =>
        have hlarger := Moment.bytes_le_of_request? hrequest
        rw [hfinds] at hlarger
        have hmem : .memory bytes ∈ moments.filterMap Moment.request? :=
          List.mem_filterMap.mpr ⟨x, hx, hrequest⟩
        have hfits := hdeclared bytes hmem
        rw [← hceiling] at hfits
        dsimp only [Holding.grow]
        rw [Limiter.peakMemory_asked, hpeak]
        by_cases hgranted : bytes ≤ later.limiter.ceiling
        · simp [hgranted, hfits hgranted, hlarger]
        · simp [hgranted]
  exact hend.2

/-- The peak is the memory at the end exactly if nothing was granted past the maximum. -/
theorem peak_eq_bytes_iff (hleads : Leads maximum h moments last) (hmaximum : h.bytes ≤ maximum)
    (hstart : h.limiter.peakMemory = h.bytes) :
    last.limiter.peakMemory = last.bytes ↔
      ∀ bytes, .memory bytes ∈ moments.filterMap Moment.request? →
        bytes ≤ h.limiter.ceiling → bytes ≤ maximum := by
  refine ⟨fun heq bytes hmem hgranted ↦ ?_, fun hdeclared ↦ hleads.peak_eq_bytes hdeclared hstart⟩
  have hpeak := Limiter.le_peakMemory_of_mem hmem hgranted
  rw [← hleads.limiter_eq, heq] at hpeak
  exact Nat.le_trans hpeak (hleads.bytes_le_maximum hmaximum)

end Leads

/-! ### The start of a run -/

theorem MemoryType.pages_le_limit {memory : MemoryType} (h : memory.isValid = true) :
    memory.pages ≤ memory.limit := by
  unfold isValid at h
  unfold limit
  cases hmaximum : memory.maximum <;> simp_all

theorem Limiter.peakMemory_growTable (l : Limiter) (elements : Nat) :
    (l.growTable elements).1.peakMemory = l.peakMemory :=
  l.peakMemory_asked (.table elements)

namespace GuestModule

variable {guest : GuestModule} {config : RunConfig} {m : Machine}

/-- A guest that is granted its initial requests starts with its initial memory as the peak. -/
theorem peakMemory_requestInitial {ceiling : Nat}
    (hgranted : (guest.requestInitial { ceiling }).2 = true) :
    (guest.requestInitial { ceiling }).1.peakMemory = guest.initialSize := by
  have htable : ∀ asked : Limiter × Bool,
      (guest.table.elim asked asked.1.growTable).1.peakMemory = asked.1.peakMemory := by
    intro asked
    cases guest.table with
    | none => rfl
    | some elements => exact asked.1.peakMemory_growTable elements
  unfold requestInitial at hgranted ⊢
  unfold initialSize
  -- with the number itself, every check would count up to it
  obtain ⟨size, hsize⟩ : ∃ size, pageSize = size := ⟨_, rfl⟩
  rw [hsize] at hgranted ⊢
  cases hmemory : guest.memory with
  | none => exact htable _
  | some memory =>
      rw [hmemory] at hgranted
      by_cases hfits : memory.pages * size ≤ ceiling
      · simp [Limiter.growMemory, hfits, htable]
      · simp [Limiter.growMemory, hfits] at hgranted

theorem holding_of_start (h : guest.start config = .ok m) :
    m.holding.bytes = guest.initialSize ∧ m.limiter.peakMemory = guest.initialSize := by
  unfold start at h
  dsimp only at h
  split at h
  · cases h
  split at h
  · cases h
  · next hgranted =>
    split at h
    · cases h
    · cases h
      refine ⟨?_, peakMemory_requestInitial (by simpa using hgranted)⟩
      unfold Machine.holding initialSize
      cases guest.memory with
      | none => exact Nat.zero_mul _
      | some memory => rfl

theorem initialSize_le_maxBytes (h : guest.isValid = true) :
    guest.initialSize ≤ guest.maxBytes := by
  unfold initialSize maxBytes
  cases hmemory : guest.memory with
  | none => exact Nat.zero_le _
  | some memory =>
      have hvalid : memory.isValid = true := by
        simp_all [isValid, isWithinLimits]
      exact Nat.mul_le_mul_right _ (MemoryType.pages_le_limit hvalid)

theorem eq_initialSize_of_mem_initialRequests {ceiling bytes : Nat}
    (h : .memory bytes ∈ guest.initialRequests ceiling) : bytes = guest.initialSize := by
  have hrequest : .memory bytes ∈
      guest.memory.toList.map fun memory ↦ Growth.memory (memory.pages * pageSize) := by
    unfold initialRequests at h
    dsimp only at h
    split at h
    · cases h
    split at h
    · exact h
    · simpa using h
  obtain ⟨memory, hmemory, heq⟩ := List.mem_map.mp hrequest
  cases heq
  rw [initialSize, Option.mem_toList.mp hmemory]
  rfl

theorem type_ne_memory_of_importAgrees {item : Import} (h : importAgrees item = true) :
    item.type ≠ .memory := by
  unfold importAgrees at h
  cases hmember : HostMember.ofMember? item.member with
  | none => simp [hmember] at h
  | some member =>
      have htype : member.externType = item.type := by simpa [hmember] using h
      rw [← htype]
      cases member <;> decide

/-- Without a memory of its own, a guest that starts has nothing in its code that works on one:
host members are functions, so it does not import a memory either. -/
theorem hasAny_usesMemory_of_start (hvalid : guest.isValid = true) (hnone : guest.memory = none)
    (h : guest.start config = .ok m) : Instr.hasAny Action.usesMemory guest.code = false := by
  have himports : guest.imports.all importAgrees = true := by
    unfold start at h
    dsimp only at h
    split at h
    · cases h
    · simp_all
  have hfunctions : guest.importCount .memory = 0 := by
    refine List.countP_eq_zero.mpr fun item hitem ↦ ?_
    simpa using type_ne_memory_of_importAgrees (List.all_eq_true.mp himports item hitem)
  simp_all [isValid, isComplete, memoryCount]

end GuestModule

namespace Instance

variable {inst : Instance} {config : RunConfig} {r : RunResult}

theorem not_requests_memory {m : Machine} (hvalid : inst.guest.isValid = true)
    (hnone : inst.guest.memory = none) (hstart : inst.guest.start config = .ok m) (bytes : Nat) :
    .memory bytes ∉ (inst.moments config).filterMap Moment.request? := by
  intro hmem
  obtain ⟨x, hx, hrequest⟩ := List.mem_filterMap.mp hmem
  have hunused := avoids_moments
    (GuestModule.hasAny_usesMemory_of_start hvalid hnone hstart) config x hx
  unfold Moment.request? at hrequest
  split at hrequest
  · next haction => simp [haction, Action.usesMemory] at hunused
  · split at hrequest <;> cases hrequest
  · cases hrequest

/-- The sizes in bytes that the memory of a guest has in a run: as each action finds it, and at
the end. -/
def memorySizes (inst : Instance) (config : RunConfig) : List Nat :=
  match inst.outcome config with
  | .error _ => []
  | .ok o =>
      (inst.moments config).map (fun x ↦ x.machine.holding.bytes) ++ [o.machine.holding.bytes]

def largestMemory (inst : Instance) (config : RunConfig) : Nat :=
  (inst.memorySizes config).max?.getD 0

theorem largestMemory_eq {o : Outcome} (h : inst.outcome config = .ok o) :
    inst.largestMemory config = o.machine.holding.bytes := by
  obtain ⟨m, -, hleads⟩ := exists_leads_of_outcome h
  have hmax : (inst.memorySizes config).max? = some o.machine.holding.bytes := by
    rw [List.max?_eq_some_iff, memorySizes, h]
    refine ⟨by simp, fun size hsize ↦ ?_⟩
    rcases List.mem_append.mp hsize with hmoment | hend
    · obtain ⟨x, hx, rfl⟩ := List.mem_map.mp hmoment
      exact hleads.bytes_le_of_mem hx
    · exact Nat.le_of_eq (List.mem_singleton.mp hend)
  rw [largestMemory, hmax, Option.getD_some]

theorem peakMemory_of_conclude {o : Outcome} (h : o.conclude config = .ok r) :
    r.peakMemory = o.machine.limiter.peakMemory := by
  cases o with
  | running m =>
      cases h
      rfl
  | halted m halt =>
      obtain ⟨status, rfl, -⟩ := Machine.conclude_eq_ok h
      rfl

/-- The peak in a result is never below the largest memory that the guest has had, and it is
that memory exactly if the guest was granted nothing past the maximum that it declares.  A guest
without memory has a peak of zero. -/
theorem peakMemory_eq_largestMemory_iff (hvalid : inst.guest.isValid = true)
    (h : inst.execute config = .ok r) :
    inst.largestMemory config ≤ r.peakMemory ∧
    (r.peakMemory = inst.largestMemory config ↔
      ∀ bytes, .memory bytes ∈ inst.requests config → bytes ≤ config.maxMemory →
        bytes ≤ inst.guest.maxBytes) ∧
    (inst.guest.memory = none → r.peakMemory = 0 ∧ inst.largestMemory config = 0) := by
  rw [execute_eq_bind] at h
  obtain ⟨o, ho, hconclude⟩ := bind_eq_ok_iff.mp h
  obtain ⟨m, hstart, hleads⟩ := exists_leads_of_outcome ho
  obtain ⟨hbytes, hpeak⟩ := GuestModule.holding_of_start hstart
  have hinitial := GuestModule.initialSize_le_maxBytes hvalid
  have hmaximum : m.holding.bytes ≤ inst.guest.maxBytes := hbytes ▸ hinitial
  have hceiling : m.limiter.ceiling = config.maxMemory :=
    (GuestModule.fresh_of_start hstart).within.1
  have hiff := hleads.peak_eq_bytes_iff hmaximum (hpeak.trans hbytes.symm)
  rw [largestMemory_eq ho, peakMemory_of_conclude hconclude]
  refine ⟨hleads.bytes_le_peak (Nat.le_of_eq (hbytes.trans hpeak.symm)), ?_, ?_⟩
  · refine hiff.trans ⟨fun hdeclared bytes hmem hgranted ↦ ?_, fun hdeclared bytes hmem ↦ ?_⟩
    · rcases List.mem_append.mp hmem with hfirst | hlater
      · rwa [GuestModule.eq_initialSize_of_mem_initialRequests hfirst]
      · exact hdeclared bytes hlater (hceiling ▸ hgranted)
    · rw [← hceiling] at hdeclared
      exact hdeclared bytes (List.mem_append_right _ hmem)
  · intro hnone
    have hzero : o.machine.holding.bytes = 0 := by
      have hle := hleads.bytes_le_maximum hmaximum
      simpa [GuestModule.maxBytes, hnone] using hle
    have hquiet := hiff.mpr fun bytes hmem ↦
      absurd hmem (not_requests_memory hvalid hnone hstart bytes)
    exact ⟨hquiet.trans hzero, hzero⟩

/-- A guest of one page that asks for two more.  It may declare a maximum. -/
def widener (maximum : Option Nat) : Instance where
  guest := {
    memory := some { pages := 1, maximum }
    entry := .code [.act (.grow 2 true)] }
  links := []
  deadline := 1000000000
  maxNesting := 1

/-- Without a declared maximum the guest gets what it is granted. -/
theorem peakMemory_widener : ∃ r, (widener none).execute {} = .ok r ∧
    r.peakMemory = (widener none).largestMemory {} := by
  have hrequests : (widener none).requests {} =
      [.memory (1 * pageSize), .memory (3 * pageSize)] := rfl
  refine ⟨_, rfl, (peakMemory_eq_largestMemory_iff rfl rfl).2.1.mpr fun bytes hmem _ ↦ ?_⟩
  have hsizes : bytes = 1 * pageSize ∨ bytes = 3 * pageSize := by simpa [hrequests] using hmem
  rcases hsizes with rfl | rfl <;> decide

/-- With a maximum of two pages it stays at one page, and the result reports three. -/
theorem peakMemory_past_declared : ∃ r, (widener (some 2)).execute {} = .ok r ∧
    r.peakMemory = 3 * pageSize ∧ (widener (some 2)).largestMemory {} = 1 * pageSize :=
  ⟨_, rfl, rfl, rfl⟩

end Instance

end GuestGate
