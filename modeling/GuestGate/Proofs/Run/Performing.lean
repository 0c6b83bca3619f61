import GuestGate.Proofs.Run.Moments

/-!
# What a run performs stands in its code

A guest whose code has no action of some kind never performs one: neither in its entry point nor
in code that a host member calls.
-/

namespace GuestGate

/-- No action of a kind is performed. -/
def Avoids (kind : Action → Bool) (moments : List Moment) : Prop :=
  ∀ x ∈ moments, kind x.action = false

variable {kind : Action → Bool}

theorem avoids_nil : Avoids kind [] := nofun

theorem avoids_append_iff {moments moments' : List Moment} :
    Avoids kind (moments ++ moments') ↔ Avoids kind moments ∧ Avoids kind moments' :=
  List.forall_mem_append

theorem avoids_cons_iff {moment : Moment} {moments : List Moment} :
    Avoids kind (moment :: moments) ↔ kind moment.action = false ∧ Avoids kind moments :=
  List.forall_mem_cons

theorem Instr.hasAny_append (code code' : List Instr) :
    hasAny kind (code ++ code') = (hasAny kind code || hasAny kind code') := by
  induction code with
  | nil => simp [hasAny]
  | cons instr rest ih => simp [hasAny, ih, Bool.or_assoc]

theorem Instr.hasAny_flatMap_eq_false_iff {α : Type} {items : List α} {code : α → List Instr} :
    hasAny kind (items.flatMap code) = false ↔ ∀ item ∈ items, hasAny kind (code item) = false := by
  induction items with
  | nil => simp [hasAny]
  | cons item rest ih => simp [hasAny_append, ih]

/-! ### Parts of a run -/

theorem avoids_momentsThen {next : Machine → List Moment} (hnext : ∀ m, Avoids kind (next m))
    (o : Outcome) : Avoids kind (o.momentsThen next) := by
  cases o with
  | running m => exact hnext m
  | halted m halt => exact avoids_nil

theorem avoids_iterateMoments {body : Machine → Outcome} {moments : Machine → List Moment}
    (hmoments : ∀ m, Avoids kind (moments m)) (times : Nat) (m : Machine) :
    Avoids kind (iterateMoments body moments times m) := by
  induction times generalizing m with
  | zero => exact avoids_nil
  | succ times ih => exact avoids_append_iff.mpr ⟨hmoments m, avoids_momentsThen ih (body m)⟩

theorem avoids_drawAllMoments {next : Machine → Machine × Except Halt Int}
    {moments : Machine → List Moment} (hmoments : ∀ m, Avoids kind (moments m)) (room : Nat)
    (m : Machine) : Avoids kind (drawAllMoments next moments room m) := by
  induction room generalizing m with
  | zero =>
      unfold drawAllMoments
      refine avoids_append_iff.mpr ⟨hmoments m, ?_⟩
      split
      · exact avoids_nil
      · split <;> exact avoids_nil
  | succ room ih =>
      unfold drawAllMoments
      refine avoids_append_iff.mpr ⟨hmoments m, ?_⟩
      split
      · exact avoids_nil
      · split
        · exact avoids_nil
        · exact ih _

/-- Code that host members call avoids a kind of actions if it has none. -/
def CallsAvoid (kind : Action → Bool) (nested : List Instr → Machine → List Moment) : Prop :=
  ∀ body m, Instr.hasAny kind body = false → Avoids kind (nested body m)

namespace Machine

variable {inst : Instance} {nested : List Instr → Machine → List Moment}

theorem avoids_tickMoments {next : Machine → List Moment} (hnext : ∀ m, Avoids kind (next m))
    (m : Machine) : Avoids kind (m.tickMoments inst next) := by
  unfold tickMoments
  split
  · exact hnext _
  · exact avoids_nil

section Calls

variable (hnested : CallsAvoid kind nested)
  (hcode : ∀ c ∈ inst.guest.drawCode, Instr.hasAny kind c.body = false)

include hcode in
theorem hasAny_codeAt (sequence place : Nat) :
    Instr.hasAny kind (inst.guest.codeAt sequence place) = false := by
  unfold GuestModule.codeAt
  cases hfound : inst.guest.drawCode.find? fun c ↦ c.sequence == sequence && c.place == place with
  | none => rfl
  | some c => exact hcode c (List.mem_of_find?_eq_some hfound)

include hnested hcode

theorem avoids_drawMoments (sequence : Int) (m : Machine) :
    Avoids kind (drawMoments inst nested sequence m) := by
  unfold drawMoments
  split
  · exact avoids_nil
  split
  · unfold approachMoments
    split
    · exact avoids_nil
    · exact hnested _ _ (hasAny_codeAt hcode _ _)
  · exact avoids_nil

theorem avoids_performMoments {action : Action} (haction : kind action = false) (m : Machine) :
    Avoids kind (m.performMoments inst nested action) := by
  refine avoids_cons_iff.mpr ⟨haction, ?_⟩
  unfold withinMoments
  split
  · split
    · unfold drainMoments
      split
      · exact avoids_nil
      · exact avoids_nil
      · exact avoids_drawAllMoments (avoids_drawMoments hnested hcode _) _ m
    · exact avoids_nil
  · exact avoids_nil

end Calls

end Machine

/-! ### Code -/

namespace Instr

variable {inst : Instance} {nested : List Instr → Machine → List Moment}

mutual

theorem avoids_moments (hnested : CallsAvoid kind nested)
    (hcode : ∀ c ∈ inst.guest.drawCode, hasAny kind c.body = false) :
    ∀ instr : Instr, instr.has kind = false → ∀ m, Avoids kind (moments inst nested instr m)
  | act action, hnone, m => by
      rw [moments]
      rw [has] at hnone
      exact Machine.avoids_tickMoments (Machine.avoids_performMoments hnested hcode hnone) m
  | loop times body, hnone, m => by
      rw [moments]
      rw [has] at hnone
      exact Machine.avoids_tickMoments (avoids_iterateMoments
        (Machine.avoids_tickMoments (avoids_momentsAll hnested hcode body hnone)) times) m

theorem avoids_momentsAll (hnested : CallsAvoid kind nested)
    (hcode : ∀ c ∈ inst.guest.drawCode, hasAny kind c.body = false) :
    ∀ body : List Instr, hasAny kind body = false →
      ∀ m, Avoids kind (momentsAll inst nested body m)
  | [], _, m => by
      rw [momentsAll]
      exact avoids_nil
  | instr :: rest, hnone, m => by
      rw [momentsAll]
      rw [hasAny, Bool.or_eq_false_iff] at hnone
      exact avoids_append_iff.mpr ⟨avoids_moments hnested hcode instr hnone.1 m,
        avoids_momentsThen (avoids_momentsAll hnested hcode rest hnone.2) _⟩

end

end Instr

namespace Instance

variable {inst : Instance}

theorem callsAvoid_nestMoments (hcode : ∀ c ∈ inst.guest.drawCode, Instr.hasAny kind c.body = false)
    (depth : Nat) : CallsAvoid kind (inst.nestMoments depth) := by
  induction depth with
  | zero => exact fun _ _ _ ↦ avoids_nil
  | succ depth ih =>
      intro body m hnone
      rw [← guest_nest inst depth] at hcode
      exact Instr.avoids_momentsAll ih hcode body hnone m

/-- A run performs no action of a kind that its code does not have. -/
theorem avoids_moments (hnone : Instr.hasAny kind inst.guest.code = false) (config : RunConfig) :
    Avoids kind (inst.moments config) := by
  rw [GuestModule.code, Instr.hasAny_append, Bool.or_eq_false_iff,
    Instr.hasAny_flatMap_eq_false_iff] at hnone
  obtain ⟨hentry, hcode⟩ := hnone
  have hnested := callsAvoid_nestMoments hcode inst.maxNesting
  unfold moments
  split
  · exact avoids_nil
  · rw [← guest_nest inst inst.maxNesting] at hentry hcode
    exact Machine.avoids_tickMoments (Instr.avoids_momentsAll hnested hcode _ hentry) _

end Instance

end GuestGate
