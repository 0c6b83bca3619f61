import GuestGate.Proofs.Policy.Rewriting

/-!
# Rewriters one after another

Rewriters are applied in order, each to what those before it have left.  A sequence is copied by
the first copying rewriter and is no sequence for the later ones; a count stays a count, gets a
guard from every rewriter of counts, and its first guard is the one that is looked up.  Either
way the first rewriter that is about a parameter sets the bound on it.
-/

namespace GuestGate

namespace ProvidedRewriter

/-- The call site after all rewriters, the first of the list first. -/
def applyAll (rewriters : List ProvidedRewriter) (site : CallSite) : CallSite :=
  rewriters.foldl (fun site rewriter ↦ rewriter.applyTo site) site

@[simp]
theorem applyAll_nil (site : CallSite) : applyAll [] site = site := rfl

@[simp]
theorem applyAll_cons (rewriter : ProvidedRewriter) (rewriters : List ProvidedRewriter)
    (site : CallSite) :
    applyAll (rewriter :: rewriters) site = applyAll rewriters (rewriter.applyTo site) := rfl

def itemBound? : ProvidedRewriter → Option Nat
  | collected maxItems => some maxItems
  | noGuard | count _ => none

def countBound? : ProvidedRewriter → Option Int
  | count max => some max
  | noGuard | collected _ => none

def guard? (rewriter : ProvidedRewriter) (i : Nat) : ParamShape → Option Guard
  | .sequence => rewriter.itemBound?.map (Guard.materialize i)
  | .count => rewriter.countBound?.map (Guard.limit i)
  | .value | .materialized => none

/-- The shape of a parameter after a rewriter. -/
def shapeAfter : ProvidedRewriter → ParamShape → ParamShape
  | collected _ => materializeShape
  | noGuard | count _ => id

/-! ### One rewriter -/

theorem guardFor?_applyTo (rewriter : ProvidedRewriter) (site : CallSite) (i : Nat) :
    (rewriter.applyTo site).guardFor? i =
      (site.guardFor? i).or (site.parameters[i]?.bind (rewriter.guard? i)) := by
  cases rewriter with
  | noGuard =>
      have hnone : noGuard.guard? i = fun _ ↦ none := by
        funext shape
        cases shape <;> rfl
      simp [hnone]
  | collected n =>
      rw [guardFor?_collected]
      rcases site.parameters[i]? with _ | shape
      · simp
      · cases shape <;> simp [guard?, itemBound?, countBound?]
  | count n =>
      rw [guardFor?_count]
      rcases site.parameters[i]? with _ | shape
      · simp
      · cases shape <;> simp [guard?, itemBound?, countBound?]

theorem getElem?_parameters_applyTo (rewriter : ProvidedRewriter) (site : CallSite) (i : Nat) :
    (rewriter.applyTo site).parameters[i]? = site.parameters[i]?.map rewriter.shapeAfter := by
  cases rewriter <;> simp [applyTo, shapeAfter]

theorem shapeAfter_of_guard?_eq_none {rewriter : ProvidedRewriter} {i : Nat} {shape : ParamShape}
    (h : rewriter.guard? i shape = none) : rewriter.shapeAfter shape = shape := by
  cases rewriter with
  | noGuard | count => rfl
  | collected =>
      cases shape with
      | sequence => simp [guard?, itemBound?] at h
      | value | count | materialized => rfl

theorem parameter_lt_of_mem_applyTo {rewriter : ProvidedRewriter} {site : CallSite}
    (h : ∀ guard ∈ site.guards, guard.parameter < site.parameters.length) :
    ∀ guard ∈ (rewriter.applyTo site).guards, guard.parameter < site.parameters.length := by
  have hadded (shape : ParamShape) (make : Nat → Guard) (hmake : ∀ i, (make i).parameter = i) :
      ∀ guard ∈ site.guards ++ (site.positions shape).map make,
        guard.parameter < site.parameters.length := by
    intro guard hguard
    rcases List.mem_append.mp hguard with hold | hnew
    · exact h guard hold
    · obtain ⟨i, hi, rfl⟩ := List.mem_map.mp hnew
      rw [hmake]
      exact (List.getElem?_eq_some_iff.mp (CallSite.mem_positions.mp hi)).1
  cases rewriter with
  | noGuard => exact h
  | collected n => exact hadded .sequence (Guard.materialize · n) fun _ ↦ rfl
  | count n => exact hadded .count (Guard.limit · n) fun _ ↦ rfl

/-! ### All rewriters -/

variable (rewriters : List ProvidedRewriter) (site : CallSite)

@[simp]
theorem applyAll_member : (applyAll rewriters site).member = site.member := by
  induction rewriters generalizing site with
  | nil => rfl
  | cons rewriter rest ih => rw [applyAll_cons, ih, applyTo_member]

@[simp]
theorem applyAll_line : (applyAll rewriters site).line = site.line := by
  induction rewriters generalizing site with
  | nil => rfl
  | cons rewriter rest ih => rw [applyAll_cons, ih, applyTo_line]

@[simp]
theorem length_applyAll_parameters :
    (applyAll rewriters site).parameters.length = site.parameters.length := by
  induction rewriters generalizing site with
  | nil => rfl
  | cons rewriter rest ih => rw [applyAll_cons, ih, length_applyTo_parameters]

theorem parameter_lt_of_mem_applyAll {rewriters : List ProvidedRewriter} {site : CallSite}
    (h : ∀ guard ∈ site.guards, guard.parameter < site.parameters.length) :
    ∀ guard ∈ (applyAll rewriters site).guards, guard.parameter < site.parameters.length := by
  induction rewriters generalizing site with
  | nil => exact h
  | cons rewriter rest ih =>
      rw [applyAll_cons, ← length_applyTo_parameters rewriter site]
      refine ih fun guard hguard ↦ ?_
      rw [length_applyTo_parameters]
      exact parameter_lt_of_mem_applyTo h guard hguard

/-- The first rewriter that has a guard for a parameter sets it; only a guard that stood there
before comes first. -/
theorem guardFor?_applyAll (i : Nat) :
    (applyAll rewriters site).guardFor? i = (site.guardFor? i).or
      (site.parameters[i]?.bind fun shape ↦ rewriters.findSome? (·.guard? i shape)) := by
  induction rewriters generalizing site with
  | nil => simp
  | cons rewriter rest ih =>
      rw [applyAll_cons, ih, guardFor?_applyTo, getElem?_parameters_applyTo, Option.or_assoc]
      congr 1
      cases site.parameters[i]? with
      | none => rfl
      | some shape =>
          simp only [Option.bind_some, Option.map_some, List.findSome?_cons]
          cases hguard : rewriter.guard? i shape with
          | some guard => rfl
          -- without a guard the shape stays too, so the others find what this one found
          | none => simp [shapeAfter_of_guard?_eq_none hguard]

theorem isSome_itemBound?_iff :
    (rewriters.findSome? itemBound?).isSome ↔ ∃ n, collected n ∈ rewriters := by
  rw [List.isSome_findSome?, List.any_eq_true]
  constructor
  · rintro ⟨rewriter, hmem, hbound⟩
    cases rewriter with
    | collected n => exact ⟨n, hmem⟩
    | noGuard | count => simp [itemBound?] at hbound
  · rintro ⟨n, hmem⟩
    exact ⟨_, hmem, rfl⟩

theorem getElem?_parameters_applyAll (i : Nat) :
    (applyAll rewriters site).parameters[i]? = site.parameters[i]?.map fun shape ↦
      if (rewriters.findSome? itemBound?).isSome then materializeShape shape else shape := by
  induction rewriters generalizing site with
  | nil => simp
  | cons rewriter rest ih =>
      rw [applyAll_cons, ih, getElem?_parameters_applyTo, Option.map_map]
      congr 1
      funext shape
      cases rewriter with
      | noGuard | count => simp [shapeAfter, itemBound?]
      | collected n => cases shape <;> simp [shapeAfter, itemBound?, materializeShape]

theorem applyAll_materialized_iff (i : Nat) :
    (applyAll rewriters site).parameters[i]? = some .materialized ↔
      site.parameters[i]? = some .materialized ∨
        site.parameters[i]? = some .sequence ∧ ∃ n, collected n ∈ rewriters := by
  rw [getElem?_parameters_applyAll, ← isSome_itemBound?_iff]
  generalize (rewriters.findSome? itemBound?).isSome = copied
  rcases site.parameters[i]? with _ | shape
  · simp
  · cases copied <;> cases shape <;> simp [materializeShape]

theorem getElem?_applyAll_of_ne {i : Nat}
    (h : (applyAll rewriters site).parameters[i]? ≠ some .materialized) :
    (applyAll rewriters site).parameters[i]? = site.parameters[i]? := by
  rw [getElem?_parameters_applyAll] at h ⊢
  generalize (rewriters.findSome? itemBound?).isSome = copied at h ⊢
  generalize site.parameters[i]? = before at h ⊢
  rcases before with _ | shape
  · rfl
  · cases copied <;> cases shape <;> simp_all [materializeShape]

/-! ### On a call site without guards -/

variable {site}

/-- What is found at a parameter depends on its first shape and on the first rewriter that is
about this shape. -/
theorem guardFor?_applyAll_of_bare (hbare : site.guards = []) (i : Nat) :
    (applyAll rewriters site).guardFor? i =
      match site.parameters[i]? with
      | some .sequence => (rewriters.findSome? itemBound?).map (Guard.materialize i)
      | some .count => (rewriters.findSome? countBound?).map (Guard.limit i)
      | _ => none := by
  rw [guardFor?_applyAll, CallSite.guardFor?_of_bare hbare, Option.none_or]
  rcases site.parameters[i]? with _ | shape
  · rfl
  · cases shape <;> simp [guard?, List.map_findSome?, Function.comp_def]

theorem materializeLimit?_applyAll (hbare : site.guards = []) (i : Nat) :
    (applyAll rewriters site).materializeLimit? i =
      if site.parameters[i]? = some .sequence then rewriters.findSome? itemBound? else none := by
  rw [CallSite.materializeLimit?, guardFor?_applyAll_of_bare rewriters hbare]
  rcases site.parameters[i]? with _ | shape
  · rfl
  · cases shape with
    | sequence => cases rewriters.findSome? itemBound? <;> rfl
    | count => cases rewriters.findSome? countBound? <;> rfl
    | value | materialized => rfl

theorem countLimit?_applyAll (hbare : site.guards = []) (i : Nat) :
    (applyAll rewriters site).countLimit? i =
      if site.parameters[i]? = some .count then rewriters.findSome? countBound? else none := by
  rw [CallSite.countLimit?, guardFor?_applyAll_of_bare rewriters hbare]
  rcases site.parameters[i]? with _ | shape
  · rfl
  · cases shape with
    | sequence => cases rewriters.findSome? itemBound? <;> rfl
    | count => cases rewriters.findSome? countBound? <;> rfl
    | value | materialized => rfl

/-- On a call site without guards rewriters change shapes and guards only.  Exactly the sequences
become buffers, as soon as one rewriter copies.  What was a sequence is bounded by the first
copying rewriter, a count by the first rewriter of counts, and nothing else is bounded. -/
theorem applyAll_of_bare (hbare : site.guards = []) :
    (applyAll rewriters site).member = site.member ∧
    (applyAll rewriters site).line = site.line ∧
    (applyAll rewriters site).parameters.length = site.parameters.length ∧
    (∀ i : Nat, (applyAll rewriters site).parameters[i]? = some .materialized ↔
      site.parameters[i]? = some .materialized ∨
        site.parameters[i]? = some .sequence ∧ ∃ n, collected n ∈ rewriters) ∧
    (∀ i : Nat, (applyAll rewriters site).parameters[i]? ≠ some .materialized →
      (applyAll rewriters site).parameters[i]? = site.parameters[i]?) ∧
    (∀ i : Nat, (applyAll rewriters site).materializeLimit? i =
      if site.parameters[i]? = some .sequence then rewriters.findSome? itemBound? else none) ∧
    (∀ i : Nat, (applyAll rewriters site).countLimit? i =
      if site.parameters[i]? = some .count then rewriters.findSome? countBound? else none) ∧
    ∀ guard ∈ (applyAll rewriters site).guards,
      guard.parameter < (applyAll rewriters site).parameters.length := by
  refine ⟨applyAll_member rewriters site, applyAll_line rewriters site,
    length_applyAll_parameters rewriters site, applyAll_materialized_iff rewriters site,
    fun _ ↦ getElem?_applyAll_of_ne rewriters site, materializeLimit?_applyAll rewriters hbare,
    countLimit?_applyAll rewriters hbare, ?_⟩
  rw [length_applyAll_parameters]
  exact parameter_lt_of_mem_applyAll (by simp [hbare])

/-- Of two bounds of each kind the first ones hold. -/
theorem applyAll_searchCall :
    let rewriters := [count 250, collected 5, noGuard, count 20, collected 90]
    (applyAll rewriters (searchCall [])).parameters[1]? = some .materialized ∧
      (applyAll rewriters (searchCall [])).materializeLimit? 1 = some 5 ∧
      (applyAll rewriters (searchCall [])).countLimit? 0 = some 250 := by
  intro rewriters
  have hbare : (searchCall []).guards = [] := rfl
  obtain ⟨-, -, -, hmaterialized, -, hitems, hcount, -⟩ := applyAll_of_bare rewriters hbare
  exact ⟨(hmaterialized 1).mpr (.inr ⟨rfl, 5, by decide⟩), hitems 1, hcount 0⟩

end ProvidedRewriter

end GuestGate
