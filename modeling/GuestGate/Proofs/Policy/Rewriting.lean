import GuestGate.Policy.Rewriter

/-!
# What a rewriter leaves on a call site

A rewriter puts its guards after those that are there, and a parameter has the first guard that
is on it.  On a call site without guards the bound of a rewriter is found again at exactly the
parameters of the shape that the rewriter is about; a guard that stands there already keeps the
bound from taking effect, unless it is a bound of the same kind that is no looser.
-/

namespace GuestGate

/-- Guards that were put on a list of parameters are found at these parameters. -/
theorem find?_map_guard {guard : Nat → Guard} (hguard : ∀ i, (guard i).parameter = i)
    (positions : List Nat) (i : Nat) :
    (positions.map guard).find? (fun g ↦ g.parameter == i) =
      if i ∈ positions then some (guard i) else none := by
  induction positions with
  | nil => simp
  | cons j rest ih =>
      rw [List.map_cons, List.find?_cons, hguard, ih]
      by_cases hj : j = i
      · simp [hj]
      · have hne : i ≠ j := fun h ↦ hj h.symm
        simp [beq_false_of_ne hj, hne]

/-- New guards are found where there was none. -/
theorem guardFor?_of_positions {site after : CallSite} {shape : ParamShape} {guard : Nat → Guard}
    (hguard : ∀ i, (guard i).parameter = i)
    (hafter : after.guards = site.guards ++ (site.positions shape).map guard) (i : Nat) :
    after.guardFor? i = (site.guardFor? i).or
      (if site.parameters[i]? = some shape then some (guard i) else none) := by
  simp only [CallSite.guardFor?, hafter, List.find?_append, find?_map_guard hguard,
    CallSite.mem_positions]

theorem CallSite.guardFor?_of_bare {site : CallSite} (h : site.guards = []) (i : Nat) :
    site.guardFor? i = none := by
  simp [guardFor?, h]

namespace ProvidedRewriter

variable (site : CallSite)

theorem guardFor?_collected (n i : Nat) : ((collected n).applyTo site).guardFor? i =
    (site.guardFor? i).or
      (if site.parameters[i]? = some .sequence then some (.materialize i n) else none) := by
  have hguards : ((collected n).applyTo site).guards =
      site.guards ++ (site.positions .sequence).map (Guard.materialize · n) := rfl
  exact guardFor?_of_positions (fun _ ↦ rfl) hguards i

theorem guardFor?_count (n : Int) (i : Nat) : ((count n).applyTo site).guardFor? i =
    (site.guardFor? i).or
      (if site.parameters[i]? = some .count then some (.limit i n) else none) := by
  have hguards : ((count n).applyTo site).guards =
      site.guards ++ (site.positions .count).map (Guard.limit · n) := rfl
  exact guardFor?_of_positions (fun _ ↦ rfl) hguards i

variable {site}

theorem materializeLimit?_collected (hbare : site.guards = []) (n i : Nat) :
    ((collected n).applyTo site).materializeLimit? i =
      if site.parameters[i]? = some .sequence then some n else none := by
  rw [CallSite.materializeLimit?, guardFor?_collected, CallSite.guardFor?_of_bare hbare,
    Option.none_or]
  by_cases h : site.parameters[i]? = some .sequence <;> simp [h]

theorem countLimit?_count (hbare : site.guards = []) (n : Int) (i : Nat) :
    ((count n).applyTo site).countLimit? i =
      if site.parameters[i]? = some .count then some n else none := by
  rw [CallSite.countLimit?, guardFor?_count, CallSite.guardFor?_of_bare hbare, Option.none_or]
  by_cases h : site.parameters[i]? = some .count <;> simp [h]

/-- A call with one parameter of each guarded shape. -/
def probe (m : MemberRef) : CallSite :=
  { member := m, parameters := [.sequence, .count] }

/-- The probe tells apart what goes by one name. -/
theorem eq_of_applyTo_probe {m : MemberRef} {r r' : ProvidedRewriter} (hname : r.name = r'.name)
    (h : r.applyTo (probe m) = r'.applyTo (probe m)) : r = r' := by
  have hcollected (n : Nat) :
      ((collected n).applyTo (probe m)).materializeLimit? 0 = some n :=
    materializeLimit?_collected rfl n 0
  have hcount (n : Int) : ((count n).applyTo (probe m)).countLimit? 1 = some n :=
    countLimit?_count rfl n 1
  cases r with
  | noGuard =>
      cases r' with
      | noGuard => rfl
      | _ => simp [name] at hname
  | collected n =>
      cases r' with
      | collected n' =>
          have hbound := hcollected n
          rw [h, hcollected n'] at hbound
          rw [Option.some.inj hbound]
      | _ => simp [name] at hname
  | count n =>
      cases r' with
      | count n' =>
          have hbound := hcount n
          rw [h, hcount n'] at hbound
          rw [Option.some.inj hbound]
      | _ => simp [name] at hname

/-! ### Guards that were there before -/

/-- A bound on counts takes effect at a parameter exactly if there was no guard on it, or the
first one was a bound on counts that is no looser. -/
theorem countLimit?_count_iff {i : Nat} (h : site.parameters[i]? = some .count) (n : Int) :
    (∃ m ≤ n, ((count n).applyTo site).countLimit? i = some m) ↔
      site.guardFor? i = none ∨ ∃ m ≤ n, site.countLimit? i = some m := by
  have hafter := guardFor?_count site n i
  rw [if_pos h] at hafter
  unfold CallSite.countLimit?
  cases hfirst : site.guardFor? i with
  | none => simp [hafter, hfirst]
  | some guard => simp [hafter, hfirst]

/-- A bound on items takes effect at a parameter exactly if there was no guard on it, or the
first one was a bound on items that is no looser. -/
theorem materializeLimit?_collected_iff {i : Nat} (h : site.parameters[i]? = some .sequence)
    (n : Nat) :
    (∃ m ≤ n, ((collected n).applyTo site).materializeLimit? i = some m) ↔
      site.guardFor? i = none ∨ ∃ m ≤ n, site.materializeLimit? i = some m := by
  have hafter := guardFor?_collected site n i
  rw [if_pos h] at hafter
  unfold CallSite.materializeLimit?
  cases hfirst : site.guardFor? i with
  | none => simp [hafter, hfirst]
  | some guard => simp [hafter, hfirst]

/-- The bound of a rewriter takes effect at a parameter of its shape exactly if no guard stood on
it, or the first guard there was a bound of the same kind that is no looser. -/
theorem bound_takes_effect_iff (site : CallSite) (i : Nat) :
    (site.parameters[i]? = some .count → ∀ n : Int,
      (∃ m ≤ n, ((count n).applyTo site).countLimit? i = some m) ↔
        site.guardFor? i = none ∨ ∃ m ≤ n, site.countLimit? i = some m) ∧
    (site.parameters[i]? = some .sequence → ∀ n : Nat,
      (∃ m ≤ n, ((collected n).applyTo site).materializeLimit? i = some m) ↔
        site.guardFor? i = none ∨ ∃ m ≤ n, site.materializeLimit? i = some m) :=
  ⟨countLimit?_count_iff, materializeLimit?_collected_iff⟩

/-- A call with a count and a sequence, and with some guards. -/
def searchCall (guards : List Guard) : CallSite where
  member := ⟨"Clock", "Log", "Search"⟩
  parameters := [.count, .sequence]
  guards := guards

/-- A tighter bound stays, and a parameter without guards gets the new one. -/
theorem bound_takes_effect_searchCall :
    (∃ m ≤ 20, ((count 20).applyTo (searchCall [.limit 0 5])).countLimit? 0 = some m) ∧
      ∃ m ≤ 20, ((collected 20).applyTo (searchCall [.limit 0 5])).materializeLimit? 1 = some m :=
  ⟨((bound_takes_effect_iff _ 0).1 rfl 20).mpr (.inr ⟨5, by decide, rfl⟩),
    ((bound_takes_effect_iff _ 1).2 rfl 20).mpr (.inl rfl)⟩

/-- A looser bound and a bound of the other kind both keep the new one from taking effect. -/
theorem bound_kept_off_searchCall :
    (¬ ∃ m ≤ 20, ((count 20).applyTo (searchCall [.limit 0 250])).countLimit? 0 = some m) ∧
      ¬ ∃ m ≤ 20,
        ((collected 20).applyTo (searchCall [.limit 1 5])).materializeLimit? 1 = some m := by
  have hloose : ((count 20).applyTo (searchCall [.limit 0 250])).countLimit? 0 = some 250 := rfl
  have hother :
      ((collected 20).applyTo (searchCall [.limit 1 5])).materializeLimit? 1 = none := rfl
  simp [hloose, hother]

end ProvidedRewriter

/-- A rewriter is one of those that are provided. -/
def Rewriter.IsProvided (rewriter : Rewriter) : Prop :=
  ∃ provided : ProvidedRewriter, provided.toRewriter = rewriter

@[simp]
theorem ProvidedRewriter.isProvided (rewriter : ProvidedRewriter) :
    rewriter.toRewriter.IsProvided :=
  ⟨rewriter, rfl⟩

@[simp]
theorem Rewriter.isProvided_count (max : Int) : (count max).IsProvided :=
  ⟨.count max, rfl⟩

end GuestGate
