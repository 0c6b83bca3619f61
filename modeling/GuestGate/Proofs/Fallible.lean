/-!
# Folds that can fail

A fold over a list stops at the first step that fails.  What every step keeps
is kept by the fold, and when a step succeeds exactly if its element agrees
with all elements before it, the fold succeeds exactly if all elements agree.
-/

namespace GuestGate

variable {ε σ ρ : Type}

theorem bind_eq_ok_iff {α β : Type} {first : Except ε α} {next : α → Except ε β} {result : β} :
    (first >>= next) = .ok result ↔ ∃ a, first = .ok a ∧ next a = .ok result := by
  constructor
  · intro h
    cases first with
    | error e => cases h
    | ok a => exact ⟨a, rfl, h⟩
  · rintro ⟨a, rfl, h⟩
    exact h

theorem ok_of_toOption {α : Type} {x : Except ε α} {a : α} (h : x.toOption = some a) :
    x = .ok a := by
  cases x with
  | error e => cases h
  | ok b => exact congrArg Except.ok (Option.some.inj h)

theorem bind_eq_error_iff {α β : Type} {first : Except ε α} {next : α → Except ε β} {e : ε} :
    (first >>= next) = .error e ↔ first = .error e ∨ ∃ a, first = .ok a ∧ next a = .error e := by
  cases first <;> simp [bind, Except.bind]

theorem map_eq_ok_iff {α β : Type} {first : Except ε α} {next : α → β} {result : β} :
    first.map next = .ok result ↔ ∃ a, first = .ok a ∧ next a = result := by
  cases first <;> simp [Except.map]

/-- An invariant of the elements seen so far and the state reached is kept along a fold. -/
theorem foldlM_keeps {step : σ → ρ → Except ε σ} (Inv : List ρ → σ → Prop)
    (hstep : ∀ done state r next, Inv done state → step state r = .ok next →
      Inv (done ++ [r]) next)
    {rules done : List ρ} {state final : σ} (hinv : Inv done state)
    (hfinal : rules.foldlM step state = .ok final) : Inv (done ++ rules) final := by
  induction rules generalizing done state with
  | nil =>
      cases hfinal
      simpa using hinv
  | cons r rest ih =>
      rw [List.foldlM_cons, bind_eq_ok_iff] at hfinal
      obtain ⟨next, hnext, hrest⟩ := hfinal
      simpa using ih (hstep done state r next hinv hnext) hrest

/-- An invariant of the state alone is kept along a fold. -/
theorem foldlM_preserves {step : σ → ρ → Except ε σ} {Inv : σ → Prop}
    (hstep : ∀ state r next, Inv state → step state r = .ok next → Inv next)
    {rules : List ρ} {state final : σ} (hinv : Inv state)
    (hfinal : rules.foldlM step state = .ok final) : Inv final :=
  @foldlM_keeps ε σ ρ step (fun _ reached ↦ Inv reached) (fun _ ↦ hstep) rules [] state final
    hinv hfinal

/-- An invariant is kept together with a part of the state that no step changes. -/
theorem foldlM_keeps_part {τ : Type} {step : σ → ρ → Except ε σ} (Inv : List ρ → σ → Prop)
    (part : σ → τ)
    (hstep : ∀ done state r next, Inv done state → step state r = .ok next →
      Inv (done ++ [r]) next ∧ part next = part state)
    {rules done : List ρ} {state final : σ} (hinv : Inv done state)
    (hfinal : rules.foldlM step state = .ok final) :
    Inv (done ++ rules) final ∧ part final = part state := by
  refine foldlM_keeps (fun seen reached ↦ Inv seen reached ∧ part reached = part state) ?_
    ⟨hinv, rfl⟩ hfinal
  rintro seen reached r next ⟨hreached, hpart⟩ hnext
  obtain ⟨hinv, hsame⟩ := hstep seen reached r next hreached hnext
  exact ⟨hinv, hsame.trans hpart⟩

/-- Every element of a list agrees with every other and with itself. -/
def AgreeAll (Agrees : ρ → ρ → Prop) (rules : List ρ) : Prop :=
  ∀ a ∈ rules, ∀ b ∈ rules, Agrees a b

theorem AgreeAll.nil {Agrees : ρ → ρ → Prop} : AgreeAll Agrees [] := by
  simp [AgreeAll]

theorem AgreeAll.of_subset {Agrees : ρ → ρ → Prop} {rules more : List ρ}
    (h : AgreeAll Agrees more) (hsub : rules ⊆ more) : AgreeAll Agrees rules :=
  fun a ha b hb ↦ h a (hsub ha) b (hsub hb)

/-- For a symmetric relation one more element has to agree with itself and with all
before it. -/
theorem agreeAll_concat_iff {Agrees : ρ → ρ → Prop} (hsymm : ∀ a b, Agrees a b → Agrees b a)
    {rules : List ρ} {r : ρ} :
    AgreeAll Agrees (rules ++ [r]) ↔
      AgreeAll Agrees rules ∧ (∀ a ∈ rules, Agrees a r) ∧ Agrees r r := by
  constructor
  · intro h
    refine ⟨h.of_subset (by simp), fun a ha ↦ ?_, h r (by simp) r (by simp)⟩
    exact h a (by simp [ha]) r (by simp)
  · rintro ⟨hrules, hwith, hself⟩ a ha b hb
    rcases List.mem_append.mp ha with ha | ha <;> rcases List.mem_append.mp hb with hb | hb
    · exact hrules a ha b hb
    · exact List.mem_singleton.mp hb ▸ hwith a ha
    · exact List.mem_singleton.mp ha ▸ hsymm b r (hwith b hb)
    · rw [List.mem_singleton.mp ha, List.mem_singleton.mp hb]
      exact hself

/-- If a step succeeds exactly when its element fits by itself and agrees with all
elements before it, a fold succeeds exactly when all elements fit and all agree. -/
theorem exists_foldlM_eq_ok_iff {step : σ → ρ → Except ε σ} (Inv : List ρ → σ → Prop)
    {Fits : ρ → Prop} {Agrees : ρ → ρ → Prop}
    (hkeep : ∀ done state r next, Inv done state → step state r = .ok next →
      Inv (done ++ [r]) next)
    (hstep : ∀ done state r, Inv done state → AgreeAll Agrees done →
      ((∃ next, step state r = .ok next) ↔ Fits r ∧ AgreeAll Agrees (done ++ [r])))
    {rules done : List ρ} {state : σ} (hinv : Inv done state) (hdone : AgreeAll Agrees done) :
    (∃ final, rules.foldlM step state = .ok final) ↔
      (∀ r ∈ rules, Fits r) ∧ AgreeAll Agrees (done ++ rules) := by
  induction rules generalizing done state with
  | nil =>
      constructor
      · intro _
        simpa using hdone
      · intro _
        exact ⟨state, rfl⟩
  | cons r rest ih =>
      have hrest : ∀ next, step state r = .ok next →
          ((∃ final, rest.foldlM step next = .ok final) ↔
            (∀ r ∈ rest, Fits r) ∧ AgreeAll Agrees (done ++ r :: rest)) := by
        intro next hnext
        have hagree := ((hstep done state r hinv hdone).mp ⟨next, hnext⟩).2
        simpa using ih (hkeep done state r next hinv hnext) hagree
      constructor
      · rintro ⟨final, hfinal⟩
        rw [List.foldlM_cons, bind_eq_ok_iff] at hfinal
        obtain ⟨next, hnext, hfinal⟩ := hfinal
        obtain ⟨hfits, hagree⟩ := (hrest next hnext).mp ⟨final, hfinal⟩
        have hfit := ((hstep done state r hinv hdone).mp ⟨next, hnext⟩).1
        exact ⟨List.forall_mem_cons.mpr ⟨hfit, hfits⟩, hagree⟩
      · rintro ⟨hfits, hagree⟩
        obtain ⟨hfit, hfits⟩ := List.forall_mem_cons.mp hfits
        -- the elements up to this one already agree, so the step itself goes through
        obtain ⟨next, hnext⟩ := (hstep done state r hinv hdone).mpr
          ⟨hfit, hagree.of_subset (by simp)⟩
        obtain ⟨final, hfinal⟩ := (hrest next hnext).mpr ⟨hfits, hagree⟩
        exact ⟨final, by rw [List.foldlM_cons, hnext]; exact hfinal⟩

end GuestGate
