import GuestGate.Language.Registry
import GuestGate.Request.Update

/-!
# Unsafe code is only looked at

A target is recorded in one place and what it means for the code in another, and a session that
has no target yet counts as one to be run.  Whatever options a client sends, refused ones and lists
that break off among them, the two places agree, so the host is never called for a session that
allows unsafe code.
-/

namespace GuestGate

/-- What a client does to its session between two requests. -/
inductive SessionEvent
  | option (name value : String)
  | options (pairs : List (String × String))
  | text (text : String)
deriving DecidableEq, Repr

namespace Session

variable {s t : Session}

/-- The session after an event.  An option that is refused changes nothing. -/
def take (s : Session) : SessionEvent → Session
  | .option name value =>
      match s.applyOption name value with
      | .ok (t, _) => t
      | .error _ => s
  | .options pairs => (s.applyOptions pairs).1
  | .text text => { s with text }

/-- A C# session that allows unsafe code exactly if it is not to be run. -/
structure Guarded (s : Session) : Prop where
  language : s.language = .csharp
  allows : s.options.allowUnsafe = true ↔ s.effectiveTarget ≠ Target.run

theorem guarded_start (shared : SharedOptions) :
    (start .csharp (Language.csharp.defaults shared)).Guarded := by
  refine ⟨rfl, ?_⟩
  change false = true ↔ Target.run ≠ Target.run
  simp

theorem Guarded.setOptimization (h : s.Guarded) (level : OptimizationLevel) :
    (s.setOptimization level).Guarded := by
  refine ⟨h.language, ?_⟩
  have hoptions : (s.setOptimization level).options =
      { s.options with optimization := level } := by
    simp only [Session.setOptimization, h.language, Language.optionsAtLevel]
  rw [hoptions]
  exact h.allows

/-- A new target is recorded and acted upon at once, so nothing is left of the old one. -/
theorem Guarded.setTarget (h : s.Guarded) (target : String) : (s.setTarget target).Guarded := by
  refine ⟨h.language, ?_⟩
  have hoptions : (s.setTarget target).options =
      Language.csharp.optionsForTarget target s.options := by
    simp only [Session.setTarget, adjustToTarget, h.language]
  have htarget : (s.setTarget target).effectiveTarget = target := rfl
  rw [hoptions, htarget]
  exact decide_eq_true_iff

theorem applyOption_cases {name value : String} {known : Bool}
    (h : s.applyOption name value = .ok (t, known)) :
    (∃ level, t = s.setOptimization level) ∨ t = s.setTarget value ∨ t = s := by
  unfold applyOption at h
  split at h
  · cases hlevel : levelOfValue value with
    | error failure =>
        rw [hlevel] at h
        cases h
    | ok level =>
        rw [hlevel] at h
        cases h
        exact .inl ⟨level, rfl⟩
  · split at h
    · cases h
      exact .inr (.inl rfl)
    · cases h
      exact .inr (.inr rfl)

theorem Guarded.applyOption {name value : String} {known : Bool} (h : s.Guarded)
    (hok : s.applyOption name value = .ok (t, known)) : t.Guarded := by
  rcases applyOption_cases hok with ⟨level, rfl⟩ | rfl | rfl
  · exact h.setOptimization level
  · exact h.setTarget value
  · exact h

/-- Options in front of one that is refused stay applied, so the list is gone through one by
one. -/
theorem Guarded.applyOptions (h : s.Guarded) (pairs : List (String × String)) :
    (s.applyOptions pairs).1.Guarded := by
  induction pairs generalizing s with
  | nil => exact h
  | cons pair rest ih =>
      obtain ⟨name, value⟩ := pair
      rw [Session.applyOptions]
      cases hfirst : s.applyOption name value with
      | error failure => exact h
      | ok result =>
          obtain ⟨t, known⟩ := result
          exact ih (h.applyOption hfirst)

theorem Guarded.take (h : s.Guarded) (event : SessionEvent) : (s.take event).Guarded := by
  cases event with
  | option name value =>
      rw [Session.take]
      split
      · next t known hok => exact h.applyOption hok
      · exact h
  | options pairs => exact h.applyOptions pairs
  | text text => exact ⟨h.language, h.allows⟩

theorem Guarded.foldl_take (h : s.Guarded) (events : List SessionEvent) :
    (events.foldl Session.take s).Guarded := by
  induction events generalizing s with
  | nil => exact h
  | cons event events ih => exact ih (h.take event)

theorem language_name_csharp_iff {language : Language} :
    language.name = Language.csharp.name ↔ language = .csharp := by
  cases language <;> decide

theorem guarded_of_startSession {r r' : Registry}
    (h : r.startSession Language.csharp.name = .ok (r', s)) : s.Guarded := by
  unfold Registry.startSession Registry.defaults Registry.language at h
  cases hfind : r.languages.find? fun language ↦ language.name == Language.csharp.name with
  | none =>
      rw [hfind] at h
      cases h
  | some language =>
      have hname : language.name = Language.csharp.name := by
        simpa using List.find?_some hfind
      obtain rfl := language_name_csharp_iff.mp hname
      rw [hfind] at h
      cases h
      exact guarded_start r.shared

end Session

namespace Pipeline

variable {p : Pipeline} {session : Session} {host : Option Host} {signal : CancelSignal}

theorem host_notMem_inspect (verified : VerifiedAssembly Streams) :
    .host ∉ (p.inspect session host verified).calls := by
  unfold inspect
  split
  · exact List.not_mem_nil
  · simp

theorem host_notMem_proceed (htarget : session.effectiveTarget ≠ Target.run)
    (compilation : Compilation) : .host ∉ (p.proceed session host compilation signal).calls := by
  unfold proceed
  split
  · exact List.not_mem_nil
  · next verified _ =>
      rw [deliver, if_neg htarget]
      exact host_notMem_inspect verified

/-- Only a session that is to be run gets to the host. -/
theorem effectiveTarget_of_host_called (h : .host ∈ (p.update session host signal).calls) :
    session.effectiveTarget = Target.run := by
  apply Decidable.byContradiction
  intro htarget
  -- the request itself may set the mark of a cancelled session, but never the target
  have hmarked : ∀ cancelled, ({ session with cancelled } : Session).effectiveTarget ≠
      Target.run := fun _ ↦ htarget
  unfold update at h
  dsimp only at h
  split at h
  · cases h
  · rcases List.mem_cons.mp h with hcompiler | hdelivered
    · cases hcompiler
    · exact host_notMem_proceed (hmarked _) _ hdelivered

end Pipeline

namespace Session

/-- Whatever a client sends, a C# session allows unsafe code exactly if it is not one to be run,
and so in no session that gets to the host. -/
theorem allowUnsafe_iff_inspected {r r' : Registry} {s : Session}
    (h : r.startSession Language.csharp.name = .ok (r', s)) (events : List SessionEvent) :
    let t := events.foldl take s
    (t.options.allowUnsafe = true ↔ t.effectiveTarget ≠ Target.run) ∧
    (t.target = some Target.run ∨ t.target = none → t.options.allowUnsafe = false) ∧
    ∀ (p : Pipeline) host signal, .host ∈ (p.update t host signal).calls →
      t.options.allowUnsafe = false := by
  intro t
  have hguarded : t.Guarded := (guarded_of_startSession h).foldl_take events
  have hrun : t.effectiveTarget = Target.run → t.options.allowUnsafe = false := by
    intro htarget
    apply Bool.eq_false_iff.mpr
    intro hunsafe
    exact hguarded.allows.mp hunsafe htarget
  refine ⟨hguarded.allows, ?_, ?_⟩
  · intro htarget
    apply hrun
    rcases htarget with hset | hnone
    · rw [effectiveTarget, hset, Option.getD_some]
    · rw [effectiveTarget, hnone, Option.getD_none]
  · intro p host signal hcalled
    exact hrun (Pipeline.effectiveTarget_of_host_called hcalled)

/-- The list breaks off at a level that there is none of, behind the target that ends the
permission. -/
theorem allowUnsafe_of_broken_list :
    ∃ r' s, ({} : Registry).startSession Language.csharp.name = .ok (r', s) ∧
      let t := [.option Session.targetOption "IL", .text "unsafe class C { }",
        .options [(Session.targetOption, Target.run), (Session.optimizeOption, "max"),
          (Session.targetOption, "IL")]].foldl take s
      t.target = some Target.run ∧ t.options.allowUnsafe = false := by
  refine ⟨_, _, rfl, rfl, ?_⟩
  exact (allowUnsafe_iff_inspected (r := {}) rfl _).2.1 (.inl rfl)

end Session

end GuestGate
