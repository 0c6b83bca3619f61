import GuestGate.Proofs.Run.Trace

/-!
# Records follow the trace

What a part of a run does to the output and to the log of events is to take in the trace of
the part, one effect after another, and the memory that is granted stays below the ceiling.
This is shown for each action, and then for all code by induction on it; code that host
members call is taken in by induction on how deep the calls lie inside each other.
-/

namespace GuestGate

/-! ### Records after a part of a run -/

/-- A limiter has a ceiling and has granted no more memory than that. -/
def Limiter.Within (l : Limiter) (ceiling : Nat) : Prop :=
  l.ceiling = ceiling ∧ l.peakMemory ≤ ceiling

theorem Limiter.Within.growMemory {l : Limiter} {ceiling : Nat} (h : l.Within ceiling)
    (desired : Nat) : (l.growMemory desired).1.Within ceiling := by
  unfold Limiter.growMemory
  split
  · next hgranted => exact ⟨h.1, Nat.max_le.mpr ⟨h.2, h.1 ▸ hgranted⟩⟩
  · exact h

theorem Limiter.Within.growTable {l : Limiter} {ceiling : Nat} (h : l.Within ceiling)
    (desired : Nat) : (l.growTable desired).1.Within ceiling := by
  unfold Limiter.growTable
  split <;> exact h

/-- Part of a run starts at a machine, has a trace and comes to an outcome.  The host raises
nothing before the end of the trace, and there only what stops the guest. -/
structure Follows (m : Machine) (effects : List Effect) (o : Outcome) : Prop where
  output : o.machine.output = effects.foldl Output.note m.output
  flow : o.machine.flow = effects.foldl FlowLog.note m.flow
  within : ∀ ceiling, m.limiter.Within ceiling → o.machine.limiter.Within ceiling
  ends : ∃ own, effects = own ++ o.raised?.toList.map .raised ∧ ∀ e ∈ own, e.isRaised = false

def Instance.Traces (inst : Instance) (nested : List Instr → Machine → List Effect) : Prop :=
  ∀ body m, Follows m (nested body m) (inst.callGuest body m)

section Follows

variable {m m' : Machine} {es es' : List Effect} {o : Outcome}

theorem Follows.append (h : Follows m es (.running m')) (h' : Follows m' es' o) :
    Follows m (es ++ es') o where
  output := by rw [List.foldl_append, ← h.output]; exact h'.output
  flow := by rw [List.foldl_append, ← h.flow]; exact h'.flow
  within ceiling hwithin := h'.within ceiling (h.within ceiling hwithin)
  ends := by
    obtain ⟨own, hes, hown⟩ := h.ends
    obtain ⟨own', hes', hown'⟩ := h'.ends
    -- the first part goes on, so nothing has been raised in it
    have hrunning : es = own := by simpa [Outcome.raised?] using hes
    refine ⟨own ++ own', by rw [hrunning, hes', List.append_assoc], fun e he ↦ ?_⟩
    exact (List.mem_append.mp he).elim (hown e) (hown' e)

theorem Follows.andThen {next : Machine → Outcome} {nextEffects : Machine → List Effect}
    (h : Follows m es o) (hnext : ∀ m', Follows m' (nextEffects m') (next m')) :
    Follows m (es ++ o.effectsThen nextEffects) (o.andThen next) := by
  cases o with
  | running m' => exact h.append (hnext m')
  | halted m' halt => simpa [Outcome.effectsThen] using h

/-- A part of a run that leaves the records alone. -/
theorem Follows.of_same (houtput : o.machine.output = m.output) (hflow : o.machine.flow = m.flow)
    (hlimiter : o.machine.limiter = m.limiter) (hraised : o.raised? = none) : Follows m [] o where
  output := houtput
  flow := hflow
  within _ hwithin := by rwa [hlimiter]
  ends := ⟨[], by simp [hraised], nofun⟩

/-- Only the last state and what has been raised matter, not the form of the outcome. -/
theorem Follows.congr {o' : Outcome} (h : Follows m es o) (hmachine : o'.machine = o.machine)
    (hraised : o'.raised? = o.raised?) : Follows m es o' where
  output := by rw [hmachine]; exact h.output
  flow := by rw [hmachine]; exact h.flow
  within := by rw [hmachine]; exact h.within
  ends := by rw [hraised]; exact h.ends

theorem Follows.refl (m : Machine) : Follows m [] (.running m) :=
  .of_same rfl rfl rfl rfl

theorem Follows.halted {halt : Halt} (h : halt.raised? = none) :
    Follows m [] (.halted m halt) :=
  .of_same rfl rfl rfl h

/-- The guest leaves something on record and goes on. -/
theorem Follows.running (hraised : ∀ e ∈ es, e.isRaised = false) : Follows m es (.running { m with
    output := es.foldl Output.note m.output, flow := es.foldl FlowLog.note m.flow }) where
  output := rfl
  flow := rfl
  within _ := id
  ends := ⟨es, by simp [Outcome.raised?], hraised⟩

theorem Follows.reject (m : Machine) (rejection : Rejection) :
    Follows m [.raised rejection.message] (m.reject rejection) where
  output := rfl
  flow := rfl
  within _ := id
  ends := ⟨[], rfl, nofun⟩

end Follows

theorem Drain.result_eq_error {member : Drain} {items : List Int} {halt : Halt}
    (h : member.result items = .error halt) :
    halt = .faulted .countTooLarge ∨ halt = .rejected .sumOverflow := by
  have hcount : ∀ n, countResult n = .error halt → halt = .faulted .countTooLarge := by
    intro n hn
    unfold countResult at hn
    split at hn <;> cases hn
    rfl
  cases member with
  | sum =>
      dsimp only [Drain.result] at h
      split at h <;> cases h
      exact .inr rfl
  | count => exact .inl (hcount _ h)
  | createSet => exact .inl (hcount _ h)

theorem Machine.same_of_tick {inst : Instance} {m m' : Machine} (h : m.tick inst = .ok m') :
    Follows m [] (.running m') := by
  unfold tick at h
  split at h
  · cases h
  split at h
  · cases h
  · cases h
    exact .of_same rfl rfl rfl rfl

theorem Machine.raised?_of_tick {inst : Instance} {m : Machine} {halt : Halt}
    (h : m.tick inst = .error halt) : halt.raised? = none := by
  unfold tick at h
  split at h
  · cases h
    rfl
  split at h <;> cases h
  rfl

namespace Machine

variable {inst : Instance} {m : Machine}

theorem follows_tickThen {next : Machine → Outcome} {nextEffects : Machine → List Effect}
    (hnext : ∀ m', Follows m' (nextEffects m') (next m')) :
    Follows m (m.tickEffects inst nextEffects) (m.tickThen inst next) := by
  unfold tickEffects tickThen
  cases htick : m.tick inst with
  | error halt => exact .halted (raised?_of_tick htick)
  | ok m' => exact (same_of_tick htick).append (hnext m')

theorem follows_call {member : HostMember} {next : Link → Outcome}
    {nextEffects : Link → List Effect} (hnext : ∀ link, Follows m (nextEffects link) (next link)) :
    Follows m (callEffects inst member nextEffects) (m.call inst member next) := by
  unfold callEffects call
  cases inst.link? member with
  | none => exact .halted rfl
  | some link => exact hnext link

theorem follows_withText {span : Span} {next : List Char → Outcome}
    {nextEffects : List Char → List Effect}
    (hnext : ∀ text, Follows m (nextEffects text) (next text)) :
    Follows m (m.textEffects inst span nextEffects) (m.withText inst span next) := by
  unfold textEffects withText
  cases m.readText inst span with
  | error fault => exact .halted rfl
  | ok text => exact hnext text

theorem follows_printUnless (inst : Instance) (m : Machine) (silent : Bool) (n : Int) :
    Follows m (m.printEffects inst silent n) (m.printUnless inst silent n) := by
  unfold printEffects printUnless print
  split
  · exact .refl m
  split
  · exact .halted rfl
  split
  · exact .halted rfl
  · exact .running (by simp [Effect.printedLine, Effect.isRaised])

theorem follows_wait (inst : Instance) (m : Machine) (nanos : Nat) :
    Follows m [] (m.wait inst nanos) := by
  unfold wait
  split <;> exact .of_same rfl rfl rfl rfl

theorem follows_spin (inst : Instance) (m : Machine) : Follows m [] (m.spin inst) := by
  unfold spin
  split
  · dsimp only
    split
    · exact .of_same rfl rfl rfl rfl
    · exact follows_wait inst m _
  · exact follows_wait inst m _

theorem follows_growMemory (inst : Instance) (m : Machine) (pages : Nat) :
    Follows m [] (.running (m.growMemory inst pages).1) := by
  unfold growMemory
  split
  · exact .refl m
  · split
    next limiter granted hgrown =>
    have hwithin : ∀ ceiling, m.limiter.Within ceiling → limiter.Within ceiling := fun _ h ↦ by
      simpa [hgrown] using h.growMemory ((m.pages + pages) * pageSize)
    split <;> exact ⟨rfl, rfl, hwithin, [], rfl, nofun⟩

theorem follows_growTable (m : Machine) (elements : Nat) :
    Follows m [] (.running (m.growTable elements).1) := by
  unfold growTable
  split
  · exact .refl m
  · split
    next limiter granted hgrown =>
    have hwithin : ∀ ceiling, m.limiter.Within ceiling → limiter.Within ceiling := fun _ h ↦ by
      simpa [hgrown] using h.growTable (m.elements + elements)
    split <;> exact ⟨rfl, rfl, hwithin, [], rfl, nofun⟩

/-! ### Drawing -/

def drawOutcome : Machine × Except Halt Int → Outcome
  | (m, .ok _) => .running m
  | (m, .error halt) => .halted m halt

def drawAllOutcome : Machine × Drawn Halt → Outcome
  | (m, .failed halt) => .halted m halt
  | (m, _) => .running m

theorem follows_give (s : Sequence) (sequence : Nat) (m : Machine) :
    Follows m [] (drawOutcome (m.give s sequence)) := by
  unfold give
  dsimp only
  split
  · exact .halted rfl
  split <;> exact .of_same rfl rfl rfl rfl

variable {nested : List Instr → Machine → List Effect}

section Calls

variable (hnested : inst.Traces nested)

include hnested

theorem follows_approach (sequence : Nat) (m : Machine) :
    Follows m (approachEffects inst nested sequence m) (m.approach inst sequence) := by
  unfold approachEffects approach
  cases inst.guest.codeAt sequence (m.cursors.getD sequence 0) with
  | nil => exact .refl m
  | cons instr rest =>
      have hbody := hnested (instr :: rest) m
      dsimp only
      split
      · -- code that leaves early has raised nothing
        next m' hexited =>
        rw [hexited] at hbody
        exact hbody.congr rfl rfl
      · exact hbody

theorem follows_draw (sequence : Int) (m : Machine) :
    Follows m (drawEffects inst nested sequence m) (drawOutcome (m.draw inst sequence)) := by
  unfold drawEffects draw
  cases htick : m.tick inst with
  | error halt => exact .halted (raised?_of_tick htick)
  | ok m' =>
      have hstart := same_of_tick htick
      dsimp only
      cases inst.guest.sequences[sequence.toNat]? with
      | none => exact hstart
      | some s =>
          cases decide (0 ≤ sequence) with
          | false => exact hstart
          | true =>
              have happroach := hstart.append (follows_approach hnested sequence.toNat m')
              dsimp only
              cases hcall : m'.approach inst sequence.toNat with
              | running u =>
                  rw [hcall] at happroach
                  simpa using happroach.append (follows_give s sequence.toNat u)
              | halted u halt =>
                  rw [hcall] at happroach
                  exact happroach.congr rfl rfl

end Calls

theorem follows_drawAll {next : Machine → Machine × Except Halt Int}
    {effects : Machine → List Effect} (hnext : ∀ m, Follows m (effects m) (drawOutcome (next m)))
    (room : Nat) (taken : Array Int) (m : Machine) :
    Follows m (drawAllEffects next effects room m)
      (drawAllOutcome (drawAll next room taken m)) := by
  -- on the room that is left: one more draw, and it is the last unless it gives an item
  induction room generalizing taken m with
  | zero =>
      have hdraw := hnext m
      unfold drawAllEffects drawAll
      rcases hresult : next m with ⟨m', halt | item⟩ <;> rw [hresult] at hdraw
      · rw [List.append_nil]
        exact hdraw
      · dsimp only
        rw [ite_self, List.append_nil]
        split <;> exact hdraw
  | succ room ih =>
      have hdraw := hnext m
      unfold drawAllEffects drawAll
      rcases hresult : next m with ⟨m', halt | item⟩ <;> rw [hresult] at hdraw
      · rw [List.append_nil]
        exact hdraw
      · dsimp only
        split
        · rw [List.append_nil]
          exact hdraw
        · exact hdraw.append (ih _ m')

theorem follows_drain (hnested : inst.Traces nested)
    (m : Machine) (link : Link) (member : Drain) (sequence : Int) (silent : Bool) :
    Follows m (drainEffects inst nested m link member sequence silent)
      (m.drain inst link member sequence silent) := by
  unfold drainEffects drain compute
  cases inst.guest.sequenceExport with
  | missing => exact .halted rfl
  | wrongType => exact .halted rfl
  | usable =>
      have hall := follows_drawAll (follows_draw hnested sequence) link.sequenceLimit #[] m
      rcases hdrawn : drawAll (draw inst sequence) link.sequenceLimit #[] m with
        ⟨m', items | _ | halt⟩ <;> rw [hdrawn] at hall <;> dsimp only
      · cases hresult : member.result items with
        | ok n => exact hall.append (follows_printUnless inst m' silent n)
        | error halt =>
            obtain rfl | rfl := Drain.result_eq_error hresult
            · exact hall.append (.halted rfl)
            · exact hall.append (.reject m' .sumOverflow)
      · exact hall.append (.reject m' (.tooManyItems link.sequenceLimit))
      · rw [List.append_nil]
        exact hall

/-! ### Actions and code -/

theorem follows_perform (hnested : inst.Traces nested)
    (m : Machine) (action : Action) :
    Follows m (performEffects inst nested m action) (m.perform inst action) := by
  cases action with
  | write text =>
      exact follows_call fun _ ↦ follows_withText fun text ↦ .running (by simp [Effect.isRaised])
  | writeLine text =>
      exact follows_call fun _ ↦ follows_withText fun text ↦
        .running (by simp [Effect.printedLine, Effect.isRaised])
  | reportLine line => exact follows_call fun _ ↦ .running (by simp [Effect.isRaised])
  | reportValue line expression value =>
      exact follows_call fun _ ↦ follows_withText fun expression ↦ follows_withText fun value ↦
        .running (by simp [Effect.isRaised])
  | reportException line description =>
      exact follows_call fun _ ↦ follows_withText fun description ↦
        .running (by simp [Effect.isRaised])
  | drain member sequence silent =>
      exact follows_call fun link ↦ follows_drain hnested m link member _ silent
  | sleep millis =>
      -- a sleep that is too long is refused by the host, which is on record
      refine follows_call fun link ↦ ?_
      split
      · exact follows_wait inst m _
      · exact .reject m _
  | grow pages silent =>
      exact (follows_growMemory inst m (unsigned32 pages)).append
        (follows_printUnless inst _ silent _)
  | growTable elements silent =>
      exact (follows_growTable m (unsigned32 elements)).append
        (follows_printUnless inst _ silent _)
  | exit => exact .halted rfl
  | spin => exact follows_spin inst m
  | trap cause => exact .halted rfl
  | callFirst => exact .halted rfl

theorem follows_iterate {body : Machine → Outcome} {effects : Machine → List Effect}
    (hbody : ∀ m, Follows m (effects m) (body m)) (times : Nat) (m : Machine) :
    Follows m (iterateEffects body effects times m) (iterate body times m) := by
  induction times generalizing m with
  | zero => exact .refl m
  | succ times ih => exact (hbody m).andThen ih

end Machine

namespace Instr

variable {inst : Instance} {nested : List Instr → Machine → List Effect}

mutual

theorem follows_run (hnested : inst.Traces nested) :
    ∀ (instr : Instr) (m : Machine),
      Follows m (effects inst nested instr m) (run inst instr m)
  | act action, m => by
      rw [effects, run]
      exact Machine.follows_tickThen fun m' ↦ Machine.follows_perform hnested m' action
  | loop times body, m => by
      rw [effects, run]
      exact Machine.follows_tickThen <| Machine.follows_iterate
        (fun m' ↦ Machine.follows_tickThen (follows_runAll hnested body)) times

theorem follows_runAll (hnested : inst.Traces nested) :
    ∀ (body : List Instr) (m : Machine),
      Follows m (effectsAll inst nested body m) (runAll inst body m)
  | [], m => by
      rw [effectsAll, runAll]
      exact .refl m
  | instr :: rest, m => by
      rw [effectsAll, runAll]
      exact (follows_run hnested instr m).andThen (follows_runAll hnested rest)

end

end Instr

/-- Code that host members call leaves its trace on record, however deep the calls lie
inside each other. -/
theorem Instance.traces_nest (inst : Instance) (depth : Nat) :
    (inst.nest depth).Traces (inst.nestEffects depth) := by
  induction depth with
  | zero => exact fun body m ↦ .halted rfl
  | succ depth ih => exact Instr.follows_runAll ih

end GuestGate
