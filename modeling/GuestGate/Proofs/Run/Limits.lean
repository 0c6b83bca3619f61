import GuestGate.Proofs.Fallible
import GuestGate.Proofs.Run.Capturing
import GuestGate.Proofs.Run.Logging
import GuestGate.Proofs.Run.Recording

/-!
# Results within their limits

A result is what the records of a run keep of its trace: the first characters that fit, the
first events that fit with an exception in the last place if it came later, and the most
memory that was granted.  A fault is the last thing on record, and the host records it once.
-/

namespace GuestGate

/-! ### Taking in a trace -/

/-- The output keeps a first part of what is printed. -/
theorem Output.Captures.note {out : Output} {kept rest : List Char}
    (h : out.Captures kept rest) (es : List Effect) :
    ∃ kept' rest', kept' ++ rest' = kept ++ rest ++ Effect.written es ∧
      (es.foldl Output.note out).Captures kept' rest' := by
  induction es generalizing out kept rest with
  | nil => exact ⟨kept, rest, by simp [Effect.written], h⟩
  | cons e es ih =>
      cases e with
      | printed text =>
          obtain ⟨kept', rest', hsplit, hwritten⟩ := h.write text
          obtain ⟨last, others, hall, hlast⟩ := ih hwritten
          exact ⟨last, others, by simp [hall, hsplit, Effect.written, Effect.text], hlast⟩
      | reported event => exact ih h
      | raised description => exact ih h

@[simp]
theorem Output.limit_note (es : List Effect) (out : Output) :
    (es.foldl Output.note out).limit = out.limit := by
  induction es generalizing out with
  | nil => rfl
  | cons e es ih =>
      rw [List.foldl_cons, ih]
      cases e with
      | printed text => exact limit_write out text
      | reported event => rfl
      | raised description => rfl

namespace FlowLog

variable {log : FlowLog}

/-- What is put on record is text, which is not for this log, or an event: one that is
reported, or the exception that is raised on the current line. -/
theorem note_cases (log : FlowLog) (e : Effect) :
    (log.note e = log ∧ e.isEvent = false ∧ e.lineReached? = none) ∨
      ∃ event, log.note e = log.record event ∧ e.isEvent = true ∧
        event.lineReached? = e.lineReached? := by
  cases e with
  | printed text => exact .inl ⟨rfl, rfl, rfl⟩
  | reported event => exact .inr ⟨event, rfl, rfl, rfl⟩
  | raised description => exact .inr ⟨_, rfl, rfl, rfl⟩

/-- The current line is the line reached last, also when the event was not kept. -/
theorem currentLine_note (es : List Effect) (log : FlowLog) :
    (es.foldl note log).currentLine =
      ((es.filterMap Effect.lineReached?).getLast?).getD log.currentLine := by
  induction es generalizing log with
  | nil => rfl
  | cons e es ih =>
      rw [List.foldl_cons, ih, List.filterMap_cons]
      obtain ⟨hsame, -, hline⟩ | ⟨event, hrecord, -, hline⟩ := note_cases log e
      · rw [hsame, hline]
      · rw [hrecord, currentLine_record, hline]
        cases e.lineReached? with
        | none => rfl
        | some line =>
            rw [List.getLast?_cons]
            cases (es.filterMap Effect.lineReached?).getLast? <;> rfl

/-- A log keeps to its limit and counts the events of a trace that it does not keep. -/
theorem size_note (es : List Effect) (h : log.events.size ≤ log.limit) :
    (es.foldl note log).limit = log.limit ∧ (es.foldl note log).events.size ≤ log.limit ∧
      (es.foldl note log).events.size + (es.foldl note log).dropped =
        log.events.size + log.dropped + es.countP Effect.isEvent := by
  induction es generalizing log with
  | nil => exact ⟨rfl, h, rfl⟩
  | cons e es ih =>
      rw [List.foldl_cons]
      -- text passes the log by; every event is kept or counted by one step
      obtain ⟨hsame, hevent, -⟩ | ⟨event, hrecord, hevent, -⟩ := note_cases log e
      · rw [hsame, List.countP_cons_of_neg (by simp [hevent])]
        exact ih h
      · have hsize := size_record log event
        have hlimit := limit_record log event
        obtain ⟨hlast, hkept, hcount⟩ := ih (hlimit ▸ size_record_le h event)
        rw [hrecord, List.countP_cons_of_pos hevent]
        exact ⟨hlast.trans hlimit, hlimit ▸ hkept, by omega⟩

/-- What is raised at the end of a trace is the last event that is kept. -/
theorem getLast?_note_raised {limit : Nat} (hroom : 1 ≤ limit) (es : List Effect)
    (description : String) :
    ((es ++ [Effect.raised description]).foldl note { limit }).events.toList.getLast? =
      some (.exception (Effect.lastLine es) description) := by
  have hnew : ({ limit } : FlowLog).events.size ≤ ({ limit } : FlowLog).limit := Nat.zero_le _
  obtain ⟨hlimit, hkept, -⟩ := size_note es hnew
  have hline : (es.foldl note { limit }).currentLine = Effect.lastLine es :=
    currentLine_note es { limit }
  rw [List.foldl_append, ← hline]
  exact getLast?_record_exception (hlimit ▸ hroom) (hlimit ▸ hkept) _ description

end FlowLog

/-! ### From the start of a run to its result -/

structure Machine.Fresh (m : Machine) (config : RunConfig) : Prop where
  output : m.output = { limit := config.maxOutputBytes }
  flow : m.flow = { limit := config.maxFlowEvents }
  within : m.limiter.Within config.maxMemory

namespace GuestModule

variable {guest : GuestModule} {config : RunConfig} {m : Machine}

theorem within_requestInitial (guest : GuestModule) (ceiling : Nat) :
    (guest.requestInitial { ceiling }).1.Within ceiling := by
  have hnew : Limiter.Within { ceiling } ceiling := ⟨rfl, Nat.zero_le _⟩
  have htable : ∀ asked : Limiter × Bool, asked.1.Within ceiling →
      (guest.table.elim asked asked.1.growTable).1.Within ceiling := by
    intro asked hasked
    cases guest.table with
    | none => exact hasked
    | some elements => exact hasked.growTable elements
  unfold requestInitial
  -- with the number itself, every check would count up to it
  obtain ⟨size, hsize⟩ : ∃ size, pageSize = size := ⟨_, rfl⟩
  rw [hsize]
  cases guest.memory with
  | none => exact htable _ hnew
  | some memory =>
      have hmemory := hnew.growMemory (memory.pages * size)
      dsimp only [Option.elim_some]
      split
      · exact htable _ hmemory
      · exact hmemory

theorem fresh_of_start (h : guest.start config = .ok m) : m.Fresh config := by
  unfold start at h
  dsimp only at h
  split at h
  · cases h
  split at h
  · cases h
  split at h
  · cases h
  · cases h
    exact ⟨rfl, rfl, within_requestInitial guest config.maxMemory⟩

end GuestModule

def RunStatus.fault? : RunStatus → Option String
  | completed => none
  | faulted description => some description

/-- A result tells what is on record after a trace.  The host has raised one exception, at
its end, if the run has ended with a fault, and none otherwise. -/
structure RunResult.Reports (r : RunResult) (config : RunConfig) (es : List Effect) : Prop where
  stdout : r.stdout = (es.foldl Output.note { limit := config.maxOutputBytes }).text
  outputTruncated :
    r.outputTruncated = (es.foldl Output.note { limit := config.maxOutputBytes }).truncated
  flow : r.flow = (es.foldl FlowLog.note { limit := config.maxFlowEvents }).events.toList
  droppedEvents :
    r.droppedEvents = (es.foldl FlowLog.note { limit := config.maxFlowEvents }).dropped
  peakMemory : r.peakMemory ≤ config.maxMemory
  status : ∃ own, es = own ++ r.status.fault?.toList.map .raised ∧
    ∀ e ∈ own, e.isRaised = false

namespace Machine

variable {config : RunConfig} {r : RunResult} {start m : Machine} {halt : Halt}
  {es : List Effect}

/-- Whatever has stopped a guest that has a result, the exception is raised either by the
host member or now. -/
theorem conclude_eq_ok (h : m.conclude config halt = .ok r) : ∃ status,
    r = { m with flow := halt.finalEffects.foldl FlowLog.note m.flow }.result config status ∧
      status.fault?.toList = halt.raised?.toList ++ halt.fault?.toList := by
  -- a call of guest code inside another one ends the run as its own reason does
  induction halt with
  | exited =>
      cases h
      exact ⟨.completed, rfl, rfl⟩
  | trapped cause =>
      unfold conclude at h
      split at h <;> cases h
      exact ⟨.faulted cause.message, rfl, rfl⟩
  | faulted fault =>
      unfold conclude at h
      split at h <;> cases h
      exact ⟨.faulted fault.message, rfl, rfl⟩
  | rejected rejection =>
      unfold conclude at h
      split at h <;> cases h
      exact ⟨.faulted rejection.message, rfl, rfl⟩
  | outOfFuel =>
      unfold conclude at h
      split at h <;> cases h
  | interrupted interruption => cases h
  | nested halt ih => exact ih h

theorem reports_of_conclude (hfresh : start.Fresh config) (h : Follows start es (.halted m halt))
    (hr : m.conclude config halt = .ok r) : r.Reports config (es ++ halt.finalEffects) := by
  obtain ⟨status, rfl, hstatus⟩ := conclude_eq_ok hr
  obtain ⟨own, hown, hquiet⟩ := h.ends
  have hm : m.output = es.foldl Output.note { limit := config.maxOutputBytes } :=
    hfresh.output ▸ h.output
  have hlog : m.flow = es.foldl FlowLog.note { limit := config.maxFlowEvents } :=
    hfresh.flow ▸ h.flow
  have hprints : ∀ out : Output, halt.finalEffects.foldl Output.note out = out := by
    intro out
    unfold Halt.finalEffects
    cases halt.fault? <;> rfl
  refine ⟨?_, ?_, ?_, ?_, (h.within _ hfresh.within).2, own, ?_, hquiet⟩
  · rw [List.foldl_append, hprints, ← hm]
    rfl
  · rw [List.foldl_append, hprints, ← hm]
    rfl
  · rw [List.foldl_append, ← hlog]
    rfl
  · rw [List.foldl_append, ← hlog]
    rfl
  · have hraised : (Outcome.halted m halt).raised? = halt.raised? := rfl
    rw [hown, hraised, Halt.finalEffects, List.append_assoc, ← List.map_append, ← hstatus]
    rfl

end Machine

theorem Outcome.reports_of_conclude {config : RunConfig} {r : RunResult} {start : Machine}
    {es : List Effect} {o : Outcome} (hfresh : start.Fresh config) (h : Follows start es o)
    (hr : o.conclude config = .ok r) : r.Reports config (es ++ o.finalEffects) := by
  cases o with
  | running m =>
      have hexited : Follows start es (.halted m .exited) := h.congr rfl rfl
      exact Machine.reports_of_conclude hfresh hexited hr
  | halted m halt => exact Machine.reports_of_conclude hfresh h hr

namespace Instance

variable {inst : Instance} {config : RunConfig} {r : RunResult}

theorem enter_eq_ok {m : Machine} {o : Outcome} (h : inst.enter m = .ok o) :
    o = m.tickThen inst (Instr.runAll inst inst.guest.entry.body) := by
  unfold enter at h
  cases hentry : inst.guest.entry with
  | code body =>
      rw [hentry] at h
      exact (Except.ok.inj h).symm
  | missing =>
      rw [hentry] at h
      cases h
  | unusable =>
      rw [hentry] at h
      cases h

/-- A result tells what is on record after the trace of the run. -/
theorem reports_trace (h : inst.execute config = .ok r) :
    r.Reports config (inst.trace config) := by
  obtain ⟨m, hstart, h⟩ := bind_eq_ok_iff.mp h
  obtain ⟨outcome, henter, hconclude⟩ := bind_eq_ok_iff.mp h
  have hbody := Instr.follows_runAll (inst.traces_nest inst.maxNesting)
    (inst.nest inst.maxNesting).guest.entry.body
  have hfollows : Follows m _ (m.tickThen (inst.nest inst.maxNesting) _) :=
    Machine.follows_tickThen hbody
  rw [← enter_eq_ok henter] at hfollows
  have hreports := Outcome.reports_of_conclude (GuestModule.fresh_of_start hstart) hfollows
    hconclude
  rw [enter_eq_ok henter] at hreports
  rwa [trace, hstart]

/-- A result keeps to every limit of its run, says how many events it has left out, and says
that the output was cut exactly if more was printed than there was room for. -/
theorem execute_within_limits (h : inst.execute config = .ok r) :
    r.stdout.utf8ByteSize ≤ config.maxOutputBytes ∧
    r.flow.length ≤ config.maxFlowEvents ∧
    r.flow.length + r.droppedEvents = (inst.trace config).countP Effect.isEvent ∧
    r.peakMemory ≤ config.maxMemory ∧
    (r.outputTruncated = true ↔
      config.maxOutputBytes < Text.byteLength (Effect.written (inst.trace config))) := by
  have hreports := reports_trace h
  obtain ⟨kept, rest, hprinted, hcaptures⟩ :=
    (Output.captures_empty config.maxOutputBytes).note (inst.trace config)
  have hnew : ({ limit := config.maxFlowEvents } : FlowLog).events.size ≤
      ({ limit := config.maxFlowEvents } : FlowLog).limit := Nat.zero_le _
  obtain ⟨-, hkept, hcount⟩ := FlowLog.size_note (inst.trace config) hnew
  refine ⟨?_, ?_, ?_, hreports.peakMemory, ?_⟩
  · simpa [hreports.stdout] using hcaptures.size_text_le
  · simpa [hreports.flow] using hkept
  · simpa [hreports.flow, hreports.droppedEvents] using hcount
  · rw [hreports.outputTruncated, hcaptures.truncated_iff, hprinted]
    simp

def oversleeper : Instance where
  guest := {
    imports := [HostMember.writeLine, .sum, .reportLineStart, .sleep].map HostMember.toImport
    memory := some { pages := 1 }
    data := [104, 195, 169]
    sequences := [{ items := .items [1, 2] }]
    sequenceExport := .usable
    drawCode := [⟨0, 1, [.act (.reportLine 7), .act (.sleep 70000)]⟩]
    entry := .code [.act (.writeLine ⟨0, 3⟩), .act (.drain .sum 0 false)] }
  links := [HostMember.writeLine, .sum, .reportLineStart, .sleep].map fun member ↦
    ⟨member, { member.toImport.callSite with guards := [.limit 0 1000] }⟩
  deadline := 1000000000
  maxNesting := 1

def narrowLimits : RunConfig where
  maxOutputBytes := 2
  maxFlowEvents := 1

theorem execute_oversleeper : oversleeper.execute narrowLimits = .ok {
    status := .faulted (Rejection.sleepOutOfRange 70000).message
    stdout := "h"
    flow := [.exception 7 (Rejection.sleepOutOfRange 70000).message]
    peakMemory := pageSize
    outputTruncated := true
    droppedEvents := 1
    metered := false } :=
  ok_of_toOption (by decide +kernel)

theorem oversleeper_within_limits : ∃ r, oversleeper.execute narrowLimits = .ok r ∧
    r.stdout.utf8ByteSize ≤ 2 ∧
    r.flow.length + r.droppedEvents = (oversleeper.trace narrowLimits).countP Effect.isEvent ∧
    2 < Text.byteLength (Effect.written (oversleeper.trace narrowLimits)) := by
  obtain ⟨hsize, -, hcount, -, htruncated⟩ := execute_within_limits execute_oversleeper
  exact ⟨_, execute_oversleeper, hsize, hcount, htruncated.mp rfl⟩

/-- The host raises one exception in a run that ends with a fault and none in one that
completes.  The exception comes after everything else and is the last event that is kept, on
the line reached last. -/
theorem execute_fault (hroom : 1 ≤ config.maxFlowEvents) (h : inst.execute config = .ok r) :
    r.flow = ((inst.trace config).foldl FlowLog.note { limit := config.maxFlowEvents }).events.toList ∧
    (∀ description, r.status = .faulted description → ∃ own,
      inst.trace config = own ++ [.raised description] ∧ (∀ e ∈ own, e.isRaised = false) ∧
      r.flow.getLast? = some (.exception (Effect.lastLine own) description)) ∧
    (r.status = .completed → ∀ e ∈ inst.trace config, e.isRaised = false) := by
  have hreports := reports_trace h
  obtain ⟨own, htrace, hquiet⟩ := hreports.status
  refine ⟨hreports.flow, ?_, ?_⟩
  · intro description hstatus
    rw [hstatus] at htrace
    refine ⟨own, htrace, hquiet, ?_⟩
    rw [hreports.flow, htrace]
    exact FlowLog.getLast?_note_raised hroom own description
  · intro hstatus
    rw [hstatus] at htrace
    simpa [htrace, RunStatus.fault?] using hquiet

theorem oversleeper_fault : ∃ r own, oversleeper.execute narrowLimits = .ok r ∧
    oversleeper.trace narrowLimits =
      own ++ [.raised (Rejection.sleepOutOfRange 70000).message] ∧
    (∀ e ∈ own, e.isRaised = false) ∧ Effect.lastLine own = 7 := by
  have hroom : 1 ≤ narrowLimits.maxFlowEvents := by decide
  obtain ⟨-, hfault, -⟩ := execute_fault hroom execute_oversleeper
  obtain ⟨own, htrace, hquiet, hlast⟩ := hfault _ rfl
  have hline : (7, (Rejection.sleepOutOfRange 70000).message) =
      (Effect.lastLine own, (Rejection.sleepOutOfRange 70000).message) := by
    simpa using hlast
  exact ⟨_, own, execute_oversleeper, htrace, hquiet, (congrArg Prod.fst hline).symm⟩

end Instance

end GuestGate
