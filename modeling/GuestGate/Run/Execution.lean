import GuestGate.Failure
import GuestGate.Run.Config
import GuestGate.Run.Machine

/-!
# Executions

A linked guest is started within its limits, its entry point is run, and what
comes of it is either a result or a failure.  A guest that traps has a result;
one that is interrupted or meets a limit has none.
-/

namespace GuestGate

inductive RunStatus
  | completed
  /-- The guest raised an exception, or a guard refused a call. -/
  | faulted (description : String)
deriving DecidableEq, Repr

structure RunResult where
  status : RunStatus
  stdout : String
  flow : List FlowEvent
  /-- The largest memory that was granted, in bytes. -/
  peakMemory : Nat
  outputTruncated : Bool
  droppedEvents : Nat
  /-- Whether there was a fuel budget. -/
  metered : Bool
deriving DecidableEq, Repr

def RunResult.isSuccess (result : RunResult) : Bool :=
  result.status == .completed

def Interruption.toFailure (config : RunConfig) : Interruption → Failure
  | deadline => .timeout config.timeout
  | cancelled => .cancelled

namespace GuestModule

/-- Whether an import has the type of the host member it means. -/
def importAgrees (item : Import) : Bool :=
  (HostMember.ofMember? item.member).any fun member ↦ member.externType == item.type

def requestInitial (m : GuestModule) (limiter : Limiter) : Limiter × Bool :=
  let asked := m.memory.elim (limiter, true) fun memory ↦
    limiter.growMemory (memory.pages * pageSize)
  if asked.2 then m.table.elim asked asked.1.growTable else asked

def initialSize (m : GuestModule) : Nat :=
  m.memory.elim 0 fun memory ↦ memory.pages * pageSize

/-- A guest at its start.  The types of its imports are looked at first, then
its memory is asked for, and then its own start is made. -/
def start (m : GuestModule) (config : RunConfig) : Except Failure Machine :=
  let asked := m.requestInitial { ceiling := config.maxMemory }
  if !m.imports.all importAgrees then .error (.moduleLoad .instantiation)
  else if !asked.2 then .error (.memoryLimitExceeded (.initial config.maxMemory))
  else if m.initialSize < m.data.length || m.startTraps then
    .error (.moduleLoad .instantiation)
  else
    .ok {
      limiter := asked.1
      output := { limit := config.maxOutputBytes }
      flow := { limit := config.maxFlowEvents }
      fuel := config.maxFuel
      pages := m.memory.elim 0 MemoryType.pages
      elements := m.table.getD 0
      cursors := m.sequences.map fun _ ↦ 0 }

end GuestModule

namespace Instance

def enter (inst : Instance) (m : Machine) : Except Failure Outcome :=
  match inst.guest.entry with
  | .code body => .ok (m.tickThen inst (Instr.runAll inst body))
  | .missing | .unusable => .error (.moduleLoad .entryPoint)

end Instance

namespace Machine

def result (m : Machine) (config : RunConfig) (status : RunStatus) : RunResult where
  status := status
  stdout := m.output.text
  flow := m.flow.events.toList
  peakMemory := m.limiter.peakMemory
  outputTruncated := m.output.truncated
  droppedEvents := m.flow.dropped
  metered := config.maxFuel.isSome

/-- The result of a guest with a fault that is not recorded yet. -/
def faultResult (m : Machine) (config : RunConfig) (description : String) : RunResult :=
  { m with flow := m.flow.recordFault description }.result config (.faulted description)

/-- What comes of a guest that stopped for a reason.  An interruption goes
before a refused growth, and that before the reason itself. -/
def conclude (m : Machine) (config : RunConfig) : Halt → Except Failure RunResult
  | .exited => .ok (m.result config .completed)
  | .interrupted interruption => .error (interruption.toFailure config)
  | .outOfFuel =>
      if m.limiter.exceeded then .error (.memoryLimitExceeded (.growth config.maxMemory))
      else .error (.outOfFuel config.maxFuel)
  | .rejected rejection =>
      if m.limiter.exceeded then .error (.memoryLimitExceeded (.growth config.maxMemory))
      else .ok (m.result config (.faulted rejection.message))
  | .trapped cause =>
      if m.limiter.exceeded then .error (.memoryLimitExceeded (.growth config.maxMemory))
      else .ok (m.faultResult config cause.message)
  | .faulted fault =>
      if m.limiter.exceeded then .error (.memoryLimitExceeded (.growth config.maxMemory))
      else .ok (m.faultResult config fault.message)
  | .nested halt => m.conclude config halt

end Machine

def Outcome.conclude (config : RunConfig) : Outcome → Except Failure RunResult
  | running m => m.conclude config .exited
  | halted m halt => m.conclude config halt

namespace Instance

def execute (inst : Instance) (config : RunConfig) : Except Failure RunResult := do
  let m ← inst.guest.start config
  let outcome ← (inst.nest inst.maxNesting).enter m
  outcome.conclude config

end Instance

end GuestGate
