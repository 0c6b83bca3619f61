import GuestGate.Run.Execution

/-!
# The trace of a run

What a guest prints and reports while it runs, and what the host raises, in order and without
any bound.  The records of a run are kept within their limits while it goes on; the trace says
what there was to record.  Every part of a run has its own trace, and the records after the
part are those before it with the trace of the part put in.
-/

namespace GuestGate

/-- Something that a run puts on record. -/
inductive Effect
  /-- Text that the guest prints. -/
  | printed (text : List Char)
  /-- An event that the guest reports. -/
  | reported (event : FlowEvent)
  /-- An exception that the host raises. -/
  | raised (description : String)
deriving DecidableEq, Repr

namespace Effect

def text : Effect → List Char
  | printed text => text
  | _ => []

def isEvent : Effect → Bool
  | printed _ => false
  | _ => true

def isRaised : Effect → Bool
  | raised _ => true
  | _ => false

def lineReached? : Effect → Option Nat
  | reported event => event.lineReached?
  | _ => none

def written (effects : List Effect) : List Char :=
  effects.flatMap text

/-- The line reached last, zero before the first. -/
def lastLine (effects : List Effect) : Nat :=
  ((effects.filterMap lineReached?).getLast?).getD 0

def printedLine (text : List Char) : List Effect :=
  [printed text, printed ['\n']]

end Effect

def Output.note (out : Output) : Effect → Output
  | .printed text => out.write text
  | _ => out

def FlowLog.note (log : FlowLog) : Effect → FlowLog
  | .printed _ => log
  | .reported event => log.record event
  | .raised description => log.recordFault description

namespace Halt

/-- The exception that a host member has raised. -/
def raised? : Halt → Option String
  | rejected rejection => some rejection.message
  | nested halt => halt.raised?
  | _ => none

def fault? : Halt → Option String
  | trapped cause => some cause.message
  | faulted fault => some fault.message
  | nested halt => halt.fault?
  | _ => none

/-- What a host member puts on record as it stops the guest. -/
def effects (halt : Halt) : List Effect :=
  halt.raised?.toList.map .raised

/-- What is put on record when the run has ended. -/
def finalEffects (halt : Halt) : List Effect :=
  halt.fault?.toList.map .raised

end Halt

/-! ### The traces of the parts of a run -/

def Outcome.effectsThen (o : Outcome) (next : Machine → List Effect) : List Effect :=
  match o with
  | running m => next m
  | halted .. => []

def iterateEffects (body : Machine → Outcome) (effects : Machine → List Effect) :
    Nat → Machine → List Effect
  | 0, _ => []
  | times + 1, m => effects m ++ (body m).effectsThen (iterateEffects body effects times)

def drawAllEffects {σ ε : Type} (next : σ → σ × Except ε Int) (effects : σ → List Effect) :
    Nat → σ → List Effect
  | room, s =>
      effects s ++
        match next s with
        | (_, .error _) => []
        | (t, .ok item) =>
            if item = sequenceEnd then []
            else
              match room with
              | 0 => []
              | room + 1 => drawAllEffects next effects room t

namespace Machine

def tickEffects (inst : Instance) (m : Machine) (next : Machine → List Effect) : List Effect :=
  match m.tick inst with
  | .ok m => next m
  | .error _ => []

def callEffects (inst : Instance) (member : HostMember) (next : Link → List Effect) :
    List Effect :=
  match inst.link? member with
  | some link => next link
  | none => []

def textEffects (inst : Instance) (m : Machine) (span : Span)
    (next : List Char → List Effect) : List Effect :=
  match m.readText inst span with
  | .ok text => next text
  | .error _ => []

def printEffects (inst : Instance) (m : Machine) (silent : Bool) (n : Int) : List Effect :=
  if silent then []
  else if m.pages = 0 then []
  else if !inst.guest.exportsMemory then []
  else Effect.printedLine (toString n).toList

section Calls

-- `nested` gives the traces of guest code that host members call
variable (inst : Instance) (nested : List Instr → Machine → List Effect)

def approachEffects (sequence : Nat) (m : Machine) : List Effect :=
  match inst.guest.codeAt sequence (m.cursors.getD sequence 0) with
  | [] => []
  | body => nested body m

def drawEffects (sequence : Int) (m : Machine) : List Effect :=
  match m.tick inst with
  | .error _ => []
  | .ok m =>
      match inst.guest.sequences[sequence.toNat]?, decide (0 ≤ sequence) with
      | some _, true => approachEffects inst nested sequence.toNat m
      | _, _ => []

def drainEffects (m : Machine) (link : Link) (member : Drain) (sequence : Int)
    (silent : Bool) : List Effect :=
  match inst.guest.sequenceExport with
  | .missing | .wrongType => []
  | .usable =>
      drawAllEffects (draw inst sequence) (drawEffects inst nested sequence) link.sequenceLimit m ++
        match drawAll (draw inst sequence) link.sequenceLimit #[] m with
        | (_, .failed _) => []
        | (_, .tooMany) => [.raised (Rejection.tooManyItems link.sequenceLimit).message]
        | (m, .all items) =>
            match member.result items with
            | .ok n => m.printEffects inst silent n
            | .error halt => halt.effects

def performEffects (m : Machine) : Action → List Effect
  | .write text =>
      callEffects inst .write fun _ ↦ m.textEffects inst text fun text ↦ [.printed text]
  | .writeLine text =>
      callEffects inst .writeLine fun _ ↦ m.textEffects inst text Effect.printedLine
  | .reportLine line =>
      callEffects inst .reportLineStart fun _ ↦ [.reported (.line (lineNumber line))]
  | .reportValue line expression value =>
      callEffects inst .reportValue fun _ ↦
        m.textEffects inst expression fun expression ↦
          m.textEffects inst value fun value ↦
            [.reported
              (.value (lineNumber line) (String.ofList expression) (String.ofList value))]
  | .reportException line description =>
      callEffects inst .reportException fun _ ↦
        m.textEffects inst description fun description ↦
          [.reported (.exception (lineNumber line) (String.ofList description))]
  | .drain member sequence silent =>
      callEffects inst member.hostMember fun link ↦
        drainEffects inst nested m link member (wrap32 sequence) silent
  | .sleep millis =>
      callEffects inst .sleep fun link ↦
        if link.acceptsCount (wrap32 millis) then []
        else [.raised (Rejection.sleepOutOfRange (wrap32 millis)).message]
  | .grow pages silent =>
      let grown := m.growMemory inst (unsigned32 pages)
      grown.1.printEffects inst silent grown.2
  | .growTable elements silent =>
      let grown := m.growTable (unsigned32 elements)
      grown.1.printEffects inst silent grown.2
  | .exit | .spin | .trap _ | .callFirst => []

end Calls

end Machine

namespace Instr

mutual

def effects (inst : Instance) (nested : List Instr → Machine → List Effect) :
    Instr → Machine → List Effect
  | act action, m => m.tickEffects inst fun m ↦ m.performEffects inst nested action
  | loop times body, m =>
      m.tickEffects inst
        (iterateEffects (fun m ↦ m.tickThen inst (runAll inst body))
          (fun m ↦ m.tickEffects inst (effectsAll inst nested body)) times)

def effectsAll (inst : Instance) (nested : List Instr → Machine → List Effect) :
    List Instr → Machine → List Effect
  | [], _ => []
  | instr :: rest, m =>
      effects inst nested instr m ++ (run inst instr m).effectsThen (effectsAll inst nested rest)

end

end Instr

def Instance.nestEffects (inst : Instance) : Nat → List Instr → Machine → List Effect
  | 0 => fun _ _ ↦ []
  | depth + 1 => Instr.effectsAll (inst.nest depth) (inst.nestEffects depth)

namespace Outcome

/-- The exception that a host member has raised, if that has stopped the guest. -/
def raised? : Outcome → Option String
  | running _ => none
  | halted _ halt => halt.raised?

def finalEffects : Outcome → List Effect
  | running _ => []
  | halted _ halt => halt.finalEffects

end Outcome

namespace Instance

def enterEffects (inst : Instance) (nested : List Instr → Machine → List Effect) (m : Machine) :
    List Effect :=
  m.tickEffects inst (Instr.effectsAll inst nested inst.guest.entry.body) ++
    (m.tickThen inst (Instr.runAll inst inst.guest.entry.body)).finalEffects

def trace (inst : Instance) (config : RunConfig) : List Effect :=
  match inst.guest.start config with
  | .error _ => []
  | .ok m => (inst.nest inst.maxNesting).enterEffects (inst.nestEffects inst.maxNesting) m

end Instance

end GuestGate
