import GuestGate.Run.Execution

/-!
# The moments of a run

A run performs one action after another, and a host member may call guest code that performs
actions of its own.  The moments of a run are its actions in order, each with the state that it
finds.  Every part of a run has its own moments, and what the guest asks for can be read off
them.
-/

namespace GuestGate

/-- An action and the state that it is performed in. -/
structure Moment where
  machine : Machine
  action : Action

/-! ### The moments of the parts of a run -/

def Outcome.momentsThen (o : Outcome) (next : Machine → List Moment) : List Moment :=
  match o with
  | running m => next m
  | halted .. => []

def iterateMoments (body : Machine → Outcome) (moments : Machine → List Moment) :
    Nat → Machine → List Moment
  | 0, _ => []
  | times + 1, m => moments m ++ (body m).momentsThen (iterateMoments body moments times)

def drawAllMoments (next : Machine → Machine × Except Halt Int)
    (moments : Machine → List Moment) : Nat → Machine → List Moment
  | room, m =>
      moments m ++
        match next m with
        | (_, .error _) => []
        | (m, .ok item) =>
            if item = sequenceEnd then []
            else
              match room with
              | 0 => []
              | room + 1 => drawAllMoments next moments room m

namespace Machine

def tickMoments (inst : Instance) (m : Machine) (next : Machine → List Moment) : List Moment :=
  match m.tick inst with
  | .ok m => next m
  | .error _ => []

section Calls

-- `nested` gives the moments of guest code that host members call
variable (inst : Instance) (nested : List Instr → Machine → List Moment)

def approachMoments (sequence : Nat) (m : Machine) : List Moment :=
  match inst.guest.codeAt sequence (m.cursors.getD sequence 0) with
  | [] => []
  | body => nested body m

def drawMoments (sequence : Int) (m : Machine) : List Moment :=
  match m.tick inst with
  | .error _ => []
  | .ok m =>
      match inst.guest.sequences[sequence.toNat]?, decide (0 ≤ sequence) with
      | some _, true => approachMoments inst nested sequence.toNat m
      | _, _ => []

def drainMoments (m : Machine) (link : Link) (sequence : Int) : List Moment :=
  match inst.guest.sequenceExport with
  | .missing | .wrongType => []
  | .usable =>
      drawAllMoments (draw inst sequence) (drawMoments inst nested sequence) link.sequenceLimit m

/-- The moments after an action has begun and before it has ended. -/
def withinMoments (m : Machine) : Action → List Moment
  | .drain member sequence _ =>
      match inst.link? member.hostMember with
      | some link => drainMoments inst nested m link (wrap32 sequence)
      | none => []
  | _ => []

def performMoments (m : Machine) (action : Action) : List Moment :=
  ⟨m, action⟩ :: withinMoments inst nested m action

end Calls

end Machine

namespace Instr

mutual

def moments (inst : Instance) (nested : List Instr → Machine → List Moment) :
    Instr → Machine → List Moment
  | act action, m => m.tickMoments inst fun m ↦ m.performMoments inst nested action
  | loop times body, m =>
      m.tickMoments inst
        (iterateMoments (fun m ↦ m.tickThen inst (runAll inst body))
          (fun m ↦ m.tickMoments inst (momentsAll inst nested body)) times)

def momentsAll (inst : Instance) (nested : List Instr → Machine → List Moment) :
    List Instr → Machine → List Moment
  | [], _ => []
  | instr :: rest, m =>
      moments inst nested instr m ++ (run inst instr m).momentsThen (momentsAll inst nested rest)

end

end Instr

namespace Instance

def nestMoments (inst : Instance) : Nat → List Instr → Machine → List Moment
  | 0 => fun _ _ ↦ []
  | depth + 1 => Instr.momentsAll (inst.nest depth) (inst.nestMoments depth)

def enterMoments (inst : Instance) (nested : List Instr → Machine → List Moment) (m : Machine) :
    List Moment :=
  m.tickMoments inst (Instr.momentsAll inst nested inst.guest.entry.body)

def moments (inst : Instance) (config : RunConfig) : List Moment :=
  match inst.guest.start config with
  | .error _ => []
  | .ok m => (inst.nest inst.maxNesting).enterMoments (inst.nestMoments inst.maxNesting) m

end Instance

/-! ### What a run asks for -/

/-- A memory or a table that the limiter is asked for, with the size it would have. -/
inductive Growth
  | memory (bytes : Nat)
  | table (elements : Nat)
deriving DecidableEq, Repr

def Growth.isRefused (ceiling : Nat) : Growth → Bool
  | memory bytes => ceiling < bytes
  | table elements => Limiter.tableCeiling < elements

def Limiter.asked (l : Limiter) : Growth → Limiter
  | .memory bytes => (l.growMemory bytes).1
  | .table elements => (l.growTable elements).1

/-- What an action asks for.  To grow by nothing asks for nothing. -/
def Moment.request? (moment : Moment) : Option Growth :=
  match moment.action with
  | .grow pages _ =>
      if unsigned32 pages = 0 then none
      else some (.memory ((moment.machine.pages + unsigned32 pages) * pageSize))
  | .growTable elements _ =>
      if unsigned32 elements = 0 then none
      else some (.table (moment.machine.elements + unsigned32 elements))
  | _ => none

/-- What a guest asks for before it starts.  Its imports are looked at before anything is
asked for, and the table is asked for after the memory has been granted. -/
def GuestModule.initialRequests (guest : GuestModule) (ceiling : Nat) : List Growth :=
  let memory := guest.memory.toList.map fun memory ↦ Growth.memory (memory.pages * pageSize)
  if !guest.imports.all importAgrees then []
  else if memory.any (Growth.isRefused ceiling) then memory
  else memory ++ guest.table.toList.map .table

def Instance.requests (inst : Instance) (config : RunConfig) : List Growth :=
  inst.guest.initialRequests config.maxMemory ++ (inst.moments config).filterMap Moment.request?

end GuestGate
