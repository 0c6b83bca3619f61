import GuestGate.Host.Member
import GuestGate.Run.Flow
import GuestGate.Run.Interruption
import GuestGate.Run.Limiter
import GuestGate.Policy.Rewriter
import GuestGate.Run.Output
import Std.Data.TreeSet

/-!
# Running guest code

The state of a guest while it runs, and what each of its actions does to that
state.  Time is counted by the instructions of the guest and by what it waits
for, so a run has the same result whenever it is made.
-/

namespace GuestGate

/-- A host member as it is linked: with the bounds its call site carries. -/
structure Link where
  member : HostMember
  site : CallSite
deriving DecidableEq, Repr

namespace Link

def sequenceLimit (link : Link) : Nat :=
  (link.site.materializeLimit? 0).getD Rewriter.defaultMaxItems

def acceptsCount (link : Link) (count : Int) : Bool :=
  0 ≤ count && (link.site.countLimit? 0).all (count ≤ ·)

end Link

/-- A fault that the host finds in a call before it does anything. -/
inductive HostFault
  | noMemory
  | negativeNumber
  | outOfBounds (start length : Nat)
  | noSequences
  | sequenceType
  | countTooLarge
deriving DecidableEq, Repr

def HostFault.message : HostFault → String
  | noMemory => "guest does not export `memory`"
  | negativeNumber => "number too small to fit in target type"
  | outOfBounds start length =>
      "string at " ++ toString start ++ "+" ++ toString length ++ " is out of bounds"
  | noSequences => "guest does not export `__seq_next`"
  | sequenceType => "type mismatch with parameters: type mismatch: expected i64, found i32"
  | countTooLarge => "number too large to fit in target type"

/-- A call that the host member itself refuses or fails. -/
inductive Rejection
  | tooManyItems (limit : Nat)
  | sleepOutOfRange (millis : Int)
  | sumOverflow
deriving DecidableEq, Repr

def Rejection.message : Rejection → String
  | tooManyItems limit => "sequence has more than " ++ toString limit ++ " items"
  | sleepOutOfRange millis => "sleep of " ++ toString millis ++ "ms is out of range"
  | sumOverflow => "arithmetic operation resulted in an overflow"

inductive Halt
  | exited
  | trapped (cause : Trap)
  | faulted (fault : HostFault)
  /-- Refused by a host member, which has recorded the exception. -/
  | rejected (rejection : Rejection)
  | outOfFuel
  | interrupted (interruption : Interruption)
  /-- For a reason that guest code had which a host member called. -/
  | nested (halt : Halt)
deriving DecidableEq, Repr

structure Machine where
  limiter : Limiter
  output : Output
  flow : FlowLog
  /-- Nanoseconds since the start. -/
  clock : Nat := 0
  /-- Fuel that is left, when it is metered. -/
  fuel : Option Nat
  /-- Pages of memory. -/
  pages : Nat
  /-- Elements of the table. -/
  elements : Nat
  /-- The place that each sequence has reached. -/
  cursors : List Nat

/-- What becomes of a guest: it goes on, or it stops for a reason. -/
inductive Outcome
  | running (m : Machine)
  | halted (m : Machine) (halt : Halt)

namespace Outcome

def andThen (o : Outcome) (next : Machine → Outcome) : Outcome :=
  match o with
  | running m => next m
  | halted m halt => halted m halt

def machine : Outcome → Machine
  | running m => m
  | halted m _ => m

/-- Guest code that the stack has no room for. -/
def withoutRoom (_ : List Instr) (m : Machine) : Outcome :=
  halted m (.trapped .stackExhausted)

@[simp]
theorem andThen_running (m : Machine) (next : Machine → Outcome) :
    (running m).andThen next = next m := rfl

@[simp]
theorem andThen_halted (m : Machine) (halt : Halt) (next : Machine → Outcome) :
    (halted m halt).andThen next = halted m halt := rfl

end Outcome

/-- What stays the same while a guest runs. -/
structure Instance where
  guest : GuestModule
  links : List Link
  /-- When the run ends at the latest, in nanoseconds from its start. -/
  deadline : Nat
  /-- When the run is cancelled, if it is. -/
  cancelAt : Option Nat := none
  /-- How many calls of guest code by host members can be open at a time. -/
  maxNesting : Nat := 200
  /-- What becomes of guest code that a host member calls. -/
  callGuest : List Instr → Machine → Outcome := Outcome.withoutRoom

namespace Instance

def link? (inst : Instance) (member : HostMember) : Option Link :=
  inst.links.find? fun link ↦ link.member == member

def watch (inst : Instance) (time : Nat) : Watch where
  cancelled := inst.cancelAt.any (· ≤ time)
  past := inst.deadline ≤ time

/-- When the run is interrupted at the latest. -/
def lastMoment (inst : Instance) : Nat :=
  inst.cancelAt.elim inst.deadline (min inst.deadline)

end Instance

def iterate (body : Machine → Outcome) : Nat → Machine → Outcome
  | 0, m => .running m
  | times + 1, m =>
      match body m with
      | .running m => iterate body times m
      | .halted m halt => .halted m halt

/-! ### Drawing items -/

inductive Drawn (ε : Type)
  | all (items : List Int)
  | tooMany
  | failed (error : ε)

/-- Draw items up to the end value, and at most one more than there is room
for. -/
def drawAll {σ ε : Type} (next : σ → σ × Except ε Int) : Nat → Array Int → σ → σ × Drawn ε
  | room, items, s =>
      match next s with
      | (s, .error error) => (s, .failed error)
      | (s, .ok item) =>
          if item = sequenceEnd then (s, .all items.toList)
          else
            match room with
            | 0 => (s, .tooMany)
            | room + 1 => drawAll next room (items.push item) s

def fits64 (n : Int) : Bool :=
  -0x8000000000000000 ≤ n && n < 0x8000000000000000

/-- The sum of some numbers, unless a sum on the way does not fit into 64
bits. -/
def checkedSum (total : Int) : List Int → Option Int
  | [] => some total
  | n :: rest => if fits64 (total + n) then checkedSum (total + n) rest else none

def distinctCount (items : List Int) : Nat :=
  (items.foldl Std.TreeSet.insert (∅ : Std.TreeSet Int compare)).size

/-- A count as the guest gets it, if it is not too large. -/
def countResult (n : Nat) : Except Halt Int :=
  if n < 0x80000000 then .ok n else .error (.faulted .countTooLarge)

def Drain.result (member : Drain) (items : List Int) : Except Halt Int :=
  match member with
  | .sum =>
      match checkedSum 0 items with
      | some total => .ok total
      | none => .error (.rejected .sumOverflow)
  | .count => countResult items.length
  | .createSet => countResult (distinctCount items)

def Drain.hostMember : Drain → HostMember
  | .sum => .sum
  | .count => .count
  | .createSet => .createSet

namespace Machine

/-! ### Single effects -/

/-- The nanoseconds that an instruction takes. -/
def stepTime : Nat := 5

def tick (inst : Instance) (m : Machine) : Except Halt Machine :=
  if m.fuel = some 0 then .error .outOfFuel
  else
    match (inst.watch (m.clock + stepTime)).check.noticed with
    | some interruption => .error (.interrupted interruption)
    | none => .ok { m with fuel := m.fuel.map (· - 1), clock := m.clock + stepTime }

def tickThen (inst : Instance) (m : Machine) (next : Machine → Outcome) : Outcome :=
  match m.tick inst with
  | .ok m => next m
  | .error halt => .halted m halt

def record (m : Machine) (event : FlowEvent) : Machine :=
  { m with flow := m.flow.record event }

/-- The state behind the exception that is recorded for a refused call. -/
def refused (m : Machine) (rejection : Rejection) : Machine :=
  { m with flow := m.flow.recordFault rejection.message }

def reject (m : Machine) (rejection : Rejection) : Outcome :=
  .halted (m.refused rejection) (.rejected rejection)

/-- The state in which a host member fails.  What it refuses itself is recorded. -/
def failed (m : Machine) : Halt → Machine
  | .rejected rejection => m.refused rejection
  | _ => m

def bytesAt (guest : GuestModule) (start length : Nat) : List UInt8 :=
  let stored := (guest.data.drop start).take length
  stored ++ List.replicate (length - stored.length) 0

/-- The text that a guest passes.  It must lie inside an exported memory. -/
def readText (inst : Instance) (m : Machine) (span : Span) : Except HostFault (List Char) :=
  if !inst.guest.exportsMemory then .error .noMemory
  else if wrap32 span.pointer < 0 ∨ wrap32 span.length < 0 then .error .negativeNumber
  else
    let start := (wrap32 span.pointer).toNat
    let length := (wrap32 span.length).toNat
    if start + length ≤ m.pages * pageSize then
      .ok (Text.decode (bytesAt inst.guest start length))
    else .error (.outOfBounds start length)

def withText (inst : Instance) (m : Machine) (span : Span) (next : List Char → Outcome) :
    Outcome :=
  match m.readText inst span with
  | .ok text => next text
  | .error fault => .halted m (.faulted fault)

/-- Print a number on a line.  The guest writes its digits to memory first. -/
def print (inst : Instance) (m : Machine) (n : Int) : Outcome :=
  if m.pages = 0 then .halted m (.trapped .outOfBoundsMemory)
  else if !inst.guest.exportsMemory then .halted m (.faulted .noMemory)
  else .running { m with output := m.output.writeLine (toString n).toList }

def printUnless (inst : Instance) (m : Machine) (silent : Bool) (n : Int) : Outcome :=
  if silent then .running m else m.print inst n

/-- Wait for a time.  The run ends there if it is interrupted meanwhile. -/
def wait (inst : Instance) (m : Machine) (nanos : Nat) : Outcome :=
  match (inst.watch (m.clock + nanos)).check.noticed with
  | none => .running { m with clock := m.clock + nanos }
  | some _ =>
      let time := max m.clock inst.lastMoment
      let interruption := (inst.watch time).check.noticed.getD .deadline
      .halted { m with clock := time } (.interrupted interruption)

/-- Go on forever: until the fuel is used up or the run is interrupted. -/
def spin (inst : Instance) (m : Machine) : Outcome :=
  let time := max m.clock inst.lastMoment
  match m.fuel with
  | some fuel =>
      if m.clock + fuel * stepTime < time then
        .halted { m with clock := m.clock + fuel * stepTime, fuel := some 0 } .outOfFuel
      else m.wait inst (time - m.clock)
  | none => m.wait inst (time - m.clock)

/-- Go through the code that stands before the next item of a sequence.  Code
that leaves early goes on with the item. -/
def approach (inst : Instance) (sequence : Nat) (m : Machine) : Outcome :=
  match inst.guest.codeAt sequence (m.cursors.getD sequence 0) with
  | [] => .running m
  | body =>
      match inst.callGuest body m with
      | .halted m .exited => .running m
      | outcome => outcome

def give (s : Sequence) (sequence : Nat) (m : Machine) : Machine × Except Halt Int :=
  let cursor := m.cursors.getD sequence 0
  if s.trapAt = some cursor then (m, .error (.trapped .unreachable))
  else
    match s.items.item? cursor with
    | none => (m, .ok sequenceEnd)
    | some item => ({ m with cursors := m.cursors.set sequence (cursor + 1) }, .ok item)

/-- Draw the next item of a sequence.  A sequence that does not exist is
empty. -/
def draw (inst : Instance) (sequence : Int) (m : Machine) : Machine × Except Halt Int :=
  match m.tick inst with
  | .error halt => (m, .error halt)
  | .ok m =>
      match inst.guest.sequences[sequence.toNat]?, decide (0 ≤ sequence) with
      | some s, true =>
          match m.approach inst sequence.toNat with
          | .running m => m.give s sequence.toNat
          | .halted m halt => (m, .error (.nested halt))
      | _, _ => (m, .ok sequenceEnd)

/-- What a member returns that draws all items of a sequence before it computes
anything, and the state in which it returns or stops the guest. -/
def compute (inst : Instance) (m : Machine) (link : Link) (member : Drain) (sequence : Int) :
    Machine × Except Halt Int :=
  match inst.guest.sequenceExport with
  | .missing => (m, .error (.faulted .noSequences))
  | .wrongType => (m, .error (.faulted .sequenceType))
  | .usable =>
      match drawAll (draw inst sequence) link.sequenceLimit #[] m with
      | (m, .failed halt) => (m, .error halt)
      | (m, .tooMany) =>
          let rejection := .tooManyItems link.sequenceLimit
          (m.refused rejection, .error (.rejected rejection))
      | (m, .all items) =>
          match member.result items with
          | .ok n => (m, .ok n)
          | .error halt => (m.failed halt, .error halt)

def drain (inst : Instance) (m : Machine) (link : Link) (member : Drain) (sequence : Int)
    (silent : Bool) : Outcome :=
  match m.compute inst link member sequence with
  | (m, .ok n) => m.printUnless inst silent n
  | (m, .error halt) => .halted m halt

/-- Ask for more pages of memory: the pages there were, or minus one.  The
limiter is asked before the maximum of the memory itself is looked at. -/
def growMemory (inst : Instance) (m : Machine) (pages : Nat) : Machine × Int :=
  if pages = 0 then (m, m.pages)
  else
    let (limiter, granted) := m.limiter.growMemory ((m.pages + pages) * pageSize)
    let m' := { m with limiter := limiter }
    if granted && m.pages + pages ≤ (inst.guest.memory.elim 0 MemoryType.limit) then
      ({ m' with pages := m.pages + pages }, m.pages)
    else (m', -1)

/-- Ask for more elements of the table: the elements there were, or minus
one. -/
def growTable (m : Machine) (elements : Nat) : Machine × Int :=
  if elements = 0 then (m, m.elements)
  else
    let (limiter, granted) := m.limiter.growTable (m.elements + elements)
    let m' := { m with limiter := limiter }
    if granted then ({ m' with elements := m.elements + elements }, m.elements) else (m', -1)

/-- A line number as a guest passes it.  Negative ones stand for no line. -/
def lineNumber (line : Int) : Nat :=
  (wrap32 line).toNat

/-- Call a host member.  A valid guest imports every member it calls, so the
trap for one that is not linked does not occur. -/
def call (inst : Instance) (m : Machine) (member : HostMember) (next : Link → Outcome) : Outcome :=
  match inst.link? member with
  | some link => next link
  | none => .halted m (.trapped .unreachable)

def perform (inst : Instance) (m : Machine) : Action → Outcome
  | .write text =>
      m.call inst .write fun _ ↦
        m.withText inst text fun text ↦ .running { m with output := m.output.write text }
  | .writeLine text =>
      m.call inst .writeLine fun _ ↦
        m.withText inst text fun text ↦ .running { m with output := m.output.writeLine text }
  | .reportLine line =>
      m.call inst .reportLineStart fun _ ↦ .running (m.record (.line (lineNumber line)))
  | .reportValue line expression value =>
      m.call inst .reportValue fun _ ↦
        m.withText inst expression fun expression ↦
          m.withText inst value fun value ↦
            .running (m.record
              (.value (lineNumber line) (String.ofList expression) (String.ofList value)))
  | .reportException line description =>
      m.call inst .reportException fun _ ↦
        m.withText inst description fun description ↦
          .running (m.record (.exception (lineNumber line) (String.ofList description)))
  | .drain member sequence silent =>
      m.call inst member.hostMember fun link ↦ m.drain inst link member (wrap32 sequence) silent
  | .sleep millis =>
      m.call inst .sleep fun link ↦
        if link.acceptsCount (wrap32 millis) then m.wait inst ((wrap32 millis).toNat * 1000000)
        else m.reject (.sleepOutOfRange (wrap32 millis))
  | .grow pages silent =>
      let grown := m.growMemory inst (unsigned32 pages)
      grown.1.printUnless inst silent grown.2
  | .growTable elements silent =>
      let grown := m.growTable (unsigned32 elements)
      grown.1.printUnless inst silent grown.2
  | .exit => .halted m .exited
  | .spin => m.spin inst
  | .trap cause => .halted m (.trapped cause)
  | .callFirst =>
      .halted m (.trapped (if m.elements = 0 then .undefinedElement else .uninitializedElement))

end Machine

namespace Instr

mutual

/-- What an instruction does.  Each takes fuel and time, and so does each turn
of a loop. -/
def run (inst : Instance) : Instr → Machine → Outcome
  | act action, m => m.tickThen inst fun m ↦ m.perform inst action
  | loop times body, m =>
      m.tickThen inst (iterate (fun m ↦ m.tickThen inst (runAll inst body)) times)

def runAll (inst : Instance) : List Instr → Machine → Outcome
  | [], m => .running m
  | instr :: rest, m => (run inst instr m).andThen (runAll inst rest)

end

end Instr

/-- An instance with room on the stack for a number of calls of guest code by
host members inside each other. -/
def Instance.nest (inst : Instance) : Nat → Instance
  | 0 => { inst with callGuest := Outcome.withoutRoom }
  | depth + 1 => { inst with callGuest := Instr.runAll (inst.nest depth) }

namespace Instance

theorem guest_nest (inst : Instance) (depth : Nat) : (inst.nest depth).guest = inst.guest := by
  cases depth <;> rfl

end Instance

end GuestGate
