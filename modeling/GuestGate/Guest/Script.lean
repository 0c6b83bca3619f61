import GuestGate.Host.Member
import GuestGate.Text.Class

/-!
# Scripted guests

A guest can be written down as a list of steps.  Assembling it puts the texts
of its steps into memory, one after another, and imports the host members that
its steps need.  Without a memory the texts are not stored anywhere.
-/

namespace GuestGate

/-- One step of a script.  Texts are given as bytes and stored on assembly. -/
inductive Step
  | write (text : List UInt8)
  | writeLine (text : List UInt8)
  | reportValue (line : Int) (expression value : List UInt8)
  | reportException (line : Int) (description : List UInt8)
  /-- An action without text of its own. -/
  | plain (action : Action)
  | loop (times : Nat) (body : List Step)

namespace Step

mutual

def decEq : (a b : Step) → Decidable (a = b)
  | write s, write t => decidable_of_iff (s = t) (by simp)
  | writeLine s, writeLine t => decidable_of_iff (s = t) (by simp)
  | reportValue m s t, reportValue n u v => decidable_of_iff (m = n ∧ s = u ∧ t = v) (by simp)
  | reportException m s, reportException n t => decidable_of_iff (m = n ∧ s = t) (by simp)
  | plain a, plain b => decidable_of_iff (a = b) (by simp)
  | loop m s, loop n t =>
      have := decEqAll s t
      decidable_of_iff (m = n ∧ s = t) (by simp)
  | write _, writeLine _ | write _, reportValue .. | write _, reportException ..
  | write _, plain _ | write _, loop .. | writeLine _, write _ | writeLine _, reportValue ..
  | writeLine _, reportException .. | writeLine _, plain _ | writeLine _, loop ..
  | reportValue .., write _ | reportValue .., writeLine _ | reportValue .., reportException ..
  | reportValue .., plain _ | reportValue .., loop .. | reportException .., write _
  | reportException .., writeLine _ | reportException .., reportValue ..
  | reportException .., plain _ | reportException .., loop .. | plain _, write _
  | plain _, writeLine _ | plain _, reportValue .. | plain _, reportException ..
  | plain _, loop .. | loop .., write _ | loop .., writeLine _ | loop .., reportValue ..
  | loop .., reportException .. | loop .., plain _ => isFalse (by simp)

def decEqAll : (s t : List Step) → Decidable (s = t)
  | [], [] => isTrue rfl
  | a :: s, b :: t =>
      have := decEq a b
      have := decEqAll s t
      decidable_of_iff (a = b ∧ s = t) (by simp)
  | [], _ :: _ | _ :: _, [] => isFalse (by simp)

end

instance : DecidableEq Step := decEq

mutual

def stored : Step → List UInt8
  | write text | writeLine text => text
  | reportValue _ expression value => expression ++ value
  | reportException _ description => description
  | plain _ => []
  | loop _ body => storedAll body

def storedAll : List Step → List UInt8
  | [] => []
  | step :: rest => step.stored ++ storedAll rest

end

def span (address : Nat) (text : List UInt8) : Span :=
  ⟨address, text.length⟩

mutual

/-- A step as an instruction, its texts stored from an address on. -/
def assemble (address : Nat) : Step → Instr
  | write text => .act (.write (span address text))
  | writeLine text => .act (.writeLine (span address text))
  | reportValue line expression value =>
      .act (.reportValue line (span address expression) (span (address + expression.length) value))
  | reportException line description => .act (.reportException line (span address description))
  | plain action => .act action
  | loop times body => .loop times (assembleAll address body)

def assembleAll (address : Nat) : List Step → List Instr
  | [] => []
  | step :: rest => step.assemble address :: assembleAll (address + step.stored.length) rest

end

def printing (silent : Bool) : List HostMember :=
  if silent then [] else [.writeLine]

def actionMembers : Action → List HostMember
  | .write _ => [.write]
  | .writeLine _ => [.writeLine]
  | .reportLine _ => [.reportLineStart]
  | .reportValue .. => [.reportValue]
  | .reportException .. => [.reportException]
  | .drain .sum _ silent => .sum :: printing silent
  | .drain .count _ silent => .count :: printing silent
  | .drain .createSet _ silent => .createSet :: printing silent
  | .sleep _ => [.sleep]
  | .grow _ silent | .growTable _ silent => printing silent
  | .exit | .spin | .trap _ | .callFirst => []

mutual

def members : Step → List HostMember
  | write _ => [.write]
  | writeLine _ => [.writeLine]
  | reportValue .. => [.reportValue]
  | reportException .. => [.reportException]
  | plain action => actionMembers action
  | loop _ body => membersAll body

def membersAll : List Step → List HostMember
  | [] => []
  | step :: rest => step.members ++ membersAll rest

end

end Step

inductive EntryKind
  | script
  | missing
  | unusable
deriving DecidableEq, Repr

structure Guest where
  /-- Whether the guest is no module at all. -/
  broken : Bool := false
  script : List Step := []
  sequences : List Sequence := []
  sequenceExport : SequenceExport := .missing
  /-- Imports after those that the script needs. -/
  imports : List Import := []
  memory : Option MemoryType := some { pages := 1 }
  table : Option Nat := none
  startTraps : Bool := false
  entry : EntryKind := .script
deriving DecidableEq

namespace Guest

def body (g : Guest) : List Instr :=
  Step.assembleAll 0 g.script

/-- The module that a scripted guest assembles to, valid or not.  What the
script needs from elsewhere is there even if the script is not the entry
point. -/
def assemble (g : Guest) : GuestModule where
  imports := ((Step.membersAll g.script).eraseDups.map HostMember.toImport) ++ g.imports
  memory := g.memory
  data := if g.memory.isSome then Step.storedAll g.script else []
  table := g.table
  sequences := g.sequences
  sequenceExport := g.sequenceExport
  hasPrinter := Instr.hasAny Action.prints g.body
  startTraps := g.startTraps
  entry :=
    match g.entry with
    | .script => .code g.body
    | .missing => .missing
    | .unusable => .unusable

/-- Whether the names of the imports can be written down: the text of a module
has no characters that change the direction of text. -/
def hasPlainNames (g : Guest) : Bool :=
  g.imports.all fun item ↦ !(item.moduleName ++ item.name).toList.any Text.isDirectional

def compile? (g : Guest) : Option GuestModule :=
  if !g.broken && g.hasPlainNames && g.assemble.isValid then some g.assemble else none

end Guest

end GuestGate
