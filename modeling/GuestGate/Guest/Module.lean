import GuestGate.Guest.Word
import GuestGate.Member

/-!
# Guest modules

A compiled guest as the host sees it: what it imports, the memory and the
table it asks for, the sequences it offers, and the code of its entry point.
-/

namespace GuestGate

inductive ValueType
  | i32
  | i64
  | f32
  | f64
  | v128
  | funcref
  | externref
  /-- A type that no guest may use. -/
  | unsupported (word : String)
deriving DecidableEq, Repr

namespace ValueType

def name : ValueType → String
  | i32 => "i32"
  | i64 => "i64"
  | f32 => "f32"
  | f64 => "f64"
  | v128 => "v128"
  | funcref => "funcref"
  | externref => "externref"
  | unsupported word => word

def ofName? (word : String) : Option ValueType :=
  [i32, i64, f32, f64, v128, funcref, externref].find? fun type ↦ type.name == word

def ofName (word : String) : ValueType :=
  (ofName? word).getD (unsupported word)

def isSupported : ValueType → Bool
  | unsupported _ => false
  | _ => true

end ValueType

inductive ExternType
  | func (parameters : List ValueType) (result : Option ValueType)
  | memory
  | table
  | global
deriving DecidableEq, Repr

namespace ExternType

def parameterCount : ExternType → Nat
  | func parameters _ => parameters.length
  | _ => 0

def isSupported : ExternType → Bool
  | func parameters result =>
      parameters.all ValueType.isSupported && result.all ValueType.isSupported
  | _ => true

end ExternType

/-- Something that a module takes from its host, by the names of a module and
a field. -/
structure Import where
  moduleName : String
  name : String
  type : ExternType
deriving DecidableEq, Repr

def Import.member (i : Import) : MemberRef :=
  .ofTypePath i.moduleName i.name

def pageSize : Nat := 65536

def maxPages : Nat := 65536

def maxTableSize : Nat := 10000000

def maxParameters : Nat := 1000

/-- The memories that a module can have at most, those it imports among them. -/
def maxMemories : Nat := 100

def maxTables : Nat := 100

def maxNameSize : Nat := 100000

def Import.isWithinLimits (i : Import) : Bool :=
  i.moduleName.utf8ByteSize ≤ maxNameSize && i.name.utf8ByteSize ≤ maxNameSize &&
    i.type.parameterCount ≤ maxParameters && i.type.isSupported

structure MemoryType where
  pages : Nat
  maximum : Option Nat := none
  exported : Bool := true
deriving DecidableEq, Repr

namespace MemoryType

def isValid (m : MemoryType) : Bool :=
  m.pages ≤ maxPages && m.maximum.all fun most ↦ m.pages ≤ most && most ≤ maxPages

def limit (m : MemoryType) : Nat :=
  m.maximum.getD maxPages

end MemoryType

inductive SequenceItems
  | items (values : List Int)
  | range (start step : Int) (count : Nat)
deriving DecidableEq, Repr

/-- The value that a sequence gives when it has no more items: the least
number of 64 bits. -/
def sequenceEnd : Int := -9223372036854775808

/-- A sequence that a guest offers.  Drawing the item at `trapAt` fails. -/
structure Sequence where
  items : SequenceItems
  trapAt : Option Nat := none
deriving DecidableEq, Repr

def SequenceItems.item? : SequenceItems → Nat → Option Int
  | items values, n => values[n]?
  | range start step count, n => if n < count then some (wrap64 (start + step * n)) else none

inductive SequenceExport
  | missing
  | wrongType
  | usable
deriving DecidableEq, Repr

/-- A piece of memory as a guest passes it: an address and a length, both as
constants of 32 bits. -/
structure Span where
  pointer : Int
  length : Int
deriving DecidableEq, Repr

inductive Trap
  | unreachable
  | divideByZero
  | integerOverflow
  | badConversion
  | outOfBoundsMemory
  | stackExhausted
  | uninitializedElement
  | undefinedElement
deriving DecidableEq, Repr

def Trap.message : Trap → String
  | unreachable => "wasm trap: wasm `unreachable` instruction executed"
  | divideByZero => "wasm trap: integer divide by zero"
  | integerOverflow => "wasm trap: integer overflow"
  | badConversion => "wasm trap: invalid conversion to integer"
  | outOfBoundsMemory => "wasm trap: out of bounds memory access"
  | stackExhausted => "wasm trap: call stack exhausted"
  | uninitializedElement => "wasm trap: uninitialized element"
  | undefinedElement => "wasm trap: undefined element: out of bounds table access"

inductive Drain
  | sum
  | count
  | createSet
deriving DecidableEq, Repr

/-- A single action of a guest.  Its numbers are constants of 32 bits, as they
are written.  Those with a `silent` flag print their result unless it is set. -/
inductive Action
  | write (text : Span)
  | writeLine (text : Span)
  | reportLine (line : Int)
  | reportValue (line : Int) (expression value : Span)
  | reportException (line : Int) (description : Span)
  | drain (member : Drain) (sequence : Int) (silent : Bool)
  | sleep (millis : Int)
  | grow (pages : Int) (silent : Bool)
  | growTable (elements : Int) (silent : Bool)
  /-- Leave the entry point. -/
  | exit
  /-- Go on forever. -/
  | spin
  | trap (cause : Trap)
  /-- Call the first element of the table, which is never filled. -/
  | callFirst
deriving DecidableEq, Repr

/-- An instruction of a guest: an action, or a list of instructions to go
through some number of times. -/
inductive Instr
  | act (action : Action)
  | loop (times : Nat) (body : List Instr)

namespace Action

def prints : Action → Bool
  | drain _ _ silent | grow _ silent | growTable _ silent => !silent
  | _ => false

/-- Whether an action itself works on memory. -/
def usesMemory : Action → Bool
  | grow .. | trap .outOfBoundsMemory => true
  | _ => false

def constants : Action → List Int
  | write text | writeLine text => [text.pointer, text.length]
  | reportLine line => [line]
  | reportValue line expression value =>
      [line, expression.pointer, expression.length, value.pointer, value.length]
  | reportException line description => [line, description.pointer, description.length]
  | drain _ sequence _ => [sequence]
  | sleep millis => [millis]
  | grow n _ | growTable n _ => [n]
  | exit | spin | trap _ | callFirst => []

def usesTable : Action → Bool
  | growTable .. | callFirst | trap .undefinedElement => true
  | _ => false

end Action

namespace Instr

mutual

def has (kind : Action → Bool) : Instr → Bool
  | act action => kind action
  | loop _ body => hasAny kind body

def hasAny (kind : Action → Bool) : List Instr → Bool
  | [] => false
  | instr :: rest => instr.has kind || hasAny kind rest

end

mutual

def constants : Instr → List Int
  | act action => action.constants
  | loop times body => (times : Int) :: constantsAll body

def constantsAll : List Instr → List Int
  | [] => []
  | instr :: rest => instr.constants ++ constantsAll rest

end

end Instr

inductive Entry
  | missing
  /-- Something that is no function without parameters and result. -/
  | unusable
  | code (body : List Instr)

def Entry.body : Entry → List Instr
  | code body => body
  | _ => []

/-- Code that a guest goes through before it gives the item at a place of a
sequence. -/
structure DrawCode where
  sequence : Nat
  place : Nat
  body : List Instr

structure GuestModule where
  imports : List Import := []
  memory : Option MemoryType := none
  /-- The first bytes of memory; the others are zero. -/
  data : List UInt8 := []
  table : Option Nat := none
  sequences : List Sequence := []
  sequenceExport : SequenceExport := .missing
  /-- Where giving an item takes code of the guest. -/
  drawCode : List DrawCode := []
  /-- Whether there is code to print numbers, which writes their digits to
  memory first. -/
  hasPrinter : Bool := false
  /-- Whether starting the module fails.  What a start function does besides, such as to
  write, to ask for memory or to call a member that refuses it, is not described. -/
  startTraps : Bool := false
  entry : Entry := .missing

namespace GuestModule

/-- The code that stands before the item at a place of a sequence. -/
def codeAt (m : GuestModule) (sequence place : Nat) : List Instr :=
  ((m.drawCode.find? fun c ↦ c.sequence == sequence && c.place == place).map DrawCode.body).getD []

def code (m : GuestModule) : List Instr :=
  m.entry.body ++ m.drawCode.flatMap DrawCode.body

def importCount (m : GuestModule) (type : ExternType) : Nat :=
  m.imports.countP fun item ↦ item.type == type

/-- The number of memories, those that are imported among them. -/
def memoryCount (m : GuestModule) : Nat :=
  m.importCount .memory + m.memory.elim 0 fun _ ↦ 1

def tableCount (m : GuestModule) : Nat :=
  m.importCount .table + m.table.elim 0 fun _ ↦ 1

def isWithinLimits (m : GuestModule) : Bool :=
  m.memory.all MemoryType.isValid && m.table.all (· ≤ maxTableSize) &&
    m.memoryCount ≤ maxMemories && m.tableCount ≤ maxTables &&
    m.imports.all Import.isWithinLimits && (Instr.constantsAll m.code).all isConstant32

/-- Whether the memory and the table that the module works on are there. -/
def isComplete (m : GuestModule) : Bool :=
  (m.memoryCount ≠ 0 ||
      (m.data.isEmpty && !m.hasPrinter && !Instr.hasAny Action.usesMemory m.code)) &&
    (m.tableCount ≠ 0 || !Instr.hasAny Action.usesTable m.code)

def isValid (m : GuestModule) : Bool :=
  m.isWithinLimits && m.isComplete

def exportsMemory (m : GuestModule) : Bool :=
  m.memory.any MemoryType.exported

end GuestModule

end GuestGate
