import GuestGate.Guest.Module
import GuestGate.Wat.Node

/-!
# Module text

The part of the text form of modules in which clients write guests by hand:
imports, one memory, and an entry point that returns, goes on forever or traps.
-/

namespace GuestGate

namespace Wat

def entryName : String := "_start"

def memoryName : String := "memory"

inductive Field
  | imported (item : Import)
  | memory (pages : Nat)
  | entry (body : List Instr)

def valueType? : Node → Option ValueType
  | .word text => ValueType.ofName? text
  | _ => none

def externType? : Node → Option ExternType
  | .list [.word "func"] => some (.func [] none)
  | .list [.word "func", .list (.word "param" :: types)] =>
      (types.mapM valueType?).map (.func · none)
  | .list [.word "func", .list [.word "result", type]] =>
      (valueType? type).map fun result ↦ .func [] (some result)
  | .list [.word "func", .list (.word "param" :: types), .list [.word "result", type]] => do
      return .func (← types.mapM valueType?) (some (← valueType? type))
  | .list [.word "memory", .word "1"] => some .memory
  | .list [.word "table", .word "1", .word "funcref"] => some .table
  | .list [.word "global", .word "i32"] => some .global
  | _ => none

def body? : List Node → Option (List Instr)
  | [] => some []
  | [.word "unreachable"] => some [.act (.trap .unreachable)]
  | [.list [.word "loop", .list [.word "br", .word "0"]]] => some [.act .spin]
  | _ => none

def Field.ofNode? : Node → Option Field
  | .list [.word "import", moduleName, name, type] => do
      return .imported ⟨← moduleName.name?, ← name.name?, ← externType? type⟩
  | .list [.word "memory", .list [.word "export", name], pages] =>
      if name.name? = some memoryName then pages.number?.map .memory else none
  | .list (.word "func" :: .list [.word "export", name] :: body) =>
      if name.name? = some entryName then (body? body).map .entry else none
  | _ => none

/-- Add a field to a module.  Imports stand in front of everything else, and
no name is offered twice. -/
def addField (m : GuestModule) : Field → Option GuestModule
  | .imported item =>
      match m.memory, m.entry with
      | none, .missing => some { m with imports := m.imports ++ [item] }
      | _, _ => none
  | .memory pages =>
      match m.memory with
      | none => some { m with memory := some { pages := pages } }
      | some _ => none
  | .entry body =>
      match m.entry with
      | .missing => some { m with entry := .code body }
      | _ => none

def moduleOfNodes? : List Node → Option GuestModule
  | [.list (.word "module" :: fields)] => do
      let m ← (← fields.mapM Field.ofNode?).foldlM addField {}
      if m.isValid then some m else none
  | _ => none

end Wat

def GuestModule.ofText? (text : List Char) : Option GuestModule :=
  (Wat.Node.ofText? text).bind Wat.moduleOfNodes?

end GuestGate
