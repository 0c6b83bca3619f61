import GuestGate.Wat.Module

/-!
# Modules by line

The text of a module that is put together from lines, among them some that no
module may have.
-/

namespace GuestGate.Wat

/-- What a line of a module holds. -/
inductive Line
  | comment (text : String)
  | imported (item : Import)
  | memory (pages : Nat)
  /-- An entry point that returns. -/
  | start
  /-- An entry point that goes on forever. -/
  | spin
  /-- An entry point that traps. -/
  | trap
  | blank
  /-- A list that is never closed. -/
  | broken
deriving DecidableEq, Repr

def hexDigit (n : Nat) : Char :=
  "0123456789abcdef".toList.getD n '0'

def escapeChar (c : Char) : List Char :=
  if c = '"' ∨ c = '\\' ∨ isControl c then
    ['\\', hexDigit (c.toNat / 16), hexDigit (c.toNat % 16)]
  else [c]

def quote (text : String) : String :=
  "\"" ++ String.ofList (text.toList.flatMap escapeChar) ++ "\""

def renderParameters : List ValueType → String
  | [] => ""
  | types => " (param" ++ String.join (types.map fun type ↦ " " ++ type.name) ++ ")"

def renderType : ExternType → String
  | .func parameters none => "(func" ++ renderParameters parameters ++ ")"
  | .func parameters (some result) =>
      "(func" ++ renderParameters parameters ++ " (result " ++ result.name ++ "))"
  | .memory => "(memory 1)"
  | .table => "(table 1 funcref)"
  | .global => "(global i32)"

def entryOpening : String :=
  "  (func (export " ++ quote entryName ++ ")"

def Line.render : Line → String
  | comment text => "  ;; " ++ text
  | imported item =>
      "  (import " ++ quote item.moduleName ++ " " ++ quote item.name ++ " "
        ++ renderType item.type ++ ")"
  | memory pages => "  (memory (export " ++ quote memoryName ++ ") " ++ toString pages ++ ")"
  | start => entryOpening ++ ")"
  | spin => entryOpening ++ " (loop (br 0)))"
  | trap => entryOpening ++ " unreachable)"
  | blank => ""
  | broken => "  (func"

def moduleText (lines : List Line) : String :=
  "(module\n" ++ String.join (lines.map fun line ↦ line.render ++ "\n") ++ ")\n"

end GuestGate.Wat
