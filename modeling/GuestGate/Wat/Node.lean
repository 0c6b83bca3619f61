import GuestGate.Wat.Lexeme

/-!
# Nodes of module text

Words and strings in lists that are written in brackets.
-/

namespace GuestGate.Wat

/-- A word, a string, or a list of nodes. -/
inductive Node
  | word (text : String)
  | quoted (content : List UInt8)
  | list (items : List Node)
deriving Repr

namespace Node

/-- Read lexemes inside of some open lists.  The nodes of the innermost list
are given in reverse, those around it with the innermost first. -/
def ofLexemesIn? : List Node → List (List Node) → List Lexeme → Option (List Node)
  | nodes, [], [] => some nodes.reverse
  | _, _ :: _, [] => none
  | nodes, outer, .opening :: rest => ofLexemesIn? [] (nodes :: outer) rest
  | nodes, around :: outer, .closing :: rest =>
      ofLexemesIn? (.list nodes.reverse :: around) outer rest
  | _, [], .closing :: _ => none
  | nodes, outer, .word text :: rest => ofLexemesIn? (.word text :: nodes) outer rest
  | nodes, outer, .quoted content :: rest => ofLexemesIn? (.quoted content :: nodes) outer rest

def ofLexemes? (lexemes : List Lexeme) : Option (List Node) :=
  ofLexemesIn? [] [] lexemes

def ofText? (text : List Char) : Option (List Node) :=
  (lexemes? text).bind ofLexemes?

@[simp]
theorem ofLexemes?_nil : ofLexemes? [] = some [] := rfl

def name? : Node → Option String
  | quoted content => (Text.decode? content).map String.ofList
  | _ => none

def number? : Node → Option Nat
  | word text =>
      if text.toList.all Char.isDigit && !text.isEmpty then
        some (text.toList.foldl (fun n c ↦ n * 10 + (c.toNat - '0'.toNat)) 0)
      else none
  | _ => none

end Node

end GuestGate.Wat
