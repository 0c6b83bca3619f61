/-!
# Diagnostics

Messages about a source text with a severity and, when known, a position.
-/

namespace GuestGate

/-- How serious a diagnostic is.  Only an error fails a compilation. -/
inductive Severity
  | hidden
  | info
  | warning
  | error
deriving DecidableEq, Repr

def Severity.name : Severity → String
  | hidden => "hidden"
  | info => "info"
  | warning => "warning"
  | error => "error"

def Severity.ofName? (word : String) : Option Severity :=
  [hidden, info, warning, error].find? fun severity ↦ severity.name == word

/-- One message with an identifier and an optional position, lines and columns
counted from one. -/
structure Diagnostic where
  severity : Severity
  id : String
  message : String
  line : Option Nat := none
  column : Option Nat := none
deriving DecidableEq, Repr

namespace Diagnostic

def isError (d : Diagnostic) : Bool :=
  d.severity == .error

/-- The position in front of a rendered diagnostic.  A column counts only
together with a line. -/
def position (d : Diagnostic) : String :=
  match d.line, d.column with
  | some line, some column => "(" ++ toString line ++ "," ++ toString column ++ "): "
  | some line, none => "(" ++ toString line ++ "): "
  | none, _ => ""

def render (d : Diagnostic) : String :=
  d.position ++ d.severity.name ++ " " ++ d.id ++ ": " ++ d.message

end Diagnostic

end GuestGate
