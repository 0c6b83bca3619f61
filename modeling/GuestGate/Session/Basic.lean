import GuestGate.Failure
import GuestGate.Language.Basic

/-!
# Sessions

A session holds the text of one client, the options it has set and whether it
has been cancelled.  Options come as pairs of a name and a value.
-/

namespace GuestGate

/-- The state of one client's session.  Its language never changes. -/
structure Session where
  language : Language
  text : String := ""
  target : Option String := none
  parse : ParseOptions
  options : CompilationOptions
  references : ReferenceSet
  cancelled : Bool := false

namespace Session

def start (language : Language) (defaults : LanguageDefaults) : Session where
  language := language
  parse := defaults.parse
  options := defaults.options
  references := defaults.references

def setOptimization (s : Session) (level : OptimizationLevel) : Session :=
  { s with
    parse := s.language.parseAtLevel level s.parse
    options := s.language.optionsAtLevel level s.options }

/-- Adjust the options to a target without recording it. -/
def adjustToTarget (s : Session) (target : String) : Session :=
  { s with options := s.language.optionsForTarget target s.options }

def setTarget (s : Session) (target : String) : Session :=
  { s with target := some target }.adjustToTarget target

def constructs (s : Session) : List Construct :=
  s.language.constructs s.text

def parameterLines (s : Session) (p : Position) : List Nat :=
  s.language.parameterLines s.text p

def optimizeOption : String := "optimize"

def targetOption : String := "target"

def levelOfValue (value : String) : Except Failure OptimizationLevel :=
  match OptimizationLevel.ofName? value with
  | some level => .ok level
  | none => .error (.invalidOption optimizeOption value)

/-- Apply one option.  The answer says whether its name is known; a value that
cannot be read changes nothing. -/
def applyOption (s : Session) (name value : String) : Except Failure (Session × Bool) :=
  if name = optimizeOption then do
    let level ← levelOfValue value
    return (s.setOptimization level, true)
  else if name = targetOption then .ok (s.setTarget value, true)
  else .ok (s, false)

/-- Apply options in order up to the first that fails.  The answer lists the
names that are not known. -/
def applyOptions (s : Session) : List (String × String) → Session × Except Failure (List String)
  | [] => (s, .ok [])
  | (name, value) :: rest =>
      match s.applyOption name value with
      | .error failure => (s, .error failure)
      | .ok (s, known) =>
          let (s, unknown) := s.applyOptions rest
          (s, if known then unknown else unknown.map (name :: ·))

/-- Never report diagnostics of an identifier.  The answer says whether that
is new. -/
def suppress (s : Session) (id : String) : Session × Bool :=
  ({ s with options := { s.options with suppressed := s.options.suppressed.insert id } },
    !s.options.suppressed.contains id)

end Session

end GuestGate
