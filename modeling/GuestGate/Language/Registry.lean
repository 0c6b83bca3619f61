import GuestGate.Session.Basic

/-!
# The language registry

The languages that sessions can be started in, and which of them have been set
up so far.
-/

namespace GuestGate

/-- The registered languages and those among them that are set up. -/
structure Registry where
  shared : SharedOptions := {}
  languages : List Language := Language.all
  configured : List Language := []
deriving DecidableEq, Repr

namespace Registry

/-- The registry of some languages.  Their order and repeats do not matter. -/
def ofLanguages (shared : SharedOptions) (languages : List Language) : Registry where
  shared := shared
  languages := Language.all.filter (languages.contains ·)

def language (r : Registry) (name : String) : Except Failure Language :=
  match r.languages.find? fun language ↦ language.name == name with
  | some language => .ok language
  | none => .error (.unknownLanguage name)

def isConfigured (r : Registry) (name : String) : Bool :=
  r.configured.any fun language ↦ language.name == name

def configuredNames (r : Registry) : List String :=
  (Language.all.filter (r.configured.contains ·)).map Language.name

/-- The defaults of a language, which is set up now if it was not before. -/
def defaults (r : Registry) (name : String) :
    Except Failure (Registry × Language × LanguageDefaults) := do
  let language ← r.language name
  let configured :=
    if language ∈ r.configured then r.configured else language :: r.configured
  return ({ r with configured }, language, language.defaults r.shared)

def startSession (r : Registry) (name : String) : Except Failure (Registry × Session) := do
  let (r, language, defaults) ← r.defaults name
  return (r, .start language defaults)

end Registry

end GuestGate
