/-!
# Constructs

Things in a source that not every target can handle.
-/

namespace GuestGate

/-- A construct that some target refuses. -/
inductive Construct
  /-- Code of a type that runs before any of its members is used. -/
  | staticInitializer (typeName : String)
deriving DecidableEq, Repr

namespace Construct

def typeName : Construct → String
  | staticInitializer typeName => typeName

def render : Construct → String
  | staticInitializer typeName => "static initializer in `" ++ typeName ++ "`"

end Construct

end GuestGate
