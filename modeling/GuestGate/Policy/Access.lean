/-!
# Access levels

The three answers a policy node can give for the name it stands for.
-/

namespace GuestGate

/-- What a rule says about a namespace, a type or a member. -/
inductive AccessLevel
  /-- Blocked, together with everything below. -/
  | denied
  /-- Undecided: names below are decided one by one. -/
  | neutral
  | allowed
deriving DecidableEq, Repr

def AccessLevel.name : AccessLevel → String
  | denied => "denied"
  | neutral => "neutral"
  | allowed => "allowed"

def AccessLevel.ofName? (word : String) : Option AccessLevel :=
  [denied, neutral, allowed].find? fun access ↦ access.name == word

end GuestGate
