import GuestGate.Diagnostic
import GuestGate.Member

/-!
# Policy violations

A use of a member that the policy does not allow, as it is reported.
-/

namespace GuestGate

/-- A forbidden member and the line of its first use, when known. -/
structure Violation where
  member : MemberRef
  line : Option Nat := none
deriving DecidableEq, Repr

namespace Violation

def diagnosticId : String := "CL0001"

def message (v : Violation) : String :=
  "use of `" ++ v.member.render ++ "` is not allowed"

def toDiagnostic (v : Violation) : Diagnostic :=
  { severity := .error, id := diagnosticId, message := v.message, line := v.line }

/-- The text of several violations: the first one and how many follow. -/
def summary : List Violation → String
  | [] => "policy violation"
  | [v] => v.message
  | v :: rest => v.message ++ " (and " ++ toString rest.length ++ " more)"

end Violation

end GuestGate
