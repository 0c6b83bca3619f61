/-!
# Interruptions

A run is interrupted when its session is cancelled or its time is up.  The
first interruption that is noticed stays.
-/

namespace GuestGate

inductive Interruption
  | deadline
  | cancelled
deriving DecidableEq, Repr

/-- What can interrupt a run, and what has been noticed. -/
structure Watch where
  cancelled : Bool
  past : Bool
  noticed : Option Interruption := none
deriving DecidableEq, Repr

/-- Look for an interruption.  Cancelling goes before the deadline. -/
def Watch.check (w : Watch) : Watch :=
  match w.noticed with
  | some _ => w
  | none =>
      if w.cancelled then { w with noticed := some .cancelled }
      else if w.past then { w with noticed := some .deadline }
      else w

end GuestGate
