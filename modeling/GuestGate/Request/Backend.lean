import GuestGate.Host.Image
import GuestGate.Session.Basic

/-!
# Backends

A backend shows a verified program to the client instead of running it.
-/

namespace GuestGate

/-- A view of a program in some session. -/
abbrev Backend : Type := Session → Streams → Except Failure String

namespace Backend

def symbolCount : Option (List UInt8) → String
  | some symbols => toString symbols.length
  | none => "no"

/-- A backend that tells how large a program is. -/
def sizes : Backend := fun session streams ↦
  .ok (session.target.getD "" ++ " for " ++ session.language.name ++ ": "
    ++ toString streams.binary.size ++ " bytes, " ++ symbolCount streams.symbols ++ " symbols")

def failing (failure : Failure) : Backend :=
  fun _ _ ↦ .error failure

end Backend

end GuestGate
