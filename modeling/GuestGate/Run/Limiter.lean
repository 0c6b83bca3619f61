/-!
# The resource limiter

Every growth of memory or of a table is asked for here first.  A refusal is no
fault by itself, but it is remembered.
-/

namespace GuestGate

structure Limiter where
  /-- Bytes of memory that may be granted. -/
  ceiling : Nat
  /-- The largest memory granted so far. -/
  peakMemory : Nat := 0
  /-- Whether anything was refused. -/
  exceeded : Bool := false
deriving DecidableEq, Repr

namespace Limiter

/-- The elements that a table may have. -/
def tableCeiling : Nat := 10000

def growMemory (l : Limiter) (desired : Nat) : Limiter × Bool :=
  if desired ≤ l.ceiling then ({ l with peakMemory := max l.peakMemory desired }, true)
  else ({ l with exceeded := true }, false)

def growTable (l : Limiter) (desired : Nat) : Limiter × Bool :=
  if desired ≤ tableCeiling then (l, true) else ({ l with exceeded := true }, false)

end Limiter

end GuestGate
