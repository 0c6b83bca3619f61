/-!
# Words

The numbers that guest code computes with have a fixed number of bits.  The
same bits can be read with a sign or without one, and a constant may be
written in either way.
-/

namespace GuestGate

def wrap64 (n : Int) : Int :=
  n.bmod 0x10000000000000000

/-- A number as 32 bits with a sign hold it. -/
def wrap32 (n : Int) : Int :=
  n.bmod 0x100000000

def unsigned32 (n : Int) : Nat :=
  (n % 0x100000000).toNat

/-- Whether a number can be written as a constant of 32 bits, with a sign or
without. -/
def isConstant32 (n : Int) : Bool :=
  -0x80000000 ≤ n && n < 0x100000000

end GuestGate
