/-!
# Limits of a run

The bounds that hold for every run of a guest program.
-/

namespace GuestGate

/-- Bounds on time, memory, fuel and recorded output.  Times are in
nanoseconds. -/
structure RunConfig where
  /-- Time that a run may take. -/
  timeout : Nat := 10 * 1000000000
  /-- Bytes of linear memory that a guest may have. -/
  maxMemory : Nat := 64 * 1024 * 1024
  /-- Fuel that a guest may use up.  Without a budget fuel is not metered. -/
  maxFuel : Option Nat := none
  /-- How often a running guest is checked for interruption. -/
  epochTick : Nat := 10 * 1000000
  /-- Flow events that are kept. -/
  maxFlowEvents : Nat := 10000
  /-- Bytes of output that are kept. -/
  maxOutputBytes : Nat := 64 * 1024
  /-- Compiled modules that are kept. -/
  moduleCacheCapacity : Nat := 64
deriving DecidableEq, Repr

end GuestGate
