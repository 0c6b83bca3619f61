import GuestGate.Member

/-!
# Call sites

A call of a library member as a compiled program makes it: the member, the
shape of each parameter, and the guards that policy has attached.
-/

namespace GuestGate

/-- How a parameter of a called member behaves at run time. -/
inductive ParamShape
  /-- A plain value. -/
  | value
  /-- A sequence the callee draws items from. -/
  | sequence
  /-- A number that drives repetition, allocation or waiting. -/
  | count
  /-- A sequence copied into a bounded buffer before the call. -/
  | materialized
deriving DecidableEq, Repr

def ParamShape.name : ParamShape → String
  | value => "value"
  | sequence => "sequence"
  | count => "count"
  | materialized => "materialized"

def ParamShape.ofName? (word : String) : Option ParamShape :=
  [value, sequence, count, materialized].find? fun shape ↦ shape.name == word

inductive Guard
  /-- Copy the sequence first and refuse more than `maxItems` items. -/
  | materialize (parameter : Nat) (maxItems : Nat)
  /-- Refuse a count that is negative or above `max`. -/
  | limit (parameter : Nat) (max : Int)
deriving DecidableEq, Repr

def Guard.parameter : Guard → Nat
  | materialize parameter _ => parameter
  | limit parameter _ => parameter

structure CallSite where
  member : MemberRef
  parameters : List ParamShape
  guards : List Guard := []
  line : Option Nat := none
deriving DecidableEq, Repr

namespace CallSite

/-- The first guard on a parameter. -/
def guardFor? (site : CallSite) (parameter : Nat) : Option Guard :=
  site.guards.find? fun guard ↦ guard.parameter == parameter

/-- The item bound on a parameter, when its first guard is one. -/
def materializeLimit? (site : CallSite) (parameter : Nat) : Option Nat :=
  match site.guardFor? parameter with
  | some (.materialize _ maxItems) => some maxItems
  | _ => none

/-- The upper bound on a parameter, when its first guard is one. -/
def countLimit? (site : CallSite) (parameter : Nat) : Option Int :=
  match site.guardFor? parameter with
  | some (.limit _ max) => some max
  | _ => none

def positions (site : CallSite) (shape : ParamShape) : List Nat :=
  (site.parameters.zipIdx.filter fun parameter ↦ parameter.1 == shape).map Prod.snd

theorem mem_positions {site : CallSite} {shape : ParamShape} {i : Nat} :
    i ∈ site.positions shape ↔ site.parameters[i]? = some shape := by
  simp [positions, List.mem_zipIdx_iff_getElem?]

end CallSite

end GuestGate
