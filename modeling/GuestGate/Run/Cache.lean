/-!
# The module cache

Compiled modules by the bytes they were compiled from, and these keys in the order in which
they were put in.  A full cache gives up the module that was put in first; using a module does
not make it younger.
-/

namespace GuestGate

/-- At most `capacity` modules by their keys, and the keys with the oldest first. -/
structure ModuleCache (κ μ : Type) where
  capacity : Nat
  modules : List (κ × μ) := []
  order : List κ := []
deriving DecidableEq, Repr

namespace ModuleCache

variable {κ μ : Type} [BEq κ]

def size (c : ModuleCache κ μ) : Nat :=
  c.modules.length

def find? (c : ModuleCache κ μ) (key : κ) : Option μ :=
  c.modules.lookup key

def contains (c : ModuleCache κ μ) (key : κ) : Bool :=
  (c.find? key).isSome

def evictOldest (c : ModuleCache κ μ) : ModuleCache κ μ :=
  match c.order with
  | [] => c
  | oldest :: younger =>
      { c with
        modules := c.modules.filter fun entry ↦ entry.1 != oldest
        order := younger }

@[simp]
theorem capacity_evictOldest (c : ModuleCache κ μ) : c.evictOldest.capacity = c.capacity := by
  unfold evictOldest
  split <;> rfl

@[simp]
theorem order_evictOldest (c : ModuleCache κ μ) : c.evictOldest.order = c.order.tail := by
  unfold evictOldest
  split <;> simp_all

/-- Give up the oldest modules, one after another, until there is room for one more.  Without
any capacity there never is. -/
def makeRoom (c : ModuleCache κ μ) (h : 0 < c.capacity) : ModuleCache κ μ :=
  if _hfull : c.capacity ≤ c.order.length then
    c.evictOldest.makeRoom (c.capacity_evictOldest.symm ▸ h)
  else c
termination_by c.order.length
decreasing_by
  simp only [order_evictOldest, List.length_tail]
  omega

/-- Put in a module that has just been compiled, and answer with the module to
use.  One that is there by now is used instead. -/
def insert (c : ModuleCache κ μ) (key : κ) (module : μ) : ModuleCache κ μ × μ :=
  if h : c.capacity = 0 then (c, module)
  else
    match c.find? key with
    | some present => (c, present)
    | none =>
        let c := c.makeRoom (Nat.pos_of_ne_zero h)
        ({ c with modules := (key, module) :: c.modules, order := c.order ++ [key] }, module)

def clear (c : ModuleCache κ μ) : ModuleCache κ μ :=
  { c with modules := [], order := [] }

/-- The module of a key, compiled and put in if it is not there.  A key that
does not compile leaves the cache as it is. -/
def load (c : ModuleCache κ μ) (compile : κ → Option μ) (key : κ) : ModuleCache κ μ × Option μ :=
  match c.find? key with
  | some present => (c, some present)
  | none =>
      match compile key with
      | none => (c, none)
      | some module =>
          let (c, module) := c.insert key module
          (c, some module)

end ModuleCache

end GuestGate
