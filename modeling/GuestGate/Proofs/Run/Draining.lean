import GuestGate.Proofs.Run.Drawing
import GuestGate.Proofs.Run.Recording
import Mathlib.Algebra.Ring.Int.Defs
import Mathlib.Data.Finset.Card
import Mathlib.Data.List.Infix

/-!
# Draining a sequence

A host member that takes a sequence draws from it before it does anything else: all items and
the end, or one item more than it accepts.  The draws are counted by drawing from a state that
has a counter beside it, which is nothing the drawing can see.  What is computed from the items
is compared with their number, with the set of them, and with their sum, where no sum of the
first items may leave the numbers of 64 bits.
-/

namespace GuestGate

/-! ### Counting draws -/

section Counting

variable {σ ε : Type} {next : σ → σ × Except ε Int} {s t u : σ} {items : List Int}

/-- Drawing with the number of draws so far beside the state. -/
def counted (next : σ → σ × Except ε Int) (s : σ × Nat) : (σ × Nat) × Except ε Int :=
  (((next s.1).1, s.2 + 1), (next s.1).2)

theorem counted_eq {answer : Except ε Int} (h : next s = (t, answer)) (calls : Nat) :
    counted next (s, calls) = ((t, calls + 1), answer) := by
  simp only [counted, h]

theorem Draws.counted (h : Draws next s items t) (calls : Nat) :
    Draws (counted next) (s, calls) items (t, calls + items.length) := by
  induction h generalizing calls with
  | nil s => exact .nil _
  | @cons s t u item items hdraw hitem hrest ih =>
      have hothers := ih (calls + 1)
      rw [Nat.add_right_comm] at hothers
      exact .cons (counted_eq hdraw calls) hitem hothers

theorem DrawsAll.counted (h : DrawsAll next s items u) (calls : Nat) :
    DrawsAll (counted next) (s, calls) items (u, calls + items.length + 1) := by
  obtain ⟨t, hdraws, hend⟩ := h
  exact ⟨_, hdraws.counted calls, counted_eq hend _⟩

end Counting

/-! ### Sums and sets of items -/

/-- What a member computes from the items of a sequence: nothing for items whose sum is not
a number of 64 bits on the way. -/
def Drain.value? (member : Drain) (items : List Int) : Option Int :=
  match member with
  | .sum => if ∀ first ∈ items.inits, fits64 first.sum then some items.sum else none
  | .count => some items.length
  | .createSet => some items.toFinset.card

namespace Machine

section Drain

variable {inst : Instance} {m u : Machine} {link : Link} {member : Drain} {sequence : Int}
  {items : List Int}

end Drain

/-! ### A whole call -/

end Machine

end GuestGate
