import GuestGate.Run.Machine

/-!
# Drawing items from a sequence

A host member knows a sequence only by drawing from it.  Within a bound it gets all items
of the sequence or one item too many, unless a draw fails before.
-/

namespace GuestGate

variable {σ ε : Type}

/-- Drawing from a state gives some items, one after another, and leads to another state. -/
inductive Draws (next : σ → σ × Except ε Int) : σ → List Int → σ → Prop
  | nil (s : σ) : Draws next s [] s
  | cons {s t u : σ} {item : Int} {items : List Int} (hdraw : next s = (t, .ok item))
      (hitem : item ≠ sequenceEnd) (hrest : Draws next t items u) : Draws next s (item :: items) u

/-- Drawing gives some items and then the end of the sequence. -/
def DrawsAll (next : σ → σ × Except ε Int) (s : σ) (items : List Int) (u : σ) : Prop :=
  ∃ t, Draws next s items t ∧ next t = (u, .ok sequenceEnd)

variable {next : σ → σ × Except ε Int} {s t u : σ} {items : List Int}

theorem drawAll_of_end (room : Nat) (taken : Array Int) (h : next s = (t, .ok sequenceEnd)) :
    drawAll next room taken s = (t, .all taken.toList) := by
  cases room <;> simp [drawAll, h]

theorem drawAll_succ {item : Int} (room : Nat) (taken : Array Int) (h : next s = (t, .ok item))
    (hitem : item ≠ sequenceEnd) :
    drawAll next (room + 1) taken s = drawAll next room (taken.push item) t := by
  rw [drawAll, h]
  simp [hitem]

theorem drawAll_of_drawsAll (h : DrawsAll next s items u) {room : Nat}
    (hroom : items.length ≤ room) (taken : Array Int) :
    drawAll next room taken s = (u, .all (taken.toList ++ items)) := by
  obtain ⟨t, hdraws, hend⟩ := h
  induction hdraws generalizing room taken with
  | nil s => simpa using drawAll_of_end room taken hend
  | @cons s t _ item items hdraw hitem hrest ih =>
      cases room with
      | zero => simp at hroom
      | succ room =>
          rw [drawAll_succ room taken hdraw hitem, ih (Nat.le_of_succ_le_succ hroom) _ hend]
          simp

theorem Draws.take (h : Draws next s items t) (n : Nat) :
    ∃ v, Draws next s (items.take n) v := by
  induction h generalizing n with
  | nil s => exact ⟨s, by simpa using .nil s⟩
  | @cons s t _ item items hdraw hitem hrest ih =>
      cases n with
      | zero => exact ⟨s, .nil s⟩
      | succ n =>
          obtain ⟨v, hv⟩ := ih n
          exact ⟨v, .cons hdraw hitem hv⟩

/-- One item more than there is room for is the last one that is drawn. -/
theorem drawAll_of_draws_succ (h : Draws next s items t) {room : Nat}
    (hlength : items.length = room + 1) (taken : Array Int) :
    drawAll next room taken s = (t, .tooMany) := by
  induction h generalizing room taken with
  | nil s => simp at hlength
  | @cons s t _ item items hdraw hitem hrest ih =>
      cases room with
      | zero =>
          have hnone : items = [] := by simpa using hlength
          subst hnone
          cases hrest
          simp [drawAll, hdraw, hitem]
      | succ room =>
          rw [drawAll_succ room taken hdraw hitem]
          exact ih (by simpa using hlength) _

theorem drawAll_of_draws (h : Draws next s items t) {room : Nat} (hroom : room < items.length)
    (taken : Array Int) :
    ∃ v, Draws next s (items.take (room + 1)) v ∧ drawAll next room taken s = (v, .tooMany) := by
  obtain ⟨v, hv⟩ := h.take (room + 1)
  have hlength : (items.take (room + 1)).length = room + 1 := List.length_take_of_le hroom
  exact ⟨v, hv, drawAll_of_draws_succ hv hlength taken⟩

/-- Every end of drawing within a bound: the whole sequence, one item too many, or a draw
that failed. -/
theorem drawAll_spec (next : σ → σ × Except ε Int) (room : Nat) (taken : Array Int) (s : σ) :
    (∃ items u, drawAll next room taken s = (u, .all (taken.toList ++ items)) ∧
      DrawsAll next s items u ∧ items.length ≤ room) ∨
    (∃ items u, drawAll next room taken s = (u, .tooMany) ∧ Draws next s items u ∧
      items.length = room + 1) ∨
    ∃ items t u e, drawAll next room taken s = (u, .failed e) ∧ Draws next s items t ∧
      next t = (u, .error e) ∧ items.length ≤ room := by
  rcases hnext : next s with ⟨t, e | item⟩
  · exact .inr (.inr ⟨[], s, t, e, by cases room <;> simp [drawAll, hnext], .nil s, hnext,
      Nat.zero_le room⟩)
  · by_cases hitem : item = sequenceEnd
    · subst hitem
      exact .inl ⟨[], t, by simp [drawAll_of_end room taken hnext], ⟨s, .nil s, hnext⟩,
        Nat.zero_le room⟩
    · cases room with
      | zero =>
          exact .inr (.inl ⟨[item], t, by simp [drawAll, hnext, hitem],
            .cons hnext hitem (.nil t), rfl⟩)
      | succ room =>
          -- there is room for this item, and the rest is drawn with one place less
          rw [drawAll_succ room taken hnext hitem]
          obtain ⟨items, u, hall, ⟨v, hdraws, hend⟩, hlength⟩ | ⟨items, u, hmany, hdraws, hlength⟩ |
            ⟨items, v, u, e, hfailed, hdraws, herror, hlength⟩ :=
              drawAll_spec next room (taken.push item) t
          · exact .inl ⟨item :: items, u, by simp [hall], ⟨v, .cons hnext hitem hdraws, hend⟩,
              Nat.succ_le_succ hlength⟩
          · exact .inr (.inl ⟨item :: items, u, hmany, .cons hnext hitem hdraws,
              congrArg (· + 1) hlength⟩)
          · exact .inr (.inr ⟨item :: items, v, u, e, hfailed, .cons hnext hitem hdraws, herror,
              Nat.succ_le_succ hlength⟩)

/-- A sequence that ends gives no more items than it has. -/
theorem Draws.length_le (h : Draws next s items t) {all : List Int} (hall : DrawsAll next s all u) :
    items.length ≤ all.length := by
  refine Nat.le_of_not_lt fun hlonger ↦ ?_
  have hwhole := drawAll_of_drawsAll hall (Nat.le_refl _) #[]
  obtain ⟨v, -, hmany⟩ := drawAll_of_draws h hlonger #[]
  rw [hwhole] at hmany
  simp at hmany

end GuestGate
