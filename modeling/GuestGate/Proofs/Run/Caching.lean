import Mathlib.Data.List.Perm.Basic
import Mathlib.Logic.Function.Iterate
import GuestGate.Run.Cache

/-!
# A cache that callers share

A caller looks for a key, compiles what it does not find while others go on, and then puts it
in.  So whatever was true when it looked may have changed by then.  The modules and the order
of their keys agree all the same after any steps of any callers, and what is in the cache is
what was put in last.
-/

namespace GuestGate

namespace ModuleCache

variable {κ μ : Type} {c : ModuleCache κ μ} {key : κ} {module : μ}

/-! ### Modules and their order -/

/-- The order has each key of a module once and no others. -/
structure Synced (c : ModuleCache κ μ) : Prop where
  nodup : c.order.Nodup
  keys : (c.modules.map Prod.fst).Perm c.order

theorem Synced.size_eq (h : c.Synced) : c.size = c.order.length := by
  simpa [size] using h.keys.length_eq

variable [DecidableEq κ]

theorem find?_eq_none_iff : c.find? key = none ↔ key ∉ c.modules.map Prod.fst := by
  rw [find?, List.lookup_eq_none_iff]
  constructor
  · intro h hmem
    obtain ⟨entry, hentry, rfl⟩ := List.mem_map.mp hmem
    simpa using h entry hentry
  · intro h entry hentry
    rw [bne_iff_ne]
    rintro rfl
    exact h (List.mem_map_of_mem hentry)

theorem mem_of_find? (h : c.find? key = some module) : (key, module) ∈ c.modules := by
  obtain ⟨before, after, hsplit, -⟩ := List.lookup_eq_some_iff.mp h
  simp [hsplit]

theorem Synced.find?_eq_none_iff (h : c.Synced) : c.find? key = none ↔ key ∉ c.order := by
  rw [ModuleCache.find?_eq_none_iff, h.keys.mem_iff]

theorem Synced.contains_iff (h : c.Synced) : c.contains key = true ↔ key ∈ c.order := by
  rw [contains, Option.isSome_iff_ne_none, ne_eq, h.find?_eq_none_iff, not_not]

theorem modules_evictOldest_sublist (c : ModuleCache κ μ) :
    c.evictOldest.modules.Sublist c.modules := by
  unfold evictOldest
  split
  · exact .refl _
  · exact List.filter_sublist

theorem Synced.evictOldest (h : c.Synced) : c.evictOldest.Synced := by
  unfold ModuleCache.evictOldest
  split
  · exact h
  · next oldest younger horder =>
      have hnodup := h.nodup
      have hkeys := h.keys
      rw [horder] at hnodup hkeys
      obtain ⟨hnew, hyounger⟩ := List.nodup_cons.mp hnodup
      refine ⟨hyounger, ?_⟩
      have hfilter : (oldest :: younger).filter (· != oldest) = younger := by
        rw [List.filter_cons_of_neg (by simp), List.filter_eq_self]
        intro key hkey
        rw [bne_iff_ne]
        rintro rfl
        exact hnew hkey
      have hperm := hkeys.filter (· != oldest)
      rw [hfilter, List.filter_map] at hperm
      exact hperm

/-! ### Making room -/

theorem makeRoom_of_room {h : 0 < c.capacity} (hroom : c.order.length < c.capacity) :
    c.makeRoom h = c := by
  rw [makeRoom, dif_neg (Nat.not_le_of_lt hroom)]

theorem makeRoom_of_full {h : 0 < c.capacity} (hfull : c.capacity ≤ c.order.length) :
    c.makeRoom h = c.evictOldest.makeRoom (c.capacity_evictOldest.symm ▸ h) := by
  rw [makeRoom, dif_pos hfull]

theorem capacity_iterate (n : Nat) (c : ModuleCache κ μ) :
    (ModuleCache.evictOldest^[n] c).capacity = c.capacity := by
  induction n generalizing c with
  | zero => rfl
  | succ n ih => rw [Function.iterate_succ_apply, ih, capacity_evictOldest]

theorem order_iterate (n : Nat) (c : ModuleCache κ μ) :
    (ModuleCache.evictOldest^[n] c).order = c.order.drop n := by
  induction n generalizing c with
  | zero => rfl
  | succ n ih => rw [Function.iterate_succ_apply, ih, order_evictOldest, List.drop_tail]

/-- Making room gives up as many modules as it takes. -/
theorem makeRoom_eq_iterate (h : 0 < c.capacity) :
    c.makeRoom h = ModuleCache.evictOldest^[c.order.length + 1 - c.capacity] c := by
  induction c, h using makeRoom.induct with
  | case1 c h hfull ih =>
      have hcount : c.order.length + 1 - c.capacity =
          c.evictOldest.order.length + 1 - c.evictOldest.capacity + 1 := by
        rw [order_evictOldest, capacity_evictOldest, List.length_tail]
        omega
      rw [makeRoom_of_full hfull, ih, hcount, Function.iterate_succ_apply]
  | case2 c h hroom =>
      have hnone : c.order.length + 1 - c.capacity = 0 := by omega
      rw [makeRoom_of_room (Nat.lt_of_not_le hroom), hnone]
      rfl

theorem Synced.iterate (h : c.Synced) (n : Nat) : (ModuleCache.evictOldest^[n] c).Synced := by
  induction n generalizing c with
  | zero => exact h
  | succ n ih =>
      rw [Function.iterate_succ_apply]
      exact ih h.evictOldest

theorem modules_iterate_subset (n : Nat) (c : ModuleCache κ μ) :
    (ModuleCache.evictOldest^[n] c).modules ⊆ c.modules := by
  induction n generalizing c with
  | zero => exact List.Subset.refl _
  | succ n ih =>
      rw [Function.iterate_succ_apply]
      exact List.Subset.trans (ih _) c.modules_evictOldest_sublist.subset

/-- Making room ends with the first of its steps after which there is room. -/
theorem makeRoom_ends (h : 0 < c.capacity) : ∃ n,
    c.makeRoom h = ModuleCache.evictOldest^[n] c ∧
      (ModuleCache.evictOldest^[n] c).order.length < c.capacity ∧
      ∀ i < n, c.capacity ≤ (ModuleCache.evictOldest^[i] c).order.length := by
  refine ⟨c.order.length + 1 - c.capacity, makeRoom_eq_iterate h, ?_, fun i hi ↦ ?_⟩
  · rw [order_iterate, List.length_drop]
    omega
  · rw [order_iterate, List.length_drop]
    omega

/-! ### Putting in -/

theorem contains_eq_false_iff : c.contains key = false ↔ c.find? key = none := by
  rw [contains, Option.isSome_eq_false_iff, Option.isNone_iff_eq_none]

/-- Nothing is put in where there is no capacity, or what is there is used instead. -/
theorem insert_of_kept (h : c.capacity = 0 ∨ c.contains key = true) :
    (c.insert key module).1 = c := by
  unfold insert
  split
  · rfl
  · next hcapacity =>
      obtain ⟨present, hpresent⟩ := Option.isSome_iff_exists.mp (h.resolve_left hcapacity)
      rw [hpresent]

theorem insert_of_new (hcapacity : 0 < c.capacity) (hnew : c.contains key = false) :
    c.insert key module =
      ({ c.makeRoom hcapacity with
          modules := (key, module) :: (c.makeRoom hcapacity).modules
          order := c.order.drop (c.order.length + 1 - c.capacity) ++ [key] }, module) := by
  rw [insert, dif_neg (Nat.ne_of_gt hcapacity), contains_eq_false_iff.mp hnew]
  simp only [makeRoom_eq_iterate, order_iterate]

/-- The answer is the new module, or the one that is there for the same key. -/
theorem insert_answer (c : ModuleCache κ μ) (key : κ) (module : μ) :
    (c.insert key module).2 = module ∨ (key, (c.insert key module).2) ∈ c.modules := by
  unfold insert
  split
  · exact .inl rfl
  · split
    · next present hpresent => exact .inr (mem_of_find? hpresent)
    · exact .inl rfl

theorem Synced.insert (h : c.Synced) (key : κ) (module : μ) : (c.insert key module).1.Synced := by
  by_cases hkept : c.capacity = 0 ∨ c.contains key = true
  · rw [insert_of_kept hkept]
    exact h
  · obtain ⟨hcapacity, hnew⟩ := not_or.mp hkept
    have hcapacity : 0 < c.capacity := Nat.pos_of_ne_zero hcapacity
    have hfresh : key ∉ c.order := fun hmem ↦ hnew (h.contains_iff.mpr hmem)
    have hroom : (c.makeRoom hcapacity).Synced := makeRoom_eq_iterate hcapacity ▸ h.iterate _
    have horder : (c.makeRoom hcapacity).order =
        c.order.drop (c.order.length + 1 - c.capacity) := by
      rw [makeRoom_eq_iterate, order_iterate]
    rw [insert_of_new hcapacity (Bool.eq_false_iff.mpr hnew)]
    refine ⟨?_, ?_⟩
    · refine List.nodup_append.mpr ⟨h.nodup.sublist (List.drop_sublist _ _),
        by simp, ?_⟩
      rintro old hold new hnew rfl
      exact hfresh (List.mem_singleton.mp hnew ▸ List.mem_of_mem_drop hold)
    · have hkeys := hroom.keys
      rw [horder] at hkeys
      exact (hkeys.cons key).trans (List.perm_append_singleton _ _).symm

theorem capacity_insert (c : ModuleCache κ μ) (key : κ) (module : μ) :
    (c.insert key module).1.capacity = c.capacity := by
  by_cases hkept : c.capacity = 0 ∨ c.contains key = true
  · rw [insert_of_kept hkept]
  · obtain ⟨hcapacity, hnew⟩ := not_or.mp hkept
    have hcapacity : 0 < c.capacity := Nat.pos_of_ne_zero hcapacity
    rw [insert_of_new hcapacity (Bool.eq_false_iff.mpr hnew)]
    exact makeRoom_eq_iterate hcapacity ▸ capacity_iterate _ c

theorem modules_insert_subset (c : ModuleCache κ μ) (key : κ) (module : μ) :
    (c.insert key module).1.modules ⊆ (key, module) :: c.modules := by
  by_cases hkept : c.capacity = 0 ∨ c.contains key = true
  · rw [insert_of_kept hkept]
    exact List.subset_cons_self _ _
  · obtain ⟨hcapacity, hnew⟩ := not_or.mp hkept
    have hcapacity : 0 < c.capacity := Nat.pos_of_ne_zero hcapacity
    rw [insert_of_new hcapacity (Bool.eq_false_iff.mpr hnew), makeRoom_eq_iterate hcapacity]
    exact List.cons_subset_cons _ (modules_iterate_subset _ c)

end ModuleCache

/-! ## Callers -/

inductive CacheStep (ι κ : Type)
  | lookUp (caller : ι) (key : κ)
  | putIn (caller : ι)
  | clear

structure CacheAnswer (ι κ μ : Type) where
  caller : ι
  key : κ
  module : Option μ

/-- A cache and all its callers. -/
structure SharedCache (ι κ μ : Type) where
  cache : ModuleCache κ μ
  /-- What a caller in the middle of a call has compiled, and for which key. -/
  compiled : ι → Option (κ × μ) := fun _ ↦ none
  answers : List (CacheAnswer ι κ μ) := []
  /-- The keys put in since the cache was last emptied, the oldest first. -/
  inserted : List κ := []

namespace SharedCache

variable {ι κ μ : Type}

def answer (s : SharedCache ι κ μ) (caller : ι) (key : κ) (module : Option μ) :
    SharedCache ι κ μ :=
  { s with answers := s.answers ++ [⟨caller, key, module⟩] }

variable {compile : κ → Option μ} {capacity : Nat} {s : SharedCache ι κ μ}

/-- What is true of a cache and its callers between any two steps. -/
structure Sound (compile : κ → Option μ) (capacity : Nat) (s : SharedCache ι κ μ) : Prop where
  capacity_eq : s.cache.capacity = capacity
  synced : s.cache.Synced
  youngest : s.cache.order = s.inserted.drop (s.inserted.length - capacity)
  modules : ∀ entry ∈ s.cache.modules, compile entry.1 = some entry.2
  compiled : ∀ caller, ∀ entry ∈ s.compiled caller, compile entry.1 = some entry.2
  answers : ∀ answer ∈ s.answers, answer.module = compile answer.key

theorem Sound.answer (h : s.Sound compile capacity) (caller : ι) {key : κ} {module : Option μ}
    (hmodule : module = compile key) : (s.answer caller key module).Sound compile capacity :=
  { h with
    answers := by
      intro answer hanswer
      obtain hanswer | hanswer := List.mem_append.mp hanswer
      · exact h.answers answer hanswer
      · rw [List.mem_singleton.mp hanswer]
        exact hmodule }

theorem Sound.clear (h : s.Sound compile capacity) :
    Sound compile capacity { s with cache := s.cache.clear, inserted := [] } :=
  { h with
    synced := ⟨.nil, .nil⟩
    youngest := List.drop_nil.symm
    modules := List.forall_mem_nil _ }

/-! ### Steps -/

variable [DecidableEq κ]

/-- The keys put in, with one more unless it is there or there is no capacity. -/
def insertedWith (s : SharedCache ι κ μ) (key : κ) : List κ :=
  if s.cache.capacity = 0 ∨ s.cache.contains key then s.inserted else s.inserted ++ [key]

variable [DecidableEq ι]

/-- A caller looks for a key and, if that fails, compiles it.  One that has not put in what it
compiled before is not there to look. -/
def lookUp (compile : κ → Option μ) (s : SharedCache ι κ μ) (caller : ι) (key : κ) :
    SharedCache ι κ μ :=
  if (s.compiled caller).isSome then s
  else
    match s.cache.find? key with
    | some present => s.answer caller key (some present)
    | none =>
        match compile key with
        | none => s.answer caller key none
        | some module =>
            { s with compiled := Function.update s.compiled caller (some (key, module)) }

/-- A caller puts in what it has compiled. -/
def putIn (s : SharedCache ι κ μ) (caller : ι) : SharedCache ι κ μ :=
  match s.compiled caller with
  | none => s
  | some (key, module) =>
      let inserted := s.cache.insert key module
      { s with
        cache := inserted.1
        compiled := Function.update s.compiled caller none
        inserted := s.insertedWith key }.answer caller key (some inserted.2)

def step (compile : κ → Option μ) (s : SharedCache ι κ μ) : CacheStep ι κ → SharedCache ι κ μ
  | .lookUp caller key => s.lookUp compile caller key
  | .putIn caller => s.putIn caller
  | .clear => { s with cache := s.cache.clear, inserted := [] }

/-- The state after some steps of any callers, from an empty cache. -/
def run (compile : κ → Option μ) (capacity : Nat) (steps : List (CacheStep ι κ)) :
    SharedCache ι κ μ :=
  steps.foldl (step compile) { cache := { capacity } }

/-! ### What every step keeps -/

omit [DecidableEq κ] in
theorem Sound.update (h : s.Sound compile capacity) (caller : ι) {compiled : Option (κ × μ)}
    (hcompiled : ∀ entry ∈ compiled, compile entry.1 = some entry.2) (other : ι) :
    ∀ entry ∈ Function.update s.compiled caller compiled other,
      compile entry.1 = some entry.2 := by
  by_cases heq : other = caller
  · rw [heq, Function.update_self]
    exact hcompiled
  · rw [Function.update_of_ne heq]
    exact h.compiled other

theorem Sound.lookUp (h : s.Sound compile capacity) (caller : ι) (key : κ) :
    (s.lookUp compile caller key).Sound compile capacity := by
  unfold SharedCache.lookUp
  split
  · exact h
  · split
    · next present hpresent =>
        exact h.answer caller (h.modules _ (ModuleCache.mem_of_find? hpresent)).symm
    · split
      · next hnone => exact h.answer caller hnone.symm
      · next module hmodule =>
          have hown : ∀ entry ∈ some (key, module), compile entry.1 = some entry.2 := by
            rintro entry hentry
            cases hentry
            exact hmodule
          exact { h with compiled := h.update caller hown }

omit [DecidableEq ι] in
/-- The keys of the cache are the last ones put in, also after one more. -/
theorem Sound.youngest_insert (h : s.Sound compile capacity) (key : κ) (module : μ) :
    (s.cache.insert key module).1.order =
      (s.insertedWith key).drop ((s.insertedWith key).length - capacity) := by
  unfold insertedWith
  split
  · next hkept =>
      rw [ModuleCache.insert_of_kept hkept]
      exact h.youngest
  · next hkept =>
      obtain ⟨hcapacity, hnew⟩ := not_or.mp hkept
      have hcapacity : 0 < s.cache.capacity := Nat.pos_of_ne_zero hcapacity
      have heq : s.cache.capacity = capacity := h.capacity_eq
      have hlength : s.cache.order.length =
          s.inserted.length - (s.inserted.length - capacity) := by
        rw [h.youngest, List.length_drop]
      have hcount : s.inserted.length - capacity +
          (s.cache.order.length + 1 - s.cache.capacity) = s.inserted.length + 1 - capacity := by
        omega
      have hinside : s.inserted.length + 1 - capacity ≤ s.inserted.length := by
        omega
      rw [ModuleCache.insert_of_new hcapacity (Bool.eq_false_iff.mpr hnew), List.length_append,
        List.length_singleton, List.drop_append_of_le_length hinside, ← hcount, ← List.drop_drop,
        ← h.youngest]

theorem Sound.putIn (h : s.Sound compile capacity) (caller : ι) :
    (s.putIn caller).Sound compile capacity := by
  unfold SharedCache.putIn
  split
  · exact h
  · next key module hcompiled =>
      have hkey : compile key = some module := h.compiled caller (key, module) hcompiled
      have hnext : Sound compile capacity
          { s with
            cache := (s.cache.insert key module).1
            compiled := Function.update s.compiled caller none
            inserted := s.insertedWith key } := {
        capacity_eq := (s.cache.capacity_insert key module).trans h.capacity_eq
        synced := h.synced.insert key module
        youngest := h.youngest_insert key module
        modules := fun entry hentry ↦ by
          obtain rfl | hentry :=
            List.mem_cons.mp (s.cache.modules_insert_subset key module hentry)
          · exact hkey
          · exact h.modules entry hentry
        compiled := h.update caller nofun
        answers := h.answers }
      refine hnext.answer caller ?_
      obtain heq | hmem := s.cache.insert_answer key module
      · rw [heq, hkey]
      · exact (h.modules _ hmem).symm

theorem Sound.step (h : s.Sound compile capacity) (next : CacheStep ι κ) :
    (s.step compile next).Sound compile capacity := by
  cases next with
  | lookUp caller key => exact h.lookUp caller key
  | putIn caller => exact h.putIn caller
  | clear => exact h.clear

theorem sound_run (compile : κ → Option μ) (capacity : Nat) (steps : List (CacheStep ι κ)) :
    (run compile capacity steps).Sound compile capacity := by
  have hstart : Sound compile capacity ({ cache := { capacity } } : SharedCache ι κ μ) := {
    capacity_eq := rfl
    synced := ⟨.nil, .nil⟩
    youngest := List.drop_nil.symm
    modules := List.forall_mem_nil _
    compiled := fun _ ↦ nofun
    answers := List.forall_mem_nil _ }
  have hfoldl : ∀ s : SharedCache ι κ μ, s.Sound compile capacity →
      (steps.foldl (SharedCache.step compile) s).Sound compile capacity := by
    induction steps with
    | nil => exact fun _ h ↦ h
    | cons next rest ih => exact fun _ h ↦ ih _ (h.step next)
  exact hfoldl _ hstart

/-! ### Consistency -/

/-- The two steps of a caller that is not interrupted are one load. -/
theorem lookUp_putIn (compile : κ → Option μ) (s : SharedCache ι κ μ) {caller : ι}
    (hidle : s.compiled caller = none) (key : κ) :
    ((s.lookUp compile caller key).putIn caller).cache = (s.cache.load compile key).1 ∧
      ((s.lookUp compile caller key).putIn caller).answers =
        s.answers ++ [⟨caller, key, (s.cache.load compile key).2⟩] := by
  cases hfind : s.cache.find? key with
  | some present => simp [lookUp, putIn, answer, ModuleCache.load, hidle, hfind]
  | none =>
      cases hcompile : compile key with
      | none => simp [lookUp, putIn, answer, ModuleCache.load, hidle, hfind, hcompile]
      | some module => simp [lookUp, putIn, answer, ModuleCache.load, hidle, hfind, hcompile]

theorem cache_lookUp (compile : κ → Option μ) (s : SharedCache ι κ μ) (caller : ι) (key : κ) :
    (s.lookUp compile caller key).cache = s.cache ∧
      (s.lookUp compile caller key).inserted = s.inserted := by
  fun_cases lookUp compile s caller key <;> exact ⟨rfl, rfl⟩

theorem cache_putIn_of_contains {caller : ι} {key : κ} {module : μ}
    (hcompiled : s.compiled caller = some (key, module)) (hkey : s.cache.contains key = true) :
    (s.putIn caller).cache = s.cache ∧ (s.putIn caller).inserted = s.inserted := by
  unfold putIn
  rw [hcompiled]
  exact ⟨ModuleCache.insert_of_kept (.inr hkey), if_pos (.inr hkey)⟩

theorem lookUp_of_invalid {caller : ι} {key : κ} (hidle : s.compiled caller = none)
    (hfind : s.cache.find? key = none) (hcompile : compile key = none) :
    s.lookUp compile caller key = s.answer caller key none := by
  simp [lookUp, hidle, hfind, hcompile]

omit [DecidableEq ι] in
theorem Sound.not_mem_of_invalid (h : s.Sound compile capacity) {key : κ}
    (hcompile : compile key = none) : key ∉ s.cache.order := by
  intro hmem
  obtain ⟨module, hmodule⟩ := Option.isSome_iff_exists.mp (h.synced.contains_iff.mpr hmem)
  have hkey := h.modules _ (ModuleCache.mem_of_find? hmodule)
  rw [hcompile] at hkey
  cases hkey

structure Consistent (compile : κ → Option μ) (capacity : Nat) (s : SharedCache ι κ μ) :
    Prop where
  capacity_eq : s.cache.capacity = capacity
  /-- No key is in the order twice. -/
  nodup : s.cache.order.Nodup
  /-- The order has exactly the keys of the modules. -/
  keys : (s.cache.modules.map Prod.fst).Perm s.cache.order
  size_le : s.cache.size ≤ capacity
  /-- The keys are the last ones put in since the cache was emptied, in that order. -/
  youngest : s.cache.order = s.inserted.drop (s.inserted.length - capacity)
  /-- Looking for a key, in the cache or not, leaves the cache as it is. -/
  looked : ∀ caller key, (s.step compile (.lookUp caller key)).cache = s.cache ∧
    (s.step compile (.lookUp caller key)).inserted = s.inserted
  /-- A key that is there by now is not put in again. -/
  present : ∀ caller, ∀ entry ∈ s.compiled caller, entry.1 ∈ s.cache.order →
    (s.step compile (.putIn caller)).cache = s.cache ∧
      (s.step compile (.putIn caller)).inserted = s.inserted
  /-- A key that does not compile is never there, and asking for it changes nothing. -/
  invalid : ∀ key, compile key = none → key ∉ s.cache.order ∧
    ∀ caller, s.compiled caller = none →
      s.step compile (.lookUp caller key) = s.answer caller key none
  /-- Every answer is what the caller's own key compiles to. -/
  own : ∀ answer ∈ s.answers, answer.module = compile answer.key
  /-- Giving up modules one after another ends as soon as there is room for one more. -/
  ends : ∀ h : 0 < s.cache.capacity, ∃ n,
    s.cache.makeRoom h = ModuleCache.evictOldest^[n] s.cache ∧
      (ModuleCache.evictOldest^[n] s.cache).order.length < s.cache.capacity ∧
      ∀ i < n, s.cache.capacity ≤ (ModuleCache.evictOldest^[i] s.cache).order.length
  /-- Without other callers in between, a call is one load. -/
  alone : ∀ caller key, s.compiled caller = none →
    ((s.step compile (.lookUp caller key)).step compile (.putIn caller)).cache =
        (s.cache.load compile key).1 ∧
      ((s.step compile (.lookUp caller key)).step compile (.putIn caller)).answers =
        s.answers ++ [⟨caller, key, (s.cache.load compile key).2⟩]

/-- After any steps of any number of callers, over any keys and from any capacity on, a shared
cache is consistent. -/
theorem consistent_run (compile : κ → Option μ) (capacity : Nat)
    (steps : List (CacheStep ι κ)) :
    (run compile capacity steps).Consistent compile capacity := by
  have h := sound_run compile capacity steps
  generalize run compile capacity steps = s at h ⊢
  exact {
    capacity_eq := h.capacity_eq
    nodup := h.synced.nodup
    keys := h.synced.keys
    size_le := by
      rw [h.synced.size_eq, h.youngest, List.length_drop]
      omega
    youngest := h.youngest
    looked := fun caller key ↦ cache_lookUp compile s caller key
    present := fun caller entry hentry hmem ↦
      cache_putIn_of_contains hentry (h.synced.contains_iff.mpr hmem)
    invalid := fun key hkey ↦ ⟨h.not_mem_of_invalid hkey, fun caller hidle ↦
      lookUp_of_invalid hidle (h.synced.find?_eq_none_iff.mpr (h.not_mem_of_invalid hkey)) hkey⟩
    own := h.answers
    ends := fun hcapacity ↦ ModuleCache.makeRoom_ends hcapacity
    alone := fun caller key hidle ↦ lookUp_putIn compile s hidle key }

end SharedCache

end GuestGate
