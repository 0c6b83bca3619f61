import GuestGate.Surface.Basic
import Mathlib.Data.List.Nodup
import Mathlib.Data.List.Perm.Subperm
import Mathlib.Logic.Relation

/-!
# The bases of a type

The chain of a type follows the names of bases through the table, which may lead in a circle or
to names that nobody has.  The walk visits a new row at every step, so it ends without a bound on
its length, and where it stops nothing is left out: the rows of the chain are those that can be
reached by base links.
-/

namespace GuestGate

namespace Surface

open Relation

variable {s : Surface} {row lower upper : Nat} {visited rest : List Nat}

/-- The type in a row names the one in another row as its base. -/
def Extends (s : Surface) (lower upper : Nat) : Prop :=
  ∃ t base, s.types[lower]? = some t ∧ t.base = some base ∧ s.findFull? base = some upper

theorem extends_iff : s.Extends lower upper ↔ s.base? lower = some upper := by
  simp [Extends, base?, Option.bind_eq_some_iff]

theorem lt_of_findFull? {full : String} (h : s.findFull? full = some row) :
    row < s.types.length :=
  (List.findIdx?_eq_some_iff_getElem.mp h).1

theorem Extends.lt (h : s.Extends lower upper) : upper < s.types.length := by
  obtain ⟨t, base, -, -, hfound⟩ := h
  exact lt_of_findFull? hfound

/-- The walk up the bases without a bound on its length: it ends where no base is known and
where it comes to a row that has been visited. -/
inductive Climbs (s : Surface) : List Nat → Nat → List Nat → Prop
  | top {visited : List Nat} {row : Nat} (hbase : s.base? row = none) : Climbs s visited row []
  | again {visited : List Nat} {row above : Nat} (hbase : s.base? row = some above)
      (hseen : above ∈ visited) : Climbs s visited row []
  | up {visited rest : List Nat} {row above : Nat} (hbase : s.base? row = some above)
      (hnew : above ∉ visited) (hrest : Climbs s (above :: visited) above rest) :
      Climbs s visited row (above :: rest)

/-! ### The walk ends -/

/-- Every step visits another row of the table, so the number of rows is enough. -/
theorem climbs_climb {fuel : Nat} (hnodup : visited.Nodup)
    (hrows : ∀ r ∈ visited, r < s.types.length)
    (hfuel : s.types.length < fuel + visited.length) :
    s.Climbs visited row (s.climb fuel visited row) := by
  induction fuel generalizing visited row with
  | zero =>
      have hsubset : visited ⊆ List.range s.types.length :=
        fun r hr ↦ List.mem_range.mpr (hrows r hr)
      have hle := (List.subperm_of_subset hnodup hsubset).length_le
      rw [List.length_range] at hle
      omega
  | succ fuel ih =>
      rw [climb]
      cases hbase : s.base? row with
      | none => exact .top hbase
      | some above =>
          by_cases hseen : above ∈ visited
          · simpa [hseen] using Climbs.again hbase hseen
          · have hrows' : ∀ r ∈ above :: visited, r < s.types.length :=
              List.forall_mem_cons.mpr ⟨(extends_iff.mpr hbase).lt, hrows⟩
            have hrest : s.Climbs (above :: visited) above
                (s.climb fuel (above :: visited) above) :=
              ih (List.nodup_cons.mpr ⟨hseen, hnodup⟩) hrows' (by simp; omega)
            simpa [hseen] using Climbs.up hbase hseen hrest

theorem Climbs.unique {rest' : List Nat} (h : s.Climbs visited row rest)
    (h' : s.Climbs visited row rest') : rest = rest' := by
  induction h generalizing rest' with
  | top hbase =>
      cases h' with
      | top => rfl
      | again hbase' | up hbase' => simp [hbase] at hbase'
  | again hbase hseen =>
      cases h' with
      | top hbase' => simp [hbase] at hbase'
      | again => rfl
      | up hbase' hnew =>
          cases hbase.symm.trans hbase'
          exact absurd hseen hnew
  | up hbase hnew _ ih =>
      cases h' with
      | top hbase' => simp [hbase] at hbase'
      | again hbase' hseen =>
          cases hbase.symm.trans hbase'
          exact absurd hseen hnew
      | up hbase' _ hrest' =>
          cases hbase.symm.trans hbase'
          rw [ih hrest']

/-! ### What the walk visits -/

theorem Climbs.isChain (h : s.Climbs visited row rest) : (row :: rest).IsChain s.Extends := by
  induction h with
  | top | again => exact .singleton _
  | up hbase _ _ ih => exact .cons_cons (extends_iff.mpr hbase) ih

theorem Climbs.nodup (h : s.Climbs visited row rest) (hvisited : visited.Nodup) :
    (rest.reverse ++ visited).Nodup := by
  induction h with
  | top | again => exact hvisited
  | up _ hnew _ ih => simpa using ih (List.nodup_cons.mpr ⟨hnew, hvisited⟩)

theorem Climbs.reaches (h : s.Climbs visited row rest) :
    ∀ r ∈ rest, ReflTransGen s.Extends row r := by
  induction h with
  | top | again => simp
  | up hbase _ _ ih =>
      have hfirst := extends_iff.mpr hbase
      intro r hr
      rcases List.mem_cons.mp hr with rfl | hr
      · exact .single hfirst
      · exact .head hfirst (ih r hr)

theorem closed_of_last {seen : List Nat}
    (hvisited : ∀ lower ∈ visited, lower ≠ row → ∀ upper, s.Extends lower upper → upper ∈ visited)
    (hsubset : visited ⊆ seen) (hlast : ∀ upper, s.Extends row upper → upper ∈ seen) :
    ∀ lower ∈ visited, ∀ upper, s.Extends lower upper → upper ∈ seen := by
  intro lower hlower upper hextends
  by_cases hrow : lower = row
  · exact hlast upper (hrow ▸ hextends)
  · exact hsubset (hvisited lower hlower hrow upper hextends)

/-- Where the walk stops no base link leads out of what has been visited.  The links of all
visited rows but the last have been followed before. -/
theorem Climbs.closed (h : s.Climbs visited row rest)
    (hvisited : ∀ lower ∈ visited, lower ≠ row → ∀ upper, s.Extends lower upper → upper ∈ visited) :
    ∀ lower ∈ rest ++ visited, ∀ upper, s.Extends lower upper → upper ∈ rest ++ visited := by
  induction h with
  | top hbase =>
      refine closed_of_last hvisited (List.Subset.refl _) fun upper hextends ↦ ?_
      rw [extends_iff, hbase] at hextends
      cases hextends
  | again hbase hseen =>
      refine closed_of_last hvisited (List.Subset.refl _) fun upper hextends ↦ ?_
      rw [extends_iff, hbase] at hextends
      cases hextends
      exact hseen
  | @up visited rest row above hbase hnew hrest ih =>
      have hpassed : ∀ lower ∈ visited, ∀ upper, s.Extends lower upper →
          upper ∈ above :: visited := by
        refine closed_of_last hvisited (List.subset_cons_self above visited)
          fun upper hextends ↦ ?_
        rw [extends_iff, hbase] at hextends
        cases hextends
        exact List.mem_cons_self
      have hclosed := ih fun lower hlower hne ↦
        hpassed lower ((List.mem_cons.mp hlower).resolve_left hne)
      intro lower hlower upper hextends
      have hlower : lower ∈ rest ++ above :: visited := by
        simpa [or_left_comm] using hlower
      simpa [or_left_comm] using hclosed lower hlower upper hextends

/-! ### The chain of a row -/

theorem climbs_chain (hrow : row < s.types.length) :
    s.Climbs [row] row (s.climb s.types.length [row] row) :=
  climbs_climb (by simp) (by simpa using hrow) (by simp)

theorem climbs_iff (hrow : row < s.types.length) :
    s.Climbs [row] row rest ↔ s.chain row = row :: rest := by
  rw [chain, List.cons_inj_right]
  constructor
  · exact fun h ↦ (climbs_chain hrow).unique h
  · exact fun h ↦ h ▸ climbs_chain hrow

theorem mem_chain_iff (hrow : row < s.types.length) {r : Nat} :
    r ∈ s.chain row ↔ ReflTransGen s.Extends row r := by
  have hwalk := climbs_chain hrow
  constructor
  · intro hr
    rcases List.mem_cons.mp hr with rfl | hr
    · exact .refl
    · exact hwalk.reaches r hr
  · intro hr
    have hclosed := hwalk.closed (by simp)
    have hmem : r ∈ s.climb s.types.length [row] row ++ [row] := by
      induction hr with
      | refl => simp
      | tail _ hextends ih => exact hclosed _ ih _ hextends
    simpa [chain, or_comm] using hmem

theorem nodup_chain (hrow : row < s.types.length) : (s.chain row).Nodup := by
  have hreverse : (s.chain row).reverse.Nodup := by
    rw [chain, List.reverse_cons]
    exact (climbs_chain hrow).nodup (by simp)
  exact List.nodup_reverse.mp hreverse

theorem lt_of_mem_chain (hrow : row < s.types.length) {r : Nat} (hr : r ∈ s.chain row) :
    r < s.types.length := by
  rcases ((mem_chain_iff hrow).mp hr).cases_tail with rfl | ⟨lower, -, hextends⟩
  · exact hrow
  · exact hextends.lt

theorem chain_subset (hrow : row < s.types.length) {above : Nat} (habove : above ∈ s.chain row) :
    s.chain above ⊆ s.chain row := by
  intro r hr
  rw [mem_chain_iff (lt_of_mem_chain hrow habove)] at hr
  exact (mem_chain_iff hrow).mpr (((mem_chain_iff hrow).mp habove).trans hr)

/-! ### The types of a chain -/

/-- No row of the chain is lost on the way to its type. -/
theorem map_some_ancestry (hrow : row < s.types.length) :
    (s.ancestry row).map some = (s.chain row).map (s.types[·]?) := by
  have hknown : ∀ r ∈ s.chain row, r < s.types.length := fun r ↦ lt_of_mem_chain hrow
  rw [ancestry]
  generalize s.chain row = rows at hknown
  induction rows with
  | nil => rfl
  | cons r rows ih =>
      obtain ⟨hr, hrows⟩ := List.forall_mem_cons.mp hknown
      have hentry := List.getElem?_eq_getElem hr
      rw [List.filterMap_cons_some hentry, List.map_cons, List.map_cons, ih hrows, hentry]

theorem mem_ancestry_iff (hrow : row < s.types.length) {t : TypeEntry} :
    t ∈ s.ancestry row ↔ ∃ r, ReflTransGen s.Extends row r ∧ s.types[r]? = some t := by
  simp only [ancestry, List.mem_filterMap, mem_chain_iff hrow]

theorem ancestry_subset (hrow : row < s.types.length) {above : Nat}
    (habove : above ∈ s.chain row) : s.ancestry above ⊆ s.ancestry row := by
  intro t ht
  obtain ⟨r, hr, hentry⟩ := List.mem_filterMap.mp ht
  exact List.mem_filterMap.mpr ⟨r, chain_subset hrow habove hr, hentry⟩

theorem derivesFrom_iff (full root : String) : s.derivesFrom full root ↔
    full = root ∨ ∃ start, s.findFull? full = some start ∧
      ∃ r t, ReflTransGen s.Extends start r ∧ s.types[r]? = some t ∧ t.fullName = root := by
  rw [derivesFrom, Bool.or_eq_true, beq_iff_eq]
  refine or_congr_right ?_
  cases hfound : s.findFull? full with
  | none => simp
  | some start =>
      simp only [List.any_eq_true, mem_ancestry_iff (lt_of_findFull? hfound), beq_iff_eq,
        Option.some.injEq, exists_eq_left']
      constructor
      · rintro ⟨t, ⟨r, hr, hentry⟩, hname⟩
        exact ⟨r, t, hr, hentry, hname⟩
      · rintro ⟨r, t, hr, hentry, hname⟩
        exact ⟨t, ⟨r, hr, hentry⟩, hname⟩

/-- A type or one of its bases has a method of the name, or a property with that getter. -/
def Exposes (s : Surface) (row : Nat) (member : String) : Prop :=
  ∃ t ∈ s.ancestry row,
    (∃ m ∈ t.methods, m.name = member) ∨ ∃ p ∈ t.properties, getterName p.name = member

theorem hasMember_iff {member : String} :
    s.hasMember row member ↔ s.Exposes row member := by
  simp only [hasMember, Exposes, methods, properties, Bool.or_eq_true, List.any_eq_true,
    List.mem_flatMap, beq_iff_eq]
  constructor
  · rintro (⟨m, ⟨t, ht, hm⟩, hname⟩ | ⟨p, ⟨t, ht, hp⟩, hname⟩)
    · exact ⟨t, ht, .inl ⟨m, hm, hname⟩⟩
    · exact ⟨t, ht, .inr ⟨p, hp, hname⟩⟩
  · rintro ⟨t, ht, ⟨m, hm, hname⟩ | ⟨p, hp, hname⟩⟩
    · exact .inl ⟨m, ⟨t, ht, hm⟩, hname⟩
    · exact .inr ⟨p, ⟨t, ht, hp⟩, hname⟩

theorem Exposes.of_mem_chain (hrow : row < s.types.length) {above : Nat}
    (habove : above ∈ s.chain row) {member : String} (h : s.Exposes above member) :
    s.Exposes row member := by
  obtain ⟨t, ht, hmember⟩ := h
  exact ⟨t, ancestry_subset hrow habove ht, hmember⟩

/-- The chain of a row is what the walk without a bound visits.  It starts at the row, goes from
each type to the one that its base names, visits no row twice and visits all rows that base links
lead to.  So what one of its bases exposes a type exposes too, and it derives from a root exactly
if links lead to a type of that full name. -/
theorem ancestry_reachable (s : Surface) :
    (∀ (row : Nat) (t : TypeEntry), s.types[row]? = some t →
      (∀ rest, s.Climbs [row] row rest ↔ s.chain row = row :: rest) ∧
      (s.ancestry row).map some = (s.chain row).map (s.types[·]?) ∧
      (s.ancestry row).head? = some t ∧
      (s.chain row).IsChain s.Extends ∧
      (s.chain row).Nodup ∧
      (∀ r, r ∈ s.chain row ↔ ReflTransGen s.Extends row r) ∧
      ∀ above ∈ s.chain row, ∀ member, s.hasMember above member → s.hasMember row member) ∧
    ∀ full root, s.derivesFrom full root ↔ full = root ∨
      ∃ start, s.findFull? full = some start ∧
        ∃ r u, ReflTransGen s.Extends start r ∧ s.types[r]? = some u ∧ u.fullName = root := by
  refine ⟨fun row t ht ↦ ?_, derivesFrom_iff⟩
  obtain ⟨hrow, -⟩ := List.getElem?_eq_some_iff.mp ht
  have hhead : (s.ancestry row).head? = some t := by
    rw [ancestry, chain, List.filterMap_cons_some ht, List.head?_cons]
  refine ⟨fun rest ↦ climbs_iff hrow, map_some_ancestry hrow, hhead, (climbs_chain hrow).isChain,
    nodup_chain hrow, fun r ↦ mem_chain_iff hrow, fun above habove member h ↦ ?_⟩
  rw [hasMember_iff] at h ⊢
  exact h.of_mem_chain hrow habove

/-- Two types that name each other as their bases, one of them listed twice, and a type whose
base nobody has. -/
def loopSurface : Surface where
  version := "loop"
  types := [
    { namespaceName := "Loop", name := "Egg", base := some "Loop.Hen"
      methods := [⟨"Hatch", "Loop.Hen"⟩] },
    { namespaceName := "Loop", name := "Hen", base := some "Loop.Egg"
      properties := [⟨"Name", "Text"⟩] },
    { namespaceName := "Loop", name := "Egg", base := some "Loop.Hen" },
    { namespaceName := "Loop", name := "Farm", base := some "Loop.Land" }]

/-- The second listing of a type leads into the circle of the first one, which the walk leaves
after one round. -/
theorem ancestry_loop :
    loopSurface.Climbs [2] 2 [1, 0] ∧ ReflTransGen loopSurface.Extends 2 0 ∧
      ¬ ReflTransGen loopSurface.Extends 2 3 ∧ loopSurface.hasMember 2 "Hatch" := by
  have hentry : loopSurface.types[2]? =
      some { namespaceName := "Loop", name := "Egg", base := some "Loop.Hen" } := rfl
  obtain ⟨hwalk, -, -, -, -, hreaches, hmembers⟩ := (ancestry_reachable loopSurface).1 2 _ hentry
  have hchain : loopSurface.chain 2 = [2, 1, 0] := by decide
  rw [hchain] at hreaches hmembers
  exact ⟨(hwalk [1, 0]).mpr hchain, (hreaches 0).mp (by decide),
    fun h ↦ absurd ((hreaches 3).mpr h) (by decide), hmembers 0 (by decide) _ (by decide)⟩

end Surface

end GuestGate
