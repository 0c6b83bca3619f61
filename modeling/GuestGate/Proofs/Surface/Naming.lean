import GuestGate.Surface.Basic

/-!
# Types by their full names

A look-up takes the name of a type off the end of a full name and compares what is left with the
namespace and its dot.  That agrees with the full names of the types but for one spelling: a dot
in front of a type of the empty namespace is taken for the dot behind its namespace.
-/

namespace GuestGate

open Text

namespace TypeEntry

variable {t : TypeEntry} {full : String}

/-- A dot stands in front of the name of a type of the empty namespace. -/
def DotNamed (t : TypeEntry) (full : String) : Prop :=
  t.namespaceName = "" ∧ full = "." ++ t.name

theorem isNamed_iff_eq : t.isNamed full ↔
    full = t.namespaceName ++ "." ++ t.name ∨ t.namespaceName = "" ∧ full = t.name := by
  have hdotted : full = t.namespaceName ++ "." ++ t.name ↔
      t.namespaceName.toList ++ ['.'] ++ t.name.toList = full.toList := by
    rw [← String.toList_inj, eq_comm]
    simp
  have hbare : full = t.name ↔ [] ++ t.name.toList = full.toList := by
    rw [← String.toList_inj, eq_comm, List.nil_append]
  rw [hdotted, hbare, ← beforeSuffix?_eq_some_iff, ← beforeSuffix?_eq_some_iff, isNamed]
  cases beforeSuffix? t.name.toList full.toList with
  | none => simp
  | some before =>
      cases before with
      | nil => simp
      | cons c before =>
          simp only [beq_iff_eq, beforeSuffix?_eq_some_iff, Option.some.injEq, reduceCtorEq,
            and_false, or_false]
          exact eq_comm

theorem isNamed_iff : t.isNamed full ↔ t.fullName = full ∨ t.DotNamed full := by
  rw [isNamed_iff_eq, fullName, joinTypePath, DotNamed]
  by_cases hempty : t.namespaceName = ""
  · simp only [hempty, if_true, String.empty_append, true_and]
    exact or_comm.trans (or_congr_left eq_comm)
  · simp only [hempty, if_false, false_and, or_false]
    exact eq_comm

/-- A type never has the full name that puts a dot in front of it. -/
theorem DotNamed.fullName_ne (h : t.DotNamed full) : t.fullName ≠ full := by
  obtain ⟨hempty, rfl⟩ := h
  rw [fullName, joinTypePath, if_pos hempty]
  intro heq
  have hlength := congrArg String.length heq
  simp at hlength

theorem isNamed_eq_iff : t.isNamed full = (t.fullName == full) ↔ ¬ t.DotNamed full := by
  rw [Bool.eq_iff_iff, isNamed_iff, beq_iff_eq]
  constructor
  · intro h hdotted
    exact hdotted.fullName_ne (h.mp (.inr hdotted))
  · intro hdotted
    simp [hdotted]

end TypeEntry

namespace Surface

variable {s : Surface} {full : String}

/-- When a look-up goes by full names, a type of the full name comes before every type that the
name only puts a dot in front of. -/
theorem exists_fullName_before
    (h : s.findFull? full = s.types.findIdx? fun t ↦ t.fullName == full)
    {row : Nat} {t : TypeEntry} (ht : s.types[row]? = some t) (hdotted : t.DotNamed full) :
    ∃ first < row, ∃ u, s.types[first]? = some u ∧ u.fullName = full := by
  obtain ⟨hrow, rfl⟩ := List.getElem?_eq_some_iff.mp ht
  have hnamed : s.types[row].isNamed full := TypeEntry.isNamed_iff.mpr (.inr hdotted)
  cases hfound : s.findFull? full with
  | none =>
      have hall := List.findIdx?_eq_none_iff.mp hfound
      simp [hall _ (List.getElem_mem hrow)] at hnamed
  | some first =>
      obtain ⟨hlt, hname, -⟩ := List.findIdx?_eq_some_iff_getElem.mp (h.symm.trans hfound)
      obtain ⟨_, -, hunnamed⟩ := List.findIdx?_eq_some_iff_getElem.mp hfound
      rw [beq_iff_eq] at hname
      refine ⟨first, ?_, _, List.getElem?_eq_getElem hlt, hname⟩
      rcases Nat.lt_trichotomy first row with hbefore | rfl | hafter
      · exact hbefore
      · exact absurd hname hdotted.fullName_ne
      · exact absurd hnamed (hunnamed row hafter)

theorem findFull?_eq_of_before
    (h : ∀ (row : Nat) (t : TypeEntry), s.types[row]? = some t → t.DotNamed full →
      ∃ first < row, ∃ u, s.types[first]? = some u ∧ u.fullName = full) :
    s.findFull? full = s.types.findIdx? fun t ↦ t.fullName == full := by
  symm
  cases hfound : s.findFull? full with
  | none =>
      refine List.findIdx?_eq_none_iff.mpr fun t ht ↦ ?_
      have hunnamed := List.findIdx?_eq_none_iff.mp hfound t ht
      rw [← Bool.not_eq_true, TypeEntry.isNamed_iff, not_or] at hunnamed
      simpa using hunnamed.1
  | some row =>
      obtain ⟨hrow, hnamed, hunnamed⟩ := List.findIdx?_eq_some_iff_getElem.mp hfound
      have hother : ∀ first, (hlt : first < row) → s.types[first].fullName ≠ full :=
        fun first hlt hname ↦ hunnamed first hlt (TypeEntry.isNamed_iff.mpr (.inl hname))
      refine List.findIdx?_eq_some_iff_getElem.mpr ⟨hrow, ?_, by simpa using hother⟩
      rcases TypeEntry.isNamed_iff.mp hnamed with hname | hdotted
      · simpa using hname
      · obtain ⟨first, hlt, u, hu, hname⟩ := h row _ (List.getElem?_eq_getElem hrow) hdotted
        obtain ⟨_, rfl⟩ := List.getElem?_eq_some_iff.mp hu
        exact absurd hname (hother first hlt)

/-- A type is known by its full name, and in the empty namespace also with a dot in front.  So a
look-up finds the first type of the full name exactly if none with that dot comes before it. -/
theorem findFull?_by_fullName_iff (s : Surface) (full : String) :
    (∀ t : TypeEntry, t.isNamed full = (t.fullName == full) ↔ ¬ t.DotNamed full) ∧
    (s.findFull? full = (s.types.findIdx? fun t ↦ t.fullName == full) ↔
      ∀ (row : Nat) (t : TypeEntry), s.types[row]? = some t → t.DotNamed full →
        ∃ first < row, ∃ u, s.types[first]? = some u ∧ u.fullName = full) :=
  ⟨fun _ ↦ TypeEntry.isNamed_eq_iff, fun h _ _ ↦ exists_fullName_before h, findFull?_eq_of_before⟩

/-- A type of the empty namespace is found under a name that no type has. -/
theorem findFull?_leadingDot :
    let s : Surface := ⟨"tools", [{ namespaceName := "", name := "Dump" }]⟩
    s.findFull? ".Dump" = some 0 ∧ (s.types.findIdx? fun t ↦ t.fullName == ".Dump") = none := by
  decide

end Surface

end GuestGate
