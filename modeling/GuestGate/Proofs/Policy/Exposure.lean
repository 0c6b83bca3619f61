import GuestGate.Proofs.Policy.Validity

/-!
# What an allowed member is backed by

Explicit rules are checked against the surface and family rules are read off it.  Either
way a rule for a type comes with a row of the surface, and a rule that allows a member
comes with a row that exposes it, so a policy that opens no whole namespace cannot reach
past the surface.
-/

namespace GuestGate

namespace Surface

variable {s : Surface} {row : Nat} {n name : String}

def Exports (s : Surface) (row : Nat) (n name : String) : Prop :=
  ∃ t, s.types[row]? = some t ∧ t.namespaceName = n ∧ t.name = name

theorem exports_of_find? (h : s.find? n name = some row) : s.Exports row n name := by
  obtain ⟨hrow, hfound, -⟩ := List.findIdx?_eq_some_iff_getElem.mp h
  simp only [Bool.and_eq_true, beq_iff_eq] at hfound
  exact ⟨s.types[row], List.getElem?_eq_getElem hrow, hfound⟩

theorem exists_of_mem_rowsIn (h : row ∈ s.rowsIn n) :
    ∃ t, s.types[row]? = some t ∧ t.namespaceName = n := by
  obtain ⟨⟨t, i⟩, hmem, rfl⟩ := List.mem_map.mp h
  obtain ⟨hmem, hname⟩ := List.mem_filter.mp hmem
  exact ⟨t, List.mem_zipIdx_iff_getElem?.mp hmem, eq_of_beq hname⟩

theorem exposes_of_property {p : PropertyEntry} (h : p ∈ s.properties row) :
    s.Exposes row (getterName p.name) := by
  obtain ⟨t, ht, hp⟩ := List.mem_flatMap.mp h
  exact ⟨t, ht, .inr ⟨p, hp, rfl⟩⟩

theorem exposes_of_method {m : MethodEntry} (h : m ∈ s.methods row) : s.Exposes row m.name := by
  obtain ⟨t, ht, hm⟩ := List.mem_flatMap.mp h
  exact ⟨t, ht, .inl ⟨m, hm, rfl⟩⟩

end Surface

/-- A rule for a type stands on a row of the surface: the row exports the type, and it
exposes every member that the rule allows. -/
def TypeRule.Backed (s : Surface) (n : String) (t : TypeRule) : Prop :=
  ∃ row, s.Exports row n t.name ∧ ∀ m ∈ t.members, m.access = .allowed → s.Exposes row m.name

/-! ## Families -/

namespace FamilyRule

variable {family : FamilyRule} {s : Surface} {row : Nat}

theorem exposes_of_mem_memberRules {m : MemberRule} (h : m ∈ family.memberRules s row)
    (hallowed : m.access = .allowed) : s.Exposes row m.name := by
  cases hmode : family.mode with
  | introspection =>
      simp only [memberRules, hmode, List.mem_append, List.mem_map, List.mem_filter] at h
      rcases h with ⟨p, ⟨hp, -⟩, rfl⟩ | ⟨method, ⟨hmethod, -⟩, rfl⟩
      · exact Surface.exposes_of_property hp
      · exact Surface.exposes_of_method hmethod
  | denyDynamicCompilation =>
      -- a family of this mode only ever denies members
      simp only [memberRules, hmode, List.mem_map] at h
      obtain ⟨method, -, rfl⟩ := h
      cases hallowed

theorem backed_of_typeRule? {t : TypeRule} (hrow : row ∈ s.rowsIn family.namespaceName)
    (h : family.typeRule? s row = some t) : t.Backed s family.namespaceName := by
  obtain ⟨entry, hentry, hname⟩ := Surface.exists_of_mem_rowsIn hrow
  rw [typeRule?, hentry, Option.bind_some] at h
  split at h
  · cases h
    exact ⟨row, ⟨entry, hentry, hname, rfl⟩, by simp⟩
  · split at h
    · cases h
      exact ⟨row, ⟨entry, hentry, hname, rfl⟩, fun m ↦ exposes_of_mem_memberRules⟩
    · cases h

theorem backed_of_mem_types {t : TypeRule} (h : t ∈ (family.toNamespaceRule s).types) :
    t.Backed s family.namespaceName := by
  obtain ⟨row, hrow, ht⟩ := List.mem_filterMap.mp h
  exact backed_of_typeRule? hrow ht

end FamilyRule

/-! ## Lists of rules -/

/-- What stands in an explicit rule was written down, so it is checked against the surface.
Only families generate rules. -/
def PolicyRule.IsChecked : PolicyRule → Prop
  | explicit rule => ∀ t ∈ rule.types, t.generated = false
  | family _ => True

theorem Valid.backed {s : Surface} {rules : List PolicyRule} (h : Valid s (expand s rules))
    (hchecked : ∀ r ∈ rules, r.IsChecked) {n : NamespaceRule} (hn : n ∈ expand s rules)
    {t : TypeRule} (ht : t ∈ n.types) : t.Backed s n.name := by
  obtain ⟨rule, hrule, rfl⟩ := List.mem_map.mp hn
  cases rule with
  | family family => exact FamilyRule.backed_of_mem_types ht
  | explicit rule =>
      have hwritten : t.generated = false := hchecked _ hrule t ht
      obtain ⟨row, hrow⟩ := h.typesKnown rule hn t ht hwritten
      refine ⟨row, Surface.exports_of_find? hrow, fun m hm _ ↦ ?_⟩
      obtain ⟨other, hother, hexposes⟩ := h.membersKnown rule hn t ht hwritten m hm
      rw [hrow] at hother
      cases hother
      exact hexposes

namespace PolicyTree

/-- A policy that opens no namespace as a whole allows only members of exported types.  Of
a type that it leaves undecided it allows only members that such a type exposes. -/
theorem exported_of_isAllowed {s : Surface} {rules : List PolicyRule} {tree : PolicyTree}
    (hbuild : build s rules = .ok tree) (hchecked : ∀ r ∈ rules, r.IsChecked)
    (hclosed : ∀ name, ¬ Declares (expand s rules) [name] .allowed) {m : MemberRef}
    (hallowed : (tree.resolve m).isAllowed) :
    (∃ row, s.Exports row m.namespaceName m.typeName) ∧
      (tree.Has [m.namespaceName, m.typeName] .neutral →
        ∃ row, s.Exports row m.namespaceName m.typeName ∧ s.Exposes row m.name) := by
  have hgathers := (gathers_of_ofRules hbuild).1
  have hvalid := (exists_build_iff_consistent.mp ⟨tree, hbuild⟩).valid
  have hopened := (exists_deepest_iff not_has_nil .allowed).mp
    (isAllowed_resolve_iff.mp hallowed).opened
  simp only [← declares_iff_has hgathers] at hopened
  -- the deepest node is that of the member, of its type, or of its namespace
  rcases hopened with hmember | ⟨-, htype | ⟨-, hnamespace⟩⟩
  · obtain ⟨x, hx, haccess⟩ := declares_path_iff.mp hmember
    obtain ⟨n, hn, t, ht, hxt, hpath⟩ := mem_memberRules.mp hx
    simp only [MemberRef.path, List.cons.injEq, and_true] at hpath
    obtain ⟨hname, htype, hmemberName⟩ := hpath
    obtain ⟨row, hexports, hexposes⟩ := hvalid.backed hchecked hn ht
    rw [hname, htype] at hexports
    exact ⟨⟨row, hexports⟩, fun _ ↦ ⟨row, hexports, hmemberName ▸ hexposes x hxt haccess⟩⟩
  · have hhas := (declares_iff_has hgathers _ _).mp htype
    obtain ⟨t, ht, -⟩ := declares_type_iff.mp htype
    obtain ⟨n, hn, htn, hname, htypeName⟩ := mem_typeRules.mp ht
    obtain ⟨row, hexports, -⟩ := hvalid.backed hchecked hn htn
    rw [hname, htypeName] at hexports
    exact ⟨⟨row, hexports⟩, fun hneutral ↦ absurd (hhas.unique hneutral) (by decide)⟩
  · exact absurd hnamespace (hclosed _)

/-- A getter that a family has found is there to be called. -/
theorem exported_zone : ∃ tree, build clockSurface (clockRules 250 20) = .ok tree ∧
    (tree.resolve ⟨"Clock.Info", "Zone", "get_Name"⟩).isAllowed ∧
    (∃ row, clockSurface.Exports row "Clock.Info" "Zone") ∧
    ∃ row, clockSurface.Exports row "Clock.Info" "Zone" ∧
      clockSurface.Exposes row "get_Name" := by
  obtain ⟨tree, hbuild, hallowed, hneutral⟩ : ∃ tree,
      build clockSurface (clockRules 250 20) = .ok tree ∧
        (tree.resolve ⟨"Clock.Info", "Zone", "get_Name"⟩).isAllowed ∧
        tree.Has ["Clock.Info", "Zone"] .neutral := ⟨_, rfl, rfl, rfl⟩
  have hchecked : ∀ r ∈ clockRules 250 20, r.IsChecked := by
    simp [clockRules, PolicyRule.IsChecked]
  have hclosed : ∀ name, ¬ Declares (expand clockSurface (clockRules 250 20)) [name] .allowed := by
    intro name hdeclared
    obtain ⟨n, hn, haccess⟩ := declares_namespace_iff.mp hdeclared
    have hneutral : ∀ n ∈ expand clockSurface (clockRules 250 20), n.access = .neutral := by decide
    rw [hneutral n (List.mem_filter.mp hn).1] at haccess
    cases haccess
  obtain ⟨hexported, hexposed⟩ := exported_of_isAllowed hbuild hchecked hclosed hallowed
  exact ⟨tree, hbuild, hallowed, hexported, hexposed hneutral⟩

end PolicyTree

end GuestGate
