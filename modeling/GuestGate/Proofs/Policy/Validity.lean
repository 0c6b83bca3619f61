import GuestGate.Proofs.Policy.Reordering
import GuestGate.Proofs.Surface.Ancestry

/-!
# Which rule lists build

A list of rules builds exactly when it names what the surface exports, keeps its
denials, guards only what it allows, and never contradicts itself.  None of these
conditions mentions the place of a rule, so the order of the list does not matter.
-/

namespace GuestGate

/-- What a list of rules has to satisfy as a set.  The first five conditions are about
single rules, the last two about any two rules for one node. -/
structure Valid (s : Surface) (rules : List NamespaceRule) : Prop where
  typesKnown : ∀ n ∈ rules, ∀ t ∈ n.types, t.generated = false →
    ∃ row, s.find? n.name t.name = some row
  membersKnown : ∀ n ∈ rules, ∀ t ∈ n.types, t.generated = false → ∀ m ∈ t.members,
    ∃ row, s.find? n.name t.name = some row ∧ s.Exposes row m.name
  typesDenied : ∀ n ∈ rules, n.access = .denied → ∀ t ∈ n.types, t.access = .denied
  membersDenied : ∀ n ∈ rules, ∀ t ∈ n.types, t.access = .denied →
    ∀ m ∈ t.members, m.access = .denied
  rewritersAllowed : ∀ n ∈ rules, ∀ t ∈ n.types, ∀ m ∈ t.members, m.rewriter ≠ none →
    m.access = .allowed
  accessAgrees : ∀ path a b, Declares rules path a → Declares rules path b → a = b
  rewritersAgree : ∀ m r r', Attaches rules m r → Attaches rules m r' → r.name = r'.name

theorem Declares.unique {s : Surface} {rules : List NamespaceRule} (h : Consistent s rules)
    {path : List String} {a b : AccessLevel} (ha : Declares rules path a)
    (hb : Declares rules path b) : a = b := by
  obtain ⟨tree, hbuild⟩ := PolicyTree.exists_ofRules_iff.mpr h
  have hgathers := (PolicyTree.gathers_of_ofRules hbuild).1
  rw [PolicyTree.declares_iff_has hgathers] at ha hb
  exact ha.unique hb

theorem MemberRule.fits_iff {s : Surface} {row : Option Nat} {t : TypeRule} {m : MemberRule} :
    m.Fits s row t ↔ (t.generated = false → ∃ i, row = some i ∧ s.Exposes i m.name) ∧
      (t.access = .denied → m.access = .denied) ∧ (m.rewriter ≠ none → m.access = .allowed) := by
  have hknown : (t.generated ∨ row.any (s.hasMember · m.name)) ↔
      (t.generated = false → ∃ i, row = some i ∧ s.Exposes i m.name) := by
    rw [← Bool.not_eq_true, or_iff_not_imp_left]
    cases row <;> simp [Surface.hasMember_iff]
  rw [← hknown, ← Option.isSome_iff_ne_none]
  exact ⟨fun h ↦ ⟨h.known, h.notWider, h.rewriterAllowed⟩, fun ⟨h₁, h₂, h₃⟩ ↦ ⟨h₁, h₂, h₃⟩⟩

theorem TypeRule.known_iff {s : Surface} {n : NamespaceRule} {t : TypeRule} :
    (t.generated ∨ (s.find? n.name t.name).isSome) ↔
      (t.generated = false → ∃ row, s.find? n.name t.name = some row) := by
  rw [← Bool.not_eq_true, or_iff_not_imp_left, Option.isSome_iff_exists]

theorem Consistent.valid {s : Surface} {rules : List NamespaceRule} (h : Consistent s rules) :
    Valid s rules where
  typesKnown n hn t ht := TypeRule.known_iff.mp (h.fits n hn t ht).known
  membersKnown n hn t ht hgenerated m hm :=
    (MemberRule.fits_iff.mp ((h.fits n hn t ht).members m hm)).1 hgenerated
  typesDenied n hn hdenied t ht := (h.fits n hn t ht).notWider hdenied
  membersDenied n hn t ht hdenied m hm := ((h.fits n hn t ht).members m hm).notWider hdenied
  rewritersAllowed n hn t ht m hm :=
    (MemberRule.fits_iff.mp ((h.fits n hn t ht).members m hm)).2.2
  accessAgrees _ _ _ := Declares.unique h
  rewritersAgree _ _ _ := h.rewriter_name_eq

theorem Valid.consistent {s : Surface} {rules : List NamespaceRule} (h : Valid s rules) :
    Consistent s rules where
  fits n hn t ht := by
    refine ⟨TypeRule.known_iff.mpr (h.typesKnown n hn t ht),
      fun hdenied ↦ h.typesDenied n hn hdenied t ht, fun m hm ↦ MemberRule.fits_iff.mpr ?_⟩
    exact ⟨fun hgenerated ↦ h.membersKnown n hn t ht hgenerated m hm,
      fun hdenied ↦ h.membersDenied n hn t ht hdenied m hm, h.rewritersAllowed n hn t ht m hm⟩
  agree n hn n' hn' hname := by
    -- level by level: two rules of one name are declarations of one path
    refine ⟨h.accessAgrees [n'.name] _ _ (hname ▸ .ofNamespace hn) (.ofNamespace hn'), ?_⟩
    intro t ht t' ht' htype
    refine ⟨h.accessAgrees [n'.name, t'.name] _ _ (hname ▸ htype ▸ .ofType hn ht)
      (.ofType hn' ht'), ?_⟩
    intro m hm m' hm' hmember
    refine ⟨h.accessAgrees [n'.name, t'.name, m'.name] _ _
      (hname ▸ htype ▸ hmember ▸ .ofMember hn ht hm) (.ofMember hn' ht' hm'), ?_⟩
    intro r hr r' hr'
    refine h.rewritersAgree ⟨n'.name, t'.name, m'.name⟩ r r' ⟨n, hn, t, ht, m, hm, ?_, hr⟩
      ⟨n', hn', t', ht', m', hm', rfl, hr'⟩
    rw [hname, htype, hmember]
    rfl

theorem Consistent.of_subset {s : Surface} {rules rules' : List NamespaceRule}
    (h : Consistent s rules) (hsub : rules' ⊆ rules) : Consistent s rules' :=
  ⟨fun n hn ↦ h.fits n (hsub hn), h.agree.of_subset hsub⟩

namespace PolicyTree

theorem exists_build_iff_consistent {s : Surface} {rules : List PolicyRule} :
    (∃ tree, build s rules = .ok tree) ↔ Consistent s (expand s rules) :=
  exists_ofRules_iff

/-- A rule list builds exactly when it is valid as a set of rules.  So it builds in any
order of its namespaces, their types and their members, and so does any part of it. -/
theorem exists_build_iff_valid (s : Surface) (rules : List PolicyRule) :
    ((∃ tree, build s rules = .ok tree) ↔ Valid s (expand s rules)) ∧
      (∀ rules', Reordered rules rules' →
        ((∃ tree, build s rules' = .ok tree) ↔ ∃ tree, build s rules = .ok tree)) ∧
      ∀ rules', rules' ⊆ rules → (∃ tree, build s rules = .ok tree) →
        ∃ tree, build s rules' = .ok tree := by
  simp only [exists_build_iff_consistent]
  refine ⟨⟨Consistent.valid, Valid.consistent⟩, fun rules' h ↦ ?_, fun rules' hsub h ↦ ?_⟩
  · have hthere := h.expand (s := s)
    have hback := hthere.symm fun _ _ ↦ NamespaceRule.Reordered.symm
    exact ⟨fun hrules' ↦ hrules'.reordered hthere, fun hrules ↦ hrules.reordered hback⟩
  · exact h.of_subset (List.map_subset _ hsub)

theorem valid_clock : Valid clockSurface (expand clockSurface (clockRules 250 20)) ∧
    (∃ tree, build clockSurface (clockRules 250 20).reverse = .ok tree) ∧
    ¬ Valid clockSurface (expand clockSurface
      (.explicit ⟨"Clock", .allowed, []⟩ :: clockRules 250 20)) := by
  have hbuild : ∃ tree, build clockSurface (clockRules 250 20) = .ok tree := ⟨_, rfl⟩
  have hrefused : build clockSurface (.explicit ⟨"Clock", .allowed, []⟩ :: clockRules 250 20) =
      .error (.conflictingAccess "Clock") := rfl
  obtain ⟨hvalid, -, hpart⟩ := exists_build_iff_valid clockSurface (clockRules 250 20)
  refine ⟨hvalid.mp hbuild, hpart _ (by simp) hbuild, ?_⟩
  rw [← (exists_build_iff_valid _ _).1, hrefused]
  simp

end PolicyTree

end GuestGate
