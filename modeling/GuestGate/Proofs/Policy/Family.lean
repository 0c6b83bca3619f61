import Mathlib.Data.List.Nodup
import GuestGate.Proofs.Policy.Exposure

/-!
# What one family opens

A family makes a policy by itself.  Its rules go by name, while it looks at the members of a
type one by one: an introspection family allows a name as soon as one member under it is
safe, and a family without dynamic compilation denies the names of methods and no others.
-/

namespace GuestGate

open Text

/-- A member that is visible on a type: a property, called through its getter, or a method. -/
inductive SurfaceMember
  | property (p : PropertyEntry)
  | method (m : MethodEntry)

namespace SurfaceMember

def name : SurfaceMember → String
  | property p => getterName p.name
  | method m => m.name

/-- A property that exposes no handle, or a method that leads to another type of the family. -/
def IsSafe (s : Surface) (root : String) : SurfaceMember → Prop
  | property p => ¬ "Handle".toList <:+: p.name.toList
  | method m => s.derivesFrom m.returns root

end SurfaceMember

def Surface.members (s : Surface) (row : Nat) : List SurfaceMember :=
  (s.properties row).map .property ++ (s.methods row).map .method

theorem Surface.mem_rowsIn_iff {s : Surface} {n : String} {row : Nat} :
    row ∈ s.rowsIn n ↔ ∃ t, s.types[row]? = some t ∧ t.namespaceName = n := by
  refine ⟨exists_of_mem_rowsIn, ?_⟩
  rintro ⟨t, ht, hname⟩
  refine List.mem_map.mpr ⟨(t, row), List.mem_filter.mpr ⟨?_, by simpa using hname⟩, rfl⟩
  exact List.mem_zipIdx_iff_getElem?.mpr ht

namespace FamilyRule

variable {family : FamilyRule} {s : Surface} {row : Nat} {t : TypeEntry}

/-- The type in a row belongs to the family and is no enumeration. -/
structure Covers (family : FamilyRule) (s : Surface) (row : Nat) (t : TypeEntry) : Prop where
  found : s.types[row]? = some t
  inNamespace : t.namespaceName = family.namespaceName
  notEnum : t.kind ≠ .enumType
  derives : s.derivesFrom t.fullName family.root

structure CoversEnum (family : FamilyRule) (s : Surface) (row : Nat) (t : TypeEntry) : Prop where
  found : s.types[row]? = some t
  inNamespace : t.namespaceName = family.namespaceName
  isEnum : t.kind = .enumType

def memberAccess (family : FamilyRule) : AccessLevel :=
  match family.mode with
  | .introspection => .allowed
  | .denyDynamicCompilation => .denied

/-- A family has a rule for a member name on the types of a name. -/
def Lists (family : FamilyRule) (s : Surface) (typeName name : String) : Prop :=
  ∃ row t, family.Covers s row t ∧ t.name = typeName ∧
    ∃ m ∈ family.memberRules s row, m.name = name

/-! ### The rules of a family -/

theorem mem_types_iff {rule : TypeRule} :
    rule ∈ (family.toNamespaceRule s).types ↔ ∃ row t,
      family.CoversEnum s row t ∧ rule = ⟨t.name, .allowed, [], true⟩ ∨
        family.Covers s row t ∧
          rule = ⟨t.name, family.typeAccess, family.memberRules s row, true⟩ := by
  simp only [toNamespaceRule, List.mem_filterMap, Surface.mem_rowsIn_iff]
  constructor
  · rintro ⟨row, ⟨t, ht, hname⟩, hrule⟩
    refine ⟨row, t, ?_⟩
    rw [typeRule?, ht, Option.bind_some] at hrule
    split at hrule
    · next henum =>
      cases hrule
      exact .inl ⟨⟨ht, hname, henum⟩, rfl⟩
    · next henum =>
      split at hrule
      · next hderives =>
        cases hrule
        exact .inr ⟨⟨ht, hname, henum, hderives⟩, rfl⟩
      · cases hrule
  · rintro ⟨row, t, ⟨hcovers, rfl⟩ | ⟨hcovers, rfl⟩⟩
    · refine ⟨row, ⟨t, hcovers.found, hcovers.inNamespace⟩, ?_⟩
      simp [typeRule?, hcovers.found, hcovers.isEnum]
    · refine ⟨row, ⟨t, hcovers.found, hcovers.inNamespace⟩, ?_⟩
      simp [typeRule?, hcovers.found, hcovers.notEnum, hcovers.derives]

theorem access_of_mem_memberRules {m : MemberRule} (h : m ∈ family.memberRules s row) :
    m.access = family.memberAccess := by
  cases hmode : family.mode with
  | introspection =>
      simp only [memberRules, hmode, List.mem_append, List.mem_map] at h
      rcases h with ⟨_, -, rfl⟩ | ⟨_, -, rfl⟩ <;> simp [memberAccess, hmode]
  | denyDynamicCompilation =>
      simp only [memberRules, hmode, List.mem_map] at h
      obtain ⟨_, -, rfl⟩ := h
      simp [memberAccess, hmode]

theorem access_of_mem_types {rule : TypeRule} {m : MemberRule}
    (h : rule ∈ (family.toNamespaceRule s).types) (hm : m ∈ rule.members) :
    m.access = family.memberAccess := by
  obtain ⟨row, t, ⟨-, rfl⟩ | ⟨-, rfl⟩⟩ := mem_types_iff.mp h
  · cases hm
  · exact access_of_mem_memberRules hm

theorem typeAccess_ne_denied (family : FamilyRule) : family.typeAccess ≠ .denied := by
  cases hmode : family.mode <;> simp [typeAccess, hmode]

/-- What a family generates is not checked against the surface, denies no type and attaches
no rewriter. -/
theorem fits_of_mem_types {rule : TypeRule} (h : rule ∈ (family.toNamespaceRule s).types) :
    rule.Fits s (family.toNamespaceRule s) := by
  have hrule : rule.generated = true ∧ rule.access ≠ .denied := by
    obtain ⟨row, t, ⟨-, rfl⟩ | ⟨-, rfl⟩⟩ := mem_types_iff.mp h
    · exact ⟨rfl, nofun⟩
    · exact ⟨rfl, family.typeAccess_ne_denied⟩
  refine ⟨.inl hrule.1, nofun, fun m hm ↦ ⟨.inl hrule.1, fun hdenied ↦ absurd hdenied hrule.2,
    fun hsome ↦ ?_⟩⟩
  rw [rewriter_eq_none h hm] at hsome
  cases hsome

theorem exists_mem_memberRules_introspection {n root name : String} :
    (∃ m ∈ (FamilyRule.mk n root .introspection).memberRules s row, m.name = name) ↔
      ∃ x ∈ s.members row, x.name = name ∧ x.IsSafe s root := by
  simp only [memberRules, Surface.members, List.mem_append, List.mem_map, List.mem_filter,
    Bool.not_eq_true', ← Bool.not_eq_true, occurs_iff]
  constructor
  · rintro ⟨_, ⟨p, ⟨hp, hsafe⟩, rfl⟩ | ⟨m, ⟨hm, hsafe⟩, rfl⟩, rfl⟩
    · exact ⟨.property p, .inl ⟨p, hp, rfl⟩, rfl, hsafe⟩
    · exact ⟨.method m, .inr ⟨m, hm, rfl⟩, rfl, hsafe⟩
  · rintro ⟨_, ⟨p, hp, rfl⟩ | ⟨m, hm, rfl⟩, rfl, hsafe⟩
    · exact ⟨_, .inl ⟨p, ⟨hp, hsafe⟩, rfl⟩, rfl⟩
    · exact ⟨_, .inr ⟨m, ⟨hm, hsafe⟩, rfl⟩, rfl⟩

theorem exists_mem_memberRules_denyDynamicCompilation {n root name : String} :
    (∃ m ∈ (FamilyRule.mk n root .denyDynamicCompilation).memberRules s row, m.name = name) ↔
      "Compile".toList <:+: name.toList ∧ ∃ m ∈ s.methods row, m.name = name := by
  simp only [memberRules, List.mem_map, List.mem_filter, occurs_iff]
  constructor
  · rintro ⟨_, ⟨m, ⟨hm, hcompiles⟩, rfl⟩, rfl⟩
    exact ⟨hcompiles, m, hm, rfl⟩
  · rintro ⟨hcompiles, m, hm, rfl⟩
    exact ⟨_, ⟨m, ⟨hm, hcompiles⟩, rfl⟩, rfl⟩

/-! ### What it declares -/

theorem declares_namespace {access : AccessLevel} :
    Declares [family.toNamespaceRule s] [family.namespaceName] access ↔ access = .neutral := by
  simp [declares_namespace_iff, namespaceRules, toNamespaceRule, eq_comm]

theorem Covers.declares (h : family.Covers s row t) :
    Declares [family.toNamespaceRule s] [family.namespaceName, t.name] family.typeAccess :=
  .ofType (List.mem_singleton.mpr rfl) (mem_types_iff.mpr ⟨row, t, .inr ⟨h, rfl⟩⟩)

theorem declares_member_iff {typeName name : String} {access : AccessLevel} :
    Declares [family.toNamespaceRule s] (MemberRef.path ⟨family.namespaceName, typeName, name⟩)
      access ↔ access = family.memberAccess ∧ family.Lists s typeName name := by
  rw [declares_path_iff]
  simp only [mem_memberRules, List.mem_singleton, exists_eq_left, MemberRef.path,
    List.cons.injEq, and_true]
  constructor
  · rintro ⟨m, ⟨rule, hrule, hm, -, rfl, rfl⟩, rfl⟩
    obtain ⟨row, t, ⟨-, rfl⟩ | ⟨hcovers, rfl⟩⟩ := mem_types_iff.mp hrule
    · cases hm
    · exact ⟨access_of_mem_memberRules hm, row, t, hcovers, rfl, m, hm, rfl⟩
  · rintro ⟨rfl, row, t, hcovers, rfl, m, hm, rfl⟩
    exact ⟨m, ⟨_, mem_types_iff.mpr ⟨row, t, .inr ⟨hcovers, rfl⟩⟩, hm, rfl, rfl, rfl⟩,
      access_of_mem_memberRules hm⟩

end FamilyRule

namespace PolicyTree

variable {family : FamilyRule} {s : Surface} {tree : PolicyTree} {row : Nat} {t : TypeEntry}

/-- A family makes a policy unless it leaves a type undecided that has the name of an
enumeration. -/
theorem exists_build_family_iff : (∃ tree, build s [.family family] = .ok tree) ↔
    ∀ row t row' t', family.CoversEnum s row t → family.Covers s row' t' → t.name = t'.name →
      family.typeAccess = .allowed := by
  rw [exists_build_iff_consistent]
  change Consistent s [family.toNamespaceRule s] ↔ _
  constructor
  · rintro ⟨-, hagree⟩ row t row' t' henum hcovers hname
    have hself := hagree _ (List.mem_singleton.mpr rfl) _ (List.mem_singleton.mpr rfl)
    have htypes := (hself rfl).2 _ (FamilyRule.mem_types_iff.mpr ⟨row, t, .inl ⟨henum, rfl⟩⟩) _
      (FamilyRule.mem_types_iff.mpr ⟨row', t', .inr ⟨hcovers, rfl⟩⟩)
    exact (htypes hname).1.symm
  · intro h
    have haccess : ∀ x ∈ (family.toNamespaceRule s).types,
        ∀ y ∈ (family.toNamespaceRule s).types, x.name = y.name → x.access = y.access := by
      intro x hx y hy hname
      obtain ⟨row, t, ⟨henum, rfl⟩ | ⟨hcovers, rfl⟩⟩ := FamilyRule.mem_types_iff.mp hx <;>
        obtain ⟨row', t', ⟨henum', rfl⟩ | ⟨hcovers', rfl⟩⟩ := FamilyRule.mem_types_iff.mp hy
      · rfl
      · exact (h row t row' t' henum hcovers' hname).symm
      · exact h row' t' row t henum' hcovers hname.symm
      · rfl
    refine ⟨fun n hn ↦ ?_, fun a ha b hb _ ↦ ?_⟩
    · obtain rfl := List.mem_singleton.mp hn
      exact fun rule ↦ FamilyRule.fits_of_mem_types
    · obtain rfl := List.mem_singleton.mp ha
      obtain rfl := List.mem_singleton.mp hb
      refine ⟨rfl, fun x hx y hy hname ↦ ⟨haccess x hx y hy hname, fun m hm m' hm' _ ↦ ?_⟩⟩
      refine ⟨(FamilyRule.access_of_mem_types hx hm).trans
        (FamilyRule.access_of_mem_types hy hm').symm, fun r hr ↦ ?_⟩
      rw [FamilyRule.rewriter_eq_none hx hm] at hr
      cases hr

theorem isAllowed_resolve_family_iff (hbuild : build s [.family family] = .ok tree)
    (hcovers : family.Covers s row t) (name : String) :
    (tree.resolve ⟨family.namespaceName, t.name, name⟩).isAllowed ↔
      (family.Lists s t.name name ∧ family.memberAccess = .allowed ∨
        ¬ family.Lists s t.name name ∧ family.typeAccess = .allowed) := by
  have hrules : ofRules s [family.toNamespaceRule s] = .ok tree := hbuild
  have hgathers := (gathers_of_ofRules hrules).1
  have hhas := declares_iff_has hgathers
  have htype : ∀ a, tree.Has [family.namespaceName, t.name] a ↔ a = family.typeAccess := by
    have hdeclared := (hhas _ _).mp hcovers.declares
    exact fun a ↦ ⟨fun ha ↦ ha.unique hdeclared, fun ha ↦ ha ▸ hdeclared⟩
  rw [(resolve_walk tree _).1]
  simp only [htype, ← hhas, FamilyRule.declares_namespace, FamilyRule.declares_member_iff]
  cases hmode : family.mode <;>
    by_cases hlists : family.Lists s t.name name <;>
      simp [FamilyRule.memberAccess, FamilyRule.typeAccess, hmode, hlists]

end PolicyTree

/-! ## A small family, to try statements on -/

def mirrorSurface : Surface where
  version := "mirror"
  types := [
    { namespaceName := "Mirror", name := "Node"
      properties := [⟨"Name", "Text"⟩, ⟨"NativeHandle", "Pointer"⟩, ⟨"CompiledForm", "Code"⟩]
      methods := [⟨"Parent", "Mirror.Node"⟩, ⟨"Open", "Pointer"⟩, ⟨"Compile", "Code"⟩] },
    { namespaceName := "Mirror", name := "Leaf", base := some "Mirror.Node"
      methods := [⟨"Open", "Mirror.Leaf"⟩, ⟨"get_NativeHandle", "Mirror.Leaf"⟩] }]

def mirrorFamily (mode : FamilyMode) : FamilyRule :=
  ⟨"Mirror", "Mirror.Node", mode⟩

theorem covers_mirror (mode : FamilyMode) : ∀ row (h : row < mirrorSurface.types.length),
    (mirrorFamily mode).Covers mirrorSurface row mirrorSurface.types[row]
  | 0, _ => ⟨rfl, rfl, nofun, rfl⟩
  | 1, _ =>
      have hderives : mirrorSurface.derivesFrom "Mirror.Leaf" "Mirror.Node" := by decide
      ⟨rfl, rfl, nofun, hderives⟩

namespace PolicyTree

/-! ## Names and members -/

theorem isAllowed_introspection_iff {s : Surface} {family : FamilyRule}
    (hmode : family.mode = .introspection) {tree : PolicyTree}
    (hbuild : build s [.family family] = .ok tree) {row : Nat} {t : TypeEntry}
    (hcovers : family.Covers s row t) (name : String) :
    (tree.resolve ⟨family.namespaceName, t.name, name⟩).isAllowed ↔
      ∃ row' t', family.Covers s row' t' ∧ t'.name = t.name ∧
        ∃ x ∈ s.members row', x.name = name ∧ x.IsSafe s family.root := by
  obtain ⟨n, root, mode⟩ := family
  cases hmode
  rw [isAllowed_resolve_family_iff hbuild hcovers]
  simp only [FamilyRule.memberAccess, FamilyRule.typeAccess, FamilyRule.Lists, and_true,
    FamilyRule.exists_mem_memberRules_introspection, reduceCtorEq, and_false, or_false]

/-- An introspection family allows a name on one of its types exactly when some member that is
visible under the name is safe.  Its names lead to nothing unsafe exactly when no unsafe member
of the type goes by the name of a safe one.  (A type that is listed twice is taken as one.) -/
theorem introspection_safe_iff {s : Surface} {family : FamilyRule}
    (hmode : family.mode = .introspection) {tree : PolicyTree}
    (hbuild : build s [.family family] = .ok tree) {row : Nat} {t : TypeEntry}
    (hcovers : family.Covers s row t) :
    (∀ name, (tree.resolve ⟨family.namespaceName, t.name, name⟩).isAllowed ↔
      ∃ row' t', family.Covers s row' t' ∧ t'.name = t.name ∧
        ∃ x ∈ s.members row', x.name = name ∧ x.IsSafe s family.root) ∧
      ((∀ name, (tree.resolve ⟨family.namespaceName, t.name, name⟩).isAllowed →
          ∀ y ∈ s.members row, y.name = name → y.IsSafe s family.root) ↔
        ∀ row' t', family.Covers s row' t' → t'.name = t.name →
          ∀ x ∈ s.members row', x.IsSafe s family.root →
            ∀ y ∈ s.members row, y.name = x.name → y.IsSafe s family.root) := by
  have hallowed := isAllowed_introspection_iff hmode hbuild hcovers
  refine ⟨hallowed, fun h row' t' hcovers' hname x hx hsafe ↦ ?_, fun h name hname ↦ ?_⟩
  · exact h x.name ((hallowed x.name).mpr ⟨row', t', hcovers', hname, x, hx, rfl, hsafe⟩)
  · obtain ⟨row', t', hcovers', hsame, x, hx, rfl, hsafe⟩ := (hallowed name).mp hname
    exact h row' t' hcovers' hsame x hx hsafe

/-- On the root of the family no two members share a name, so what is allowed there is safe. -/
theorem introspection_safe_node : ∃ tree,
    build mirrorSurface [.family (mirrorFamily .introspection)] = .ok tree ∧
      (tree.resolve ⟨"Mirror", "Node", "Parent"⟩).isAllowed ∧
      ∀ name, (tree.resolve ⟨"Mirror", "Node", name⟩).isAllowed →
        ∀ y ∈ mirrorSurface.members 0, y.name = name → y.IsSafe mirrorSurface "Mirror.Node" := by
  have hanswers : (build mirrorSurface [.family (mirrorFamily .introspection)]).map (fun tree ↦
      (tree.resolve ⟨"Mirror", "Node", "Parent"⟩).isAllowed) = .ok true := rfl
  obtain ⟨tree, hbuild, hparent⟩ := map_eq_ok_iff.mp hanswers
  have hsafe := introspection_safe_iff rfl hbuild (covers_mirror .introspection 0 (by decide))
  refine ⟨tree, hbuild, hparent, hsafe.2.mpr ?_⟩
  intro row t hcovers hname x hx hsafe y hy hsame
  have hdistinct : ((mirrorSurface.members 0).map SurfaceMember.name).Nodup := by decide +kernel
  have hrow : row = 0 := by
    have hfound := hcovers.found
    match row with
    | 0 => rfl
    | 1 =>
      cases hfound
      exact absurd hname (by decide)
    | _ + 2 => cases hfound
  subst hrow
  exact List.inj_on_of_nodup_map hdistinct hy hx hsame ▸ hsafe

/-- A method that leads out of the family and a handle are reached from a type that redeclares
their names. -/
theorem introspection_opens_unsafe : ∃ tree leaf,
    build mirrorSurface [.family (mirrorFamily .introspection)] = .ok tree ∧
      (mirrorFamily .introspection).Covers mirrorSurface 1 leaf ∧
      (tree.resolve ⟨"Mirror", leaf.name, "Open"⟩).isAllowed ∧
      (∃ m ∈ mirrorSurface.methods 1, m.name = "Open" ∧
        mirrorSurface.derivesFrom m.returns "Mirror.Node" = false) ∧
      (tree.resolve ⟨"Mirror", leaf.name, "get_NativeHandle"⟩).isAllowed ∧
      ∃ p ∈ mirrorSurface.properties 1, getterName p.name = "get_NativeHandle" ∧
        "Handle".toList <:+: p.name.toList := by
  have hanswers : (build mirrorSurface [.family (mirrorFamily .introspection)]).map (fun tree ↦
      ((tree.resolve ⟨"Mirror", "Leaf", "Open"⟩).isAllowed,
        (tree.resolve ⟨"Mirror", "Leaf", "get_NativeHandle"⟩).isAllowed)) =
          .ok (true, true) := rfl
  obtain ⟨tree, hbuild, hanswers⟩ := map_eq_ok_iff.mp hanswers
  obtain ⟨hopen, hhandle⟩ := Prod.mk.inj hanswers
  refine ⟨tree, _, hbuild, covers_mirror .introspection 1 (by decide), hopen, ?_, hhandle, ?_⟩
  · exact ⟨⟨"Open", "Pointer"⟩, by decide +kernel, rfl, rfl⟩
  · exact ⟨⟨"NativeHandle", "Pointer"⟩, by decide +kernel, rfl, occurs_iff.mp rfl⟩

/-- A family without dynamic compilation makes a policy.  On its types it denies the names of
the visible methods that have `Compile` in them.  It allows all other names, those of getters
and those that no member has among them. -/
theorem denied_iff_compiling_method (s : Surface) (n root : String) : ∃ tree,
    build s [.family ⟨n, root, .denyDynamicCompilation⟩] = .ok tree ∧
      ∀ row t, FamilyRule.Covers ⟨n, root, .denyDynamicCompilation⟩ s row t → ∀ name,
        ((tree.resolve ⟨n, t.name, name⟩).isAllowed = false ↔
          "Compile".toList <:+: name.toList ∧ ∃ row' t',
            FamilyRule.Covers ⟨n, root, .denyDynamicCompilation⟩ s row' t' ∧ t'.name = t.name ∧
              ∃ m ∈ s.methods row', m.name = name) := by
  obtain ⟨tree, hbuild⟩ : ∃ tree, build s [.family ⟨n, root, .denyDynamicCompilation⟩] = .ok tree :=
    exists_build_family_iff.mpr fun _ _ _ _ _ _ _ ↦ rfl
  refine ⟨tree, hbuild, fun row t hcovers name ↦ ?_⟩
  have hallowed := isAllowed_resolve_family_iff hbuild hcovers name
  simp only [FamilyRule.memberAccess, FamilyRule.typeAccess, FamilyRule.Lists, and_true,
    FamilyRule.exists_mem_memberRules_denyDynamicCompilation, reduceCtorEq, and_false,
    false_or] at hallowed
  rw [← Bool.not_eq_true, hallowed, not_not]
  constructor
  · rintro ⟨row', t', hcovers', hname, hcompiles, hmethod⟩
    exact ⟨hcompiles, row', t', hcovers', hname, hmethod⟩
  · rintro ⟨hcompiles, row', t', hcovers', hname, hmethod⟩
    exact ⟨row', t', hcovers', hname, hcompiles, hmethod⟩

theorem denied_inherited_compile : ∃ tree,
    build mirrorSurface [.family (mirrorFamily .denyDynamicCompilation)] = .ok tree ∧
      (tree.resolve ⟨"Mirror", "Leaf", "Compile"⟩).isAllowed = false ∧
      (tree.resolve ⟨"Mirror", "Leaf", "Open"⟩).isAllowed := by
  obtain ⟨tree, hbuild, hdenied⟩ := denied_iff_compiling_method mirrorSurface "Mirror" "Mirror.Node"
  have hcovers := covers_mirror .denyDynamicCompilation 1 (by decide)
  have hleaf := hdenied 1 _ hcovers
  refine ⟨tree, hbuild, (hleaf "Compile").mpr ?_, ?_⟩
  · exact ⟨List.infix_rfl, 1, _, hcovers, rfl, ⟨"Compile", "Code"⟩, by decide +kernel, rfl⟩
  · have hopen : ¬ "Compile".toList <:+: "Open".toList := fun h ↦ nomatch occurs_iff.mpr h
    exact Bool.of_not_eq_false fun hdenied ↦ hopen ((hleaf "Open").mp hdenied).1

/-- A getter that gives compiled code is allowed on the types of such a family, and so is a
method that the surface does not list. -/
theorem compiling_getter_allowed : ∃ tree leaf,
    build mirrorSurface [.family (mirrorFamily .denyDynamicCompilation)] = .ok tree ∧
      (mirrorFamily .denyDynamicCompilation).Covers mirrorSurface 1 leaf ∧
      (tree.resolve ⟨"Mirror", leaf.name, "get_CompiledForm"⟩).isAllowed ∧
      (∃ p ∈ mirrorSurface.properties 1, getterName p.name = "get_CompiledForm") ∧
      "Compile".toList <:+: "get_CompiledForm".toList ∧
      (tree.resolve ⟨"Mirror", leaf.name, "CompileToFile"⟩).isAllowed ∧
      mirrorSurface.hasMember 1 "CompileToFile" = false := by
  have hanswers : (build mirrorSurface [.family (mirrorFamily .denyDynamicCompilation)]).map
      (fun tree ↦ ((tree.resolve ⟨"Mirror", "Leaf", "get_CompiledForm"⟩).isAllowed,
        (tree.resolve ⟨"Mirror", "Leaf", "CompileToFile"⟩).isAllowed)) = .ok (true, true) := rfl
  obtain ⟨tree, hbuild, hanswers⟩ := map_eq_ok_iff.mp hanswers
  obtain ⟨hgetter, hunlisted⟩ := Prod.mk.inj hanswers
  refine ⟨tree, _, hbuild, covers_mirror .denyDynamicCompilation 1 (by decide), hgetter, ?_,
    occurs_iff.mp rfl, hunlisted, rfl⟩
  exact ⟨⟨"CompiledForm", "Code"⟩, by decide +kernel, rfl⟩

end PolicyTree

end GuestGate
