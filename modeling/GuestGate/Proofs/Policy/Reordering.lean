import Mathlib.Data.List.Perm.Basic
import GuestGate.Proofs.Policy.Enforcement
import GuestGate.Proofs.Policy.Resolution

/-!
# Rules in another order

Rules may be listed in any order: the namespaces of a policy, the types of a
namespace and the members of a type.  Whether they make a policy and what it
refuses does not depend on the order.  The call sites do, as soon as one member
is given two rewriters that do not act alike.
-/

namespace GuestGate

/-! ## Reordered lists -/

/-- A list in another order, with each element replaced by a related one. -/
def ReorderedBy {ρ : Type} (R : ρ → ρ → Prop) (rules rules' : List ρ) : Prop :=
  ∃ between, rules.Perm between ∧ List.Forall₂ R between rules'

structure TypeRule.Reordered (a b : TypeRule) : Prop where
  name : a.name = b.name
  access : a.access = b.access
  generated : a.generated = b.generated
  members : a.members.Perm b.members

structure NamespaceRule.Reordered (a b : NamespaceRule) : Prop where
  name : a.name = b.name
  access : a.access = b.access
  types : ReorderedBy TypeRule.Reordered a.types b.types

inductive PolicyRule.Reordered : PolicyRule → PolicyRule → Prop
  | explicit {a b : NamespaceRule} (h : a.Reordered b) : Reordered (.explicit a) (.explicit b)
  | family (rule : FamilyRule) : Reordered (.family rule) (.family rule)

/-- A rule list in another order, on all three levels. -/
def Reordered : List PolicyRule → List PolicyRule → Prop :=
  ReorderedBy PolicyRule.Reordered

namespace ReorderedBy

variable {ρ : Type} {R : ρ → ρ → Prop} {rules rules' : List ρ}

theorem refl (hrefl : ∀ a, R a a) (rules : List ρ) : ReorderedBy R rules rules :=
  ⟨rules, .refl rules, List.forall₂_same.mpr fun a _ ↦ hrefl a⟩

theorem symm (hsymm : ∀ a b, R a b → R b a) (h : ReorderedBy R rules rules') :
    ReorderedBy R rules' rules := by
  obtain ⟨between, hperm, hrelated⟩ := h
  have hback : List.Forall₂ R rules' between := (hrelated.imp hsymm).flip
  have hcomp : Relation.Comp (List.Forall₂ R) List.Perm rules' rules :=
    ⟨between, hback, hperm.symm⟩
  rw [List.forall₂_comp_perm_eq_perm_comp_forall₂] at hcomp
  exact hcomp

theorem map {σ : Type} {S : σ → σ → Prop} {f : ρ → σ} (hf : ∀ a b, R a b → S (f a) (f b))
    (h : ReorderedBy R rules rules') : ReorderedBy S (rules.map f) (rules'.map f) := by
  obtain ⟨between, hperm, hrelated⟩ := h
  refine ⟨between.map f, hperm.map f, ?_⟩
  rw [List.forall₂_map_left_iff, List.forall₂_map_right_iff]
  exact hrelated.imp hf

theorem exists_of_mem (h : ReorderedBy R rules rules') {a : ρ} (ha : a ∈ rules) :
    ∃ b ∈ rules', R a b := by
  obtain ⟨between, hperm, hrelated⟩ := h
  have hbetween := hperm.subset ha
  clear hperm
  induction hrelated with
  | nil => cases hbetween
  | @cons c d _ _ hcd _ ih =>
      rcases List.mem_cons.mp hbetween with rfl | hrest
      · exact ⟨d, by simp, hcd⟩
      · obtain ⟨b, hb, hab⟩ := ih hrest
        exact ⟨b, List.mem_cons_of_mem d hb, hab⟩

theorem to_end (hrefl : ∀ a, R a a) (before after : List ρ) {a b : ρ} (hab : R a b) :
    ReorderedBy R (before ++ a :: after) (before ++ after ++ [b]) := by
  refine ⟨before ++ after ++ [a], ?_, ?_⟩
  · exact List.perm_middle.trans (List.perm_append_singleton a _).symm
  · exact List.rel_append (List.forall₂_same.mpr fun c _ ↦ hrefl c) (.cons hab .nil)

end ReorderedBy

theorem TypeRule.Reordered.refl (t : TypeRule) : t.Reordered t :=
  ⟨rfl, rfl, rfl, .refl _⟩

theorem TypeRule.Reordered.symm {a b : TypeRule} (h : a.Reordered b) : b.Reordered a :=
  ⟨h.name.symm, h.access.symm, h.generated.symm, h.members.symm⟩

theorem NamespaceRule.Reordered.refl (n : NamespaceRule) : n.Reordered n :=
  ⟨rfl, rfl, .refl TypeRule.Reordered.refl _⟩

theorem NamespaceRule.Reordered.symm {a b : NamespaceRule} (h : a.Reordered b) : b.Reordered a :=
  ⟨h.name.symm, h.access.symm, h.types.symm fun _ _ ↦ TypeRule.Reordered.symm⟩

theorem PolicyRule.Reordered.refl : (rule : PolicyRule) → rule.Reordered rule
  | .explicit n => .explicit (.refl n)
  | .family rule => .family rule

/-- Reordered rules stand for reordered namespace rules: a family is read off the
surface alone. -/
theorem Reordered.expand {s : Surface} {rules rules' : List PolicyRule}
    (h : Reordered rules rules') :
    ReorderedBy NamespaceRule.Reordered (expand s rules) (GuestGate.expand s rules') := by
  refine h.map fun a b hab ↦ ?_
  cases hab with
  | explicit hab => exact hab
  | family rule => exact .refl _

/-! ## What does not depend on the order -/

section Same

variable {rules rules' : List NamespaceRule}
  (h : ReorderedBy NamespaceRule.Reordered rules rules')
include h

theorem Declares.reordered {path : List String} {access : AccessLevel}
    (hdeclares : Declares rules path access) : Declares rules' path access := by
  cases hdeclares with
  | ofNamespace hn =>
      obtain ⟨n', hn', hreordered⟩ := h.exists_of_mem hn
      rw [hreordered.name, hreordered.access]
      exact .ofNamespace hn'
  | ofType hn ht =>
      obtain ⟨n', hn', hreordered⟩ := h.exists_of_mem hn
      obtain ⟨t', ht', htypes⟩ := hreordered.types.exists_of_mem ht
      rw [hreordered.name, htypes.name, htypes.access]
      exact .ofType hn' ht'
  | ofMember hn ht hm =>
      obtain ⟨n', hn', hreordered⟩ := h.exists_of_mem hn
      obtain ⟨t', ht', htypes⟩ := hreordered.types.exists_of_mem ht
      rw [hreordered.name, htypes.name]
      exact .ofMember hn' ht' (htypes.members.subset hm)

theorem Attaches.reordered {m : MemberRef} {r : Rewriter} (hattaches : Attaches rules m r) :
    Attaches rules' m r := by
  obtain ⟨n, hn, t, ht, x, hx, hpath, hr⟩ := hattaches
  obtain ⟨n', hn', hreordered⟩ := h.exists_of_mem hn
  obtain ⟨t', ht', htypes⟩ := hreordered.types.exists_of_mem ht
  rw [hreordered.name, htypes.name] at hpath
  exact ⟨n', hn', t', ht', x, htypes.members.subset hx, hpath, hr⟩

end Same

theorem TypeRule.Fits.reordered {s : Surface} {n n' : NamespaceRule} {t t' : TypeRule}
    (hn : n.Reordered n') (ht : t.Reordered t') (h : t'.Fits s n') : t.Fits s n where
  known := by
    rw [hn.name, ht.name, ht.generated]
    exact h.known
  notWider := by
    rw [hn.access, ht.access]
    exact h.notWider
  members m hm := by
    obtain ⟨hknown, hwider, hallowed⟩ := h.members m (ht.members.subset hm)
    rw [← hn.name, ← ht.name] at hknown
    rw [← ht.generated] at hknown
    rw [← ht.access] at hwider
    exact ⟨hknown, hwider, hallowed⟩

theorem TypeRule.Agrees.reordered {a a' b b' : TypeRule} (ha : a.Reordered a')
    (hb : b.Reordered b') (h : a'.Agrees b') : a.Agrees b := by
  intro hname
  rw [ha.name, hb.name] at hname
  obtain ⟨haccess, hmembers⟩ := h hname
  rw [← ha.access, ← hb.access] at haccess
  exact ⟨haccess, fun x hx y hy ↦ hmembers x (ha.members.subset hx) y (hb.members.subset hy)⟩

theorem NamespaceRule.Agrees.reordered {a a' b b' : NamespaceRule} (ha : a.Reordered a')
    (hb : b.Reordered b') (h : a'.Agrees b') : a.Agrees b := by
  intro hname
  rw [ha.name, hb.name] at hname
  obtain ⟨haccess, htypes⟩ := h hname
  rw [← ha.access, ← hb.access] at haccess
  refine ⟨haccess, fun t ht u hu ↦ ?_⟩
  obtain ⟨t', ht', htt'⟩ := ha.types.exists_of_mem ht
  obtain ⟨u', hu', huu'⟩ := hb.types.exists_of_mem hu
  exact (htypes t' ht' u' hu').reordered htt' huu'

theorem Consistent.reordered {s : Surface} {rules rules' : List NamespaceRule}
    (hconsistent : Consistent s rules) (h : ReorderedBy NamespaceRule.Reordered rules' rules) :
    Consistent s rules' where
  fits n hn t ht := by
    obtain ⟨n', hn', hreordered⟩ := h.exists_of_mem hn
    obtain ⟨t', ht', htypes⟩ := hreordered.types.exists_of_mem ht
    exact (hconsistent.fits n' hn' t' ht').reordered hreordered htypes
  agree a ha b hb := by
    obtain ⟨a', ha', hreordered⟩ := h.exists_of_mem ha
    obtain ⟨b', hb', hreordered'⟩ := h.exists_of_mem hb
    exact (hconsistent.agree a' ha' b' hb').reordered hreordered hreordered'

namespace PolicyTree

variable {s : Surface} {rules rules' : List NamespaceRule} {tree tree' : PolicyTree}

theorem exists_ofRules_of_reordered (h : ReorderedBy NamespaceRule.Reordered rules rules')
    (hbuild : ofRules s rules = .ok tree) : ∃ tree', ofRules s rules' = .ok tree' := by
  have hconsistent := exists_ofRules_iff.mp ⟨tree, hbuild⟩
  exact exists_ofRules_iff.mpr (hconsistent.reordered (h.symm fun _ _ ↦ .symm))

theorem isAllowed_resolve_of_reordered (h : ReorderedBy NamespaceRule.Reordered rules rules')
    (hbuild : ofRules s rules = .ok tree) (hbuild' : ofRules s rules' = .ok tree')
    (m : MemberRef) : (tree'.resolve m).isAllowed = (tree.resolve m).isAllowed := by
  obtain ⟨hgathers, -⟩ := gathers_of_ofRules hbuild
  obtain ⟨hgathers', -⟩ := gathers_of_ofRules hbuild'
  have hsame : tree'.Has = tree.Has := by
    funext path access
    rw [← declares_iff_has hgathers path access, ← declares_iff_has hgathers' path access]
    exact propext ⟨.reordered (h.symm fun _ _ ↦ .symm), .reordered h⟩
  rw [Bool.eq_iff_iff, isAllowed_resolve_iff, isAllowed_resolve_iff, hsame]

/-! ## Policies that do the same -/

/-- Rewriters, or none, do the same to every call of a member. -/
def ActAlike (m : MemberRef) (r r' : Option Rewriter) : Prop :=
  ∀ site : CallSite, site.member = m → guarded r site = guarded r' site

theorem violations_inspect (tree : PolicyTree) (found : Findings) (site : CallSite) :
    (tree.inspect found site).violations =
      if (tree.resolve site.member).isAllowed ∨
          (found.violations.any fun v ↦ v.member == site.member) then found.violations
      else found.violations ++ [⟨site.member, site.line⟩] := by
  cases hdecision : tree.resolve site.member with
  | denied reason =>
      by_cases hany : (found.violations.any fun v ↦ v.member == site.member) <;>
        simp [inspect, hdecision, hany, Decision.isAllowed]
  | allowed rewriter =>
      by_cases hcontains : found.callSites.contains site.member <;>
        simp [inspect, hdecision, hcontains, Decision.isAllowed]

/-- Policies that allow the same members find the same violations, whatever their
rewriters are. -/
theorem violations_foldl_eq
    (hallowed : ∀ m, (tree'.resolve m).isAllowed = (tree.resolve m).isAllowed)
    {found found' : Findings} (hfound : found'.violations = found.violations)
    (references : List CallSite) : (references.foldl tree'.inspect found').violations =
      (references.foldl tree.inspect found).violations := by
  induction references generalizing found found' with
  | nil => exact hfound
  | cons site rest ih =>
      refine ih ?_
      rw [violations_inspect, violations_inspect, hfound, hallowed]

theorem enforce_eq_error_iff_of_isAllowed
    (hallowed : ∀ m, (tree'.resolve m).isAllowed = (tree.resolve m).isAllowed) {α : Type}
    (assembly : Assembly α) (failure : Failure) :
    tree'.enforce assembly = .error failure ↔ tree.enforce assembly = .error failure := by
  have hsame : (assembly.references.foldl tree'.inspect {}).violations =
      (assembly.references.foldl tree.inspect {}).violations :=
    violations_foldl_eq hallowed rfl assembly.references
  simp only [enforce, hsame]
  split <;> simp

/-- Enforcement reads a policy through its answers: whether a member is allowed, and what
is done to its calls if it is. -/
theorem enforce_congr (hallowed : ∀ m, (tree'.resolve m).isAllowed = (tree.resolve m).isAllowed)
    (hrewriter : ∀ m, ActAlike m (tree'.resolve m).rewriter? (tree.resolve m).rewriter?)
    (hversion : tree'.surfaceVersion = tree.surfaceVersion) {α : Type} (assembly : Assembly α) :
    tree'.enforce assembly = tree.enforce assembly := by
  have hinspect : tree'.inspect = tree.inspect := by
    funext found site
    have hallowed := hallowed site.member
    have hrewriter := hrewriter site.member site rfl
    simp only [inspect]
    cases h : tree.resolve site.member <;> cases h' : tree'.resolve site.member <;>
      simp_all [Decision.isAllowed, Decision.rewriter?]
  simp only [enforce, hinspect, hversion]

/-! ## Members whose rewriters act alike -/

/-- Where the rewriters of a member act alike, the last one acts alike in any order. -/
theorem actAlike_of_reordered (h : ReorderedBy NamespaceRule.Reordered rules rules')
    (hbuild : ofRules s rules = .ok tree) (hbuild' : ofRules s rules' = .ok tree')
    (halike : ∀ m r r', Attaches rules m r → Attaches rules m r' → ActAlike m (some r) (some r'))
    (m : MemberRef) : ActAlike m (tree'.resolve m).rewriter? (tree.resolve m).rewriter? := by
  rw [rewriter?_resolve hbuild, rewriter?_resolve hbuild']
  have hback := h.symm fun _ _ ↦ .symm
  cases hlast : lastRewriter (memberRules rules m) with
  | none =>
      have hnone : lastRewriter (memberRules rules' m) = none := by
        rw [lastRewriter_eq_none_iff] at hlast ⊢
        intro x hx
        cases hr : x.rewriter with
        | none => rfl
        | some r =>
            have hattaches : Attaches rules m r :=
              (attaches_iff.mpr ⟨x, hx, hr⟩).reordered hback
            obtain ⟨y, hy, hyr⟩ := attaches_iff.mp hattaches
            simp [hlast y hy] at hyr
      rw [hnone]
      exact fun _ _ ↦ rfl
  | some r =>
      have hr : Attaches rules m r := attaches_iff.mpr (mem_of_lastRewriter hlast)
      obtain ⟨x, hx, hxr⟩ := attaches_iff.mp (hr.reordered h)
      obtain ⟨last, hlast'⟩ := exists_lastRewriter hx hxr
      have hattaches := attaches_iff.mpr (mem_of_lastRewriter hlast')
      rw [hlast']
      exact halike m last r (hattaches.reordered hback) hr

end PolicyTree

/-! ## Members with two rewriters -/

theorem Rewriter.IsProvided.eq_of_actAlike {m : MemberRef} {r r' : Rewriter}
    (hr : r.IsProvided) (hr' : r'.IsProvided) (hname : r.name = r'.name)
    (h : PolicyTree.ActAlike m (some r) (some r')) : r = r' := by
  obtain ⟨provided, rfl⟩ := hr
  obtain ⟨provided', rfl⟩ := hr'
  rw [ProvidedRewriter.eq_of_applyTo_probe hname (h (ProvidedRewriter.probe m) rfl)]

/-- Families attach no rewriters. -/
theorem FamilyRule.rewriter_of_mem_memberRules {s : Surface} {family : FamilyRule} {row : Nat}
    {x : MemberRule} (hx : x ∈ family.memberRules s row) : x.rewriter = none := by
  cases hmode : family.mode with
  | introspection =>
      simp only [memberRules, hmode, List.mem_append, List.mem_map] at hx
      rcases hx with ⟨_, -, rfl⟩ | ⟨_, -, rfl⟩ <;> rfl
  | denyDynamicCompilation =>
      simp only [memberRules, hmode, List.mem_map] at hx
      obtain ⟨_, -, rfl⟩ := hx
      rfl

theorem FamilyRule.rewriter_eq_none {s : Surface} {family : FamilyRule} {t : TypeRule}
    {x : MemberRule} (ht : t ∈ (family.toNamespaceRule s).types) (hx : x ∈ t.members) :
    x.rewriter = none := by
  obtain ⟨row, -, hrow⟩ := List.mem_filterMap.mp ht
  obtain ⟨found, -, hfound⟩ := Option.bind_eq_some_iff.mp hrow
  split at hfound
  · cases hfound
    cases hx
  · split at hfound
    · cases hfound
      exact family.rewriter_of_mem_memberRules hx
    · cases hfound

/-- A rule that stands last on all three levels decides on the rewriter. -/
theorem lastRewriter_of_last {rules : List NamespaceRule} {n : NamespaceRule} {t : TypeRule}
    {x : MemberRule} {types : List TypeRule} {members : List MemberRule} {r : Rewriter}
    {m : MemberRef} (htypes : n.types = types ++ [t]) (hmembers : t.members = members ++ [x])
    (hpath : [n.name, t.name, x.name] = m.path) (hr : x.rewriter = some r) :
    lastRewriter (memberRules (rules ++ [n]) m) = some r := by
  simp only [MemberRef.path, List.cons.injEq, and_true] at hpath
  obtain ⟨hname, htype, hmember⟩ := hpath
  simp [memberRules, typeRules, namespaceRules, List.filter_append, hname, htypes, htype,
    hmembers, hmember, ← List.append_assoc, hr]

/-- Any rewriter that rules attach to a member is the last one in some order of the rules. -/
theorem exists_reordered_lastRewriter {s : Surface} {rules : List PolicyRule} {m : MemberRef}
    {r : Rewriter} (h : Attaches (expand s rules) m r) : ∃ rules', Reordered rules rules' ∧
      lastRewriter (memberRules (expand s rules') m) = some r := by
  obtain ⟨n, hn, t, ht, x, hx, hpath, hr⟩ := h
  obtain ⟨rule, hrule, hexpand⟩ := List.mem_map.mp hn
  cases rule with
  | family family =>
      cases hexpand
      simp [family.rewriter_eq_none ht hx] at hr
  | explicit rule =>
      cases hexpand
      have ht : t ∈ rule.types := ht
      obtain ⟨before, after, rfl⟩ := List.append_of_mem hrule
      obtain ⟨types, types', htypes⟩ := List.append_of_mem ht
      obtain ⟨members, members', hmembers⟩ := List.append_of_mem hx
      -- the rule moves to the end of its type, the type of its namespace, and that of the list
      have hmember : TypeRule.Reordered t { t with members := members ++ members' ++ [x] } := by
        refine ⟨rfl, rfl, rfl, ?_⟩
        rw [hmembers]
        exact List.perm_middle.trans (List.perm_append_singleton x _).symm
      have htype : NamespaceRule.Reordered rule
          { rule with
            types := types ++ types' ++ [{ t with members := members ++ members' ++ [x] }] } := by
        refine ⟨rfl, rfl, ?_⟩
        rw [htypes]
        exact .to_end TypeRule.Reordered.refl types types' hmember
      refine ⟨_, .to_end PolicyRule.Reordered.refl before after (.explicit htype), ?_⟩
      rw [expand, List.map_append]
      exact lastRewriter_of_last rfl rfl hpath hr

namespace PolicyTree

def oneCall (site : CallSite) : Assembly Unit where
  streams := ()
  references := [site]

theorem exists_enforce_oneCall {tree : PolicyTree} {site : CallSite}
    (hallowed : (tree.resolve site.member).isAllowed) :
    ∃ verified, tree.enforce (oneCall site) = .ok verified ∧
      verified.callSites[site.member]? =
        some (guarded (tree.resolve site.member).rewriter? site) := by
  obtain ⟨verified, hok⟩ : ∃ verified, tree.enforce (oneCall site) = .ok verified :=
    exists_enforce_eq_ok_iff.mpr (by simpa [oneCall] using hallowed)
  refine ⟨verified, hok, ?_⟩
  rw [(verified_of_enforce hok).2.2]
  simp [oneCall, firstReference?]

/-- A program with a single call shows what a policy does to the call. -/
theorem actAlike_of_enforce_eq {tree tree' : PolicyTree} {m : MemberRef}
    (hallowed : (tree.resolve m).isAllowed) (hallowed' : (tree'.resolve m).isAllowed)
    (hsame : ∀ assembly : Assembly Unit, tree'.enforce assembly = tree.enforce assembly) :
    ActAlike m (tree.resolve m).rewriter? (tree'.resolve m).rewriter? := by
  rintro site rfl
  obtain ⟨verified, hok, hsite⟩ := exists_enforce_oneCall hallowed
  obtain ⟨verified', hok', hsite'⟩ := exists_enforce_oneCall hallowed'
  rw [hsame, hok] at hok'
  cases hok'
  rw [hsite] at hsite'
  exact Option.some.inj hsite'

/-- All orders accept alike exactly when the rewriters that a member is given act alike. -/
theorem enforce_eq_iff_actAlike {s : Surface} {rules : List PolicyRule} {tree : PolicyTree}
    (hbuild : build s rules = .ok tree) :
    (∀ rules' tree', Reordered rules rules' → build s rules' = .ok tree' →
        ∀ (α : Type) (assembly : Assembly α), tree'.enforce assembly = tree.enforce assembly) ↔
      ∀ m r r', Attaches (expand s rules) m r → Attaches (expand s rules) m r' →
        ActAlike m (some r) (some r') := by
  have hrules : ofRules s (expand s rules) = .ok tree := hbuild
  have hallowed (rules' tree') (h : Reordered rules rules') (hbuild' : build s rules' = .ok tree') :
      ∀ m, (tree'.resolve m).isAllowed = (tree.resolve m).isAllowed :=
    isAllowed_resolve_of_reordered h.expand hrules hbuild'
  constructor
  · intro hsame m r r' hr hr'
    -- two orders that end with the one and with the other rewriter
    obtain ⟨first, hfirst, hlast⟩ := exists_reordered_lastRewriter hr
    obtain ⟨second, hsecond, hlast'⟩ := exists_reordered_lastRewriter hr'
    obtain ⟨tree₁, hbuild₁⟩ := exists_ofRules_of_reordered hfirst.expand hrules
    obtain ⟨tree₂, hbuild₂⟩ := exists_ofRules_of_reordered hsecond.expand hrules
    have hopen := isAllowed_of_attaches hrules hr
    rw [← hlast, ← hlast', ← rewriter?_resolve hbuild₁, ← rewriter?_resolve hbuild₂]
    apply actAlike_of_enforce_eq
    · rw [hallowed first tree₁ hfirst hbuild₁, hopen]
    · rw [hallowed second tree₂ hsecond hbuild₂, hopen]
    · intro assembly
      rw [hsame first tree₁ hfirst hbuild₁, hsame second tree₂ hsecond hbuild₂]
  · intro halike rules' tree' h hbuild' α assembly
    apply enforce_congr (hallowed rules' tree' h hbuild')
    · exact actAlike_of_reordered h.expand hrules hbuild' halike
    · exact (gathers_of_ofRules hbuild').2.trans (gathers_of_ofRules hrules).2.symm

/-- Building does not depend on the order of the rules, and neither does what is refused
and why.  What is accepted comes out the same in all orders exactly when the rewriters that
a member is given all act alike on its calls, which for provided rewriters means that they
are equal: of two bounds for one member the last one holds. -/
theorem enforce_reordered_iff {s : Surface} {rules : List PolicyRule} {tree : PolicyTree}
    (hbuild : build s rules = .ok tree) :
    (∀ rules', Reordered rules rules' → ∃ tree', build s rules' = .ok tree') ∧
      (∀ rules' tree', Reordered rules rules' → build s rules' = .ok tree' →
        ∀ (α : Type) (assembly : Assembly α) failure,
          tree'.enforce assembly = .error failure ↔ tree.enforce assembly = .error failure) ∧
      ((∀ rules' tree', Reordered rules rules' → build s rules' = .ok tree' →
          ∀ (α : Type) (assembly : Assembly α),
            tree'.enforce assembly = tree.enforce assembly) ↔
        ∀ m r r', Attaches (expand s rules) m r → Attaches (expand s rules) m r' →
          ActAlike m (some r) (some r')) ∧
      ((∀ m r, Attaches (expand s rules) m r → r.IsProvided) →
        ((∀ rules' tree', Reordered rules rules' → build s rules' = .ok tree' →
            ∀ (α : Type) (assembly : Assembly α),
              tree'.enforce assembly = tree.enforce assembly) ↔
          ∀ m r r', Attaches (expand s rules) m r → Attaches (expand s rules) m r' → r = r')) := by
  have hrules : ofRules s (expand s rules) = .ok tree := hbuild
  have halike := enforce_eq_iff_actAlike hbuild
  refine ⟨fun rules' h ↦ exists_ofRules_of_reordered h.expand hrules, ?_, halike, ?_⟩
  · intro rules' tree' h hbuild' α assembly
    apply enforce_eq_error_iff_of_isAllowed
    exact isAllowed_resolve_of_reordered h.expand hrules hbuild'
  · intro hprovided
    have hconsistent := exists_ofRules_iff.mp ⟨tree, hrules⟩
    rw [halike]
    constructor
    · intro halike m r r' hr hr'
      exact (hprovided m r hr).eq_of_actAlike (hprovided m r' hr')
        (hconsistent.rewriter_name_eq hr hr') (halike m r r' hr hr')
    · intro hunique m r r' hr hr'
      rw [hunique m r r' hr hr']
      exact fun _ _ ↦ rfl

/-- Nothing but bounds on waiting is attached in the small policy. -/
theorem eq_count_of_attaches {n : Int} {m : MemberRef} {r : Rewriter}
    (h : Attaches (expand clockSurface (clockRules n n)) m r) : r = .count n := by
  obtain ⟨rule, hrule, t, ht, x, hx, -, hr⟩ := h
  simp only [expand, clockRules, List.map_cons, List.map_nil, List.mem_cons,
    List.not_mem_nil, or_false] at hrule
  rcases hrule with rfl | rfl | rfl
  · simp only [PolicyRule.toNamespaceRule, List.mem_singleton] at ht
    subst ht
    simp_all
  · simp [FamilyRule.rewriter_eq_none ht hx] at hr
  · simp only [PolicyRule.toNamespaceRule, List.mem_singleton] at ht
    subst ht
    simp only [List.mem_cons, List.not_mem_nil, or_false] at hx
    rcases hx with rfl | rfl <;> simp_all

theorem same_calls_of_one_bound : ∃ tree, build clockSurface (clockRules 20 20) = .ok tree ∧
    ∀ rules' tree', Reordered (clockRules 20 20) rules' → build clockSurface rules' = .ok tree' →
      ∀ (α : Type) (assembly : Assembly α),
        tree'.enforce assembly = tree.enforce assembly := by
  have hbuilds : (build clockSurface (clockRules 20 20)).isOk = true := rfl
  cases hbuild : build clockSurface (clockRules 20 20) with
  | error e => simp [hbuild, Except.isOk, Except.toBool] at hbuilds
  | ok tree =>
      refine ⟨tree, rfl, (enforce_reordered_iff hbuild).2.2.1.mpr fun m r r' hr hr' ↦ ?_⟩
      rw [eq_count_of_attaches hr, eq_count_of_attaches hr']
      exact fun _ _ ↦ rfl

/-- The same rules the other way round let a call wait for another time. -/
theorem bound_of_last_rule : ∃ rules' tree tree' verified verified' site site',
    Reordered (clockRules 250 20) rules' ∧
      build clockSurface (clockRules 250 20) = .ok tree ∧
      build clockSurface rules' = .ok tree' ∧
      tree.enforce (clockCalls [[.count]]) = .ok verified ∧
      tree'.enforce (clockCalls [[.count]]) = .ok verified' ∧
      verified.callSites[clockWait]? = some site ∧ site.countLimit? 0 = some 20 ∧
      verified'.callSites[clockWait]? = some site' ∧ site'.countLimit? 0 = some 250 := by
  have hrun : clockRun (clockRules 250 20) [[.count]] =
      .ok (some (.count 20), some (some (some 20))) := rfl
  have hrun' : clockRun (clockRules 250 20).reverse [[.count]] =
      .ok (some (.count 250), some (some (some 250))) := rfl
  obtain ⟨tree, verified, site, hbuild, -, hok, hsite, hlimit⟩ := exists_of_clockRun hrun
  obtain ⟨tree', verified', site', hbuild', -, hok', hsite', hlimit'⟩ := exists_of_clockRun hrun'
  refine ⟨_, tree, tree', verified, verified', site, site', ?_, hbuild, hbuild', hok, hok',
    hsite, hlimit, hsite', hlimit'⟩
  exact ⟨_, (List.reverse_perm _).symm, List.forall₂_same.mpr fun rule _ ↦ .refl rule⟩

end PolicyTree

end GuestGate
