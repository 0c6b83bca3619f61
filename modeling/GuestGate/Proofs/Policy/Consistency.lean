import GuestGate.Proofs.Policy.Merging

/-!
# When rules make a policy

Rules are merged one after another, and each is compared with the node that the
rules before it have left.  Whether the whole list is accepted depends only on
which rules it holds: every rule has to fit by itself, and any two rules for
one node have to agree.
-/

namespace GuestGate

/-! ## Agreement of two rules -/

/-- Two member rules for one name have the same access and rewriters of one name. -/
def MemberRule.Agrees (a b : MemberRule) : Prop :=
  a.name = b.name → a.access = b.access ∧
    ∀ x ∈ a.rewriter, ∀ y ∈ b.rewriter, x.name = y.name

/-- Two rules of one name have the same access, and the rules inside them agree. -/
def AgreeWithin {ρ χ : Type} (name : ρ → String) (access : ρ → AccessLevel)
    (inside : ρ → List χ) (Agrees : χ → χ → Prop) (a b : ρ) : Prop :=
  name a = name b → access a = access b ∧ ∀ x ∈ inside a, ∀ y ∈ inside b, Agrees x y

def TypeRule.Agrees : TypeRule → TypeRule → Prop :=
  AgreeWithin TypeRule.name TypeRule.access TypeRule.members MemberRule.Agrees

def NamespaceRule.Agrees : NamespaceRule → NamespaceRule → Prop :=
  AgreeWithin NamespaceRule.name NamespaceRule.access NamespaceRule.types TypeRule.Agrees

/-- A list of rules that makes a policy over a surface. -/
structure Consistent (s : Surface) (rules : List NamespaceRule) : Prop where
  fits : ∀ n ∈ rules, n.Fits s
  agree : AgreeAll NamespaceRule.Agrees rules

theorem MemberRule.Agrees.symm {a b : MemberRule} (h : a.Agrees b) : b.Agrees a := by
  intro hname
  obtain ⟨haccess, hrewriter⟩ := h hname.symm
  exact ⟨haccess.symm, fun x hx y hy ↦ (hrewriter y hy x hx).symm⟩

theorem MemberRule.Agrees.refl (a : MemberRule) : a.Agrees a := by
  refine fun _ ↦ ⟨rfl, fun x hx y hy ↦ ?_⟩
  rw [Option.mem_unique hx hy]

section Within

variable {ρ χ : Type} {name : ρ → String} {access : ρ → AccessLevel} {inside : ρ → List χ}
  {Agrees : χ → χ → Prop}

theorem AgreeWithin.symm (hsymm : ∀ x y, Agrees x y → Agrees y x) {a b : ρ}
    (h : AgreeWithin name access inside Agrees a b) :
    AgreeWithin name access inside Agrees b a := by
  intro hname
  obtain ⟨haccess, hinside⟩ := h hname.symm
  exact ⟨haccess.symm, fun x hx y hy ↦ hsymm y x (hinside y hy x hx)⟩

theorem agreeAll_inside {rules : List ρ}
    (h : AgreeAll (AgreeWithin name access inside Agrees) rules) (key : String) :
    AgreeAll Agrees ((rules.filter (name · == key)).flatMap inside) := by
  intro x hx y hy
  simp only [List.mem_flatMap, List.mem_filter, beq_iff_eq] at hx hy
  obtain ⟨a, ⟨ha, hkeya⟩, hx⟩ := hx
  obtain ⟨b, ⟨hb, hkeyb⟩, hy⟩ := hy
  exact (h a ha b hb (hkeya.trans hkeyb.symm)).2 x hx y hy

/-- One more rule agrees with the ones before it when its access is that of the rules of
its name, and what stands inside it agrees with what stands inside them. -/
theorem agreeAll_within_concat_iff (hsymm : ∀ x y, Agrees x y → Agrees y x) {rules : List ρ}
    (hrules : AgreeAll (AgreeWithin name access inside Agrees) rules) (r : ρ) :
    AgreeAll (AgreeWithin name access inside Agrees) (rules ++ [r]) ↔
      (∀ a ∈ rules, name a = name r → access a = access r) ∧
        AgreeAll Agrees ((rules.filter (name · == name r)).flatMap inside ++ inside r) := by
  constructor
  · intro h
    refine ⟨fun a ha hname ↦ (h a (by simp [ha]) r (by simp) hname).1, ?_⟩
    simpa [List.filter_append] using agreeAll_inside h (name r)
  · rintro ⟨haccess, hinside⟩
    rw [agreeAll_concat_iff fun _ _ ↦ AgreeWithin.symm hsymm]
    refine ⟨hrules, fun a ha hname ↦ ⟨haccess a ha hname, fun x hx y hy ↦ ?_⟩,
      fun _ ↦ ⟨rfl, fun x hx y hy ↦ ?_⟩⟩
    · refine hinside x (List.mem_append_left _ ?_) y (List.mem_append_right _ hy)
      exact List.mem_flatMap.mpr ⟨a, by simp [ha, hname], hx⟩
    · exact hinside x (List.mem_append_right _ hx) y (List.mem_append_right _ hy)

end Within

theorem TypeRule.Agrees.symm {a b : TypeRule} (h : a.Agrees b) : b.Agrees a :=
  AgreeWithin.symm (fun _ _ ↦ MemberRule.Agrees.symm) h

/-! ## One step accepts what fits and agrees -/

namespace PolicyTree

/-- The rewriter that a node holds and a further one go by one name exactly when all
rewriters for the name do. -/
theorem nodeFor_rewriter_iff {map : NodeMap PolicyNode} {rules : List MemberRule}
    {m : MemberRule} (h : GathersMembers rules map) (hagree : AgreeAll MemberRule.Agrees rules) :
    (∀ old ∈ (map.nodeFor m.name m.access).rewriter, ∀ r ∈ m.rewriter, old.name = r.name) ↔
      ∀ a ∈ rules, a.name = m.name → ∀ x ∈ a.rewriter, ∀ r ∈ m.rewriter, x.name = r.name := by
  have hold := (gathers_memberFor h m).rewriter
  constructor
  · intro hnode a ha hname x hx r hr
    -- the node remembers one of the earlier rewriters, and these go by one name
    cases hlast : (map.nodeFor m.name m.access).rewriter with
    | none =>
        have hnone := lastRewriter_eq_none_iff.mp (hold.symm.trans hlast) a (by simp [ha, hname])
        simp [hnone] at hx
    | some old =>
        obtain ⟨b, hb, hbold⟩ := mem_of_lastRewriter (hold.symm.trans hlast)
        obtain ⟨hb, hbname⟩ := List.mem_filter.mp hb
        have hsame := (hagree a ha b hb (hname.trans (eq_of_beq hbname).symm)).2
        exact (hsame x hx old hbold).trans (hnode old hlast r hr)
  · intro hrules old hlast r hr
    obtain ⟨a, ha, haold⟩ := mem_of_lastRewriter (hold.symm.trans hlast)
    obtain ⟨ha, haname⟩ := List.mem_filter.mp ha
    exact hrules a ha (eq_of_beq haname) old haold r hr

theorem exists_addMember_iff {s : Surface} {path : String} {row : Option Nat} {t : TypeRule}
    {node : PolicyNode} {rules : List MemberRule} {m : MemberRule}
    (h : GathersMembers rules node.children) (hagree : AgreeAll MemberRule.Agrees rules) :
    (∃ new, addMember s path row t node m = .ok new) ↔
      m.Fits s row t ∧ AgreeAll MemberRule.Agrees (rules ++ [m]) := by
  have haccess : (node.children.nodeFor m.name m.access).access = m.access ↔
      ∀ a ∈ rules, a.name = m.name → a.access = m.access :=
    h.access_getD_iff (fun _ _ hnode ↦ hnode.access) m.name rfl
  simp only [addMember_eq_ok_iff, merge_eq_ok_iff, haccess, nodeFor_rewriter_iff h hagree,
    agreeAll_concat_iff fun _ _ ↦ MemberRule.Agrees.symm]
  constructor
  · rintro ⟨new, hfits, _, ⟨hrules, hnames, -⟩, -⟩
    exact ⟨hfits, hagree, fun a ha hname ↦ ⟨hrules a ha hname, hnames a ha hname⟩, .refl m⟩
  · rintro ⟨hfits, -, hwith, -⟩
    exact ⟨_, hfits, _, ⟨fun a ha hname ↦ (hwith a ha hname).1,
      fun a ha hname ↦ (hwith a ha hname).2, rfl⟩, rfl⟩

theorem exists_addMembers_iff {s : Surface} {path : String} {row : Option Nat} {t : TypeRule}
    {node : PolicyNode} {rules members : List MemberRule}
    (h : GathersMembers rules node.children) (hagree : AgreeAll MemberRule.Agrees rules) :
    (∃ new, members.foldlM (addMember s path row t) node = .ok new) ↔
      (∀ m ∈ members, m.Fits s row t) ∧ AgreeAll MemberRule.Agrees (rules ++ members) :=
  exists_foldlM_eq_ok_iff (fun done node ↦ GathersMembers done node.children)
    (fun _ _ _ _ hdone hnext ↦ (gathers_addMember hdone hnext).1)
    (fun _ _ _ ↦ exists_addMember_iff) h hagree

theorem exists_addType_iff {s : Surface} {n : NamespaceRule} {node : PolicyNode}
    {rules : List TypeRule} {t : TypeRule} (h : GathersTypes rules node.children)
    (hagree : AgreeAll TypeRule.Agrees rules) :
    (∃ new, addType s n node t = .ok new) ↔
      t.Fits s n ∧ AgreeAll TypeRule.Agrees (rules ++ [t]) := by
  have haccess : (node.children.nodeFor t.name t.access).access = t.access ↔
      ∀ a ∈ rules, a.name = t.name → a.access = t.access :=
    h.access_getD_iff (fun _ _ hnode ↦ hnode.access) t.name rfl
  have hmembers : (∃ below, t.members.foldlM
      (addMember s (joinTypePath n.name t.name) (s.find? n.name t.name) t)
        (node.children.nodeFor t.name t.access) = .ok below) ↔ _ :=
    exists_addMembers_iff (gathers_typeFor h t).below (agreeAll_inside hagree t.name)
  rw [TypeRule.Agrees, agreeAll_within_concat_iff (fun _ _ ↦ MemberRule.Agrees.symm) hagree,
    ← haccess]
  simp only [addType_eq_ok_iff]
  constructor
  · rintro ⟨new, hknown, hwider, hsame, below, hbelow, -⟩
    obtain ⟨hfits, hinside⟩ := hmembers.mp ⟨below, hbelow⟩
    exact ⟨⟨hknown, hwider, hfits⟩, hsame, hinside⟩
  · rintro ⟨hfits, hsame, hinside⟩
    obtain ⟨below, hbelow⟩ := hmembers.mpr ⟨hfits.members, hinside⟩
    exact ⟨_, hfits.known, hfits.notWider, hsame, below, hbelow, rfl⟩

theorem exists_addTypes_iff {s : Surface} {n : NamespaceRule} {node : PolicyNode}
    {rules types : List TypeRule} (h : GathersTypes rules node.children)
    (hagree : AgreeAll TypeRule.Agrees rules) :
    (∃ new, types.foldlM (addType s n) node = .ok new) ↔
      (∀ t ∈ types, t.Fits s n) ∧ AgreeAll TypeRule.Agrees (rules ++ types) :=
  exists_foldlM_eq_ok_iff (fun done node ↦ GathersTypes done node.children)
    (fun _ _ _ _ hdone hnext ↦ (gathers_addType hdone hnext).1)
    (fun _ _ _ ↦ exists_addType_iff) h hagree

theorem exists_addNamespace_iff {s : Surface} {map : NodeMap PolicyNode}
    {rules : List NamespaceRule} {n : NamespaceRule} (h : GathersNamespaces rules map)
    (hagree : AgreeAll NamespaceRule.Agrees rules) :
    (∃ new, addNamespace s map n = .ok new) ↔
      n.Fits s ∧ AgreeAll NamespaceRule.Agrees (rules ++ [n]) := by
  have haccess : (map.nodeFor n.name n.access).access = n.access ↔
      ∀ a ∈ rules, a.name = n.name → a.access = n.access :=
    h.access_getD_iff (fun _ _ hnode ↦ hnode.access) n.name rfl
  have htypes : (∃ below, n.types.foldlM (addType s n) (map.nodeFor n.name n.access) =
      .ok below) ↔ _ :=
    exists_addTypes_iff (gathers_namespaceFor h n).below (agreeAll_inside hagree n.name)
  rw [NamespaceRule.Agrees, agreeAll_within_concat_iff (fun _ _ ↦ TypeRule.Agrees.symm) hagree,
    ← haccess]
  simp only [addNamespace_eq_ok_iff]
  constructor
  · rintro ⟨new, hsame, below, hbelow, -⟩
    obtain ⟨hfits, hinside⟩ := htypes.mp ⟨below, hbelow⟩
    exact ⟨hfits, hsame, hinside⟩
  · rintro ⟨hfits, hsame, hinside⟩
    obtain ⟨below, hbelow⟩ := htypes.mpr ⟨hfits, hinside⟩
    exact ⟨_, hsame, below, hbelow, rfl⟩

/-- A list of rules is accepted exactly when every rule fits and any two agree. -/
theorem exists_ofRules_iff {s : Surface} {rules : List NamespaceRule} :
    (∃ tree, ofRules s rules = .ok tree) ↔ Consistent s rules := by
  have hrun : (∃ map, rules.foldlM (addNamespace s) .nil = .ok map) ↔ _ :=
    exists_foldlM_eq_ok_iff GathersNamespaces (fun _ _ _ _ ↦ gathers_addNamespace)
      (fun _ _ _ ↦ exists_addNamespace_iff) NodeMap.Gathers.empty AgreeAll.nil
  simp only [ofRules, bind_eq_ok_iff]
  constructor
  · rintro ⟨tree, map, hmap, -⟩
    obtain ⟨hfits, hagree⟩ := hrun.mp ⟨map, hmap⟩
    exact ⟨hfits, hagree⟩
  · rintro ⟨hfits, hagree⟩
    obtain ⟨map, hmap⟩ := hrun.mpr ⟨hfits, hagree⟩
    exact ⟨_, map, hmap, rfl⟩

end PolicyTree

/-- All rewriters that rules attach to one member go by one name. -/
theorem Consistent.rewriter_name_eq {s : Surface} {rules : List NamespaceRule}
    (h : Consistent s rules) {m : MemberRef} {r r' : Rewriter} (hr : Attaches rules m r)
    (hr' : Attaches rules m r') : r.name = r'.name := by
  obtain ⟨n, hn, t, ht, x, hx, hpath, hxr⟩ := hr
  obtain ⟨n', hn', t', ht', x', hx', hpath', hxr'⟩ := hr'
  have hnames := hpath.trans hpath'.symm
  simp only [List.cons.injEq, and_true] at hnames
  obtain ⟨hname, htype, hmember⟩ := hnames
  have htypes := (h.agree n hn n' hn' hname).2 t ht t' ht'
  have hmembers := (htypes htype).2 x hx x' hx'
  exact (hmembers hmember).2 r hxr r' hxr'

end GuestGate
