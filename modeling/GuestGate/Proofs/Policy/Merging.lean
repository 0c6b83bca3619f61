import GuestGate.Policy.Build
import GuestGate.Proofs.Fallible
import GuestGate.Proofs.Policy.Declaration

/-!
# Merging rules into a tree

A built tree holds one node for each name that some rule has, and that node
gathers the rules of the name.  The three levels are related to their rules in
the same way: a map of nodes against a list of rules, and below each node a map
against the rules that stand inside.  Every step of the construction extends
the list by one rule.
-/

namespace GuestGate

/-! ## One level of nodes -/

/-- A map holds a node for exactly the names that some rule has, and each node
is related to the rules of its name. -/
structure NodeMap.Gathers {ρ α : Type} (name : ρ → String) (Holds : List ρ → α → Prop)
    (rules : List ρ) (map : NodeMap α) : Prop where
  absent_iff : ∀ key, map.find? key = none ↔ rules.filter (name · == key) = []
  holds : ∀ key node, map.find? key = some node → Holds (rules.filter (name · == key)) node

namespace NodeMap.Gathers

variable {ρ α : Type} {name : ρ → String} {Holds : List ρ → α → Prop} {rules : List ρ}
  {map : NodeMap α}

theorem empty : NodeMap.Gathers name Holds [] (.nil : NodeMap α) where
  absent_iff := by simp
  holds := by simp

theorem getD (h : NodeMap.Gathers name Holds rules map) (key : String) {fresh : α}
    (hfresh : Holds [] fresh) :
    Holds (rules.filter (name · == key)) ((map.find? key).getD fresh) := by
  cases hnode : map.find? key with
  | none =>
      rw [(h.absent_iff key).mp hnode]
      exact hfresh
  | some node => exact h.holds key node hnode

theorem insert (h : NodeMap.Gathers name Holds rules map) (r : ρ) {node : α}
    (hnode : Holds (rules.filter (name · == name r) ++ [r]) node) :
    NodeMap.Gathers name Holds (rules ++ [r]) (map.insert (name r) node) where
  absent_iff key := by
    rw [NodeMap.find?_insert, List.filter_append]
    by_cases hkey : name r = key
    · simp [hkey]
    · simp [hkey, h.absent_iff key]
  holds key other hother := by
    rw [NodeMap.find?_insert] at hother
    rw [List.filter_append]
    by_cases hkey : name r = key
    · subst hkey
      obtain rfl : node = other := by simpa using hother
      simpa using hnode
    · simpa [hkey] using h.holds key other (by simpa [hkey] using hother)

/-- A node that is there or stands in has the access of a rule exactly when all rules
of the name have. -/
theorem access_getD_iff (h : NodeMap.Gathers name Holds rules map) {nodeAccess : α → AccessLevel}
    {ruleAccess : ρ → AccessLevel}
    (hsame : ∀ rs node, Holds rs node → ∀ r ∈ rs, ruleAccess r = nodeAccess node)
    (key : String) {fresh : α} {access : AccessLevel} (hfresh : nodeAccess fresh = access) :
    nodeAccess ((map.find? key).getD fresh) = access ↔
      ∀ r ∈ rules, name r = key → ruleAccess r = access := by
  cases hnode : map.find? key with
  | none =>
      have hnone := (h.absent_iff key).mp hnode
      simp only [List.filter_eq_nil_iff, beq_iff_eq] at hnone
      exact ⟨fun _ r hr hkey ↦ absurd hkey (hnone r hr), fun _ ↦ hfresh⟩
  | some node =>
      have hsome : rules.filter (name · == key) ≠ [] := by
        rw [Ne, ← h.absent_iff key, hnode]
        simp
      obtain ⟨r, hr⟩ := List.exists_mem_of_ne_nil _ hsome
      have haccess := hsame _ _ (h.holds key node hnode)
      rw [Option.getD_some]
      constructor
      · intro heq q hq hkey
        exact (haccess q (by simp [hq, hkey])).trans heq
      · intro hall
        obtain ⟨hmem, hkey⟩ := List.mem_filter.mp hr
        exact (haccess r hr).symm.trans (hall r hmem (by simpa using hkey))

end NodeMap.Gathers

/-! ## The three levels of nodes -/

structure PolicyNode.Gathers {ρ : Type} (ruleAccess : ρ → AccessLevel)
    (ruleRewriter : List ρ → Option Rewriter) (Below : List ρ → NodeMap PolicyNode → Prop)
    (rules : List ρ) (node : PolicyNode) : Prop where
  access : ∀ r ∈ rules, ruleAccess r = node.access
  rewriter : node.rewriter = ruleRewriter rules
  below : Below rules node.children

/-- A member node has the last rewriter of its rules and nothing below it. -/
abbrev GathersMember : List MemberRule → PolicyNode → Prop :=
  PolicyNode.Gathers MemberRule.access lastRewriter fun _ children ↦ children = .nil

abbrev GathersMembers : List MemberRule → NodeMap PolicyNode → Prop :=
  NodeMap.Gathers MemberRule.name GathersMember

abbrev GathersType : List TypeRule → PolicyNode → Prop :=
  PolicyNode.Gathers TypeRule.access (fun _ ↦ none) fun rules ↦
    GathersMembers (rules.flatMap TypeRule.members)

abbrev GathersTypes : List TypeRule → NodeMap PolicyNode → Prop :=
  NodeMap.Gathers TypeRule.name GathersType

abbrev GathersNamespace : List NamespaceRule → PolicyNode → Prop :=
  PolicyNode.Gathers NamespaceRule.access (fun _ ↦ none) fun rules ↦
    GathersTypes (rules.flatMap NamespaceRule.types)

abbrev GathersNamespaces : List NamespaceRule → NodeMap PolicyNode → Prop :=
  NodeMap.Gathers NamespaceRule.name GathersNamespace

theorem gathersMember_nil (access : AccessLevel) : GathersMember [] { access } :=
  ⟨by simp, rfl, rfl⟩

theorem gathersType_nil (access : AccessLevel) : GathersType [] { access } :=
  ⟨by simp, rfl, .empty⟩

theorem gathersNamespace_nil (access : AccessLevel) : GathersNamespace [] { access } :=
  ⟨by simp, rfl, .empty⟩

/-! ## What a rule must satisfy by itself -/

/-- A member rule names a member of the surface, does not open a denied type, and
attaches a rewriter only to what it allows. -/
structure MemberRule.Fits (s : Surface) (row : Option Nat) (type : TypeRule) (m : MemberRule) :
    Prop where
  known : type.generated ∨ row.any (s.hasMember · m.name)
  notWider : type.access = .denied → m.access = .denied
  rewriterAllowed : m.rewriter.isSome → m.access = .allowed

/-- A type rule names a type of the surface, does not open a denied namespace, and
its member rules fit. -/
structure TypeRule.Fits (s : Surface) (n : NamespaceRule) (t : TypeRule) : Prop where
  known : t.generated ∨ (s.find? n.name t.name).isSome
  notWider : n.access = .denied → t.access = .denied
  members : ∀ m ∈ t.members, m.Fits s (s.find? n.name t.name) t

def NamespaceRule.Fits (s : Surface) (n : NamespaceRule) : Prop :=
  ∀ t ∈ n.types, t.Fits s n

/-! ## What a step does -/

/-- What a node says by itself. -/
def PolicyNode.head (node : PolicyNode) : AccessLevel × Option Rewriter :=
  (node.access, node.rewriter)

theorem PolicyNode.eta (node : PolicyNode) :
    PolicyNode.mk node.access node.rewriter node.children = node := by
  cases node
  rfl

def NodeMap.nodeFor (map : NodeMap PolicyNode) (name : String) (access : AccessLevel) :
    PolicyNode :=
  (map.find? name).getD { access }

namespace PolicyTree

theorem require_eq_ok_iff {condition : Prop} [Decidable condition] {error : BuildError}
    {result : Unit} : require condition error = .ok result ↔ condition := by
  by_cases h : condition <;> simp [require, h]

theorem mergeRewriter_eq_ok_iff {path : String} {before after merged : Option Rewriter} :
    mergeRewriter path before after = .ok merged ↔
      (∀ old ∈ before, ∀ new ∈ after, old.name = new.name) ∧ merged = after.or before := by
  cases before with
  | none => cases after <;> simp [mergeRewriter, eq_comm]
  | some old =>
      cases after with
      | none => simp [mergeRewriter, eq_comm]
      | some new =>
          by_cases h : old.name = new.name
          · simp [mergeRewriter, h, eq_comm]
          · simp [mergeRewriter, h]

theorem merge_eq_ok_iff {map : NodeMap PolicyNode} {name path : String} {access : AccessLevel}
    {rewriter : Option Rewriter} {new : PolicyNode} :
    merge map name access rewriter path = .ok new ↔
      (map.nodeFor name access).access = access ∧
        (∀ old ∈ (map.nodeFor name access).rewriter, ∀ r ∈ rewriter, old.name = r.name) ∧
        new = { map.nodeFor name access with
          rewriter := rewriter.or (map.nodeFor name access).rewriter } := by
  simp only [merge, bind_eq_ok_iff, require_eq_ok_iff, mergeRewriter_eq_ok_iff]
  constructor
  · rintro ⟨_, haccess, _, ⟨hnames, rfl⟩, hnew⟩
    cases hnew
    exact ⟨haccess, hnames, rfl⟩
  · rintro ⟨haccess, hnames, rfl⟩
    exact ⟨(), haccess, _, ⟨hnames, rfl⟩, rfl⟩

/-- A rule without a rewriter leaves the node as it is. -/
theorem merge_none_eq_ok_iff {map : NodeMap PolicyNode} {name path : String}
    {access : AccessLevel} {new : PolicyNode} :
    merge map name access none path = .ok new ↔
      (map.nodeFor name access).access = access ∧ new = map.nodeFor name access := by
  simp [merge_eq_ok_iff, PolicyNode.eta]

theorem addMember_eq_ok_iff {s : Surface} {path : String} {row : Option Nat} {t : TypeRule}
    {node new : PolicyNode} {m : MemberRule} :
    addMember s path row t node m = .ok new ↔
      m.Fits s row t ∧ ∃ merged,
        merge node.children m.name m.access m.rewriter (path ++ "::" ++ m.name) = .ok merged ∧
          new = { node with children := node.children.insert m.name merged } := by
  simp only [addMember, bind_eq_ok_iff, require_eq_ok_iff]
  constructor
  · rintro ⟨_, hknown, _, hwider, _, hrewriter, merged, hmerged, hnew⟩
    cases hnew
    exact ⟨⟨hknown, hwider, hrewriter⟩, merged, hmerged, rfl⟩
  · rintro ⟨⟨hknown, hwider, hrewriter⟩, merged, hmerged, rfl⟩
    exact ⟨(), hknown, (), hwider, (), hrewriter, merged, hmerged, rfl⟩

theorem addType_eq_ok_iff {s : Surface} {n : NamespaceRule} {node new : PolicyNode}
    {t : TypeRule} :
    addType s n node t = .ok new ↔
      (t.generated ∨ (s.find? n.name t.name).isSome) ∧
        (n.access = .denied → t.access = .denied) ∧
        (node.children.nodeFor t.name t.access).access = t.access ∧
          ∃ below, t.members.foldlM
              (addMember s (joinTypePath n.name t.name) (s.find? n.name t.name) t)
              (node.children.nodeFor t.name t.access) = .ok below ∧
            new = { node with children := node.children.insert t.name below } := by
  simp only [addType, bind_eq_ok_iff, require_eq_ok_iff, merge_none_eq_ok_iff]
  constructor
  · rintro ⟨_, hknown, _, hwider, _, ⟨haccess, rfl⟩, below, hbelow, hnew⟩
    cases hnew
    exact ⟨hknown, hwider, haccess, below, hbelow, rfl⟩
  · rintro ⟨hknown, hwider, haccess, below, hbelow, rfl⟩
    exact ⟨(), hknown, (), hwider, _, ⟨haccess, rfl⟩, below, hbelow, rfl⟩

theorem addNamespace_eq_ok_iff {s : Surface} {map new : NodeMap PolicyNode}
    {n : NamespaceRule} :
    addNamespace s map n = .ok new ↔
      (map.nodeFor n.name n.access).access = n.access ∧
        ∃ below, n.types.foldlM (addType s n) (map.nodeFor n.name n.access) = .ok below ∧
          new = map.insert n.name below := by
  simp only [addNamespace, bind_eq_ok_iff, merge_none_eq_ok_iff]
  constructor
  · rintro ⟨_, ⟨haccess, rfl⟩, below, hbelow, hnew⟩
    cases hnew
    exact ⟨haccess, below, hbelow, rfl⟩
  · rintro ⟨haccess, below, hbelow, rfl⟩
    exact ⟨_, ⟨haccess, rfl⟩, below, hbelow, rfl⟩

/-! ## What a run keeps -/

theorem gathers_memberFor {map : NodeMap PolicyNode} {rules : List MemberRule}
    (h : GathersMembers rules map) (m : MemberRule) :
    GathersMember (rules.filter (·.name == m.name)) (map.nodeFor m.name m.access) :=
  h.getD m.name (gathersMember_nil m.access)

theorem gathers_typeFor {map : NodeMap PolicyNode} {rules : List TypeRule}
    (h : GathersTypes rules map) (t : TypeRule) :
    GathersType (rules.filter (·.name == t.name)) (map.nodeFor t.name t.access) :=
  h.getD t.name (gathersType_nil t.access)

theorem gathers_namespaceFor {map : NodeMap PolicyNode} {rules : List NamespaceRule}
    (h : GathersNamespaces rules map) (n : NamespaceRule) :
    GathersNamespace (rules.filter (·.name == n.name)) (map.nodeFor n.name n.access) :=
  h.getD n.name (gathersNamespace_nil n.access)

/-- One more rule with the access that the rules before it have. -/
theorem access_eq_concat {ρ : Type} {access : ρ → AccessLevel} {rules : List ρ} {r : ρ}
    {a : AccessLevel} (hrules : ∀ q ∈ rules, access q = a) (hr : a = access r) :
    ∀ q ∈ rules ++ [r], access q = a := by
  intro q hq
  rcases List.mem_append.mp hq with hq | hq
  · exact hrules q hq
  · rw [List.mem_singleton.mp hq, hr]

theorem gathers_addMember {s : Surface} {path : String} {row : Option Nat} {t : TypeRule}
    {node new : PolicyNode} {rules : List MemberRule} {m : MemberRule}
    (h : GathersMembers rules node.children)
    (hnew : addMember s path row t node m = .ok new) :
    GathersMembers (rules ++ [m]) new.children ∧
      new.head = node.head := by
  obtain ⟨-, merged, hmerged, rfl⟩ := addMember_eq_ok_iff.mp hnew
  obtain ⟨haccess, -, rfl⟩ := merge_eq_ok_iff.mp hmerged
  have hold := gathers_memberFor h m
  refine ⟨h.insert m ⟨access_eq_concat hold.access haccess, ?_, hold.below⟩, rfl⟩
  rw [lastRewriter_concat, hold.rewriter]

theorem gathers_addMembers {s : Surface} {path : String} {row : Option Nat} {t : TypeRule}
    {node new : PolicyNode} {rules members : List MemberRule}
    (h : GathersMembers rules node.children)
    (hnew : members.foldlM (addMember s path row t) node = .ok new) :
    GathersMembers (rules ++ members) new.children ∧
      new.head = node.head :=
  foldlM_keeps_part (fun done reached ↦ GathersMembers done reached.children)
    PolicyNode.head (fun _ _ _ _ ↦ gathers_addMember) h hnew

theorem gathers_addType {s : Surface} {n : NamespaceRule} {node new : PolicyNode}
    {rules : List TypeRule} {t : TypeRule}
    (h : GathersTypes rules node.children)
    (hnew : addType s n node t = .ok new) :
    GathersTypes (rules ++ [t]) new.children ∧
      new.head = node.head := by
  obtain ⟨-, -, haccess, below, hbelow, rfl⟩ := addType_eq_ok_iff.mp hnew
  have hold := gathers_typeFor h t
  obtain ⟨hmembers, hsame⟩ := gathers_addMembers hold.below hbelow
  obtain ⟨hbelowAccess, hbelowRewriter⟩ := Prod.mk.inj hsame
  refine ⟨h.insert t ⟨?_, hbelowRewriter.trans hold.rewriter, by simpa using hmembers⟩, rfl⟩
  rw [hbelowAccess]
  exact access_eq_concat hold.access haccess

theorem gathers_addTypes {s : Surface} {n : NamespaceRule} {node new : PolicyNode}
    {rules types : List TypeRule}
    (h : GathersTypes rules node.children)
    (hnew : types.foldlM (addType s n) node = .ok new) :
    GathersTypes (rules ++ types) new.children ∧
      new.head = node.head :=
  foldlM_keeps_part (fun done reached ↦ GathersTypes done reached.children)
    PolicyNode.head (fun _ _ _ _ ↦ gathers_addType) h hnew

theorem gathers_addNamespace {s : Surface} {map new : NodeMap PolicyNode}
    {rules : List NamespaceRule} {n : NamespaceRule}
    (h : GathersNamespaces rules map)
    (hnew : addNamespace s map n = .ok new) :
    GathersNamespaces (rules ++ [n]) new := by
  obtain ⟨haccess, below, hbelow, rfl⟩ := addNamespace_eq_ok_iff.mp hnew
  have hold := gathers_namespaceFor h n
  obtain ⟨htypes, hsame⟩ := gathers_addTypes hold.below hbelow
  obtain ⟨hbelowAccess, hbelowRewriter⟩ := Prod.mk.inj hsame
  refine h.insert n ⟨?_, hbelowRewriter.trans hold.rewriter, by simpa using htypes⟩
  rw [hbelowAccess]
  exact access_eq_concat hold.access haccess

/-- A built tree gathers exactly the rules it was built from. -/
theorem gathers_of_ofRules {s : Surface} {rules : List NamespaceRule} {tree : PolicyTree}
    (h : ofRules s rules = .ok tree) :
    GathersNamespaces rules tree.namespaces ∧ tree.surfaceVersion = s.version := by
  obtain ⟨map, hmap, hresult⟩ := bind_eq_ok_iff.mp h
  cases hresult
  have hrun := foldlM_keeps GathersNamespaces (fun _ _ _ _ ↦ gathers_addNamespace)
    NodeMap.Gathers.empty hmap
  exact ⟨hrun, rfl⟩

end PolicyTree

end GuestGate
