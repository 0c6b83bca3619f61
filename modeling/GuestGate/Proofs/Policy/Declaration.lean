import GuestGate.Policy.Rule

/-!
# Declared nodes

What a list of rules says about the nodes of a policy, read off the list alone:
the paths it declares, the access it gives them, and the rewriters it attaches
to a member.  Nothing here looks at a tree.
-/

namespace GuestGate

def MemberRef.path (m : MemberRef) : List String :=
  [m.namespaceName, m.typeName, m.name]

/-- Some rule of the list is about the node at a path and gives it this access. -/
inductive Declares (rules : List NamespaceRule) : List String → AccessLevel → Prop
  | ofNamespace {n : NamespaceRule} (hn : n ∈ rules) : Declares rules [n.name] n.access
  | ofType {n : NamespaceRule} {t : TypeRule} (hn : n ∈ rules) (ht : t ∈ n.types) :
      Declares rules [n.name, t.name] t.access
  | ofMember {n : NamespaceRule} {t : TypeRule} {m : MemberRule} (hn : n ∈ rules)
      (ht : t ∈ n.types) (hm : m ∈ t.members) :
      Declares rules [n.name, t.name, m.name] m.access

/-- Some rule of the list for this very member attaches the rewriter. -/
def Attaches (rules : List NamespaceRule) (member : MemberRef) (rewriter : Rewriter) : Prop :=
  ∃ n ∈ rules, ∃ t ∈ n.types, ∃ m ∈ t.members,
    [n.name, t.name, m.name] = member.path ∧ m.rewriter = some rewriter

def expand (s : Surface) (rules : List PolicyRule) : List NamespaceRule :=
  rules.map (PolicyRule.toNamespaceRule s)

/-! ## What declared nodes permit

`D path access` stands for a node that is declared at a path with an access. -/

/-- The longest declared part of the way down to a member. -/
structure IsDeepest (D : List String → AccessLevel → Prop) (m : MemberRef) (path : List String) :
    Prop where
  onPath : path <+: m.path
  declared : ∃ access, D path access
  longest : ∀ other access, other <+: m.path → D other access → other <+: path

theorem IsDeepest.unique {D : List String → AccessLevel → Prop} {m : MemberRef}
    {path other : List String} (h : IsDeepest D m path) (h' : IsDeepest D m other) :
    path = other := by
  obtain ⟨a, ha⟩ := h.declared
  obtain ⟨b, hb⟩ := h'.declared
  have hle := h'.longest path a h.onPath ha
  have hge := h.longest other b h'.onPath hb
  exact hle.eq_of_length (Nat.le_antisymm hle.length_le hge.length_le)

/-- A member is permitted when its namespace is declared, nothing on the way down to
it is denied, and the deepest declared node there is allowed. -/
structure Permits (D : List String → AccessLevel → Prop) (m : MemberRef) : Prop where
  listed : ∃ access, D [m.namespaceName] access
  undenied : ∀ path, path <+: m.path → ¬ D path .denied
  opened : ∃ path, IsDeepest D m path ∧ D path .allowed

/-! ## Rules of one node, in the order of the list -/

def namespaceRules (rules : List NamespaceRule) (name : String) : List NamespaceRule :=
  rules.filter (·.name == name)

def typeRules (rules : List NamespaceRule) (namespaceName name : String) : List TypeRule :=
  ((namespaceRules rules namespaceName).flatMap (·.types)).filter (·.name == name)

def memberRules (rules : List NamespaceRule) (m : MemberRef) : List MemberRule :=
  ((typeRules rules m.namespaceName m.typeName).flatMap (·.members)).filter (·.name == m.name)

def lastRewriter (rules : List MemberRule) : Option Rewriter :=
  (rules.filterMap (·.rewriter)).getLast?

@[simp] theorem lastRewriter_nil : lastRewriter [] = none := rfl

@[simp] theorem lastRewriter_concat (rules : List MemberRule) (m : MemberRule) :
    lastRewriter (rules ++ [m]) = m.rewriter.or (lastRewriter rules) := by
  cases h : m.rewriter <;> simp [lastRewriter, h]

theorem mem_of_lastRewriter {rules : List MemberRule} {r : Rewriter}
    (h : lastRewriter rules = some r) : ∃ m ∈ rules, m.rewriter = some r := by
  have hmem : r ∈ rules.filterMap (·.rewriter) := List.mem_of_getLast? h
  simpa using hmem

theorem lastRewriter_eq_none_iff {rules : List MemberRule} :
    lastRewriter rules = none ↔ ∀ m ∈ rules, m.rewriter = none := by
  simp [lastRewriter]

/-- Where some rule attaches a rewriter, one is the last. -/
theorem exists_lastRewriter {rules : List MemberRule} {m : MemberRule} {r : Rewriter}
    (hm : m ∈ rules) (hr : m.rewriter = some r) : ∃ last, lastRewriter rules = some last := by
  rw [← Option.ne_none_iff_exists', Ne, lastRewriter_eq_none_iff]
  intro hnone
  simp [hnone m hm] at hr

theorem declares_namespace_iff {rules : List NamespaceRule} {name : String}
    {access : AccessLevel} :
    Declares rules [name] access ↔ ∃ n ∈ namespaceRules rules name, n.access = access := by
  constructor
  · intro h
    cases h with
    | ofNamespace hn => exact ⟨_, by simp [namespaceRules, hn], rfl⟩
  · rintro ⟨n, hn, rfl⟩
    simp only [namespaceRules, List.mem_filter, beq_iff_eq] at hn
    exact hn.2 ▸ .ofNamespace hn.1

theorem mem_typeRules {rules : List NamespaceRule} {namespaceName name : String} {t : TypeRule} :
    t ∈ typeRules rules namespaceName name ↔
      ∃ n ∈ rules, t ∈ n.types ∧ n.name = namespaceName ∧ t.name = name := by
  simp only [typeRules, namespaceRules, List.mem_filter, List.mem_flatMap, beq_iff_eq]
  constructor
  · rintro ⟨⟨n, ⟨hn, hname⟩, ht⟩, htype⟩
    exact ⟨n, hn, ht, hname, htype⟩
  · rintro ⟨n, hn, ht, hname, htype⟩
    exact ⟨⟨n, ⟨hn, hname⟩, ht⟩, htype⟩

theorem mem_memberRules {rules : List NamespaceRule} {member : MemberRef} {m : MemberRule} :
    m ∈ memberRules rules member ↔
      ∃ n ∈ rules, ∃ t ∈ n.types, m ∈ t.members ∧ [n.name, t.name, m.name] = member.path := by
  simp only [memberRules, List.mem_filter, List.mem_flatMap, mem_typeRules, beq_iff_eq,
    MemberRef.path, List.cons.injEq, and_true]
  constructor
  · rintro ⟨⟨t, ⟨n, hn, ht, hname, htype⟩, hm⟩, hmember⟩
    exact ⟨n, hn, t, ht, hm, hname, htype, hmember⟩
  · rintro ⟨n, hn, t, ht, hm, hname, htype, hmember⟩
    exact ⟨⟨t, ⟨n, hn, ht, hname, htype⟩, hm⟩, hmember⟩

theorem declares_type_iff {rules : List NamespaceRule} {namespaceName name : String}
    {access : AccessLevel} :
    Declares rules [namespaceName, name] access ↔
      ∃ t ∈ typeRules rules namespaceName name, t.access = access := by
  constructor
  · intro h
    cases h with
    | ofType hn ht => exact ⟨_, mem_typeRules.mpr ⟨_, hn, ht, rfl, rfl⟩, rfl⟩
  · rintro ⟨t, hmem, rfl⟩
    obtain ⟨n, hn, ht, rfl, rfl⟩ := mem_typeRules.mp hmem
    exact .ofType hn ht

theorem declares_path_iff {rules : List NamespaceRule} {member : MemberRef}
    {access : AccessLevel} :
    Declares rules member.path access ↔ ∃ m ∈ memberRules rules member, m.access = access := by
  constructor
  · intro h
    generalize hpath : member.path = path at h
    cases h with
    | ofMember hn ht hm => exact ⟨_, mem_memberRules.mpr ⟨_, hn, _, ht, hm, hpath.symm⟩, rfl⟩
    | _ => simp [MemberRef.path] at hpath
  · rintro ⟨m, hmem, rfl⟩
    obtain ⟨n, hn, t, ht, hm, hpath⟩ := mem_memberRules.mp hmem
    exact hpath ▸ .ofMember hn ht hm

theorem attaches_iff {rules : List NamespaceRule} {member : MemberRef} {r : Rewriter} :
    Attaches rules member r ↔ ∃ m ∈ memberRules rules member, m.rewriter = some r := by
  simp only [Attaches, mem_memberRules]
  constructor
  · rintro ⟨n, hn, t, ht, m, hm, hpath, hr⟩
    exact ⟨m, ⟨n, hn, t, ht, hm, hpath⟩, hr⟩
  · rintro ⟨m, ⟨n, hn, t, ht, hm, hpath⟩, hr⟩
    exact ⟨n, hn, t, ht, m, hm, hpath, hr⟩

/-! ## A small policy, to try statements on -/

def clockSurface : Surface where
  version := "clock"
  types := [
    { namespaceName := "Clock", name := "Timer", methods := [⟨"Wait", "Void"⟩, ⟨"Stop", "Void"⟩] },
    { namespaceName := "Clock.Info", name := "Zone", properties := [⟨"Name", "String"⟩] }]

def clockWait : MemberRef := ⟨"Clock", "Timer", "Wait"⟩

/-- The type is declared twice, with two bounds on waiting. -/
def clockRules (first second : Int) : List PolicyRule :=
  [.explicit ⟨"Clock", .neutral,
      [{ name := "Timer", access := .neutral
         members := [⟨"Wait", .allowed, some (.count first)⟩] }]⟩,
    .family ⟨"Clock.Info", "Clock.Info.Zone", .introspection⟩,
    .explicit ⟨"Clock", .neutral,
      [{ name := "Timer", access := .neutral
         members := [⟨"Stop", .denied, none⟩, ⟨"Wait", .allowed, some (.count second)⟩] }]⟩]

end GuestGate
