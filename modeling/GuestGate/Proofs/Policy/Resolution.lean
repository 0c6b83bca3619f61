import GuestGate.Proofs.Policy.Consistency

/-!
# What a built policy permits

Looking a member up is a walk over at most three nodes, and the nodes of a
built tree are those that its rules declare.  Together these give the answer
for a member in terms of the rules alone, wherever they stand in the list.
-/

namespace GuestGate

/-- A node that is there for some rules, and has the access of all of them. -/
theorem map_access_eq_some_iff {ρ α : Type} {rules : List ρ} {node? : Option α}
    {ruleAccess : ρ → AccessLevel} {nodeAccess : α → AccessLevel}
    (habsent : node? = none ↔ rules = [])
    (hsame : ∀ node, node? = some node → ∀ r ∈ rules, ruleAccess r = nodeAccess node)
    {access : AccessLevel} :
    node?.map nodeAccess = some access ↔ ∃ r ∈ rules, ruleAccess r = access := by
  cases hnode : node? with
  | none => simp [habsent.mp hnode]
  | some node =>
      have hne : rules ≠ [] := fun hnil ↦ by simp [habsent.mpr hnil] at hnode
      obtain ⟨r, hr⟩ := List.exists_mem_of_ne_nil _ hne
      have haccess := hsame node hnode
      constructor
      · intro heq
        exact ⟨r, hr, (haccess r hr).trans (by simpa using heq)⟩
      · rintro ⟨q, hq, rfl⟩
        simp [haccess q hq]

theorem prefix_path_iff {m : MemberRef} {path : List String} :
    path <+: m.path ↔ path = [] ∨ path = [m.namespaceName] ∨
      path = [m.namespaceName, m.typeName] ∨ path = m.path := by
  simp only [MemberRef.path, List.prefix_cons_iff, List.prefix_nil]
  constructor
  · rintro (rfl | ⟨_, rfl, rfl | ⟨_, rfl, rfl | ⟨_, rfl, rfl⟩⟩⟩) <;> simp
  · rintro (rfl | rfl | rfl | rfl) <;> simp

/-- Some node on the way down is denied, level by level. -/
theorem exists_denied_iff {D : List String → AccessLevel → Prop} {m : MemberRef}
    (hnil : ∀ access, ¬ D [] access) :
    (∃ path, path <+: m.path ∧ D path .denied) ↔
      D [m.namespaceName] .denied ∨ D [m.namespaceName, m.typeName] .denied ∨
        D m.path .denied := by
  simp [prefix_path_iff, or_and_right, exists_or, hnil]

/-- Which declared node is the deepest, level by level. -/
theorem exists_deepest_iff {D : List String → AccessLevel → Prop} {m : MemberRef}
    (hnil : ∀ access, ¬ D [] access) (access : AccessLevel) :
    (∃ path, IsDeepest D m path ∧ D path access) ↔
      D m.path access ∨ (∀ a, ¬ D m.path a) ∧
        (D [m.namespaceName, m.typeName] access ∨ (∀ a, ¬ D [m.namespaceName, m.typeName] a) ∧
          D [m.namespaceName] access) := by
  constructor
  · rintro ⟨path, hdeep, hD⟩
    have hmember : ∀ a, D m.path a → m.path <+: path := fun a ↦ hdeep.longest _ a (by simp)
    have htype : ∀ a, D [m.namespaceName, m.typeName] a →
        [m.namespaceName, m.typeName] <+: path :=
      fun a ↦ hdeep.longest _ a (by simp [MemberRef.path])
    -- a node on the path of the member is one of four, and the root is not declared
    rcases prefix_path_iff.mp hdeep.onPath with rfl | rfl | rfl | rfl
    · exact absurd hD (hnil access)
    · refine .inr ⟨fun a ha ↦ ?_, .inr ⟨fun a ha ↦ ?_, hD⟩⟩
      · simpa [MemberRef.path] using hmember a ha
      · simpa using htype a ha
    · refine .inr ⟨fun a ha ↦ ?_, .inl hD⟩
      simpa [MemberRef.path] using hmember a ha
    · exact .inl hD
  · rintro (hD | ⟨hmember, hD | ⟨htype, hD⟩⟩)
    · exact ⟨m.path, ⟨List.prefix_refl _, ⟨_, hD⟩, fun _ _ h _ ↦ h⟩, hD⟩
    · refine ⟨_, ⟨by simp [MemberRef.path], ⟨_, hD⟩, fun other a hother hDother ↦ ?_⟩, hD⟩
      rcases prefix_path_iff.mp hother with rfl | rfl | rfl | rfl
      · simp
      · simp
      · simp
      · exact absurd hDother (hmember a)
    · refine ⟨_, ⟨by simp [MemberRef.path], ⟨_, hD⟩, fun other a hother hDother ↦ ?_⟩, hD⟩
      rcases prefix_path_iff.mp hother with rfl | rfl | rfl | rfl
      · simp
      · simp
      · exact absurd hDother (htype a)
      · exact absurd hDother (hmember a)

/-! ## Nodes of a tree -/

theorem PolicyNode.at?_append (node : PolicyNode) (path rest : List String) :
    node.at? (path ++ rest) = (node.at? path).bind (·.at? rest) := by
  induction path generalizing node with
  | nil => rfl
  | cons name path ih => cases h : node.children.find? name <;> simp [at?, h, ih]

theorem PolicyNode.at?_singleton (node : PolicyNode) (name : String) :
    node.at? [name] = node.children.find? name := by
  cases h : node.children.find? name <;> simp [at?, h]

namespace PolicyTree

variable {tree : PolicyTree} {m : MemberRef}

/-- A tree has a node of an access at a path. -/
def Has (tree : PolicyTree) (path : List String) (access : AccessLevel) : Prop :=
  (tree.nodeAt? path).map PolicyNode.access = some access

theorem not_has_nil (access : AccessLevel) : ¬ tree.Has [] access := by
  simp [Has, nodeAt?, NodeMap.at?]

theorem nodeAt?_append {path : List String} (hpath : path ≠ []) (rest : List String) :
    tree.nodeAt? (path ++ rest) = (tree.nodeAt? path).bind (·.at? rest) := by
  obtain ⟨first, path, rfl⟩ := List.exists_cons_of_ne_nil hpath
  cases h : tree.namespaces.find? first <;> simp [nodeAt?, NodeMap.at?, h, PolicyNode.at?_append]

theorem nodeAt?_concat {path : List String} (hpath : path ≠ []) (name : String) :
    tree.nodeAt? (path ++ [name]) = (tree.nodeAt? path).bind (·.children.find? name) := by
  simp [nodeAt?_append hpath, PolicyNode.at?_singleton]

/-! ## The walk -/

attribute [local simp] resolve PolicyNode.decide Has nodeAt? NodeMap.at? PolicyNode.at?
  MemberRef.path Decision.isAllowed Decision.reason? Decision.rewriter? in
/-- The walk from the namespace to the member, for any tree: what it allows, what it
denies on the word of a node, and the rewriter it brings back. -/
theorem resolve_walk (tree : PolicyTree) (m : MemberRef) :
    ((tree.resolve m).isAllowed ↔
      (∃ a, tree.Has [m.namespaceName] a) ∧
        ¬ (tree.Has [m.namespaceName] .denied ∨ tree.Has [m.namespaceName, m.typeName] .denied ∨
          tree.Has m.path .denied) ∧
        (tree.Has m.path .allowed ∨ (∀ a, ¬ tree.Has m.path a) ∧
          (tree.Has [m.namespaceName, m.typeName] .allowed ∨
            (∀ a, ¬ tree.Has [m.namespaceName, m.typeName] a) ∧
              tree.Has [m.namespaceName] .allowed))) ∧
      ((tree.resolve m).reason? = some .explicit ↔
        tree.Has [m.namespaceName] .denied ∨ tree.Has [m.namespaceName, m.typeName] .denied ∨
          tree.Has m.path .denied) ∧
      (tree.resolve m).rewriter? =
        if (tree.resolve m).isAllowed then (tree.nodeAt? m.path).bind PolicyNode.rewriter
        else none := by
  cases hn : tree.namespaces.find? m.namespaceName with
  | none => simp [hn]
  | some n =>
      obtain ⟨access, rewriter, types⟩ := n
      cases ht : types.find? m.typeName with
      | none =>
          by_cases hempty : types.isEmpty <;> cases access <;>
            simp [hn, ht, PolicyNode.unlistedReason, hempty]
      | some t =>
          obtain ⟨below, rewriter, members⟩ := t
          cases hm : members.find? m.name with
          | none => cases access <;> cases below <;> simp [hn, ht, hm]
          | some node =>
              obtain ⟨last, rewriter, children⟩ := node
              cases access <;> cases below <;> cases last <;> simp [hn, ht, hm]

theorem isAllowed_resolve_iff : (tree.resolve m).isAllowed ↔ Permits tree.Has m := by
  rw [(resolve_walk tree m).1, ← exists_denied_iff not_has_nil,
    ← exists_deepest_iff not_has_nil]
  constructor
  · rintro ⟨hlisted, hundenied, hopened⟩
    exact ⟨hlisted, fun path hpath hdenied ↦ hundenied ⟨path, hpath, hdenied⟩, hopened⟩
  · rintro ⟨hlisted, hundenied, hopened⟩
    exact ⟨hlisted, fun ⟨path, hpath, hdenied⟩ ↦ hundenied path hpath hdenied, hopened⟩

theorem reason?_resolve_eq_explicit_iff :
    (tree.resolve m).reason? = some .explicit ↔
      ∃ path, path <+: m.path ∧ tree.Has path .denied := by
  rw [exists_denied_iff not_has_nil]
  exact (resolve_walk tree m).2.1

/-! ## Nodes of a built tree -/

variable {rules : List NamespaceRule}

theorem nodeAt?_namespace (tree : PolicyTree) (n : String) :
    tree.nodeAt? [n] = tree.namespaces.find? n := by
  cases h : tree.namespaces.find? n <;> simp [nodeAt?, NodeMap.at?, PolicyNode.at?, h]

theorem nodeAt?_type (tree : PolicyTree) (n t : String) : tree.nodeAt? [n, t] =
    (tree.namespaces.find? n).bind (·.children.find? t) := by
  rw [← nodeAt?_namespace]
  exact nodeAt?_concat (List.cons_ne_nil n []) t

theorem nodeAt?_path (tree : PolicyTree) (m : MemberRef) : tree.nodeAt? m.path =
    (tree.nodeAt? [m.namespaceName, m.typeName]).bind (·.children.find? m.name) :=
  nodeAt?_concat (List.cons_ne_nil m.namespaceName [m.typeName]) m.name

theorem nodeAt?_type_eq_none_iff (h : GathersNamespaces rules tree.namespaces) {n t : String} :
    tree.nodeAt? [n, t] = none ↔ typeRules rules n t = [] := by
  rw [nodeAt?_type]
  cases hn : tree.namespaces.find? n with
  | none =>
      have hnone : namespaceRules rules n = [] := (h.absent_iff n).mp hn
      simp [typeRules, hnone]
  | some node => exact (h.holds n node hn).below.absent_iff t

theorem gathers_nodeAt?_type (h : GathersNamespaces rules tree.namespaces) {n t : String}
    {node : PolicyNode} (hnode : tree.nodeAt? [n, t] = some node) :
    GathersType (typeRules rules n t) node := by
  rw [nodeAt?_type] at hnode
  obtain ⟨above, habove, hbelow⟩ := Option.bind_eq_some_iff.mp hnode
  exact (h.holds n above habove).below.holds t node hbelow

theorem nodeAt?_path_eq_none_iff (h : GathersNamespaces rules tree.namespaces) :
    tree.nodeAt? m.path = none ↔ memberRules rules m = [] := by
  rw [nodeAt?_path]
  cases ht : tree.nodeAt? [m.namespaceName, m.typeName] with
  | none => simp [memberRules, (nodeAt?_type_eq_none_iff h).mp ht]
  | some node => exact (gathers_nodeAt?_type h ht).below.absent_iff m.name

theorem gathers_nodeAt?_path (h : GathersNamespaces rules tree.namespaces) {node : PolicyNode}
    (hnode : tree.nodeAt? m.path = some node) : GathersMember (memberRules rules m) node := by
  rw [nodeAt?_path] at hnode
  obtain ⟨above, habove, hbelow⟩ := Option.bind_eq_some_iff.mp hnode
  exact (gathers_nodeAt?_type h habove).below.holds m.name node hbelow

/-- The member node of a built tree holds the last rewriter that its rules attach. -/
theorem nodeAt?_path_bind_rewriter (h : GathersNamespaces rules tree.namespaces) :
    (tree.nodeAt? m.path).bind PolicyNode.rewriter = lastRewriter (memberRules rules m) := by
  cases hnode : tree.nodeAt? m.path with
  | none => simp [(nodeAt?_path_eq_none_iff h).mp hnode]
  | some node => exact (gathers_nodeAt?_path h hnode).rewriter

/-- Nothing stands below the members of a built tree. -/
theorem nodeAt?_below_path (h : GathersNamespaces rules tree.namespaces) (name : String)
    (rest : List String) : tree.nodeAt? (m.path ++ name :: rest) = none := by
  rw [nodeAt?_append (by simp [MemberRef.path])]
  cases hnode : tree.nodeAt? m.path with
  | none => rfl
  | some node => simp [PolicyNode.at?, (gathers_nodeAt?_path h hnode).below]

/-- The nodes of a built tree are the declared ones, each with its declared access. -/
theorem declares_iff_has (h : GathersNamespaces rules tree.namespaces) (path : List String)
    (access : AccessLevel) : Declares rules path access ↔ tree.Has path access := by
  match path with
  | [] =>
      constructor
      · intro h
        cases h
      · intro h
        exact absurd h (not_has_nil access)
  | [n] =>
      rw [declares_namespace_iff, Has, nodeAt?_namespace]
      exact (map_access_eq_some_iff (h.absent_iff n) fun node hnode ↦
        (h.holds n node hnode).access).symm
  | [n, t] =>
      rw [declares_type_iff]
      exact (map_access_eq_some_iff (nodeAt?_type_eq_none_iff h) fun node hnode ↦
        (gathers_nodeAt?_type h hnode).access).symm
  | [n, t, m] =>
      change Declares rules (MemberRef.path ⟨n, t, m⟩) access ↔
        tree.Has (MemberRef.path ⟨n, t, m⟩) access
      rw [declares_path_iff]
      exact (map_access_eq_some_iff (nodeAt?_path_eq_none_iff h) fun node hnode ↦
        (gathers_nodeAt?_path h hnode).access).symm
  | n :: t :: m :: below :: rest =>
      constructor
      · intro h
        cases h
      · intro hhas
        change (tree.nodeAt? (MemberRef.path ⟨n, t, m⟩ ++ below :: rest)).map _ = _ at hhas
        rw [nodeAt?_below_path h] at hhas
        cases hhas

theorem Has.unique {path : List String} {a b : AccessLevel} (ha : tree.Has path a)
    (hb : tree.Has path b) : a = b :=
  Option.some.inj (ha.symm.trans hb)

/-! ## The answer of a built tree -/

/-- A member with a rewriter is allowed: its rule says so, and no rule above it can be
a denial. -/
theorem isAllowed_of_attaches {s : Surface} (hbuild : ofRules s rules = .ok tree) {r : Rewriter}
    (hr : Attaches rules m r) : (tree.resolve m).isAllowed := by
  obtain ⟨h, -⟩ := gathers_of_ofRules hbuild
  have hfits := (exists_ofRules_iff.mp ⟨tree, hbuild⟩).fits
  obtain ⟨n, hn, t, ht, x, hx, hpath, hxr⟩ := hr
  simp only [MemberRef.path, List.cons.injEq, and_true] at hpath
  obtain ⟨hname, htype, hmember⟩ := hpath
  have htfits := hfits n hn t ht
  have hxfits := htfits.members x hx
  have hallowed : x.access = .allowed := hxfits.rewriterAllowed (by simp [hxr])
  have htdenied : t.access ≠ .denied := fun hdenied ↦ by
    simpa [hallowed] using hxfits.notWider hdenied
  have hndenied : n.access ≠ .denied := fun hdenied ↦ htdenied (htfits.notWider hdenied)
  have hhas := (declares_iff_has h _ _).mp (Declares.ofNamespace hn)
  have hhast := (declares_iff_has h _ _).mp (Declares.ofType hn ht)
  have hhasm := (declares_iff_has h _ _).mp (Declares.ofMember hn ht hx)
  rw [hname] at hhas hhast hhasm
  rw [htype] at hhast hhasm
  rw [hmember, hallowed] at hhasm
  refine (resolve_walk tree m).1.mpr ⟨⟨_, hhas⟩, ?_, .inl hhasm⟩
  rintro (hdenied | hdenied | hdenied)
  · exact hndenied (hhas.unique hdenied)
  · exact htdenied (hhast.unique hdenied)
  · exact absurd (Has.unique hhasm hdenied) (by decide)

/-- The rewriter of a member is the last one that its rules attach. -/
theorem rewriter?_resolve {s : Surface} (hbuild : ofRules s rules = .ok tree) :
    (tree.resolve m).rewriter? = lastRewriter (memberRules rules m) := by
  obtain ⟨h, -⟩ := gathers_of_ofRules hbuild
  rw [(resolve_walk tree m).2.2, nodeAt?_path_bind_rewriter h]
  split
  · rfl
  · cases hlast : lastRewriter (memberRules rules m) with
    | none => rfl
    | some r =>
        have hr := attaches_iff.mpr (mem_of_lastRewriter hlast)
        exact absurd (isAllowed_of_attaches hbuild hr) (by assumption)

theorem rewriter?_resolve_name_iff {s : Surface} (hbuild : ofRules s rules = .ok tree)
    (name : String) : (tree.resolve m).rewriter?.map Rewriter.name = some name ↔
      ∃ r, Attaches rules m r ∧ r.name = name := by
  rw [rewriter?_resolve hbuild, Option.map_eq_some_iff]
  constructor
  · rintro ⟨r, hlast, hname⟩
    exact ⟨r, attaches_iff.mpr (mem_of_lastRewriter hlast), hname⟩
  · rintro ⟨r, hr, rfl⟩
    obtain ⟨x, hx, hxr⟩ := attaches_iff.mp hr
    obtain ⟨last, hlast⟩ := exists_lastRewriter hx hxr
    have hconsistent := exists_ofRules_iff.mp ⟨tree, hbuild⟩
    have hattached := attaches_iff.mpr (mem_of_lastRewriter hlast)
    exact ⟨last, hlast, hconsistent.rewriter_name_eq hattached hr⟩

/-- What a policy answers for a member, from its rules alone: it allows what they
permit, with a rewriter of the name that they attach, and it denies on the word of a
rule exactly when a node on the way down is declared denied.  No rule anywhere in the
list opens a name below a denial, or an undeclared name below an undecided node. -/
theorem resolve_of_build {s : Surface} {rules : List PolicyRule}
    (hbuild : build s rules = .ok tree) (m : MemberRef) :
    ((tree.resolve m).isAllowed ↔ Permits (Declares (expand s rules)) m) ∧
      (∀ name, (tree.resolve m).rewriter?.map Rewriter.name = some name ↔
        ∃ r, Attaches (expand s rules) m r ∧ r.name = name) ∧
      ((tree.resolve m).reason? = some .explicit ↔
        ∃ path, path <+: m.path ∧ Declares (expand s rules) path .denied) ∧
      (Declares (expand s rules) [m.namespaceName] .denied ∨
          Declares (expand s rules) [m.namespaceName, m.typeName] .denied →
        (tree.resolve m).isAllowed = false) ∧
      ∀ path, IsDeepest (Declares (expand s rules)) m path →
        Declares (expand s rules) path .neutral → (tree.resolve m).isAllowed = false := by
  have hrules : ofRules s (expand s rules) = .ok tree := hbuild
  obtain ⟨h, -⟩ := gathers_of_ofRules hrules
  have hname := rewriter?_resolve_name_iff (m := m) hrules
  have hsame : Declares (expand s rules) = tree.Has :=
    funext fun path ↦ funext fun access ↦ propext (declares_iff_has h path access)
  rw [hsame]
  refine ⟨isAllowed_resolve_iff, hname, reason?_resolve_eq_explicit_iff, ?_, ?_⟩
  -- the last two follow from the first: a denial and the deepest node rule out permission
  · intro hdenied
    rw [← Bool.not_eq_true, isAllowed_resolve_iff]
    intro hpermits
    rcases hdenied with hdenied | hdenied
    · exact hpermits.undenied _ (by simp [MemberRef.path]) hdenied
    · exact hpermits.undenied _ (by simp [MemberRef.path]) hdenied
  · intro path hdeepest hneutral
    rw [← Bool.not_eq_true, isAllowed_resolve_iff]
    intro hpermits
    obtain ⟨other, hother, hallowed⟩ := hpermits.opened
    rw [hother.unique hdeepest] at hallowed
    exact absurd (hneutral.unique hallowed) (by decide)

theorem resolve_clock : ∃ tree, build clockSurface (clockRules 250 20) = .ok tree ∧
    Permits (Declares (expand clockSurface (clockRules 250 20))) clockWait ∧
      (∃ r, Attaches (expand clockSurface (clockRules 250 20)) clockWait r ∧
        r.name = "count-argument") ∧
      (tree.resolve ⟨"Clock", "Timer", "Stop"⟩).reason? = some .explicit := by
  have hanswers : (build clockSurface (clockRules 250 20)).map (fun tree ↦
      (tree.resolve clockWait, tree.resolve ⟨"Clock", "Timer", "Stop"⟩)) =
        .ok (.allowed (some (.count 20)), .denied .explicit) := rfl
  obtain ⟨tree, hbuild, hanswers⟩ := map_eq_ok_iff.mp hanswers
  obtain ⟨hwait, hstop⟩ := Prod.mk.inj hanswers
  have hmeaning := resolve_of_build hbuild clockWait
  refine ⟨tree, hbuild, hmeaning.1.mp ?_, (hmeaning.2.1 _).mp ?_, ?_⟩
  · rw [hwait]
    rfl
  · rw [hwait]
    rfl
  · rw [hstop]
    rfl

end PolicyTree

end GuestGate
