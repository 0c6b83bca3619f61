import GuestGate.Proofs.Policy.Ordering

/-!
# Listings of policies

A listing has one line for every node, each below the line of the node that it belongs to and
further to the right.  Names without blanks end at the first blank behind them, so a line says
which node it is about, and the depths of the lines put the tree together again.
-/

namespace GuestGate

/-! ### Lists that are cut -/

/-- Two lists are cut at the same place if what stands before it can be told from the first
element behind it. -/
theorem append_inj_of_head? {α : Type} {p : α → Bool} {before before' after after' : List α}
    (h : ∀ x ∈ before, p x) (h' : ∀ x ∈ before', p x) (hafter : ∀ x ∈ after.head?, p x = false)
    (hafter' : ∀ x ∈ after'.head?, p x = false) (heq : before ++ after = before' ++ after') :
    before = before' ∧ after = after' := by
  have htaken (l m : List α) (hl : ∀ x ∈ l, p x) (hm : ∀ x ∈ m.head?, p x = false) :
      (l ++ m).takeWhile p = l := by
    have hrest : m.takeWhile p = [] := by
      cases m with
      | nil => rfl
      | cons x rest => simp [hm x (by simp)]
    rw [List.takeWhile_append_of_pos hl, hrest, List.append_nil]
  have hbefore : before = before' := by
    rw [← htaken before after h hafter, heq, htaken before' after' h' hafter']
  subst hbefore
  exact ⟨rfl, List.append_cancel_left heq⟩

/-- What a line of a listing says of a node. -/
@[ext]
structure ListedNode where
  depth : Nat
  name : String
  access : AccessLevel
  rewriter : Option String

namespace ListedNode

def answer (node : ListedNode) : List Char :=
  node.access.name.toList ++
    node.rewriter.elim [] fun name ↦ ' ' :: '[' :: (name.toList ++ [']'])

def text (node : ListedNode) : List Char :=
  List.replicate (2 * node.depth) ' ' ++
    ((node.name.toList ++ [':']) ++ ' ' :: (node.answer ++ ['\n']))

/-- A node whose line is read without mistakes. -/
structure Plain (node : ListedNode) : Prop where
  not_mem_name : ' ' ∉ node.name.toList
  not_mem_rewriter : ∀ name ∈ node.rewriter, '\n' ∉ name.toList

end ListedNode

/-! ### Trees -/

mutual

def PolicyNode.listed (depth : Nat) (name : String) : PolicyNode → List ListedNode
  | ⟨access, rewriter, children⟩ =>
      ⟨depth, name, access, rewriter.map Rewriter.name⟩ :: children.listed (depth + 1)
termination_by structural node => node

def NodeMap.listed (depth : Nat) : NodeMap PolicyNode → List ListedNode
  | .nil => []
  | .cons name node rest => node.listed depth name ++ rest.listed depth
termination_by structural map => map

end

theorem toList_line (depth : Nat) (name : String) (access : AccessLevel)
    (rewriter : Option Rewriter) : (PolicyTree.line depth name access rewriter).toList =
      ListedNode.text ⟨depth, name, access, rewriter.map Rewriter.name⟩ := by
  cases rewriter <;> simp [PolicyTree.line, ListedNode.text, ListedNode.answer]

mutual

theorem PolicyNode.flatMap_lines (depth : Nat) (name : String) : (node : PolicyNode) →
    (node.lines depth name).flatMap String.toList =
      (node.listed depth name).flatMap ListedNode.text
  | ⟨access, rewriter, children⟩ => by
      rw [PolicyNode.lines, PolicyNode.listed, List.flatMap_cons, List.flatMap_cons, toList_line,
        children.flatMap_lines (depth + 1)]
termination_by structural node => node

theorem NodeMap.flatMap_lines (depth : Nat) : (map : NodeMap PolicyNode) →
    (map.lines depth).flatMap String.toList = (map.listed depth).flatMap ListedNode.text
  | .nil => rfl
  | .cons name node rest => by
      rw [NodeMap.lines, NodeMap.listed, List.flatMap_append, List.flatMap_append, node.flatMap_lines depth name,
        rest.flatMap_lines depth]
termination_by structural map => map

end

mutual

/-- Every line of a node stands at its depth or further to the right. -/
theorem PolicyNode.depth_le_of_mem_listed {depth : Nat} {name : String} {line : ListedNode} :
    (node : PolicyNode) → line ∈ node.listed depth name → depth ≤ line.depth
  | ⟨access, rewriter, children⟩, h => by
      rw [PolicyNode.listed] at h
      rcases List.mem_cons.mp h with rfl | hbelow
      · exact Nat.le_refl _
      · exact Nat.le_of_succ_le (children.depth_le_of_mem_listed hbelow)
termination_by structural node => node

theorem NodeMap.depth_le_of_mem_listed {depth : Nat} {line : ListedNode} :
    (map : NodeMap PolicyNode) → line ∈ map.listed depth → depth ≤ line.depth
  | .nil, h => by cases h
  | .cons name node rest, h => by
      rw [NodeMap.listed] at h
      rcases List.mem_append.mp h with hnode | hrest
      · exact node.depth_le_of_mem_listed hnode
      · exact rest.depth_le_of_mem_listed hrest
termination_by structural map => map

end

theorem NodeMap.depth_of_head?_listed {depth : Nat} {map : NodeMap PolicyNode}
    {line : ListedNode} (h : line ∈ (map.listed depth).head?) : line.depth = depth := by
  cases map with
  | nil => cases h
  | cons name node rest =>
      obtain ⟨access, rewriter, children⟩ := node
      simp only [NodeMap.listed, PolicyNode.listed, List.cons_append, List.head?_cons,
        Option.mem_some_iff] at h
      exact h ▸ rfl

mutual

/-- The lines of a node put it together again: those below it are the ones that stand further
to the right. -/
theorem PolicyNode.listed_append_inj {depth : Nat} {name name' : String}
    {rest rest' : NodeMap PolicyNode} : (node node' : PolicyNode) →
    node.listed depth name ++ rest.listed depth =
        node'.listed depth name' ++ rest'.listed depth →
      name = name' ∧ node.same node' ∧ rest.listed depth = rest'.listed depth
  | ⟨access, rewriter, children⟩, ⟨access', rewriter', children'⟩, h => by
      simp only [PolicyNode.listed, List.cons_append, List.cons.injEq, ListedNode.mk.injEq, true_and] at h
      obtain ⟨⟨hname, haccess, hrewriter⟩, hlines⟩ := h
      have hright (map : NodeMap PolicyNode) :
          ∀ line ∈ map.listed (depth + 1), decide (depth < line.depth) := by
        intro line hline
        exact decide_eq_true (map.depth_le_of_mem_listed hline)
      have hleft (map : NodeMap PolicyNode) :
          ∀ line ∈ (map.listed depth).head?, decide (depth < line.depth) = false := by
        intro line hline
        simp [map.depth_of_head?_listed hline]
      obtain ⟨hbelow, hrest⟩ := append_inj_of_head? (hright children) (hright children')
        (hleft rest) (hleft rest') hlines
      have hsame := children.same_of_listed_eq children' hbelow
      exact ⟨hname, PolicyNode.same_iff.mpr ⟨haccess, hrewriter, hsame⟩, hrest⟩
termination_by structural node => node

theorem NodeMap.same_of_listed_eq {depth : Nat} : (map map' : NodeMap PolicyNode) →
    map.listed depth = map'.listed depth → map.same map'
  | .nil, .nil, _ => rfl
  | .nil, .cons _ ⟨_, _, _⟩ _, h => by simp [NodeMap.listed, PolicyNode.listed] at h
  | .cons _ ⟨_, _, _⟩ _, .nil, h => by simp [NodeMap.listed, PolicyNode.listed] at h
  | .cons name node rest, .cons name' node' rest', h => by
      rw [NodeMap.listed, NodeMap.listed] at h
      obtain ⟨hname, hnode, hrest⟩ := node.listed_append_inj node' h
      have hsame := rest.same_of_listed_eq rest' hrest
      simp [NodeMap.same, hname, hnode, hsame]
termination_by structural map => map

end

mutual

theorem PolicyNode.listed_of_same (depth : Nat) (name : String) : (node node' : PolicyNode) →
    node.same node' → node.listed depth name = node'.listed depth name
  | ⟨access, rewriter, children⟩, ⟨access', rewriter', children'⟩, h => by
      obtain ⟨rfl, hrewriter, hchildren⟩ : access = access' ∧
          rewriter.map Rewriter.name = rewriter'.map Rewriter.name ∧ children.same children' :=
        PolicyNode.same_iff.mp h
      rw [PolicyNode.listed, PolicyNode.listed, hrewriter,
        children.listed_of_same (depth + 1) children' hchildren]
termination_by structural node => node

theorem NodeMap.listed_of_same (depth : Nat) : (map map' : NodeMap PolicyNode) →
    map.same map' → map.listed depth = map'.listed depth
  | .nil, .nil, _ => rfl
  | .nil, .cons .., h => by simp [NodeMap.same] at h
  | .cons .., .nil, h => by simp [NodeMap.same] at h
  | .cons name node rest, .cons name' node' rest', h => by
      simp only [NodeMap.same, Bool.and_eq_true, beq_iff_eq] at h
      obtain ⟨⟨rfl, hnode⟩, hrest⟩ := h
      rw [NodeMap.listed, NodeMap.listed, node.listed_of_same depth name node' hnode,
        rest.listed_of_same depth rest' hrest]
termination_by structural map => map

end

mutual

/-- A line is about one of the nodes below, or about the node itself. -/
theorem PolicyNode.exists_of_mem_listed {depth : Nat} {name : String} {line : ListedNode} :
    (node : PolicyNode) → line ∈ node.listed depth name →
      ∃ entry ∈ (name, node) :: node.descendants, line.name = entry.1 ∧
        line.rewriter = entry.2.rewriter.map Rewriter.name
  | ⟨access, rewriter, children⟩, h => by
      rw [PolicyNode.listed] at h
      rcases List.mem_cons.mp h with rfl | hbelow
      · exact ⟨_, List.mem_cons_self, rfl, rfl⟩
      · obtain ⟨entry, hentry, hline⟩ := children.exists_of_mem_listed hbelow
        exact ⟨entry, List.mem_cons_of_mem _ hentry, hline⟩
termination_by structural node => node

theorem NodeMap.exists_of_mem_listed {depth : Nat} {line : ListedNode} :
    (map : NodeMap PolicyNode) → line ∈ map.listed depth →
      ∃ entry ∈ map.nodes, line.name = entry.1 ∧
        line.rewriter = entry.2.rewriter.map Rewriter.name
  | .nil, h => by cases h
  | .cons name node rest, h => by
      rw [NodeMap.listed] at h
      rw [NodeMap.nodes, ← List.cons_append]
      rcases List.mem_append.mp h with hnode | hrest
      · obtain ⟨entry, hentry, hline⟩ := node.exists_of_mem_listed hnode
        exact ⟨entry, List.mem_append_left _ hentry, hline⟩
      · obtain ⟨entry, hentry, hline⟩ := rest.exists_of_mem_listed hrest
        exact ⟨entry, List.mem_append_right _ hentry, hline⟩
termination_by structural map => map

end

/-! ### Policies -/

namespace NodeMap

def mapNames (f : String → String) : NodeMap PolicyNode → NodeMap PolicyNode
  | .nil => .nil
  | .cons name node rest => .cons (f name) node (rest.mapNames f)

variable {f : String → String} {map map' : NodeMap PolicyNode}

/-- A node that has got another name was there before under its own. -/
theorem exists_of_mem_nodes_mapNames {entry : String × PolicyNode}
    (h : entry ∈ (map.mapNames f).nodes) : ∃ old ∈ map.nodes, entry.2 = old.2 ∧
      (entry.1 = old.1 ∨ entry.1 = f old.1) := by
  induction map with
  | nil => cases h
  | cons name node rest ih =>
      rw [mapNames, nodes] at h
      rw [nodes]
      rcases List.mem_cons.mp h with rfl | h
      · exact ⟨(name, node), List.mem_cons_self, rfl, .inr rfl⟩
      · rcases List.mem_append.mp h with hbelow | hrest
        · exact ⟨entry, List.mem_cons_of_mem _ (List.mem_append_left _ hbelow), rfl, .inl rfl⟩
        · obtain ⟨old, hold, hentry⟩ := ih hrest
          exact ⟨old, List.mem_cons_of_mem _ (List.mem_append_right _ hold), hentry⟩

end NodeMap

namespace PolicyTree

/-- A policy whose names are told apart in a listing: none has a blank in it, and no namespace
has the name under which the empty one is listed. -/
structure Listable (tree : PolicyTree) : Prop where
  not_blank : ∀ name ∈ tree.nodeNames, ∀ c ∈ name.toList, Text.isBlank c = false
  ne_global : ∀ entry ∈ tree.namespaces.toList, entry.1 ≠ "<global>"

/-- No rewriter of a policy has a line break in its name.  A name like that could pass for the
end of its own line and for another one below it. -/
def PlainTags (tree : PolicyTree) : Prop :=
  ∀ entry ∈ tree.namespaces.nodes, ∀ r ∈ entry.2.rewriter, '\n' ∉ r.name.toList

theorem listable_iff {tree : PolicyTree} : tree.Listable ↔
    (tree.nodeNames.all fun name ↦ name.toList.all (!Text.isBlank ·)) = true ∧
      tree.namespaces.toList.all (·.1 != "<global>") = true := by
  constructor
  · rintro ⟨hblank, hglobal⟩
    exact ⟨by simpa using hblank, by simpa using hglobal⟩
  · rintro ⟨hblank, hglobal⟩
    exact ⟨by simpa using hblank, by simpa using hglobal⟩

instance (tree : PolicyTree) : Decidable tree.Listable :=
  decidable_of_iff _ listable_iff.symm

def listing (tree : PolicyTree) : NodeMap PolicyNode :=
  tree.namespaces.mapNames listedName

variable {tree tree' : PolicyTree}

theorem Listable.plain (h : tree.Listable) (htags : tree.PlainTags) :
    ∀ line ∈ tree.listing.listed 0, line.Plain := by
  intro line hline
  obtain ⟨entry, hentry, hname, hrewriter⟩ := NodeMap.exists_of_mem_listed _ hline
  obtain ⟨old, hold, hnode, hnames⟩ := NodeMap.exists_of_mem_nodes_mapNames hentry
  have hblank : ' ' ∉ old.1.toList := by
    intro hmem
    have hfalse := h.not_blank old.1 (List.mem_map_of_mem hold) ' ' hmem
    exact absurd hfalse (by decide)
  constructor
  · rw [hname]
    rcases hnames with hnames | hnames
    · rwa [hnames]
    · rw [hnames, listedName]
      split
      · decide
      · exact hblank
  · intro name hmem
    rw [hrewriter, hnode] at hmem
    obtain ⟨r, hr, rfl⟩ := Option.map_eq_some_iff.mp hmem
    exact htags old hold r hr

def timerPolicy (types : NodeMap PolicyNode) : PolicyTree where
  namespaces := .cons "" ⟨.neutral, none, types⟩ .nil
  surfaceVersion := "clock"

/-- A rewriter with a line break in its name, and the two rewriters that it passes for. -/
theorem describe_of_brokenTag : ∃ tag : String, '\n' ∈ tag.toList ∧
    let broken := timerPolicy (.cons "Timer" ⟨.neutral, none,
      .cons "Stop" ⟨.allowed, some ⟨tag, id⟩, .nil⟩ .nil⟩ .nil)
    let plain := timerPolicy (.cons "Timer" ⟨.neutral, none,
      .cons "Stop" ⟨.allowed, some ⟨"a", id⟩, .nil⟩
        (.cons "Wait" ⟨.allowed, some ⟨"b", id⟩, .nil⟩ .nil)⟩ .nil)
    broken.Listable ∧ plain.Listable ∧ broken.describe = plain.describe ∧
      ¬ broken.namespaces.same plain.namespaces := by
  refine ⟨"a]\n    Wait: allowed [b", by decide, ?_⟩
  intro broken plain
  exact ⟨by decide, by decide, by decide, by decide⟩

end PolicyTree

end GuestGate
