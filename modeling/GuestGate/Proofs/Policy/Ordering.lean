import GuestGate.Proofs.Policy.Equality

/-!
# Ordered trees

The nodes of a built tree stand in name order at every depth.  An ordered tree is known from
what stands at its paths, so comparing two of them node by node is comparing them path by path.
-/

namespace GuestGate

namespace NodeMap

/-- The names of a map ascend, and so do those below every node in it. -/
inductive Ordered : NodeMap PolicyNode → Prop
  | nil : Ordered .nil
  | cons {name : String} {node : PolicyNode} {rest : NodeMap PolicyNode}
      (hfirst : ∀ key, rest.find? key ≠ none → compare name key = .lt)
      (hnode : Ordered node.children) (hrest : Ordered rest) : Ordered (.cons name node rest)

variable {map map' : NodeMap PolicyNode}

theorem Ordered.children_of_find? (h : map.Ordered) {key : String} {node : PolicyNode}
    (hnode : map.find? key = some node) : node.children.Ordered := by
  induction h with
  | nil => cases hnode
  | cons _ hbelow _ _ ih =>
      rw [find?] at hnode
      split at hnode
      · cases hnode
        exact hbelow
      · exact ih hnode

theorem Ordered.nodeFor (h : map.Ordered) (name : String) (access : AccessLevel) :
    (map.nodeFor name access).children.Ordered := by
  unfold NodeMap.nodeFor
  cases hnode : map.find? name with
  | none => exact .nil
  | some node => exact h.children_of_find? hnode

theorem Ordered.insert (h : map.Ordered) (key : String) {new : PolicyNode}
    (hnew : new.children.Ordered) : (map.insert key new).Ordered := by
  induction h with
  | nil => exact .cons (by simp) hnew .nil
  | @cons name node rest hfirst hnode hrest _ ih =>
      rw [NodeMap.insert]
      split
      · next hlt =>
        refine .cons (fun other hother ↦ ?_) hnew (.cons hfirst hnode hrest)
        rw [find?] at hother
        split at hother
        · next heq => rwa [heq]
        · exact Std.TransCmp.lt_trans hlt (hfirst other hother)
      · next heq =>
        obtain rfl := Std.LawfulEqOrd.eq_of_compare heq
        exact .cons hfirst hnew hrest
      · next hgt =>
        refine .cons (fun other hother ↦ ?_) hnode ih
        rw [find?_insert] at hother
        split at hother
        · next heq =>
          subst heq
          exact Std.OrientedCmp.lt_of_gt hgt
        · exact hfirst other hother

end NodeMap

/-! ## Paths -/

def PolicyNode.outline (node : PolicyNode) : AccessLevel × Option String :=
  (node.access, node.rewriter.map Rewriter.name)

namespace NodeMap

variable {map map' : NodeMap PolicyNode}

/-- Two maps have nodes that say the same at the same paths. -/
def SamePaths (map map' : NodeMap PolicyNode) : Prop :=
  ∀ path, (map.at? path).map PolicyNode.outline = (map'.at? path).map PolicyNode.outline

theorem SamePaths.symm (h : map.SamePaths map') : map'.SamePaths map :=
  fun path ↦ (h path).symm

theorem SamePaths.find? (h : map.SamePaths map') (key : String) :
    map.find? key = none ∧ map'.find? key = none ∨
      ∃ x y, map.find? key = some x ∧ map'.find? key = some y ∧ x.outline = y.outline ∧
        x.children.SamePaths y.children := by
  have hkey := h [key]
  cases hx : map.find? key with
  | none =>
      cases hy : map'.find? key with
      | none => exact .inl ⟨rfl, rfl⟩
      | some y => simp [at?, hx, hy, PolicyNode.at?] at hkey
  | some x =>
      cases hy : map'.find? key with
      | none => simp [at?, hx, hy, PolicyNode.at?] at hkey
      | some y =>
          refine .inr ⟨x, y, rfl, rfl, by simpa [at?, hx, hy, PolicyNode.at?] using hkey, ?_⟩
          intro path
          cases path with
          | nil => rfl
          | cons name rest => simpa [at?, hx, hy, PolicyNode.at?] using h (key :: name :: rest)

end NodeMap

/-! ## Built trees -/

namespace PolicyTree

theorem ordered_addMember {s : Surface} {path : String} {row : Option Nat} {t : TypeRule}
    {node new : PolicyNode} {m : MemberRule} (h : node.children.Ordered)
    (hnew : addMember s path row t node m = .ok new) : new.children.Ordered := by
  obtain ⟨-, merged, hmerged, rfl⟩ := addMember_eq_ok_iff.mp hnew
  obtain ⟨-, -, rfl⟩ := merge_eq_ok_iff.mp hmerged
  exact h.insert m.name (h.nodeFor m.name m.access)

theorem ordered_addType {s : Surface} {n : NamespaceRule} {node new : PolicyNode} {t : TypeRule}
    (h : node.children.Ordered) (hnew : addType s n node t = .ok new) :
    new.children.Ordered := by
  obtain ⟨-, -, haccess, below, hbelow, rfl⟩ := addType_eq_ok_iff.mp hnew
  refine h.insert t.name (foldlM_preserves (fun _ _ _ ↦ ordered_addMember) ?_ hbelow)
  exact h.nodeFor t.name t.access

theorem ordered_addNamespace {s : Surface} {map new : NodeMap PolicyNode} {n : NamespaceRule}
    (h : map.Ordered) (hnew : addNamespace s map n = .ok new) : new.Ordered := by
  obtain ⟨-, below, hbelow, rfl⟩ := addNamespace_eq_ok_iff.mp hnew
  refine h.insert n.name (foldlM_preserves (fun _ _ _ ↦ ordered_addType) ?_ hbelow)
  exact h.nodeFor n.name n.access

/-- The nodes of a built tree stand in name order, at every depth. -/
theorem ordered_of_build {s : Surface} {rules : List PolicyRule} {tree : PolicyTree}
    (h : build s rules = .ok tree) : tree.namespaces.Ordered := by
  obtain ⟨map, hmap, hresult⟩ := bind_eq_ok_iff.mp h
  cases hresult
  exact foldlM_preserves (fun _ _ _ ↦ ordered_addNamespace) .nil hmap

end PolicyTree

end GuestGate
