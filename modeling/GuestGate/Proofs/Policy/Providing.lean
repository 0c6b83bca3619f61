import GuestGate.Policy.Bundled
import GuestGate.Proofs.Policy.Reordering

/-!
# Provided rewriters

A policy answers with a rewriter only if some rule attaches it, so a policy whose rules attach
provided rewriters answers with no others.  The bundled rules are of this kind.
-/

namespace GuestGate

/-- All rewriters in a rule are provided.  A family attaches none. -/
def PolicyRule.UsesProvided : PolicyRule → Prop
  | explicit rule => ∀ t ∈ rule.types, ∀ m ∈ t.members, ∀ r ∈ m.rewriter, r.IsProvided
  | family _ => True

theorem isProvided_of_attaches {s : Surface} {rules : List PolicyRule}
    (h : ∀ rule ∈ rules, rule.UsesProvided) {m : MemberRef} {r : Rewriter}
    (hr : Attaches (expand s rules) m r) : r.IsProvided := by
  obtain ⟨n, hn, t, ht, x, hx, -, hxr⟩ := hr
  obtain ⟨rule, hrule, rfl⟩ := List.mem_map.mp hn
  cases rule with
  | explicit rule => exact h _ hrule t ht x hx r hxr
  | family family => simp [family.rewriter_eq_none ht hx] at hxr

theorem PolicyTree.usesProvided_of_build {s : Surface} {rules : List PolicyRule}
    {tree : PolicyTree} (hbuild : build s rules = .ok tree)
    (h : ∀ rule ∈ rules, rule.UsesProvided) : tree.UsesProvided := by
  intro m r hr
  rw [rewriter?_resolve hbuild] at hr
  exact isProvided_of_attaches h (attaches_iff.mpr (mem_of_lastRewriter hr))

namespace PolicyRule

/-- The bundled rules attach no rewriters but provided ones. -/
theorem usesProvided_of_mem_bundled {rule : PolicyRule} (h : rule ∈ bundled) :
    rule.UsesProvided := by
  revert rule
  simp [bundled, safeDefaults, explicitRules, functionalCore, neutralNamespace, typeRule,
    UsesProvided, permit, forbid, collect, permitBy]

end PolicyRule

end GuestGate
