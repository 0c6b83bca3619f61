import GuestGate.Proofs.Policy.Providing

/-!
# Policies that compare equal

Policies are compared node by node and rewriters by name, so what a rewriter does is not
compared.  Equal policies give the same answers up to the rewriters behind the names, and so
enforcement comes out the same up to what these do: for provided rewriters, up to the bounds
of the guards.
-/

namespace GuestGate

/-! ## The same up to some relation -/

inductive Guard.SameKind : Guard → Guard → Prop
  | materialize (parameter maxItems maxItems' : Nat) :
      SameKind (.materialize parameter maxItems) (.materialize parameter maxItems')
  | limit (parameter : Nat) (max max' : Int) :
      SameKind (.limit parameter max) (.limit parameter max')

/-- Call sites that differ at most in the bounds of their guards. -/
structure CallSite.SameButBounds (a b : CallSite) : Prop where
  member : a.member = b.member
  parameters : a.parameters = b.parameters
  line : a.line = b.line
  guards : List.Forall₂ Guard.SameKind a.guards b.guards

/-- Outcomes of enforcement that are the same but for their call sites, and these are related
member by member. -/
inductive SameUpTo {α : Type} (Related : MemberRef → CallSite → CallSite → Prop) :
    Except Failure (VerifiedAssembly α) → Except Failure (VerifiedAssembly α) → Prop
  | refused (failure : Failure) : SameUpTo Related (.error failure) (.error failure)
  | accepted {a b : VerifiedAssembly α} (hstreams : a.streams = b.streams)
      (hversion : a.surfaceVersion = b.surfaceVersion)
      (hsites : ∀ m : MemberRef, Option.Rel (Related m) a.callSites[m]? b.callSites[m]?) :
      SameUpTo Related (.ok a) (.ok b)

theorem SameUpTo.imp {α : Type} {Related Related' : MemberRef → CallSite → CallSite → Prop}
    (himp : ∀ m x y, Related m x y → Related' m x y)
    {a b : Except Failure (VerifiedAssembly α)} (h : SameUpTo Related a b) :
    SameUpTo Related' a b := by
  cases h with
  | refused failure => exact .refused failure
  | @accepted a b hstreams hversion hsites =>
      refine .accepted hstreams hversion fun m ↦ ?_
      have hm := hsites m
      generalize a.callSites[m]? = x, b.callSites[m]? = y at hm ⊢
      cases hm with
      | none => exact .none
      | some hrelated => exact .some (himp m _ _ hrelated)

theorem Guard.SameKind.refl : (guard : Guard) → guard.SameKind guard
  | .materialize parameter maxItems => .materialize parameter maxItems maxItems
  | .limit parameter max => .limit parameter max max

theorem forall₂_sameKind_map {guard guard' : Nat → Guard}
    (h : ∀ i, (guard i).SameKind (guard' i)) (before : List Guard) (positions : List Nat) :
    List.Forall₂ Guard.SameKind (before ++ positions.map guard)
      (before ++ positions.map guard') := by
  refine List.rel_append (List.forall₂_same.mpr fun g _ ↦ .refl g) ?_
  rw [List.forall₂_map_left_iff, List.forall₂_map_right_iff]
  exact List.forall₂_same.mpr fun i _ ↦ h i

theorem CallSite.SameButBounds.refl (site : CallSite) : site.SameButBounds site :=
  ⟨rfl, rfl, rfl, List.forall₂_same.mpr fun g _ ↦ .refl g⟩

/-- Provided rewriters of one name do the same to a call site up to their bounds. -/
theorem ProvidedRewriter.sameButBounds_applyTo {r r' : ProvidedRewriter} (hname : r.name = r'.name)
    (site : CallSite) : (r.applyTo site).SameButBounds (r'.applyTo site) := by
  cases r with
  | noGuard =>
      cases r' with
      | noGuard => exact .refl site
      | _ => simp [name] at hname
  | collected n =>
      cases r' with
      | collected n' => exact ⟨rfl, rfl, rfl, forall₂_sameKind_map (.materialize · n n') _ _⟩
      | _ => simp [name] at hname
  | count n =>
      cases r' with
      | count n' => exact ⟨rfl, rfl, rfl, forall₂_sameKind_map (.limit · n n') _ _⟩
      | _ => simp [name] at hname

theorem PolicyTree.sameButBounds_guarded {r r' : Option Rewriter}
    (hname : r.map Rewriter.name = r'.map Rewriter.name) (hr : ∀ x ∈ r, x.IsProvided)
    (hr' : ∀ x ∈ r', x.IsProvided) (site : CallSite) :
    (guarded r site).SameButBounds (guarded r' site) := by
  cases r with
  | none =>
      obtain rfl : r' = none := by simpa using hname.symm
      exact .refl site
  | some r =>
      obtain ⟨r', rfl, hname'⟩ := Option.map_eq_some_iff.mp hname.symm
      obtain ⟨provided, rfl⟩ := hr _ rfl
      obtain ⟨provided', rfl⟩ := hr' _ rfl
      exact ProvidedRewriter.sameButBounds_applyTo hname'.symm site

/-! ## Equal nodes answer alike -/

theorem PolicyNode.same_iff {a b : PolicyNode} : a.same b ↔ a.access = b.access ∧
    a.rewriter.map Rewriter.name = b.rewriter.map Rewriter.name ∧ a.children.same b.children := by
  cases a
  simp [same, and_assoc]

/-- Maps with the same nodes have them under the same names. -/
theorem NodeMap.find?_of_same {map map' : NodeMap PolicyNode} (h : map.same map') (key : String) :
    map.find? key = none ∧ map'.find? key = none ∨
      ∃ x y, map.find? key = some x ∧ map'.find? key = some y ∧ x.same y := by
  induction map generalizing map' with
  | nil =>
      cases map' with
      | nil => exact .inl ⟨rfl, rfl⟩
      | cons => simp [same] at h
  | cons name node rest ih =>
      cases map' with
      | nil => simp [same] at h
      | cons name' node' rest' =>
          simp only [same, Bool.and_eq_true, beq_iff_eq] at h
          obtain ⟨⟨rfl, hnode⟩, hrest⟩ := h
          by_cases hkey : key = name
          · exact .inr ⟨node, node', by simp [find?, hkey], by simp [find?, hkey], hnode⟩
          · simpa [find?, hkey] using ih hrest

theorem NodeMap.isEmpty_of_same {map map' : NodeMap PolicyNode} (h : map.same map') :
    map.isEmpty = map'.isEmpty := by
  cases map <;> cases map' <;> simp_all [same, isEmpty]

def Decision.outline : Decision → Except DenyReason (Option String)
  | allowed rewriter => .ok (rewriter.map Rewriter.name)
  | denied reason => .error reason

theorem Decision.eq_of_outline {a b : Decision} (h : a.outline = b.outline) :
    a.isAllowed = b.isAllowed ∧
      a.rewriter?.map Rewriter.name = b.rewriter?.map Rewriter.name := by
  cases a <;> cases b <;> simp_all [outline, isAllowed, rewriter?]

theorem Decision.rewriter?_of_not_isAllowed {d : Decision} (h : d.isAllowed = false) :
    d.rewriter? = none := by
  cases d with
  | allowed _ => cases h
  | denied _ => rfl

theorem PolicyNode.outline_decide {a b : PolicyNode} (h : a.same b) (unlisted : DenyReason)
    (path : List String) : (a.decide unlisted path).outline = (b.decide unlisted path).outline := by
  induction path generalizing a b unlisted with
  | nil =>
      obtain ⟨haccess, hname, -⟩ := same_iff.mp h
      unfold decide
      rw [haccess]
      cases b.access <;> simp [Decision.outline, hname]
  | cons name rest ih =>
      obtain ⟨haccess, -, hchildren⟩ := same_iff.mp h
      unfold decide
      rw [haccess]
      obtain ⟨hx, hy⟩ | ⟨x, y, hx, hy, hsame⟩ := NodeMap.find?_of_same hchildren name <;>
        rw [hx, hy]
      cases b.access <;> simp [ih hsame]

theorem PolicyNode.unlistedReason_of_same {a b : PolicyNode} (h : a.same b) :
    a.unlistedReason = b.unlistedReason := by
  rw [unlistedReason, unlistedReason, NodeMap.isEmpty_of_same (same_iff.mp h).2.2]

namespace PolicyTree

variable {tree tree' : PolicyTree}

theorem outline_resolve_of_beq (h : (tree == tree') = true) (m : MemberRef) :
    (tree.resolve m).outline = (tree'.resolve m).outline := by
  obtain ⟨hnamespaces, -⟩ := Bool.and_eq_true_iff.mp h
  unfold resolve
  obtain ⟨hx, hy⟩ | ⟨x, y, hx, hy, hsame⟩ :=
    NodeMap.find?_of_same hnamespaces m.namespaceName <;> rw [hx, hy]
  simpa only [PolicyNode.unlistedReason_of_same hsame] using PolicyNode.outline_decide hsame _ _

/-! ## Enforcement under equal answers -/

/-- Two call sites of a member come from the first reference to it, each through the rewriter
of its policy, and the rewriters go by one name. -/
structure MadeAlike (tree tree' : PolicyTree) (references : List CallSite) (m : MemberRef)
    (first x y : CallSite) : Prop where
  isFirst : firstReference? references m = some first
  name : (tree.resolve m).rewriter?.map Rewriter.name =
    (tree'.resolve m).rewriter?.map Rewriter.name
  left : x = guarded (tree.resolve m).rewriter? first
  right : y = guarded (tree'.resolve m).rewriter? first

section Outline

variable (houtline : ∀ m, (tree.resolve m).outline = (tree'.resolve m).outline)

include houtline

theorem isAllowed_of_outline (m : MemberRef) :
    (tree.resolve m).isAllowed = (tree'.resolve m).isAllowed :=
  (Decision.eq_of_outline (houtline m)).1

/-- Every call site comes from the first reference to its member, through the rewriter of the
one policy and through that of the other. -/
theorem madeAlike_enforce (hversion : tree.surfaceVersion = tree'.surfaceVersion) {α : Type}
    (assembly : Assembly α) :
    SameUpTo (fun m x y ↦ ∃ first, MadeAlike tree tree' assembly.references m first x y)
      (tree.enforce assembly) (tree'.enforce assembly) := by
  have hallowed := isAllowed_of_outline houtline
  cases hresult : tree.enforce assembly with
  | error failure =>
      rw [(enforce_eq_error_iff_of_isAllowed hallowed assembly failure).mp hresult]
      exact .refused failure
  | ok verified =>
      obtain ⟨verified', hresult'⟩ : ∃ verified', tree'.enforce assembly = .ok verified' := by
        simp only [exists_enforce_eq_ok_iff, ← hallowed]
        exact exists_enforce_eq_ok_iff.mp ⟨verified, hresult⟩
      obtain ⟨hstreams, hover, hsites⟩ := verified_of_enforce hresult
      obtain ⟨hstreams', hover', hsites'⟩ := verified_of_enforce hresult'
      rw [hresult']
      refine .accepted (hstreams.trans hstreams'.symm)
        ((hover.trans hversion).trans hover'.symm) fun m ↦ ?_
      rw [hsites, hsites']
      cases hfirst : firstReference? assembly.references m with
      | none => exact .none
      | some first =>
          exact .some ⟨first, hfirst, (Decision.eq_of_outline (houtline m)).2, rfl, rfl⟩

/-- Programs with a single call tell two policies apart that do not treat it alike. -/
theorem actAlike_of_enforce
    (hsame : ∀ assembly : Assembly Unit, tree.enforce assembly = tree'.enforce assembly)
    (m : MemberRef) : ActAlike m (tree.resolve m).rewriter? (tree'.resolve m).rewriter? := by
  have hallowed := isAllowed_of_outline houtline m
  cases hopen : (tree.resolve m).isAllowed with
  | true =>
      exact actAlike_of_enforce_eq hopen (hallowed ▸ hopen) fun assembly ↦ (hsame assembly).symm
  | false =>
      have hnone := Decision.rewriter?_of_not_isAllowed hopen
      have hnone' := Decision.rewriter?_of_not_isAllowed (hallowed ▸ hopen)
      rw [hnone, hnone']
      exact fun _ _ ↦ rfl

end Outline

/-- Provided rewriters of one name that act alike are one. -/
theorem rewriter?_eq_of_actAlike {m : MemberRef} (h : tree.UsesProvided) (h' : tree'.UsesProvided)
    (hname : (tree.resolve m).rewriter?.map Rewriter.name =
      (tree'.resolve m).rewriter?.map Rewriter.name)
    (halike : ActAlike m (tree.resolve m).rewriter? (tree'.resolve m).rewriter?) :
    (tree.resolve m).rewriter? = (tree'.resolve m).rewriter? := by
  cases hr : (tree.resolve m).rewriter? with
  | none =>
      rw [hr, Option.map_none] at hname
      exact (Option.map_eq_none_iff.mp hname.symm).symm
  | some r =>
      rw [hr, Option.map_some] at hname
      obtain ⟨r', hr', hrname⟩ := Option.map_eq_some_iff.mp hname.symm
      rw [hr, hr'] at halike
      rw [hr', (h m r hr).eq_of_actAlike (h' m r' hr') hrname.symm halike]

/-- Policies that compare equal refuse the same programs for the same reasons and accept the
others with call sites for the same members, each made from the same reference by rewriters of
one name.  They do the same to all programs exactly when the rewriters behind the names act
alike, which the comparison does not ensure.  Provided rewriters of one name differ at most in
their bounds, so for these the call sites are the same but for the bounds, and the same
altogether exactly when the rewriters are equal. -/
theorem enforce_of_beq (h : (tree == tree') = true) :
    (∀ (α : Type) (assembly : Assembly α),
      SameUpTo (fun m x y ↦ ∃ first, MadeAlike tree tree' assembly.references m first x y)
        (tree.enforce assembly) (tree'.enforce assembly)) ∧
      ((∀ (α : Type) (assembly : Assembly α), tree.enforce assembly = tree'.enforce assembly) ↔
        ∀ m, ActAlike m (tree.resolve m).rewriter? (tree'.resolve m).rewriter?) ∧
      (tree.UsesProvided → tree'.UsesProvided →
        (∀ (α : Type) (assembly : Assembly α), SameUpTo (fun _ ↦ CallSite.SameButBounds)
          (tree.enforce assembly) (tree'.enforce assembly)) ∧
        ((∀ (α : Type) (assembly : Assembly α),
            tree.enforce assembly = tree'.enforce assembly) ↔
          ∀ m, (tree.resolve m).rewriter? = (tree'.resolve m).rewriter?)) := by
  have houtline := outline_resolve_of_beq h
  have hversion : tree.surfaceVersion = tree'.surfaceVersion :=
    eq_of_beq (Bool.and_eq_true_iff.mp h).2
  have halike : (∀ (α : Type) (assembly : Assembly α),
      tree.enforce assembly = tree'.enforce assembly) ↔
        ∀ m, ActAlike m (tree.resolve m).rewriter? (tree'.resolve m).rewriter? := by
    constructor
    · exact fun hsame ↦ actAlike_of_enforce houtline (hsame Unit)
    · intro halike α assembly
      exact enforce_congr (isAllowed_of_outline houtline) halike hversion assembly
  refine ⟨fun α assembly ↦ madeAlike_enforce houtline hversion assembly, halike,
    fun hprovided hprovided' ↦ ⟨fun α assembly ↦ ?_, ?_⟩⟩
  · refine (madeAlike_enforce houtline hversion assembly).imp ?_
    rintro m x y ⟨first, -, hname, rfl, rfl⟩
    exact sameButBounds_guarded hname (hprovided m) (hprovided' m) first
  · rw [halike]
    constructor
    · exact fun halike m ↦ rewriter?_eq_of_actAlike hprovided hprovided'
        (Decision.eq_of_outline (houtline m)).2 (halike m)
    · intro hsame m
      rw [hsame m]
      exact fun _ _ ↦ rfl

theorem equal_clocks : ∃ tree tree', build clockSurface (clockRules 250 250) = .ok tree ∧
    build clockSurface (clockRules 20 20) = .ok tree' ∧ (tree == tree') = true := by
  have hequal : ((build clockSurface (clockRules 250 250)).bind fun tree ↦
      (build clockSurface (clockRules 20 20)).map fun tree' ↦ tree == tree').toOption =
        some true := by
    decide +kernel
  obtain ⟨tree, hbuild, hequal⟩ := bind_eq_ok_iff.mp (ok_of_toOption hequal)
  obtain ⟨tree', hbuild', hequal⟩ := map_eq_ok_iff.mp hequal
  exact ⟨tree, tree', hbuild, hbuild', hequal⟩

/-- The small policy with one bound and with another: equal, and the same up to bounds. -/
theorem same_calls_up_to_bounds : ∃ tree tree',
    build clockSurface (clockRules 250 250) = .ok tree ∧
      build clockSurface (clockRules 20 20) = .ok tree' ∧ (tree == tree') = true ∧
      ∀ calls, SameUpTo (fun _ ↦ CallSite.SameButBounds) (tree.enforce (clockCalls calls))
        (tree'.enforce (clockCalls calls)) := by
  obtain ⟨tree, tree', hbuild, hbuild', hequal⟩ := equal_clocks
  have hprovided (n : Int) : ∀ rule ∈ clockRules n n, rule.UsesProvided := by
    simp [clockRules, PolicyRule.UsesProvided]
  have hsame := (enforce_of_beq hequal).2.2 (usesProvided_of_build hbuild (hprovided 250))
    (usesProvided_of_build hbuild' (hprovided 20))
  exact ⟨tree, tree', hbuild, hbuild', hequal, fun calls ↦ hsame.1 Unit _⟩

/-- Two policies that compare equal let a call wait for different times. -/
theorem equal_with_other_bounds : ∃ tree tree' verified verified' site site',
    build clockSurface (clockRules 250 250) = .ok tree ∧
      build clockSurface (clockRules 20 20) = .ok tree' ∧ (tree == tree') = true ∧
      tree.enforce (clockCalls [[.count]]) = .ok verified ∧
      tree'.enforce (clockCalls [[.count]]) = .ok verified' ∧
      verified.callSites[clockWait]? = some site ∧ site.countLimit? 0 = some 250 ∧
      verified'.callSites[clockWait]? = some site' ∧ site'.countLimit? 0 = some 20 := by
  have hrun : clockRun (clockRules 250 250) [[.count]] =
      .ok (some (.count 250), some (some (some 250))) := rfl
  have hrun' : clockRun (clockRules 20 20) [[.count]] =
      .ok (some (.count 20), some (some (some 20))) := rfl
  obtain ⟨tree, verified, site, hbuild, -, hok, hsite, hlimit⟩ := exists_of_clockRun hrun
  obtain ⟨tree', verified', site', hbuild', -, hok', hsite', hlimit'⟩ := exists_of_clockRun hrun'
  obtain ⟨_, _, hfirst, hsecond, hequal⟩ := equal_clocks
  cases hbuild.symm.trans hfirst
  cases hbuild'.symm.trans hsecond
  exact ⟨tree, tree', verified, verified', site, site', hbuild, hbuild', hequal, hok, hok',
    hsite, hlimit, hsite', hlimit'⟩

end PolicyTree

end GuestGate
