import GuestGate.Policy.Enforcement
import GuestGate.Proofs.Fallible
import GuestGate.Proofs.Policy.Declaration
import GuestGate.Proofs.Policy.Rewriting

/-!
# What enforcement returns

References are inspected one after another, and two collections grow side by
side: a call site for each allowed member and a violation for each denied one.
Both are decided by the first reference to the member, whatever stands between.
-/

namespace GuestGate

def firstReference? (references : List CallSite) (m : MemberRef) : Option CallSite :=
  references.find? (·.member == m)

def firstIndex (references : List CallSite) (m : MemberRef) : Nat :=
  references.findIdx (·.member == m)

theorem mem_of_firstReference? {references : List CallSite} {m : MemberRef} {site : CallSite}
    (h : firstReference? references m = some site) : site ∈ references ∧ site.member = m := by
  rw [firstReference?, List.find?_eq_some_iff_append] at h
  obtain ⟨hmember, before, after, rfl, -⟩ := h
  exact ⟨by simp, eq_of_beq hmember⟩

theorem exists_firstReference? {references : List CallSite} {site : CallSite}
    (h : site ∈ references) : ∃ first, firstReference? references site.member = some first := by
  rw [← Option.isSome_iff_exists, firstReference?, List.find?_isSome]
  exact ⟨site, h, by simp⟩

theorem firstReference?_concat (references : List CallSite) (site : CallSite) (m : MemberRef) :
    firstReference? (references ++ [site]) m =
      (firstReference? references m).or (if site.member = m then some site else none) := by
  by_cases h : site.member = m <;> simp [firstReference?, List.find?_append, h]

theorem firstIndex_concat_of_some {references : List CallSite} {m : MemberRef} {first : CallSite}
    (h : firstReference? references m = some first) (site : CallSite) :
    firstIndex (references ++ [site]) m = firstIndex references m ∧
      firstIndex references m < references.length := by
  have hlt : firstIndex references m < references.length := by
    obtain ⟨hmem, hmember⟩ := mem_of_firstReference? h
    exact List.findIdx_lt_length_of_exists ⟨first, hmem, by simp [hmember]⟩
  refine ⟨?_, hlt⟩
  simp only [firstIndex] at hlt ⊢
  simp [List.findIdx_append, hlt]

theorem firstIndex_concat_of_none {references : List CallSite} {site : CallSite}
    (h : firstReference? references site.member = none) :
    firstIndex (references ++ [site]) site.member = references.length := by
  have hnone : references.findIdx (·.member == site.member) = references.length := by
    rw [List.findIdx_eq_length]
    simpa [firstReference?] using h
  simp [firstIndex, List.findIdx_append, hnone]

namespace PolicyTree

/-- The rewriters that a policy answers with are provided. -/
def UsesProvided (tree : PolicyTree) : Prop :=
  ∀ m, ∀ r ∈ (tree.resolve m).rewriter?, r.IsProvided

/-- The rewriters that a policy answers with leave the member of a call as it is. -/
def KeepsMembers (tree : PolicyTree) : Prop :=
  ∀ m, ∀ r ∈ (tree.resolve m).rewriter?, ∀ site : CallSite, site.member = m →
    (r.applyTo site).member = m

theorem UsesProvided.keepsMembers {tree : PolicyTree} (h : tree.UsesProvided) :
    tree.KeepsMembers := by
  rintro m r hr site rfl
  obtain ⟨provided, rfl⟩ := h site.member r hr
  exact provided.applyTo_member site

theorem KeepsMembers.member_guarded {tree : PolicyTree} (h : tree.KeepsMembers) {m : MemberRef}
    {site : CallSite} (hsite : site.member = m) :
    (guarded (tree.resolve m).rewriter? site).member = m := by
  cases hr : (tree.resolve m).rewriter? with
  | none => exact hsite
  | some r => exact h m r hr site hsite

/-- Everything that has been found is what the references seen so far call for. -/
structure Findings.Covers (tree : PolicyTree) (done : List CallSite) (found : Findings) :
    Prop where
  callSites : ∀ m, found.callSites[m]? =
    if (tree.resolve m).isAllowed then
      (firstReference? done m).map (guarded (tree.resolve m).rewriter?)
    else none
  mem_violations : ∀ v, v ∈ found.violations ↔ (tree.resolve v.member).isAllowed = false ∧
    ∃ first, firstReference? done v.member = some first ∧ first.line = v.line
  ordered : found.violations.Pairwise fun a b ↦ firstIndex done a.member < firstIndex done b.member

theorem covers_nil (tree : PolicyTree) : Findings.Covers tree [] {} where
  callSites := by simp [firstReference?]
  mem_violations := by simp [firstReference?]
  ordered := by simp

variable {tree : PolicyTree} {done : List CallSite} {found : Findings}

theorem Findings.Covers.ordered_concat (h : Findings.Covers tree done found) (site : CallSite) :
    found.violations.Pairwise fun a b ↦
      firstIndex (done ++ [site]) a.member < firstIndex (done ++ [site]) b.member := by
  -- a reported member has been seen, so its place does not move
  refine h.ordered.imp_of_mem fun {a b} ha hb hab ↦ ?_
  obtain ⟨-, _, hfirsta, -⟩ := (h.mem_violations a).mp ha
  obtain ⟨-, _, hfirstb, -⟩ := (h.mem_violations b).mp hb
  rw [(firstIndex_concat_of_some hfirsta site).1, (firstIndex_concat_of_some hfirstb site).1]
  exact hab

/-- A reference to a member that has been seen changes nothing. -/
theorem Findings.Covers.of_seen (h : Findings.Covers tree done found) {site first : CallSite}
    (hseen : firstReference? done site.member = some first) :
    Findings.Covers tree (done ++ [site]) found := by
  have hsame : ∀ m, firstReference? (done ++ [site]) m = firstReference? done m := by
    intro m
    rw [firstReference?_concat]
    by_cases hm : site.member = m
    · subst hm
      simp [hseen]
    · simp [hm]
  exact ⟨by simpa [hsame] using h.callSites, by simpa [hsame] using h.mem_violations,
    h.ordered_concat site⟩

/-- A first reference that is denied is reported after all others. -/
theorem Findings.Covers.of_denied (h : Findings.Covers tree done found) {site : CallSite}
    (hnew : firstReference? done site.member = none)
    (hdenied : (tree.resolve site.member).isAllowed = false) :
    Findings.Covers tree (done ++ [site])
      { found with violations := found.violations ++ [⟨site.member, site.line⟩] } where
  callSites m := by
    rw [firstReference?_concat]
    by_cases hm : site.member = m
    · subst hm
      simp [h.callSites, hdenied]
    · simp [hm, h.callSites]
  mem_violations v := by
    rw [List.mem_append, List.mem_singleton, h.mem_violations, firstReference?_concat]
    obtain ⟨member, line⟩ := v
    by_cases hm : site.member = member
    · subst hm
      simp [hnew, hdenied, eq_comm]
    · have hne : member ≠ site.member := fun heq ↦ hm heq.symm
      simp [hm, hne]
  ordered := by
    refine List.pairwise_append.mpr ⟨h.ordered_concat site, by simp, ?_⟩
    intro a ha b hb
    obtain ⟨-, _, hfirst, -⟩ := (h.mem_violations a).mp ha
    rw [List.mem_singleton.mp hb, firstIndex_concat_of_none hnew,
      (firstIndex_concat_of_some hfirst site).1]
    exact (firstIndex_concat_of_some hfirst site).2

/-- A first reference that is allowed gives the call site of its member. -/
theorem Findings.Covers.of_allowed (h : Findings.Covers tree done found) {site : CallSite}
    (hnew : firstReference? done site.member = none)
    (hallowed : (tree.resolve site.member).isAllowed) :
    Findings.Covers tree (done ++ [site])
      { found with
        callSites := found.callSites.insert site.member
          (guarded (tree.resolve site.member).rewriter? site) } where
  callSites m := by
    rw [firstReference?_concat, Std.TreeMap.getElem?_insert]
    by_cases hm : site.member = m
    · subst hm
      simp [hnew, hallowed]
    · simp [hm, h.callSites]
  mem_violations v := by
    rw [h.mem_violations, firstReference?_concat]
    by_cases hm : site.member = v.member
    · rw [← hm]
      simp [hallowed]
    · simp [hm]
  ordered := h.ordered_concat site

theorem Findings.Covers.any_violation (h : Findings.Covers tree done found) {m : MemberRef}
    (hdenied : (tree.resolve m).isAllowed = false) :
    (found.violations.any fun v ↦ v.member == m) = (firstReference? done m).isSome := by
  rw [Bool.eq_iff_iff, List.any_eq_true, Option.isSome_iff_exists]
  constructor
  · rintro ⟨v, hv, hm⟩
    obtain ⟨-, first, hfirst, -⟩ := (h.mem_violations v).mp hv
    exact ⟨first, eq_of_beq hm ▸ hfirst⟩
  · rintro ⟨first, hfirst⟩
    exact ⟨⟨m, first.line⟩, (h.mem_violations _).mpr ⟨hdenied, first, hfirst, rfl⟩, by simp⟩

theorem covers_inspect (h : Findings.Covers tree done found) (site : CallSite) :
    Findings.Covers tree (done ++ [site]) (tree.inspect found site) := by
  have hcontains : found.callSites.contains site.member = (found.callSites[site.member]?).isSome :=
    Std.TreeMap.contains_eq_isSome_getElem?
  cases hdecision : tree.resolve site.member with
  | denied reason =>
      have hdenied : (tree.resolve site.member).isAllowed = false := by rw [hdecision]; rfl
      have hreported : (found.violations.any fun v ↦ v.member == site.member) =
          (firstReference? done site.member).isSome := h.any_violation hdenied
      cases hfirst : firstReference? done site.member with
      | some first => simpa [inspect, hdecision, hreported, hfirst] using h.of_seen hfirst
      | none => simpa [inspect, hdecision, hreported, hfirst] using h.of_denied hfirst hdenied
  | allowed rewriter =>
      have hallowed : (tree.resolve site.member).isAllowed := by rw [hdecision]; rfl
      rw [h.callSites, if_pos hallowed] at hcontains
      cases hfirst : firstReference? done site.member with
      | some first => simpa [inspect, hdecision, hcontains, hfirst] using h.of_seen hfirst
      | none =>
          simpa [inspect, hdecision, hcontains, hfirst, Decision.rewriter?] using
            h.of_allowed hfirst hallowed

theorem covers_foldl (h : Findings.Covers tree done found) (references : List CallSite) :
    Findings.Covers tree (done ++ references) (references.foldl tree.inspect found) := by
  induction references generalizing done found with
  | nil => simpa using h
  | cons site rest ih => simpa using ih (covers_inspect h site)

theorem Findings.Covers.violations_eq_nil_iff (h : Findings.Covers tree done found) :
    found.violations = [] ↔ ∀ site ∈ done, (tree.resolve site.member).isAllowed := by
  rw [List.eq_nil_iff_forall_not_mem]
  constructor
  · intro hnone site hsite
    rw [← Bool.not_eq_false]
    intro hdenied
    obtain ⟨first, hfirst⟩ := exists_firstReference? hsite
    exact hnone ⟨site.member, first.line⟩
      ((h.mem_violations _).mpr ⟨hdenied, first, hfirst, rfl⟩)
  · intro hall v hv
    obtain ⟨hdenied, first, hfirst, -⟩ := (h.mem_violations v).mp hv
    obtain ⟨hmem, hmember⟩ := mem_of_firstReference? hfirst
    have hallowed := hall first hmem
    rw [hmember, hdenied] at hallowed
    cases hallowed

theorem enforce_cases {α : Type} (tree : PolicyTree) (assembly : Assembly α) :
    ∃ found, Findings.Covers tree assembly.references found ∧
      (found.violations = [] ∧
          tree.enforce assembly = .ok ⟨assembly.streams, found.callSites, tree.surfaceVersion⟩ ∨
        found.violations ≠ [] ∧
          tree.enforce assembly = .error (.policyViolation found.violations)) := by
  refine ⟨_, covers_foldl (covers_nil tree) assembly.references, ?_⟩
  cases hviolations : (assembly.references.foldl tree.inspect {}).violations with
  | nil => exact .inl ⟨rfl, by simp [enforce, hviolations]⟩
  | cons v rest => exact .inr ⟨by simp, by simp [enforce, hviolations]⟩

theorem exists_enforce_eq_ok_iff {α : Type} {assembly : Assembly α} :
    (∃ verified, tree.enforce assembly = .ok verified) ↔
      ∀ site ∈ assembly.references, (tree.resolve site.member).isAllowed := by
  obtain ⟨found, hfound, ⟨hnil, hok⟩ | ⟨hne, herror⟩⟩ := enforce_cases tree assembly
  · exact ⟨fun _ ↦ hfound.violations_eq_nil_iff.mp hnil, fun _ ↦ ⟨_, hok⟩⟩
  · constructor
    · rintro ⟨verified, hok⟩
      rw [herror] at hok
      cases hok
    · intro hall
      exact absurd (hfound.violations_eq_nil_iff.mpr hall) hne

/-- An accepted program keeps its streams, and its call sites are the first references,
each through the rewriter of its member. -/
theorem verified_of_enforce {α : Type} {assembly : Assembly α} {verified : VerifiedAssembly α}
    (h : tree.enforce assembly = .ok verified) :
    verified.streams = assembly.streams ∧ verified.surfaceVersion = tree.surfaceVersion ∧
      ∀ m, verified.callSites[m]? =
        (firstReference? assembly.references m).map (guarded (tree.resolve m).rewriter?) := by
  obtain ⟨found, hfound, ⟨hnil, hok⟩ | ⟨hne, herror⟩⟩ := enforce_cases tree assembly
  · rw [hok] at h
    cases h
    refine ⟨rfl, rfl, fun m ↦ ?_⟩
    rw [hfound.callSites]
    cases hfirst : firstReference? assembly.references m with
    | none => simp
    | some first =>
        obtain ⟨hmem, hmember⟩ := mem_of_firstReference? hfirst
        have hallowed := hfound.violations_eq_nil_iff.mp hnil first hmem
        rw [hmember] at hallowed
        rw [if_pos hallowed]
  · rw [herror] at h
    cases h

/-- A refused program is refused with its denied members, each once, in the order of
their first references and with the lines of these. -/
theorem violations_of_enforce {α : Type} {assembly : Assembly α} {failure : Failure}
    (h : tree.enforce assembly = .error failure) : ∃ violations,
      failure = .policyViolation violations ∧
        (∀ v, v ∈ violations ↔ (tree.resolve v.member).isAllowed = false ∧
          ∃ first, firstReference? assembly.references v.member = some first ∧
            first.line = v.line) ∧
        violations.Pairwise fun a b ↦ firstIndex assembly.references a.member <
          firstIndex assembly.references b.member := by
  obtain ⟨found, hfound, ⟨hnil, hok⟩ | ⟨hne, herror⟩⟩ := enforce_cases tree assembly
  · rw [hok] at h
    cases h
  · rw [herror] at h
    cases h
    exact ⟨_, rfl, hfound.mem_violations, hfound.ordered⟩

/-- What enforcement returns, for any policy and any program.  It accepts exactly the
programs that only refer to allowed members, and then there is one call site for each
member referred to: its first reference through the rewriter of the decision.  It
refuses all others with one violation for each denied member, in the order of the first
references and with their lines, whatever else stands between them. -/
theorem enforce_exact {α : Type} (tree : PolicyTree) (assembly : Assembly α) :
    ((∃ verified, tree.enforce assembly = .ok verified) ↔
      ∀ site ∈ assembly.references, (tree.resolve site.member).isAllowed) ∧
      (∀ verified, tree.enforce assembly = .ok verified →
        verified.streams = assembly.streams ∧
          ∀ m, verified.callSites[m]? =
            (firstReference? assembly.references m).map (guarded (tree.resolve m).rewriter?)) ∧
      ∀ failure, tree.enforce assembly = .error failure → ∃ violations,
        failure = .policyViolation violations ∧
          (violations.map Violation.member).Nodup ∧
          (∀ v, v ∈ violations ↔ (tree.resolve v.member).isAllowed = false ∧
            ∃ first, firstReference? assembly.references v.member = some first ∧
              first.line = v.line) ∧
          violations.Pairwise fun a b ↦ firstIndex assembly.references a.member <
            firstIndex assembly.references b.member := by
  refine ⟨exists_enforce_eq_ok_iff, fun verified hok ↦ ?_, fun failure herror ↦ ?_⟩
  · obtain ⟨hstreams, -, hsites⟩ := verified_of_enforce hok
    exact ⟨hstreams, hsites⟩
  · obtain ⟨violations, hfailure, hmem, hordered⟩ := violations_of_enforce herror
    refine ⟨violations, hfailure, ?_, hmem, hordered⟩
    -- members at different places differ
    refine List.pairwise_map.mpr (hordered.imp fun {a b} hlt heq ↦ ?_)
    rw [heq] at hlt
    exact Nat.lt_irrefl _ hlt

/-! ## A small program, to try statements on -/

def clockCalls (calls : List (List ParamShape)) : Assembly Unit where
  streams := ()
  references := calls.map fun shapes ↦ { member := clockWait, parameters := shapes }

/-- What comes of such a program: the rewriter of the waiting member, and the bound that
its call site has on the first parameter if the program is accepted. -/
def clockRun (rules : List PolicyRule) (calls : List (List ParamShape)) :
    Except BuildError (Option Rewriter × Option (Option (Option Int))) :=
  (build clockSurface rules).map fun tree ↦
    ((tree.resolve clockWait).rewriter?,
      (tree.enforce (clockCalls calls)).toOption.map fun verified ↦
        (verified.callSites[clockWait]?).map (·.countLimit? 0))

theorem exists_of_clockRun {rules : List PolicyRule} {calls : List (List ParamShape)}
    {rewriter : Option Rewriter} {limit : Option Int}
    (h : clockRun rules calls = .ok (rewriter, some (some limit))) :
    ∃ tree verified site, build clockSurface rules = .ok tree ∧
      (tree.resolve clockWait).rewriter? = rewriter ∧
      tree.enforce (clockCalls calls) = .ok verified ∧
      verified.callSites[clockWait]? = some site ∧ site.countLimit? 0 = limit := by
  obtain ⟨tree, hbuild, hrun⟩ := map_eq_ok_iff.mp h
  obtain ⟨hrewriter, hlimit⟩ := Prod.mk.inj hrun
  obtain ⟨verified, hverified, hlimit⟩ := Option.map_eq_some_iff.mp hlimit
  obtain ⟨site, hsite, hlimit⟩ := Option.map_eq_some_iff.mp hlimit
  cases hok : tree.enforce (clockCalls calls) with
  | error failure => simp [hok, Except.toOption] at hverified
  | ok accepted =>
      rw [hok] at hverified
      cases hverified
      exact ⟨tree, verified, site, hbuild, hrewriter, hok, hsite, hlimit⟩

/-! ## Which references are guarded -/

/-- The bound of a rewriter reaches a parameter exactly when the first reference to the
member has the shape there.  A later reference of another shape adds no guard. -/
theorem limit_of_enforce_iff {α : Type} {tree : PolicyTree} {assembly : Assembly α}
    {verified : VerifiedAssembly α} (hok : tree.enforce assembly = .ok verified)
    (hbare : ∀ site ∈ assembly.references, site.guards = []) {reference : CallSite}
    (hreference : reference ∈ assembly.references) (i : Nat) :
    ∃ first site, firstReference? assembly.references reference.member = some first ∧
      verified.callSites[reference.member]? = some site ∧
      (∀ n, (tree.resolve reference.member).rewriter? = some (.collected n) →
        (site.materializeLimit? i = some n ↔ first.parameters[i]? = some .sequence)) ∧
      ∀ n, (tree.resolve reference.member).rewriter? = some (.count n) →
        (site.countLimit? i = some n ↔ first.parameters[i]? = some .count) := by
  obtain ⟨first, hfirst⟩ := exists_firstReference? hreference
  obtain ⟨hmem, -⟩ := mem_of_firstReference? hfirst
  have hsite := (verified_of_enforce hok).2.2 reference.member
  rw [hfirst] at hsite
  refine ⟨first, _, hfirst, hsite, fun n hn ↦ ?_, fun n hn ↦ ?_⟩
  · rw [hn, guarded, Rewriter.applyTo_collected,
      ProvidedRewriter.materializeLimit?_collected (hbare first hmem)]
    simp
  · rw [hn, guarded, Rewriter.applyTo_count, ProvidedRewriter.countLimit?_count (hbare first hmem)]
    simp

theorem limit_of_first_call : ∃ tree verified, build clockSurface (clockRules 250 20) = .ok tree ∧
    tree.enforce (clockCalls [[.count], [.value, .count]]) = .ok verified ∧
    ∃ site, verified.callSites[clockWait]? = some site ∧ site.countLimit? 0 = some 20 := by
  have hrun : clockRun (clockRules 250 20) [[.count], [.value, .count]] =
      .ok (some (.count 20), some (some (some 20))) := rfl
  obtain ⟨tree, verified, -, hbuild, hrewriter, hok, -⟩ := exists_of_clockRun hrun
  have hmem : { member := clockWait, parameters := [.count] } ∈
      (clockCalls [[.count], [.value, .count]]).references := by simp [clockCalls]
  obtain ⟨first, site, hfirst, hsite, -, hcount⟩ :=
    limit_of_enforce_iff hok (by simp [clockCalls]) hmem 0
  refine ⟨tree, verified, hbuild, hok, site, hsite, (hcount 20 hrewriter).mpr ?_⟩
  cases hfirst
  rfl

/-- A call that waits without a bound, since the first call of the member has a plain
value where the later one has a count. -/
theorem later_call_unguarded : ∃ tree verified,
    build clockSurface (clockRules 250 20) = .ok tree ∧
      tree.enforce (clockCalls [[.value], [.count]]) = .ok verified ∧
      (∀ site ∈ (clockCalls [[.value], [.count]]).references, site.guards = []) ∧
      (tree.resolve clockWait).rewriter? = some (.count 20) ∧
      (∃ reference ∈ (clockCalls [[.value], [.count]]).references,
        reference.member = clockWait ∧ reference.parameters[0]? = some .count) ∧
      ∃ site, verified.callSites[clockWait]? = some site ∧ site.countLimit? 0 = none := by
  have hrun : clockRun (clockRules 250 20) [[.value], [.count]] =
      .ok (some (.count 20), some (some none)) := rfl
  obtain ⟨tree, verified, site, hbuild, hrewriter, hok, hsite, hlimit⟩ := exists_of_clockRun hrun
  refine ⟨tree, verified, hbuild, hok, by simp [clockCalls], hrewriter, ?_, site, hsite, hlimit⟩
  exact ⟨{ member := clockWait, parameters := [.count] }, by simp [clockCalls], rfl, rfl⟩

end PolicyTree

end GuestGate
