import GuestGate.Host.Linking
import GuestGate.Proofs.Host.Naming
import GuestGate.Proofs.Policy.Enforcement

/-!
# What a module is linked to

Linking ends in one of three ways: an import was never verified, a verified call site
cannot be linked, or the call sites of all imports are linked.  Where rewriters keep the
member of a call, only an import that is no host member cannot be linked.
-/

namespace GuestGate

/-! ## First occurrences -/

/-- Without repeats the elements of a list stand in the order of their first occurrences. -/
theorem pairwise_idxOf_eraseDups_filter {α : Type} [BEq α] [LawfulBEq α] (p : α → Bool)
    (l : List α) : (l.filter p).eraseDups.Pairwise fun a b ↦ l.idxOf a < l.idxOf b := by
  induction l generalizing p with
  | nil => simp
  | cons c rest ih =>
      have hshift : ∀ a, a ≠ c → (c :: rest).idxOf a = rest.idxOf a + 1 := by
        intro a ha
        simp [List.idxOf_cons, beq_false_of_ne (Ne.symm ha)]
      by_cases hc : p c
      · rw [List.filter_cons_of_pos hc, List.eraseDups_cons, List.filter_filter]
        have hne : ∀ a ∈ (rest.filter fun a ↦ !a == c && p a).eraseDups, a ≠ c := by
          intro a ha
          have hmem := List.mem_eraseDups.mp ha
          simp only [List.mem_filter, Bool.and_eq_true, Bool.not_eq_true', beq_eq_false_iff_ne]
            at hmem
          exact hmem.2.1
        refine List.pairwise_cons.mpr ⟨fun a ha ↦ ?_, ?_⟩
        · rw [List.idxOf_cons_self, hshift a (hne a ha)]
          exact Nat.succ_pos _
        · refine (ih _).imp_of_mem fun {a b} ha hb hlt ↦ ?_
          rw [hshift a (hne a ha), hshift b (hne b hb)]
          exact Nat.succ_lt_succ hlt
      · rw [List.filter_cons_of_neg hc]
        have hne : ∀ a ∈ (rest.filter p).eraseDups, a ≠ c := by
          intro a ha heq
          have hmem := List.mem_eraseDups.mp ha
          exact hc (heq ▸ (List.mem_filter.mp hmem).2)
        refine (ih p).imp_of_mem fun {a b} ha hb hlt ↦ ?_
        rw [hshift a (hne a ha), hshift b (hne b hb)]
        exact Nat.succ_lt_succ hlt

/-! ## Verified call sites -/

/-- Every call site stands under its own member. -/
def CallSiteMap.Keyed (sites : CallSiteMap) : Prop :=
  ∀ (m : MemberRef) site, sites[m]? = some site → site.member = m

namespace PolicyTree

variable {α : Type} {tree : PolicyTree} {assembly : Assembly α} {verified : VerifiedAssembly α}

theorem keyed_of_enforce (hkeeps : tree.KeepsMembers)
    (h : tree.enforce assembly = .ok verified) : CallSiteMap.Keyed verified.callSites := by
  intro m site hsite
  rw [(verified_of_enforce h).2.2] at hsite
  obtain ⟨first, hfirst, rfl⟩ := Option.map_eq_some_iff.mp hsite
  exact hkeeps.member_guarded (mem_of_firstReference? hfirst).2

/-- The members without a verified call site are those that no reference is about. -/
theorem callSites_eq_none_iff (h : tree.enforce assembly = .ok verified) {m : MemberRef} :
    verified.callSites[m]? = none ↔ ∀ site ∈ assembly.references, site.member ≠ m := by
  rw [(verified_of_enforce h).2.2, Option.map_eq_none_iff, firstReference?, List.find?_eq_none]
  simp

theorem isAllowed_of_callSites (h : tree.enforce assembly = .ok verified) {m : MemberRef}
    {site : CallSite} (hsite : verified.callSites[m]? = some site) :
    (tree.resolve m).isAllowed := by
  rw [(verified_of_enforce h).2.2] at hsite
  obtain ⟨first, hfirst, -⟩ := Option.map_eq_some_iff.mp hsite
  obtain ⟨hmem, rfl⟩ := mem_of_firstReference? hfirst
  exact exists_enforce_eq_ok_iff.mp ⟨verified, h⟩ first hmem

end PolicyTree

/-! ## Links -/

namespace GuestModule

variable {m : GuestModule} {sites : CallSiteMap}

theorem mem_importedMembers {member : MemberRef} :
    member ∈ m.importedMembers ↔ ∃ i ∈ m.imports, i.member = member := by
  simp [importedMembers]

theorem mem_unverified {member : MemberRef} :
    member ∈ m.unverified sites ↔ member ∈ m.importedMembers ∧ sites[member]? = none := by
  have habsent : (!sites.contains member) = true ↔ sites[member]? = none := by
    rw [Std.TreeMap.contains_eq_isSome_getElem?]
    cases sites[member]? <;> simp
  rw [unverified, List.mem_eraseDups, List.mem_filter, habsent]

theorem pairwise_unverified : (m.unverified sites).Pairwise fun a b ↦
    m.importedMembers.idxOf a < m.importedMembers.idxOf b :=
  pairwise_idxOf_eraseDups_filter _ _

theorem mem_importedSites {site : CallSite} :
    site ∈ m.importedSites sites ↔ ∃ member ∈ m.importedMembers, sites[member]? = some site := by
  simp only [importedSites, List.mem_map, List.mem_filter, Prod.exists,
    Std.TreeMap.mem_toList_iff_getElem?_eq_some, List.contains_iff_mem, exists_eq_right]
  constructor
  · rintro ⟨member, hsite, hmem⟩
    exact ⟨member, hmem, hsite⟩
  · rintro ⟨member, hmem, hsite⟩
    exact ⟨member, hsite, hmem⟩

theorem exists_of_verified (hverified : m.unverified sites = []) {i : Import}
    (hi : i ∈ m.imports) : ∃ site, sites[i.member]? = some site := by
  apply Option.ne_none_iff_exists'.mp
  intro hnone
  have hleft := mem_unverified.mpr ⟨mem_importedMembers.mpr ⟨i, hi, rfl⟩, hnone⟩
  rw [hverified] at hleft
  exact List.not_mem_nil hleft

/-- Links are in place for a module: each carries the verified call site of an imported
member, and stands for the host member that this names, and no import is left without its
call site being linked. -/
structure Linked (m : GuestModule) (sites : CallSiteMap) (links : List Link) : Prop where
  carries : ∀ link ∈ links, HostMember.ofMember? link.site.member = some link.member ∧
    ∃ i ∈ m.imports, sites[i.member]? = some link.site
  complete : ∀ i ∈ m.imports, ∃ link ∈ links, sites[i.member]? = some link.site

/-- Where call sites stand under their own members, a link is for the member of its import. -/
theorem Linked.carries_of_keyed {links : List Link} (h : m.Linked sites links)
    (hkeyed : sites.Keyed) {link : Link} (hlink : link ∈ links) :
    (∃ i ∈ m.imports, i.member = link.member.ref) ∧ sites[link.member.ref]? = some link.site := by
  obtain ⟨hmember, i, hi, hsite⟩ := h.carries link hlink
  rw [hkeyed _ _ hsite] at hmember
  have href := Import.ofMember?_eq_some_iff.mp hmember
  exact ⟨⟨i, hi, href⟩, href ▸ hsite⟩

theorem Linked.complete_of_keyed {links : List Link} (h : m.Linked sites links)
    (hkeyed : sites.Keyed) {i : Import} (hi : i ∈ m.imports) :
    ∃ link ∈ links, i.member = link.member.ref := by
  obtain ⟨link, hlink, hsite⟩ := h.complete i hi
  have hmember := (h.carries link hlink).1
  rw [hkeyed _ _ hsite] at hmember
  exact ⟨link, hlink, Import.ofMember?_eq_some_iff.mp hmember⟩

end GuestModule

/-! ## One link after another -/

/-- Linking a call site adds a link for the host member that it names, unless there is no such
member or it is linked already. -/
theorem linkNext_cases (links : List Link) (site : CallSite) :
    (HostMember.ofMember? site.member = none ∧
        linkNext links site = .error (.moduleLoad (.unimplemented site.member))) ∨
      ∃ member, HostMember.ofMember? site.member = some member ∧
        ((∃ link ∈ links, link.member = member) ∧
            linkNext links site = .error (.moduleLoad (.definedTwice site.member)) ∨
          (∀ link ∈ links, link.member ≠ member) ∧
            linkNext links site = .ok (links ++ [⟨member, site⟩])) := by
  cases hof : HostMember.ofMember? site.member with
  | none => exact .inl ⟨rfl, by simp [linkNext, hof]⟩
  | some member =>
      refine .inr ⟨member, rfl, ?_⟩
      by_cases hthere : ∃ link ∈ links, link.member = member
      · exact .inl ⟨hthere, by simp [linkNext, hof, hthere]⟩
      · refine .inr ⟨fun link hlink heq ↦ hthere ⟨link, hlink, heq⟩, ?_⟩
        have hnone : (links.any fun link ↦ link.member == member) = false := by
          simpa using hthere
        simp [linkNext, hof, hnone]

/-- The links so far are those of the call sites so far. -/
structure LinkedSoFar (done : List CallSite) (links : List Link) : Prop where
  carries : ∀ link ∈ links, HostMember.ofMember? link.site.member = some link.member ∧
    link.site ∈ done
  complete : ∀ site ∈ done, ∃ link ∈ links, link.site = site

theorem LinkedSoFar.linkNext {done : List CallSite} {links new : List Link} {site : CallSite}
    (h : LinkedSoFar done links) (hnew : linkNext links site = .ok new) :
    LinkedSoFar (done ++ [site]) new := by
  obtain ⟨-, herror⟩ | ⟨member, hof, ⟨-, herror⟩ | ⟨-, hok⟩⟩ := linkNext_cases links site
  · rw [herror] at hnew
    cases hnew
  · rw [herror] at hnew
    cases hnew
  · rw [hok] at hnew
    cases hnew
    constructor
    · intro link hlink
      rcases List.mem_append.mp hlink with hold | hlast
      · exact ⟨(h.carries link hold).1, List.mem_append_left _ (h.carries link hold).2⟩
      · obtain rfl := List.mem_singleton.mp hlast
        exact ⟨hof, by simp⟩
    · intro other hother
      rcases List.mem_append.mp hother with hold | hlast
      · obtain ⟨link, hlink, hcarried⟩ := h.complete other hold
        exact ⟨link, List.mem_append_left _ hlink, hcarried⟩
      · exact ⟨⟨member, site⟩, by simp, (List.mem_singleton.mp hlast).symm⟩

theorem exists_fault_of_foldlM {sites : List CallSite} {links : List Link} {failure : Failure}
    (h : sites.foldlM linkNext links = .error failure) :
    ∃ fault, failure = .moduleLoad fault := by
  induction sites generalizing links with
  | nil => cases h
  | cons site rest ih =>
      rw [List.foldlM_cons, bind_eq_error_iff] at h
      obtain herror | ⟨next, -, hrest⟩ := h
      · obtain ⟨-, hfault⟩ | ⟨_, -, ⟨-, hfault⟩ | ⟨-, hok⟩⟩ := linkNext_cases links site
        · rw [hfault] at herror
          cases herror
          exact ⟨_, rfl⟩
        · rw [hfault] at herror
          cases herror
          exact ⟨_, rfl⟩
        · rw [hok] at herror
          cases herror
      · exact ih hrest

/-- Call sites of different imported members that cannot all be linked: one is of no host
member. -/
theorem exists_unimplemented_of_foldlM {sites : List CallSite} {links : List Link}
    {failure : Failure} (himported : ∀ site ∈ sites, ∃ i : Import, i.member = site.member)
    (hnodup : (sites.map CallSite.member).Nodup)
    (hfresh : ∀ link ∈ links, ∀ site ∈ sites, link.member.ref ≠ site.member)
    (h : sites.foldlM linkNext links = .error failure) :
    ∃ site ∈ sites, HostMember.ofMember? site.member = none ∧
      failure = .moduleLoad (.unimplemented site.member) := by
  induction sites generalizing links with
  | nil => cases h
  | cons site rest ih =>
      obtain ⟨i, hi⟩ := himported site (by simp)
      have href {member : HostMember} (hof : HostMember.ofMember? site.member = some member) :
          site.member = member.ref := by
        rw [← hi] at hof ⊢
        exact Import.ofMember?_eq_some_iff.mp hof
      rw [List.map_cons, List.nodup_cons] at hnodup
      rw [List.foldlM_cons] at h
      obtain ⟨hnone, herror⟩ | ⟨member, hof, ⟨⟨link, hlink, rfl⟩, -⟩ | ⟨-, hok⟩⟩ :=
        linkNext_cases links site
      · rw [herror] at h
        cases h
        exact ⟨site, by simp, hnone, rfl⟩
      · exact absurd (href hof).symm (hfresh link hlink site (by simp))
      · rw [hok] at h
        have hlater : ∀ link ∈ links ++ [⟨member, site⟩], ∀ other ∈ rest,
            link.member.ref ≠ other.member := by
          intro link hlink other hother
          rcases List.mem_append.mp hlink with hold | hlast
          · exact hfresh link hold other (List.mem_cons_of_mem _ hother)
          · obtain rfl := List.mem_singleton.mp hlast
            rw [← href hof]
            exact fun heq ↦ hnodup.1 (heq ▸ List.mem_map_of_mem hother)
        obtain ⟨found, hfound, hnone⟩ :=
          ih (fun other hother ↦ himported other (List.mem_cons_of_mem _ hother)) hnodup.2 hlater h
        exact ⟨found, List.mem_cons_of_mem _ hfound, hnone⟩

namespace GuestModule

variable {m : GuestModule} {sites : CallSiteMap}

/-- Under their own members no two call sites have the same one. -/
theorem nodup_importedSites (hkeyed : sites.Keyed) :
    ((m.importedSites sites).map CallSite.member).Nodup := by
  have hkeys : (m.importedSites sites).map CallSite.member =
      (sites.toList.filter fun entry ↦ m.importedMembers.contains entry.1).map Prod.fst := by
    rw [importedSites, List.map_map]
    refine List.map_congr_left fun entry hentry ↦ ?_
    have hmem := (List.mem_filter.mp hentry).1
    exact hkeyed _ _ (Std.TreeMap.mem_toList_iff_getElem?_eq_some.mp hmem)
  rw [hkeys]
  refine List.Nodup.sublist (List.filter_sublist.map Prod.fst) ?_
  have hdistinct := Std.TreeMap.distinct_keys_toList (t := sites)
  refine List.pairwise_map.mpr (hdistinct.imp fun {a b} hne heq ↦ hne ?_)
  rw [heq]
  exact Std.ReflCmp.compare_self

theorem linked_of_foldlM (hverified : m.unverified sites = []) {links : List Link}
    (h : (m.importedSites sites).foldlM linkNext [] = .ok links) : m.Linked sites links := by
  have hsofar : LinkedSoFar ([] ++ m.importedSites sites) links :=
    foldlM_keeps LinkedSoFar (fun _ _ _ _ ↦ LinkedSoFar.linkNext) ⟨by simp, by simp⟩ h
  rw [List.nil_append] at hsofar
  constructor
  · intro link hlink
    obtain ⟨hmember, hsite⟩ := hsofar.carries link hlink
    obtain ⟨member, himported, hfound⟩ := mem_importedSites.mp hsite
    obtain ⟨i, hi, rfl⟩ := mem_importedMembers.mp himported
    exact ⟨hmember, i, hi, hfound⟩
  · intro i hi
    obtain ⟨site, hfound⟩ := exists_of_verified hverified hi
    have himported : i.member ∈ m.importedMembers := mem_importedMembers.mpr ⟨i, hi, rfl⟩
    obtain ⟨link, hlink, rfl⟩ := hsofar.complete site (mem_importedSites.mpr ⟨_, himported, hfound⟩)
    exact ⟨link, hlink, hfound⟩

/-- The three ends of linking, in the order in which they are looked for. -/
theorem link_cases (m : GuestModule) (sites : CallSiteMap) :
    (m.unverified sites ≠ [] ∧ m.link sites =
        .error (.policyViolation ((m.unverified sites).map fun member ↦ ⟨member, none⟩))) ∨
      (m.unverified sites = [] ∧ ∃ fault, m.link sites = .error (.moduleLoad fault)) ∨
      (m.unverified sites = [] ∧ ∃ links, m.Linked sites links ∧ m.link sites = .ok links) := by
  by_cases hverified : m.unverified sites = []
  · have hlink : m.link sites = (m.importedSites sites).foldlM linkNext [] := by
      simp [GuestModule.link, hverified]
    cases hfold : (m.importedSites sites).foldlM linkNext [] with
    | ok links =>
        exact .inr (.inr ⟨hverified, links, linked_of_foldlM hverified hfold, hlink.trans hfold⟩)
    | error failure =>
        obtain ⟨fault, rfl⟩ := exists_fault_of_foldlM hfold
        exact .inr (.inl ⟨hverified, fault, hlink.trans hfold⟩)
  · exact .inl ⟨hverified, by simp [GuestModule.link, hverified]⟩

theorem linked_of_link {links : List Link} (h : m.link sites = .ok links) :
    m.Linked sites links := by
  obtain ⟨-, herror⟩ | ⟨-, _, herror⟩ | ⟨-, found, hlinked, hok⟩ := link_cases m sites
  · rw [herror] at h
    cases h
  · rw [herror] at h
    cases h
  · rw [hok] at h
    cases h
    exact hlinked

/-- Where call sites stand under their own members, linking fails only for an import that is no
host member. -/
theorem unimplemented_of_link (hkeyed : sites.Keyed) {fault : LoadFault}
    (h : m.link sites = .error (.moduleLoad fault)) :
    ∃ i ∈ m.imports, HostMember.ofMember? i.member = none ∧ fault = .unimplemented i.member := by
  by_cases hverified : m.unverified sites = []
  · have hfold : (m.importedSites sites).foldlM linkNext [] = .error (.moduleLoad fault) := by
      simpa [GuestModule.link, hverified] using h
    have himported : ∀ site ∈ m.importedSites sites, ∃ i ∈ m.imports, i.member = site.member := by
      intro site hsite
      obtain ⟨member, himported, hfound⟩ := mem_importedSites.mp hsite
      obtain ⟨i, hi, rfl⟩ := mem_importedMembers.mp himported
      exact ⟨i, hi, (hkeyed _ _ hfound).symm⟩
    obtain ⟨site, hsite, hnone, hfault⟩ := exists_unimplemented_of_foldlM
      (fun site hsite ↦ (himported site hsite).imp fun _ ↦ And.right)
      (nodup_importedSites hkeyed) (by simp) hfold
    obtain ⟨i, hi, hmember⟩ := himported site hsite
    cases hfault
    exact ⟨i, hi, hmember ▸ hnone, by rw [hmember]⟩
  · simp [GuestModule.link, hverified] at h

end GuestModule

end GuestGate
