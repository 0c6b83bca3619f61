import GuestGate.Proofs.Host.Linking
import GuestGate.Proofs.Policy.Composition
import GuestGate.Proofs.Policy.Providing
import GuestGate.Proofs.Run.Drawing

/-!
# Guards at work

The bound that a policy puts on a host member is the bound that its link enforces when the
guest calls it: the rewriter finds the shape of the parameter, the call site carries the
guard under the member, and the link reads it back at the same position.
-/

namespace GuestGate

/-! ## Bounds of a rewriter -/

namespace PolicyTree

/-- The most items that a rewriter, or none, lets through in a sequence. -/
def itemBound (rewriter : Option ProvidedRewriter) : Nat :=
  (rewriter.bind ProvidedRewriter.itemBound?).getD Rewriter.defaultMaxItems

/-- A rewriter, or none, lets a guest sleep for some milliseconds. -/
def LetsSleep (rewriter : Option ProvidedRewriter) (millis : Int) : Prop :=
  0 ≤ millis ∧ ∀ max ∈ rewriter.bind ProvidedRewriter.countBound?, millis ≤ max

theorem guardFor?_guarded {site : CallSite} (hbare : site.guards = []) {shape : ParamShape}
    (hshape : site.parameters = [shape]) (rewriter : Option ProvidedRewriter) :
    (guarded (rewriter.map ProvidedRewriter.toRewriter) site).guardFor? 0 =
      rewriter.bind (·.guard? 0 shape) := by
  have hnone := CallSite.guardFor?_of_bare hbare 0
  cases rewriter with
  | none => simpa [guarded] using hnone
  | some rewriter => simp [guarded, ProvidedRewriter.guardFor?_applyTo, hnone, hshape]

theorem countLimit?_guarded {site : CallSite} (hbare : site.guards = [])
    (hshape : site.parameters = [.count]) (rewriter : Option ProvidedRewriter) :
    (guarded (rewriter.map ProvidedRewriter.toRewriter) site).countLimit? 0 =
      rewriter.bind ProvidedRewriter.countBound? := by
  rw [CallSite.countLimit?, guardFor?_guarded hbare hshape]
  cases rewriter with
  | none => rfl
  | some rewriter => cases rewriter <;> rfl

theorem materializeLimit?_guarded {site : CallSite} (hbare : site.guards = [])
    (hshape : site.parameters = [.sequence]) (rewriter : Option ProvidedRewriter) :
    ((guarded (rewriter.map ProvidedRewriter.toRewriter) site).materializeLimit? 0).getD
        Rewriter.defaultMaxItems = itemBound rewriter := by
  rw [CallSite.materializeLimit?, guardFor?_guarded hbare hshape]
  cases rewriter with
  | none => rfl
  | some rewriter => cases rewriter <;> rfl

end PolicyTree

/-! ## From the import to the link -/

section Linked

variable {α : Type} {tree : PolicyTree} {module : GuestModule} {streams : α}
  {verified : VerifiedAssembly α} {links : List Link}

/-- The site of a link is the described import after the rewriter of its member. -/
theorem exists_import_of_link (hkeeps : tree.KeepsMembers)
    (haccepted : tree.enforce ⟨streams, module.describeImports⟩ = .ok verified)
    (hlinked : module.Linked verified.callSites links) {link : Link} (hlink : link ∈ links) :
    ∃ i ∈ module.imports, i.member = link.member.ref ∧
      link.site = PolicyTree.guarded (tree.resolve link.member.ref).rewriter? i.callSite := by
  have hkeyed := PolicyTree.keyed_of_enforce hkeeps haccepted
  have hsite := (hlinked.carries_of_keyed hkeyed hlink).2
  rw [(PolicyTree.verified_of_enforce haccepted).2.2] at hsite
  obtain ⟨first, hfirst, hguarded⟩ := Option.map_eq_some_iff.mp hsite
  obtain ⟨hmem, hmember⟩ := mem_of_firstReference? hfirst
  obtain ⟨i, hi, rfl⟩ := List.mem_map.mp hmem
  exact ⟨i, hi, hmember, hguarded.symm⟩

theorem acceptsCount_iff (hkeeps : tree.KeepsMembers)
    (haccepted : tree.enforce ⟨streams, module.describeImports⟩ = .ok verified)
    (hlinked : module.Linked verified.callSites links) {link : Link} (hlink : link ∈ links)
    (hmember : link.member = .sleep) {rewriter : Option ProvidedRewriter}
    (hrewriter : (tree.resolve HostMember.sleep.ref).rewriter? =
      rewriter.map ProvidedRewriter.toRewriter) (count : Int) :
    link.acceptsCount count ↔ PolicyTree.LetsSleep rewriter count := by
  obtain ⟨i, -, href, hsite⟩ := exists_import_of_link hkeeps haccepted hlinked hlink
  have hshape := Import.parameters_callSite href
  rw [hmember] at hsite hshape
  have hlimit := PolicyTree.countLimit?_guarded rfl hshape rewriter
  rw [← hrewriter, ← hsite] at hlimit
  rw [Link.acceptsCount, hlimit, PolicyTree.LetsSleep]
  cases rewriter.bind ProvidedRewriter.countBound? <;> simp

theorem sequenceLimit_eq (hkeeps : tree.KeepsMembers)
    (haccepted : tree.enforce ⟨streams, module.describeImports⟩ = .ok verified)
    (hlinked : module.Linked verified.callSites links) {link : Link} (hlink : link ∈ links)
    {drain : Drain} (hmember : link.member = drain.hostMember)
    {rewriter : Option ProvidedRewriter} (hrewriter : (tree.resolve drain.hostMember.ref).rewriter? =
      rewriter.map ProvidedRewriter.toRewriter) :
    link.sequenceLimit = PolicyTree.itemBound rewriter := by
  obtain ⟨i, -, href, hsite⟩ := exists_import_of_link hkeeps haccepted hlinked hlink
  have hshape := Import.parameters_callSite href
  rw [hmember] at hsite hshape
  have hsequence : drain.hostMember.shapes = [.sequence] := by cases drain <;> rfl
  rw [Link.sequenceLimit, hsite, hrewriter]
  exact PolicyTree.materializeLimit?_guarded rfl (hshape.trans hsequence) rewriter

end Linked

/-! ## Calls -/

theorem Instance.exists_link? {inst : Instance} {link : Link} (h : link ∈ inst.links) :
    ∃ found ∈ inst.links, found.member = link.member ∧ inst.link? link.member = some found := by
  have hsome : (inst.link? link.member).isSome := by
    rw [link?, List.find?_isSome]
    exact ⟨link, h, by simp⟩
  obtain ⟨found, hfound⟩ := Option.isSome_iff_exists.mp hsome
  have hmember : (found.member == link.member) = true :=
    List.find?_some (p := fun other : Link ↦ other.member == link.member) hfound
  exact ⟨found, List.mem_of_find?_eq_some hfound, eq_of_beq hmember, hfound⟩

namespace Machine

variable {inst : Instance} {m : Machine}

/-- A call that is refused because its sequence has too many items. -/
def RefusesItems : Outcome → Prop
  | .halted _ (.rejected (.tooManyItems _)) => True
  | _ => False

def answer (inst : Instance) (m : Machine) (member : Drain) (items : List Int) (silent : Bool) :
    Outcome :=
  match member.result items with
  | .ok n => m.printUnless inst silent n
  | .error halt => .halted (m.failed halt) halt

theorem not_refusesItems_answer (inst : Instance) (m : Machine) (member : Drain)
    (items : List Int) (silent : Bool) : ¬ RefusesItems (m.answer inst member items silent) := by
  have hprint : ∀ n, ¬ RefusesItems (m.printUnless inst silent n) := by
    intro n
    simp only [printUnless, print]
    split
    · exact id
    · split
      · exact id
      · split <;> exact id
  have hcount : ∀ n, ¬ RefusesItems (match countResult n with
      | .ok n => m.printUnless inst silent n
      | .error halt => .halted (m.failed halt) halt) := by
    intro n
    by_cases h : n < 0x80000000
    · simpa [countResult, h] using hprint n
    · simp [countResult, h, RefusesItems]
  cases member with
  | sum =>
      cases h : checkedSum 0 items with
      | some total => simpa [answer, Drain.result, h] using hprint total
      | none => simp [answer, Drain.result, h, RefusesItems]
  | count => exact hcount _
  | createSet => exact hcount _

theorem tick_eq_error {halt : Halt} (h : m.tick inst = .error halt) (rejection : Rejection) :
    halt ≠ .rejected rejection := by
  simp only [tick] at h
  split at h
  · cases h
    simp
  · split at h <;> cases h
    simp

/-- A guest that gives an item can fail, but not as a host member refuses a call. -/
theorem draw_eq_error {sequence : Int} {u : Machine} {halt : Halt}
    (h : m.draw inst sequence = (u, .error halt)) (rejection : Rejection) :
    halt ≠ .rejected rejection := by
  simp only [draw] at h
  split at h
  · next failed =>
      cases h
      exact tick_eq_error failed rejection
  · split at h
    · split at h
      · simp only [give] at h
        split at h
        · cases h
          simp
        · split at h <;> cases h
      · cases h
        simp
    · cases h

/-- A call gets an answer for every sequence within a bound, and is refused for every other
one. -/
structure BoundsItems (inst : Instance) (m : Machine) (member : Drain) (sequence : Int)
    (silent : Bool) (bound : Nat) (outcome : Outcome) : Prop where
  answers : ∀ items u, DrawsAll (draw inst sequence) m items u → items.length ≤ bound →
    outcome = u.answer inst member items silent
  refuses : ∀ items t, Draws (draw inst sequence) m items t → bound < items.length →
    ∃ u : Machine, outcome = u.reject (.tooManyItems bound)
  refused : RefusesItems outcome →
    ∃ items t, Draws (draw inst sequence) m items t ∧ bound < items.length

theorem BoundsItems.not_refusesItems_iff {member : Drain} {sequence : Int} {silent : Bool}
    {bound : Nat} {outcome : Outcome} (h : BoundsItems inst m member sequence silent bound outcome)
    {items : List Int} {u : Machine} (hall : DrawsAll (draw inst sequence) m items u) :
    ¬ RefusesItems outcome ↔ items.length ≤ bound := by
  constructor
  · intro haccepted
    refine Nat.le_of_not_lt fun hmany ↦ haccepted ?_
    obtain ⟨t, hdraws, -⟩ := hall
    obtain ⟨v, hrejected⟩ := h.refuses items t hdraws hmany
    rw [hrejected]
    trivial
  · intro hfew
    rw [h.answers items u hall hfew]
    exact u.not_refusesItems_answer inst member items silent

theorem drain_of_drawn (husable : inst.guest.sequenceExport = .usable) {link : Link}
    {sequence : Int} {items : List Int} {u : Machine}
    (hdrawn : drawAll (draw inst sequence) link.sequenceLimit #[] m = (u, .all items))
    (member : Drain) (silent : Bool) :
    m.drain inst link member sequence silent = u.answer inst member items silent := by
  simp only [drain, compute, husable, hdrawn, answer]
  cases member.result items <;> rfl

theorem boundsItems_drain (husable : inst.guest.sequenceExport = .usable) (m : Machine)
    (link : Link) (member : Drain) (sequence : Int) (silent : Bool) :
    BoundsItems inst m member sequence silent link.sequenceLimit
      (m.drain inst link member sequence silent) where
  answers items u hall hfew := by
    have hdrawn := drawAll_of_drawsAll hall hfew #[]
    rw [List.nil_append] at hdrawn
    exact drain_of_drawn husable hdrawn member silent
  refuses items t hdraws hmany := by
    obtain ⟨u, -, htooMany⟩ := drawAll_of_draws hdraws hmany #[]
    exact ⟨u, by simp only [drain, compute, husable, htooMany, reject]⟩
  refused h := by
    -- of the three ends of drawing only one item too many is refused in this way
    obtain ⟨items, u, hall, -⟩ | ⟨items, u, -, hdraws, hlength⟩ |
      ⟨items, t, u, halt, hfailed, -, hdraw, -⟩ :=
        drawAll_spec (draw inst sequence) link.sequenceLimit #[] m
    · rw [drain_of_drawn husable hall] at h
      exact absurd h (u.not_refusesItems_answer inst member _ silent)
    · exact ⟨items, u, hdraws, hlength ▸ Nat.lt_succ_self _⟩
    · simp only [drain, compute, husable, hfailed] at h
      cases halt with
      | rejected rejection => exact absurd rfl (draw_eq_error hdraw rejection)
      | _ => exact h.elim

end Machine

/-! ## Policy at the call -/

section Calls

variable {α : Type} {tree : PolicyTree} {module : GuestModule} {streams : α}
  {verified : VerifiedAssembly α} {inst : Instance} {link : Link}

/-- A call of `Sleep` waits within the bound of its rewriter and is refused beyond it. -/
theorem perform_sleep_of_linked (hkeeps : tree.KeepsMembers)
    (haccepted : tree.enforce ⟨streams, module.describeImports⟩ = .ok verified)
    (hlinks : module.Linked verified.callSites inst.links) (hlink : link ∈ inst.links)
    (hmember : link.member = .sleep) {rewriter : Option ProvidedRewriter}
    (hrewriter : (tree.resolve HostMember.sleep.ref).rewriter? =
      rewriter.map ProvidedRewriter.toRewriter) (m : Machine) (millis : Int) :
    (PolicyTree.LetsSleep rewriter (wrap32 millis) →
      m.perform inst (.sleep millis) = m.wait inst ((wrap32 millis).toNat * 1000000)) ∧
    (¬ PolicyTree.LetsSleep rewriter (wrap32 millis) →
      m.perform inst (.sleep millis) = m.reject (.sleepOutOfRange (wrap32 millis)) ∧
        (m.perform inst (.sleep millis)).machine.clock = m.clock) := by
  -- a call goes to the first link of its member, which has the bounds of every other one
  obtain ⟨found, hfound, hsame, hcalled⟩ := Instance.exists_link? hlink
  rw [hmember] at hsame hcalled
  have haccepts := acceptsCount_iff hkeeps haccepted hlinks hfound hsame hrewriter (wrap32 millis)
  constructor
  · intro hlets
    simp only [Machine.perform, Machine.call, hcalled, haccepts.mpr hlets, if_true]
  · intro hlets
    have hrefuses : ¬ found.acceptsCount (wrap32 millis) := fun h ↦ hlets (haccepts.mp h)
    have hrejected : m.perform inst (.sleep millis) =
        m.reject (.sleepOutOfRange (wrap32 millis)) := by
      simp only [Machine.perform, Machine.call, hcalled, hrefuses]
      rfl
    refine ⟨hrejected, ?_⟩
    rw [hrejected]
    rfl

/-- A call that draws a sequence has the bound of its rewriter. -/
theorem boundsItems_of_linked (hkeeps : tree.KeepsMembers)
    (haccepted : tree.enforce ⟨streams, module.describeImports⟩ = .ok verified)
    (hlinks : module.Linked verified.callSites inst.links) (hlink : link ∈ inst.links)
    {drain : Drain} (hmember : link.member = drain.hostMember)
    {rewriter : Option ProvidedRewriter} (hrewriter : (tree.resolve drain.hostMember.ref).rewriter? =
      rewriter.map ProvidedRewriter.toRewriter) (husable : inst.guest.sequenceExport = .usable)
    (m : Machine) (sequence : Int) (silent : Bool) :
    Machine.BoundsItems inst m drain (wrap32 sequence) silent (PolicyTree.itemBound rewriter)
      (m.perform inst (.drain drain sequence silent)) := by
  obtain ⟨found, hfound, hsame, hcalled⟩ := Instance.exists_link? hlink
  rw [hmember] at hsame hcalled
  have hperform : m.perform inst (.drain drain sequence silent) =
      m.drain inst found drain (wrap32 sequence) silent := by
    simp only [Machine.perform, Machine.call, hcalled]
  rw [hperform, ← sequenceLimit_eq hkeeps haccepted hlinks hfound hsame hrewriter]
  exact Machine.boundsItems_drain husable m found drain (wrap32 sequence) silent

end Calls

/-- A module that is verified for its own imports meets the bounds of the policy in every
call, if rewriters keep the member of a call.  With a provided rewriter or none, `Sleep`
waits for a time within its bound and does nothing otherwise, and a member that draws a
sequence gets all its items when they are no more than its bound. -/
theorem calls_of_link {α : Type} {tree : PolicyTree} {module : GuestModule} {streams : α}
    {verified : VerifiedAssembly α} {links : List Link} (hkeeps : tree.KeepsMembers)
    (haccepted : tree.enforce ⟨streams, module.describeImports⟩ = .ok verified)
    (hlinked : module.link verified.callSites = .ok links) {inst : Instance}
    (hinst : inst.links = links) (m : Machine) :
    (∀ link ∈ links, link.member = .sleep → ∀ rewriter : Option ProvidedRewriter,
      (tree.resolve HostMember.sleep.ref).rewriter? = rewriter.map ProvidedRewriter.toRewriter →
      ∀ millis, (PolicyTree.LetsSleep rewriter (wrap32 millis) →
        m.perform inst (.sleep millis) = m.wait inst ((wrap32 millis).toNat * 1000000)) ∧
      (¬ PolicyTree.LetsSleep rewriter (wrap32 millis) →
        m.perform inst (.sleep millis) = m.reject (.sleepOutOfRange (wrap32 millis)) ∧
          (m.perform inst (.sleep millis)).machine.clock = m.clock)) ∧
    (∀ link ∈ links, ∀ drain : Drain, link.member = drain.hostMember →
      ∀ rewriter : Option ProvidedRewriter, (tree.resolve drain.hostMember.ref).rewriter? =
        rewriter.map ProvidedRewriter.toRewriter →
      inst.guest.sequenceExport = .usable → ∀ sequence silent,
      Machine.BoundsItems inst m drain (wrap32 sequence) silent (PolicyTree.itemBound rewriter)
          (m.perform inst (.drain drain sequence silent)) ∧
      ∀ items u, DrawsAll (Machine.draw inst (wrap32 sequence)) m items u →
        (¬ Machine.RefusesItems (m.perform inst (.drain drain sequence silent)) ↔
          items.length ≤ PolicyTree.itemBound rewriter)) := by
  have hlinks := GuestModule.linked_of_link hlinked
  subst hinst
  constructor
  · intro link hlink hmember rewriter hrewriter millis
    exact perform_sleep_of_linked hkeeps haccepted hlinks hlink hmember hrewriter m millis
  · intro link hlink drain hmember rewriter hrewriter husable sequence silent
    have hbounds := boundsItems_of_linked hkeeps haccepted hlinks hlink hmember hrewriter husable
      m sequence silent
    exact ⟨hbounds, fun items u hall ↦ hbounds.not_refusesItems_iff hall⟩

def lodger : GuestModule where
  imports := [HostMember.sleep.toImport, HostMember.count.toImport]
  sequences := [⟨.items [7, 7], none⟩]
  sequenceExport := .usable

def lodgerStart : Machine where
  limiter := { ceiling := pageSize }
  output := { limit := 0 }
  flow := { limit := 0 }
  fuel := none
  pages := 0
  elements := 0
  cursors := [0]

/-- Under the default rules a guest may wait for a second but no longer, and may count a
short sequence. -/
theorem calls_of_safeDefaults : ∃ tree verified links,
    PolicyTree.build .bundled PolicyRule.safeDefaults = .ok tree ∧
    tree.enforce ⟨(), lodger.describeImports⟩ = .ok verified ∧
    lodger.link verified.callSites = .ok links ∧
    let inst : Instance := { guest := lodger, links, deadline := 1000000 }
    lodgerStart.perform inst (.sleep 1000) = lodgerStart.wait inst 1000000000 ∧
    lodgerStart.perform inst (.sleep 1001) = lodgerStart.reject (.sleepOutOfRange 1001) ∧
    ¬ Machine.RefusesItems (lodgerStart.perform inst (.drain .count 0 true)) := by
  obtain ⟨tree, verified, sleep, count, hbuild, haccepted, hlinked, hsleep, hcount, hmax, hitems⟩ :
      ∃ tree verified sleep count, PolicyTree.build .bundled PolicyRule.safeDefaults = .ok tree ∧
        tree.enforce ⟨(), lodger.describeImports⟩ = .ok verified ∧
        lodger.link verified.callSites = .ok [count, sleep] ∧
        sleep.member = .sleep ∧ count.member = .count ∧
        (tree.resolve HostMember.sleep.ref).rewriter? = some (.count 1000) ∧
        (tree.resolve Drain.count.hostMember.ref).rewriter? = some (.collected 10000) :=
    ⟨_, _, _, _, rfl, rfl, rfl, rfl, rfl, rfl, rfl⟩
  have hprovided : tree.UsesProvided := PolicyTree.usesProvided_of_build hbuild
    fun rule hrule ↦ PolicyRule.usesProvided_of_mem_bundled (by simp [PolicyRule.bundled, hrule])
  refine ⟨tree, verified, _, hbuild, haccepted, hlinked, ?_⟩
  intro inst
  have hinst : inst.links = [count, sleep] := rfl
  obtain ⟨hwaits, hdraws⟩ :=
    calls_of_link hprovided.keepsMembers haccepted hlinked hinst lodgerStart
  have hsecond := hwaits sleep (by simp) hsleep (some (.count 1000)) hmax
  refine ⟨(hsecond 1000).1 ?_, ((hsecond 1001).2 ?_).1, ?_⟩
  · exact ⟨by decide, by simp [ProvidedRewriter.countBound?, wrap32]⟩
  · rintro ⟨-, hbound⟩
    exact absurd (hbound 1000 rfl) (by decide)
  · have hall : DrawsAll (Machine.draw inst 0) lodgerStart [7, 7]
        { lodgerStart with clock := 15, cursors := [2] } :=
      ⟨_, .cons rfl (by decide) (.cons rfl (by decide) (.nil _)), rfl⟩
    have hcounts := (hdraws count (by simp) .count hcount (some (.collected 10000)) hitems rfl 0
      true).2 _ _ hall
    exact hcounts.mpr (by decide)

end GuestGate
