import GuestGate.Proofs.Policy.Enforcement
import GuestGate.Request.Update

/-!
# The stages of a request

Six checks stand between a request and its delivery.  The first of them that stops the
request decides how it fails, and what lies behind it has no part in the answer.  A request that
none of them stops ends with the host or with a backend, or with the failure that says which of
them is missing.
-/

namespace GuestGate

/-- The checks of a request, in their order. -/
inductive Stage
  | opened
  | supported
  | compiled
  | resumed
  | enforced
  | released
deriving DecidableEq

namespace Stage

def rank : Stage → Nat
  | opened => 0
  | supported => 1
  | compiled => 2
  | resumed => 3
  | enforced => 4
  | released => 5

def failureKind : Stage → FailureKind
  | opened | resumed | released => .cancelled
  | supported => .notSupported
  | compiled => .compilation
  | enforced => .policyViolation

/-- What stops a request.  The later stages look at what the compiler made of it. -/
def Stops (p : Pipeline) (session : Session) (host : Option Host) (signal : CancelSignal) :
    Stage → Prop
  | opened => session.cancelled ∨ signal.atStart
  | supported => ∃ c ∈ session.constructs, ¬ c.supportedBy session.effectiveTarget
  | compiled => (p.compiler session host).2.assembly = none ∨
      ∃ d ∈ (p.compiler session host).2.diagnostics,
        d.isError ∧ d.id ∉ session.options.suppressed
  | resumed => (p.compiler session host).2.cancelled ∨ signal.afterCompile
  | enforced => ∃ assembly, (p.compiler session host).2.assembly = some assembly ∧
      ∃ site ∈ assembly.references, ¬ (p.policy.resolve site.member).isAllowed
  | released => signal.afterEnforce

/-- The failure of a request that is stopped at a stage. -/
inductive FailsWith (p : Pipeline) (session : Session) (host : Option Host) :
    Stage → Failure → Prop
  | opened : FailsWith p session host .opened .cancelled
  | supported {before after : List Construct} {c : Construct}
      (hconstructs : session.constructs = before ++ c :: after)
      (hbefore : ∀ b ∈ before, b.supportedBy session.effectiveTarget)
      (hrefused : ¬ c.supportedBy session.effectiveTarget) :
      FailsWith p session host .supported (.notSupported c.render session.effectiveTarget)
  | compiled : FailsWith p session host .compiled (.compilation
      ((p.compiler session host).2.diagnostics.filter fun d ↦
        d.isError && !session.options.suppressed.contains d.id))
  | resumed : FailsWith p session host .resumed .cancelled
  | enforced {assembly : Assembly Streams} {violations : List Violation}
      (hassembly : (p.compiler session host).2.assembly = some assembly)
      (henforce : p.policy.enforce assembly = .error (.policyViolation violations)) :
      FailsWith p session host .enforced (.policyViolation violations)
  | released : FailsWith p session host .released .cancelled

theorem FailsWith.kind_eq {p : Pipeline} {session : Session} {host : Option Host} {stage : Stage}
    {failure : Failure} (h : FailsWith p session host stage failure) :
    failure.kind = stage.failureKind := by
  cases h <;> rfl

/-- In front of the compiler no failure has anything to add to the diagnostics. -/
theorem FailsWith.diagnostics_eq_nil {p : Pipeline} {session : Session} {host : Option Host}
    {stage : Stage} {failure : Failure} (h : FailsWith p session host stage failure)
    (hrank : stage.rank ≤ Stage.supported.rank) : failure.diagnostics = [] := by
  cases h with
  | enforced _ _ => exact absurd hrank (by decide)
  | _ => rfl

/-- A stage stops a request that has passed all stages in front of it. -/
def StopsFirst (p : Pipeline) (session : Session) (host : Option Host) (signal : CancelSignal)
    (stage : Stage) : Prop :=
  Stops p session host signal stage ∧
    ∀ earlier : Stage, earlier.rank < stage.rank → ¬ Stops p session host signal earlier

theorem exists_stopsFirst {p : Pipeline} {session : Session} {host : Option Host}
    {signal : CancelSignal} {stage : Stage} (h : Stops p session host signal stage) :
    ∃ first, StopsFirst p session host signal first := by
  induction hrank : stage.rank using Nat.strongRecOn generalizing stage with
  | ind n ih =>
      by_cases hearlier : ∃ earlier : Stage, earlier.rank < stage.rank ∧
          Stops p session host signal earlier
      · obtain ⟨earlier, hlt, hstops⟩ := hearlier
        exact ih earlier.rank (hrank ▸ hlt) hstops rfl
      · exact ⟨stage, h, fun earlier hlt hstops ↦ hearlier ⟨earlier, hlt, hstops⟩⟩

theorem StopsFirst.unique {p : Pipeline} {session : Session} {host : Option Host}
    {signal : CancelSignal} {a b : Stage} (ha : StopsFirst p session host signal a)
    (hb : StopsFirst p session host signal b) : a = b := by
  have hrank : a.rank = b.rank := by
    apply Nat.le_antisymm
    · exact Nat.le_of_not_lt fun hlt ↦ ha.2 b hlt hb.1
    · exact Nat.le_of_not_lt fun hlt ↦ hb.2 a hlt ha.1
  cases a <;> cases b <;> first | rfl | cases hrank

end Stage

/-! ## Opening a session -/

namespace Session

variable {session : Session}

theorem admit_of_cancelled (h : session.cancelled) : session.admit = .error .cancelled := by
  unfold Session.admit
  simp [h]

theorem admit_of_unsupported (hopen : ¬ session.cancelled)
    (h : ∃ c ∈ session.constructs, ¬ c.supportedBy session.effectiveTarget) :
    ∃ before c after, session.constructs = before ++ c :: after ∧
      (∀ b ∈ before, b.supportedBy session.effectiveTarget) ∧
      ¬ c.supportedBy session.effectiveTarget ∧
      session.admit = .error (.notSupported c.render session.effectiveTarget) := by
  have hsome : session.unsupported?.isSome := by
    rw [unsupported?, List.find?_isSome]
    simpa using h
  obtain ⟨c, hc⟩ := Option.isSome_iff_exists.mp hsome
  have hadmit : session.admit = .error (.notSupported c.render session.effectiveTarget) := by
    unfold Session.admit
    simp [hopen, hc]
  rw [unsupported?, List.find?_eq_some_iff_append] at hc
  obtain ⟨hrefused, before, after, hconstructs, hbefore⟩ := hc
  exact ⟨before, c, after, hconstructs, by simpa using hbefore, by simpa using hrefused, hadmit⟩

theorem admit_of_supported (hopen : ¬ session.cancelled)
    (h : ¬ ∃ c ∈ session.constructs, ¬ c.supportedBy session.effectiveTarget) :
    session.admit = .ok () := by
  have hnone : session.unsupported? = none := by
    rw [unsupported?, List.find?_eq_none]
    simpa using h
  unfold Session.admit
  simp [hopen, hnone]

def signalled (session : Session) (signal : CancelSignal) : Session :=
  { session with cancelled := session.cancelled || signal.atStart }

theorem signalled_eq_self {signal : CancelSignal} (h : ¬ (session.cancelled ∨ signal.atStart)) :
    session.signalled signal = session := by
  obtain ⟨hsession, hsignal⟩ := not_or.mp h
  simp [signalled, hsignal]

end Session

/-! ## Accepting a compilation -/

namespace Compilation

variable {compilation : Compilation} {session : Session}

theorem errors_eq_nil_iff : (compilation.reported session).filter Diagnostic.isError = [] ↔
    ¬ ∃ d ∈ compilation.diagnostics, d.isError ∧ d.id ∉ session.options.suppressed := by
  simp only [reported, List.filter_eq_nil_iff, List.mem_filter]
  grind

theorem accept_eq_error (h : compilation.assembly = none ∨
    ∃ d ∈ compilation.diagnostics, d.isError ∧ d.id ∉ session.options.suppressed) :
    compilation.accept session =
      .error (.compilation ((compilation.reported session).filter Diagnostic.isError)) := by
  cases hassembly : compilation.assembly with
  | none => simp [accept, hassembly]
  | some assembly =>
      obtain hnone | herror := h
      · rw [hassembly] at hnone
        cases hnone
      · cases herrors : (compilation.reported session).filter Diagnostic.isError with
        | nil => exact absurd herror (errors_eq_nil_iff.mp herrors)
        | cons d rest => simp [accept, hassembly, herrors]

theorem accept_eq_ok (h : ¬ (compilation.assembly = none ∨
    ∃ d ∈ compilation.diagnostics, d.isError ∧ d.id ∉ session.options.suppressed)) :
    ∃ assembly, compilation.assembly = some assembly ∧
      compilation.accept session = .ok assembly := by
  obtain ⟨hsome, hclean⟩ := not_or.mp h
  obtain ⟨assembly, hassembly⟩ := Option.ne_none_iff_exists'.mp hsome
  have herrors := errors_eq_nil_iff.mpr hclean
  exact ⟨assembly, hassembly, by simp [accept, hassembly, herrors]⟩

end Compilation

/-! ## Stage by stage -/

namespace Pipeline

open Stage

variable {p : Pipeline} {session : Session} {host : Option Host} {signal : CancelSignal}

theorem verify_of_compiled
    (h : ¬ Stops p session host signal .compiled) :
    ∃ assembly, (p.compiler session host).2.assembly = some assembly ∧
      p.verify session (p.compiler session host).2 signal =
      if (p.compiler session host).2.cancelled || signal.afterCompile then .error .cancelled
      else (p.policy.enforce assembly).bind fun verified ↦
        if signal.afterEnforce then .error .cancelled else .ok verified := by
  obtain ⟨assembly, hassembly, haccept⟩ := Compilation.accept_eq_ok h
  refine ⟨assembly, hassembly, ?_⟩
  simp only [verify, haccept, bind, Except.bind]

theorem verify_of_resumed (hcompiled : ¬ Stops p session host signal .compiled)
    (hresumed : ¬ Stops p session host signal .resumed) :
    ∃ assembly, (p.compiler session host).2.assembly = some assembly ∧
      p.verify session (p.compiler session host).2 signal =
      (p.policy.enforce assembly).bind fun verified ↦
        if signal.afterEnforce then .error .cancelled else .ok verified := by
  obtain ⟨assembly, hassembly, hverify⟩ := verify_of_compiled hcompiled
  obtain ⟨hcompilation, hsignal⟩ := not_or.mp hresumed
  refine ⟨assembly, hassembly, ?_⟩
  rw [hverify]
  simp [hcompilation, hsignal]

theorem verify_of_enforced (hcompiled : ¬ Stops p session host signal .compiled)
    (hresumed : ¬ Stops p session host signal .resumed)
    (henforced : ¬ Stops p session host signal .enforced) :
    ∃ assembly verified, (p.compiler session host).2.assembly = some assembly ∧
      p.policy.enforce assembly = .ok verified ∧
      p.verify session (p.compiler session host).2 signal =
        if signal.afterEnforce then .error .cancelled else .ok verified := by
  obtain ⟨assembly, hassembly, hverify⟩ := verify_of_resumed hcompiled hresumed
  have hallowed : ∀ site ∈ assembly.references, (p.policy.resolve site.member).isAllowed := by
    intro site hsite
    cases hsome : (p.policy.resolve site.member).isAllowed with
    | true => rfl
    | false => exact absurd ⟨assembly, hassembly, site, hsite, by simp [hsome]⟩ henforced
  obtain ⟨verified, henforce⟩ := PolicyTree.exists_enforce_eq_ok_iff.mpr hallowed
  refine ⟨assembly, verified, hassembly, henforce, ?_⟩
  rw [hverify, henforce]
  rfl

/-- Behind the compiler a request fails at the first stage that stops it, with the failure of that
stage. -/
theorem verify_of_stopsFirst {stage : Stage}
    (h : StopsFirst p session host signal stage)
    (hrank : Stage.supported.rank < stage.rank) :
    ∃ failure, p.verify session (p.compiler session host).2 signal = .error failure ∧
      FailsWith p session host stage failure := by
  obtain ⟨hstops, hearlier⟩ := h
  cases stage with
  | opened => exact absurd hrank (by decide)
  | supported => exact absurd hrank (by decide)
  | compiled =>
      have haccept := Compilation.accept_eq_error hstops
      rw [Compilation.reported, List.filter_filter] at haccept
      exact ⟨_, by simp only [verify, haccept, bind, Except.bind], .compiled⟩
  | resumed =>
      obtain ⟨assembly, -, hverify⟩ := verify_of_compiled (hearlier .compiled (by decide))
      have hcancelled : ((p.compiler session host).2.cancelled || signal.afterCompile) = true :=
        Bool.or_eq_true_iff.mpr hstops
      exact ⟨.cancelled, by rw [hverify, hcancelled]; rfl, .resumed⟩
  | enforced =>
      obtain ⟨assembly, hassembly, hverify⟩ :=
        verify_of_resumed (hearlier .compiled (by decide)) (hearlier .resumed (by decide))
      obtain ⟨other, hother, site, hsite, hdenied⟩ := hstops
      rw [hassembly] at hother
      cases hother
      cases henforce : p.policy.enforce assembly with
      | ok verified =>
          have hallowed := PolicyTree.exists_enforce_eq_ok_iff.mp ⟨verified, henforce⟩
          exact absurd (hallowed site hsite) hdenied
      | error failure =>
          obtain ⟨violations, rfl, -⟩ := PolicyTree.violations_of_enforce henforce
          exact ⟨_, by rw [hverify, henforce]; rfl, .enforced hassembly henforce⟩
  | released =>
      obtain ⟨assembly, verified, -, -, hverify⟩ := verify_of_enforced
        (hearlier .compiled (by decide)) (hearlier .resumed (by decide))
        (hearlier .enforced (by decide))
      have hcancelled : signal.afterEnforce = true := hstops
      exact ⟨.cancelled, by rw [hverify, hcancelled]; rfl, .released⟩

/-! ## The whole request -/

/-! The answers to requests that do not reach the compiler, that go no further than the
compiler, and whose program is delivered. -/

def turnedAway (session : Session) (host : Option Host) (signal : CancelSignal)
    (failure : Failure) : Update where
  result := .ofOutcome [] (.error failure)
  outcome := .error failure
  calls := []
  session := session.signalled signal
  host := host

def heldBack (p : Pipeline) (session : Session) (host : Option Host) (signal : CancelSignal)
    (failure : Failure) : Update where
  result := .ofOutcome ((p.compiler session host).2.reported session) (.error failure)
  outcome := .error failure
  calls := [.compiler]
  session :=
    { session with
      cancelled := (p.compiler session host).2.cancelled || signal.afterCompile ||
        signal.afterEnforce }
  host := (p.compiler session host).1

def handedOver (p : Pipeline) (session : Session) (host : Option Host) (signal : CancelSignal)
    (delivered : Delivered) : Update where
  result := .ofOutcome ((p.compiler session host).2.reported session) delivered.outcome
  outcome := delivered.outcome
  calls := .compiler :: delivered.calls
  session :=
    { session with
      cancelled := (p.compiler session host).2.cancelled || signal.afterCompile ||
        signal.afterEnforce || delivered.cancelled }
  host := delivered.host

theorem update_of_admit_error {failure : Failure}
    (h : Session.admit (session.signalled signal) = .error failure) :
    p.update session host signal = turnedAway session host signal failure := by
  rw [Session.signalled] at h
  simp only [update, h]
  rfl

theorem update_of_verify_error (hready : session.admit = .ok ())
    (hself : session.signalled signal = session) {failure : Failure}
    (hverify : p.verify session (p.compiler session host).2 signal = .error failure) :
    p.update session host signal = p.heldBack session host signal failure := by
  rw [Session.signalled] at hself
  simp only [update, hself, hready, proceed, hverify, Bool.or_false]
  rfl

theorem update_of_verify_ok (hready : session.admit = .ok ())
    (hself : session.signalled signal = session) {verified : VerifiedAssembly Streams}
    (hverify : p.verify session (p.compiler session host).2 signal = .ok verified) :
    p.update session host signal = p.handedOver session host signal
      (p.deliver session (p.compiler session host).1 verified signal) := by
  rw [Session.signalled] at hself
  simp only [update, hself, hready, proceed, hverify]
  rfl

/-- A request that is stopped in front of the compiler has the same answer with any compiler. -/
theorem update_of_stopsFirst_early {stage : Stage} (h : StopsFirst p session host signal stage)
    (hrank : stage.rank ≤ Stage.supported.rank) :
    ∃ failure, FailsWith p session host stage failure ∧ ∀ compiler backends,
      { p with compiler, backends }.update session host signal =
        turnedAway session host signal failure := by
  obtain ⟨hstops, hearlier⟩ := h
  cases stage with
  | opened =>
      have hcancelled : (session.signalled signal).cancelled = true :=
        Bool.or_eq_true_iff.mpr hstops
      exact ⟨.cancelled, .opened, fun _ _ ↦
        update_of_admit_error (Session.admit_of_cancelled hcancelled)⟩
  | supported =>
      have hopened := hearlier .opened (by decide)
      obtain ⟨before, c, after, hconstructs, hbefore, hrefused, hadmit⟩ :=
        Session.admit_of_unsupported (not_or.mp hopened).1 hstops
      have hself := Session.signalled_eq_self hopened
      exact ⟨_, .supported hconstructs hbefore hrefused, fun _ _ ↦
        update_of_admit_error (hself.symm ▸ hadmit)⟩
  | compiled => exact absurd hrank (by decide)
  | resumed => exact absurd hrank (by decide)
  | enforced => exact absurd hrank (by decide)
  | released => exact absurd hrank (by decide)

/-- A request that is stopped behind the compiler has the same answer with any backends. -/
theorem update_of_stopsFirst_late {stage : Stage} (h : StopsFirst p session host signal stage)
    (hrank : Stage.supported.rank < stage.rank) :
    ∃ failure, FailsWith p session host stage failure ∧ ∀ backends,
      { p with backends }.update session host signal = p.heldBack session host signal failure := by
  have hopened := h.2 .opened (Nat.lt_trans (by decide) hrank)
  have hsupported := h.2 .supported hrank
  have hself := Session.signalled_eq_self hopened
  have hready := Session.admit_of_supported (not_or.mp hopened).1 hsupported
  obtain ⟨failure, hverify, hfails⟩ := verify_of_stopsFirst h hrank
  exact ⟨failure, hfails, fun backends ↦
    update_of_verify_error (p := { p with backends }) hready hself hverify⟩

/-- A request that no stage stops is handed over with the program that has been verified. -/
theorem update_of_not_stops (h : ∀ stage, ¬ Stops p session host signal stage) :
    ∃ assembly verified, (p.compiler session host).2.assembly = some assembly ∧
      p.policy.enforce assembly = .ok verified ∧ p.update session host signal =
        p.handedOver session host signal
          (p.deliver session (p.compiler session host).1 verified signal) := by
  have hself := Session.signalled_eq_self (h .opened)
  have hready := Session.admit_of_supported (not_or.mp (h .opened)).1 (h .supported)
  obtain ⟨assembly, verified, hassembly, henforce, hverify⟩ :=
    verify_of_enforced (h .compiled) (h .resumed) (h .enforced)
  have hreleased : ¬ signal.afterEnforce = true := h .released
  rw [if_neg hreleased] at hverify
  exact ⟨assembly, verified, hassembly, henforce, update_of_verify_ok hready hself hverify⟩

/-- How a request ends whose program has passed every stage: what is delivered, the failure
that is reported, who is called behind the compiler, and the host that is left. -/
inductive Ends (p : Pipeline) (session : Session) (verified : VerifiedAssembly Streams)
    (cancelAt : Option Nat) (host : Option Host) :
    Option Delivery → Option FailureReport → List Callee → Option Host → Prop
  | unhosted (htarget : session.effectiveTarget = Target.run) (hhost : host = none) :
      Ends p session verified cancelAt host none
        (some ⟨.internal, "configuration error: no execution host configured"⟩) [] none
  | ran {hosted : Host} {result : RunResult} (htarget : session.effectiveTarget = Target.run)
      (hhost : host = some hosted)
      (hran : (hosted.execute verified cancelAt).2 = .ok result) :
      Ends p session verified cancelAt host (some (.execution result)) none [.host]
        (some (hosted.execute verified cancelAt).1)
  | brokeOff {hosted : Host} {failure : Failure}
      (htarget : session.effectiveTarget = Target.run) (hhost : host = some hosted)
      (hran : (hosted.execute verified cancelAt).2 = .error failure) :
      Ends p session verified cancelAt host none (some ⟨failure.kind, failure.message⟩) [.host]
        (some (hosted.execute verified cancelAt).1)
  | unlisted (htarget : session.effectiveTarget ≠ Target.run)
      (hbackend : p.backends[session.effectiveTarget]? = none) :
      Ends p session verified cancelAt host none
        (some ⟨.invalidRequest,
          "invalid value `" ++ session.effectiveTarget ++ "` for option `target`"⟩) [] host
  | shown {backend : Backend} {text : String} (htarget : session.effectiveTarget ≠ Target.run)
      (hbackend : p.backends[session.effectiveTarget]? = some backend)
      (htext : backend session verified.streams = .ok text) :
      Ends p session verified cancelAt host (some (.inspection text)) none [.backend] host
  | unshown {backend : Backend} {failure : Failure}
      (htarget : session.effectiveTarget ≠ Target.run)
      (hbackend : p.backends[session.effectiveTarget]? = some backend)
      (htext : backend session verified.streams = .error failure) :
      Ends p session verified cancelAt host none (some ⟨failure.kind, failure.message⟩)
        [.backend] host

theorem ends_runOn (htarget : session.effectiveTarget = Target.run)
    (verified : VerifiedAssembly Streams) (cancelAt : Option Nat) (seen : List Diagnostic) :
    p.Ends session verified cancelAt host
      (UpdateResult.ofOutcome seen (runOn host verified cancelAt).outcome).output
      (UpdateResult.ofOutcome seen (runOn host verified cancelAt).outcome).failure
      (runOn host verified cancelAt).calls (runOn host verified cancelAt).host := by
  cases hhost : host with
  | none => exact .unhosted htarget rfl
  | some hosted =>
      cases hran : (hosted.execute verified cancelAt).2 with
      | ok result =>
          simp only [runOn, hran]
          exact .ran htarget rfl hran
      | error failure =>
          simp only [runOn, hran]
          exact .brokeOff htarget rfl hran

theorem message_invalidOption_target (target : String) :
    (Failure.invalidOption Session.targetOption target).message =
      "invalid value `" ++ target ++ "` for option `target`" := by
  have hname : "` for option `" ++ Session.targetOption ++ "`" = "` for option `target`" := by
    decide
  calc (Failure.invalidOption Session.targetOption target).message
      = "invalid value `" ++ target ++ "` for option `" ++ Session.targetOption ++ "`" := rfl
    _ = "invalid value `" ++ target ++ ("` for option `" ++ Session.targetOption ++ "`") := by
      simp only [String.append_assoc]
    _ = "invalid value `" ++ target ++ "` for option `target`" := congrArg _ hname

theorem ends_inspect (htarget : session.effectiveTarget ≠ Target.run)
    (verified : VerifiedAssembly Streams) (cancelAt : Option Nat) (seen : List Diagnostic) :
    p.Ends session verified cancelAt host
      (UpdateResult.ofOutcome seen (p.inspect session host verified).outcome).output
      (UpdateResult.ofOutcome seen (p.inspect session host verified).outcome).failure
      (p.inspect session host verified).calls (p.inspect session host verified).host := by
  cases hbackend : p.backends[session.effectiveTarget]? with
  | none =>
      simp only [inspect, hbackend, UpdateResult.ofOutcome, Failure.report,
        message_invalidOption_target]
      exact .unlisted htarget hbackend
  | some backend =>
      simp only [inspect, hbackend]
      cases htext : backend session verified.streams with
      | ok text => exact .shown htarget hbackend htext
      | error failure => exact .unshown htarget hbackend htext

/-- Delivery ends in one of the six ways, and the answer shows the one that it is. -/
theorem ends_deliver (verified : VerifiedAssembly Streams) (seen : List Diagnostic) :
    p.Ends session verified signal.whileRunning host
      (UpdateResult.ofOutcome seen (p.deliver session host verified signal).outcome).output
      (UpdateResult.ofOutcome seen (p.deliver session host verified signal).outcome).failure
      (p.deliver session host verified signal).calls
      (p.deliver session host verified signal).host := by
  by_cases htarget : session.effectiveTarget = Target.run
  · simp only [deliver, htarget, if_true]
    exact ends_runOn htarget verified signal.whileRunning seen
  · simp only [deliver, htarget, if_false]
    exact ends_inspect htarget verified signal.whileRunning seen

/-- Nothing is delivered in an answer that has not passed every stage, and a request that is
stopped fails as the first stage that stops it says. -/
structure Gated (p : Pipeline) (session : Session) (host : Option Host) (signal : CancelSignal)
    (u : Update) : Prop where
  exclusive :
    (∃ delivery, u.outcome = .ok delivery ∧
      u.result.output = some delivery ∧ u.result.failure = none) ∨
    ∃ failure, u.outcome = .error failure ∧
      u.result.output = none ∧ u.result.failure = some ⟨failure.kind, failure.message⟩
  guarded : u.result.output.isSome ∨ .backend ∈ u.calls ∨ .host ∈ u.calls →
    ∀ stage, ¬ Stops p session host signal stage
  stopped : ∀ stage, StopsFirst p session host signal stage →
    (∃ failure, FailsWith p session host stage failure ∧ u.outcome = .error failure ∧
      u.result.failure = some ⟨stage.failureKind, failure.message⟩) ∧
      (u.host = host ∨ u.host = (p.compiler session host).1) ∧
        ∀ backends, { p with backends }.update session host signal = u
  passed : (∀ stage, ¬ Stops p session host signal stage) → ∃ assembly verified calls,
    (p.compiler session host).2.assembly = some assembly ∧
      p.policy.enforce assembly = .ok verified ∧ u.calls = .compiler :: calls ∧
        p.Ends session verified signal.whileRunning (p.compiler session host).1
          u.result.output u.result.failure calls u.host
  unread : Stops p session host signal .opened ∨ Stops p session host signal .supported →
    u.calls = [] ∧ u.result.diagnostics = [] ∧ u.host = host ∧
      ∀ compiler, { p with compiler }.update session host signal = u
  reports : ¬ Stops p session host signal .opened → ¬ Stops p session host signal .supported →
    ∃ violations : List Violation,
      u.result.diagnostics = ((p.compiler session host).2.diagnostics.filter fun d ↦
          !session.options.suppressed.contains d.id) ++ violations.map Violation.toDiagnostic ∧
        (∀ d ∈ violations.map Violation.toDiagnostic,
          d.isError ∧ d.id = Violation.diagnosticId) ∧
        (∀ found, u.outcome = .error (.policyViolation found) → violations = found) ∧
        ((∀ found, u.outcome ≠ .error (.policyViolation found)) → violations = [])

/-- What an outcome adds to the diagnostics is one error for each violation it reports. -/
theorem exists_violations (seen : List Diagnostic) (outcome : Except Failure Delivery) :
    ∃ violations : List Violation,
      (UpdateResult.ofOutcome seen outcome).diagnostics =
          seen ++ violations.map Violation.toDiagnostic ∧
        (∀ d ∈ violations.map Violation.toDiagnostic,
          d.isError ∧ d.id = Violation.diagnosticId) ∧
        (∀ found, outcome = .error (.policyViolation found) → violations = found) ∧
        ((∀ found, outcome ≠ .error (.policyViolation found)) → violations = []) := by
  cases outcome with
  | ok delivery => exact ⟨[], by simp [UpdateResult.ofOutcome], by simp, by simp, fun _ ↦ rfl⟩
  | error failure =>
      cases failure with
      | policyViolation violations =>
          refine ⟨violations, rfl, ?_, by simp, fun h ↦ absurd rfl (h violations)⟩
          intro d hd
          obtain ⟨v, -, rfl⟩ := List.mem_map.mp hd
          exact ⟨rfl, rfl⟩
      | _ => exact ⟨[], rfl, by simp, by simp, fun _ ↦ rfl⟩

/-- Of output and failure an answer has the one that its outcome is. -/
theorem exclusive_ofOutcome (seen : List Diagnostic) (outcome : Except Failure Delivery) :
    (∃ delivery, outcome = .ok delivery ∧
      (UpdateResult.ofOutcome seen outcome).output = some delivery ∧
      (UpdateResult.ofOutcome seen outcome).failure = none) ∨
    ∃ failure, outcome = .error failure ∧
      (UpdateResult.ofOutcome seen outcome).output = none ∧
      (UpdateResult.ofOutcome seen outcome).failure =
        some ⟨failure.kind, failure.message⟩ := by
  cases outcome with
  | ok delivery => exact .inl ⟨delivery, rfl, rfl, rfl⟩
  | error failure => exact .inr ⟨failure, rfl, rfl, rfl⟩

theorem gated_turnedAway {failure : Failure} {stage : Stage}
    (hfirst : StopsFirst p session host signal stage)
    (hrank : stage.rank ≤ Stage.supported.rank)
    (hfails : FailsWith p session host stage failure)
    (h : ∀ compiler backends, { p with compiler, backends }.update session host signal =
      turnedAway session host signal failure) :
    p.Gated session host signal (turnedAway session host signal failure) where
  exclusive := exclusive_ofOutcome _ _
  guarded := by
    rintro (houtput | hcall | hcall)
    · cases houtput
    · cases hcall
    · cases hcall
  stopped := by
    intro other hother
    rw [hother.unique hfirst]
    refine ⟨⟨failure, hfails, rfl, ?_⟩, .inl rfl, h p.compiler⟩
    rw [← hfails.kind_eq]
    rfl
  passed hall := absurd hfirst.1 (hall stage)
  unread _ := ⟨rfl, hfails.diagnostics_eq_nil hrank, rfl, fun compiler ↦ h compiler p.backends⟩
  reports hopened hsupported := by
    cases stage with
    | opened => exact absurd hfirst.1 hopened
    | supported => exact absurd hfirst.1 hsupported
    | _ => exact absurd hrank (by decide)

theorem gated_heldBack {failure : Failure} {stage : Stage}
    (hfirst : StopsFirst p session host signal stage)
    (hrank : Stage.supported.rank < stage.rank)
    (hfails : FailsWith p session host stage failure)
    (h : ∀ backends, { p with backends }.update session host signal =
      p.heldBack session host signal failure) :
    p.Gated session host signal (p.heldBack session host signal failure) where
  exclusive := exclusive_ofOutcome _ _
  guarded := by
    rintro (houtput | hcall | hcall)
    · cases houtput
    · simp [heldBack] at hcall
    · simp [heldBack] at hcall
  stopped := by
    intro other hother
    rw [hother.unique hfirst]
    refine ⟨⟨failure, hfails, rfl, ?_⟩, .inr rfl, h⟩
    rw [← hfails.kind_eq]
    rfl
  passed hall := absurd hfirst.1 (hall stage)
  unread := by
    rintro (hopened | hsupported)
    · exact absurd hopened (hfirst.2 .opened (Nat.lt_trans (by decide) hrank))
    · exact absurd hsupported (hfirst.2 .supported hrank)
  reports _ _ := exists_violations _ (.error failure)

theorem gated_handedOver (hnone : ∀ stage, ¬ Stops p session host signal stage)
    {assembly : Assembly Streams} {verified : VerifiedAssembly Streams}
    (hassembly : (p.compiler session host).2.assembly = some assembly)
    (henforce : p.policy.enforce assembly = .ok verified) :
    p.Gated session host signal (p.handedOver session host signal
      (p.deliver session (p.compiler session host).1 verified signal)) where
  exclusive := exclusive_ofOutcome _ _
  guarded _ := hnone
  stopped stage hfirst := absurd hfirst.1 (hnone stage)
  passed _ := ⟨assembly, verified, _, hassembly, henforce, rfl, ends_deliver verified _⟩
  unread hearly := absurd hearly (not_or.mpr ⟨hnone _, hnone _⟩)
  reports _ _ := exists_violations _ _

/-- The answer to a request is gated by its stages, whatever compiler, policy, backends and
host there are, and whenever the session is cancelled. -/
theorem update_gated (p : Pipeline) (session : Session) (host : Option Host)
    (signal : CancelSignal) :
    p.Gated session host signal (p.update session host signal) := by
  by_cases hstops : ∃ stage, Stops p session host signal stage
  · obtain ⟨stage, hstage⟩ := hstops
    obtain ⟨first, hfirst⟩ := exists_stopsFirst hstage
    by_cases hrank : Stage.supported.rank < first.rank
    · obtain ⟨failure, hfails, h⟩ := update_of_stopsFirst_late hfirst hrank
      rw [h p.backends]
      exact gated_heldBack hfirst hrank hfails h
    · have hearly := Nat.le_of_not_lt hrank
      obtain ⟨failure, hfails, h⟩ := update_of_stopsFirst_early hfirst hearly
      rw [h p.compiler p.backends]
      exact gated_turnedAway hfirst hearly hfails h
  · have hnone : ∀ stage, ¬ Stops p session host signal stage := not_exists.mp hstops
    obtain ⟨assembly, verified, hassembly, henforce, h⟩ := update_of_not_stops hnone
    rw [h]
    exact gated_handedOver hnone hassembly henforce

end Pipeline

end GuestGate
