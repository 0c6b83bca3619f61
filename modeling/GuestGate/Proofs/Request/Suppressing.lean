import GuestGate.Proofs.Request.Gating

/-!
# Suppressed errors

A session can suppress diagnostics, errors among them.  The request looks for errors only among
the diagnostics that are left, so an error that is suppressed counts for nothing: what comes
with it is delivered as if the compiler had not found any fault.
-/

namespace GuestGate

namespace Compilation

/-- A session makes the same of two compilations: what it suppresses may differ. -/
structure SeenAlike (session : Session) (c c' : Compilation) : Prop where
  assembly : c.assembly = c'.assembly
  reported : c.reported session = c'.reported session
  cancelled : c.cancelled = c'.cancelled

variable {session : Session} {c c' : Compilation}

theorem SeenAlike.accept (h : SeenAlike session c c') : c.accept session = c'.accept session := by
  unfold Compilation.accept
  rw [h.assembly, h.reported]

def withoutErrors (c : Compilation) : Compilation :=
  { c with diagnostics := c.diagnostics.filter fun d ↦ !d.isError }

/-- Errors that are all suppressed are not seen. -/
theorem seenAlike_withoutErrors
    (h : ∀ d ∈ c.diagnostics, d.isError → d.id ∈ session.options.suppressed) :
    SeenAlike session c c.withoutErrors where
  assembly := rfl
  cancelled := rfl
  reported := by
    simp only [Compilation.reported, withoutErrors, List.filter_filter]
    apply List.filter_congr
    intro d hd
    cases herror : d.isError with
    | false => simp
    | true =>
        have hsuppressed := h d hd herror
        simp [hsuppressed]

end Compilation

/-- A compiler that finds what another one finds, the errors left out. -/
def Compiler.withoutErrors (compiler : Compiler) : Compiler :=
  fun session host ↦ ((compiler session host).1, (compiler session host).2.withoutErrors)

/-- A request fails, and nobody behind the compiler has been given the program. -/
def Update.Withholds (u : Update) : Prop :=
  u.result.output = none ∧ (∃ failure, u.outcome = .error failure) ∧
    .backend ∉ u.calls ∧ .host ∉ u.calls

namespace Pipeline

open Stage

variable {p : Pipeline} {session : Session} {host : Option Host} {signal : CancelSignal}

theorem proceed_of_seenAlike {c c' : Compilation} (h : c.SeenAlike session c')
    (compiler : Compiler) (host : Option Host) :
    { p with compiler }.proceed session host c' signal = p.proceed session host c signal := by
  have hverify : { p with compiler }.verify session c' signal = p.verify session c signal := by
    simp only [verify, h.accept, h.cancelled]
  unfold proceed
  rw [hverify]
  rfl

/-- The answer to a request depends on nothing that the session does not see of the
compilation. -/
theorem update_of_seenAlike (compiler : Compiler)
    (hhost : (p.compiler session host).1 = (compiler session host).1)
    (h : (p.compiler session host).2.SeenAlike session (compiler session host).2) :
    { p with compiler }.update session host signal = p.update session host signal := by
  by_cases hopened : session.cancelled ∨ signal.atStart
  · have hcancelled : (session.signalled signal).cancelled = true :=
      Bool.or_eq_true_iff.mpr hopened
    have hadmit := Session.admit_of_cancelled hcancelled
    rw [update_of_admit_error hadmit, update_of_admit_error hadmit]
  · have hself := Session.signalled_eq_self hopened
    rw [Session.signalled] at hself
    cases hadmit : session.admit with
    | error failure => simp only [update, hself, hadmit]
    | ok _ =>
        simp only [update, hself, hadmit, ← hhost, proceed_of_seenAlike h, h.reported,
          h.cancelled]

theorem withholds_of_stops {stage : Stage} (h : Stops p session host signal stage) :
    (p.update session host signal).Withholds := by
  obtain ⟨first, hfirst⟩ := exists_stopsFirst h
  by_cases hrank : Stage.supported.rank < first.rank
  · obtain ⟨failure, -, hheld⟩ := update_of_stopsFirst_late hfirst hrank
    rw [hheld p.backends]
    exact ⟨rfl, ⟨failure, rfl⟩, by simp [heldBack], by simp [heldBack]⟩
  · obtain ⟨failure, -, hturned⟩ := update_of_stopsFirst_early hfirst (Nat.le_of_not_lt hrank)
    rw [hturned p.compiler p.backends]
    exact ⟨rfl, ⟨failure, rfl⟩, List.not_mem_nil, List.not_mem_nil⟩

/-- An error that is not suppressed keeps the program back. -/
theorem withholds_of_error (h : ∃ d ∈ (p.compiler session host).2.diagnostics,
      d.isError ∧ d.id ∉ session.options.suppressed) :
    (p.update session host signal).Withholds := by
  have hstops : Stops p session host signal .compiled := .inr h
  exact withholds_of_stops hstops

/-- If all errors are suppressed, the whole answer is that for a compiler that finds none. -/
theorem update_of_suppressed (h : ∀ d ∈ (p.compiler session host).2.diagnostics,
      d.isError → d.id ∈ session.options.suppressed) :
    p.update session host signal =
      { p with compiler := p.compiler.withoutErrors }.update session host signal := by
  have hseen := Compilation.seenAlike_withoutErrors h
  exact (update_of_seenAlike p.compiler.withoutErrors rfl hseen).symm

/-- A program is kept back for an error that the session has not suppressed, and for what would
keep it back without any errors; an error that is suppressed counts for nothing. -/
theorem withholds_iff_unsuppressed_error (p : Pipeline) (session : Session) (host : Option Host)
    (signal : CancelSignal) :
    ((p.update session host signal).Withholds ↔
      (∃ d ∈ (p.compiler session host).2.diagnostics,
        d.isError ∧ d.id ∉ session.options.suppressed) ∨
      ({ p with compiler := p.compiler.withoutErrors }.update session host signal).Withholds) ∧
    ((∀ d ∈ (p.compiler session host).2.diagnostics,
        d.isError → d.id ∈ session.options.suppressed) →
      p.update session host signal =
        { p with compiler := p.compiler.withoutErrors }.update session host signal) := by
  refine ⟨?_, update_of_suppressed⟩
  by_cases herror : ∃ d ∈ (p.compiler session host).2.diagnostics,
      d.isError ∧ d.id ∉ session.options.suppressed
  · exact ⟨fun _ ↦ .inl herror, fun _ ↦ withholds_of_error herror⟩
  · have hall : ∀ d ∈ (p.compiler session host).2.diagnostics,
        d.isError → d.id ∈ session.options.suppressed := by
      intro d hd hfails
      by_cases hsuppressed : d.id ∈ session.options.suppressed
      · exact hsuppressed
      · exact absurd ⟨d, hd, hfails, hsuppressed⟩ herror
    rw [update_of_suppressed hall]
    exact ⟨.inr, fun h ↦ h.resolve_left herror⟩

def viewer : Pipeline where
  compiler := .fixed {
    assembly := some { streams := { binary := .bytes [1, 2, 3] }, references := [] }
    diagnostics := [{ severity := .error, id := "CS1002", message := "; expected" }] }
  backends := .insert ∅ "IL" Backend.sizes

def hushed : Session :=
  (((Session.start .csharp (Language.csharp.defaults {})).setTarget "IL").suppress "CS1002").1

theorem admit_hushed : hushed.admit = .ok () := by
  apply Session.admit_of_supported Bool.false_ne_true
  rintro ⟨⟨typeName⟩, -, hunsupported⟩
  have htarget : hushed.effectiveTarget = "IL" := rfl
  rw [htarget] at hunsupported
  exact hunsupported rfl

def shown : VerifiedAssembly Streams :=
  ⟨{ binary := .bytes [1, 2, 3] }, ∅, PolicyTree.global.surfaceVersion⟩

theorem verify_hushed : viewer.verify hushed (viewer.compiler hushed none).2 {} = .ok shown := by
  have hseen : ¬ ∃ d ∈ (viewer.compiler hushed none).2.diagnostics,
      d.isError ∧ d.id ∉ hushed.options.suppressed := by
    rintro ⟨d, hd, -, hnew⟩
    obtain rfl := List.mem_singleton.mp hd
    exact hnew Std.TreeSet.mem_insert_self
  have haccept : (viewer.compiler hushed none).2.accept hushed =
      .ok { streams := shown.streams, references := [] } := by
    simp only [Compilation.accept, Compilation.errors_eq_nil_iff.mpr hseen]
    rfl
  simp only [verify, haccept]
  rfl

theorem deliver_shown : viewer.deliver hushed none shown {} =
    { outcome := .ok (.inspection "IL for C#: 3 bytes, no symbols")
      calls := [.backend]
      host := none } := by
  have htarget : hushed.effectiveTarget = "IL" := rfl
  have hbackend : viewer.backends["IL"]? = some Backend.sizes := by simp [viewer]
  simp only [deliver, inspect, htarget, hbackend]
  rfl

/-- The program is shown in spite of its error. -/
theorem suppressed_error_shown :
    (∃ d ∈ (viewer.compiler hushed none).2.diagnostics, d.isError) ∧
    (viewer.update hushed none).outcome =
      .ok (.inspection "IL for C#: 3 bytes, no symbols") ∧
    (viewer.update hushed none).result.output =
      some (.inspection "IL for C#: 3 bytes, no symbols") ∧
    .backend ∈ (viewer.update hushed none).calls := by
  have hshown : viewer.update hushed none =
      viewer.handedOver hushed none {} (viewer.deliver hushed none shown {}) :=
    update_of_verify_ok admit_hushed rfl verify_hushed
  rw [hshown, deliver_shown]
  refine ⟨⟨_, List.mem_singleton_self _, rfl⟩, rfl, rfl, ?_⟩
  exact List.mem_cons_of_mem _ (List.mem_singleton_self _)

end Pipeline

end GuestGate
