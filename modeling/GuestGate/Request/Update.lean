import GuestGate.Policy.Bundled
import GuestGate.Request.Backend
import GuestGate.Request.Compilation

/-!
# Updates

A request takes the text of a session through the compiler and the policy to
the target of the session: to a backend, or to the host.  Nothing is delivered
that has not passed every stage in front of it, and a session that is
cancelled goes no further.
-/

namespace GuestGate

inductive Delivery
  | inspection (text : String)
  | execution (result : RunResult)

inductive Callee
  | compiler
  | backend
  | host
deriving DecidableEq, Repr

/-- When the owner of a session cancels it in the course of a request. -/
structure CancelSignal where
  atStart : Bool := false
  afterCompile : Bool := false
  afterEnforce : Bool := false
  /-- A time of the run, in nanoseconds. -/
  whileRunning : Option Nat := none
deriving DecidableEq, Repr

/-- A failure as a client sees it. -/
structure FailureReport where
  kind : FailureKind
  message : String
deriving DecidableEq, Repr

/-- Everything a client receives for one request. -/
structure UpdateResult where
  /-- Diagnostics of the compiler, then those of the policy. -/
  diagnostics : List Diagnostic
  output : Option Delivery
  failure : Option FailureReport

/-- The answer to a request, and what it leaves behind. -/
structure Update where
  result : UpdateResult
  /-- What the stages came to, before it was put in words for the client. -/
  outcome : Except Failure Delivery
  /-- Who was called, in order. -/
  calls : List Callee
  session : Session
  host : Option Host

def UpdateResult.isSuccess (result : UpdateResult) : Bool :=
  result.failure.isNone

def Update.diagnostics (u : Update) : List Diagnostic :=
  u.result.diagnostics

def Update.isSuccess (u : Update) : Bool :=
  u.result.isSuccess

structure Pipeline where
  compiler : Compiler
  policy : PolicyTree := .global
  backends : Std.TreeMap String Backend compare := ∅

/-- The target of a session, which is to run unless another one is set. -/
def Session.effectiveTarget (session : Session) : String :=
  session.target.getD Target.run

def Session.unsupported? (session : Session) : Option Construct :=
  session.constructs.find? fun construct ↦ !construct.supportedBy session.effectiveTarget

/-- What must hold for the compiler to be called. -/
def Session.admit (session : Session) : Except Failure Unit :=
  if session.cancelled then .error .cancelled
  else
    match session.unsupported? with
    | some construct => .error (.notSupported construct.render session.effectiveTarget)
    | none => .ok ()

namespace Compilation

def reported (compilation : Compilation) (session : Session) : List Diagnostic :=
  compilation.diagnostics.filter fun diagnostic ↦
    !session.options.suppressed.contains diagnostic.id

/-- The program of a compilation without errors. -/
def accept (compilation : Compilation) (session : Session) : Except Failure (Assembly Streams) :=
  match compilation.assembly, (compilation.reported session).filter Diagnostic.isError with
  | some assembly, [] => .ok assembly
  | _, errors => .error (.compilation errors)

end Compilation

/-- The diagnostics that a failure adds: one for each violation. -/
def Failure.diagnostics : Failure → List Diagnostic
  | policyViolation violations => violations.map Violation.toDiagnostic
  | _ => []

def Failure.report (failure : Failure) : FailureReport where
  kind := failure.kind
  message := failure.message

/-- What a client receives of an outcome, with the diagnostics there are so far. -/
def UpdateResult.ofOutcome (diagnostics : List Diagnostic) :
    Except Failure Delivery → UpdateResult
  | .ok delivery => { diagnostics, output := some delivery, failure := none }
  | .error failure =>
      { diagnostics := diagnostics ++ failure.diagnostics
        output := none
        failure := some failure.report }

/-- What comes of a program that is delivered. -/
structure Delivered where
  outcome : Except Failure Delivery
  calls : List Callee := []
  host : Option Host
  /-- Whether the session was cancelled meanwhile. -/
  cancelled : Bool := false

def isCancelled {α : Type} : Except Failure α → Bool
  | .error .cancelled => true
  | _ => false

namespace Pipeline

/-- Register a backend for a target.  It replaces an earlier one. -/
def addBackend (p : Pipeline) (target : String) (backend : Backend) : Pipeline :=
  { p with backends := p.backends.insert target backend }

/-- The program of a compilation that may be delivered. -/
def verify (p : Pipeline) (session : Session) (compilation : Compilation)
    (signal : CancelSignal) : Except Failure (VerifiedAssembly Streams) := do
  let assembly ← compilation.accept session
  if compilation.cancelled || signal.afterCompile then .error .cancelled
  else
    let verified ← p.policy.enforce assembly
    if signal.afterEnforce then .error .cancelled else .ok verified

def runOn (host : Option Host) (verified : VerifiedAssembly Streams) (cancelAt : Option Nat) :
    Delivered :=
  match host with
  | none => { outcome := .error (.config .noHost), host := none }
  | some host =>
      let ran := host.execute verified cancelAt
      { outcome := ran.2.map Delivery.execution
        calls := [.host]
        host := some ran.1
        cancelled := isCancelled ran.2 }

def inspect (p : Pipeline) (session : Session) (host : Option Host)
    (verified : VerifiedAssembly Streams) : Delivered :=
  match p.backends[session.effectiveTarget]? with
  | none =>
      { outcome := .error (.invalidOption Session.targetOption session.effectiveTarget)
        host := host }
  | some backend =>
      { outcome := (backend session verified.streams).map Delivery.inspection
        calls := [.backend]
        host := host }

def deliver (p : Pipeline) (session : Session) (host : Option Host)
    (verified : VerifiedAssembly Streams) (signal : CancelSignal) : Delivered :=
  if session.effectiveTarget = Target.run then runOn host verified signal.whileRunning
  else p.inspect session host verified

def proceed (p : Pipeline) (session : Session) (host : Option Host) (compilation : Compilation)
    (signal : CancelSignal) : Delivered :=
  match p.verify session compilation signal with
  | .error failure => { outcome := .error failure, host := host }
  | .ok verified => p.deliver session host verified signal

def update (p : Pipeline) (session : Session) (host : Option Host)
    (signal : CancelSignal := {}) : Update :=
  let session := { session with cancelled := session.cancelled || signal.atStart }
  match session.admit with
  | .error failure =>
      { result := .ofOutcome [] (.error failure)
        outcome := .error failure
        calls := []
        session
        host }
  | .ok () =>
      let (host, compilation) := p.compiler session host
      let delivered := p.proceed session host compilation signal
      { result := .ofOutcome (compilation.reported session) delivered.outcome
        outcome := delivered.outcome
        calls := .compiler :: delivered.calls
        session :=
          { session with
            cancelled := compilation.cancelled || signal.afterCompile || signal.afterEnforce ||
              delivered.cancelled }
        host := delivered.host }

end Pipeline

end GuestGate
