import GuestGate.CallSite

/-!
# Rewriters

A rewriter turns an allowed call site into a guarded one.  It reads nothing
but the call site.  Three rewriters are provided, and any other can be plugged
in beside them.
-/

namespace GuestGate

/-- A transformation of call sites, and the name that a policy listing shows of it. -/
structure Rewriter where
  name : String
  applyTo : CallSite → CallSite

/-- The rewriters that are provided. -/
inductive ProvidedRewriter
  /-- Leaves the call as it is. -/
  | noGuard
  /-- Copies sequences into a buffer of at most `maxItems` items. -/
  | collected (maxItems : Nat)
  /-- Accepts counts from zero to `max`. -/
  | count (max : Int)
deriving DecidableEq, Repr

namespace ProvidedRewriter

def name : ProvidedRewriter → String
  | noGuard => "no-guard"
  | collected _ => "collected-enumerable-argument"
  | count _ => "count-argument"

def materializeShape : ParamShape → ParamShape
  | .sequence => .materialized
  | shape => shape

/-- The call site after the rewriter.  New guards come after the ones that are
there, in parameter order. -/
def applyTo (rewriter : ProvidedRewriter) (site : CallSite) : CallSite :=
  match rewriter with
  | noGuard => site
  | collected maxItems =>
      { site with
        parameters := site.parameters.map materializeShape
        guards := site.guards ++ (site.positions .sequence).map (Guard.materialize · maxItems) }
  | count max =>
      { site with
        guards := site.guards ++ (site.positions .count).map (Guard.limit · max) }

def toRewriter (rewriter : ProvidedRewriter) : Rewriter where
  name := rewriter.name
  applyTo := rewriter.applyTo

@[simp]
theorem name_toRewriter (rewriter : ProvidedRewriter) :
    rewriter.toRewriter.name = rewriter.name := rfl

@[simp]
theorem applyTo_toRewriter (rewriter : ProvidedRewriter) (site : CallSite) :
    rewriter.toRewriter.applyTo site = rewriter.applyTo site := rfl

@[simp]
theorem applyTo_noGuard (site : CallSite) : noGuard.applyTo site = site := rfl

@[simp]
theorem applyTo_member (rewriter : ProvidedRewriter) (site : CallSite) :
    (rewriter.applyTo site).member = site.member := by
  cases rewriter <;> rfl

@[simp]
theorem applyTo_line (rewriter : ProvidedRewriter) (site : CallSite) :
    (rewriter.applyTo site).line = site.line := by
  cases rewriter <;> rfl

@[simp]
theorem length_applyTo_parameters (rewriter : ProvidedRewriter) (site : CallSite) :
    (rewriter.applyTo site).parameters.length = site.parameters.length := by
  cases rewriter <;> simp [applyTo]

end ProvidedRewriter

namespace Rewriter

/-- The item bound that holds where no other was chosen. -/
def defaultMaxItems : Nat := 10000

def noGuard : Rewriter := ProvidedRewriter.noGuard.toRewriter

def collected (maxItems : Nat) : Rewriter := (ProvidedRewriter.collected maxItems).toRewriter

def count (max : Int) : Rewriter := (ProvidedRewriter.count max).toRewriter

theorem applyTo_collected (maxItems : Nat) (site : CallSite) :
    (collected maxItems).applyTo site = (ProvidedRewriter.collected maxItems).applyTo site := rfl

theorem applyTo_count (max : Int) (site : CallSite) :
    (count max).applyTo site = (ProvidedRewriter.count max).applyTo site := rfl

end Rewriter

end GuestGate
