import GuestGate.Policy.Build
import GuestGate.Policy.Violation
import GuestGate.Text.Duration

/-!
# Failures

Everything that can go wrong with a request, from the option a client sets to
the limit a guest runs into, with its text and its coarse kind.
-/

namespace GuestGate

inductive LoadFault
  /-- The bytes are no module. -/
  | uncompilable
  /-- An import is allowed, but the host does not offer it. -/
  | unimplemented (member : MemberRef)
  /-- Two imports are to be linked as one host member. -/
  | definedTwice (member : MemberRef)
  /-- An import has no link or another type than the host's, or starting the module
  failed. -/
  | instantiation
  /-- The module has no entry point that can be called. -/
  | entryPoint
  /-- A fault described in words. -/
  | other (text : String)
deriving DecidableEq, Repr

def LoadFault.message : LoadFault → String
  | uncompilable => "failed to compile module"
  | unimplemented member => "no host implementation for `" ++ member.render ++ "`"
  | definedTwice member => "import of `" ++ member.render ++ "` defined twice"
  | instantiation => "instantiation failed"
  | entryPoint => "no usable `_start` export"
  | other text => text

/-- When a guest asked for more memory than it may have. -/
inductive MemoryFault
  /-- On start, past a ceiling in bytes. -/
  | initial (ceiling : Nat)
  /-- While running, past a ceiling in bytes. -/
  | growth (ceiling : Nat)
  /-- A fault described in words. -/
  | other (text : String)
deriving DecidableEq, Repr

def MemoryFault.message : MemoryFault → String
  | initial ceiling => "initial memory above " ++ toString ceiling ++ " bytes"
  | growth ceiling => "guest grew memory past " ++ toString ceiling ++ " bytes"
  | other text => text

inductive ConfigFault
  /-- A text is no member. -/
  | malformedMember (text : String)
  /-- A program is to be run, but there is nothing to run it on. -/
  | noHost
  /-- A fault described in words. -/
  | other (text : String)
deriving DecidableEq, Repr

def ConfigFault.message : ConfigFault → String
  | malformedMember text => "malformed member reference `" ++ text ++ "`"
  | noHost => "no execution host configured"
  | other text => text

inductive Failure
  | compilation (errors : List Diagnostic)
  | policyViolation (violations : List Violation)
  | notSupported (construct target : String)
  | timeout (nanos : Nat)
  | memoryLimitExceeded (fault : MemoryFault)
  | outOfFuel (budget : Option Nat)
  | cancelled
  | unknownLanguage (name : String)
  | invalidOption (name value : String)
  | policyBuild (error : BuildError)
  | runtimeInit (text : String)
  | moduleLoad (fault : LoadFault)
  | executionFailed (text : String)
  | io (text : String)
  | config (fault : ConfigFault)
deriving DecidableEq, Repr

/-- The coarse kind of a failure, as clients see it. -/
inductive FailureKind
  | compilation
  | policyViolation
  | notSupported
  | timeout
  | resourceExhausted
  | cancelled
  | invalidRequest
  | internal
deriving DecidableEq, Repr

def FailureKind.name : FailureKind → String
  | compilation => "Compilation"
  | policyViolation => "PolicyViolation"
  | notSupported => "NotSupported"
  | timeout => "Timeout"
  | resourceExhausted => "ResourceExhausted"
  | cancelled => "Cancelled"
  | invalidRequest => "InvalidRequest"
  | internal => "Internal"

namespace Failure

def budgetText : Option Nat → String
  | some budget => "Some(" ++ toString budget ++ ")"
  | none => "None"

def message : Failure → String
  | compilation errors => "compilation failed with " ++ toString errors.length ++ " error(s)"
  | policyViolation violations => Violation.summary violations
  | notSupported construct target =>
      construct ++ " is not supported for target `" ++ target ++ "`"
  | timeout nanos => "execution timed out after " ++ Text.durationText nanos
  | memoryLimitExceeded fault => "memory limit exceeded: " ++ fault.message
  | outOfFuel budget => "execution ran out of fuel after " ++ budgetText budget ++ " instructions"
  | cancelled => "request cancelled"
  | unknownLanguage name => "unknown language `" ++ name ++ "`"
  | invalidOption name value => "invalid value `" ++ value ++ "` for option `" ++ name ++ "`"
  | policyBuild error => "failed to build API policy: " ++ error.message
  | runtimeInit text => "failed to initialize runtime: " ++ text
  | moduleLoad fault => "failed to load module: " ++ fault.message
  | executionFailed text => "execution failed: " ++ text
  | io text => "I/O error: " ++ text
  | config fault => "configuration error: " ++ fault.message

def kind : Failure → FailureKind
  | compilation _ => .compilation
  | policyViolation _ => .policyViolation
  | notSupported _ _ => .notSupported
  | timeout _ => .timeout
  | memoryLimitExceeded _ | outOfFuel _ => .resourceExhausted
  | cancelled => .cancelled
  | unknownLanguage _ | invalidOption _ _ => .invalidRequest
  | policyBuild _ | runtimeInit _ | moduleLoad _ | executionFailed _ | io _ | config _ => .internal

def isTimeout : Failure → Bool
  | timeout _ => true
  | _ => false

def isMemoryLimit : Failure → Bool
  | memoryLimitExceeded _ => true
  | _ => false

def isPolicyViolation : Failure → Bool
  | policyViolation _ => true
  | _ => false

def isNotSupported : Failure → Bool
  | notSupported _ _ => true
  | _ => false

def isOutOfFuel : Failure → Bool
  | outOfFuel _ => true
  | _ => false

end Failure

end GuestGate
