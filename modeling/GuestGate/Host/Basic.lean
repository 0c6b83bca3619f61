import GuestGate.Host.Image
import GuestGate.Host.Linking
import GuestGate.Run.Cache
import GuestGate.Run.Execution

/-!
# The host

A host keeps compiled modules and runs verified programs within its limits.
-/

namespace GuestGate

/-- Limits, the compiler of modules, and the modules compiled so far. -/
structure Host where
  config : RunConfig
  compile : Image → Option GuestModule
  cache : ModuleCache Image GuestModule

namespace Host

def new (config : RunConfig) (compile : Image → Option GuestModule := Image.compile?) : Host where
  config := config
  compile := compile
  cache := { capacity := config.moduleCacheCapacity }

/-- The module of an image, taken from the cache or compiled now. -/
def load (host : Host) (image : Image) : Host × Except Failure GuestModule :=
  let loaded := host.cache.load host.compile image
  ({ host with cache := loaded.1 },
    match loaded.2 with
    | some module => .ok module
    | none => .error (.moduleLoad .uncompilable))

/-- Run a module with the call sites that were verified for it.  A run that is
cancelled before it starts, or has no time, ends before anything is set up. -/
def run (host : Host) (module : GuestModule) (sites : CallSiteMap) (cancelAt : Option Nat) :
    Except Failure RunResult := do
  let links ← module.link sites
  let inst : Instance := { guest := module, links, deadline := host.config.timeout, cancelAt }
  match (inst.watch 0).check.noticed with
  | some interruption => .error (interruption.toFailure host.config)
  | none =>
      if inst.isResolved then inst.execute host.config else .error (.moduleLoad .instantiation)

def execute (host : Host) (verified : VerifiedAssembly Streams) (cancelAt : Option Nat := none) :
    Host × Except Failure RunResult :=
  let loaded := host.load verified.streams.binary
  (loaded.1, loaded.2.bind fun module ↦ host.run module verified.callSites cancelAt)

def describe (host : Host) (image : Image) : Host × Except Failure (List CallSite) :=
  let loaded := host.load image
  (loaded.1, loaded.2.map GuestModule.describeImports)

end Host

end GuestGate
