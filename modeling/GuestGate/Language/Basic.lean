import GuestGate.CSharp.Declaration
import GuestGate.FSharp.Binding
import GuestGate.VisualBasic.Initializer
import GuestGate.Session.Options
import GuestGate.Source.Construct

/-!
# Languages

The three languages of the service: the options each starts from, how it takes
an optimization level or a target, and what it can tell about a source.
-/

namespace GuestGate

def Target.run : String := "Run"

/-- The target that lists machine code. -/
def Target.machineCode : String := "JIT ASM"

structure SharedOptions where
  features : List String := []
  extraReferences : List String := []
deriving DecidableEq, Repr

structure LanguageDefaults where
  parse : ParseOptions
  options : CompilationOptions
  references : ReferenceSet

inductive Language
  | csharp
  | fsharp
  | visualBasic
deriving DecidableEq, Repr

namespace Language

def name : Language → String
  | csharp => "C#"
  | fsharp => "F#"
  | visualBasic => "Visual Basic"

def all : List Language :=
  [csharp, fsharp, visualBasic]

def ofName? (word : String) : Option Language :=
  all.find? fun language ↦ language.name == word

/-! ### C# -/

/-- The symbol that every C# session defines. -/
def experimentalSymbol : String := "__DEMO_EXPERIMENTAL__"

def csharpSymbols : OptimizationLevel → List String
  | .debug => [experimentalSymbol, "DEBUG"]
  | .release => [experimentalSymbol]

private def csharpLibraries : List String :=
  ["System.Runtime", "System.Threading.Tasks.Extensions", "System.ValueTuple", "System.Memory",
   "Microsoft.CSharp", "CodeLab.Runtime", "System.Xml.Linq", "System.Data", "System.Web"]

/-! ### Visual Basic -/

def visualBasicSymbols : OptimizationLevel → List String
  | .debug => ["DEBUG=True"]
  | .release => []

private def visualBasicLibraries : List String :=
  ["System.Runtime", "Microsoft.VisualBasic", "System.ValueTuple", "CodeLab.Runtime"]

/-! ### F# -/

/-- Set a switch that is written with a plus or a minus, at the end of the
flags and in place of any earlier one. -/
def setSwitch (flags : List String) (name : String) (on : Bool) : List String :=
  let plus := "--" ++ name ++ "+"
  let minus := "--" ++ name ++ "-"
  (flags.filter fun flag ↦ flag != plus && flag != minus) ++ [if on then plus else minus]

def fsharpFlags (flags : List String) (level : OptimizationLevel) : List String :=
  let debug := level == .debug
  setSymbol (setSwitch (setSwitch flags "debug" debug) "optimize" !debug) "--define:DEBUG" debug

private def fsharpLibraries : List String :=
  ["System.Runtime", "FSharp.Core", "System.Threading.Tasks", "CodeLab.Runtime", "System.Data"]

/-! ### All three -/

def libraries : Language → List String
  | csharp => csharpLibraries
  | fsharp => fsharpLibraries
  | visualBasic => visualBasicLibraries

def defaults (language : Language) (shared : SharedOptions) : LanguageDefaults where
  parse :=
    match language with
    | csharp =>
        { languageVersion := "preview", symbols := csharpSymbols .debug
          documentation := .diagnose, features := shared.features }
    | fsharp => { languageVersion := "4.5", features := shared.features }
    | visualBasic =>
        { languageVersion := "latest", symbols := visualBasicSymbols .debug
          features := shared.features }
  options :=
    match language with
    | csharp => { suppressed := Std.TreeSet.ofList ["CS1591"] }
    | fsharp => { otherFlags := fsharpFlags [] .debug }
    | visualBasic => {}
  references := (ReferenceSet.ofList language.libraries).extend shared.extraReferences

def parseAtLevel (language : Language) (level : OptimizationLevel) (parse : ParseOptions) :
    ParseOptions :=
  match language with
  | csharp => { parse with symbols := csharpSymbols level }
  | fsharp => parse
  | visualBasic => { parse with symbols := visualBasicSymbols level }

def optionsAtLevel (language : Language) (level : OptimizationLevel)
    (options : CompilationOptions) : CompilationOptions :=
  match language with
  | csharp | visualBasic => { options with optimization := level }
  | fsharp =>
      { options with optimization := level, otherFlags := fsharpFlags options.otherFlags level }

/-- The output for a target: a program is only needed to run one. -/
def outputFor (target : String) : OutputKind :=
  if target = Target.run then .console else .library

/-- The compilation options after choosing a target.  Code that may be unsafe
is only ever looked at, never run. -/
def optionsForTarget (language : Language) (target : String) (options : CompilationOptions) :
    CompilationOptions :=
  match language with
  | csharp =>
      { options with outputKind := outputFor target, allowUnsafe := target ≠ Target.run }
  | fsharp => options
  | visualBasic => { options with outputKind := outputFor target }

def parameterLines (language : Language) (text : String) (p : Position) : List Nat :=
  match language with
  | csharp =>
      match (CSharp.Declarations.scan text.toList).methodAt? p with
      | some method => method.parameterLines
      | none => []
  | fsharp | visualBasic => []

def constructs (language : Language) (text : String) : List Construct :=
  match language with
  | csharp =>
      (CSharp.Declarations.scan text.toList).staticInitializers.map fun s ↦
        .staticInitializer s.typeName
  | fsharp => (FSharp.staticBindings text.toList).map .staticInitializer
  | visualBasic => (VisualBasic.sharedInitializers text.toList).map .staticInitializer

end Language

/-- Whether a target can handle a construct: a machine code listing cannot
show code that runs before a method is called. -/
def Construct.supportedBy (target : String) : Construct → Bool
  | staticInitializer _ => target != Target.machineCode

end GuestGate
