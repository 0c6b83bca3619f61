import Std.Data.TreeSet

/-!
# Compiler options

What a session tells the compiler: how to parse, what to produce, and which
libraries the program may refer to.
-/

namespace GuestGate

inductive OptimizationLevel
  | debug
  | release
deriving DecidableEq, Repr

namespace OptimizationLevel

def name : OptimizationLevel → String
  | debug => "debug"
  | release => "release"

def ofName? (word : String) : Option OptimizationLevel :=
  if word = "debug" then some debug else if word = "release" then some release else none

@[simp]
theorem ofName?_name (level : OptimizationLevel) : ofName? level.name = some level := by
  cases level <;> rfl

end OptimizationLevel

inductive OutputKind
  /-- A library without an entry point. -/
  | library
  /-- A program with an entry point. -/
  | console
deriving DecidableEq, Repr

def OutputKind.name : OutputKind → String
  | library => "library"
  | console => "console"

inductive DocumentationMode
  | ignore
  | parse
  | diagnose
deriving DecidableEq, Repr

def DocumentationMode.name : DocumentationMode → String
  | ignore => "none"
  | parse => "parse"
  | diagnose => "diagnose"

structure ParseOptions where
  languageVersion : String
  /-- Preprocessor symbols, in the order of their definition. -/
  symbols : List String := []
  documentation : DocumentationMode := .ignore
  /-- Feature flags of the front end. -/
  features : List String := []
deriving DecidableEq, Repr

structure CompilationOptions where
  outputKind : OutputKind := .library
  optimization : OptimizationLevel := .debug
  allowUnsafe : Bool := false
  /-- Identifiers of diagnostics that are never reported. -/
  suppressed : Std.TreeSet String compare := ∅
  /-- Switches for front ends that are set up by a command line. -/
  otherFlags : List String := []

/-- Libraries by name, in order and without repeats. -/
structure ReferenceSet where
  libraries : List String
  nodup : libraries.Nodup

namespace ReferenceSet

def empty : ReferenceSet := ⟨[], List.nodup_nil⟩

def contains (s : ReferenceSet) (library : String) : Bool :=
  s.libraries.contains library

def insert (s : ReferenceSet) (library : String) : ReferenceSet :=
  if h : library ∈ s.libraries then s
  else
    ⟨s.libraries ++ [library],
      List.nodup_append.2 ⟨s.nodup, by simp, by rintro a ha b hb rfl; simp_all⟩⟩

def extend (s : ReferenceSet) (libraries : List String) : ReferenceSet :=
  libraries.foldl insert s

def ofList (libraries : List String) : ReferenceSet :=
  empty.extend libraries

end ReferenceSet

/-- A symbol list with a symbol taken out and, if it is to be defined, put at
the end. -/
def setSymbol (symbols : List String) (symbol : String) (defined : Bool) : List String :=
  symbols.filter (· != symbol) ++ if defined then [symbol] else []

end GuestGate
