import GuestGate.Proofs.Session.Settling

/-!
# What a level leaves alone

Setting a level is about the settings for debugging.  The flags of F# are edited in place, so
whatever else a client has put among them stays.  C# and Visual Basic write the whole list of
symbols anew instead, so there only the symbols stay that the language itself defines.
-/

namespace GuestGate

namespace Language

/-- The symbol by which code can tell that it is compiled for debugging, where it is one of the
parse options. -/
def debugSymbol? : Language → Option String
  | csharp => some "DEBUG"
  | fsharp => none
  | visualBasic => some "DEBUG=True"

def ownSymbols : Language → List String
  | csharp => [experimentalSymbol]
  | fsharp | visualBasic => []

theorem filter_csharpSymbols (level : OptimizationLevel) :
    ((csharpSymbols level).filter fun symbol ↦ csharp.debugSymbol? != some symbol) =
      csharp.ownSymbols := by
  cases level <;> decide

theorem filter_visualBasicSymbols (level : OptimizationLevel) :
    ((visualBasicSymbols level).filter fun symbol ↦ visualBasic.debugSymbol? != some symbol) =
      visualBasic.ownSymbols := by
  cases level <;> decide

end Language

namespace Session

def otherSymbols (s : Session) : List String :=
  s.parse.symbols.filter fun symbol ↦ s.language.debugSymbol? != some symbol

def freeFlags (s : Session) : List String :=
  s.options.otherFlags.filter Language.isFreeFlag

/-- Two sessions differ in nothing but their symbols, their flags and their level. -/
def SameElsewhere (s t : Session) : Prop :=
  { t with
    parse := { t.parse with symbols := s.parse.symbols }
    options := { t.options with
      otherFlags := s.options.otherFlags
      optimization := s.options.optimization } } = s

/-- Two sessions differ in nothing but their settings for debugging. -/
structure Framed (s t : Session) : Prop where
  symbols : t.otherSymbols = s.otherSymbols
  flags : t.freeFlags = s.freeFlags
  elsewhere : s.SameElsewhere t

variable (s : Session) (level : OptimizationLevel)

theorem language_setOptimization : (s.setOptimization level).language = s.language := rfl

theorem sameElsewhere_setOptimization : s.SameElsewhere (s.setOptimization level) := by
  obtain ⟨language, text, target, parse, options, references, cancelled⟩ := s
  cases language <;> rfl

theorem otherFlags_setOptimization (h : s.language ≠ .fsharp) :
    (s.setOptimization level).options.otherFlags = s.options.otherFlags := by
  unfold setOptimization Language.optionsAtLevel
  cases hlanguage : s.language with
  | csharp => rfl
  | visualBasic => rfl
  | fsharp => contradiction

theorem freeFlags_setOptimization : (s.setOptimization level).freeFlags = s.freeFlags := by
  unfold freeFlags
  by_cases hfsharp : s.language = .fsharp
  · unfold setOptimization Language.optionsAtLevel
    rw [hfsharp]
    simp only [Language.fsharpFlags_eq, List.filter_append,
      Language.filter_isFreeFlag_levelFlags, List.append_nil, List.filter_filter, Bool.and_self]
  · rw [s.otherFlags_setOptimization level hfsharp]

/-- Where the symbols are written anew, those of the language are left. -/
theorem otherSymbols_setOptimization (h : s.language ≠ .fsharp) :
    (s.setOptimization level).otherSymbols = s.language.ownSymbols := by
  unfold otherSymbols
  rw [language_setOptimization]
  unfold setOptimization Language.parseAtLevel
  cases hlanguage : s.language with
  | csharp => exact Language.filter_csharpSymbols level
  | visualBasic => exact Language.filter_visualBasicSymbols level
  | fsharp => contradiction

theorem symbols_setOptimization (h : s.language = .fsharp) :
    (s.setOptimization level).parse.symbols = s.parse.symbols := by
  unfold setOptimization
  rw [h]
  rfl

/-- Of a row of levels only the last counts. -/
theorem exists_foldl_setOptimization (levels : List OptimizationLevel) :
    ∃ last ∈ level :: levels,
      (level :: levels).foldl setOptimization s = s.setOptimization last := by
  induction levels generalizing level with
  | nil => exact ⟨level, List.mem_singleton_self _, rfl⟩
  | cons next levels ih =>
      obtain ⟨last, hlast, heq⟩ := ih next
      refine ⟨last, List.mem_cons_of_mem _ hlast, ?_⟩
      rw [← heq, List.foldl_cons, List.foldl_cons, List.foldl_cons,
        setOptimization_setOptimization]

/-- Setting levels, as often as one likes, leaves all flags that are free of them alone, and
everything else but the symbols.  It leaves the other symbols alone exactly for F# and for
sessions that have no symbols of their own: for C# and Visual Basic those of the language are
all that is left. -/
theorem levels_framed_iff (levels : List OptimizationLevel) :
    let t := (level :: levels).foldl setOptimization s
    (s.Framed t ↔ s.language = .fsharp ∨ s.otherSymbols = s.language.ownSymbols) ∧
    t.freeFlags = s.freeFlags ∧ s.SameElsewhere t ∧
    (s.language = .fsharp → t.parse.symbols = s.parse.symbols) ∧
    (s.language ≠ .fsharp →
      t.otherSymbols = s.language.ownSymbols ∧ t.options.otherFlags = s.options.otherFlags) := by
  intro t
  obtain ⟨last, -, ht⟩ : ∃ last ∈ level :: levels, t = s.setOptimization last :=
    s.exists_foldl_setOptimization level levels
  rw [ht]
  have hflags := s.freeFlags_setOptimization last
  have helsewhere := s.sameElsewhere_setOptimization last
  refine ⟨⟨?_, ?_⟩, hflags, helsewhere, s.symbols_setOptimization last, ?_⟩
  · intro hframed
    by_cases hfsharp : s.language = .fsharp
    · exact .inl hfsharp
    · exact .inr (hframed.symbols.symm.trans (s.otherSymbols_setOptimization last hfsharp))
  · intro hsymbols
    refine ⟨?_, hflags, helsewhere⟩
    by_cases hfsharp : s.language = .fsharp
    · unfold otherSymbols
      rw [s.symbols_setOptimization last hfsharp, language_setOptimization]
    · rw [s.otherSymbols_setOptimization last hfsharp, hsymbols.resolve_left hfsharp]
  · intro hother
    exact ⟨s.otherSymbols_setOptimization last hother, s.otherFlags_setOptimization last hother⟩

def tracing (language : Language) (symbol : String) : Session :=
  let s := start language (language.defaults {})
  { s with parse := { s.parse with symbols := s.parse.symbols ++ [symbol] } }

/-- Going over to release takes a symbol away that has nothing to do with debugging. -/
theorem symbol_lost_at_release :
    (tracing .csharp "TRACE").otherSymbols = [Language.experimentalSymbol, "TRACE"] ∧
    ((tracing .csharp "TRACE").setOptimization .release).otherSymbols =
      [Language.experimentalSymbol] ∧
    (tracing .visualBasic "TRACE=1").otherSymbols = ["TRACE=1"] ∧
    ((tracing .visualBasic "TRACE=1").setOptimization .release).otherSymbols = [] := by
  decide

end Session

end GuestGate
