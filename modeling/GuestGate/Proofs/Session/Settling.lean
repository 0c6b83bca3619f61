import GuestGate.Session.Basic

/-!
# What options settle to

A session takes options one by one, and each language keeps them in its own places.  However
long the list, only its last level and its last target count, in either order: setting one
again replaces what it set before, and the two write to different places.  For F# this is a
matter of the flags, which a client may have filled with anything.
-/

namespace GuestGate

namespace Language

/-! ### Flags of F# -/

def levelFlags : OptimizationLevel → List String
  | .debug => ["--debug+", "--optimize-", "--define:DEBUG"]
  | .release => ["--debug-", "--optimize+"]

def isFreeFlag (flag : String) : Bool :=
  flag != "--define:DEBUG" && ((flag != "--optimize+" && flag != "--optimize-") &&
    (flag != "--debug+" && flag != "--debug-"))

/-- Setting a level keeps the flags that are free of it, in order, and puts its own behind
them. -/
theorem fsharpFlags_eq (flags : List String) (level : OptimizationLevel) :
    fsharpFlags flags level = flags.filter isFreeFlag ++ levelFlags level := by
  have hfree : isFreeFlag = fun flag ↦ flag != "--define:DEBUG" &&
      ((flag != "--optimize+" && flag != "--optimize-") &&
        (flag != "--debug+" && flag != "--debug-")) := rfl
  cases level <;>
    simp [fsharpFlags, setSymbol, setSwitch, levelFlags, hfree, List.filter_filter]

theorem filter_isFreeFlag_levelFlags (level : OptimizationLevel) :
    (levelFlags level).filter isFreeFlag = [] := by
  cases level <;> decide

/-- Flags of an earlier level are taken out again. -/
theorem fsharpFlags_fsharpFlags (flags : List String) (earlier level : OptimizationLevel) :
    fsharpFlags (fsharpFlags flags earlier) level = fsharpFlags flags level := by
  rw [fsharpFlags_eq, fsharpFlags_eq, fsharpFlags_eq, List.filter_append,
    filter_isFreeFlag_levelFlags, List.append_nil, List.filter_filter]
  simp only [Bool.and_self]

/-! ### Setting again -/

variable (language : Language)

theorem parseAtLevel_parseAtLevel (earlier level : OptimizationLevel) (parse : ParseOptions) :
    language.parseAtLevel level (language.parseAtLevel earlier parse) =
      language.parseAtLevel level parse := by
  cases language <;> rfl

theorem optionsAtLevel_optionsAtLevel (earlier level : OptimizationLevel)
    (options : CompilationOptions) :
    language.optionsAtLevel level (language.optionsAtLevel earlier options) =
      language.optionsAtLevel level options := by
  cases language with
  | csharp => rfl
  | visualBasic => rfl
  | fsharp => simp only [optionsAtLevel, fsharpFlags_fsharpFlags]

theorem optionsForTarget_optionsForTarget (earlier target : String)
    (options : CompilationOptions) :
    language.optionsForTarget target (language.optionsForTarget earlier options) =
      language.optionsForTarget target options := by
  cases language <;> rfl

/-- A level and a target are kept in different places. -/
theorem optionsAtLevel_optionsForTarget (level : OptimizationLevel) (target : String)
    (options : CompilationOptions) :
    language.optionsAtLevel level (language.optionsForTarget target options) =
      language.optionsForTarget target (language.optionsAtLevel level options) := by
  cases language <;> rfl

end Language

namespace Session

variable (s : Session)

theorem setOptimization_setOptimization (earlier level : OptimizationLevel) :
    (s.setOptimization earlier).setOptimization level = s.setOptimization level := by
  simp only [setOptimization, Language.parseAtLevel_parseAtLevel,
    Language.optionsAtLevel_optionsAtLevel]

theorem setTarget_setTarget (earlier target : String) :
    (s.setTarget earlier).setTarget target = s.setTarget target := by
  simp only [setTarget, adjustToTarget, Language.optionsForTarget_optionsForTarget]

theorem setOptimization_setTarget (level : OptimizationLevel) (target : String) :
    (s.setTarget target).setOptimization level = (s.setOptimization level).setTarget target := by
  simp only [setOptimization, setTarget, adjustToTarget,
    Language.optionsAtLevel_optionsForTarget]

def settle (level : Option OptimizationLevel) (target : Option String) : Session :=
  let s := level.elim s s.setOptimization
  target.elim s s.setTarget

theorem settle_setOptimization (earlier : OptimizationLevel) (level : Option OptimizationLevel)
    (target : Option String) :
    (s.setOptimization earlier).settle level target =
      s.settle (level.or (some earlier)) target := by
  cases level with
  | none => rfl
  | some level =>
      simp only [settle, Option.elim_some, Option.or, setOptimization_setOptimization]

theorem settle_setTarget (earlier : String) (level : Option OptimizationLevel)
    (target : Option String) :
    (s.setTarget earlier).settle level target = s.settle level (target.or (some earlier)) := by
  cases level <;> cases target <;>
    simp [settle, setTarget_setTarget, setOptimization_setTarget]

/-! ### Lists of options -/

/-- The value that a list of options gives to a name last. -/
def lastValue? (name : String) (options : List (String × String)) : Option String :=
  ((options.filter (·.1 == name)).getLast?).map Prod.snd

def lastOption (name : String) (options : List (String × String)) : List (String × String) :=
  (lastValue? name options).toList.map fun value ↦ (name, value)

/-- The names that are neither of the known ones, in order and with repeats. -/
def unknownNames (options : List (String × String)) : List String :=
  (options.map Prod.fst).filter fun name ↦ name != optimizeOption && name != targetOption

/-- Whether an option can be read: a level has to be one of the two. -/
def IsReadable (option : String × String) : Prop :=
  option.1 = optimizeOption → option.2 = "debug" ∨ option.2 = "release"

theorem lastValue?_cons (name : String) (option : String × String)
    (rest : List (String × String)) :
    lastValue? name (option :: rest) =
      (lastValue? name rest).or (if option.1 = name then some option.2 else none) := by
  unfold lastValue?
  by_cases hname : option.1 = name
  · simp only [List.filter_cons, hname, beq_self_eq_true, if_true, List.getLast?_cons]
    cases (rest.filter (·.1 == name)).getLast? <;> rfl
  · simp [hname]

theorem mem_of_lastValue? {name value : String} {options : List (String × String)}
    (h : lastValue? name options = some value) : (name, value) ∈ options := by
  obtain ⟨option, hlast, rfl⟩ := Option.map_eq_some_iff.mp h
  obtain ⟨hmem, hname⟩ := List.mem_filter.mp (List.mem_of_getLast? hlast)
  exact beq_iff_eq.mp hname ▸ hmem

theorem mem_of_mem_lastOption {name : String} {options : List (String × String)}
    {option : String × String} (h : option ∈ lastOption name options) : option ∈ options := by
  obtain ⟨value, hvalue, rfl⟩ := List.mem_map.mp h
  exact mem_of_lastValue? (Option.mem_toList.mp hvalue)

theorem lastValue?_lastOption (name : String) (options : List (String × String)) :
    lastValue? name (lastOption name options) = lastValue? name options := by
  rw [lastOption]
  generalize lastValue? name options = value
  cases value <;> simp [lastValue?]

theorem lastValue?_lastOption_of_ne {name other : String} (hne : other ≠ name)
    (options : List (String × String)) : lastValue? name (lastOption other options) = none := by
  rw [lastOption]
  generalize lastValue? other options = value
  cases value <;> simp [lastValue?, hne]

theorem lastValue?_append (name : String) (options others : List (String × String)) :
    lastValue? name (options ++ others) =
      (lastValue? name others).or (lastValue? name options) := by
  unfold lastValue?
  rw [List.filter_append, List.getLast?_append]
  cases (others.filter (·.1 == name)).getLast? <;> rfl

/-! ### Applying a list -/

theorem isReadable_level_iff {word : String} :
    IsReadable (optimizeOption, word) ↔ ∃ level, OptimizationLevel.ofName? word = some level := by
  unfold IsReadable OptimizationLevel.ofName?
  split
  · simp_all
  · split <;> simp_all

/-- The level that a list of options gives last. -/
def lastLevel? (options : List (String × String)) : Option OptimizationLevel :=
  (lastValue? optimizeOption options).bind OptimizationLevel.ofName?

theorem lastLevel?_cons {word : String} {level : OptimizationLevel}
    {rest : List (String × String)} (hword : OptimizationLevel.ofName? word = some level)
    (hrest : ∀ option ∈ rest, IsReadable option) :
    lastLevel? ((optimizeOption, word) :: rest) = (lastLevel? rest).or (some level) := by
  rw [lastLevel?, lastLevel?, lastValue?_cons, if_pos rfl]
  cases hlast : lastValue? optimizeOption rest with
  | none => exact hword
  | some later =>
      obtain ⟨other, hother⟩ := isReadable_level_iff.mp (hrest _ (mem_of_lastValue? hlast))
      simp [hother]

theorem lastLevel?_cons_of_ne {name : String} (hne : name ≠ optimizeOption) (value : String)
    (rest : List (String × String)) : lastLevel? ((name, value) :: rest) = lastLevel? rest := by
  rw [lastLevel?, lastLevel?, lastValue?_cons, if_neg hne, Option.or_none]

/-- Options that can all be read come down to their last level and their last target. -/
theorem applyOptions_of_readable {options : List (String × String)}
    (h : ∀ option ∈ options, IsReadable option) :
    s.applyOptions options =
      (s.settle (lastLevel? options) (lastValue? targetOption options),
        .ok (unknownNames options)) := by
  induction options generalizing s with
  | nil => rfl
  | cons option rest ih =>
      obtain ⟨name, value⟩ := option
      obtain ⟨hfirst, hrest⟩ := List.forall_mem_cons.mp h
      by_cases hlevel : name = optimizeOption
      · subst hlevel
        obtain ⟨level, hvalue⟩ := isReadable_level_iff.mp hfirst
        have happly : s.applyOption optimizeOption value = .ok (s.setOptimization level, true) := by
          simp [applyOption, levelOfValue, hvalue, bind, Except.bind, pure, Except.pure]
        simp only [applyOptions, happly, ih _ hrest, settle_setOptimization,
          lastLevel?_cons hvalue hrest, lastValue?_cons]
        simp [unknownNames, optimizeOption, targetOption]
      by_cases htarget : name = targetOption
      · subst htarget
        have happly : s.applyOption targetOption value = .ok (s.setTarget value, true) := by
          simp [applyOption, optimizeOption, targetOption]
        simp only [applyOptions, happly, ih _ hrest, settle_setTarget,
          lastLevel?_cons_of_ne hlevel, lastValue?_cons]
        simp [unknownNames]
      · have happly : s.applyOption name value = .ok (s, false) := by
          simp [applyOption, hlevel, htarget]
        simp only [applyOptions, happly, ih _ hrest, lastLevel?_cons_of_ne hlevel,
          lastValue?_cons]
        simp [unknownNames, hlevel, htarget, Except.map]

/-- Options behind others that were all applied go on from there. -/
theorem applyOptions_append {before : List (String × String)} {unknown : List String}
    (h : (s.applyOptions before).2 = .ok unknown) (after : List (String × String)) :
    s.applyOptions (before ++ after) =
      (((s.applyOptions before).1.applyOptions after).1,
        ((s.applyOptions before).1.applyOptions after).2.map (unknown ++ ·)) := by
  induction before generalizing s unknown with
  | nil =>
      cases h
      cases hafter : (s.applyOptions after).2 <;>
        simp [applyOptions, hafter, Except.map, Prod.ext_iff]
  | cons option rest ih =>
      obtain ⟨name, value⟩ := option
      simp only [applyOptions, List.cons_append] at h ⊢
      cases hfirst : s.applyOption name value with
      | error failure => simp [hfirst] at h
      | ok applied =>
          obtain ⟨t, known⟩ := applied
          simp only [hfirst] at h ⊢
          cases hrest : (t.applyOptions rest).2 with
          | error failure => cases known <;> simp [hrest, Except.map] at h
          | ok names =>
              rw [ih t hrest]
              cases known with
              | true =>
                  rw [hrest] at h
                  cases h
                  rfl
              | false =>
                  rw [hrest] at h
                  cases h
                  cases ((t.applyOptions rest).1.applyOptions after).2 <;> rfl

/-- Options are applied up to the first that cannot be read. -/
theorem applyOptions_of_unreadable {before : List (String × String)} {value : String}
    (hbefore : ∀ option ∈ before, IsReadable option)
    (hvalue : ¬ IsReadable (optimizeOption, value)) (after : List (String × String)) :
    s.applyOptions (before ++ (optimizeOption, value) :: after) =
      ((s.applyOptions before).1, .error (.invalidOption optimizeOption value)) := by
  have hnone : OptimizationLevel.ofName? value = none := by
    rw [isReadable_level_iff, ← Option.isSome_iff_exists, Option.not_isSome_iff_eq_none] at hvalue
    exact hvalue
  have hdone := congrArg Prod.snd (s.applyOptions_of_readable hbefore)
  rw [s.applyOptions_append hdone]
  simp [applyOptions, applyOption, levelOfValue, hnone, bind, Except.bind, Except.map]

theorem exists_first_unreadable {options : List (String × String)}
    (h : ¬ ∀ option ∈ options, IsReadable option) : ∃ before value after,
    options = before ++ (optimizeOption, value) :: after ∧
      (∀ option ∈ before, IsReadable option) ∧ ¬ IsReadable (optimizeOption, value) := by
  induction options with
  | nil => exact absurd (List.forall_mem_nil _) h
  | cons option rest ih =>
      by_cases hfirst : IsReadable option
      · have hrest : ¬ ∀ option ∈ rest, IsReadable option := fun hall ↦
          h (List.forall_mem_cons.mpr ⟨hfirst, hall⟩)
        obtain ⟨before, value, after, rfl, hbefore, hvalue⟩ := ih hrest
        exact ⟨option :: before, value, after, rfl,
          List.forall_mem_cons.mpr ⟨hfirst, hbefore⟩, hvalue⟩
      · obtain ⟨name, value⟩ := option
        have hname : name = optimizeOption := (Classical.not_imp.mp hfirst).1
        subst hname
        exact ⟨[], value, rest, rfl, List.forall_mem_nil _, hfirst⟩

/-- The last options of two names keep the last values of both. -/
theorem lastValue?_lastOptions {first second : String} (hne : first ≠ second)
    (options : List (String × String)) :
    lastValue? first (lastOption first options ++ lastOption second options) =
        lastValue? first options ∧
      lastValue? second (lastOption first options ++ lastOption second options) =
        lastValue? second options := by
  constructor
  · rw [lastValue?_append, lastValue?_lastOption_of_ne hne.symm, lastValue?_lastOption,
      Option.none_or]
  · rw [lastValue?_append, lastValue?_lastOption, lastValue?_lastOption_of_ne hne,
      Option.or_none]

theorem unknownNames_lastOptions (options : List (String × String)) {first second : String}
    (hfirst : first ∈ [optimizeOption, targetOption])
    (hsecond : second ∈ [optimizeOption, targetOption]) :
    unknownNames (lastOption first options ++ lastOption second options) = [] := by
  have hknown : ∀ name ∈ [optimizeOption, targetOption],
      (name != optimizeOption && name != targetOption) = false := by decide
  refine List.filter_eq_nil_iff.mpr fun name hname ↦ Bool.eq_false_iff.mp ?_
  obtain ⟨option, hoption, rfl⟩ := List.mem_map.mp hname
  obtain hoption | hoption := List.mem_append.mp hoption <;>
    obtain ⟨value, -, rfl⟩ := List.mem_map.mp hoption
  · exact hknown _ hfirst
  · exact hknown _ hsecond

/-- Lists with the same last level and the same last target leave the same session. -/
theorem applyOptions_eq_of_last {options others : List (String × String)}
    (h : ∀ option ∈ options, IsReadable option) (hsubset : others ⊆ options)
    (hlevel : lastValue? optimizeOption others = lastValue? optimizeOption options)
    (htarget : lastValue? targetOption others = lastValue? targetOption options) :
    s.applyOptions others = ((s.applyOptions options).1, .ok (unknownNames others)) := by
  rw [s.applyOptions_of_readable h,
    s.applyOptions_of_readable fun option hoption ↦ h option (hsubset hoption),
    lastLevel?, lastLevel?, hlevel, htarget]

theorem lastOptions_subset (first second : String) (options : List (String × String)) :
    lastOption first options ++ lastOption second options ⊆ options :=
  List.append_subset.mpr ⟨fun _ ↦ mem_of_mem_lastOption, fun _ ↦ mem_of_mem_lastOption⟩

/-- The last level and the last target alone, in either order, do what the whole list does. -/
theorem applyOptions_lastOptions {options : List (String × String)}
    (h : ∀ option ∈ options, IsReadable option) :
    s.applyOptions (lastOption optimizeOption options ++ lastOption targetOption options) =
        ((s.applyOptions options).1, .ok []) ∧
      s.applyOptions (lastOption targetOption options ++ lastOption optimizeOption options) =
        ((s.applyOptions options).1, .ok []) := by
  have hne : optimizeOption ≠ targetOption := by decide
  constructor
  · have hlast := lastValue?_lastOptions hne options
    rw [s.applyOptions_eq_of_last h (lastOptions_subset _ _ _) hlast.1 hlast.2,
      unknownNames_lastOptions options (by decide) (by decide)]
  · have hlast := lastValue?_lastOptions hne.symm options
    rw [s.applyOptions_eq_of_last h (lastOptions_subset _ _ _) hlast.2 hlast.1,
      unknownNames_lastOptions options (by decide) (by decide)]

theorem settle_keeps (level : Option OptimizationLevel) (target : Option String) :
    (s.settle level target).text = s.text ∧ (s.settle level target).references = s.references ∧
      (s.settle level target).cancelled = s.cancelled ∧
      (s.settle level target).language = s.language := by
  cases level <;> cases target <;> exact ⟨rfl, rfl, rfl, rfl⟩

/-- In a session of any language and in any state, a list of options is accepted exactly if
all its levels can be read.  Then only its last level and its last target count, in either
order, and the answer has the names that are not known.  Otherwise the options in front of the
first level that cannot be read are applied and no more.  Nothing else of the session is for
options to change. -/
theorem applyOptions_settles (s : Session) (options : List (String × String)) :
    ((∃ unknown, (s.applyOptions options).2 = .ok unknown) ↔
      ∀ option ∈ options, IsReadable option) ∧
    (∀ unknown, (s.applyOptions options).2 = .ok unknown →
      unknown = unknownNames options ∧
      s.applyOptions (lastOption optimizeOption options ++ lastOption targetOption options) =
        ((s.applyOptions options).1, .ok []) ∧
      s.applyOptions (lastOption targetOption options ++ lastOption optimizeOption options) =
        ((s.applyOptions options).1, .ok [])) ∧
    (∀ failure, (s.applyOptions options).2 = .error failure → ∃ before value after,
      options = before ++ (optimizeOption, value) :: after ∧
      (∀ option ∈ before, IsReadable option) ∧ ¬ IsReadable (optimizeOption, value) ∧
      (s.applyOptions options).1 = (s.applyOptions before).1 ∧
      failure = .invalidOption optimizeOption value) ∧
    (s.applyOptions options).1.text = s.text ∧
    (s.applyOptions options).1.references = s.references ∧
    (s.applyOptions options).1.cancelled = s.cancelled ∧
    (s.applyOptions options).1.language = s.language := by
  by_cases hall : ∀ option ∈ options, IsReadable option
  · have hdone := s.applyOptions_of_readable hall
    refine ⟨⟨fun _ ↦ hall, fun _ ↦ ⟨_, congrArg Prod.snd hdone⟩⟩, fun unknown hok ↦ ?_,
      fun failure herror ↦ ?_, ?_⟩
    · rw [congrArg Prod.snd hdone] at hok
      exact ⟨(Except.ok.inj hok).symm, s.applyOptions_lastOptions hall⟩
    · rw [congrArg Prod.snd hdone] at herror
      cases herror
    · rw [hdone]
      exact s.settle_keeps _ _
  · obtain ⟨before, value, after, rfl, hbefore, hvalue⟩ := exists_first_unreadable hall
    have hstop := s.applyOptions_of_unreadable hbefore hvalue after
    rw [hstop]
    refine ⟨⟨fun ⟨_, hok⟩ ↦ (nomatch hok), fun hreadable ↦ absurd hreadable hall⟩,
      fun unknown hok ↦ (nomatch hok), fun failure herror ↦ ?_, ?_⟩
    · cases herror
      exact ⟨before, value, after, rfl, hbefore, hvalue, rfl, rfl⟩
    · rw [s.applyOptions_of_readable hbefore]
      exact s.settle_keeps _ _

end Session

end GuestGate
