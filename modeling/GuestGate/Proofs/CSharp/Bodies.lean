import GuestGate.Proofs.CSharp.Brackets
import GuestGate.Proofs.CSharp.Scanning

/-!
# Bodies of members

Whatever matching braces a body has inside, a scan that has read it is in the state in which it
was.  So the statements of a body only move what comes behind them, and a scan looks at places
only to report them.
-/

namespace GuestGate.CSharp

/-- Inside the body of a member matching braces leave nothing behind. -/
theorem Scanner.foldl_push_matched {s : Scanner} {method : Option Nat} {outer : List Scope}
    {ts : List Token} (hscopes : s.scopes = .memberBody method :: outer)
    (h : Brackets.blocks.Matched 0 ts) : ts.foldl push s = s := by
  have hsame := foldl_push_inside (Brackets.proper_blocks.balanced_iff.mpr h) hscopes
  rw [hsame, ← hscopes]

/-! ### Headers without places -/

/-- A token that stands nowhere. -/
def Token.unplaced (t : Token) : Token :=
  { t with position := ⟨0, 0⟩ }

def MethodHeader.unplaced (m : MethodHeader) : MethodHeader :=
  ⟨m.name.unplaced, m.parameters.map Token.unplaced⟩

theorem topLevel_unplaced (depth : Nat) (ts : List Token) :
    topLevel depth (ts.map Token.unplaced) = (topLevel depth ts).map Token.unplaced := by
  induction ts generalizing depth with
  | nil => rfl
  | cons t ts ih =>
      have hdepth : t.unplaced.depthAfter depth = t.depthAfter depth := rfl
      rw [List.map_cons, topLevel, topLevel, hdepth, ih]
      split <;> rfl

theorem hasTopWord_unplaced (header : List Token) (word : String) :
    hasTopWord (header.map Token.unplaced) word = hasTopWord header word := by
  rw [hasTopWord, topLevel_unplaced, List.any_map]
  rfl

theorem hasInitializer_unplaced (header : List Token) :
    hasInitializer (header.map Token.unplaced) = hasInitializer header := by
  rw [hasInitializer, topLevel_unplaced, List.any_map]
  rfl

theorem afterTypeKeyword?_unplaced (depth : Nat) (ts : List Token) :
    afterTypeKeyword? depth (ts.map Token.unplaced) =
      (afterTypeKeyword? depth ts).map (List.map Token.unplaced) := by
  induction ts generalizing depth with
  | nil => rfl
  | cons t ts ih =>
      have hparen : t.unplaced.isPunct "(" = t.isPunct "(" := rfl
      have hword : t.unplaced.isOneOf typeKeywords = t.isOneOf typeKeywords := rfl
      have hdepth : t.unplaced.depthAfter depth = t.depthAfter depth := rfl
      rw [List.map_cons, afterTypeKeyword?, afterTypeKeyword?, hparen, hword, hdepth, ih]
      split
      · rfl
      split <;> rfl

theorem declaredType?_unplaced (header : List Token) :
    declaredType? (header.map Token.unplaced) = declaredType? header := by
  rw [declaredType?, afterTypeKeyword?_unplaced, declaredType?]
  cases afterTypeKeyword? 0 header with
  | none => rfl
  | some rest =>
      have hname : (rest.map Token.unplaced).find?
          (fun t ↦ t.kind == .ident && !t.isOneOf typeKeywords) =
            (rest.find? fun t ↦ t.kind == .ident && !t.isOneOf typeKeywords).map Token.unplaced :=
        List.find?_map
      simp only [Option.map_some, Option.bind_eq_bind, Option.bind_some, hname]
      cases rest.find? fun t ↦ t.kind == .ident && !t.isOneOf typeKeywords <;> rfl

theorem skipArguments_unplaced (depth : Nat) (before : List Token) :
    skipArguments depth (before.map Token.unplaced) =
      (skipArguments depth before).map (List.map Token.unplaced) := by
  induction before generalizing depth with
  | nil => rfl
  | cons t before ih =>
      have hclose : t.unplaced.isPunct ">" = t.isPunct ">" := rfl
      have hopen : t.unplaced.isPunct "<" = t.isPunct "<" := rfl
      rw [List.map_cons, skipArguments, skipArguments, hclose, hopen]
      simp only [ih]
      split
      · rfl
      split
      · split <;> rfl
      · rfl

theorem head?_isIdent_unplaced (ts : List Token) (word : String) :
    ((ts.map Token.unplaced).head?.map (·.isIdent word)).getD false =
      (ts.head?.map (·.isIdent word)).getD false := by
  cases ts <;> rfl

theorem nameBefore?_unplaced (before : List Token) :
    nameBefore? (before.map Token.unplaced) = (nameBefore? before).map Token.unplaced := by
  cases before with
  | nil => rfl
  | cons t before =>
      have hclose : t.unplaced.isPunct ">" = t.isPunct ">" := rfl
      have hskip := skipArguments_unplaced 0 (t :: before)
      rw [List.map_cons] at hskip
      rw [List.map_cons, nameBefore?, nameBefore?]
      simp only [hclose, hskip]
      cases t.isPunct ">" with
      | false =>
          simp only [Bool.false_eq_true, if_false, head?_isIdent_unplaced]
          rw [apply_ite (Option.map Token.unplaced)]
          rfl
      | true =>
          rcases skipArguments 0 (t :: before) with _ | _ | ⟨name, earlier⟩
          · rfl
          · rfl
          · simp only [if_true, Option.map_some, List.map_cons, head?_isIdent_unplaced]
            rw [apply_ite (Option.map Token.unplaced)]
            rfl

theorem parameterList?_unplaced (depth : Nat) (before ts : List Token) :
    parameterList? depth (before.map Token.unplaced) (ts.map Token.unplaced) =
      (parameterList? depth before ts).map MethodHeader.unplaced := by
  induction ts generalizing depth before with
  | nil => rfl
  | cons t ts ih =>
      have hequals : t.unplaced.isPunct "=" = t.isPunct "=" := rfl
      have harrow : t.unplaced.isPunct "=>" = t.isPunct "=>" := rfl
      have hparen : t.unplaced.isPunct "(" = t.isPunct "(" := rfl
      have hdepth : t.unplaced.depthAfter depth = t.depthAfter depth := rfl
      have hrest := ih (t.depthAfter depth) (t :: before)
      rw [List.map_cons] at hrest
      rw [List.map_cons, parameterList?, parameterList?, hequals, harrow, hparen, hdepth, hrest,
        nameBefore?_unplaced]
      split
      · rfl
      split
      · cases nameBefore? before <;> rfl
      · rfl

theorem methodHeader?_unplaced (header : List Token) :
    methodHeader? (header.map Token.unplaced) =
      (methodHeader? header).map MethodHeader.unplaced := by
  have hparameters := parameterList?_unplaced 0 [] header
  rw [methodHeader?, hasTopWord_unplaced, methodHeader?]
  split
  · rfl
  · exact hparameters

theorem parameterLinesFrom_unplaced (scan : ParameterScan) (ts : List Token) :
    parameterLinesFrom scan (ts.map Token.unplaced) =
      (parameterLinesFrom scan ts).map fun _ ↦ 0 := by
  induction ts generalizing scan with
  | nil => rfl
  | cons t ts ih =>
      obtain ⟨depth, fresh⟩ := scan
      have hclosing : t.unplaced.isPunct ")" = t.isPunct ")" := rfl
      have hcomma : t.unplaced.isPunct "," = t.isPunct "," := rfl
      rw [List.map_cons, parameterLinesFrom, parameterLinesFrom, hclosing, hcomma]
      simp only [ih]
      split
      · rfl
      split
      · rfl
      cases fresh <;> rfl

/-! ### States without places -/

def Method.unplaced (m : Method) : Method :=
  ⟨m.name, ⟨0, 0⟩, ⟨0, 0⟩, m.parameterLines.map fun _ ↦ 0⟩

def StaticInitializer.unplaced (i : StaticInitializer) : StaticInitializer :=
  ⟨i.typeName, 0⟩

def Declarations.unplaced (d : Declarations) : Declarations :=
  ⟨d.methods.map Method.unplaced, d.staticInitializers.map StaticInitializer.unplaced⟩

namespace Scanner

def unplaced (s : Scanner) : Scanner :=
  ⟨s.scopes, s.header.map Token.unplaced, s.awaitsInitializer, s.found.unplaced⟩

theorem openTypes?_unplaced (s : Scanner) : s.unplaced.openTypes? = s.openTypes? := rfl

theorem recordStatic_unplaced (s : Scanner) (types : List String) :
    s.unplaced.recordStatic types = (s.recordStatic types).unplaced := by
  have hline : ((s.header.map Token.unplaced).head?.map fun t ↦ t.position.line).getD 0 = 0 := by
    cases s.header <;> rfl
  simp only [recordStatic, unplaced, hline, Declarations.unplaced, List.map_append]
  rfl

theorem recordMethod_unplaced (s : Scanner) (types : List String) (m : MethodHeader)
    (p : Position) :
    s.unplaced.recordMethod types m.unplaced ⟨0, 0⟩ = (s.recordMethod types m p).unplaced := by
  have hfirst : ((s.header.map Token.unplaced).head?.map Token.position).getD ⟨0, 0⟩ = ⟨0, 0⟩ := by
    cases s.header <;> rfl
  have hlines : parameterLines m.unplaced.parameters =
      (parameterLines m.parameters).map fun _ ↦ 0 := parameterLinesFrom_unplaced {} m.parameters
  have hstatic : isStatic (s.header.map Token.unplaced) = isStatic s.header :=
    hasTopWord_unplaced s.header "static"
  have hname : m.unplaced.methodName = m.methodName := rfl
  have hmethods (method : Method) :
      ({ s with found := { s.found with methods := s.found.methods ++ [method] } } :
        Scanner).unplaced = { s.unplaced with found := { s.unplaced.found with
          methods := s.unplaced.found.methods ++ [method.unplaced] } } := by
    simp only [unplaced, Declarations.unplaced, List.map_append]
    rfl
  unfold recordMethod
  rw [apply_ite unplaced, ← recordStatic_unplaced, hmethods, hname]
  simp only [unplaced, hfirst, hlines, hstatic]
  rfl

theorem openScope_unplaced (s : Scanner) (p : Position) :
    s.unplaced.openScope ⟨0, 0⟩ = ((s.openScope p).1.unplaced, (s.openScope p).2) := by
  have hnamespace : (s.header.map Token.unplaced).any (·.isIdent "namespace") =
      s.header.any (·.isIdent "namespace") := List.any_map
  have hstatic : isStatic (s.header.map Token.unplaced) = isStatic s.header :=
    hasTopWord_unplaced s.header "static"
  have hheader : s.unplaced.header = s.header.map Token.unplaced := rfl
  have hcount : s.unplaced.found.methods.length = s.found.methods.length := List.length_map ..
  unfold openScope
  rw [openTypes?_unplaced, hheader, hnamespace, declaredType?_unplaced]
  split
  · rfl
  split
  · rfl
  split
  · rfl
  · next types _ =>
      let settled : Scanner := { s with awaitsInitializer := false }
      simp only [methodHeader?_unplaced, hstatic, hasInitializer_unplaced, hcount]
      cases methodHeader? s.header with
      | some m => exact congrArg (·, Scope.memberBody _) (settled.recordMethod_unplaced types m p)
      | none =>
          simp only [Option.map_none]
          split
          · split
            · exact congrArg (·, Scope.memberBody none) (settled.recordStatic_unplaced types)
            · rfl
          · rfl

theorem endDeclaration_unplaced (s : Scanner) (p : Position) :
    s.unplaced.endDeclaration ⟨0, 0⟩ = (s.endDeclaration p).unplaced := by
  have hheader : s.unplaced.header = s.header.map Token.unplaced := rfl
  cases htypes : s.openTypes? with
  | none => rw [endDeclaration, endDeclaration, openTypes?_unplaced, htypes]
  | some types =>
      cases htokens : s.header with
      | nil =>
          rw [htokens] at hheader
          rw [endDeclaration, endDeclaration, openTypes?_unplaced, htypes, hheader, htokens]
          rfl
      | cons t ts =>
          have hequals : t.unplaced.isPunct "=" = t.isPunct "=" := rfl
          have hcons : s.unplaced.header = t.unplaced :: ts.map Token.unplaced := by
            rw [hheader, htokens, List.map_cons]
          have hstatic : isStatic ((t :: ts).map Token.unplaced) = isStatic (t :: ts) :=
            hasTopWord_unplaced (t :: ts) "static"
          have hawaits : s.unplaced.awaitsInitializer = s.awaitsInitializer := rfl
          simp only [endDeclaration, openTypes?_unplaced, htypes, hcons, htokens, hequals, hawaits]
          rw [← List.map_cons, declaredType?_unplaced, methodHeader?_unplaced, hstatic,
            hasInitializer_unplaced, recordStatic_unplaced]
          split
          · rfl
          cases methodHeader? (t :: ts) with
          | none => exact (apply_ite unplaced _ _ _).symm
          | some m => exact recordMethod_unplaced s types m p

theorem endMethod_unplaced (s : Scanner) (method : Nat) (p : Position) :
    s.unplaced.endMethod method ⟨0, 0⟩ = (s.endMethod method p).unplaced := by
  have hmodify : (s.found.methods.map Method.unplaced).modify method
        (fun m ↦ { m with last := ⟨0, 0⟩ }) =
      (s.found.methods.modify method fun m ↦ { m with last := p }).map Method.unplaced := by
    refine List.ext_getElem? fun i ↦ ?_
    simp only [List.getElem?_map, List.getElem?_modify]
    cases s.found.methods[i]? with
    | none => rfl
    | some m => exact congrArg some (by split <;> rfl)
  exact congrArg (fun methods ↦ ({ s.unplaced with found := { s.unplaced.found with methods } } :
    Scanner)) hmodify

theorem pushInBody_unplaced (s : Scanner) (method : Option Nat) (outer : List Scope) (t : Token) :
    s.unplaced.pushInBody method outer t.unplaced = (s.pushInBody method outer t).unplaced := by
  have hopen : t.unplaced.isPunct "\x7b" = t.isPunct "\x7b" := rfl
  have hclose : t.unplaced.isPunct "\x7d" = t.isPunct "\x7d" := rfl
  rw [pushInBody, pushInBody, hopen, hclose]
  split
  · rfl
  split
  · cases method with
    | none => rfl
    | some index => exact endMethod_unplaced { s with scopes := outer } index t.position
  · rfl

theorem pushOutside_unplaced (s : Scanner) (t : Token) :
    s.unplaced.pushOutside t.unplaced = (s.pushOutside t).unplaced := by
  have hopen : t.unplaced.isPunct "\x7b" = t.isPunct "\x7b" := rfl
  have hclose : t.unplaced.isPunct "\x7d" = t.isPunct "\x7d" := rfl
  have hend : t.unplaced.isPunct ";" = t.isPunct ";" := rfl
  have hplace : t.unplaced.position = ⟨0, 0⟩ := rfl
  rw [pushOutside, pushOutside, hopen, hclose, hend, hplace,
    openScope_unplaced s t.position, endDeclaration_unplaced s t.position]
  split
  · rfl
  split
  · rfl
  split
  · rfl
  · simp only [unplaced, List.map_append]
    rfl

/-- A token does to a state without places what it does to the state. -/
theorem push_unplaced (s : Scanner) (t : Token) :
    s.unplaced.push t.unplaced = (s.push t).unplaced := by
  have hscopes : s.unplaced.scopes = s.scopes := rfl
  unfold push
  rw [hscopes]
  split
  · exact pushInBody_unplaced s _ _ t
  · exact pushOutside_unplaced s t

theorem foldl_push_unplaced (s : Scanner) (ts : List Token) :
    (ts.map Token.unplaced).foldl push s.unplaced = (ts.foldl push s).unplaced := by
  induction ts generalizing s with
  | nil => rfl
  | cons t ts ih => rw [List.map_cons, List.foldl_cons, List.foldl_cons, push_unplaced, ih]

end Scanner

/-! ### Sources that differ in a body -/

structure BodyEdit (text text' : List Char) where
  before : List Token
  inside : List Token
  after : List Token
  isText : tokens text = before ++ (inside ++ after)
  before' : List Token
  inside' : List Token
  after' : List Token
  isText' : tokens text' = before' ++ (inside' ++ after')
  sameBefore : before.map Token.unplaced = before'.map Token.unplaced
  sameAfter : after.map Token.unplaced = after'.map Token.unplaced
  inBody : ∃ method outer, (before.foldl Scanner.push {}).scopes = .memberBody method :: outer
  matched : Brackets.blocks.Matched 0 inside
  matched' : Brackets.blocks.Matched 0 inside'

/-- What a body contains is left out of a scan. -/
theorem scan_unplaced {text : List Char} {before inside after : List Token}
    {method : Option Nat} {outer : List Scope} (h : tokens text = before ++ (inside ++ after))
    (hbody : (before.foldl Scanner.push {}).scopes = .memberBody method :: outer)
    (hinside : Brackets.blocks.Matched 0 inside) : (Declarations.scan text).unplaced =
      ((after.map Token.unplaced).foldl Scanner.push
        ((before.map Token.unplaced).foldl Scanner.push {})).found := by
  have hbefore := Scanner.foldl_push_unplaced {} before
  have hafter := Scanner.foldl_push_unplaced (before.foldl Scanner.push {}) after
  have hstart : Scanner.unplaced {} = {} := rfl
  rw [hstart] at hbefore
  rw [Declarations.scan, h, List.foldl_append, List.foldl_append,
    Scanner.foldl_push_matched hbody hinside, hbefore, hafter]
  rfl

theorem BodyEdit.unplaced_scan {text text' : List Char} (edit : BodyEdit text text') :
    (Declarations.scan text).unplaced = (Declarations.scan text').unplaced := by
  obtain ⟨method, outer, hbody⟩ := edit.inBody
  have hbody' : (edit.before'.foldl Scanner.push {}).scopes = .memberBody method :: outer := by
    have hbefore := Scanner.foldl_push_unplaced {} edit.before
    have hbefore' := Scanner.foldl_push_unplaced {} edit.before'
    rw [← edit.sameBefore, hbefore] at hbefore'
    exact (congrArg Scanner.scopes hbefore').symm.trans hbody
  rw [scan_unplaced edit.isText hbody edit.matched, scan_unplaced edit.isText' hbody' edit.matched',
    edit.sameBefore, edit.sameAfter]

/-- In the body of a member a scan passes over whatever braces match, with all of its state as it
was.  So what a body contains changes neither the names of the methods that are found nor how many
parameters each of them has, nor the types that have something static initialized. -/
theorem bodies_pass :
    (∀ (s : Scanner) (method : Option Nat) (outer : List Scope) (ts : List Token),
      s.scopes = .memberBody method :: outer → Brackets.blocks.Matched 0 ts →
        ts.foldl Scanner.push s = s) ∧
    ∀ (text text' : List Char), BodyEdit text text' →
      (Declarations.scan text).methods.map (fun m ↦ (m.name, m.parameterLines.length)) =
          (Declarations.scan text').methods.map (fun m ↦ (m.name, m.parameterLines.length)) ∧
        (Declarations.scan text).staticInitializers.map StaticInitializer.typeName =
          (Declarations.scan text').staticInitializers.map StaticInitializer.typeName := by
  refine ⟨fun s method outer ts hscopes hmatched ↦ Scanner.foldl_push_matched hscopes hmatched,
    fun text text' edit ↦ ?_⟩
  have hsame := edit.unplaced_scan
  have hmethods := congrArg
    (List.map fun m : Method ↦ (m.name, m.parameterLines.length)) (congrArg Declarations.methods hsame)
  have htypes := congrArg (List.map StaticInitializer.typeName)
    (congrArg Declarations.staticInitializers hsame)
  simp only [Declarations.unplaced, List.map_map] at hmethods htypes
  have hread : (fun m : Method ↦ (m.name, m.parameterLines.length)) ∘ Method.unplaced =
      fun m ↦ (m.name, m.parameterLines.length) :=
    funext fun m ↦ congrArg (m.name, ·) (List.length_map ..)
  rw [hread] at hmethods
  exact ⟨hmethods, htypes⟩

def emptyBodyText : List Char :=
  "class C \x7b void M(int a) \x7b \x7d static int F = 1; \x7d".toList

def nestedBodyText : List Char :=
  "class C \x7b void M(int a) \x7b if (a) \x7b\n  static C() => 1; \x7d \x7d static int F = 1; \x7d".toList

def inEmptyBody : Scanner :=
  ((tokens emptyBodyText).take 10).foldl Scanner.push {}

def bodyStatements : List Token :=
  ((tokens nestedBodyText).drop 10).take 13

def bodyEdit : BodyEdit emptyBodyText nestedBodyText where
  before := (tokens emptyBodyText).take 10
  inside := []
  after := (tokens emptyBodyText).drop 10
  isText := (List.take_append_drop 10 _).symm
  before' := (tokens nestedBodyText).take 10
  inside' := bodyStatements
  after' := ((tokens nestedBodyText).drop 10).drop 13
  isText' := by rw [bodyStatements, List.take_append_drop, List.take_append_drop]
  sameBefore := by decide +kernel
  sameAfter := by decide +kernel
  inBody := ⟨some 0, [.typeBody "C"], by decide +kernel⟩
  matched := Brackets.matched_nil_iff.mpr rfl
  matched' := Brackets.proper_blocks.balanced_iff.mp (by decide +kernel)

theorem bodies_pass_nested : bodyStatements.foldl Scanner.push inEmptyBody = inEmptyBody ∧
    (Declarations.scan nestedBodyText).methods.map (fun m ↦ (m.name, m.parameterLines.length)) =
      [("M", 1)] ∧
    (Declarations.scan nestedBodyText).staticInitializers.map StaticInitializer.typeName = ["C"] := by
  obtain ⟨hstate, hedit⟩ := bodies_pass
  obtain ⟨hmethods, htypes⟩ := hedit _ _ bodyEdit
  refine ⟨hstate _ (some 0) [.typeBody "C"] _ (by decide +kernel) bodyEdit.matched', ?_, ?_⟩
  · rw [← hmethods]
    decide +kernel
  · rw [← htypes]
    decide +kernel

end GuestGate.CSharp
