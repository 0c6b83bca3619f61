import GuestGate.Proofs.CSharp.Found
import GuestGate.Proofs.CSharp.Lead

/-!
# Initializers of fields and properties

A field or a property is taken for an initialized static one by all of its header, up to a block or
to the semicolon.  So what stands in its value counts as well: a word `static` in front of a lambda,
and the second half of an assignment in what a property computes.  If there is nothing of the kind
in the value, only a static member with an initializer is found.
-/

namespace GuestGate.CSharp

theorem Token.isInner_of_beginsValue {t : Token} (h : t.beginsValue = true) : t.isInner = true := by
  rw [beginsValue, Bool.or_eq_true] at h
  obtain h | h := h
  · have ht : t = ⟨.punct, "=".toList, t.position⟩ := Mark.token_eq ⟨t, h⟩
    rw [ht]
    rfl
  · have ht : t = ⟨.punct, "=>".toList, t.position⟩ := Mark.token_eq ⟨t, h⟩
    rw [ht]
    rfl

/-- What a member is initialized with or what it computes, from the mark in front on. -/
structure ValuePart where
  mark : Token
  begins : mark.beginsValue = true
  value : Expression
  semicolon : Mark ";"

namespace ValuePart

variable (v : ValuePart) (lead : Lead)

def tokens : List Token :=
  v.mark :: (v.value.tokens ++ [v.semicolon.token])

def header : List Token :=
  lead.tokens ++ v.mark :: v.value.head

def declared (types : List String) (awaited : Bool) : Declarations :=
  Expression.declarationsFrom types v.semicolon.token.position awaited (v.header lead) v.value.rest

theorem isPunct_mark : v.mark.isPunct "=" = true ∨ v.mark.isPunct "=>" = true := by
  have hbegins := v.begins
  rwa [Token.beginsValue, Bool.or_eq_true] at hbegins

theorem mark_eq : v.mark = ⟨.punct, "=".toList, v.mark.position⟩ ∨
    v.mark = ⟨.punct, "=>".toList, v.mark.position⟩ :=
  v.isPunct_mark.imp (fun h ↦ Mark.token_eq ⟨v.mark, h⟩) fun h ↦ Mark.token_eq ⟨v.mark, h⟩

theorem all_isInner_header : (v.header lead).all Token.isInner = true := by
  rw [header, List.all_append, List.all_cons, lead.inner, Token.isInner_of_beginsValue v.begins,
    v.value.inner _ List.mem_cons_self]
  rfl

theorem any_topLevel_header (p : Token → Bool) : (topLevel 0 (v.header lead)).any p =
    ((topLevel 0 lead.tokens).any p || (p v.mark || (topLevel 0 v.value.head).any p)) := by
  have hdepth : v.mark.depthAfter 0 = 0 := by
    obtain h | h := v.mark_eq <;> rw [h] <;> rfl
  rw [header, lead.any_topLevel_append, topLevel, if_pos rfl, hdepth, List.any_cons]

theorem isStatic_header : CSharp.isStatic (v.header lead) =
    (CSharp.isStatic lead.tokens || CSharp.isStatic v.value.head) := by
  have hmark : v.mark.isIdent "static" = false := by
    obtain h | h := v.mark_eq <;> rw [h] <;> rfl
  have hword := v.any_topLevel_header lead (·.isIdent "static")
  rwa [hmark, Bool.false_or] at hword

theorem yields {s : Scanner} {name : String} {outer : List Scope}
    (hscopes : s.scopes = .typeBody name :: outer) (hheader : s.header = [])
    (hmembers : v.value.Opaque (lead.tokens ++ [v.mark])) :
    s.Yields ((lead.tokens ++ v.tokens).foldl Scanner.push s) false
      (v.declared lead (s.scopes.filterMap Scanner.typeName?) s.awaitsInitializer) := by
  have hsplit : lead.tokens ++ v.tokens =
      v.header lead ++ (Stretch.tokensFrom v.value.rest ++ [v.semicolon.token]) := by
    simp [tokens, header, Expression.tokens]
  have hfront : v.header lead = (lead.tokens ++ [v.mark]) ++ v.value.head := by simp [header]
  have hread : ({ s with header := v.header lead } : Scanner).scopes = .typeBody name :: outer :=
    hscopes
  rw [hsplit, List.foldl_append, Scanner.foldl_push_header (Scanner.outside_of_typeBody hscopes)
    hheader (v.all_isInner_header lead)]
  refine Scanner.Yields.of_found_eq (u := { s with header := v.header lead }) ?_ rfl rfl
  refine Expression.yields_declarationsFrom v.semicolon hread (v.all_isInner_header lead)
    (fun run hrun ↦ v.value.inner run (List.mem_cons_of_mem _ hrun)) ?_
  rw [Expression.Opaque, Expression.headers, ← hfront] at hmembers
  exact hmembers

variable {lead} (hvalue : lead.hasValue = false)

include hvalue

theorem hasInitializer_header : hasInitializer (v.header lead) =
    (v.mark.isPunct "=" || hasInitializer v.value.head) := by
  have hequals := v.any_topLevel_header lead (·.isPunct "=")
  have hlead : (topLevel 0 lead.tokens).any (·.isPunct "=") = false :=
    lead.hasInitializer_tokens hvalue
  rwa [hlead, Bool.false_or] at hequals

theorem methodHeader?_header : methodHeader? (v.header lead) = none := by
  unfold methodHeader?
  split
  · rfl
  -- the mark in front of the value ends the search for parameters
  · rw [header, lead.parameterList?_append, hvalue, if_neg Bool.false_ne_true, parameterList?,
      if_pos ⟨rfl, v.isPunct_mark⟩]

theorem takenForInitializer_header (types : List String) :
    takenForInitializer types (v.header lead) = ((declaredType? (v.header lead)).isNone &&
      (CSharp.isStatic lead.tokens || CSharp.isStatic v.value.head) &&
        (v.mark.isPunct "=" || hasInitializer v.value.head)) := by
  rw [takenForInitializer, v.methodHeader?_header hvalue, v.isStatic_header,
    v.hasInitializer_header hvalue]

end ValuePart

/-! ### Values in which nothing is static -/

theorem Scanner.entryIf_ne_nil_iff {found : Bool} {types : List String} {header : List Token} :
    entryIf found types header ≠ [] ↔ found = true := by
  cases found <;> simp [entryIf]

theorem assignsFirst_of_hasInitializer {header : List Token} (h : hasInitializer header = false) :
    assignsFirst header = false := by
  cases header with
  | nil => rfl
  | cons t ts =>
      rw [hasInitializer, topLevel, if_pos rfl, List.any_cons, Bool.or_eq_false_iff] at h
      exact h.1

/-- Where no run behind a block is static and none is awaited, only the first header counts. -/
theorem Expression.initializers_of_quiet {types : List String} {last : Position}
    {header : List Token} {rest : List (Block × List Token)} (awaited : Bool)
    (hruns : ∀ run ∈ rest.map Prod.snd, CSharp.isStatic run = false)
    (hfirst : awaitsBehind header = false ∨ ∀ run ∈ rest.map Prod.snd, assignsFirst run = false) :
    (declarationsFrom types last awaited header rest).staticInitializers =
      Scanner.entryIf (takenForInitializer types header || rest.isEmpty &&
        (declaredType? header).isNone && assignsFirst header && awaited) types header := by
  -- only the first block can leave an initializer awaited, as no run behind it is static
  induction rest generalizing header awaited with
  | nil => rw [declarationsFrom, declarations, List.isEmpty_nil, Bool.true_and]
  | cons p rest ih =>
      obtain ⟨hrun, hrest⟩ := List.forall_mem_cons.mp hruns
      have hawaits : awaitsBehind p.2 = false := by simp [awaitsBehind, hrun]
      have hmark : (assignsFirst p.2 && awaitsBehind header) = false := by
        obtain hfirst | hfirst := hfirst
        · rw [hfirst, Bool.and_false]
        · rw [(List.forall_mem_cons.mp hfirst).1, Bool.false_and]
      have hnone : takenForInitializer types p.2 = false := by simp [takenForInitializer, hrun]
      rw [declarationsFrom, Declarations.staticInitializers_append,
        ih (awaitsBehind header) hrest (.inl hawaits), hnone, Bool.and_assoc, hmark]
      simp [declarations, Scanner.entryIf]

/-- If nothing in a value is static, and a static member assigns nothing in what it computes, only
the mark in front of the value counts. -/
theorem ValuePart.initializers_of_quiet (v : ValuePart) {lead : Lead}
    (hvalue : lead.hasValue = false) (types : List String) (awaited : Bool)
    (hquiet : ∀ run ∈ v.value.head :: v.value.later, CSharp.isStatic run = false ∧
      (CSharp.isStatic lead.tokens = true → v.mark.isPunct "=>" = true →
        hasInitializer run = false)) :
    (v.declared lead types awaited).staticInitializers =
      Scanner.entryIf ((declaredType? (v.header lead)).isNone &&
        (CSharp.isStatic lead.tokens && v.mark.isPunct "=" ||
          v.value.rest.isEmpty && assignsFirst (v.header lead) && awaited)) types
        (v.header lead) := by
  obtain ⟨⟨hhead, hassigned⟩, hruns⟩ := List.forall_mem_cons.mp hquiet
  have hstatic : CSharp.isStatic (v.header lead) = CSharp.isStatic lead.tokens := by
    rw [v.isStatic_header, hhead, Bool.or_false]
  have hawaits : awaitsBehind (v.header lead) = (CSharp.isStatic lead.tokens &&
      !(v.mark.isPunct "=" || hasInitializer v.value.head)) := by
    rw [awaitsBehind, hstatic, v.methodHeader?_header hvalue, v.hasInitializer_header hvalue]
    simp
  obtain ⟨hmark, hfirst⟩ : (CSharp.isStatic lead.tokens && (v.mark.isPunct "=" ||
        hasInitializer v.value.head)) = (CSharp.isStatic lead.tokens && v.mark.isPunct "=") ∧
      (awaitsBehind (v.header lead) = false ∨
        ∀ run ∈ v.value.later, assignsFirst run = false) := by
    rw [hawaits]
    obtain hequals | harrow := v.isPunct_mark
    · simp [hequals]
    · cases hlead : CSharp.isStatic lead.tokens with
      | false => exact ⟨rfl, .inl rfl⟩
      | true =>
          -- one is awaited behind a block here, but no run begins with the mark for it
          refine ⟨by rw [hassigned hlead harrow, Bool.or_false], .inr fun run hrun ↦ ?_⟩
          exact assignsFirst_of_hasInitializer ((hruns run hrun).2 hlead harrow)
  rw [declared, Expression.initializers_of_quiet _ (fun run hrun ↦ (hruns run hrun).1) hfirst,
    v.takenForInitializer_header hvalue, hhead, Bool.or_false, Bool.and_assoc, hmark]
  cases (declaredType? (v.header lead)).isNone <;> simp

/-! ### In front of a value -/

namespace Lead

def empty : Lead where
  tokens := []
  inner := .refl true
  closed := rfl
  callless := .refl true

theorem hasValue_empty : empty.hasValue = false := rfl

variable {lead : Lead} (hvalue : lead.hasValue = false)

include hvalue

theorem assignsFirst_append (hnamed : lead.tokens ≠ []) (us : List Token) :
    assignsFirst (lead.tokens ++ us) = false := by
  unfold hasValue at hvalue
  cases hlead : lead.tokens with
  | nil => exact absurd hlead hnamed
  | cons t ts =>
      rw [hlead, topLevel, if_pos rfl, List.any_cons, Bool.or_eq_false_iff, Token.beginsValue,
        Bool.or_eq_false_iff] at hvalue
      exact hvalue.1.1

theorem awaitsBehind_tokens : awaitsBehind lead.tokens = CSharp.isStatic lead.tokens := by
  simp [awaitsBehind, lead.methodHeader?_tokens, lead.hasInitializer_tokens hvalue]

theorem declarations_tokens (hnamed : lead.tokens ≠ []) (types : List String) (awaited : Bool)
    (last : Position) : declarations types awaited lead.tokens last = {} := by
  have hassigns := assignsFirst_append hvalue hnamed []
  rw [List.append_nil] at hassigns
  simp [declarations, declaredMethod?, takenForInitializer, lead.methodHeader?_tokens,
    lead.hasInitializer_tokens hvalue, hassigns, Scanner.entryIf]

end Lead

/-- If the header begins with something else, no initializer is awaited. -/
theorem ValuePart.declared_of_named (v : ValuePart) {lead : Lead} (hvalue : lead.hasValue = false)
    (hnamed : lead.tokens ≠ []) (types : List String) (awaited : Bool) :
    v.declared lead types awaited = v.declared lead types false := by
  have hassigns : assignsFirst (v.header lead) = false := Lead.assignsFirst_append hvalue hnamed _
  unfold declared
  cases v.value.rest with
  | nil => simp [Expression.declarationsFrom, declarations, hassigns]
  | cons p rest => rfl

/-! ### Members -/

inductive FieldForm
  /-- A field without a value. -/
  | plain (semicolon : Mark ";")
  /-- A field with an initializer, or a property that computes its value. -/
  | valued (v : ValuePart)
  /-- A property with accessors. -/
  | accessed (accessors : Block)
  | accessedValued (accessors : Block) (v : ValuePart) (assigned : v.mark.isPunct "=" = true)

def FieldForm.tokens : FieldForm → List Token
  | plain semicolon => [semicolon.token]
  | valued v => v.tokens
  | accessed accessors => accessors.tokens
  | accessedValued accessors v _ => accessors.tokens ++ v.tokens

def FieldForm.value? : FieldForm → Option ValuePart
  | valued v | accessedValued _ v _ => some v
  | _ => none

/-- A field, property, indexer or event. -/
structure FieldLike where
  /-- Attributes, modifiers, the type and the name. -/
  lead : Lead
  named : lead.tokens ≠ []
  valueless : lead.hasValue = false
  notType : declaredType? lead.tokens = none
  form : FieldForm

namespace FieldLike

variable (m : FieldLike)

def tokens : List Token :=
  m.lead.tokens ++ m.form.tokens

def isStatic : Bool :=
  CSharp.isStatic m.lead.tokens

def isInitialized : Bool :=
  m.form.value?.any (·.mark.isPunct "=")

/-- What the header has in front of the value: nothing if the accessors have ended one before. -/
def valueLead : Lead :=
  match m.form with
  | .accessedValued .. => .empty
  | _ => m.lead

def declared (types : List String) : Declarations :=
  match m.form with
  | .valued v => v.declared m.lead types false
  | .accessedValued _ v _ => v.declared .empty types m.isStatic
  | _ => {}

/-- Whether no header of the value that a block ends reads like that of a type. -/
def Opaque : Prop :=
  ∀ v ∈ m.form.value?, v.value.Opaque (m.valueLead.tokens ++ [v.mark])

def Single : Prop :=
  ∀ v ∈ m.form.value?, v.value.rest = []

/-- Whether nothing in the value is static, and a static property assigns nothing in what it
computes. -/
def Quiet : Prop :=
  ∀ v ∈ m.form.value?, ∀ run ∈ v.value.head :: v.value.later, CSharp.isStatic run = false ∧
    (m.isStatic = true → v.mark.isPunct "=>" = true → hasInitializer run = false)

theorem found_eq (place : Place) (hmembers : m.Opaque) :
    place.found m.tokens = m.declared place.types := by
  obtain ⟨⟨outer, hscopes⟩, htypes, hheader⟩ := place.scanner_eq
  have hlead : m.lead.tokens.foldl Scanner.push place.scanner =
      { place.scanner with header := m.lead.tokens } :=
    Scanner.foldl_push_header (Scanner.outside_of_typeBody hscopes) hheader m.lead.inner
  have hread : ({ place.scanner with header := m.lead.tokens } : Scanner).scopes =
      .typeBody place.head.text :: outer := hscopes
  have hnone := Lead.declarations_tokens m.valueless m.named
  unfold tokens declared
  unfold Opaque valueLead at hmembers
  cases hform : m.form with
  | plain semicolon =>
      have hyields : place.scanner.Yields
          ((m.lead.tokens ++ [semicolon.token]).foldl Scanner.push place.scanner) false {} := by
        have hends := Scanner.yields_semicolon hread semicolon
        rw [hnone] at hends
        rw [List.foldl_append, hlead]
        exact hends.of_found_eq rfl rfl
      exact place.found_of_yields hyields
  | valued v =>
      rw [hform] at hmembers
      have hyields := v.yields m.lead hscopes hheader (hmembers v rfl)
      rw [htypes, v.declared_of_named m.valueless m.named] at hyields
      exact place.found_of_yields hyields
  | accessed accessors =>
      have hyields : place.scanner.Yields
          ((m.lead.tokens ++ accessors.tokens).foldl Scanner.push place.scanner)
            (awaitsBehind m.lead.tokens) {} := by
        have hends := Scanner.yields_block hread accessors m.lead.inner m.notType
        rw [hnone] at hends
        rw [List.foldl_append, hlead]
        exact hends.of_found_eq rfl rfl
      exact place.found_of_yields hyields
  | accessedValued accessors v assigned =>
      rw [hform] at hmembers
      have hends := Scanner.yields_block hread accessors m.lead.inner m.notType
      rw [hnone, Lead.awaitsBehind_tokens m.valueless] at hends
      -- the accessors leave the flag as the modifiers say, whatever it was before
      have hvalue := v.yields .empty (hends.scopes.trans hread) hends.header (hmembers v rfl)
      rw [hends.awaits, hends.scopes] at hvalue
      have hboth := hends.trans hvalue
      rw [Declarations.empty_append] at hboth
      have hyields : place.scanner.Yields
          ((m.lead.tokens ++ (accessors.tokens ++ v.tokens)).foldl Scanner.push place.scanner)
            false (v.declared .empty (place.scanner.scopes.filterMap Scanner.typeName?)
              m.isStatic) := by
        rw [List.foldl_append, List.foldl_append, hlead]
        exact hboth.of_found_eq rfl rfl
      rw [htypes] at hyields
      exact place.found_of_yields hyields

/-- In a value without blocks it counts what the whole header says. -/
theorem initializers_ne_nil_iff (hsingle : m.Single) (types : List String) :
    (m.declared types).staticInitializers ≠ [] ↔ ∃ v ∈ m.form.value?,
      declaredType? (v.header m.valueLead) = none ∧
        (m.isStatic = true ∨ CSharp.isStatic v.value.head = true) ∧
          (v.mark.isPunct "=" = true ∨ hasInitializer v.value.head = true) := by
  unfold Single at hsingle
  unfold declared valueLead
  cases hform : m.form with
  | plain semicolon => simp [FieldForm.value?]
  | accessed accessors => simp [FieldForm.value?]
  | valued v =>
      rw [hform] at hsingle
      have hrest : v.value.rest = [] := hsingle v rfl
      have htaken := v.takenForInitializer_header m.valueless types
      simp [ValuePart.declared, hrest, Expression.declarationsFrom, declarations,
        Scanner.entryIf_ne_nil_iff, FieldForm.value?, htaken, isStatic, and_assoc]
  | accessedValued accessors v assigned =>
      rw [hform] at hsingle
      have hrest : v.value.rest = [] := hsingle v rfl
      have hstatic : CSharp.isStatic Lead.empty.tokens = false := rfl
      have htaken := v.takenForInitializer_header Lead.hasValue_empty types
      have hassigns : assignsFirst (v.header .empty) = true := assigned
      simp [ValuePart.declared, hrest, Expression.declarationsFrom, declarations,
        Scanner.entryIf_ne_nil_iff, FieldForm.value?, htaken, hstatic, hassigns, assigned,
        ← and_or_left, or_comm]

/-- A quiet value adds nothing to what is in front of it: only a static member that is initialized
is found. -/
theorem isStatic_of_initializers_ne_nil (hquiet : m.Quiet) {types : List String}
    (hfound : (m.declared types).staticInitializers ≠ []) :
    m.isStatic = true ∧ m.isInitialized = true := by
  unfold Quiet at hquiet
  unfold declared at hfound
  unfold isInitialized
  cases hform : m.form with
  | plain semicolon =>
      rw [hform] at hfound
      exact absurd rfl hfound
  | accessed accessors =>
      rw [hform] at hfound
      exact absurd rfl hfound
  | valued v =>
      rw [hform] at hquiet hfound
      dsimp only at hfound
      rw [v.initializers_of_quiet m.valueless types false (hquiet v rfl), Bool.and_false,
        Bool.or_false, Scanner.entryIf_ne_nil_iff, Bool.and_eq_true, Bool.and_eq_true] at hfound
      exact hfound.2
  | accessedValued accessors v assigned =>
      rw [hform] at hquiet hfound
      dsimp only at hfound
      rw [v.initializers_of_quiet Lead.hasValue_empty types m.isStatic fun run hrun ↦
          ⟨(hquiet v rfl run hrun).1, nofun⟩, Scanner.entryIf_ne_nil_iff] at hfound
      have hstatic : CSharp.isStatic Lead.empty.tokens = false := rfl
      rw [hstatic, Bool.false_and, Bool.false_or, Bool.and_eq_true, Bool.and_eq_true] at hfound
      exact ⟨hfound.2.2, assigned⟩

theorem opaque_of_single (h : m.Single) : m.Opaque := by
  intro v hv header hheader
  have hlater : v.value.later = [] := by rw [Expression.later, h v hv, List.map_nil]
  rw [Expression.headers, hlater] at hheader
  exact absurd hheader List.not_mem_nil

/-- What is found for a field or a property, at any place of a source, is told by the headers of
its value, each by itself.  One without blocks is found exactly if its header does not read like a
type and there is a word `static` and a mark of assignment in it, in the value or in front of it.
If nothing in the value is static, and a static property assigns nothing in what it computes, only
a static member that is initialized is found. -/
theorem initializers_found (place : Place) :
    (m.Opaque → place.found m.tokens = m.declared place.types) ∧
    (m.Single → ((place.found m.tokens).staticInitializers ≠ [] ↔ ∃ v ∈ m.form.value?,
      declaredType? (v.header m.valueLead) = none ∧
        (m.isStatic = true ∨ CSharp.isStatic v.value.head = true) ∧
          (v.mark.isPunct "=" = true ∨ hasInitializer v.value.head = true))) ∧
    (m.Opaque → m.Quiet → (place.found m.tokens).staticInitializers ≠ [] →
      m.isStatic = true ∧ m.isInitialized = true) ∧
    ∀ text after, CSharp.tokens text = place.tokens ++ (m.tokens ++ after) →
      (place.found m.tokens).staticInitializers.Sublist
        (Declarations.scan text).staticInitializers := by
  refine ⟨m.found_eq place, fun hsingle ↦ ?_, fun hmembers hquiet hfound ↦ ?_,
    fun _ _ h ↦ (place.found_in_text h).1⟩
  · rw [m.found_eq place (m.opaque_of_single hsingle)]
    exact m.initializers_ne_nil_iff hsingle place.types
  · rw [m.found_eq place hmembers] at hfound
    exact m.isStatic_of_initializers_ne_nil hquiet hfound

end FieldLike

def staticField : FieldLike where
  lead := {
    tokens := [⟨.ident, "static".toList, ⟨1, 15⟩⟩, ⟨.ident, "int".toList, ⟨1, 22⟩⟩,
      ⟨.ident, "Count".toList, ⟨1, 26⟩⟩]
    inner := by decide
    closed := by decide
    callless := by decide }
  named := by decide
  valueless := by decide
  notType := by decide
  form := .valued {
    mark := ⟨.punct, "=".toList, ⟨1, 32⟩⟩
    begins := by decide
    value := {
      head := [⟨.literal, "5".toList, ⟨1, 34⟩⟩]
      rest := []
      inner := by decide }
    semicolon := ⟨⟨.punct, ";".toList, ⟨1, 35⟩⟩, by decide⟩ }

def staticFieldText : List Char :=
  "class Clock \x7b static int Count = 5; \x7d".toList

theorem tokens_staticFieldText : tokens staticFieldText =
    Place.inClock.tokens ++ (staticField.tokens ++ [⟨.punct, "\x7d".toList, ⟨1, 37⟩⟩]) := by
  decide +kernel

theorem staticField_found : staticField.isStatic = true ∧ staticField.isInitialized = true ∧
    (Declarations.scan staticFieldText).staticInitializers ≠ [] := by
  obtain ⟨-, hiff, hstatic, htext⟩ := staticField.initializers_found Place.inClock
  have hsingle : staticField.Single := by
    intro v hv
    cases hv
    rfl
  have hquiet : staticField.Quiet := by
    intro v hv
    cases hv
    decide
  have hfound := (hiff hsingle).mpr ⟨_, rfl, by decide⟩
  obtain ⟨hfirst, hsecond⟩ := hstatic (staticField.opaque_of_single hsingle) hquiet hfound
  refine ⟨hfirst, hsecond, fun hnone ↦ hfound ?_⟩
  have hsublist := htext _ _ tokens_staticFieldText
  rw [hnone] at hsublist
  exact List.sublist_nil.mp hsublist

def countingProperty : FieldLike where
  lead := {
    tokens := [⟨.ident, "static".toList, ⟨1, 15⟩⟩, ⟨.ident, "int".toList, ⟨1, 22⟩⟩,
      ⟨.ident, "After".toList, ⟨1, 26⟩⟩]
    inner := by decide
    closed := by decide
    callless := by decide }
  named := by decide
  valueless := by decide
  notType := by decide
  form := .valued {
    mark := ⟨.punct, "=>".toList, ⟨1, 32⟩⟩
    begins := by decide
    value := {
      head := [⟨.ident, "count".toList, ⟨1, 35⟩⟩, ⟨.punct, "+".toList, ⟨1, 41⟩⟩,
        ⟨.punct, "=".toList, ⟨1, 42⟩⟩, ⟨.literal, "1".toList, ⟨1, 44⟩⟩]
      rest := []
      inner := by decide }
    semicolon := ⟨⟨.punct, ";".toList, ⟨1, 45⟩⟩, by decide⟩ }

def countingPropertyText : List Char :=
  "class Clock \x7b static int After => count += 1; \x7d".toList

def lambdaField : FieldLike where
  lead := {
    tokens := [⟨.ident, "Tick".toList, ⟨1, 15⟩⟩, ⟨.ident, "Next".toList, ⟨1, 20⟩⟩]
    inner := by decide
    closed := by decide
    callless := by decide }
  named := by decide
  valueless := by decide
  notType := by decide
  form := .valued {
    mark := ⟨.punct, "=".toList, ⟨1, 25⟩⟩
    begins := by decide
    value := {
      head := [⟨.ident, "static".toList, ⟨1, 27⟩⟩, ⟨.punct, "(".toList, ⟨1, 34⟩⟩,
        ⟨.punct, ")".toList, ⟨1, 35⟩⟩, ⟨.punct, "=>".toList, ⟨1, 37⟩⟩,
        ⟨.literal, "1".toList, ⟨1, 40⟩⟩]
      rest := []
      inner := by decide }
    semicolon := ⟨⟨.punct, ";".toList, ⟨1, 41⟩⟩, by decide⟩ }

def lambdaFieldText : List Char :=
  "class Clock \x7b Tick Next = static () => 1; \x7d".toList

/-- A property that only computes its value is found, and so is a field that is not static. -/
theorem value_taken :
    (tokens countingPropertyText = Place.inClock.tokens ++
        (countingProperty.tokens ++ [⟨.punct, "\x7d".toList, ⟨1, 47⟩⟩]) ∧
      countingProperty.isInitialized = false ∧
      (Declarations.scan countingPropertyText).staticInitializers = [⟨"Clock", 1⟩]) ∧
    tokens lambdaFieldText = Place.inClock.tokens ++
        (lambdaField.tokens ++ [⟨.punct, "\x7d".toList, ⟨1, 43⟩⟩]) ∧
      lambdaField.isStatic = false ∧
      (Declarations.scan lambdaFieldText).staticInitializers = [⟨"Clock", 1⟩] := by
  refine ⟨⟨?_, ?_, ?_⟩, ?_, ?_, ?_⟩ <;> decide +kernel

end GuestGate.CSharp
