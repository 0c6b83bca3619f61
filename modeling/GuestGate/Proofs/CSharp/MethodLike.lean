import GuestGate.Proofs.CSharp.Enclosing
import GuestGate.Proofs.CSharp.Lead

/-!
# Which methods initialize their type

A scan takes a static method for the static constructor if what stands in front of its parameters
is the name of the type.  That is so for the constructor, and for whatever else has the name there,
like an operator that converts to the type.
-/

namespace GuestGate.CSharp

def Token.methodName (t : Token) : String :=
  MethodHeader.methodName ⟨t, []⟩

theorem Token.isOneOf_iff_mem {t : Token} (h : t.kind = .ident) {words : List String} :
    t.isOneOf words = true ↔ String.ofList t.text ∈ words := by
  rw [isOneOf_iff]
  constructor
  · rintro ⟨word, hmem, hword⟩
    simp only [isIdent, Bool.and_eq_true, beq_iff_eq] at hword
    rwa [hword.2, String.ofList_toList]
  · intro hmem
    exact ⟨_, hmem, by simp [isIdent, h]⟩

/-- A method, constructor, operator or conversion. -/
structure MethodLike where
  /-- Attributes and modifiers, the type that is returned, and what qualifies the name. -/
  front : List Token
  designator : Designator
  lead : Lead
  isLead : lead.tokens = front ++ designator.tokens
  fits : designator.Fits front
  starts : assignsFirst lead.tokens = false
  opening : Mark "("
  /-- The parameters and all that follows up to the body, or up to the end of an expression. -/
  content : Stretch
  ending : Ending

namespace MethodLike

variable (d : MethodLike)

def header : List Token :=
  d.lead.tokens ++ d.opening.token :: d.content.head

def tokens : List Token :=
  d.lead.tokens ++ d.opening.token :: (d.content.tokens ++ d.ending.tokens)

def behind : List Token :=
  topLevel 1 d.content.head

def hasOutside (p : Token → Bool) : Bool :=
  (topLevel 0 d.lead.tokens).any p || d.behind.any p

/-- The name that is read: the one in front of the parameters or, if there is none, the first one
in front of a later parenthesis.  A delegate has none, nor has what is behind a value. -/
def name? : Option String :=
  if d.hasOutside (·.isIdent "delegate") || d.lead.hasValue then none
  else match d.designator.name? d.front with
    | some name => some name.methodName
    | none =>
        (parameterList? 1 (d.opening.token :: d.lead.tokens.reverse) d.content.head).map
          MethodHeader.methodName

theorem any_topLevel_header {p : Token → Bool} (h : p d.opening.token = false) :
    (topLevel 0 d.header).any p = d.hasOutside p := by
  rw [header, d.lead.any_topLevel_append, topLevel, if_pos rfl, d.opening.depthAfter_opening,
    List.any_cons, h, Bool.false_or]
  rfl

theorem hasTopWord_header (word : String) :
    hasTopWord d.header word = d.hasOutside (·.isIdent word) :=
  d.any_topLevel_header (by rw [d.opening.token_eq]; rfl)

theorem hasInitializer_header : hasInitializer d.header = d.hasOutside (·.isPunct "=") :=
  d.any_topLevel_header (Token.isPunct_eq d.opening.isMark "=")

theorem methodHeader?_header :
    (methodHeader? d.header).map MethodHeader.methodName = d.name? := by
  have hopening := d.opening.isMark
  have hbefore : nameBefore? d.lead.tokens.reverse = d.designator.name? d.front := by
    rw [d.isLead]
    exact Designator.nameBefore?_reverse d.fits
  unfold methodHeader? name?
  rw [hasTopWord_header]
  cases d.hasOutside (·.isIdent "delegate") with
  | true => rfl
  | false =>
      rw [header, d.lead.parameterList?_append, Bool.false_or]
      cases d.lead.hasValue with
      | true => rfl
      | false =>
          simp only [parameterList?, hbefore, d.opening.depthAfter_opening, hopening,
            Token.isPunct_eq hopening]
          cases d.designator.name? d.front <;> rfl

/-- Whether the header is taken for that of a static constructor of a type, or for a member that
has no name and an initializer. -/
def isTaken (name : String) : Bool :=
  (declaredType? d.header).isNone && d.hasOutside (·.isIdent "static") &&
    match d.name? with
    | some n => name == n
    | none => d.hasOutside (·.isPunct "=")

theorem takenForInitializer_header (name : String) (outer : List String) :
    takenForInitializer (name :: outer) d.header = d.isTaken name := by
  have hread := d.methodHeader?_header
  unfold takenForInitializer isTaken
  rw [isStatic, hasTopWord_header, hasInitializer_header]
  cases hmethod : methodHeader? d.header with
  | none =>
      rw [hmethod] at hread
      rw [← hread]
      rfl
  | some m =>
      rw [hmethod] at hread
      rw [← hread]
      rfl

theorem all_isInner_header : d.header.all Token.isInner = true := by
  have hopening : d.opening.token.isInner = true := by
    rw [d.opening.token_eq]
    rfl
  rw [header, List.all_append, List.all_cons, d.lead.inner, hopening,
    d.content.inner _ List.mem_cons_self]
  rfl

theorem assignsFirst_header : assignsFirst d.header = false := by
  have hstarts := d.starts
  unfold header
  cases hlead : d.lead.tokens with
  | nil => exact Token.isPunct_eq d.opening.isMark "="
  | cons t ts =>
      rw [hlead] at hstarts
      exact hstarts

/-- The header counts if it is taken for one that initializes something, and so does all that
follows its first block. -/
theorem length_recorded (place : Place) : (place.recorded d.tokens).length =
    (d.header :: d.content.later).countP (takenForInitializer place.types) := by
  obtain ⟨⟨outer, hscopes⟩, htypes, hheader⟩ := place.scanner_eq
  have hread : ({ place.scanner with header := d.header } : Scanner).scopes =
      .typeBody place.head.text :: outer := hscopes
  have hscan : d.tokens.foldl Scanner.push place.scanner =
      (Stretch.tokensFrom d.content.rest ++ d.ending.tokens).foldl Scanner.push
        { place.scanner with header := d.header } := by
    have hsplit : d.tokens =
        d.header ++ (Stretch.tokensFrom d.content.rest ++ d.ending.tokens) := by
      simp [tokens, header, Stretch.tokens]
    rw [hsplit, List.foldl_append, Scanner.foldl_push_header (Scanner.outside_of_typeBody hscopes)
      hheader d.all_isInner_header]
  have hcount := Stretch.countOwn_tokensFrom d.ending hread d.all_isInner_header
    (fun run hrun ↦ d.content.inner run (List.mem_cons_of_mem _ hrun)) d.content.apart
    fun _ ↦ d.assignsFirst_header
  have hplace := place.countOwn_foldl_push d.tokens
  rw [hscan, ← htypes] at hplace
  rw [← htypes]
  exact Nat.add_left_cancel (hplace.symm.trans hcount)

theorem recorded_ne_nil_iff (place : Place) : place.recorded d.tokens ≠ [] ↔
    d.isTaken place.head.text = true ∨
      ∃ run ∈ d.content.later, takenForInitializer place.types run = true := by
  have htaken : takenForInitializer place.types d.header = d.isTaken place.head.text :=
    d.takenForInitializer_header place.head.text _
  rw [← List.length_pos_iff, length_recorded, List.countP_pos_iff]
  simp only [List.mem_cons, exists_eq_or_imp, htaken]

structure IsStaticConstructor (name : String) : Prop where
  isStatic : CSharp.isStatic d.front = true
  modified : ∀ t ∈ topLevel 0 d.front, t.isPunct "[" = true ∨ t.isOneOf modifiers = true
  named : ∃ token noAngle, d.designator = .named token noAngle none ∧ token.kind = .ident ∧
    String.ofList token.text = name
  empty : d.content.head.head?.any (·.isPunct ")") = true

variable {d} {name : String}

/-- In front of the parameters of a static constructor there is nothing but its front and its
name. -/
theorem IsStaticConstructor.topLevel_lead (h : d.IsStaticConstructor name) :
    ∃ token : Token, token.kind = .ident ∧ String.ofList token.text = name ∧
      d.designator.name? d.front = (if isRead d.front token then some token else none) ∧
      topLevel 0 d.lead.tokens = topLevel 0 d.front ++ [token] := by
  obtain ⟨token, noAngle, hdesignator, hkind, hname⟩ := h.named
  have hlead : d.lead.tokens = d.front ++ [token] := by
    rw [d.isLead, hdesignator]
    rfl
  have hclosed : depthAfter 0 d.front = 0 := by
    have hall := d.lead.closed
    rw [hlead, depthAfter_append] at hall
    exact (Token.depthAfter_of_ident hkind _).symm.trans hall
  refine ⟨token, hkind, hname, by rw [hdesignator]; rfl, ?_⟩
  rw [hlead, topLevel_append, hclosed]
  rfl

/-- A header passes over all that a static constructor has in front of its parameters. -/
theorem IsStaticConstructor.passed (h : d.IsStaticConstructor name) (htype : name ∉ typeKeywords)
    (hdelegate : d.hasOutside (·.isIdent "delegate") = false) : Passed d.lead.tokens := by
  obtain ⟨token, hkind, hname, -, htop⟩ := h.topLevel_lead
  have hnone := (Bool.or_eq_false_iff.mp hdelegate).1
  refine ⟨d.lead.closed, fun t ht ↦ ?_⟩
  have hword : t.isIdent "delegate" = false := by simpa using List.any_eq_false.mp hnone t ht
  have hident : t.kind = .ident → String.ofList t.text ∉ typeKeywords → t.isQuiet = true := by
    intro hkind hnot
    have hother : t.isOneOf typeKeywords = false :=
      Bool.eq_false_iff.mpr fun hmem ↦ hnot ((Token.isOneOf_iff_mem hkind).mp hmem)
    exact Token.isQuiet_iff.mpr ⟨hword, hother, Token.isPunct_of_ident hkind _,
      Token.isPunct_of_ident hkind _, Token.isPunct_of_ident hkind _⟩
  rw [htop] at ht
  rcases List.mem_append.mp ht with hfront | hlast
  · rcases h.modified t hfront with hgroup | hmodifier
    · have hmark : t = ⟨.punct, "[".toList, t.position⟩ := Mark.token_eq ⟨t, hgroup⟩
      rw [hmark]
      rfl
    · have hdisjoint : ∀ word ∈ modifiers, word ∉ typeKeywords := by decide
      have hkind := Token.kind_of_isOneOf hmodifier
      exact hident hkind (hdisjoint _ ((Token.isOneOf_iff_mem hkind).mp hmodifier))
  · obtain rfl := List.mem_singleton.mp hlast
    exact hident hkind (hname ▸ htype)

/-- A static constructor is found if the name of its type can be read and no delegate is created
outside of all groups. -/
theorem IsStaticConstructor.isTaken (h : d.IsStaticConstructor name)
    (hread : name ∉ statementWords ++ modifiers ++ typeKeywords)
    (hdelegate : d.hasOutside (·.isIdent "delegate") = false) : d.isTaken name = true := by
  simp only [List.mem_append, not_or] at hread
  obtain ⟨⟨hstatement, hmodifier⟩, htype⟩ := hread
  have hpassed := h.passed htype hdelegate
  have htyped : declaredType? d.header = none := by
    rw [declaredType?, header, hpassed.afterTypeKeyword?, afterTypeKeyword?,
      if_pos ⟨rfl, d.opening.isMark⟩]
    rfl
  obtain ⟨token, hkind, hname, hname?, htop⟩ := h.topLevel_lead
  have hstatic : d.hasOutside (·.isIdent "static") = true := by
    rw [hasOutside, htop, List.any_append]
    exact congrArg (· || _ || _) h.isStatic
  have hvalue : d.lead.hasValue = false := List.any_eq_false.mpr fun t ht ↦ by
    obtain ⟨-, -, -, hequals, harrow⟩ := Token.isQuiet_iff.mp (hpassed.quiet t ht)
    simp [Token.beginsValue, hequals, harrow]
  have hword : isRead d.front token = true := by
    have hnone : ∀ words : List String, name ∉ words → token.isOneOf words = false := by
      intro words hnot
      rw [← hname, ← Token.isOneOf_iff_mem hkind, Bool.not_eq_true] at hnot
      exact hnot
    simp [isRead, hkind, hnone _ hstatement, hnone _ hmodifier]
  have hsome : d.name? = some name := by
    rw [MethodLike.name?, hdelegate, hvalue, hname?, if_pos hword]
    simp [Token.methodName, MethodHeader.methodName, hkind, hname]
  simp [MethodLike.isTaken, htyped, hstatic, hsome]

structure Ordinary (d : MethodLike) : Prop where
  single : d.content.rest = []
  notType : declaredType? d.header = none
  valueless : d.lead.hasValue = false
  noDelegate : d.hasOutside (·.isIdent "delegate") = false
  noStatic : d.behind.any (·.isIdent "static") = false

theorem Ordinary.recorded_ne_nil_iff (h : d.Ordinary) (place : Place) {n : Token}
    (hname : d.designator.name? d.front = some n) : place.recorded d.tokens ≠ [] ↔
      CSharp.isStatic d.lead.tokens = true ∧ n.methodName = place.head.text := by
  have hread : d.name? = some n.methodName := by
    rw [MethodLike.name?, h.noDelegate, h.valueless, hname]
    rfl
  have hstatic : d.hasOutside (·.isIdent "static") = CSharp.isStatic d.lead.tokens := by
    rw [hasOutside, h.noStatic, Bool.or_false]
    rfl
  have hlater : d.content.later = [] := by rw [Stretch.later, h.single, List.map_nil]
  rw [MethodLike.recorded_ne_nil_iff, hlater, MethodLike.isTaken, h.notType, hstatic, hread,
    eq_comm (a := n.methodName)]
  simp

/-- A method or the like, at any place of a source, is found exactly if its header is taken for
that of a static constructor, or something behind a block of it for another initializer.  As a
rule this is so if it is static and the name that is read in front of its parameters is that of
the type.  A static constructor is found, and so is whatever else has the name there; for what is
found a listing of machine code is refused. -/
theorem recorded_iff (d : MethodLike) (place : Place) :
    (place.recorded d.tokens ≠ [] ↔ d.isTaken place.head.text = true ∨
      ∃ run ∈ d.content.later, takenForInitializer place.types run = true) ∧
    (d.Ordinary → ∀ n, d.designator.name? d.front = some n → (place.recorded d.tokens ≠ [] ↔
      CSharp.isStatic d.lead.tokens = true ∧ n.methodName = place.head.text)) ∧
    (d.IsStaticConstructor place.head.text → place.head.text ∉ statementWords ++ modifiers →
      d.hasOutside (·.isIdent "delegate") = false → place.recorded d.tokens ≠ []) ∧
    ∀ text after, CSharp.tokens text.toList = place.tokens ++ (d.tokens ++ after) →
      (place.recorded d.tokens).Sublist (Declarations.scan text.toList).staticInitializers ∧
      (place.recorded d.tokens ≠ [] → ∃ construct ∈ Language.csharp.constructs text,
        construct.typeName = Scanner.typePath place.types ∧
          construct.supportedBy Target.machineCode = false) := by
  refine ⟨d.recorded_ne_nil_iff place, fun h n hname ↦ h.recorded_ne_nil_iff place hname,
    fun hconstructor hread hdelegate ↦ ?_, fun _ _ ↦ place.recorded_in_text⟩
  have htype : place.head.text ∉ typeKeywords := by
    obtain ⟨hkind, hwords⟩ := place.head.isName
    intro hmem
    have hsome := (Token.isOneOf_iff_mem hkind).mpr (List.mem_cons_of_mem "namespace" hmem)
    simp [hsome] at hwords
  refine (d.recorded_ne_nil_iff place).mpr (.inl (hconstructor.isTaken ?_ hdelegate))
  exact fun hmem ↦ (List.mem_append.mp hmem).elim hread htype

end MethodLike

def emptyConstructor : MethodLike where
  front := [⟨.ident, "static".toList, ⟨1, 15⟩⟩]
  designator := .named ⟨.ident, "Clock".toList, ⟨1, 22⟩⟩ (by decide) none
  lead := {
    tokens := [⟨.ident, "static".toList, ⟨1, 15⟩⟩, ⟨.ident, "Clock".toList, ⟨1, 22⟩⟩]
    inner := by decide
    closed := by decide
    callless := by decide }
  isLead := rfl
  fits := trivial
  starts := by decide
  opening := ⟨⟨.punct, "(".toList, ⟨1, 27⟩⟩, by decide⟩
  content := .single [⟨.punct, ")".toList, ⟨1, 28⟩⟩] (by decide)
  ending := .braced {
    opening := ⟨⟨.punct, "\x7b".toList, ⟨1, 30⟩⟩, by decide⟩
    inside := []
    closing := ⟨⟨.punct, "\x7d".toList, ⟨1, 32⟩⟩, by decide⟩
    balanced := by decide }

def emptyConstructorText : String :=
  "class Clock \x7b static Clock() \x7b \x7d \x7d"

theorem tokens_emptyConstructorText : tokens emptyConstructorText.toList =
    Place.inClock.tokens ++ (emptyConstructor.tokens ++ [⟨.punct, "\x7d".toList, ⟨1, 34⟩⟩]) := by
  decide +kernel

theorem emptyConstructor_refused : emptyConstructor.IsStaticConstructor "Clock" ∧
    ∃ construct ∈ Language.csharp.constructs emptyConstructorText,
      construct.typeName = "Clock" ∧ construct.supportedBy Target.machineCode = false := by
  have hconstructor : emptyConstructor.IsStaticConstructor "Clock" :=
    ⟨by decide, by decide, ⟨_, _, rfl, rfl, rfl⟩, by decide⟩
  obtain ⟨-, -, hfound, htext⟩ := emptyConstructor.recorded_iff Place.inClock
  refine ⟨hconstructor, (htext _ _ tokens_emptyConstructorText).2 ?_⟩
  exact hfound hconstructor (by decide) (by decide)

def conversionOperator : MethodLike where
  front := [⟨.ident, "public".toList, ⟨1, 15⟩⟩, ⟨.ident, "static".toList, ⟨1, 22⟩⟩,
    ⟨.ident, "implicit".toList, ⟨1, 29⟩⟩, ⟨.ident, "operator".toList, ⟨1, 38⟩⟩]
  designator := .named ⟨.ident, "Clock".toList, ⟨1, 47⟩⟩ (by decide) none
  lead := {
    tokens := [⟨.ident, "public".toList, ⟨1, 15⟩⟩, ⟨.ident, "static".toList, ⟨1, 22⟩⟩,
      ⟨.ident, "implicit".toList, ⟨1, 29⟩⟩, ⟨.ident, "operator".toList, ⟨1, 38⟩⟩,
      ⟨.ident, "Clock".toList, ⟨1, 47⟩⟩]
    inner := by decide
    closed := by decide
    callless := by decide }
  isLead := rfl
  fits := trivial
  starts := by decide
  opening := ⟨⟨.punct, "(".toList, ⟨1, 52⟩⟩, by decide⟩
  content := .single
    [⟨.ident, "int".toList, ⟨1, 53⟩⟩, ⟨.ident, "x".toList, ⟨1, 57⟩⟩,
      ⟨.punct, ")".toList, ⟨1, 58⟩⟩, ⟨.punct, "=>".toList, ⟨1, 60⟩⟩,
      ⟨.ident, "new".toList, ⟨1, 63⟩⟩, ⟨.ident, "Clock".toList, ⟨1, 67⟩⟩,
      ⟨.punct, "(".toList, ⟨1, 72⟩⟩, ⟨.punct, ")".toList, ⟨1, 73⟩⟩] (by decide)
  ending := .semicolon ⟨⟨.punct, ";".toList, ⟨1, 74⟩⟩, by decide⟩

def conversionOperatorText : String :=
  "class Clock \x7b public static implicit operator Clock(int x) => new Clock(); \x7d"

/-- An operator that converts to its own type is found although it is no static constructor, and
a listing of machine code is refused. -/
theorem conversionOperator_taken :
    tokens conversionOperatorText.toList = Place.inClock.tokens ++
        (conversionOperator.tokens ++ [⟨.punct, "\x7d".toList, ⟨1, 76⟩⟩]) ∧
      ¬ conversionOperator.IsStaticConstructor "Clock" ∧
      Place.inClock.recorded conversionOperator.tokens = [⟨"Clock", 1⟩] ∧
      Language.csharp.constructs conversionOperatorText = [.staticInitializer "Clock"] := by
  refine ⟨by decide +kernel, fun h ↦ ?_, by decide +kernel, by decide +kernel⟩
  exact absurd h.empty (by decide)

end GuestGate.CSharp
