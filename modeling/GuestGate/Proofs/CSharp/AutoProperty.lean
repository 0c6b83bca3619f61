import GuestGate.Proofs.CSharp.Enclosing
import GuestGate.Proofs.CSharp.Lead

/-!
# Static properties with initializers

After the accessors of a static property a scan awaits an initializer, and the semicolon behind it
is where it is found.  Braces inside the initializer end a header as well, and the mark with which
it began is forgotten by then.
-/

namespace GuestGate.CSharp

/-- A static property whose accessors are followed by an initializer. -/
structure AutoProperty where
  /-- Attributes, modifiers, the type and the name. -/
  lead : Lead
  valueless : lead.hasValue = false
  isStatic : CSharp.isStatic lead.tokens = true
  notType : declaredType? lead.tokens = none
  accessors : Block
  equals : Mark "="
  value : Stretch
  semicolon : Mark ";"

namespace AutoProperty

variable (p : AutoProperty)

def tokens : List Token :=
  p.lead.tokens ++ (p.accessors.tokens ++
    p.equals.token :: (p.value.tokens ++ [p.semicolon.token]))

def assignment : List Token :=
  p.equals.token :: p.value.head

theorem assignsFirst_assignment : assignsFirst p.assignment = true :=
  p.equals.isMark

theorem all_isInner_assignment : p.assignment.all Token.isInner = true := by
  have hequals : p.equals.token.isInner = true := by
    rw [p.equals.token_eq]
    rfl
  rw [assignment, List.all_cons, hequals, p.value.inner _ List.mem_cons_self]
  rfl

variable {s : Scanner} {name : String} {outer : List Scope}
  (hscopes : s.scopes = .typeBody name :: outer)

include hscopes

/-- After the accessors an initializer is awaited. -/
theorem foldl_push_accessors (hheader : s.header = []) :
    (p.lead.tokens ++ p.accessors.tokens).foldl Scanner.push s =
      { s with header := [], awaitsInitializer := true } := by
  have houtside := Scanner.outside_of_typeBody hscopes
  have hnext : ({ s with header := p.lead.tokens } : Scanner).Outside := houtside
  have hread : ({ s with header := p.lead.tokens } : Scanner).openTypes? =
      some (s.scopes.filterMap Scanner.typeName?) := Scanner.openTypes?_eq hscopes
  have hopen := Scanner.openScope_of_property hread p.lead.inner p.notType
    p.lead.methodHeader?_tokens (p.lead.hasInitializer_tokens p.valueless)
    p.accessors.opening.token.position
  rw [List.foldl_append, Scanner.foldl_push_header houtside hheader p.lead.inner, Block.tokens,
    List.foldl_cons, Scanner.push_open hnext p.accessors.opening hopen,
    Scanner.foldl_push_block p.accessors rfl, p.isStatic]
  rfl

/-- The whole initializer counts if it has no block and does not read like a type.  Otherwise only
those of its parts count that are taken for initializers by themselves. -/
theorem countOwn_initializer (hheader : s.header = []) (hawaits : s.awaitsInitializer = true) :
    Scanner.countOwn (s.scopes.filterMap Scanner.typeName?)
        ((p.equals.token :: (p.value.tokens ++ [p.semicolon.token])).foldl Scanner.push s) =
      Scanner.countOwn (s.scopes.filterMap Scanner.typeName?) s +
        if p.value.rest = [] then if declaredType? p.assignment = none then 1 else 0
        else (p.assignment :: p.value.later).countP
          (takenForInitializer (s.scopes.filterMap Scanner.typeName?)) := by
  have houtside := Scanner.outside_of_typeBody hscopes
  have hread : ({ s with header := p.assignment } : Scanner).scopes = .typeBody name :: outer :=
    hscopes
  have hsplit : p.equals.token :: (p.value.tokens ++ [p.semicolon.token]) =
      p.assignment ++ (Stretch.tokensFrom p.value.rest ++ [p.semicolon.token]) := by
    simp [assignment, Stretch.tokens]
  rw [hsplit, List.foldl_append,
    Scanner.foldl_push_header houtside hheader p.all_isInner_assignment]
  split
  · next hrest =>
      have hcount := Scanner.countOwn_semicolon hread p.semicolon
      rw [hrest]
      refine hcount.trans (congrArg (Scanner.countOwn _ s + ·) ?_)
      simp only [hawaits, p.assignsFirst_assignment, takenForInitializer]
      cases declaredType? p.assignment <;> simp
  · next hrest =>
      refine Stretch.countOwn_tokensFrom (.semicolon p.semicolon) hread p.all_isInner_assignment
        ?_ p.value.apart fun hnone ↦ absurd hnone hrest
      exact fun run hrun ↦ p.value.inner run (List.mem_cons_of_mem _ hrun)

omit hscopes in
theorem length_recorded (place : Place) : (place.recorded p.tokens).length =
    if p.value.rest = [] then if declaredType? p.assignment = none then 1 else 0
    else (p.assignment :: p.value.later).countP (takenForInitializer place.types) := by
  obtain ⟨⟨outer, hscopes⟩, htypes, hheader⟩ := place.scanner_eq
  have hread : ({ place.scanner with header := [], awaitsInitializer := true } : Scanner).scopes =
      .typeBody place.head.text :: outer := hscopes
  have hscan : p.tokens.foldl Scanner.push place.scanner =
      (p.equals.token :: (p.value.tokens ++ [p.semicolon.token])).foldl Scanner.push
        { place.scanner with header := [], awaitsInitializer := true } := by
    rw [tokens, ← List.append_assoc, List.foldl_append, p.foldl_push_accessors hscopes hheader]
  have hplace := place.countOwn_foldl_push p.tokens
  rw [hscan, ← htypes] at hplace
  rw [← htypes]
  exact Nat.add_left_cancel (hplace.symm.trans (p.countOwn_initializer hread rfl rfl))

omit hscopes in
/-- An initializer that has no word of a type in it does not read like a type. -/
theorem declaredType?_assignment (hwords : ∀ t ∈ p.value.head, t.isOneOf typeKeywords = false) :
    declaredType? p.assignment = none := by
  have hequals : p.equals.token.isOneOf typeKeywords = false := by
    rw [p.equals.token_eq]
    rfl
  have hall : ∀ t ∈ p.assignment, t.isOneOf typeKeywords = false :=
    List.forall_mem_cons.mpr ⟨hequals, hwords⟩
  rw [declaredType?, afterTypeKeyword?_eq_none hall]
  rfl

omit hscopes in
/-- A static property with an initializer, at any place of a source, is found once exactly if its
initializer has no block and does not read like a type, or if one of the parts between its blocks
is taken for an initializer by itself.  So an initializer without blocks and words of types is
found, one with a block and without the word `static` is not, and for what is found a listing of
machine code is refused. -/
theorem recorded_once_iff (place : Place) :
    ((place.recorded p.tokens).length = 1 ↔
      if p.value.rest = [] then declaredType? p.assignment = none
      else (p.assignment :: p.value.later).countP (takenForInitializer place.types) = 1) ∧
    (p.value.rest = [] → (∀ t ∈ p.value.head, t.isOneOf typeKeywords = false) →
      (place.recorded p.tokens).length = 1) ∧
    (p.value.rest ≠ [] → (∀ run ∈ p.assignment :: p.value.later, CSharp.isStatic run = false) →
      place.recorded p.tokens = []) ∧
    ∀ text after, CSharp.tokens text.toList = place.tokens ++ (p.tokens ++ after) →
      (place.recorded p.tokens).Sublist (Declarations.scan text.toList).staticInitializers ∧
      (place.recorded p.tokens ≠ [] → ∃ construct ∈ Language.csharp.constructs text,
        construct.typeName = Scanner.typePath place.types ∧
          construct.supportedBy Target.machineCode = false) := by
  have hlength := p.length_recorded place
  refine ⟨?_, fun hrest hwords ↦ ?_, fun hrest hwords ↦ ?_, fun _ _ ↦ place.recorded_in_text⟩
  · rw [hlength]
    split
    · split <;> simp [*]
    · exact Iff.rfl
  · rw [hlength, if_pos hrest, if_pos (p.declaredType?_assignment hwords)]
  · rw [if_neg hrest] at hlength
    refine List.eq_nil_of_length_eq_zero (hlength.trans (List.countP_eq_zero.mpr fun run hrun ↦ ?_))
    simp [takenForInitializer, hwords run hrun]

end AutoProperty

def plainProperty : AutoProperty where
  lead := {
    tokens := [⟨.ident, "static".toList, ⟨1, 15⟩⟩, ⟨.ident, "int".toList, ⟨1, 22⟩⟩,
      ⟨.ident, "Ticks".toList, ⟨1, 26⟩⟩]
    inner := by decide
    closed := by decide
    callless := by decide }
  valueless := by decide
  isStatic := by decide
  notType := by decide
  accessors := {
    opening := ⟨⟨.punct, "\x7b".toList, ⟨1, 32⟩⟩, by decide⟩
    inside := [⟨.ident, "get".toList, ⟨1, 34⟩⟩, ⟨.punct, ";".toList, ⟨1, 37⟩⟩]
    closing := ⟨⟨.punct, "\x7d".toList, ⟨1, 39⟩⟩, by decide⟩
    balanced := by decide }
  equals := ⟨⟨.punct, "=".toList, ⟨1, 41⟩⟩, by decide⟩
  value := .single [⟨.literal, "5".toList, ⟨1, 43⟩⟩] (by decide)
  semicolon := ⟨⟨.punct, ";".toList, ⟨1, 44⟩⟩, by decide⟩

def plainPropertyText : String :=
  "class Clock \x7b static int Ticks \x7b get; \x7d = 5; \x7d"

theorem tokens_plainPropertyText : tokens plainPropertyText.toList =
    Place.inClock.tokens ++ (plainProperty.tokens ++ [⟨.punct, "\x7d".toList, ⟨1, 46⟩⟩]) := by
  decide +kernel

theorem plainProperty_refused :
    (Place.inClock.recorded plainProperty.tokens).length = 1 ∧
      ∃ construct ∈ Language.csharp.constructs plainPropertyText, construct.typeName = "Clock" ∧
        construct.supportedBy Target.machineCode = false := by
  obtain ⟨-, hplain, -, htext⟩ := plainProperty.recorded_once_iff Place.inClock
  have hlength := hplain rfl (by decide)
  refine ⟨hlength, (htext _ _ tokens_plainPropertyText).2 fun hnone ↦ ?_⟩
  simp [hnone] at hlength

def blockProperty : AutoProperty where
  lead := {
    tokens := [⟨.ident, "static".toList, ⟨1, 15⟩⟩, ⟨.ident, "Clock".toList, ⟨1, 22⟩⟩,
      ⟨.ident, "Local".toList, ⟨1, 28⟩⟩]
    inner := by decide
    closed := by decide
    callless := by decide }
  valueless := by decide
  isStatic := by decide
  notType := by decide
  accessors := {
    opening := ⟨⟨.punct, "\x7b".toList, ⟨1, 34⟩⟩, by decide⟩
    inside := [⟨.ident, "get".toList, ⟨1, 36⟩⟩, ⟨.punct, ";".toList, ⟨1, 39⟩⟩]
    closing := ⟨⟨.punct, "\x7d".toList, ⟨1, 41⟩⟩, by decide⟩
    balanced := by decide }
  equals := ⟨⟨.punct, "=".toList, ⟨1, 43⟩⟩, by decide⟩
  value := {
    head := [⟨.ident, "new".toList, ⟨1, 45⟩⟩, ⟨.ident, "Clock".toList, ⟨1, 49⟩⟩]
    rest := [({
      opening := ⟨⟨.punct, "\x7b".toList, ⟨1, 55⟩⟩, by decide⟩
      inside := [⟨.ident, "Speed".toList, ⟨1, 57⟩⟩, ⟨.punct, "=".toList, ⟨1, 63⟩⟩,
        ⟨.literal, "2".toList, ⟨1, 65⟩⟩]
      closing := ⟨⟨.punct, "\x7d".toList, ⟨1, 67⟩⟩, by decide⟩
      balanced := by decide }, [])]
    inner := by decide
    apart := by decide }
  semicolon := ⟨⟨.punct, ";".toList, ⟨1, 68⟩⟩, by decide⟩

def blockPropertyText : String :=
  "class Clock \x7b static Clock Local \x7b get; \x7d = new Clock \x7b Speed = 2 \x7d; \x7d"

/-- The initializer of a static property is not found behind its own braces, and nothing is
refused. -/
theorem blockProperty_unnoticed :
    tokens blockPropertyText.toList =
        Place.inClock.tokens ++ (blockProperty.tokens ++ [⟨.punct, "\x7d".toList, ⟨1, 70⟩⟩]) ∧
      Place.inClock.recorded blockProperty.tokens = [] ∧
      Language.csharp.constructs blockPropertyText = [] := by
  decide +kernel

end GuestGate.CSharp
