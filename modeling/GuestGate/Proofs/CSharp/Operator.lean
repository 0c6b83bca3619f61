import GuestGate.Proofs.CSharp.Found
import GuestGate.Proofs.CSharp.Lead
import GuestGate.Proofs.CSharp.Parameters

/-!
# Operators

The name of an operator is read from the one token in front of its parameters.  Directly behind the
word `operator` any mark is a name, but for a closing angle, which is taken for the end of type
arguments.  A mark of two tokens is none, and a conversion goes by the name of the type.
-/

namespace GuestGate.CSharp

variable {ts us : List Token} {t : Token}

/-! ### Parameters in their parentheses -/

/-- Parameters in parentheses, or the elements of a tuple. -/
structure ParameterGroup where
  opening : Mark "("
  parameters : List ListedParameter
  inside : List Token
  listed : Listed parameters inside
  grouped : Brackets.groups.balanced 0 inside = true
  inner : inside.all Token.isInner = true
  closing : Mark ")"

namespace ParameterGroup

variable (group : ParameterGroup)

def tokens : List Token :=
  group.opening.token :: (group.inside ++ [group.closing.token])

def lines : List Nat :=
  group.parameters.map ListedParameter.line

theorem all_isInner : group.tokens.all Token.isInner = true := by
  have hopening : group.opening.token.isInner = true := by
    rw [group.opening.token_eq]
    rfl
  have hclosing : group.closing.token.isInner = true := by
    rw [group.closing.token_eq]
    rfl
  simp only [tokens, List.all_cons, List.all_append, hopening, group.inner, hclosing,
    List.all_nil, Bool.and_self]

theorem depthAfter_closing : group.closing.token.depthAfter 1 = 0 := by
  rw [group.closing.token_eq]
  rfl

/-- A name in front takes the parameters.  If there is none they are passed over. -/
theorem parameterList?_append (before us : List Token) :
    parameterList? 0 before (group.tokens ++ us) =
      match nameBefore? before with
      | some name => some ⟨name, group.inside ++ group.closing.token :: us⟩
      | none => parameterList? 0 (group.tokens.reverse ++ before) us := by
  have hopening := group.opening.isMark
  have hsplit : group.tokens ++ us =
      group.opening.token :: (group.inside ++ group.closing.token :: us) := by simp [tokens]
  have hreverse : group.tokens.reverse ++ before = group.closing.token ::
      (group.inside.reverse ++ group.opening.token :: before) := by simp [tokens]
  have hdepth : depthAfter 1 group.inside = 1 := depthAfter_add_of_balanced group.grouped 1
  have hinside : ∀ t ∈ topLevel 1 group.inside, t.isQuiet = true := by
    have htop : topLevel 1 group.inside = [] := topLevel_of_balanced group.grouped 0
    rw [htop]
    exact List.forall_mem_nil _
  rw [hsplit, hreverse, parameterList?]
  simp only [hopening, Token.isPunct_eq hopening, group.opening.depthAfter_opening]
  cases nameBefore? before with
  | some name => rfl
  | none =>
      have hskip := CSharp.parameterList?_append hinside (group.opening.token :: before)
        (group.closing.token :: us)
      rw [hdepth, parameterList?, if_neg (by simp), if_neg (by simp)] at hskip
      have hclosing := group.depthAfter_closing
      simpa [hclosing] using hskip

/-- Some tokens in front that have no word of a type outside of all groups are those of no type. -/
theorem afterTypeKeyword?_append {depth : Nat} (hdepth : depthAfter depth ts = 0)
    (hwords : ∀ t ∈ topLevel depth ts, t.isOneOf typeKeywords = false) (us : List Token) :
    afterTypeKeyword? depth (ts ++ (group.tokens ++ us)) = none := by
  induction ts generalizing depth with
  | nil =>
      have hdepth : depth = 0 := hdepth
      rw [hdepth]
      exact if_pos ⟨rfl, group.opening.isMark⟩
  | cons t ts ih =>
      obtain ⟨hfirst, hrest⟩ := forall_topLevel_cons_iff.mp hwords
      have hword : ¬ (depth = 0 ∧ t.isOneOf typeKeywords = true) := fun ⟨hzero, hkeyword⟩ ↦ by
        simp [hfirst hzero] at hkeyword
      rw [List.cons_append, afterTypeKeyword?, if_neg hword]
      split
      · rfl
      · exact ih hdepth hrest

end ParameterGroup

/-! ### Symbols -/

inductive OperatorSymbol
  /-- A mark of one token, like `+` or `>=`. -/
  | mark (token : Token) (isMark : token.kind = .punct) (noAngle : token.isPunct ">" = false)
  /-- The marks `>` and `>>`. -/
  | angles (first : Mark ">") (others : List (Mark ">"))
  /-- One of the words `true` and `false`, or the type of a conversion, if it ends in a name. -/
  | word (qualifier : List Token) (name : Name) (types : Option TypeArguments)
  /-- A mark of two tokens, like `++` or `checked +`, or the type of a conversion, if it ends in a
  mark. -/
  | longer (first : List Token) (link last : Token) (isLink : link.isIdent "operator" = false)
      (isMark : last.kind = .punct) (noAngle : last.isPunct ">" = false)
  /-- The type of a conversion, if it begins with a tuple. -/
  | tuple (elements : ParameterGroup) (suffix : List Token)
      (inner : suffix.all Token.isInner = true)

namespace OperatorSymbol

variable (symbol : OperatorSymbol) (parameters : ParameterGroup)

def tokens : OperatorSymbol → List Token
  | mark token .. => [token]
  | angles first others => first.token :: others.map Mark.token
  | word qualifier name types => qualifier ++ name.token :: types.elim [] TypeArguments.tokens
  | longer first link last .. => first ++ [link, last]
  | tuple .. => []

def group : OperatorSymbol → ParameterGroup
  | tuple elements .. => elements
  | _ => parameters

def rest : OperatorSymbol → List Token
  | tuple _ suffix _ => suffix ++ parameters.tokens
  | _ => []

/-- The token that is read as the name of the operator. -/
def nameToken? (operator : Token) : OperatorSymbol → Option Token
  | mark token .. => some token
  | word _ name _ => some name.token
  | tuple .. => some operator
  | angles .. | longer .. => none

def name? : OperatorSymbol → Option String
  | mark .. | tuple .. => some "operator"
  | word _ name _ => some name.text
  | angles .. | longer .. => none

/-- Whether the operator is called one, with the lines of its parameters. -/
def IsRead : OperatorSymbol → Prop
  | mark .. => True
  | word _ name _ => name.text = "operator"
  | tuple elements .. => elements.lines = parameters.lines
  | angles .. | longer .. => False

theorem map_nameToken? {operator : Token} (h : operator.isIdent "operator" = true)
    (us : List Token) :
    (symbol.nameToken? operator).map (fun t ↦ MethodHeader.methodName ⟨t, us⟩) = symbol.name? := by
  cases symbol with
  | mark token isMark _ => simp [nameToken?, name?, MethodHeader.methodName, isMark]
  | angles => rfl
  | word _ name _ => simp [nameToken?, name?, MethodHeader.methodName, name.kind_eq, Name.text]
  | longer => rfl
  | tuple =>
      simp only [Token.isIdent, Bool.and_eq_true, beq_iff_eq] at h
      simp [nameToken?, name?, MethodHeader.methodName, h]

theorem nameBefore?_reverse {operator : Token} (h : operator.isIdent "operator" = true)
    (front : List Token)
    (hangles : ∀ first others, symbol = .angles first others →
      Brackets.angles.balanced 0 (front ++ [operator]) = true) :
    nameBefore? (front ++ operator :: symbol.tokens).reverse = symbol.nameToken? operator := by
  have hoperator : operator = ⟨.ident, "operator".toList, operator.position⟩ := by
    simp only [Token.isIdent, Bool.and_eq_true, beq_iff_eq] at h
    rw [← h.1, ← h.2]
  -- a word is read for itself, a mark only if the word `operator` is right in front of it
  cases symbol with
  | mark token isMark noAngle =>
      have hname := @Designator.nameBefore?_reverse (front ++ [operator])
        (.named token noAngle none) trivial
      have hread : isRead (front ++ [operator]) token = true := by simp [isRead, h]
      simpa [tokens, nameToken?, Designator.tokens, Designator.name?, hread] using hname
  | angles first others =>
      have hname := @Designator.nameBefore?_reverse (front ++ [operator])
        (.angles first others) (hangles first others rfl)
      simpa [tokens, nameToken?, Designator.tokens, Designator.name?] using hname
  | word qualifier name types =>
      have hname := @Designator.nameBefore?_reverse (front ++ operator :: qualifier)
        (.named name.token (Token.isPunct_of_ident name.kind_eq ">") types) trivial
      obtain ⟨-, hstatement, hmodifier⟩ := name.isOneOf_eq_false
      have hread : isRead (front ++ operator :: qualifier) name.token = true := by
        simp [isRead, name.kind_eq, hstatement, hmodifier]
      simpa [tokens, nameToken?, Designator.tokens, Designator.name?, hread] using hname
  | longer first link last isLink isMark noAngle =>
      have hname := @Designator.nameBefore?_reverse (front ++ operator :: (first ++ [link]))
        (.named last noAngle none) trivial
      have hread : isRead (front ++ operator :: (first ++ [link])) last = false := by
        simp [isRead, isMark, List.getLast?_append, List.getLast?_cons, isLink]
      simpa [tokens, nameToken?, Designator.tokens, Designator.name?, hread] using hname
  | tuple =>
      have hname := @Designator.nameBefore?_reverse front
        (.named operator (by rw [hoperator]; rfl) none) trivial
      have hread : isRead front operator = true := by
        rw [hoperator]
        rfl
      simpa [tokens, nameToken?, Designator.tokens, Designator.name?, hread] using hname

end OperatorSymbol

/-! ### Declarations -/

namespace Expression

def headerEnd (last : Position) : List (Block × List Token) → Position
  | [] => last
  | (block, _) :: _ => block.closing.token.position

/-- The methods that are declared behind the first block. -/
def methodsBehind (types : List String) (last : Position) (header : List Token) :
    List (Block × List Token) → List Method
  | [] => []
  | (_, run) :: rest => (declarationsFrom types last (awaitsBehind header) run rest).methods

theorem methods_declarationsFrom (types : List String) (last : Position) (awaited : Bool)
    (header : List Token) (rest : List (Block × List Token)) :
    (declarationsFrom types last awaited header rest).methods =
      (declaredMethod? header (headerEnd last rest)).toList ++
        methodsBehind types last header rest := by
  cases rest with
  | nil => exact (List.append_nil _).symm
  | cons p rest => rfl

end Expression

inductive OperatorBody
  | braced (block : Block)
  | expression (arrow : Mark "=>") (value : Expression) (semicolon : Mark ";")
  /-- No body, as in an interface. -/
  | none (semicolon : Mark ";")

namespace OperatorBody

variable (body : OperatorBody)

def head : OperatorBody → List Token
  | expression arrow value _ => arrow.token :: value.head
  | _ => []

def rest : OperatorBody → List Token
  | braced block => block.tokens
  | expression _ value semicolon => Stretch.tokensFrom value.rest ++ [semicolon.token]
  | none semicolon => [semicolon.token]

def last : OperatorBody → Position
  | braced block => block.closing.token.position
  | expression _ value semicolon => Expression.headerEnd semicolon.token.position value.rest
  | none semicolon => semicolon.token.position

def later (types : List String) (header : List Token) : OperatorBody → List Method
  | expression _ value semicolon =>
      Expression.methodsBehind types semicolon.token.position header value.rest
  | _ => []

def Single : OperatorBody → Prop
  | expression _ value _ => value.rest = []
  | _ => True

def Opaque : OperatorBody → Prop
  | expression _ value _ => ∀ run ∈ value.later.dropLast, declaredType? run = .none
  | _ => True

theorem all_isInner_head : body.head.all Token.isInner = true := by
  cases body with
  | braced block => rfl
  | none semicolon => rfl
  | expression arrow value semicolon =>
      have harrow : arrow.token.isInner = true := by
        rw [arrow.token_eq]
        rfl
      rw [head, List.all_cons, harrow, value.inner _ List.mem_cons_self]
      rfl

theorem Single.later_eq_nil {body : OperatorBody} (h : body.Single) (types : List String)
    (header : List Token) : body.later types header = [] := by
  cases body with
  | expression arrow value semicolon =>
      have hrest : value.rest = [] := h
      rw [later, hrest]
      rfl
  | _ => rfl

theorem Single.isOpaque {body : OperatorBody} (h : body.Single) : body.Opaque := by
  cases body with
  | expression arrow value semicolon =>
      have hrest : value.rest = [] := h
      have hlater : value.later = [] := by rw [Expression.later, hrest, List.map_nil]
      have hnone : ∀ run ∈ value.later.dropLast, declaredType? run = .none := by
        rw [hlater]
        exact List.forall_mem_nil _
      exact hnone
  | _ => trivial

/-- A body ends the declaration of its header. -/
theorem yields {s : Scanner} {name : String} {outer : List Scope}
    (hscopes : s.scopes = .typeBody name :: outer) (hinner : s.header.all Token.isInner = true)
    (hname : declaredType? s.header = .none) (hmembers : body.Opaque) :
    ∃ awaits declared, s.Yields (body.rest.foldl Scanner.push s) awaits declared ∧
      declared.methods = (declaredMethod? s.header body.last).toList ++
        body.later (s.scopes.filterMap Scanner.typeName?) s.header := by
  cases body with
  | braced block =>
      exact ⟨_, _, Scanner.yields_block hscopes block hinner hname, (List.append_nil _).symm⟩
  | none semicolon =>
      exact ⟨_, _, Scanner.yields_semicolon hscopes semicolon, (List.append_nil _).symm⟩
  | expression arrow value semicolon =>
      have hheaders : ∀ header ∈ (s.header :: value.later).dropLast,
          declaredType? header = .none := by
        have hlater : ∀ run ∈ value.later.dropLast, declaredType? run = .none := hmembers
        cases hruns : value.later with
        | nil => exact List.forall_mem_nil _
        | cons run runs => exact List.forall_mem_cons.mpr ⟨hname, hruns ▸ hlater⟩
      exact ⟨_, _, Expression.yields_declarationsFrom semicolon hscopes hinner
        (fun run hrun ↦ value.inner run (List.mem_cons_of_mem _ hrun)) hheaders,
        Expression.methods_declarationsFrom _ _ _ _ _⟩

end OperatorBody

structure OperatorSyntax where
  /-- Attributes, modifiers and the type that is returned. -/
  front : List Token
  word : Token
  isWord : word.isIdent "operator" = true
  symbol : OperatorSymbol
  /-- All up to the first parenthesis that is outside of all groups. -/
  lead : Lead
  isLead : lead.tokens = front ++ word :: symbol.tokens
  valueless : lead.hasValue = false
  notType : ∀ t ∈ topLevel 0 lead.tokens, t.isOneOf typeKeywords = false
  /-- Closing angles have none in front that they could close. -/
  angled : ∀ first others, symbol = .angles first others →
    Brackets.angles.balanced 0 (front ++ [word]) = true
  parameters : ParameterGroup
  body : OperatorBody

namespace OperatorSyntax

variable (d : OperatorSyntax)

def header : List Token :=
  d.lead.tokens ++ ((d.symbol.group d.parameters).tokens ++
    (d.symbol.rest d.parameters ++ d.body.head))

def tokens : List Token :=
  d.header ++ d.body.rest

def first : Token :=
  d.front.headD d.word

/-- What is reported of the operator itself.  An anonymous delegate in its header hides it. -/
def reported? : Option Method :=
  if hasTopWord d.header "delegate" then none
  else d.symbol.name?.map fun name ↦
    ⟨name, d.first.position, d.body.last, (d.symbol.group d.parameters).lines⟩

/-- What is to be reported of an operator. -/
def declared : Method :=
  ⟨"operator", d.first.position, d.body.last, d.parameters.lines⟩

theorem all_isInner_header : d.header.all Token.isInner = true := by
  have hrest : (d.symbol.rest d.parameters).all Token.isInner = true := by
    cases d.symbol with
    | tuple elements suffix inner =>
        rw [OperatorSymbol.rest, List.all_append, inner, d.parameters.all_isInner]
        rfl
    | _ => rfl
  rw [header, List.all_append, List.all_append, List.all_append, d.lead.inner,
    ParameterGroup.all_isInner, hrest, d.body.all_isInner_head]
  rfl

theorem declaredType?_header : declaredType? d.header = none := by
  rw [declaredType?, header, ParameterGroup.afterTypeKeyword?_append _ d.lead.closed d.notType]
  rfl

theorem head?_header : d.header.head? = some d.first := by
  rw [header, d.isLead, List.append_assoc]
  unfold first
  cases d.front <;> rfl

/-- Without a name in front of the parameters there is no other one. -/
theorem parameterList?_rest (hname : d.symbol.nameToken? d.word = none) (before : List Token) :
    parameterList? 0 before (d.symbol.rest d.parameters ++ d.body.head) = none := by
  have hbody : parameterList? 0 before d.body.head = none := by
    cases d.body with
    | expression arrow value semicolon =>
        rw [OperatorBody.head, parameterList?, if_pos ⟨rfl, .inr arrow.isMark⟩]
    | _ => rfl
  cases hsymbol : d.symbol with
  | angles => exact hbody
  | longer => exact hbody
  | mark => simp [hsymbol, OperatorSymbol.nameToken?] at hname
  | word => simp [hsymbol, OperatorSymbol.nameToken?] at hname
  | tuple => simp [hsymbol, OperatorSymbol.nameToken?] at hname

theorem declaredMethod?_header : declaredMethod? d.header d.body.last = d.reported? := by
  have hname := d.symbol.nameBefore?_reverse d.isWord d.front d.angled
  rw [← d.isLead] at hname
  unfold declaredMethod? reported? methodHeader?
  rw [d.declaredType?_header, d.head?_header, if_neg (by simp)]
  cases hasTopWord d.header "delegate" with
  | true => rfl
  | false =>
      let tail := (d.symbol.group d.parameters).inside ++
        (d.symbol.group d.parameters).closing.token :: (d.symbol.rest d.parameters ++ d.body.head)
      have hparameters : parameterList? 0 [] d.header =
          (d.symbol.nameToken? d.word).map fun t ↦ ⟨t, tail⟩ := by
        rw [header, d.lead.parameterList?_append, d.valueless, if_neg Bool.false_ne_true,
          ParameterGroup.parameterList?_append, hname]
        cases htoken : d.symbol.nameToken? d.word with
        | some t => rfl
        | none => exact d.parameterList?_rest htoken _
      have hlines : parameterLines tail = (d.symbol.group d.parameters).lines :=
        (d.symbol.group d.parameters).listed.parameterLinesFrom_append _ _
      rw [if_neg Bool.false_ne_true, if_neg Bool.false_ne_true, hparameters,
        ← d.symbol.map_nameToken? d.isWord tail]
      simp [Function.comp_def, hlines]

theorem reported?_eq_iff : d.reported?.toList = [d.declared] ↔
    hasTopWord d.header "delegate" = false ∧ d.symbol.IsRead d.parameters := by
  unfold reported? declared
  cases hasTopWord d.header "delegate" with
  | true => simp
  | false =>
      cases d.symbol <;>
        simp [OperatorSymbol.name?, OperatorSymbol.IsRead, OperatorSymbol.group]

/-- What is reported at a place: the operator itself, and what is taken for methods behind the
blocks of an expression. -/
theorem yields (place : Place) (hmembers : d.body.Opaque) :
    ∃ awaits declared, place.scanner.Yields (d.tokens.foldl Scanner.push place.scanner) awaits
      declared ∧ declared.methods = d.reported?.toList ++ d.body.later place.types d.header := by
  obtain ⟨⟨outer, hscopes⟩, htypes, hheader⟩ := place.scanner_eq
  have hread : ({ place.scanner with header := d.header } : Scanner).scopes =
      .typeBody place.head.text :: outer := hscopes
  obtain ⟨awaits, declared, hyields, hmethods⟩ :=
    d.body.yields hread d.all_isInner_header d.declaredType?_header hmembers
  rw [d.declaredMethod?_header] at hmethods
  refine ⟨awaits, declared, ?_, htypes ▸ hmethods⟩
  rw [tokens, List.foldl_append, Scanner.foldl_push_header (Scanner.outside_of_typeBody hscopes)
    hheader d.all_isInner_header]
  exact hyields.of_found_eq rfl rfl

/-- What is reported of an operator, at any place of a source, is told by its symbol.  One with a
single body is reported as an operator, with the lines of its parameters, exactly if its symbol is
one mark other than a closing angle, or the type of a conversion that happens to be read so, and no
anonymous delegate is in its header.  What is reported is found at all positions in it. -/
theorem found_methods (place : Place) :
    (d.body.Opaque → (place.found d.tokens).methods =
      d.reported?.toList ++ d.body.later place.types d.header) ∧
    (d.body.Single → ((place.found d.tokens).methods = [d.declared] ↔
      hasTopWord d.header "delegate" = false ∧ d.symbol.IsRead d.parameters)) ∧
    (d.body.Opaque → ∀ text after, CSharp.tokens text = place.tokens ++ (d.tokens ++ after) →
      ∀ m ∈ d.reported?, ∀ p, m.contains p = true →
        (Declarations.scan text).methodAt? p = some m) := by
  have hfound (hmembers : d.body.Opaque) : (place.found d.tokens).methods =
      d.reported?.toList ++ d.body.later place.types d.header := by
    obtain ⟨awaits, declared, hyields, hmethods⟩ := d.yields place hmembers
    rw [place.found_of_yields hyields, hmethods]
  refine ⟨hfound, fun hsingle ↦ ?_, fun hmembers text after htext m hm p hp ↦ ?_⟩
  · rw [hfound hsingle.isOpaque, hsingle.later_eq_nil, List.append_nil]
    exact d.reported?_eq_iff
  · have hmem : m ∈ (place.found d.tokens).methods := by
      rw [hfound hmembers]
      exact List.mem_append_left _ (Option.mem_toList.mpr hm)
    obtain ⟨awaits, declared, hyields, -⟩ := d.yields place hmembers
    have hbody : Scanner.NoBody (d.tokens.foldl Scanner.push place.scanner).scopes := by
      rw [hyields.scopes]
      exact place.noBody_scanner
    exact methodAt?_of_mem ((place.found_in_text htext).2 hbody m hmem) hp

end OperatorSyntax

-- the marks that can be declared: those of one token, and those of two
example : (["+", "-", "!", "~", "*", "/", "%", "&", "|", "^", "<", ">", "==", "!=", "<=", ">="].all
      fun mark ↦ (tokens mark.toList).length == 1) = true ∧
    (["++", "--", "<<", ">>"].all fun mark ↦ (tokens mark.toList).length == 2) = true := by
  decide +kernel

def clockParameters (column : Nat) : ParameterGroup where
  opening := ⟨⟨.punct, "(".toList, ⟨1, column⟩⟩, .refl true⟩
  parameters := [{
    first := ⟨.ident, "Clock".toList, ⟨1, column + 1⟩⟩
    others := [⟨.ident, "x".toList, ⟨1, column + 7⟩⟩]
    matched := Brackets.proper_ofParameters.balanced_iff.mp (.refl true) }]
  inside := [⟨.ident, "Clock".toList, ⟨1, column + 1⟩⟩, ⟨.ident, "x".toList, ⟨1, column + 7⟩⟩]
  listed := .last _
  grouped := .refl true
  inner := .refl true
  closing := ⟨⟨.punct, ")".toList, ⟨1, column + 8⟩⟩, .refl true⟩

def clockBody (column : Nat) : OperatorBody :=
  .expression ⟨⟨.punct, "=>".toList, ⟨1, column⟩⟩, .refl true⟩
    { head := [⟨.ident, "x".toList, ⟨1, column + 3⟩⟩]
      rest := []
      inner := List.forall_mem_singleton.mpr (.refl true) }
    ⟨⟨.punct, ";".toList, ⟨1, column + 4⟩⟩, .refl true⟩

def operatorFront : List Token :=
  [⟨.ident, "public".toList, ⟨1, 15⟩⟩, ⟨.ident, "static".toList, ⟨1, 22⟩⟩,
    ⟨.ident, "Clock".toList, ⟨1, 29⟩⟩]

def operatorWord : Token :=
  ⟨.ident, "operator".toList, ⟨1, 35⟩⟩

def plusOperator : OperatorSyntax where
  front := operatorFront
  word := operatorWord
  isWord := by decide
  symbol := .mark ⟨.punct, "+".toList, ⟨1, 44⟩⟩ (by decide) (by decide)
  lead := {
    tokens := operatorFront ++ operatorWord :: [⟨.punct, "+".toList, ⟨1, 44⟩⟩]
    inner := by decide
    closed := by decide
    callless := by decide }
  isLead := rfl
  valueless := by decide
  notType := by decide
  angled := nofun
  parameters := clockParameters 45
  body := clockBody 55

def plusOperatorText : List Char :=
  "class Clock \x7b public static Clock operator +(Clock x) => x; \x7d".toList

theorem tokens_plusOperatorText : tokens plusOperatorText = Place.inClock.tokens ++
    (plusOperator.tokens ++ [⟨.punct, "\x7d".toList, ⟨1, 61⟩⟩]) := by
  decide +kernel

theorem plusOperator_found :
    (Place.inClock.found plusOperator.tokens).methods = [plusOperator.declared] ∧
      (Declarations.scan plusOperatorText).methodAt? ⟨1, 52⟩ = some plusOperator.declared := by
  obtain ⟨hfound, hiff, htext⟩ := plusOperator.found_methods Place.inClock
  have hsingle : plusOperator.body.Single := rfl
  have hmethods := (hiff hsingle).mpr ⟨by decide, trivial⟩
  have hreported : plusOperator.reported? = some plusOperator.declared := by decide
  refine ⟨hmethods, ?_⟩
  exact htext hsingle.isOpaque _ _ tokens_plusOperatorText _ hreported ⟨1, 52⟩ (by decide)

def incrementOperator : OperatorSyntax where
  front := operatorFront
  word := operatorWord
  isWord := by decide
  symbol := .longer [] ⟨.punct, "+".toList, ⟨1, 44⟩⟩ ⟨.punct, "+".toList, ⟨1, 45⟩⟩ (by decide)
    (by decide) (by decide)
  lead := {
    tokens := operatorFront ++ operatorWord ::
      [⟨.punct, "+".toList, ⟨1, 44⟩⟩, ⟨.punct, "+".toList, ⟨1, 45⟩⟩]
    inner := by decide
    closed := by decide
    callless := by decide }
  isLead := rfl
  valueless := by decide
  notType := by decide
  angled := nofun
  parameters := clockParameters 46
  body := clockBody 56

def incrementOperatorText : List Char :=
  "class Clock \x7b public static Clock operator ++(Clock x) => x; \x7d".toList

/-- An operator whose mark is two tokens is not reported, and at none of its positions a method
is found. -/
theorem incrementOperator_hidden :
    tokens incrementOperatorText = Place.inClock.tokens ++
        (incrementOperator.tokens ++ [⟨.punct, "\x7d".toList, ⟨1, 62⟩⟩]) ∧
      (Place.inClock.found incrementOperator.tokens).methods = [] ∧
      ∀ p, (Declarations.scan incrementOperatorText).methodAt? p = none := by
  have hscan : (Declarations.scan incrementOperatorText).methods = [] := by decide +kernel
  refine ⟨by decide +kernel, by decide +kernel, fun p ↦ ?_⟩
  rw [Declarations.methodAt?, hscan]
  rfl

end GuestGate.CSharp
