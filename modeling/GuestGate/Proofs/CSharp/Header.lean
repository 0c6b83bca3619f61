import GuestGate.Proofs.CSharp.Syntax

/-!
# What headers say

The functions that read a header go through it from the left and watch how deep in groups they
are.  They pass over the front of a declaration, whose groups are all closed, so what they find
is what the tree has behind it.
-/

namespace GuestGate.CSharp

variable {ts us : List Token} {t : Token}

/-! ### Marks and words -/

theorem Mark.token_eq {mark : String} (m : Mark mark) :
    m.token = ⟨.punct, mark.toList, m.token.position⟩ := by
  obtain ⟨⟨kind, text, position⟩, h⟩ := m
  simp only [Token.isPunct, Bool.and_eq_true, beq_iff_eq] at h
  obtain ⟨rfl, rfl⟩ := h
  rfl

/-- A token is one mark only. -/
theorem Token.isPunct_eq {mark : String} (h : t.isPunct mark = true) (other : String) :
    t.isPunct other = (mark.toList == other.toList) := by
  have ht : t = ⟨.punct, mark.toList, t.position⟩ := Mark.token_eq ⟨t, h⟩
  rw [ht]
  rfl

theorem Token.isPunct_of_ident (h : t.kind = .ident) (mark : String) : t.isPunct mark = false := by
  simp [isPunct, h]

/-- A token is one word only. -/
theorem Token.isIdent_eq {word : String} (h : t.isIdent word = true) (other : String) :
    t.isIdent other = (word.toList == other.toList) := by
  simp only [isIdent, Bool.and_eq_true, beq_iff_eq] at h
  rw [isIdent, h.1, h.2]
  rfl

theorem Token.kind_of_isOneOf {words : List String} (h : t.isOneOf words = true) :
    t.kind = .ident := by
  simp only [isOneOf, Bool.and_eq_true, beq_iff_eq] at h
  exact h.1

theorem Token.isOneOf_iff {words : List String} :
    t.isOneOf words = true ↔ ∃ word ∈ words, t.isIdent word = true := by
  simp only [isOneOf, isIdent, Bool.and_eq_true, List.any_eq_true]
  exact ⟨fun ⟨hkind, word, hmem, htext⟩ ↦ ⟨word, hmem, hkind, htext⟩,
    fun ⟨word, hmem, hkind, htext⟩ ↦ ⟨hkind, word, hmem, htext⟩⟩

theorem Token.isIdent_of_isOneOf {words : List String} {word : String}
    (h : t.isOneOf words = false) (hmem : word ∈ words) : t.isIdent word = false :=
  Bool.eq_false_iff.mpr fun hword ↦
    Bool.eq_false_iff.mp h (isOneOf_iff.mpr ⟨word, hmem, hword⟩)

theorem Token.isOneOf_of_subset {words others : List String}
    (h : t.isOneOf words = false) (hsubset : others ⊆ words) : t.isOneOf others = false :=
  Bool.eq_false_iff.mpr fun hothers ↦
    have ⟨word, hmem, hword⟩ := isOneOf_iff.mp hothers
    Bool.eq_false_iff.mp h (isOneOf_iff.mpr ⟨word, hsubset hmem, hword⟩)

/-! ### Depth -/

/-- How deep in groups the tokens after some tokens are. -/
def depthAfter (depth : Nat) (ts : List Token) : Nat :=
  ts.foldl (fun depth t ↦ t.depthAfter depth) depth

theorem depthAfter_append (depth : Nat) (ts us : List Token) :
    depthAfter depth (ts ++ us) = depthAfter (depthAfter depth ts) us :=
  List.foldl_append

theorem topLevel_append (depth : Nat) (ts us : List Token) :
    topLevel depth (ts ++ us) = topLevel depth ts ++ topLevel (depthAfter depth ts) us := by
  induction ts generalizing depth with
  | nil => rfl
  | cons t ts ih =>
      rw [List.cons_append, topLevel, topLevel, ih]
      split <;> rfl

theorem topLevel_sublist (depth : Nat) (ts : List Token) : (topLevel depth ts).Sublist ts := by
  induction ts generalizing depth with
  | nil => exact .slnil
  | cons t ts ih =>
      rw [topLevel]
      split
      · exact (ih _).cons_cons t
      · exact (ih _).cons t

theorem forall_topLevel_cons_iff {depth : Nat} {P : Token → Prop} :
    (∀ u ∈ topLevel depth (t :: ts), P u) ↔
      (depth = 0 → P t) ∧ ∀ u ∈ topLevel (t.depthAfter depth) ts, P u := by
  rw [topLevel]
  split
  · next hdepth => simp [hdepth]
  · next hdepth => simp [hdepth]

/-- A token of balanced groups opens or closes one of them, inside of any others. -/
theorem exists_balanced_of_cons {depth : Nat}
    (h : Brackets.groups.balanced depth (t :: ts) = true) :
    ∃ d, Brackets.groups.balanced d ts = true ∧
      ∀ outer, t.depthAfter (outer + depth) = outer + d := by
  obtain ⟨hopens, hrest⟩ | ⟨hopens, hcloses, d, rfl, hrest⟩ | ⟨hopens, hcloses, -, hrest⟩ :=
    Brackets.balanced_cons h
  · have hopens : t.opensGroup = true := hopens
    exact ⟨depth + 1, hrest, fun outer ↦ by rw [Token.depthAfter, if_pos hopens]; rfl⟩
  · have hopens : ¬ t.opensGroup = true := Bool.eq_false_iff.mp hopens
    have hcloses : t.closesGroup = true := hcloses
    exact ⟨d, hrest, fun outer ↦ by rw [Token.depthAfter, if_neg hopens, if_pos hcloses]; rfl⟩
  · have hopens : ¬ t.opensGroup = true := Bool.eq_false_iff.mp hopens
    have hcloses : ¬ t.closesGroup = true := Bool.eq_false_iff.mp hcloses
    exact ⟨depth, hrest, fun outer ↦ by rw [Token.depthAfter, if_neg hopens, if_neg hcloses]⟩

/-- Balanced groups are closed at their end. -/
theorem depthAfter_add_of_balanced {depth : Nat} (h : Brackets.groups.balanced depth ts = true)
    (outer : Nat) : depthAfter (outer + depth) ts = outer := by
  induction ts generalizing depth with
  | nil => exact congrArg (outer + ·) (beq_iff_eq.mp h)
  | cons t ts ih =>
      obtain ⟨d, hrest, hstep⟩ := exists_balanced_of_cons h
      have hnext : depthAfter (outer + depth) (t :: ts) =
          depthAfter (t.depthAfter (outer + depth)) ts := rfl
      rw [hnext, hstep, ih hrest]

theorem depthAfter_of_balanced {depth : Nat} (h : Brackets.groups.balanced depth ts = true) :
    depthAfter depth ts = 0 := by
  simpa using depthAfter_add_of_balanced h 0

/-- Inside of a group nothing is outside of all groups. -/
theorem topLevel_of_balanced {depth : Nat} (h : Brackets.groups.balanced depth ts = true)
    (outer : Nat) : topLevel (outer + 1 + depth) ts = [] := by
  induction ts generalizing depth with
  | nil => rfl
  | cons t ts ih =>
      obtain ⟨d, hrest, hstep⟩ := exists_balanced_of_cons h
      rw [topLevel, if_neg (by omega), hstep, ih hrest]

/-! ### Passing over the front of a header -/

/-- Tokens whose groups are all closed, with nothing outside of them that a header is read
for. -/
structure Passed (ts : List Token) : Prop where
  closed : depthAfter 0 ts = 0
  quiet : ∀ t ∈ topLevel 0 ts, t.isQuiet = true

theorem Passed.nil : Passed [] :=
  ⟨rfl, List.forall_mem_nil _⟩

theorem Passed.append (h : Passed ts) (h' : Passed us) : Passed (ts ++ us) where
  closed := by rw [depthAfter_append, h.closed, h'.closed]
  quiet := by
    rw [topLevel_append, h.closed]
    exact fun t ht ↦ (List.mem_append.mp ht).elim (h.quiet t) (h'.quiet t)

theorem Token.isQuiet_iff : t.isQuiet = true ↔
    t.isIdent "delegate" = false ∧ t.isOneOf typeKeywords = false ∧ t.isPunct "(" = false ∧
      t.isPunct "=" = false ∧ t.isPunct "=>" = false := by
  have hwords : t.isOneOf ("delegate" :: typeKeywords) = false ↔
      t.isIdent "delegate" = false ∧ t.isOneOf typeKeywords = false := by
    simp only [isOneOf, isIdent, List.any_cons]
    cases t.kind == .ident <;> simp
  simp only [isQuiet, Bool.and_eq_true, Bool.not_eq_true', hwords, and_assoc]

/-- What is passed over does not begin with an initializer. -/
theorem Passed.isPunct_equals (h : Passed (t :: ts)) : t.isPunct "=" = false :=
  (Token.isQuiet_iff.mp (h.quiet t (by simp [topLevel]))).2.2.2.1

theorem afterTypeKeyword?_append {depth : Nat} (h : ∀ t ∈ topLevel depth ts, t.isQuiet = true)
    (us : List Token) :
    afterTypeKeyword? depth (ts ++ us) = afterTypeKeyword? (depthAfter depth ts) us := by
  induction ts generalizing depth with
  | nil => rfl
  | cons t ts ih =>
      obtain ⟨hfirst, hrest⟩ := forall_topLevel_cons_iff.mp h
      have hparen : ¬ (depth = 0 ∧ t.isPunct "(" = true) := fun ⟨hdepth, hmark⟩ ↦ by
        simp [(Token.isQuiet_iff.mp (hfirst hdepth)).2.2.1] at hmark
      have hword : ¬ (depth = 0 ∧ t.isOneOf typeKeywords = true) := fun ⟨hdepth, hword⟩ ↦ by
        simp [(Token.isQuiet_iff.mp (hfirst hdepth)).2.1] at hword
      rw [List.cons_append, afterTypeKeyword?, if_neg hparen, if_neg hword]
      exact ih hrest

theorem parameterList?_append {depth : Nat} (h : ∀ t ∈ topLevel depth ts, t.isQuiet = true)
    (before us : List Token) :
    parameterList? depth before (ts ++ us) =
      parameterList? (depthAfter depth ts) (ts.reverse ++ before) us := by
  induction ts generalizing depth before with
  | nil => rfl
  | cons t ts ih =>
      obtain ⟨hfirst, hrest⟩ := forall_topLevel_cons_iff.mp h
      have hvalue : ¬ (depth = 0 ∧ (t.isPunct "=" = true ∨ t.isPunct "=>" = true)) := by
        rintro ⟨hdepth, hmark⟩
        obtain ⟨-, -, -, hequals, harrow⟩ := Token.isQuiet_iff.mp (hfirst hdepth)
        simp [hequals, harrow] at hmark
      have hparen : ¬ (depth = 0 ∧ t.isPunct "(" = true) := fun ⟨hdepth, hmark⟩ ↦ by
        simp [(Token.isQuiet_iff.mp (hfirst hdepth)).2.2.1] at hmark
      rw [List.cons_append, parameterList?, if_neg hvalue, if_neg hparen, ih hrest,
        List.reverse_cons, List.append_assoc]
      rfl

/-- Of the whole front of a header only what follows it is read. -/
theorem Passed.afterTypeKeyword? (h : Passed ts) (us : List Token) :
    afterTypeKeyword? 0 (ts ++ us) = CSharp.afterTypeKeyword? 0 us := by
  rw [afterTypeKeyword?_append h.quiet, h.closed]

theorem Passed.parameterList? (h : Passed ts) (us : List Token) :
    parameterList? 0 [] (ts ++ us) = CSharp.parameterList? 0 ts.reverse us := by
  rw [parameterList?_append h.quiet, h.closed, List.append_nil]

theorem Front.passed (front : Front) : Passed front.tokens where
  closed := depthAfter_of_balanced front.balanced
  quiet := List.all_eq_true.mp front.quiet

theorem Token.depthAfter_of_ident (h : t.kind = .ident) (depth : Nat) :
    t.depthAfter depth = depth := by
  simp [Token.depthAfter, opensGroup, closesGroup, isPunct_of_ident h]

namespace Name

variable (name : Name)

theorem kind_eq : name.token.kind = .ident := by
  have h := name.isName
  simp only [Token.isName, Bool.and_eq_true, beq_iff_eq] at h
  exact h.1.1.1

theorem isOneOf_eq_false : name.token.isOneOf ("namespace" :: "delegate" :: typeKeywords) = false ∧
    name.token.isOneOf statementWords = false ∧ name.token.isOneOf modifiers = false := by
  have h := name.isName
  simp only [Token.isName, Bool.and_eq_true, Bool.not_eq_true'] at h
  exact ⟨h.1.1.2, h.1.2, h.2⟩

theorem passed : Passed [name.token] where
  closed := Token.depthAfter_of_ident name.kind_eq 0
  quiet := by
    have hwords : name.token.isOneOf ("delegate" :: typeKeywords) = false :=
      Token.isOneOf_of_subset name.isOneOf_eq_false.1 (List.subset_cons_self _ _)
    simp [topLevel, Token.isQuiet, hwords, Token.isPunct_of_ident name.kind_eq]

end Name

theorem TypeParameters.passed (types : TypeParameters) : Passed types.tokens := by
  have hopening : Passed [types.opening.token] := by
    rw [types.opening.token_eq]
    exact ⟨rfl, List.forall_mem_singleton.mpr rfl⟩
  have hclosing : Passed [types.closing.token] := by
    rw [types.closing.token_eq]
    exact ⟨rfl, List.forall_mem_singleton.mpr rfl⟩
  have hinside : Passed types.inside :=
    ⟨depthAfter_of_balanced types.grouped, List.all_eq_true.mp types.quiet⟩
  exact hopening.append (hinside.append hclosing)

/-! ### Words behind the front -/

theorem Token.isInner_of_isTail (h : t.isTail = true) : t.isInner = true := by
  simp only [isTail, Bool.and_eq_true] at h
  exact h.1

theorem Token.isTail_of_isValue (h : t.isValue = true) : t.isTail = true := by
  simp only [isValue, Bool.and_eq_true] at h
  exact h.1

theorem Token.isIdent_of_isTail {word : String} (h : t.isTail = true)
    (hword : word ∈ ["static", "delegate"]) : t.isIdent word = false := by
  simp only [isTail, Bool.and_eq_true, Bool.not_eq_true'] at h
  exact isIdent_of_isOneOf h.2 hword

theorem Name.isTail (name : Name) : name.token.isTail = true := by
  obtain ⟨hwords, -, hmodifiers⟩ := name.isOneOf_eq_false
  have hnamespace : name.token.isIdent "namespace" = false :=
    Token.isIdent_of_isOneOf hwords (by decide)
  have hdelegate : name.token.isIdent "delegate" = false :=
    Token.isIdent_of_isOneOf hwords (by decide)
  have hstatic : name.token.isIdent "static" = false :=
    Token.isIdent_of_isOneOf hmodifiers (by decide)
  have hother : name.token.isOneOf ["static", "delegate"] = false := by
    refine Bool.eq_false_iff.mpr fun h ↦ ?_
    obtain ⟨word, hmem, hword⟩ := Token.isOneOf_iff.mp h
    simp only [List.mem_cons, List.not_mem_nil, or_false] at hmem
    obtain rfl | rfl := hmem
    · simp [hstatic] at hword
    · simp [hdelegate] at hword
  simp [Token.isTail, Token.isInner, Token.isPlain, Token.isPunct_of_ident name.kind_eq,
    hnamespace, hother]

theorem all_isInner_of_isTail (hts : ts.all Token.isTail = true) : ts.all Token.isInner = true :=
  List.all_eq_true.mpr fun t ht ↦ Token.isInner_of_isTail (List.all_eq_true.mp hts t ht)

theorem Front.all_isInner (front : Front) (hts : ts.all Token.isTail = true) :
    (front.tokens ++ ts).all Token.isInner = true := by
  rw [List.all_append, front.inner, all_isInner_of_isTail hts]
  rfl

/-- Behind closed groups only the words of the front count. -/
theorem hasTopWord_append {word : String} (hclosed : depthAfter 0 ts = 0)
    (hword : word ∈ ["static", "delegate"]) (hus : us.all Token.isTail = true) :
    hasTopWord (ts ++ us) word = hasTopWord ts word := by
  have hnone : hasTopWord us word = false :=
    List.any_eq_false.mpr fun u hu ↦ by
      have htail := List.all_eq_true.mp hus u ((topLevel_sublist 0 us).mem hu)
      simp [Token.isIdent_of_isTail htail hword]
  rw [hasTopWord, topLevel_append, hclosed, List.any_append, ← hasTopWord, ← hasTopWord, hnone,
    Bool.or_false]

theorem Passed.not_delegate (h : Passed ts) : hasTopWord ts "delegate" = false :=
  List.any_eq_false.mpr fun t ht ↦ by simp [(Token.isQuiet_iff.mp (h.quiet t ht)).1]

theorem TypeParameters.all_isTail (types : TypeParameters) :
    types.tokens.all Token.isTail = true := by
  have hopening : types.opening.token.isTail = true := by
    rw [types.opening.token_eq]
    rfl
  have hclosing : types.closing.token.isTail = true := by
    rw [types.closing.token_eq]
    rfl
  simp only [tokens, List.all_cons, List.all_append, hopening, types.tail, hclosing, List.all_nil,
    Bool.and_self]

theorem Parameters.all_isTail (parameters : Parameters) :
    parameters.tokens.all Token.isTail = true := by
  have hcomma : ∀ comma : Mark ",", comma.token.isTail = true := by
    intro comma
    rw [comma.token_eq]
    rfl
  cases parameters with
  | none => rfl
  | some first others =>
      rw [tokens, List.all_append, List.all_flatMap, Bool.and_eq_true, List.all_eq_true]
      refine ⟨List.all_eq_true.mp first.tail, List.all_eq_true.mpr fun p _ ↦ ?_⟩
      rw [List.all_cons, hcomma p.1, Bool.true_and]
      exact p.2.tail

theorem Body.all_isTail (body : Body) : body.head.all Token.isTail = true := by
  cases body with
  | braced block => rfl
  | none semicolon => rfl
  | expression arrow value tail semicolon =>
      have harrow : arrow.token.isTail = true := by
        rw [arrow.token_eq]
        rfl
      rw [head, List.all_cons, harrow, tail]
      rfl

theorem Initializer.all_isTail (init : Initializer) : init.tokens.all Token.isTail = true := by
  have hequals : init.equals.token.isTail = true := by
    rw [init.equals.token_eq]
    rfl
  have hvalue : init.value.all Token.isTail = true :=
    List.all_eq_true.mpr fun t ht ↦
      Token.isTail_of_isValue (List.all_eq_true.mp init.isValue t ht)
  rw [tokens, List.all_cons, hequals, hvalue]
  rfl

/-! ### Members -/

/-- Read backwards, type parameters are skipped up to what stands in front of them. -/
theorem skipArguments_reverse {depth : Nat} (h : Brackets.angles.balanced depth ts = true)
    (outer : Nat) (before : List Token) :
    skipArguments (outer + 1) (ts.reverse ++ before) =
      skipArguments (outer + 1 + depth) before := by
  induction ts generalizing depth before with
  | nil =>
      have hdepth : depth = 0 := beq_iff_eq.mp h
      rw [hdepth]
      rfl
  | cons t ts ih =>
      rw [List.reverse_cons, List.append_assoc]
      obtain ⟨hopens, hrest⟩ | ⟨hopens, hcloses, d, rfl, hrest⟩ | ⟨hopens, hcloses, -, hrest⟩ :=
        Brackets.balanced_cons h
      · have hopens : t.isPunct "<" = true := hopens
        have hcloses : t.isPunct ">" = false := Token.isPunct_eq hopens ">"
        have hdeep : ¬ outer + 1 + (depth + 1) ≤ 1 := by omega
        rw [ih hrest, List.singleton_append, skipArguments, hcloses, hopens, if_neg hdeep]
        rfl
      · have hcloses : t.isPunct ">" = true := hcloses
        rw [ih hrest, List.singleton_append, skipArguments, if_pos hcloses]
        rfl
      · have hopens : ¬ t.isPunct "<" = true := Bool.eq_false_iff.mp hopens
        have hcloses : ¬ t.isPunct ">" = true := Bool.eq_false_iff.mp hcloses
        rw [ih hrest, List.singleton_append, skipArguments, if_neg hcloses, if_neg hopens]

theorem skipArguments_closing (opening : Mark "<") (closing : Mark ">")
    (h : Brackets.angles.balanced 0 ts = true) (before : List Token) :
    skipArguments 0 (closing.token :: (ts.reverse ++ opening.token :: before)) = some before := by
  have hnot : opening.token.isPunct ">" = false := Token.isPunct_eq opening.isMark ">"
  rw [skipArguments, if_pos closing.isMark, skipArguments_reverse h, skipArguments, hnot,
    opening.isMark]
  rfl

theorem nameBefore?_cons {name : Name} (before : List Token) :
    nameBefore? (name.token :: before) = some name.token := by
  obtain ⟨-, hstatement, hmodifier⟩ := name.isOneOf_eq_false
  simp [nameBefore?, Token.isPunct_of_ident name.kind_eq, name.kind_eq, hstatement, hmodifier]

theorem nameBefore?_typeParameters (types : TypeParameters) {name : Name} (before : List Token) :
    nameBefore? (types.tokens.reverse ++ name.token :: before) = some name.token := by
  obtain ⟨-, hstatement, hmodifier⟩ := name.isOneOf_eq_false
  have hreverse : types.tokens.reverse ++ name.token :: before =
      types.closing.token ::
        (types.inside.reverse ++ types.opening.token :: name.token :: before) := by
    simp [TypeParameters.tokens]
  have hskip := skipArguments_closing types.opening types.closing types.angled
    (name.token :: before)
  rw [hreverse, nameBefore?]
  simp [types.closing.isMark, hskip, name.kind_eq, hstatement, hmodifier]

namespace MethodSyntax

variable (m : MethodSyntax)

/-- What stands in front of the parameters. -/
def beforeOpening : List Token :=
  m.front.tokens ++ m.name.token :: m.types.elim [] TypeParameters.tokens

theorem header_eq : m.header = m.beforeOpening ++ m.opening.token :: m.afterOpening := by
  simp [header, beforeOpening]

theorem passed_beforeOpening : Passed m.beforeOpening := by
  have hname := m.front.passed.append m.name.passed
  unfold beforeOpening
  cases m.types with
  | none => exact hname
  | some types => simpa using hname.append types.passed

theorem nameBefore?_reverse : nameBefore? m.beforeOpening.reverse = some m.name.token := by
  unfold beforeOpening
  cases m.types with
  | none => simpa using nameBefore?_cons m.front.tokens.reverse
  | some types => simpa using nameBefore?_typeParameters types m.front.tokens.reverse

theorem declaredType?_header : declaredType? m.header = none := by
  have hopening : (0 : Nat) = 0 ∧ m.opening.token.isPunct "(" = true := ⟨rfl, m.opening.isMark⟩
  rw [header_eq, declaredType?, m.passed_beforeOpening.afterTypeKeyword?, afterTypeKeyword?,
    if_pos hopening]
  rfl

theorem all_isTail : (m.name.token :: (m.types.elim [] TypeParameters.tokens ++
    m.opening.token :: m.afterOpening)).all Token.isTail = true := by
  have hopening : m.opening.token.isTail = true := by
    rw [m.opening.token_eq]
    rfl
  have hclosing : m.closing.token.isTail = true := by
    rw [m.closing.token_eq]
    rfl
  have htypes : (m.types.elim [] TypeParameters.tokens).all Token.isTail = true := by
    cases m.types with
    | none => rfl
    | some types => exact types.all_isTail
  simp only [afterOpening, List.all_cons, List.all_append, m.name.isTail, htypes, hopening,
    m.parameters.all_isTail, hclosing, m.isTail, m.body.all_isTail, Bool.and_self]

theorem methodHeader?_header : methodHeader? m.header = some ⟨m.name.token, m.afterOpening⟩ := by
  have hdelegate : hasTopWord m.header "delegate" = false := by
    rw [header, hasTopWord_append m.front.passed.closed (by decide) m.all_isTail]
    exact m.front.passed.not_delegate
  have hopening := m.opening.isMark
  rw [methodHeader?, hdelegate, header_eq, m.passed_beforeOpening.parameterList?, parameterList?,
    m.nameBefore?_reverse]
  simp [hopening, Token.isPunct_eq hopening]

theorem isStatic_header : isStatic m.header = m.front.isStatic :=
  hasTopWord_append m.front.passed.closed (by decide) m.all_isTail

end MethodSyntax

/-! ### Parameters -/

theorem Token.not_closing_of_opens (h : Brackets.ofParameters.opens t = true) :
    t.isPunct ")" = false ∧ t.isPunct "," = false := by
  simp only [Brackets.ofParameters, opensGroup, Bool.or_eq_true] at h
  obtain (h | h) | h := h <;> exact ⟨isPunct_eq h ")", isPunct_eq h ","⟩

/-- A token of a parameter neither ends the list nor separates its parameters.  It counts
if it is the first. -/
theorem parameterLinesFrom_cons {depth : Nat}
    (h : Brackets.ofParameters.balanced depth (t :: ts) = true) (fresh : Bool)
    (us : List Token) : ∃ depth', Brackets.ofParameters.balanced depth' ts = true ∧
      parameterLinesFrom ⟨depth, fresh⟩ (t :: us) =
        (if fresh then [t.position.line] else []) ++ parameterLinesFrom ⟨depth', false⟩ us := by
  have hstep : ¬ (depth = 0 ∧ t.isPunct ")" = true) → ¬ (depth = 0 ∧ t.isPunct "," = true) →
      parameterLinesFrom ⟨depth, fresh⟩ (t :: us) =
        (if fresh then [t.position.line] else []) ++ parameterLinesFrom
          ⟨if Brackets.ofParameters.opens t then depth + 1
            else if Brackets.ofParameters.closes t then depth - 1 else depth, false⟩ us := by
    intro hclosing hcomma
    rw [parameterLinesFrom, if_neg hclosing, if_neg hcomma]
    cases fresh <;> rfl
  obtain ⟨hopens, hrest⟩ | ⟨hopens, hcloses, d, rfl, hrest⟩ |
    ⟨hopens, hcloses, hseparates, hrest⟩ := Brackets.balanced_cons h
  · obtain ⟨hclosing, hcomma⟩ := Token.not_closing_of_opens hopens
    refine ⟨depth + 1, hrest, ?_⟩
    rw [hstep (by simp [hclosing]) (by simp [hcomma]), if_pos hopens]
  · refine ⟨d, hrest, ?_⟩
    rw [hstep (by simp) (by simp), hopens, if_pos hcloses]
    rfl
  · have hclosing : t.isPunct ")" = false := by
      simp only [Brackets.ofParameters, Token.closesGroup, Bool.or_eq_false_iff] at hcloses
      exact hcloses.1.1
    have hcomma : ¬ (depth = 0 ∧ t.isPunct "," = true) := fun ⟨hdepth, hmark⟩ ↦
      Bool.eq_false_iff.mp (hseparates hdepth) hmark
    refine ⟨depth, hrest, ?_⟩
    rw [hstep (by simp [hclosing]) hcomma, hopens, hcloses]
    rfl

theorem parameterLinesFrom_balanced {depth : Nat}
    (h : Brackets.ofParameters.balanced depth ts = true) (us : List Token) :
    parameterLinesFrom ⟨depth, false⟩ (ts ++ us) = parameterLinesFrom ⟨0, false⟩ us := by
  induction ts generalizing depth with
  | nil =>
      have hdepth : depth = 0 := beq_iff_eq.mp h
      rw [hdepth]
      rfl
  | cons t ts ih =>
      obtain ⟨depth', hrest, hstep⟩ := parameterLinesFrom_cons h false (ts ++ us)
      rw [List.cons_append, hstep, ih hrest]
      rfl

theorem parameterLinesFrom_first (h : Brackets.ofParameters.balanced 0 (t :: ts) = true)
    (us : List Token) :
    parameterLinesFrom ⟨0, true⟩ ((t :: ts) ++ us) =
      t.position.line :: parameterLinesFrom ⟨0, false⟩ us := by
  obtain ⟨depth, hrest, hstep⟩ := parameterLinesFrom_cons h true (ts ++ us)
  rw [List.cons_append, hstep, parameterLinesFrom_balanced hrest]
  rfl

theorem parameterLinesFrom_comma (comma : Mark ",") (fresh : Bool) (us : List Token) :
    parameterLinesFrom ⟨0, fresh⟩ (comma.token :: us) = parameterLinesFrom ⟨0, true⟩ us := by
  have hclosing : ¬ ((0 : Nat) = 0 ∧ comma.token.isPunct ")" = true) := by
    rw [Token.isPunct_eq comma.isMark]
    decide
  rw [parameterLinesFrom, if_neg hclosing, if_pos ⟨rfl, comma.isMark⟩]

theorem parameterLinesFrom_closing (closing : Mark ")") (fresh : Bool) (us : List Token) :
    parameterLinesFrom ⟨0, fresh⟩ (closing.token :: us) = [] := by
  rw [parameterLinesFrom, if_pos ⟨rfl, closing.isMark⟩]

theorem Parameter.lines_append (p : Parameter) (us : List Token) :
    parameterLinesFrom ⟨0, true⟩ (p.tokens ++ us) = p.line :: parameterLinesFrom ⟨0, false⟩ us :=
  parameterLinesFrom_first p.balanced us

theorem parameterLinesFrom_others (others : List (Mark "," × Parameter)) (closing : Mark ")")
    (us : List Token) :
    parameterLinesFrom ⟨0, false⟩
        ((others.flatMap fun p ↦ p.1.token :: p.2.tokens) ++ closing.token :: us) =
      others.map fun p ↦ p.2.line := by
  induction others with
  | nil => exact parameterLinesFrom_closing closing false us
  | cons p others ih =>
      rw [List.flatMap_cons, List.append_assoc, List.cons_append, parameterLinesFrom_comma,
        p.2.lines_append, ih, List.map_cons]

theorem MethodSyntax.parameterLines_afterOpening (m : MethodSyntax) :
    parameterLines m.afterOpening = m.parameters.lines := by
  unfold parameterLines afterOpening
  cases m.parameters with
  | none => exact parameterLinesFrom_closing m.closing true _
  | some first others =>
      rw [Parameters.tokens, List.append_assoc, first.lines_append, parameterLinesFrom_others]
      rfl

/-! ### Initializers -/

theorem afterTypeKeyword?_eq_none (h : ∀ t ∈ ts, t.isOneOf typeKeywords = false) (depth : Nat) :
    afterTypeKeyword? depth ts = none := by
  induction ts generalizing depth with
  | nil => rfl
  | cons t ts ih =>
      obtain ⟨hfirst, hrest⟩ := List.forall_mem_cons.mp h
      rw [afterTypeKeyword?, hfirst, ih hrest]
      simp

section Initialized

variable (hpassed : Passed ts) (init : Option Initializer)

include hpassed

/-- A header with an initializer, or with none, declares no type. -/
theorem declaredType?_initialized :
    declaredType? (ts ++ init.elim [] Initializer.tokens) = none := by
  have hwords : ∀ t ∈ init.elim [] Initializer.tokens, t.isOneOf typeKeywords = false := by
    cases init with
    | none => exact List.forall_mem_nil _
    | some init =>
        refine List.forall_mem_cons.mpr ⟨?_, fun t ht ↦ ?_⟩
        · rw [init.equals.token_eq]
          rfl
        · have hvalue := List.all_eq_true.mp init.isValue t ht
          simp only [Token.isValue, Bool.and_eq_true, Bool.not_eq_true'] at hvalue
          exact hvalue.2
  rw [declaredType?, hpassed.afterTypeKeyword?, afterTypeKeyword?_eq_none hwords]
  rfl

theorem hasTopWord_initialized {word : String} (hword : word ∈ ["static", "delegate"]) :
    hasTopWord (ts ++ init.elim [] Initializer.tokens) word = hasTopWord ts word := by
  apply hasTopWord_append hpassed.closed hword
  cases init with
  | none => rfl
  | some init => exact init.all_isTail

theorem methodHeader?_initialized :
    methodHeader? (ts ++ init.elim [] Initializer.tokens) = none := by
  have hdelegate : hasTopWord (ts ++ init.elim [] Initializer.tokens) "delegate" = false := by
    rw [hasTopWord_initialized hpassed init (by decide), hpassed.not_delegate]
  rw [methodHeader?, hdelegate, hpassed.parameterList?]
  cases init with
  | none => rfl
  | some init =>
      have hequals : (0 : Nat) = 0 ∧
          (init.equals.token.isPunct "=" = true ∨ init.equals.token.isPunct "=>" = true) :=
        ⟨rfl, .inl init.equals.isMark⟩
      exact if_pos hequals

theorem hasInitializer_initialized :
    hasInitializer (ts ++ init.elim [] Initializer.tokens) = init.isSome := by
  have hfront : (topLevel 0 ts).any (·.isPunct "=") = false :=
    List.any_eq_false.mpr fun t ht ↦ by
      simp [(Token.isQuiet_iff.mp (hpassed.quiet t ht)).2.2.2.1]
  rw [hasInitializer, topLevel_append, hpassed.closed, List.any_append, hfront, Bool.false_or]
  cases init with
  | none => rfl
  | some init => simp [Initializer.tokens, topLevel, init.equals.isMark]

end Initialized

/-! ### Types -/

namespace TypeHead

variable (head : TypeHead)

theorem all_isInner : head.tokens.all Token.isInner = true := by
  have hword : ∀ t : Token, t.kind = .ident → t.isIdent "namespace" = false →
      t.isInner = true := fun t hkind hword ↦ by
    simp [Token.isInner, Token.isPlain, Token.isPunct_of_ident hkind, hword]
  have hkeyword : ∀ t : Token, t.isOneOf typeKeywords = true → t.isInner = true := by
    intro t ht
    refine hword t (Token.kind_of_isOneOf ht) ?_
    obtain ⟨word, hmem, hkeyword⟩ := Token.isOneOf_iff.mp ht
    have hdifferent : ∀ word ∈ typeKeywords, (word.toList == "namespace".toList) = false := by
      decide
    rw [Token.isIdent_eq hkeyword, hdifferent word hmem]
  have hname : head.name.isInner = true :=
    hword _ head.isName.1 (Token.isIdent_of_isOneOf head.isName.2 (by decide))
  have hothers : head.others.all Token.isInner = true :=
    List.all_eq_true.mpr fun t ht ↦ hkeyword t (List.all_eq_true.mp head.areKeywords t ht)
  simp only [tokens, List.all_append, List.all_cons, head.front.inner, hkeyword _ head.isKeyword,
    hothers, hname, head.inner, Bool.and_self]

theorem afterTypeKeyword?_tokens :
    afterTypeKeyword? 0 head.tokens = some (head.others ++ head.name :: head.tail) := by
  have hparen : ¬ ((0 : Nat) = 0 ∧ head.keyword.isPunct "(" = true) := by
    simp [Token.isPunct_of_ident (Token.kind_of_isOneOf head.isKeyword)]
  rw [tokens, head.front.passed.afterTypeKeyword?, afterTypeKeyword?, if_neg hparen,
    if_pos ⟨rfl, head.isKeyword⟩]

theorem declaredType?_tokens : declaredType? head.tokens = some head.text := by
  obtain ⟨hkind, hwords⟩ := head.isName
  have hname : head.name.isOneOf typeKeywords = false :=
    Token.isOneOf_of_subset hwords (List.subset_cons_self _ _)
  have hothers : head.others.find? (fun t ↦ t.kind == .ident && !t.isOneOf typeKeywords) = none :=
    List.find?_eq_none.mpr fun t ht ↦ by simp [List.all_eq_true.mp head.areKeywords t ht]
  simp [declaredType?, afterTypeKeyword?_tokens, List.find?_append, hothers, hkind, hname, text]

end TypeHead

end GuestGate.CSharp
