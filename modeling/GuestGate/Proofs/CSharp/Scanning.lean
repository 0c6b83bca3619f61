import GuestGate.Proofs.CSharp.Header

/-!
# Scanning a tree of declarations

The scan of a tree finds the methods of the tree and the static initializations, in order.
The induction goes over the tree.  Each member begins with the scopes that surround it and an
empty header, and leaves both as it found them; the flag that awaits an initializer can be
anything then, as no member begins with the mark that the flag is about.
-/

namespace GuestGate.CSharp

namespace Scanner

/-- From one state to another, a scan adds what some declarations declare. -/
structure Adds (s s' : Scanner) (methods : List Method) (sites : List StaticSite) : Prop where
  scopes : s'.scopes = s.scopes
  header : s'.header = []
  methods : s'.found.methods = s.found.methods ++ methods
  initializers : s'.found.staticInitializers =
    s.found.staticInitializers ++ sites.map StaticSite.ofStart

variable {s s' s'' : Scanner} {methods methods' : List Method} {sites sites' : List StaticSite}
  {t : Token} {ts : List Token}

theorem Adds.refl (h : s.header = []) : Adds s s [] [] :=
  ⟨rfl, h, by simp, by simp⟩

theorem Adds.trans (h : Adds s s' methods sites) (h' : Adds s' s'' methods' sites') :
    Adds s s'' (methods ++ methods') (sites ++ sites') where
  scopes := h'.scopes.trans h.scopes
  header := h'.header
  methods := by rw [h'.methods, h.methods, List.append_assoc]
  initializers := by rw [h'.initializers, h.initializers, List.map_append, List.append_assoc]

/-- The header and the flag do not count as added. -/
theorem Adds.of_found_eq {u : Scanner} (h : Adds u s' methods sites) (hscopes : u.scopes = s.scopes)
    (hfound : u.found = s.found) : Adds s s' methods sites :=
  ⟨h.scopes.trans hscopes, h.header, hfound ▸ h.methods, hfound ▸ h.initializers⟩

/-- What follows some tokens is added to what they add. -/
theorem Adds.append {us : List Token} (h : Adds s (ts.foldl push s) methods sites)
    (hrest : ∀ u : Scanner, u.scopes = s.scopes → u.header = [] →
      Adds u (us.foldl push u) methods' sites') :
    Adds s ((ts ++ us).foldl push s) (methods ++ methods') (sites ++ sites') := by
  rw [List.foldl_append]
  exact h.trans (hrest _ h.scopes h.header)

/-! ### Single tokens -/

def Outside (s : Scanner) : Prop :=
  ∀ method outer, s.scopes ≠ .memberBody method :: outer

theorem push_of_outside (h : s.Outside) (t : Token) : s.push t = s.pushOutside t := by
  unfold push
  split
  · next method outer hscopes => exact absurd hscopes (h method outer)
  · rfl

theorem push_plain (h : s.Outside) (hplain : t.isPlain = true) :
    s.push t = { s with header := s.header ++ [t] } := by
  simp only [Token.isPlain, Bool.and_eq_true, Bool.not_eq_true'] at hplain
  obtain ⟨⟨hopen, hclose⟩, hend⟩ := hplain
  rw [push_of_outside h, pushOutside, hopen, hclose, hend]
  rfl

theorem foldl_push_plain (h : s.Outside) (hplain : ts.all Token.isPlain = true) :
    ts.foldl push s = { s with header := s.header ++ ts } := by
  induction ts generalizing s with
  | nil => simp
  | cons t ts ih =>
      simp only [List.all_cons, Bool.and_eq_true] at hplain
      have hnext : Outside { s with header := s.header ++ [t] } := h
      rw [List.foldl_cons, push_plain h hplain.1, ih hnext hplain.2]
      simp

theorem push_open {scope : Scope} (h : s.Outside) (opening : Mark "\x7b")
    (hscope : s.openScope opening.token.position = (s', scope)) :
    s.push opening.token = { s' with scopes := scope :: s'.scopes, header := [] } := by
  rw [push_of_outside h, pushOutside, if_pos opening.isMark, hscope]

theorem push_semicolon (h : s.Outside) (semicolon : Mark ";") :
    s.push semicolon.token =
      { s.endDeclaration semicolon.token.position with awaitsInitializer := false, header := [] } := by
  have hmark := semicolon.isMark
  have hopen : semicolon.token.isPunct "\x7b" = false := Token.isPunct_eq hmark "\x7b"
  rw [push_of_outside h, pushOutside, hopen, hmark]
  rfl

theorem push_close (h : s.Outside) (closing : Mark "\x7d") :
    s.push closing.token = { s with scopes := s.scopes.tail, header := [] } := by
  have hmark := closing.isMark
  have hopen : closing.token.isPunct "\x7b" = false := Token.isPunct_eq hmark "\x7b"
  have hend : closing.token.isPunct ";" = false := Token.isPunct_eq hmark ";"
  rw [push_of_outside h, pushOutside, hopen, hend, hmark]
  rfl

/-! ### Bodies -/

theorem push_of_body {method : Option Nat} {outer : List Scope}
    (h : s.scopes = .memberBody method :: outer) (t : Token) :
    s.push t = s.pushInBody method outer t := by
  rw [push, h]

/-- Blocks inside a body leave nothing behind. -/
theorem foldl_push_inside {depth : Nat} {method : Option Nat} {outer : List Scope}
    (h : Brackets.blocks.balanced depth ts = true)
    (hscopes : s.scopes = List.replicate depth (.memberBody none) ++ .memberBody method :: outer) :
    ts.foldl push s = { s with scopes := .memberBody method :: outer } := by
  induction ts generalizing s depth with
  | nil =>
      have hdepth : depth = 0 := beq_iff_eq.mp h
      have hbody : s.scopes = .memberBody method :: outer := by simpa [hdepth] using hscopes
      rw [← hbody]
      rfl
  | cons t ts ih =>
      obtain ⟨inner, around, hbody⟩ : ∃ inner around, s.scopes = .memberBody inner :: around := by
        cases depth with
        | zero => exact ⟨method, outer, hscopes⟩
        | succ depth => exact ⟨none, _, hscopes⟩
      rw [List.foldl_cons, push_of_body hbody]
      obtain ⟨hopens, hrest⟩ | ⟨hopens, hcloses, d, rfl, hrest⟩ | ⟨hopens, hcloses, -, hrest⟩ :=
        Brackets.balanced_cons h
      · have hopens : t.isPunct "\x7b" = true := hopens
        -- one more block of the body is open
        rw [pushInBody, if_pos hopens]
        exact ih hrest (by rw [hscopes]; rfl)
      · have hopens : ¬ t.isPunct "\x7b" = true := Bool.eq_false_iff.mp hopens
        have hcloses : t.isPunct "\x7d" = true := hcloses
        obtain ⟨rfl, rfl⟩ : inner = none ∧
            around = List.replicate d (.memberBody none) ++ .memberBody method :: outer := by
          simpa [hscopes, List.replicate_succ, eq_comm] using hbody
        rw [pushInBody, if_neg hopens, if_pos hcloses]
        exact ih hrest rfl
      · have hopens : ¬ t.isPunct "\x7b" = true := Bool.eq_false_iff.mp hopens
        have hcloses : ¬ t.isPunct "\x7d" = true := Bool.eq_false_iff.mp hcloses
        rw [pushInBody, if_neg hopens, if_neg hcloses]
        exact ih hrest hscopes

/-- A whole block goes by, and a method ends with it. -/
theorem foldl_push_block {method : Option Nat} {outer : List Scope} (block : Block)
    (hscopes : s.scopes = .memberBody method :: outer) :
    (block.inside ++ [block.closing.token]).foldl push s =
      (method.elim { s with scopes := outer } fun index ↦
        endMethod { s with scopes := outer } index block.closing.token.position) := by
  have hmark := block.closing.isMark
  have hopen : block.closing.token.isPunct "\x7b" = false := Token.isPunct_eq hmark "\x7b"
  rw [List.foldl_append, foldl_push_inside block.balanced hscopes, List.foldl_cons,
    List.foldl_nil, push_of_body rfl, pushInBody, hopen, hmark]
  cases method <;> rfl

/-! ### Headers -/

theorem not_namespace_of_isInner (h : ts.all Token.isInner = true) :
    ts.any (·.isIdent "namespace") = false :=
  List.any_eq_false.mpr fun t ht ↦ by
    have hinner := List.all_eq_true.mp h t ht
    simp only [Token.isInner, Bool.and_eq_true, Bool.not_eq_true'] at hinner
    simp [hinner.2]

theorem all_isPlain_of_isInner (h : ts.all Token.isInner = true) :
    ts.all Token.isPlain = true :=
  List.all_eq_true.mpr fun t ht ↦ by
    have hinner := List.all_eq_true.mp h t ht
    simp only [Token.isInner, Bool.and_eq_true] at hinner
    exact hinner.1

theorem foldl_push_header (h : s.Outside) (hheader : s.header = [])
    (hinner : ts.all Token.isInner = true) : ts.foldl push s = { s with header := ts } := by
  rw [foldl_push_plain h (all_isPlain_of_isInner hinner), hheader, List.nil_append]

variable {name : String} {outer : List Scope}

theorem outside_of_typeBody (h : s.scopes = .typeBody name :: outer) : s.Outside := by
  intro method rest hscopes
  rw [h] at hscopes
  cases hscopes

theorem openTypes?_eq (h : s.scopes = .typeBody name :: outer) :
    s.openTypes? = some (s.scopes.filterMap typeName?) := by
  rw [openTypes?, h]

variable {types : List String}

theorem endDeclaration_of_method {m : MethodHeader} (htypes : s.openTypes? = some types)
    (hname : declaredType? s.header = none) (hmethod : methodHeader? s.header = some m)
    (last : Position) : s.endDeclaration last = s.recordMethod types m last := by
  unfold endDeclaration
  rw [htypes]
  cases hheader : s.header with
  | nil =>
      rw [hheader] at hmethod
      cases hmethod
  | cons t ts =>
      rw [hheader] at hname hmethod
      simp only [hname, hmethod]
      rfl

theorem endDeclaration_of_value (htypes : s.openTypes? = some types)
    (hname : declaredType? s.header = none) (hmethod : methodHeader? s.header = none)
    (hheader : s.header = t :: ts) (last : Position) :
    s.endDeclaration last =
      if (t.isPunct "=" && s.awaitsInitializer) || (isStatic s.header && hasInitializer s.header)
      then s.recordStatic types else s := by
  unfold endDeclaration
  rw [htypes, hheader]
  rw [hheader] at hname hmethod
  simp only [hname, hmethod]
  rfl

theorem recordStatic_eq (h : s.header.head? = some t) :
    s.recordStatic types =
      { s with found :=
          { s.found with
            staticInitializers :=
              s.found.staticInitializers ++ [⟨typePath types, t.position.line⟩] } } := by
  simp [recordStatic, h]

section Opens

variable (htypes : s.openTypes? = some types) (hinner : s.header.all Token.isInner = true)
  (hname : declaredType? s.header = none)

include htypes hinner hname

theorem openScope_of_method {m : MethodHeader} (hmethod : methodHeader? s.header = some m)
    (opening : Position) :
    s.openScope opening =
      ({ s with awaitsInitializer := false }.recordMethod types m opening,
        .memberBody (some s.found.methods.length)) := by
  simp only [openScope, not_namespace_of_isInner hinner, hname, htypes, hmethod]
  rfl

theorem openScope_of_property (hmethod : methodHeader? s.header = none)
    (hinitializer : hasInitializer s.header = false) (opening : Position) :
    s.openScope opening =
      ({ s with awaitsInitializer := isStatic s.header }, .memberBody none) := by
  simp only [openScope, not_namespace_of_isInner hinner, hname, htypes, hmethod, hinitializer]
  cases isStatic s.header <;> rfl

end Opens

end Scanner

/-! ### Members -/

theorem Front.head?_append (front : Front) (name : Token) (ts : List Token) :
    (front.tokens ++ name :: ts).head? = some (front.first name) := by
  unfold first
  cases front.tokens <;> rfl

namespace MethodSyntax

variable (m : MethodSyntax) {s : Scanner} {types : List String} {name : String}
  {outer : List Scope}

theorem head?_header : m.header.head? = some m.first :=
  m.front.head?_append _ _

theorem recordMethod_eq (hheader : s.header = m.header) (last : Position) :
    s.recordMethod types ⟨m.name.token, m.afterOpening⟩ last =
      { s with found :=
          { methods := s.found.methods ++ [{ m.declared with last }]
            staticInitializers :=
              s.found.staticInitializers ++ (m.sites types).map StaticSite.ofStart } } := by
  have hname : MethodHeader.methodName ⟨m.name.token, m.afterOpening⟩ = m.name.text :=
    if_pos m.name.kind_eq
  unfold Scanner.recordMethod sites
  simp only [hheader, hname, m.parameterLines_afterOpening, m.isStatic_header, m.head?_header]
  split
  · simp [Scanner.recordStatic, m.head?_header, declared, StaticSite.ofStart]
  · simp [declared]

variable (hscopes : s.scopes = .typeBody name :: outer)

include hscopes

theorem adds_semicolon (hheader : s.header = m.header) {semicolon : Mark ";"}
    (hlast : m.body.last = semicolon.token) : s.Adds (s.push semicolon.token) [m.declared]
      (m.sites (s.scopes.filterMap Scanner.typeName?)) := by
  have hname : declaredType? s.header = none := by rw [hheader, m.declaredType?_header]
  have hmethod := hheader ▸ m.methodHeader?_header
  rw [Scanner.push_semicolon (Scanner.outside_of_typeBody hscopes),
    Scanner.endDeclaration_of_method (Scanner.openTypes?_eq hscopes) hname hmethod,
    m.recordMethod_eq hheader, ← hlast]
  exact ⟨rfl, rfl, rfl, rfl⟩

theorem adds_block (hheader : s.header = m.header) {block : Block}
    (hlast : m.body.last = block.closing.token) : s.Adds (block.tokens.foldl Scanner.push s)
      [m.declared] (m.sites (s.scopes.filterMap Scanner.typeName?)) := by
  have hname : declaredType? s.header = none := by rw [hheader, m.declaredType?_header]
  have hmethod := hheader ▸ m.methodHeader?_header
  have hinner : s.header.all Token.isInner = true :=
    hheader ▸ m.front.all_isInner m.all_isTail
  have hopen := Scanner.openScope_of_method (Scanner.openTypes?_eq hscopes) hinner hname hmethod
    block.opening.token.position
  rw [m.recordMethod_eq (s := { s with awaitsInitializer := false }) hheader] at hopen
  rw [Block.tokens, List.foldl_cons,
    Scanner.push_open (Scanner.outside_of_typeBody hscopes) block.opening hopen,
    Scanner.foldl_push_block block rfl]
  -- the body ends the method that was recorded when it was opened
  have hends : (s.found.methods ++ [{ m.declared with last := block.opening.token.position }]).modify
      s.found.methods.length (fun method ↦ { method with last := block.closing.token.position }) =
        s.found.methods ++ [m.declared] := by
    rw [List.modify_eq_take_cons_drop (by simp)]
    simp [declared, hlast]
  exact ⟨rfl, rfl, hends, rfl⟩

theorem adds_tokens (hheader : s.header = []) : s.Adds (m.tokens.foldl Scanner.push s)
    [m.declared] (m.sites (s.scopes.filterMap Scanner.typeName?)) := by
  have hinner : m.header.all Token.isInner = true := m.front.all_isInner m.all_isTail
  have hread : ({ s with header := m.header } : Scanner).scopes = .typeBody name :: outer :=
    hscopes
  rw [tokens, List.foldl_append,
    Scanner.foldl_push_header (Scanner.outside_of_typeBody hscopes) hheader hinner]
  cases hbody : m.body with
  | braced block => exact (m.adds_block hread rfl (by rw [hbody]; rfl)).of_found_eq rfl rfl
  | expression arrow value tail semicolon =>
      exact (m.adds_semicolon hread rfl (by rw [hbody]; rfl)).of_found_eq rfl rfl
  | none semicolon =>
      exact (m.adds_semicolon hread rfl (by rw [hbody]; rfl)).of_found_eq rfl rfl

end MethodSyntax

/-- The front of a field or property with its name. -/
theorem Front.passed_name (front : Front) (name : Name) :
    Passed (front.tokens ++ [name.token]) :=
  front.passed.append name.passed

/-- A field, and a property up to its accessors, are no types and no methods. -/
theorem Front.header_name (front : Front) (name : Name) (init : Option Initializer) :
    declaredType? ((front.tokens ++ [name.token]) ++ init.elim [] Initializer.tokens) = none ∧
    methodHeader? ((front.tokens ++ [name.token]) ++ init.elim [] Initializer.tokens) = none ∧
    CSharp.isStatic ((front.tokens ++ [name.token]) ++ init.elim [] Initializer.tokens) =
      front.isStatic ∧
    hasInitializer ((front.tokens ++ [name.token]) ++ init.elim [] Initializer.tokens) =
      init.isSome := by
  have hpassed := front.passed_name name
  have hname : [name.token].all Token.isTail = true := by simp [name.isTail]
  refine ⟨declaredType?_initialized hpassed init, methodHeader?_initialized hpassed init, ?_,
    hasInitializer_initialized hpassed init⟩
  rw [CSharp.isStatic, hasTopWord_initialized hpassed init (by decide),
    hasTopWord_append front.passed.closed (by decide) hname]
  rfl

namespace FieldSyntax

variable (f : FieldSyntax) {s : Scanner} {name : String} {outer : List Scope}

theorem header_eq : f.header =
    (f.front.tokens ++ [f.name.token]) ++ f.initializer.elim [] Initializer.tokens := by
  simp [header]

theorem head?_header : f.header.head? = some f.first :=
  f.front.head?_append _ _

theorem all_isInner : f.header.all Token.isInner = true := by
  apply f.front.all_isInner
  cases f.initializer with
  | none => simp [f.name.isTail]
  | some init => simp [f.name.isTail, init.all_isTail]

theorem isPunct_first : f.first.isPunct "=" = false := by
  have hpassed := f.front.passed_name f.name
  obtain ⟨rest, hcons⟩ := List.head?_eq_some_iff.mp (f.front.head?_append f.name.token [])
  rw [hcons] at hpassed
  exact hpassed.isPunct_equals

theorem adds_semicolon (hscopes : s.scopes = .typeBody name :: outer)
    (hheader : s.header = f.header) : s.Adds (s.push f.semicolon.token) []
      (f.sites (s.scopes.filterMap Scanner.typeName?)) := by
  have hread := f.front.header_name f.name f.initializer
  rw [← header_eq, ← hheader] at hread
  obtain ⟨hname, hmethod, hstatic, hinit⟩ := hread
  have hfirst : s.header.head? = some f.first := hheader ▸ f.head?_header
  obtain ⟨rest, hcons⟩ := List.head?_eq_some_iff.mp hfirst
  rw [Scanner.push_semicolon (Scanner.outside_of_typeBody hscopes),
    Scanner.endDeclaration_of_value (Scanner.openTypes?_eq hscopes) hname hmethod hcons,
    f.isPunct_first, hstatic, hinit, Scanner.recordStatic_eq hfirst]
  unfold sites
  cases f.front.isStatic with
  | false => exact ⟨rfl, rfl, by simp, by simp⟩
  | true =>
      cases f.initializer with
      | none => exact ⟨rfl, rfl, by simp, by simp⟩
      | some init => exact ⟨rfl, rfl, by simp, by simp [StaticSite.ofStart]⟩

theorem adds_tokens (hscopes : s.scopes = .typeBody name :: outer) (hheader : s.header = []) :
    s.Adds (f.tokens.foldl Scanner.push s) []
      (f.sites (s.scopes.filterMap Scanner.typeName?)) := by
  have hread : ({ s with header := f.header } : Scanner).scopes = .typeBody name :: outer :=
    hscopes
  rw [tokens, List.foldl_append,
    Scanner.foldl_push_header (Scanner.outside_of_typeBody hscopes) hheader f.all_isInner]
  exact (f.adds_semicolon hread rfl).of_found_eq rfl rfl

end FieldSyntax

namespace PropertySyntax

variable (p : PropertySyntax) {s : Scanner} {name : String} {outer : List Scope}

theorem all_isInner : p.header.all Token.isInner = true :=
  p.front.all_isInner (by simp [p.name.isTail])

/-- After its accessors a property awaits an initializer if it is static. -/
theorem foldl_push_accessors (hscopes : s.scopes = .typeBody name :: outer)
    (hheader : s.header = p.header) :
    p.accessors.tokens.foldl Scanner.push s =
      { s with header := [], awaitsInitializer := p.front.isStatic } := by
  have hread := p.front.header_name p.name none
  rw [Option.elim_none, List.append_nil, ← header, ← hheader] at hread
  obtain ⟨hname, hmethod, hstatic, hinit⟩ := hread
  have hopen := Scanner.openScope_of_property (Scanner.openTypes?_eq hscopes)
    (hheader ▸ p.all_isInner) hname hmethod hinit p.accessors.opening.token.position
  rw [Block.tokens, List.foldl_cons,
    Scanner.push_open (Scanner.outside_of_typeBody hscopes) p.accessors.opening hopen,
    Scanner.foldl_push_block p.accessors rfl, hstatic]
  rfl

/-- An initializer behind accessors counts if one is awaited, on the line of its mark. -/
theorem adds_initializer (init : Initializer) (semicolon : Mark ";")
    (hscopes : s.scopes = .typeBody name :: outer) (hheader : s.header = []) :
    s.Adds ((init.tokens ++ [semicolon.token]).foldl Scanner.push s) []
      (if s.awaitsInitializer
        then [⟨s.scopes.filterMap Scanner.typeName?, p.first, init.equals.token⟩] else []) := by
  have houtside := Scanner.outside_of_typeBody hscopes
  have hread : ({ s with header := init.tokens } : Scanner).scopes = .typeBody name :: outer :=
    hscopes
  have hname : declaredType? init.tokens = none :=
    declaredType?_initialized Passed.nil (some init)
  have hmethod : methodHeader? init.tokens = none :=
    methodHeader?_initialized Passed.nil (some init)
  have hstatic : isStatic init.tokens = false :=
    hasTopWord_initialized Passed.nil (some init) (by decide)
  rw [List.foldl_append,
    Scanner.foldl_push_header houtside hheader (all_isInner_of_isTail init.all_isTail)]
  rw [List.foldl_cons, List.foldl_nil, Scanner.push_semicolon (Scanner.outside_of_typeBody hread),
    Scanner.endDeclaration_of_value (Scanner.openTypes?_eq hread) hname hmethod rfl,
    init.equals.isMark, hstatic, Scanner.recordStatic_eq (t := init.equals.token) rfl]
  cases s.awaitsInitializer with
  | false => exact ⟨rfl, rfl, by simp, by simp⟩
  | true => exact ⟨rfl, rfl, by simp, by simp [StaticSite.ofStart]⟩

theorem adds_tokens (hscopes : s.scopes = .typeBody name :: outer) (hheader : s.header = []) :
    s.Adds (p.tokens.foldl Scanner.push s) []
      (p.sites (s.scopes.filterMap Scanner.typeName?)) := by
  have hread : ({ s with header := p.header } : Scanner).scopes = .typeBody name :: outer :=
    hscopes
  rw [tokens, List.foldl_append, List.foldl_append,
    Scanner.foldl_push_header (Scanner.outside_of_typeBody hscopes) hheader p.all_isInner,
    p.foldl_push_accessors hread rfl]
  unfold sites
  cases p.initializer with
  | none => exact (Scanner.Adds.refl rfl).of_found_eq rfl rfl
  | some init =>
      have hread : ({ s with header := [], awaitsInitializer := p.front.isStatic } : Scanner).scopes =
          .typeBody name :: outer := hscopes
      exact (p.adds_initializer init.1 init.2 hread rfl).of_found_eq rfl rfl

end PropertySyntax

/-! ### Trees -/

/-- What a block encloses is added, and the scope is closed again. -/
theorem Scanner.adds_enclosed {s : Scanner} {scope : Scope} {inside : List Token}
    {methods : List Method} {sites : List StaticSite} (houtside : s.Outside)
    (opening : Mark "\x7b") (closing : Mark "\x7d")
    (hopen : s.openScope opening.token.position = (s, scope))
    (hscope : ∀ method, scope ≠ .memberBody method)
    (hinside : ∀ u : Scanner, u.scopes = scope :: s.scopes → u.header = [] →
      u.Adds (inside.foldl push u) methods sites) :
    s.Adds ((opening.token :: (inside ++ [closing.token])).foldl push s) methods sites := by
  rw [List.foldl_cons, push_open houtside opening hopen, List.foldl_append]
  have hadds := hinside { s with scopes := scope :: s.scopes, header := [] } rfl rfl
  have hclose : (inside.foldl push { s with scopes := scope :: s.scopes, header := [] }).Outside := by
    intro method outer hscopes
    rw [hadds.scopes] at hscopes
    exact hscope method (List.cons.inj hscopes).1
  rw [List.foldl_cons, List.foldl_nil, push_close hclose]
  exact ⟨by rw [hadds.scopes]; rfl, rfl, hadds.methods, hadds.initializers⟩

/-- A type adds what its members add inside it. -/
theorem TypeHead.adds_tokens (head : TypeHead) {s : Scanner} {members : Members}
    {methods : List Method} {sites : List StaticSite} (houtside : s.Outside)
    (hheader : s.header = []) (opening : Mark "\x7b") (closing : Mark "\x7d")
    (hmembers : ∀ u : Scanner, u.scopes = .typeBody head.text :: s.scopes → u.header = [] →
      u.Adds (members.tokens.foldl Scanner.push u) methods sites) :
    s.Adds ((head.tokens ++ opening.token :: (members.tokens ++ [closing.token])).foldl
      Scanner.push s) methods sites := by
  have hopen : ({ s with header := head.tokens } : Scanner).openScope opening.token.position =
      ({ s with header := head.tokens }, .typeBody head.text) := by
    simp only [Scanner.openScope, Scanner.not_namespace_of_isInner head.all_isInner,
      head.declaredType?_tokens]
    rfl
  have hread : ({ s with header := head.tokens } : Scanner).Outside := houtside
  rw [List.foldl_append, Scanner.foldl_push_header houtside hheader head.all_isInner]
  exact (Scanner.adds_enclosed hread opening closing hopen nofun hmembers).of_found_eq rfl rfl

namespace Members

variable {s : Scanner} {name : String} {outer : List Scope}

theorem adds_tokens (members : Members) (hscopes : s.scopes = .typeBody name :: outer)
    (hheader : s.header = []) :
    s.Adds (members.tokens.foldl Scanner.push s) members.methods
      (members.sites (s.scopes.filterMap Scanner.typeName?)) := by
  -- every member leaves the scopes to the members after it; inside a type there is one more
  induction members generalizing s name outer with
  | nil => exact .refl hheader
  | method m rest ih =>
      refine (m.adds_tokens hscopes hheader).append fun u hu hempty ↦ ?_
      exact hu ▸ ih (hu.trans hscopes) hempty
  | field f rest ih =>
      refine (f.adds_tokens hscopes hheader).append fun u hu hempty ↦ ?_
      exact hu ▸ ih (hu.trans hscopes) hempty
  | property p rest ih =>
      refine (p.adds_tokens hscopes hheader).append fun u hu hempty ↦ ?_
      exact hu ▸ ih (hu.trans hscopes) hempty
  | type head opening members closing rest ihMembers ihRest =>
      have hsplit : (type head opening members closing rest).tokens =
          (head.tokens ++ opening.token :: (members.tokens ++ [closing.token])) ++ rest.tokens := by
        simp [tokens]
      have hinside : ∀ u : Scanner, u.scopes = .typeBody head.text :: s.scopes → u.header = [] →
          u.Adds (members.tokens.foldl Scanner.push u) members.methods
            (members.sites (head.text :: s.scopes.filterMap Scanner.typeName?)) :=
        fun u hu hempty ↦ by simpa [hu, Scanner.typeName?] using ihMembers hu hempty
      rw [hsplit]
      refine (head.adds_tokens (Scanner.outside_of_typeBody hscopes) hheader opening closing
        hinside).append fun u hu hempty ↦ ?_
      exact hu ▸ ihRest (hu.trans hscopes) hempty

end Members

namespace Scanner

variable {s : Scanner}

def InNamespaces (s : Scanner) : Prop :=
  ∀ scope ∈ s.scopes, scope = .namespaceBody

theorem InNamespaces.outside (h : s.InNamespaces) : s.Outside := by
  intro method outer hscopes
  cases h (.memberBody method) (by simp [hscopes])

theorem InNamespaces.openTypes?_eq (h : s.InNamespaces) : s.openTypes? = none := by
  unfold openTypes?
  split
  · next name outer hscopes => cases h (.typeBody name) (by simp [hscopes])
  · rfl

theorem InNamespaces.types_eq (h : s.InNamespaces) :
    s.scopes.filterMap typeName? = [] :=
  List.filterMap_eq_nil_iff.mpr fun scope hscope ↦ by rw [h scope hscope]; rfl

end Scanner

namespace Source

variable {s : Scanner}

theorem adds_directive (h : s.InNamespaces) {ts : List Token}
    (hplain : ts.all Token.isPlain = true) (semicolon : Mark ";") :
    s.Adds ((ts ++ [semicolon.token]).foldl Scanner.push s) [] [] := by
  have hread : Scanner.InNamespaces { s with header := s.header ++ ts } := h
  rw [List.foldl_append, Scanner.foldl_push_plain h.outside hplain, List.foldl_cons,
    List.foldl_nil, Scanner.push_semicolon hread.outside, Scanner.endDeclaration,
    hread.openTypes?_eq]
  exact (Scanner.Adds.refl rfl).of_found_eq rfl rfl

theorem adds_namespace (h : s.InNamespaces) (hheader : s.header = []) {header : List Token}
    (hplain : header.all Token.isPlain = true)
    (hnamespace : header.any (·.isIdent "namespace") = true) (opening : Mark "\x7b")
    (closing : Mark "\x7d") {inside : List Token} {methods : List Method}
    {sites : List StaticSite}
    (hinside : ∀ u : Scanner, u.scopes = .namespaceBody :: s.scopes → u.header = [] →
      u.Adds (inside.foldl Scanner.push u) methods sites) :
    s.Adds ((header ++ opening.token :: (inside ++ [closing.token])).foldl Scanner.push s)
      methods sites := by
  have hread : Scanner.InNamespaces { s with header := header } := h
  have hopen : ({ s with header := header } : Scanner).openScope opening.token.position =
      ({ s with header := header }, .namespaceBody) := if_pos hnamespace
  rw [List.foldl_append, Scanner.foldl_push_plain h.outside hplain, hheader, List.nil_append]
  exact (Scanner.adds_enclosed hread.outside opening closing hopen nofun hinside).of_found_eq
    rfl rfl

theorem adds_tokens (source : Source) (h : s.InNamespaces) (hheader : s.header = []) :
    s.Adds (source.tokens.foldl Scanner.push s) source.methods source.sites := by
  induction source generalizing s with
  | nil => exact .refl hheader
  | directive ts plain semicolon rest ih =>
      have hsplit : (directive ts plain semicolon rest).tokens =
          (ts ++ [semicolon.token]) ++ rest.tokens := by simp [tokens]
      rw [hsplit]
      refine (adds_directive h plain semicolon).append fun u hu hempty ↦ ?_
      exact ih (s := u) (by unfold Scanner.InNamespaces; rwa [hu]) hempty
  | block header plain isNamespace opening inside closing rest ihInside ihRest =>
      have hsplit : (block header plain isNamespace opening inside closing rest).tokens =
          (header ++ opening.token :: (inside.tokens ++ [closing.token])) ++ rest.tokens := by
        simp [tokens]
      have hinside : ∀ u : Scanner, u.scopes = .namespaceBody :: s.scopes → u.header = [] →
          u.Adds (inside.tokens.foldl Scanner.push u) inside.methods inside.sites :=
        fun u hu hempty ↦ ihInside (s := u) (by simpa [Scanner.InNamespaces, hu] using h) hempty
      rw [hsplit]
      refine (adds_namespace h hheader plain isNamespace opening closing hinside).append
        fun u hu hempty ↦ ?_
      exact ihRest (s := u) (by unfold Scanner.InNamespaces; rwa [hu]) hempty
  | type head opening members closing rest ih =>
      have hsplit : (type head opening members closing rest).tokens =
          (head.tokens ++ opening.token :: (members.tokens ++ [closing.token])) ++ rest.tokens := by
        simp [tokens]
      have hinside : ∀ u : Scanner, u.scopes = .typeBody head.text :: s.scopes → u.header = [] →
          u.Adds (members.tokens.foldl Scanner.push u) members.methods
            (members.sites [head.text]) := fun u hu hempty ↦ by
        simpa [hu, Scanner.typeName?, h.types_eq] using members.adds_tokens hu hempty
      rw [hsplit]
      refine (head.adds_tokens h.outside hheader opening closing hinside).append
        fun u hu hempty ↦ ?_
      exact ih (s := u) (by unfold Scanner.InNamespaces; rwa [hu]) hempty

end Source

/-- The scan of a source whose tokens are those of a tree finds exactly the methods of the
tree, and exactly one initialization for each place where something static is initialized.
Each is on the line where it starts, which for a property is the line of the mark behind its
accessors; so it is on the line of its member exactly if no such mark stands further down. -/
theorem scan_of_tokens {text : List Char} {source : Source} (h : tokens text = source.tokens) :
    Declarations.scan text =
        { methods := source.methods
          staticInitializers := source.sites.map StaticSite.ofStart } ∧
      ((Declarations.scan text).staticInitializers = source.sites.map StaticSite.ofMember ↔
        ∀ site ∈ source.sites, site.start.position.line = site.member.position.line) := by
  have hadds := source.adds_tokens (s := {}) (fun _ hscope ↦ by cases hscope) rfl
  have hscan : Declarations.scan text =
      { methods := source.methods
        staticInitializers := source.sites.map StaticSite.ofStart } := by
    rw [Declarations.scan, h]
    exact congr (congrArg Declarations.mk hadds.methods) hadds.initializers
  refine ⟨hscan, ?_⟩
  rw [hscan, List.map_inj_left]
  simp [StaticSite.ofStart, StaticSite.ofMember]

def splitPropertyText : List Char :=
  "class C \x7b\n  static int P \x7b get; \x7d\n    = 5;\n\x7d".toList

def splitProperty : PropertySyntax where
  front := {
    tokens := [⟨.ident, "static".toList, ⟨2, 3⟩⟩, ⟨.ident, "int".toList, ⟨2, 10⟩⟩]
    balanced := by decide
    inner := by decide
    quiet := by decide }
  name := ⟨⟨.ident, "P".toList, ⟨2, 14⟩⟩, by decide⟩
  accessors := {
    opening := ⟨⟨.punct, "\x7b".toList, ⟨2, 16⟩⟩, by decide⟩
    inside := [⟨.ident, "get".toList, ⟨2, 18⟩⟩, ⟨.punct, ";".toList, ⟨2, 21⟩⟩]
    closing := ⟨⟨.punct, "\x7d".toList, ⟨2, 23⟩⟩, by decide⟩
    balanced := by decide }
  initializer := some
    ({ equals := ⟨⟨.punct, "=".toList, ⟨3, 5⟩⟩, by decide⟩
       value := [⟨.literal, "5".toList, ⟨3, 7⟩⟩]
       isValue := by decide },
      ⟨⟨.punct, ";".toList, ⟨3, 8⟩⟩, by decide⟩)

def splitPropertySource : Source :=
  .type
    { front := ⟨[], by decide, by decide, by decide⟩
      keyword := ⟨.ident, "class".toList, ⟨1, 1⟩⟩
      isKeyword := by decide
      others := []
      areKeywords := by decide
      name := ⟨.ident, "C".toList, ⟨1, 7⟩⟩
      isName := by decide
      tail := []
      inner := by decide }
    ⟨⟨.punct, "\x7b".toList, ⟨1, 9⟩⟩, by decide⟩
    (.property splitProperty .nil)
    ⟨⟨.punct, "\x7d".toList, ⟨4, 1⟩⟩, by decide⟩
    .nil

theorem tokens_splitPropertyText : tokens splitPropertyText = splitPropertySource.tokens := by
  decide +kernel

theorem scan_splitProperty : tokens splitPropertyText = splitPropertySource.tokens ∧
    Declarations.scan splitPropertyText = { staticInitializers := [⟨"C", 3⟩] } := by
  refine ⟨tokens_splitPropertyText, ?_⟩
  obtain ⟨hscan, -⟩ := scan_of_tokens tokens_splitPropertyText
  exact hscan

/-- The member begins on the second line, and its initialization is found on the third. -/
theorem initializer_below_member : tokens splitPropertyText = splitPropertySource.tokens ∧
    splitPropertySource.sites.map StaticSite.ofMember = [⟨"C", 2⟩] ∧
    (Declarations.scan splitPropertyText).staticInitializers = [⟨"C", 3⟩] := by
  refine ⟨tokens_splitPropertyText, rfl, ?_⟩
  decide +kernel

end GuestGate.CSharp
