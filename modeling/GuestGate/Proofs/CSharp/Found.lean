import GuestGate.Proofs.CSharp.Enclosing

/-!
# What is found at a place

In a type a scan stops only at blocks and semicolons, and what it finds there is told by the header
in front.  Only for an initializer behind accessors it has to know of the header before.  Nothing
that comes later changes what has been found, since the bodies that are still to close then belong
to methods that come later as well.
-/

namespace GuestGate.CSharp

namespace Declarations

instance : Append Declarations where
  append d e := ⟨d.methods ++ e.methods, d.staticInitializers ++ e.staticInitializers⟩

@[simp]
theorem methods_append (d e : Declarations) : (d ++ e).methods = d.methods ++ e.methods := rfl

@[simp]
theorem staticInitializers_append (d e : Declarations) :
    (d ++ e).staticInitializers = d.staticInitializers ++ e.staticInitializers := rfl

@[simp]
theorem empty_append (d : Declarations) : ({} : Declarations) ++ d = d := rfl

end Declarations

/-! ### Headers -/

/-- The method that a header declares, if it ends at a place. -/
def declaredMethod? (header : List Token) (last : Position) : Option Method :=
  if (declaredType? header).isSome then none
  else (methodHeader? header).map fun m ↦
    ⟨m.methodName, (header.head?.map Token.position).getD last, last, parameterLines m.parameters⟩

/-- Whether the block behind a header can be followed by an initializer that counts. -/
def awaitsBehind (header : List Token) : Bool :=
  isStatic header && (methodHeader? header).isNone && !hasInitializer header

/-- What a header declares that ends at a place.  An initializer that is awaited counts as well. -/
def declarations (types : List String) (awaited : Bool) (header : List Token) (last : Position) :
    Declarations where
  methods := (declaredMethod? header last).toList
  staticInitializers := Scanner.entryIf (takenForInitializer types header ||
    (declaredType? header).isNone && assignsFirst header && awaited) types header

namespace Scanner

variable {s s' s'' : Scanner} {d e : Declarations} {awaits awaits' : Bool}

/-- From one state to another, a scan of some members of a type adds what they declare. -/
structure Yields (s s' : Scanner) (awaits : Bool) (d : Declarations) : Prop where
  scopes : s'.scopes = s.scopes
  header : s'.header = []
  awaits : s'.awaitsInitializer = awaits
  methods : s'.found.methods = s.found.methods ++ d.methods
  initializers : s'.found.staticInitializers =
    s.found.staticInitializers ++ d.staticInitializers

theorem Yields.trans (h : Yields s s' awaits d) (h' : Yields s' s'' awaits' e) :
    Yields s s'' awaits' (d ++ e) where
  scopes := h'.scopes.trans h.scopes
  header := h'.header
  awaits := h'.awaits
  methods := by rw [h'.methods, h.methods, Declarations.methods_append, List.append_assoc]
  initializers := by
    rw [h'.initializers, h.initializers, Declarations.staticInitializers_append, List.append_assoc]

/-- The header does not count as added. -/
theorem Yields.of_found_eq {u : Scanner} (h : Yields u s' awaits d) (hscopes : u.scopes = s.scopes)
    (hfound : u.found = s.found) : Yields s s' awaits d :=
  ⟨h.scopes.trans hscopes, h.header, h.awaits, hfound ▸ h.methods, hfound ▸ h.initializers⟩

theorem methods_recordMethod (s : Scanner) (types : List String) (m : MethodHeader)
    (p : Position) : (s.recordMethod types m p).found.methods = s.found.methods ++
      [⟨m.methodName, (s.header.head?.map Token.position).getD p, p,
        parameterLines m.parameters⟩] := by
  unfold recordMethod
  split <;> rfl

theorem methods_endDeclaration {types : List String} (htypes : s.openTypes? = some types)
    (p : Position) : (s.endDeclaration p).found.methods =
      s.found.methods ++ (declaredMethod? s.header p).toList := by
  unfold declaredMethod?
  cases hheader : s.header with
  | nil =>
      unfold endDeclaration
      rw [htypes, hheader]
      exact (List.append_nil _).symm
  | cons t ts =>
      rw [← hheader]
      cases hname : declaredType? s.header with
      | some name =>
          unfold endDeclaration
          simp [htypes, hheader, hheader ▸ hname]
      | none =>
          cases hmethod : methodHeader? s.header with
          | some m =>
              rw [endDeclaration_of_method htypes hname hmethod, methods_recordMethod]
              rfl
          | none =>
              rw [endDeclaration_of_value htypes hname hmethod hheader]
              split
              · exact (List.append_nil _).symm
              · exact (List.append_nil _).symm

section OfType

variable {name : String} {outer : List Scope} (hscopes : s.scopes = .typeBody name :: outer)

include hscopes

/-- A semicolon ends the declaration of its header. -/
theorem yields_semicolon (semicolon : Mark ";") :
    s.Yields (s.push semicolon.token) false
      (declarations (s.scopes.filterMap typeName?) s.awaitsInitializer s.header
        semicolon.token.position) := by
  have htypes := openTypes?_eq hscopes
  rw [push_semicolon (outside_of_typeBody hscopes)]
  exact ⟨scopes_endDeclaration s _, rfl, rfl, methods_endDeclaration htypes _,
    initializers_endDeclaration htypes _⟩

omit hscopes in
/-- An opening brace behind a header that is not one of a type begins the body of a member.  When
it closes the methods are those from before and the one that is declared. -/
theorem openScope_of_member {types : List String} (htypes : s.openTypes? = some types)
    (hinner : s.header.all Token.isInner = true) (hname : declaredType? s.header = none)
    (p last : Position) :
    ∃ s' method, s.openScope p = (s', .memberBody method) ∧
      s'.awaitsInitializer = awaitsBehind s.header ∧
      (method.elim s' fun index ↦ s'.endMethod index last).found.methods =
        s.found.methods ++ (declaredMethod? s.header last).toList := by
  cases hmethod : methodHeader? s.header with
  | some m =>
      have hopen := openScope_of_method htypes hinner hname hmethod p
      have hawaits : (recordMethod { s with awaitsInitializer := false } types m
          p).awaitsInitializer = false := by
        unfold recordMethod
        split <;> rfl
      have hfirst : (s.header.head?.map Token.position).getD p =
          (s.header.head?.map Token.position).getD last := by
        cases hheader : s.header with
        | nil =>
            rw [hheader] at hmethod
            cases hmethod
        | cons t ts => rfl
      refine ⟨_, _, hopen, by simp [hawaits, awaitsBehind, hmethod], ?_⟩
      simp only [Option.elim_some, endMethod, methods_recordMethod, declaredMethod?, hname, hmethod,
        hfirst]
      rw [List.modify_eq_take_cons_drop (by simp)]
      simp
  | none =>
      have hnone : (declaredMethod? s.header last).toList = [] := by
        simp [declaredMethod?, hname, hmethod]
      rw [hnone, List.append_nil]
      simp only [openScope, not_namespace_of_isInner hinner, hname, htypes, hmethod, awaitsBehind]
      cases isStatic s.header with
      | false => exact ⟨_, _, rfl, rfl, rfl⟩
      | true =>
          cases hasInitializer s.header with
          | false => exact ⟨_, _, rfl, rfl, rfl⟩
          | true => exact ⟨_, _, rfl, rfl, rfl⟩

/-- A block ends the declaration of its header, unless that is one of a type. -/
theorem yields_block (block : Block) (hinner : s.header.all Token.isInner = true)
    (hname : declaredType? s.header = none) :
    s.Yields (block.tokens.foldl push s) (awaitsBehind s.header)
      (declarations (s.scopes.filterMap typeName?) false s.header
        block.closing.token.position) := by
  have htypes := openTypes?_eq hscopes
  have hinitializers := initializers_openScope htypes block.opening.token.position
  rw [not_namespace_of_isInner hinner, Bool.not_false, Bool.true_and] at hinitializers
  have hsame := scopes_openScope s block.opening.token.position
  obtain ⟨s', method, hopen, hawaits, hmethods⟩ := openScope_of_member htypes hinner hname
    block.opening.token.position block.closing.token.position
  rw [hopen] at hinitializers hsame
  rw [Block.tokens, List.foldl_cons, push_open (outside_of_typeBody hscopes) block.opening hopen,
    foldl_push_block block rfl]
  have hadded : (declarations (s.scopes.filterMap typeName?) false s.header
      block.closing.token.position).staticInitializers =
        entryIf (takenForInitializer (s.scopes.filterMap typeName?) s.header)
          (s.scopes.filterMap typeName?) s.header := by
    rw [declarations, Bool.and_false, Bool.or_false]
  cases method with
  | none => exact ⟨hsame, rfl, hawaits, hmethods, hinitializers.trans (by rw [hadded])⟩
  | some index => exact ⟨hsame, rfl, hawaits, hmethods, hinitializers.trans (by rw [hadded])⟩

end OfType

end Scanner

/-! ### Expressions -/

structure Expression where
  head : List Token
  rest : List (Block × List Token)
  inner : ∀ run ∈ head :: rest.map Prod.snd, run.all Token.isInner = true

namespace Expression

variable (value : Expression)

def tokens : List Token :=
  value.head ++ Stretch.tokensFrom value.rest

def later : List (List Token) :=
  value.rest.map Prod.snd

def headers (front : List Token) : List (List Token) :=
  (front ++ value.head) :: value.later

def declarationsFrom (types : List String) (last : Position) :
    Bool → List Token → List (Block × List Token) → Declarations
  | awaited, header, [] => declarations types awaited header last
  | _, header, (block, run) :: rest =>
      declarations types false header block.closing.token.position ++
        declarationsFrom types last (awaitsBehind header) run rest

/-- Whether no header in front of a block is one of a type. -/
def Opaque (front : List Token) : Prop :=
  ∀ header ∈ (value.headers front).dropLast, declaredType? header = none

theorem yields_declarationsFrom {rest : List (Block × List Token)} {s : Scanner} {name : String}
    {outer : List Scope} (semicolon : Mark ";") (hscopes : s.scopes = .typeBody name :: outer)
    (hheader : s.header.all Token.isInner = true)
    (hinner : ∀ run ∈ rest.map Prod.snd, run.all Token.isInner = true)
    (hmembers : ∀ header ∈ (s.header :: rest.map Prod.snd).dropLast, declaredType? header = none) :
    s.Yields ((Stretch.tokensFrom rest ++ [semicolon.token]).foldl Scanner.push s) false
      (declarationsFrom (s.scopes.filterMap Scanner.typeName?) semicolon.token.position
        s.awaitsInitializer s.header rest) := by
  induction rest generalizing s with
  | nil => exact Scanner.yields_semicolon hscopes semicolon
  | cons p rest ih =>
      obtain ⟨hrun, hrest⟩ := List.forall_mem_cons.mp hinner
      obtain ⟨hname, hnames⟩ := List.forall_mem_cons.mp hmembers
      have hblock := Scanner.yields_block hscopes p.1 hheader hname
      have hsplit : Stretch.tokensFrom (p :: rest) ++ [semicolon.token] =
          p.1.tokens ++ (p.2 ++ (Stretch.tokensFrom rest ++ [semicolon.token])) := by
        simp [Stretch.tokensFrom]
      rw [hsplit, List.foldl_append, List.foldl_append]
      generalize p.1.tokens.foldl Scanner.push s = u at hblock
      have hopen : u.scopes = .typeBody name :: outer := hblock.scopes.trans hscopes
      have hread : ({ u with header := p.2 } : Scanner).scopes = .typeBody name :: outer := hopen
      rw [Scanner.foldl_push_header (Scanner.outside_of_typeBody hopen) hblock.header hrun,
        declarationsFrom]
      have hlater := ih hread hrun hrest hnames
      refine hblock.trans (Scanner.Yields.of_found_eq (u := { u with header := p.2 }) ?_ rfl rfl)
      rw [← hblock.scopes, ← hblock.awaits]
      exact hlater

end Expression

/-! ### Methods that have been found -/

namespace Scanner

variable {s : Scanner} {methods : List Method}

/-- The first methods that have been found are given ones, and no body that is open belongs to
them. -/
structure Keeps (methods : List Method) (s : Scanner) : Prop where
  isPrefix : methods <+: s.found.methods
  bodies : ∀ index, Scope.memberBody (some index) ∈ s.scopes → methods.length ≤ index

theorem methods_prefix_openScope (s : Scanner) (p : Position) :
    s.found.methods <+: (s.openScope p).1.found.methods ∧
      ∀ index, (s.openScope p).2 = .memberBody (some index) → index = s.found.methods.length := by
  unfold openScope
  split
  · exact ⟨List.prefix_rfl, nofun⟩
  split
  · exact ⟨List.prefix_rfl, nofun⟩
  split
  · exact ⟨List.prefix_rfl, nofun⟩
  dsimp only
  split
  · refine ⟨?_, fun index h ↦ (Option.some.inj (Scope.memberBody.inj h)).symm⟩
    rw [methods_recordMethod]
    exact List.prefix_append _ _
  split
  · split
    · exact ⟨List.prefix_rfl, nofun⟩
    · exact ⟨List.prefix_rfl, nofun⟩
  · exact ⟨List.prefix_rfl, nofun⟩

theorem methods_prefix_endDeclaration (s : Scanner) (p : Position) :
    s.found.methods <+: (s.endDeclaration p).found.methods := by
  cases htypes : s.openTypes? with
  | none =>
      have hsame := endDeclaration_of_openTypes?_eq_none htypes p
      exact hsame.symm ▸ List.prefix_rfl
  | some types =>
      rw [methods_endDeclaration htypes]
      exact List.prefix_append _ _

theorem Keeps.pushInBody (h : s.Keeps methods) {method : Option Nat} {outer : List Scope}
    (hscopes : s.scopes = .memberBody method :: outer) (t : Token) :
    (s.pushInBody method outer t).Keeps methods := by
  have houter : ∀ index, Scope.memberBody (some index) ∈ outer → methods.length ≤ index :=
    fun index hmem ↦ h.bodies index (hscopes ▸ List.mem_cons_of_mem _ hmem)
  unfold Scanner.pushInBody
  split
  · refine ⟨h.isPrefix, fun index hmem ↦ h.bodies index ?_⟩
    exact (List.mem_cons.mp hmem).resolve_left nofun
  split
  · cases method with
    | none => exact ⟨h.isPrefix, houter⟩
    | some index =>
        obtain ⟨later, hlater⟩ := h.isPrefix
        obtain ⟨offset, hoffset⟩ := Nat.exists_eq_add_of_le
          (h.bodies index (hscopes ▸ List.mem_cons_self))
        -- the method that ends is behind those that are kept
        have hmodify := List.modifyTailIdx_add
          (List.modifyHead fun m : Method ↦ { m with last := t.position }) offset methods later
        rw [hlater, ← hoffset] at hmodify
        exact ⟨⟨_, hmodify.symm⟩, houter⟩
  · exact h

theorem Keeps.pushOutside (h : s.Keeps methods) (t : Token) :
    (s.pushOutside t).Keeps methods := by
  unfold Scanner.pushOutside
  split
  · obtain ⟨hleading, hlast⟩ := methods_prefix_openScope s t.position
    have hscopes := scopes_openScope s t.position
    generalize s.openScope t.position = opened at hleading hlast hscopes
    refine ⟨h.isPrefix.trans hleading, fun index hmem ↦ ?_⟩
    obtain hscope | hmem := List.mem_cons.mp hmem
    · rw [hlast index hscope.symm]
      exact h.isPrefix.length_le
    · exact h.bodies index (hscopes ▸ hmem)
  split
  · refine ⟨h.isPrefix.trans (methods_prefix_endDeclaration s t.position), fun index hmem ↦ ?_⟩
    exact h.bodies index (scopes_endDeclaration s t.position ▸ hmem)
  split
  · exact ⟨h.isPrefix, fun index hmem ↦ h.bodies index (List.mem_of_mem_tail hmem)⟩
  · exact ⟨h.isPrefix, h.bodies⟩

/-- No token changes what is kept. -/
theorem Keeps.push (h : s.Keeps methods) (t : Token) : (s.push t).Keeps methods := by
  unfold Scanner.push
  split
  · next method outer hscopes => exact h.pushInBody hscopes t
  · exact h.pushOutside t

theorem Keeps.foldl_push (h : s.Keeps methods) (ts : List Token) :
    (ts.foldl Scanner.push s).Keeps methods := by
  induction ts generalizing s with
  | nil => exact h
  | cons t ts ih => exact ih (h.push t)

end Scanner

/-! ### Places -/

namespace Place

variable (place : Place) {ts : List Token}

def found (ts : List Token) : Declarations where
  methods := (ts.foldl Scanner.push place.scanner).found.methods.drop
    place.scanner.found.methods.length
  staticInitializers := (ts.foldl Scanner.push place.scanner).found.staticInitializers.drop
    place.scanner.found.staticInitializers.length

theorem found_of_yields {awaits : Bool} {d : Declarations}
    (h : place.scanner.Yields (ts.foldl Scanner.push place.scanner) awaits d) :
    place.found ts = d := by
  rw [found, h.methods, h.initializers, List.drop_left, List.drop_left]

/-- No member is open at a place. -/
theorem noBody_scanner : Scanner.NoBody place.scanner.scopes := by
  intro method hmem
  rw [place.scopes_scanner.1] at hmem
  obtain hmem := (List.mem_cons.mp hmem).resolve_left nofun
  obtain ⟨level, -, hlevel⟩ := List.mem_map.mp (List.mem_reverse.mp hmem)
  cases level <;> cases hlevel

/-- Of what is found at a place the initializers are among those of the whole text, and so are the
methods once no member is open any more. -/
theorem found_in_text {text : List Char} {after : List Token}
    (h : CSharp.tokens text = place.tokens ++ (ts ++ after)) :
    (place.found ts).staticInitializers.Sublist (Declarations.scan text).staticInitializers ∧
      (Scanner.NoBody (ts.foldl Scanner.push place.scanner).scopes →
        ∀ m ∈ (place.found ts).methods, m ∈ (Declarations.scan text).methods) := by
  have hscan : Declarations.scan text =
      (after.foldl Scanner.push (ts.foldl Scanner.push place.scanner)).found := by
    rw [Declarations.scan, h, List.foldl_append, List.foldl_append]
    rfl
  rw [hscan]
  refine ⟨(List.drop_sublist _ _).trans (Scanner.initializers_foldl_push _ after).sublist,
    fun hbody m hm ↦ ?_⟩
  have hkeeps : (ts.foldl Scanner.push place.scanner).Keeps
      (ts.foldl Scanner.push place.scanner).found.methods :=
    ⟨List.prefix_rfl, fun index hmem ↦ absurd hmem (hbody _)⟩
  exact (hkeeps.foldl_push after).isPrefix.subset ((List.drop_sublist _ _).subset hm)

end Place

/-- A method that is found is the one that is reported inside of it. -/
theorem methodAt?_of_mem {text : List Char} {m : Method} {p : Position}
    (hmem : m ∈ (Declarations.scan text).methods) (hp : m.contains p = true) :
    (Declarations.scan text).methodAt? p = some m := by
  obtain ⟨_, hscan⟩ := exists_recorded_scan text
  have hfilter := Method.filter_contains hscan.methods p
  have hfound : m ∈ ((Declarations.scan text).methods.find? (·.contains p)).toList :=
    hfilter ▸ List.mem_filter.mpr ⟨hmem, hp⟩
  exact Option.mem_toList.mp hfound

end GuestGate.CSharp
