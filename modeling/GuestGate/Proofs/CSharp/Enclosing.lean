import GuestGate.Proofs.CSharp.Ranges
import GuestGate.Proofs.CSharp.Scanning

/-!
# Declarations at their places

Whatever stands between braces, a scan that has read it is where it was before, and all that it
has found in there belongs to types further inside.  So what is found for a member depends on the
types around it and on its own headers, no matter what has been declared in front of it.
-/

namespace GuestGate.CSharp

/-- Whether a header is taken for one that initializes something static: a static one that is not
that of a type, with the name of the type in front of its parameters or, if it has none, with an
initializer. -/
def takenForInitializer (types : List String) (header : List Token) : Bool :=
  (declaredType? header).isNone && isStatic header &&
    match methodHeader? header with
    | some m => types.head? == some m.methodName
    | none => hasInitializer header

/-- Whether a header goes on from a property, with its initializer. -/
def assignsFirst (header : List Token) : Bool :=
  header.head?.any (·.isPunct "=")

theorem methodHeader?_of_assignsFirst {header : List Token} (h : assignsFirst header = true) :
    methodHeader? header = none := by
  cases header with
  | nil => cases h
  | cons t ts =>
      have hequals : t.isPunct "=" = true := h
      unfold methodHeader?
      split
      · rfl
      · rw [parameterList?, if_pos ⟨rfl, .inl hequals⟩]

namespace Scanner

variable {s : Scanner} {t : Token} {ts : List Token}

/-! ### The open scopes -/

theorem scopes_openScope (s : Scanner) (p : Position) : (s.openScope p).1.scopes = s.scopes := by
  unfold openScope
  split
  · rfl
  · split
    · rfl
    · split
      · rfl
      · dsimp only
        split
        · exact scopes_recordMethod _ _ _ _
        · split
          · split <;> rfl
          · rfl

theorem scopes_endDeclaration (s : Scanner) (p : Position) :
    (s.endDeclaration p).scopes = s.scopes := by
  unfold endDeclaration
  split
  · split
    · rfl
    · split
      · exact scopes_recordMethod _ _ _ _
      · split <;> rfl
  · rfl

theorem exists_scopes_push_open (s : Scanner) (h : t.isPunct "\x7b" = true) :
    ∃ scope, (s.push t).scopes = scope :: s.scopes := by
  unfold push
  split
  · rw [pushInBody, if_pos h]
    exact ⟨_, rfl⟩
  · rw [pushOutside, if_pos h]
    exact ⟨_, congrArg _ (scopes_openScope s t.position)⟩

theorem scopes_push_close (s : Scanner) (h : t.isPunct "\x7d" = true) :
    (s.push t).scopes = s.scopes.tail := by
  have hopen : ¬ t.isPunct "\x7b" = true := by
    rw [Token.isPunct_eq h]
    decide
  unfold push
  split
  · next method outer hscopes =>
      rw [pushInBody, if_neg hopen, if_pos h, hscopes]
      cases method <;> rfl
  · have hend : ¬ t.isPunct ";" = true := by
      rw [Token.isPunct_eq h]
      decide
    rw [pushOutside, if_neg hopen, if_neg hend, if_pos h]

theorem scopes_push (s : Scanner) (hopen : ¬ t.isPunct "\x7b" = true)
    (hclose : ¬ t.isPunct "\x7d" = true) : (s.push t).scopes = s.scopes := by
  unfold push
  split
  · rw [pushInBody, if_neg hopen, if_neg hclose]
  · rw [pushOutside, if_neg hopen, if_neg hclose]
    split
    · exact scopes_endDeclaration s t.position
    · rfl

/-! ### The header -/

/-- Inside the bodies of members no header is read. -/
def Quiet (s : Scanner) : Prop :=
  ∀ method outer, s.scopes = .memberBody method :: outer → s.header = []

theorem Quiet.of_header (h : s.header = []) : s.Quiet :=
  fun _ _ _ ↦ h

theorem Quiet.header_push (h : s.Quiet)
    (ht : t.isPunct "\x7b" = true ∨ t.isPunct "\x7d" = true) : (s.push t).header = [] := by
  unfold push
  split
  · next method outer hscopes =>
      have hheader := h method outer hscopes
      unfold pushInBody
      split
      · exact hheader
      · split
        · cases method <;> exact hheader
        · exact hheader
  · unfold pushOutside
    split
    · rfl
    · split
      · rfl
      · next hopen _ => rw [if_pos (ht.resolve_left hopen)]

theorem Quiet.push (h : s.Quiet) (t : Token) : (s.push t).Quiet := by
  by_cases ht : t.isPunct "\x7b" = true ∨ t.isPunct "\x7d" = true
  · exact .of_header (h.header_push ht)
  · obtain ⟨hopen, hclose⟩ := not_or.mp ht
    intro method outer hscopes
    rw [scopes_push s hopen hclose] at hscopes
    rw [push_of_body hscopes, pushInBody, if_neg hopen, if_neg hclose]
    exact h method outer hscopes

/-! ### The initializers that are found -/

def lineOf (header : List Token) : Nat :=
  (header.head?.map fun t ↦ t.position.line).getD 0

def entryIf (found : Bool) (types : List String) (header : List Token) : List StaticInitializer :=
  if found then [⟨typePath types, lineOf header⟩] else []

variable {types : List String}

theorem initializers_recordMethod (s : Scanner) (types : List String) (m : MethodHeader)
    (p : Position) : (s.recordMethod types m p).found.staticInitializers =
      s.found.staticInitializers ++
        entryIf (isStatic s.header && types.head? == some m.methodName) types s.header := by
  unfold recordMethod entryIf
  simp only [Bool.and_eq_true, beq_iff_eq]
  split
  · rfl
  · exact (List.append_nil _).symm

theorem initializers_openScope (htypes : s.openTypes? = some types) (p : Position) :
    (s.openScope p).1.found.staticInitializers = s.found.staticInitializers ++
      entryIf (!s.header.any (·.isIdent "namespace") && takenForInitializer types s.header) types
        s.header := by
  unfold openScope takenForInitializer
  split
  · next hnamespace => simp [hnamespace, entryIf]
  · next hnamespace =>
      simp only [Bool.not_eq_true] at hnamespace
      simp only [hnamespace, Bool.not_false, Bool.true_and]
      split
      · next hname => simp [hname, entryIf]
      · next hname =>
          simp only [htypes, hname, Option.isNone_none, Bool.true_and]
          cases hmethod : methodHeader? s.header with
          | some m =>
              exact initializers_recordMethod { s with awaitsInitializer := false } types m p
          | none =>
              cases isStatic s.header with
              | false => exact (List.append_nil _).symm
              | true =>
                  cases hasInitializer s.header with
                  | false => exact (List.append_nil _).symm
                  | true => rfl

theorem initializers_endDeclaration (htypes : s.openTypes? = some types) (p : Position) :
    (s.endDeclaration p).found.staticInitializers = s.found.staticInitializers ++
      entryIf (takenForInitializer types s.header ||
        (declaredType? s.header).isNone && assignsFirst s.header && s.awaitsInitializer)
        types s.header := by
  unfold takenForInitializer
  cases hheader : s.header with
  | nil =>
      unfold endDeclaration
      rw [htypes, hheader]
      exact (List.append_nil _).symm
  | cons t ts =>
      rw [← hheader]
      cases hname : declaredType? s.header with
      | some name =>
          unfold endDeclaration
          simp [htypes, hheader, hheader ▸ hname, entryIf]
      | none =>
          cases hmethod : methodHeader? s.header with
          | some m =>
              have hassigns : assignsFirst s.header = false :=
                Bool.eq_false_iff.mpr fun hassigns ↦ by
                  simp [methodHeader?_of_assignsFirst hassigns] at hmethod
              rw [endDeclaration_of_method htypes hname hmethod, initializers_recordMethod,
                hassigns]
              simp
          | none =>
              have hassigns : assignsFirst s.header = t.isPunct "=" := by
                rw [hheader]
                rfl
              rw [endDeclaration_of_value htypes hname hmethod hheader, hassigns]
              simp only [Option.isNone_none, Bool.true_and, Bool.or_comm (isStatic _ && _), entryIf]
              split
              · rfl
              · exact (List.append_nil _).symm

theorem openScope_of_openTypes?_eq_none (h : s.openTypes? = none) (p : Position) :
    (s.openScope p).1 = s := by
  unfold openScope
  rw [h]
  split
  · rfl
  · split <;> rfl

theorem endDeclaration_of_openTypes?_eq_none (h : s.openTypes? = none) (p : Position) :
    s.endDeclaration p = s := by
  unfold endDeclaration
  rw [h]

/-- A token adds nothing, or an entry for the innermost type. -/
theorem initializers_push (s : Scanner) (t : Token) :
    (s.push t).found.staticInitializers = s.found.staticInitializers ∨
      ∃ types line, s.openTypes? = some types ∧
        (s.push t).found.staticInitializers =
          s.found.staticInitializers ++ [⟨typePath types, line⟩] := by
  have hentry : ∀ {s' : Scanner} {found : Bool} {types : List String},
      s.openTypes? = some types →
      s'.found.staticInitializers =
        s.found.staticInitializers ++ entryIf found types s.header →
      s'.found.staticInitializers = s.found.staticInitializers ∨
        ∃ types line, s.openTypes? = some types ∧
          s'.found.staticInitializers =
            s.found.staticInitializers ++ [⟨typePath types, line⟩] := by
    intro s' found types htypes h
    cases found with
    | false => exact .inl (h.trans (List.append_nil _))
    | true => exact .inr ⟨types, _, htypes, h⟩
  unfold push
  split
  · next method outer _ =>
      -- inside of a body only the end of a method is ever written down
      left
      unfold pushInBody
      split
      · rfl
      · split
        · cases method <;> rfl
        · rfl
  · unfold pushOutside
    cases htypes : s.openTypes? with
    | none =>
        -- no type is open that an entry could be for
        left
        split
        · exact congrArg (·.found.staticInitializers) (openScope_of_openTypes?_eq_none htypes _)
        · split
          · exact congrArg (·.found.staticInitializers)
              (endDeclaration_of_openTypes?_eq_none htypes _)
          · split <;> rfl
    | some types =>
        rw [← htypes]
        split
        · exact hentry htypes (initializers_openScope htypes t.position)
        · split
          · exact hentry htypes (initializers_endDeclaration htypes t.position)
          · left
            split <;> rfl

theorem initializers_foldl_push (s : Scanner) (ts : List Token) :
    s.found.staticInitializers <+: (ts.foldl push s).found.staticInitializers := by
  induction ts generalizing s with
  | nil => exact List.prefix_rfl
  | cons t ts ih =>
      have hpush : s.found.staticInitializers <+: (s.push t).found.staticInitializers := by
        rcases initializers_push s t with hsame | ⟨types, line, -, hmore⟩
        · exact hsame ▸ List.prefix_rfl
        · exact hmore ▸ List.prefix_append _ _
      exact hpush.trans (ih (s.push t))

/-! ### Types further inside -/

/-- The path of a type is not that of a type inside of it. -/
theorem typePath_append_ne {inner : List String} (hinner : inner ≠ []) (htypes : types ≠ []) :
    typePath (inner ++ types) ≠ typePath types := by
  intro heq
  have hlength := congrArg String.length heq
  rw [typePath, List.reverse_append, String.intercalate_append_of_ne_nil
    (by simpa using htypes) (by simpa using hinner), ← typePath, String.length_append,
    String.length_append] at hlength
  have hplus : "+".length = 1 := rfl
  omega

def countOwn (types : List String) (s : Scanner) : Nat :=
  s.found.staticInitializers.countP (·.typeName == typePath types)

theorem countP_entryIf (found : Bool) (types : List String) (header : List Token) :
    (entryIf found types header).countP (·.typeName == typePath types) =
      if found then 1 else 0 := by
  cases found <;> simp [entryIf]

variable {top base : List Scope}

theorem countOwn_push (hscopes : s.scopes = top ++ base) (htop : top ≠ [])
    (hbase : base.filterMap typeName? ≠ []) (t : Token) :
    countOwn (base.filterMap typeName?) (s.push t) =
      countOwn (base.filterMap typeName?) s := by
  unfold countOwn
  rcases initializers_push s t with hsame | ⟨types, line, htypes, hmore⟩
  · rw [hsame]
  · -- the innermost type is among the scopes that have been opened since
    obtain ⟨inner, hinner, rfl⟩ :
        ∃ inner : List String, inner ≠ [] ∧ types = inner ++ base.filterMap typeName? := by
      unfold openTypes? at htypes
      split at htypes
      · next name outer htypeBody =>
          obtain ⟨scope, above, rfl⟩ := List.exists_cons_of_ne_nil htop
          obtain ⟨rfl, -⟩ := List.cons.inj (hscopes.symm.trans htypeBody)
          refine ⟨name :: above.filterMap typeName?, by simp, ?_⟩
          rw [← Option.some.inj htypes, hscopes]
          simp [typeName?]
      · cases htypes
    have hother := beq_false_of_ne (typePath_append_ne hinner hbase)
    simp [hmore, hother]

/-- Of all that has been opened inside of some scopes one block is still open, and nothing that
has been added belongs to the types of these scopes. -/
structure StaysAbove (base : List Scope) (s s' : Scanner) : Prop where
  scopes : ∃ scope, s'.scopes = scope :: base
  quiet : s'.Quiet
  count : base.filterMap typeName? ≠ [] →
    countOwn (base.filterMap typeName?) s' = countOwn (base.filterMap typeName?) s

theorem foldl_push_above {depth : Nat} (h : Brackets.blocks.balanced depth ts = true)
    (hscopes : s.scopes = top ++ base) (hlength : top.length = depth + 1) (hquiet : s.Quiet) :
    StaysAbove base s (ts.foldl push s) := by
  -- there is always one scope more above the base than blocks are still to be closed
  induction ts generalizing s top depth with
  | nil =>
      have hdepth : depth = 0 := beq_iff_eq.mp h
      obtain ⟨scope, rfl⟩ := List.length_eq_one_iff.mp (hlength.trans (by rw [hdepth]))
      exact ⟨⟨scope, hscopes⟩, hquiet, fun _ ↦ rfl⟩
  | cons t ts ih =>
      obtain ⟨scope, above, rfl⟩ : ∃ scope above, top = scope :: above :=
        List.exists_cons_of_length_eq_add_one hlength
      have hrest : StaysAbove base (s.push t) (ts.foldl push (s.push t)) := by
        obtain ⟨hopens, hrest⟩ | ⟨hopens, hcloses, d, rfl, hrest⟩ | ⟨hopens, hcloses, -, hrest⟩ :=
          Brackets.balanced_cons h
        · obtain ⟨inner, hinner⟩ := exists_scopes_push_open s hopens
          have hnext : (s.push t).scopes = (inner :: scope :: above) ++ base := by
            rw [hinner, hscopes]
            rfl
          exact ih hrest hnext (congrArg (· + 1) hlength) (hquiet.push t)
        · have hnext : (s.push t).scopes = above ++ base := by
            rw [scopes_push_close s hcloses, hscopes]
            rfl
          exact ih hrest hnext (Nat.succ.inj hlength) (hquiet.push t)
        · have hnext : (s.push t).scopes = (scope :: above) ++ base := by
            rw [scopes_push s (Bool.eq_false_iff.mp hopens) (Bool.eq_false_iff.mp hcloses), hscopes]
          exact ih hrest hnext hlength (hquiet.push t)
      exact ⟨hrest.scopes, hrest.quiet, fun hbase ↦
        (hrest.count hbase).trans (countOwn_push hscopes (List.cons_ne_nil _ _) hbase t)⟩

/-- A block goes by like a single mark, whatever it belongs to. -/
theorem foldl_push_anyBlock (block : Block) (houtside : s.Outside) :
    (block.tokens.foldl push s).scopes = s.scopes ∧ (block.tokens.foldl push s).header = [] ∧
      (s.scopes.filterMap typeName? ≠ [] →
        countOwn (s.scopes.filterMap typeName?) (block.tokens.foldl push s) =
          countOwn (s.scopes.filterMap typeName?)
            (s.openScope block.opening.token.position).1) := by
  have hsame := scopes_openScope s block.opening.token.position
  obtain ⟨s', scope, hopen⟩ : ∃ s' scope, s.openScope block.opening.token.position = (s', scope) :=
    ⟨_, _, rfl⟩
  rw [hopen] at hsame
  rw [Block.tokens, List.foldl_cons, push_open houtside block.opening hopen, List.foldl_append,
    List.foldl_cons, List.foldl_nil]
  generalize hstate : ({ s' with scopes := scope :: s'.scopes, header := [] } : Scanner) = u
  have hopened : u.scopes = [scope] ++ s.scopes := by
    rw [← hstate, ← hsame]
    rfl
  have hempty : u.header = [] := by rw [← hstate]
  obtain ⟨⟨inner, hinner⟩, hquiet, hcount⟩ :=
    foldl_push_above block.balanced hopened rfl (.of_header hempty)
  refine ⟨?_, hquiet.header_push (.inr block.closing.isMark), fun hbase ↦ ?_⟩
  · rw [scopes_push_close _ block.closing.isMark, hinner]
    rfl
  · have habove : (block.inside.foldl push u).scopes = [inner] ++ s.scopes := hinner
    rw [countOwn_push habove (List.cons_ne_nil _ _) hbase, hcount hbase, hopen, ← hstate]
    rfl

/-! ### The headers of one member -/

section OfMember

variable {name : String} {outer : List Scope} (hscopes : s.scopes = .typeBody name :: outer)

include hscopes

theorem types_ne_nil : s.scopes.filterMap typeName? ≠ [] := by
  simp [hscopes, typeName?]

theorem countOwn_block (block : Block) (hinner : s.header.all Token.isInner = true) :
    countOwn (s.scopes.filterMap typeName?) (block.tokens.foldl push s) =
      countOwn (s.scopes.filterMap typeName?) s +
        if takenForInitializer (s.scopes.filterMap typeName?) s.header then 1 else 0 := by
  obtain ⟨-, -, hcount⟩ := foldl_push_anyBlock block (outside_of_typeBody hscopes)
  rw [hcount (types_ne_nil hscopes), countOwn,
    initializers_openScope (openTypes?_eq hscopes), not_namespace_of_isInner hinner,
    List.countP_append, countP_entryIf]
  rfl

theorem countOwn_semicolon (semicolon : Mark ";") :
    countOwn (s.scopes.filterMap typeName?) (s.push semicolon.token) =
      countOwn (s.scopes.filterMap typeName?) s +
        if takenForInitializer (s.scopes.filterMap typeName?) s.header ||
          (declaredType? s.header).isNone && assignsFirst s.header && s.awaitsInitializer
        then 1 else 0 := by
  rw [push_semicolon (outside_of_typeBody hscopes), countOwn,
    initializers_endDeclaration (openTypes?_eq hscopes), List.countP_append, countP_entryIf]
  rfl

end OfMember

end Scanner

/-! ### What ends a declaration -/

inductive Ending
  | semicolon (mark : Mark ";")
  | braced (block : Block)

namespace Ending

def tokens : Ending → List Token
  | semicolon mark => [mark.token]
  | braced block => block.tokens

variable {s : Scanner}

theorem foldl_push (ending : Ending) (houtside : s.Outside) :
    (ending.tokens.foldl Scanner.push s).scopes = s.scopes ∧
      (ending.tokens.foldl Scanner.push s).header = [] := by
  cases ending with
  | semicolon mark =>
      rw [tokens, List.foldl_cons, List.foldl_nil, Scanner.push_semicolon houtside]
      exact ⟨Scanner.scopes_endDeclaration s mark.token.position, rfl⟩
  | braced block =>
      obtain ⟨hscopes, hheader, -⟩ := Scanner.foldl_push_anyBlock block houtside
      exact ⟨hscopes, hheader⟩

theorem countOwn {name : String} {outer : List Scope} (ending : Ending)
    (hscopes : s.scopes = .typeBody name :: outer) (hinner : s.header.all Token.isInner = true)
    (hfirst : assignsFirst s.header = false) :
    Scanner.countOwn (s.scopes.filterMap Scanner.typeName?)
        (ending.tokens.foldl Scanner.push s) =
      Scanner.countOwn (s.scopes.filterMap Scanner.typeName?) s +
        if takenForInitializer (s.scopes.filterMap Scanner.typeName?) s.header then 1 else 0 := by
  cases ending with
  | semicolon mark =>
      have hcount := Scanner.countOwn_semicolon hscopes mark
      rw [hfirst, Bool.and_false, Bool.false_and, Bool.or_false] at hcount
      exact hcount
  | braced block => exact Scanner.countOwn_block hscopes block hinner

end Ending

/-! ### Places -/

/-- Any declaration, with all that is in its block, or a part of one that ends in a block, like
an attribute. -/
structure Sibling where
  header : List Token
  plain : header.all Token.isPlain = true
  ending : Ending

namespace Sibling

def tokens (sibling : Sibling) : List Token :=
  sibling.header ++ sibling.ending.tokens

variable {s : Scanner}

theorem foldl_push (sibling : Sibling) (houtside : s.Outside) :
    (sibling.tokens.foldl Scanner.push s).scopes = s.scopes ∧
      (sibling.tokens.foldl Scanner.push s).header = [] := by
  have hread : ({ s with header := s.header ++ sibling.header } : Scanner).Outside := houtside
  rw [tokens, List.foldl_append, Scanner.foldl_push_plain houtside sibling.plain]
  exact sibling.ending.foldl_push hread

theorem foldl_push_all (siblings : List Sibling) (houtside : s.Outside) (hheader : s.header = []) :
    ((siblings.flatMap tokens).foldl Scanner.push s).scopes = s.scopes ∧
      ((siblings.flatMap tokens).foldl Scanner.push s).header = [] := by
  induction siblings generalizing s with
  | nil => exact ⟨rfl, hheader⟩
  | cons sibling rest ih =>
      obtain ⟨hscopes, hempty⟩ := sibling.foldl_push houtside
      have hnext : (sibling.tokens.foldl Scanner.push s).Outside := by
        unfold Scanner.Outside
        rwa [hscopes]
      rw [List.flatMap_cons, List.foldl_append, ← hscopes]
      exact ih hnext hempty

end Sibling

/-- A namespace or a type that is open, with all that is declared next to it before. -/
inductive Level
  | ofNamespace (before : List Sibling) (header : List Token)
      (plain : header.all Token.isPlain = true)
      (isNamespace : header.any (·.isIdent "namespace") = true) (opening : Mark "\x7b")
  | ofType (before : List Sibling) (head : TypeHead) (opening : Mark "\x7b")

namespace Level

def tokens : Level → List Token
  | ofNamespace before header _ _ opening =>
      before.flatMap Sibling.tokens ++ (header ++ [opening.token])
  | ofType before head opening => before.flatMap Sibling.tokens ++ (head.tokens ++ [opening.token])

def scope : Level → Scope
  | ofNamespace .. => .namespaceBody
  | ofType _ head _ => .typeBody head.text

variable {s : Scanner}

theorem foldl_push_opening {before : List Sibling} {header : List Token} {opening : Mark "\x7b"}
    {scope : Scope} (houtside : s.Outside) (hheader : s.header = [])
    (hplain : header.all Token.isPlain = true)
    (hopen : ∀ s : Scanner, s.header = header →
      s.openScope opening.token.position = (s, scope)) :
    ((before.flatMap Sibling.tokens ++ (header ++ [opening.token])).foldl Scanner.push s).scopes =
        scope :: s.scopes ∧
      ((before.flatMap Sibling.tokens ++ (header ++ [opening.token])).foldl
        Scanner.push s).header = [] := by
  obtain ⟨hscopes, hempty⟩ := Sibling.foldl_push_all before houtside hheader
  rw [List.foldl_append, List.foldl_append]
  generalize (before.flatMap Sibling.tokens).foldl Scanner.push s = u at hscopes hempty ⊢
  have hread : u.Outside := by
    unfold Scanner.Outside
    rwa [hscopes]
  have hnext : ({ u with header := header } : Scanner).Outside := hread
  rw [Scanner.foldl_push_plain hread hplain, hempty, List.nil_append, List.foldl_cons,
    List.foldl_nil, Scanner.push_open hnext opening (hopen _ rfl)]
  exact ⟨congrArg _ hscopes, rfl⟩

theorem foldl_push (level : Level) (houtside : s.Outside) (hheader : s.header = []) :
    (level.tokens.foldl Scanner.push s).scopes = level.scope :: s.scopes ∧
      (level.tokens.foldl Scanner.push s).header = [] := by
  cases level with
  | ofNamespace before header plain isNamespace opening =>
      refine foldl_push_opening houtside hheader plain fun u hu ↦ ?_
      rw [Scanner.openScope, hu, if_pos isNamespace]
      rfl
  | ofType before head opening =>
      refine foldl_push_opening houtside hheader (Scanner.all_isPlain_of_isInner head.all_isInner)
        fun u hu ↦ ?_
      rw [Scanner.openScope, hu, Scanner.not_namespace_of_isInner head.all_isInner,
        head.declaredType?_tokens]
      rfl

theorem outside (level : Level) {outer : List Scope} (hscopes : s.scopes = level.scope :: outer) :
    s.Outside := by
  intro method rest hbody
  cases level <;> cases hscopes.symm.trans hbody

end Level

/-- A place for a member: the namespaces and types around it, from outside in, the last of which
is a type, and what the type has in front of the member. -/
structure Place where
  around : List Level
  before : List Sibling
  head : TypeHead
  opening : Mark "\x7b"
  siblings : List Sibling

namespace Place

variable (place : Place)

def tokens : List Token :=
  place.around.flatMap Level.tokens ++
    ((Level.ofType place.before place.head place.opening).tokens ++
      place.siblings.flatMap Sibling.tokens)

def types : List String :=
  place.head.text :: place.around.reverse.filterMap fun level ↦ Scanner.typeName? level.scope

def scanner : Scanner :=
  place.tokens.foldl Scanner.push {}

theorem foldl_push_around (levels : List Level) {s : Scanner} (houtside : s.Outside)
    (hheader : s.header = []) :
    ((levels.flatMap Level.tokens).foldl Scanner.push s).scopes =
        (levels.map Level.scope).reverse ++ s.scopes ∧
      ((levels.flatMap Level.tokens).foldl Scanner.push s).Outside ∧
      ((levels.flatMap Level.tokens).foldl Scanner.push s).header = [] := by
  induction levels generalizing s with
  | nil => exact ⟨rfl, houtside, hheader⟩
  | cons level levels ih =>
      obtain ⟨hscopes, hempty⟩ := level.foldl_push houtside hheader
      obtain ⟨hrest, hlast⟩ := ih (level.outside hscopes) hempty
      rw [List.flatMap_cons, List.foldl_append]
      refine ⟨?_, hlast⟩
      rw [hrest, hscopes]
      simp

/-- A scan comes to a place with the namespaces and types open that are around it. -/
theorem scopes_scanner : place.scanner.scopes =
      .typeBody place.head.text :: (place.around.map Level.scope).reverse ∧
    place.scanner.header = [] := by
  obtain ⟨hscopes, houtside, hheader⟩ :=
    foldl_push_around place.around (s := {}) nofun rfl
  have hlevel := (Level.ofType place.before place.head place.opening).foldl_push houtside hheader
  obtain ⟨htype, hempty⟩ := hlevel
  obtain ⟨hlast, hnone⟩ := Sibling.foldl_push_all place.siblings (Level.outside _ htype) hempty
  unfold scanner
  rw [tokens, List.foldl_append, List.foldl_append, hlast, htype, hscopes, List.append_nil]
  exact ⟨rfl, hnone⟩

/-- A scan comes to a place with its types open and nothing in the header. -/
theorem scanner_eq : (∃ outer, place.scanner.scopes = .typeBody place.head.text :: outer) ∧
    place.scanner.scopes.filterMap Scanner.typeName? = place.types ∧
      place.scanner.header = [] := by
  obtain ⟨hscopes, hheader⟩ := place.scopes_scanner
  have hnames : (place.around.map Level.scope).reverse.filterMap Scanner.typeName? =
      place.around.reverse.filterMap fun level ↦ Scanner.typeName? level.scope := by
    rw [← List.map_reverse, List.filterMap_map]
    rfl
  rw [hscopes]
  exact ⟨⟨_, rfl⟩, congrArg (place.head.text :: ·) hnames, hheader⟩

def recorded (ts : List Token) : List StaticInitializer :=
  ((ts.foldl Scanner.push place.scanner).found.staticInitializers.drop
    place.scanner.found.staticInitializers.length).filter
      (·.typeName == Scanner.typePath place.types)

theorem countOwn_foldl_push (ts : List Token) :
    Scanner.countOwn place.types (ts.foldl Scanner.push place.scanner) =
      Scanner.countOwn place.types place.scanner + (place.recorded ts).length := by
  obtain ⟨added, hadded⟩ := Scanner.initializers_foldl_push place.scanner ts
  rw [recorded, ← List.countP_eq_length_filter, Scanner.countOwn, Scanner.countOwn, ← hadded,
    List.drop_left, List.countP_append]

/-- What is recorded at a place is found in the whole text, with the path of the types there, and
a listing of machine code is refused for it. -/
theorem recorded_in_text {text : String} {ts after : List Token}
    (h : CSharp.tokens text.toList = place.tokens ++ (ts ++ after)) :
    (place.recorded ts).Sublist (Declarations.scan text.toList).staticInitializers ∧
      (place.recorded ts ≠ [] → ∃ construct ∈ Language.csharp.constructs text,
        construct.typeName = Scanner.typePath place.types ∧
          construct.supportedBy Target.machineCode = false) := by
  have hscan : Declarations.scan text.toList =
      (after.foldl Scanner.push (ts.foldl Scanner.push place.scanner)).found := by
    rw [Declarations.scan, h, List.foldl_append, List.foldl_append]
    rfl
  have hsublist : (place.recorded ts).Sublist
      (Declarations.scan text.toList).staticInitializers := by
    rw [hscan]
    exact List.filter_sublist.trans ((List.drop_sublist _ _).trans
      (Scanner.initializers_foldl_push _ after).sublist)
  refine ⟨hsublist, fun hrecorded ↦ ?_⟩
  obtain ⟨i, hi⟩ := List.exists_mem_of_ne_nil _ hrecorded
  refine ⟨.staticInitializer i.typeName, List.mem_map_of_mem (hsublist.mem hi), ?_, rfl⟩
  exact beq_iff_eq.mp (List.mem_filter.mp hi).2

def inClock : Place where
  around := []
  before := []
  head :=
    { front := ⟨[], .refl true, .refl true, .refl true⟩
      keyword := ⟨.ident, "class".toList, ⟨1, 1⟩⟩
      isKeyword := .refl true
      others := []
      areKeywords := .refl true
      name := ⟨.ident, "Clock".toList, ⟨1, 7⟩⟩
      isName := by decide
      tail := []
      inner := .refl true }
  opening := ⟨⟨.punct, "\x7b".toList, ⟨1, 13⟩⟩, by decide⟩
  siblings := []

end Place

/-! ### Members -/

/-- What a member has behind its first tokens: runs of tokens with blocks between them.  What
ends in a block is nothing that something could be assigned to. -/
structure Stretch where
  head : List Token
  rest : List (Block × List Token)
  inner : ∀ run ∈ head :: rest.map Prod.snd, run.all Token.isInner = true
  apart : ∀ run ∈ rest.map Prod.snd, assignsFirst run = false

namespace Stretch

def single (run : List Token) (inner : run.all Token.isInner = true) : Stretch where
  head := run
  rest := []
  inner := List.forall_mem_singleton.mpr inner
  apart := List.forall_mem_nil _

variable (stretch : Stretch)

def tokensFrom (rest : List (Block × List Token)) : List Token :=
  rest.flatMap fun p ↦ p.1.tokens ++ p.2

def tokens : List Token :=
  stretch.head ++ tokensFrom stretch.rest

def later : List (List Token) :=
  stretch.rest.map Prod.snd

/-- Every run that is taken for one that initializes something counts, as each block and the end
of the declaration end a header. -/
theorem countOwn_tokensFrom {rest : List (Block × List Token)} {s : Scanner} {name : String}
    {outer : List Scope} (ending : Ending) (hscopes : s.scopes = .typeBody name :: outer)
    (hheader : s.header.all Token.isInner = true)
    (hinner : ∀ run ∈ rest.map Prod.snd, run.all Token.isInner = true)
    (hapart : ∀ run ∈ rest.map Prod.snd, assignsFirst run = false)
    (hfirst : rest = [] → assignsFirst s.header = false) :
    Scanner.countOwn (s.scopes.filterMap Scanner.typeName?)
        ((tokensFrom rest ++ ending.tokens).foldl Scanner.push s) =
      Scanner.countOwn (s.scopes.filterMap Scanner.typeName?) s +
        (s.header :: rest.map Prod.snd).countP
          (takenForInitializer (s.scopes.filterMap Scanner.typeName?)) := by
  -- a block may leave the flag as it likes: no run behind it begins with the mark it is about
  induction rest generalizing s with
  | nil =>
      rw [tokensFrom, List.flatMap_nil, List.nil_append,
        ending.countOwn hscopes hheader (hfirst rfl), List.map_nil, List.countP_singleton]
  | cons p rest ih =>
      obtain ⟨hrun, hrest⟩ := List.forall_mem_cons.mp hinner
      obtain ⟨hmark, hmarks⟩ := List.forall_mem_cons.mp hapart
      have hcount := Scanner.countOwn_block hscopes p.1 hheader
      obtain ⟨hsame, hempty, -⟩ :=
        Scanner.foldl_push_anyBlock p.1 (Scanner.outside_of_typeBody hscopes)
      have hopen := hsame.trans hscopes
      have hread : ({ p.1.tokens.foldl Scanner.push s with header := p.2 } : Scanner).scopes =
          .typeBody name :: outer := hopen
      have hsplit : tokensFrom (p :: rest) ++ ending.tokens =
          p.1.tokens ++ (p.2 ++ (tokensFrom rest ++ ending.tokens)) := by simp [tokensFrom]
      rw [hsplit, List.foldl_append, List.foldl_append,
        Scanner.foldl_push_header (Scanner.outside_of_typeBody hopen) hempty hrun, ← hsame]
      refine (ih hread hrun hrest hmarks fun _ ↦ hmark).trans ?_
      rw [← hsame] at hcount
      rw [List.map_cons, List.countP_cons (a := s.header), Nat.add_comm (List.countP _ _),
        ← Nat.add_assoc, ← hcount]
      rfl

end Stretch

end GuestGate.CSharp
