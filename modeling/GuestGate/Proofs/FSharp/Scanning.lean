import GuestGate.Proofs.FSharp.Meaning

/-!
# The scan of a tree

What is declared at a column adds its own entries to a scan and leaves the scopes around the
column as they are.  Inside of an expression nothing is found.
-/

namespace GuestGate.FSharp

open Text Scanner

namespace Scanner

variable {s t u : Scanner} {column inner : Nat} {outer : List (Nat × Scope)} {root : String}
  {above last : Option String} {initializers others : List Initializer}

def around (s : Scanner) (column : Nat) : List (Nat × Scope) :=
  s.scopes.dropWhile fun scope ↦ column ≤ scope.1

def owner (s : Scanner) (column : Nat) : Option Scope :=
  (s.around column).head?.map Prod.snd

/-- The names that open scopes add to a path, from outside in. -/
def namesOf (scopes : List (Nat × Scope)) : List String :=
  scopes.reverse.filterMap fun scope ↦ scope.2.name?

theorem namesOf_cons (scope : Nat × Scope) (outer : List (Nat × Scope)) :
    namesOf (scope :: outer) = namesOf outer ++ scope.2.name?.toList := by
  rw [namesOf, List.reverse_cons, List.filterMap_append]
  cases hname : scope.2.name? <;> simp [namesOf, hname]

theorem dropWhile_around (hle : column ≤ inner) (s : Scanner) :
    (s.around inner).dropWhile (fun scope ↦ column ≤ scope.1) = s.around column := by
  rw [around, around]
  induction s.scopes with
  | nil => rfl
  | cons scope rest ih =>
      by_cases hinner : inner ≤ scope.1
      · simpa [hinner, hle.trans hinner] using ih
      · simp [hinner]

/-- What a line of code does, told by its meaning for its owner. -/
theorem pushCode_eq (s : Scanner) (code : CodeLine) : s.pushCode code =
    match meaning (s.owner code.indent) (s.literal || code.literal) code.code with
    | .root name => { s with root := name, scopes := s.around code.indent, literal := false }
    | .scope scope initializes =>
        { s with
          scopes := (code.indent, scope) :: s.around code.indent
          literal := false
          found := if initializes then s.found ++ [(s.close code.indent).path] else s.found } := rfl

theorem push_of_code {line : List Char} {code : CodeLine} (hread : CodeLine.read line = some code)
    (hcode : code.code ≠ []) (s : Scanner) : s.push line = s.pushCode code := by
  rw [push, hread]
  simp [hcode]

/-- A line is skipped, or it can only make the next binding a literal, or its code counts. -/
theorem push_cases (line : List Char) :
    (CodeLine.read line = none ∧ ∀ s : Scanner, s.push line = s) ∨
      ∃ code, CodeLine.read line = some code ∧
        (code.code = [] ∧
            (∀ s : Scanner, s.push line = { s with literal := s.literal || code.literal }) ∨
          code.code ≠ [] ∧ ∀ s : Scanner, s.push line = s.pushCode code) := by
  cases hread : CodeLine.read line with
  | none => exact .inl ⟨rfl, fun s ↦ by rw [push, hread]⟩
  | some code =>
      refine .inr ⟨code, rfl, ?_⟩
      by_cases hcode : code.code = []
      · refine .inl ⟨hcode, fun s ↦ ?_⟩
        rw [push, hread]
        simp [hcode]
      · exact .inr ⟨hcode, push_of_code hread hcode⟩

/-! ### Runs at a column -/

/-- What the lines of some declarations at a column do to the scan of a file, given its name, the
last abbreviation and what runs code on start. -/
structure Adds (root : String) (column : Nat) (s t : Scanner) (above : Option String)
    (initializers : List Initializer) : Prop where
  around : t.around column = s.around column
  literal : t.literal = false
  root_eq : t.root = above.getD root
  found : t.found = s.found ++ initializers.map (Initializer.foundPath · root)

theorem Adds.refl (column : Nat) (hliteral : s.literal = false) (hroot : s.root = above.getD root) :
    Adds root column s s above [] :=
  ⟨rfl, hliteral, hroot, (List.append_nil _).symm⟩

theorem Adds.append (h : Adds root column s t above initializers)
    (hrest : Adds root column t u last others) :
    Adds root column s u last (initializers ++ others) :=
  ⟨hrest.around.trans h.around, hrest.literal, hrest.root_eq,
    by rw [hrest.found, h.found, List.append_assoc, List.map_append]⟩

theorem Adds.owner_eq (h : Adds root column s t above initializers) :
    t.owner column = s.owner column := by
  rw [owner, h.around]
  rfl

/-- A run at the same column goes on with the names and the owner that the first one had. -/
theorem Adds.followed (h : Adds root column s t above initializers)
    (howner : ModuleLevel (s.owner column)) (others : List String → List Initializer)
    (hrest : ModuleLevel (t.owner column) → t.literal = false → t.root = above.getD root →
      Adds root column t u last (others (namesOf (t.around column)))) :
    Adds root column s u last (initializers ++ others (namesOf (s.around column))) := by
  rw [← h.around]
  exact h.append (hrest (h.owner_eq ▸ howner) h.literal h.root_eq)

/-- A scan in which a scope was opened at a column. -/
def opened (s : Scanner) (column : Nat) (scope : Scope) : Scanner :=
  { s with scopes := (column, scope) :: s.around column, literal := false }

section

variable {scope : Scope} (hdeeper : column < inner)
include hdeeper

theorem around_opened :
    (s.opened column scope).around inner = (column, scope) :: s.around column := by
  simp [around, opened, hdeeper]

theorem owner_opened : (s.opened column scope).owner inner = some scope := by
  rw [owner, around_opened hdeeper]
  rfl

theorem namesOf_opened : namesOf ((s.opened column scope).around inner) =
    namesOf (s.around column) ++ scope.name?.toList := by
  rw [around_opened hdeeper, namesOf_cons]

/-- What is declared further in, in a scope that is opened at a column. -/
theorem Adds.of_opened (h : Adds root inner (s.opened column scope) u above initializers) :
    Adds root column s u above initializers := by
  refine ⟨?_, h.literal, h.root_eq, h.found⟩
  have hinner : u.around inner = (column, scope) :: s.around column :=
    h.around.trans (around_opened hdeeper)
  calc u.around column
      = (u.around inner).dropWhile (fun scope ↦ column ≤ scope.1) :=
        (dropWhile_around hdeeper.le u).symm
    _ = (s.around column).dropWhile (fun scope ↦ column ≤ scope.1) := by simp [hinner]
    _ = s.around column := dropWhile_around le_rfl s

end

/-! ### Expressions -/

def InExpression (column : Nat) (outer : List (Nat × Scope)) (s : Scanner) : Prop :=
  ∃ above, s.scopes = above ++ (column, .expression) :: outer ∧
    ∀ scope ∈ above, column < scope.1 ∧ scope.2 = .expression

/-- Whether the code of a line stands further in than a column, if it has any. -/
def IsDeeper (column : Nat) (line : List Char) : Prop :=
  ∀ code, CodeLine.read line = some code → code.code ≠ [] → column < code.indent

theorem InExpression.around_eq (h : InExpression column (s.around column) t) :
    t.around column = s.around column := by
  obtain ⟨above, hscopes, habove⟩ := h
  have hdrop : ∀ scope ∈ above ++ [(column, Scope.expression)],
      decide (column ≤ scope.1) = true := by
    intro scope hscope
    obtain hscope | hscope := List.mem_append.mp hscope
    · exact decide_eq_true (habove scope hscope).1.le
    · rw [List.mem_singleton.mp hscope]
      exact decide_eq_true le_rfl
  have hsplit : t.scopes = (above ++ [(column, Scope.expression)]) ++ s.around column := by
    rw [hscopes, List.append_assoc]
    rfl
  rw [around, hsplit, List.dropWhile_append_of_pos hdrop, dropWhile_around le_rfl]

theorem meaning_expression (literal : Bool) (code : List Char) :
    meaning (some .expression) literal code = .scope .expression false := by
  simp [meaning]

/-- A line of an expression opens an expression and is nothing to report. -/
theorem pushCode_of_expression {code : CodeLine} (h : s.owner code.indent = some .expression) :
    s.pushCode code = s.opened code.indent .expression := by
  rw [pushCode_eq, h, meaning_expression]
  rfl

theorem InExpression.pushCode (h : InExpression column outer s) (code : CodeLine)
    (hdeeper : column < code.indent) :
    InExpression column outer (s.pushCode code) ∧ (s.pushCode code).literal = false ∧
      (s.pushCode code).root = s.root ∧ (s.pushCode code).found = s.found := by
  -- Only scopes of the expression are closed, so its own scope or one inside of it is the owner.
  obtain ⟨above, hscopes, habove⟩ := h
  have haround : s.around code.indent =
      above.dropWhile (fun scope ↦ code.indent ≤ scope.1) ++ (column, .expression) :: outer := by
    rw [around, hscopes, List.dropWhile_append]
    cases hdrop : above.dropWhile (fun scope ↦ code.indent ≤ scope.1) <;> simp [hdeeper]
  have hrest : ∀ scope ∈ above.dropWhile (fun scope ↦ code.indent ≤ scope.1),
      column < scope.1 ∧ scope.2 = .expression :=
    fun scope hscope ↦ habove scope ((List.dropWhile_suffix _).mem hscope)
  have howner : s.owner code.indent = some .expression := by
    rw [owner, haround]
    cases hdrop : above.dropWhile (fun scope ↦ code.indent ≤ scope.1) with
    | nil => rfl
    | cons scope more => simpa using (hrest scope (hdrop ▸ List.mem_cons_self)).2
  rw [pushCode_of_expression howner]
  refine ⟨⟨(code.indent, .expression) :: above.dropWhile fun scope ↦ code.indent ≤ scope.1,
    ?_, ?_⟩, rfl, rfl, rfl⟩
  · rw [opened, haround]
    rfl
  · exact List.forall_mem_cons.mpr ⟨⟨hdeeper, rfl⟩, hrest⟩

theorem InExpression.push (h : InExpression column outer s) {line : List Char}
    (hdeeper : IsDeeper column line) :
    InExpression column outer (s.push line) ∧ (s.push line).root = s.root ∧
      (s.push line).found = s.found := by
  obtain ⟨-, hpush⟩ | ⟨code, hread, ⟨-, hpush⟩ | ⟨hcode, hpush⟩⟩ := push_cases line
  · rw [hpush]
    exact ⟨h, rfl, rfl⟩
  · rw [hpush]
    exact ⟨h, rfl, rfl⟩
  · obtain ⟨hin, -, hroot, hfound⟩ := h.pushCode code (hdeeper code hread hcode)
    rw [hpush]
    exact ⟨hin, hroot, hfound⟩

theorem InExpression.foldl_push (h : InExpression column outer s) {lines : List (List Char)}
    (hdeeper : ∀ line ∈ lines, IsDeeper column line) :
    InExpression column outer (lines.foldl Scanner.push s) ∧
      (lines.foldl Scanner.push s).root = s.root ∧
      (lines.foldl Scanner.push s).found = s.found := by
  induction lines generalizing s with
  | nil => exact ⟨h, rfl, rfl⟩
  | cons line rest ih =>
      obtain ⟨hin, hroot, hfound⟩ := h.push (hdeeper line List.mem_cons_self)
      obtain ⟨hend, hendRoot, hendFound⟩ :=
        ih hin fun line hline ↦ hdeeper line (List.mem_cons_of_mem _ hline)
      exact ⟨hend, hendRoot.trans hroot, hendFound.trans hfound⟩

end Scanner

/-! ### Lines -/

variable {s : Scanner} {column inner : Nat} {root name : String} {above : Option String}

theorem Filler.push_text (s : Scanner) (line : Filler) : s.push line.text = s := by
  obtain ⟨-, hpush⟩ | ⟨code, hread, hcases⟩ := push_cases line.text
  · exact hpush s
  · obtain ⟨hcode, hliteral⟩ := line.read_text code hread
    obtain ⟨-, hpush⟩ | ⟨hne, -⟩ := hcases
    · rw [hpush, hliteral, Bool.or_false]
    · exact absurd hcode hne

theorem Lead.push_text (s : Scanner) (lead : Lead) :
    s.push lead.text = { s with literal := s.literal || lead.isLiteral } := by
  cases lead with
  | filler line =>
      rw [text, line.push_text, isLiteral, Bool.or_false]
  | attributes indent attr more comment =>
      rw [Scanner.push, read_attributes]
      rfl

theorem Lead.foldl_push (s : Scanner) (leads : List Lead) :
    (leads.map Lead.text).foldl push s =
      { s with literal := s.literal || leads.any Lead.isLiteral } := by
  induction leads generalizing s with
  | nil => rw [List.any_nil, Bool.or_false]; rfl
  | cons lead rest ih =>
      rw [List.map_cons, List.foldl_cons, lead.push_text, ih, List.any_cons, ← Bool.or_assoc]

namespace Line

variable (line : Line column)

theorem foldl_push (s : Scanner) : line.lines.foldl push s =
    match meaning (s.owner column) (s.literal || line.isLiteral) line.code with
    | .root name => { s with root := name, scopes := s.around column, literal := false }
    | .scope scope initializes =>
        { s with
          scopes := (column, scope) :: s.around column
          literal := false
          found := if initializes then s.found ++ [(s.close column).path] else s.found } := by
  rw [lines, List.foldl_append, Lead.foldl_push, List.foldl_cons, List.foldl_nil,
    push_of_code line.read_text line.code_ne_nil, pushCode_eq, isLiteral, ← Bool.or_assoc]
  rfl

theorem isDeeper (h : inner < column) : ∀ text ∈ line.lines, IsDeeper inner text := by
  intro text htext code hread hcode
  obtain hlead | hline := List.mem_append.mp htext
  · obtain ⟨lead, -, rfl⟩ := List.mem_map.mp hlead
    cases lead with
    | filler line => exact absurd (line.read_text code hread).1 hcode
    | attributes indent attr more comment =>
        rw [Lead.read_attributes, Option.some.injEq] at hread
        rw [← hread] at hcode
        exact absurd rfl hcode
  · rw [List.mem_singleton.mp hline, line.read_text, Option.some.injEq] at hread
    rw [← hread]
    exact h

end Line

theorem Filler.isDeeper (line : Filler) (column : Nat) : IsDeeper column line.text :=
  fun code hread hcode ↦ absurd (line.read_text code hread).1 hcode

theorem Nested.read_text (nested : Nested column) (code : CodeLine)
    (h : CodeLine.read nested.text = some code) :
    code.literal = false ∧ (code.code ≠ [] → column < code.indent) := by
  cases nested with
  | filler line =>
      obtain ⟨hcode, hliteral⟩ := line.read_text code h
      exact ⟨hliteral, fun hne ↦ absurd hcode hne⟩
  | deeper indent isDeeper rest starts noAttribute =>
      have hstrip : stripComment false (indent.text ++ rest) =
          indent.text ++ ([].flatMap Attribute.text ++ stripComment false rest) :=
        stripComment_blanks_append indent.blank rest
      have hblank : (stripComment false rest).head?.all (fun c ↦ !isBlank c) = true :=
        head?_stripComment (head?_all_of_any starts)
      have hattribute := isPrefixOf_of_isPrefix (trimEnd_stripComment_isPrefix rest) noAttribute
      cases hcomment : ['(', '*'].isPrefixOf (trimEnd (stripComment false rest)) with
      | false =>
          have hread := read_of_stripComment hstrip hblank hattribute hcomment
          rw [Nested.text, hread, Option.some.injEq] at h
          rw [← h]
          exact ⟨rfl, fun _ ↦ isDeeper⟩
      | true =>
          have htrim : trim (stripComment false (indent.text ++ rest)) =
              trimEnd (stripComment false rest) := by
            rw [hstrip]
            exact trim_blanks_append indent.blank hblank
          rw [Nested.text, read_eq_none (htrim ▸ hcomment)] at h
          cases h

theorem Nested.isDeeper (nested : Nested column) (h : inner ≤ column) :
    IsDeeper inner nested.text :=
  fun code hread hcode ↦ h.trans_lt ((nested.read_text code hread).2 hcode)

theorem Nested.forall_isDeeper (nested : List (Nested column)) (h : inner ≤ column) :
    ∀ text ∈ nested.map Nested.text, IsDeeper inner text := by
  simp only [List.mem_map, forall_exists_index, and_imp, forall_apply_eq_imp_iff₂]
  exact fun item _ ↦ item.isDeeper h

/-- The lines of an expression leave no attributes behind them. -/
theorem Nested.foldl_push_literal (nested : List (Nested column)) {outer : List (Nat × Scope)}
    (h : InExpression column outer s) (hliteral : s.literal = false) :
    ((nested.map Nested.text).foldl push s).literal = false := by
  induction nested generalizing s with
  | nil => exact hliteral
  | cons line rest ih =>
      refine ih (h.push (line.isDeeper le_rfl)).1 ?_
      obtain ⟨-, hpush⟩ | ⟨code, hread, hcases⟩ := push_cases line.text
      · rwa [hpush]
      · obtain ⟨hcodeLiteral, hdeeper⟩ := line.read_text code hread
        obtain ⟨-, hpush⟩ | ⟨hcode, hpush⟩ := hcases
        · rw [hpush, hliteral, hcodeLiteral]
          rfl
        · rw [hpush]
          exact (h.pushCode code (hdeeper hcode)).2.1

theorem path_close_eq (s : Scanner) (column : Nat) :
    (s.close column).path = String.intercalate "+" (s.root :: namesOf (s.around column)) := rfl

theorem path_close (hroot : s.root = above.getD root) (column : Nat) :
    (s.close column).path = Initializer.foundPath ⟨above, namesOf (s.around column)⟩ root := by
  rw [path_close_eq, Initializer.foundPath, ← hroot]

/-- A line that starts an expression adds one entry or none, whatever stands in the expression. -/
theorem Line.adds_expression (line : Line column) (nested : List (Nested column))
    {initializes : Bool} (hroot : s.root = above.getD root)
    (hmeaning : meaning (s.owner column) (s.literal || line.isLiteral) line.code =
      .scope .expression initializes) :
    Adds root column s ((line.lines ++ nested.map Nested.text).foldl push s) above
      (if initializes then [⟨above, namesOf (s.around column)⟩] else []) := by
  have hline := line.foldl_push s
  rw [hmeaning] at hline
  have hin : InExpression column (s.around column) (line.lines.foldl push s) :=
    ⟨[], by rw [hline]; rfl, nofun⟩
  have hliteral : (line.lines.foldl push s).literal = false := by rw [hline]
  obtain ⟨hend, hendRoot, hfound⟩ := hin.foldl_push (Nested.forall_isDeeper nested le_rfl)
  rw [List.foldl_append]
  refine ⟨hend.around_eq, Nested.foldl_push_literal nested hin hliteral, ?_, ?_⟩
  · rw [hendRoot, hline, hroot]
  · rw [hfound, hline, path_close hroot]
    cases initializes <;> simp

/-! ### Declarations -/

theorem adds_members (members : List (Member column)) (hroot : s.root = above.getD root)
    (howner : s.owner column = some (.typeBody name)) (hliteral : s.literal = false) :
    Adds root column s ((members.flatMap Member.lines).foldl push s) above
      ((members.filter fun m ↦ m.line.initializes).map
        fun _ ↦ ⟨above, namesOf (s.around column)⟩) := by
  induction members generalizing s with
  | nil => exact .refl column hliteral hroot
  | cons m rest ih =>
      have hmember := m.line.adds_expression m.nested hroot
        (howner ▸ m.line.meaning_code name (s.literal || m.line.isLiteral))
      have hrest := ih hmember.root_eq (hmember.owner_eq.trans howner) hmember.literal
      rw [hmember.around] at hrest
      have hall := hmember.append hrest
      rw [List.flatMap_cons, List.foldl_append, List.filter_cons]
      cases hinitializes : m.line.initializes <;> rw [hinitializes] at hall <;> exact hall

theorem Declarations.adds_lines (declarations : Declarations column)
    (howner : ModuleLevel (s.owner column)) (hliteral : s.literal = false)
    (hroot : s.root = above.getD root) :
    Adds root column s (declarations.lines.foldl push s) (declarations.lastAbbreviation above)
      (declarations.initializers above (namesOf (s.around column))) := by
  -- What is around the column stays, so the names and the owner are the same for the rest.
  induction declarations generalizing s above with
  | nil => exact .refl _ hliteral hroot
  | filler line rest ih =>
      rw [lines, List.foldl_cons, line.push_text]
      exact ih howner hliteral hroot
  | @binding column line nested rest ih =>
      have hline := line.adds_expression nested hroot
        (line.meaning_code howner (s.literal || line.isLiteral))
      have hinitializes : line.initializes =
          (!(s.literal || line.isLiteral) && line.mark.isSome) := by
        rw [hliteral, Bool.false_or, Bool.and_comm, BindingLine.initializes]
      rw [lines, ← List.append_assoc, List.foldl_append, Declarations.initializers, hinitializes]
      exact hline.followed howner (rest.initializers above) ih
  | @other column line nested rest ih =>
      have hline := line.adds_expression nested hroot
        (line.meaning_code howner (s.literal || line.isLiteral))
      rw [lines, ← List.append_assoc, List.foldl_append]
      exact hline.followed howner (rest.initializers above) ih
  | @abbreviation column line rest ih =>
      have hpush := line.foldl_push s
      rw [line.meaning_code howner] at hpush
      have hline : Adds root column s (line.lines.foldl push s) (some line.declared) [] := by
        rw [hpush]
        exact ⟨dropWhile_around le_rfl s, rfl, rfl, (List.append_nil _).symm⟩
      rw [lines, List.foldl_append]
      exact hline.followed howner (rest.initializers (some line.declared)) ih
  | @block column inner line deeper inside rest ihInside ih =>
      have hpush : line.lines.foldl push s = s.opened column (.moduleBody line.declared) := by
        rw [line.foldl_push s, line.meaning_code howner]
        rfl
      have hinside : ModuleLevel ((s.opened column (.moduleBody line.declared)).owner inner) := by
        rw [owner_opened deeper]
        exact .block line.declared
      have hblock := (ihInside hinside rfl hroot).of_opened deeper
      rw [namesOf_opened deeper] at hblock
      rw [lines, List.foldl_append, List.foldl_append, hpush]
      exact hblock.followed howner (rest.initializers (inside.lastAbbreviation above)) ih
  | @type column inner line deeper members rest ih =>
      have hpush : line.lines.foldl push s = s.opened column (.typeBody line.declared) := by
        rw [line.foldl_push s, line.meaning_type howner]
        rfl
      have hinside : (s.opened column (.typeBody line.declared)).owner inner =
          some (.typeBody line.declared) := owner_opened deeper
      have htype := (adds_members (s := s.opened column (.typeBody line.declared)) members hroot
        hinside rfl).of_opened deeper
      rw [namesOf_opened deeper] at htype
      rw [lines, List.foldl_append, List.foldl_append, hpush]
      exact htype.followed howner (rest.initializers above) ih

theorem Declarations.isDeeper {outside : Nat} (declarations : Declarations column)
    (h : outside < column) : ∀ text ∈ declarations.lines, IsDeeper outside text := by
  induction declarations with
  | nil => exact nofun
  | filler line rest ih => exact List.forall_mem_cons.mpr ⟨line.isDeeper outside, ih h⟩
  | binding line nested rest ih | other line nested rest ih =>
      exact List.forall_mem_append.mpr ⟨line.isDeeper h,
        List.forall_mem_append.mpr ⟨Nested.forall_isDeeper nested h.le, ih h⟩⟩
  | abbreviation line rest ih => exact List.forall_mem_append.mpr ⟨line.isDeeper h, ih h⟩
  | block line deeper inside rest ihInside ih =>
      exact List.forall_mem_append.mpr ⟨line.isDeeper h,
        List.forall_mem_append.mpr ⟨ihInside (h.trans deeper), ih h⟩⟩
  | type line deeper members rest ih =>
      refine List.forall_mem_append.mpr ⟨line.isDeeper h, List.forall_mem_append.mpr ⟨?_, ih h⟩⟩
      intro text htext
      obtain ⟨m, -, hm⟩ := List.mem_flatMap.mp htext
      obtain hline | hline := List.mem_append.mp hm
      · exact m.line.isDeeper (h.trans deeper) text hline
      · exact Nested.forall_isDeeper m.nested (h.trans deeper).le text hline

/-! ### Sources -/

namespace Source

variable {text : List Char} {source : Source}

theorem foldl_header (header : Header) : header.lines.foldl push {} =
    match header with
    | @Header.inNamespace column _ => { scopes := [(column, .expression)] }
    | _ => { root := header.root } := by
  cases header with
  | implicit => rfl
  | @module column line =>
      have howner : ({} : Scanner).owner column ≠ some .expression := nofun
      rw [Header.lines, line.foldl_push, line.meaning_code howner]
      rfl
  | inNamespace line =>
      rw [Header.lines, line.foldl_push, line.meaning_code]
      rfl

theorem staticBindings_eq (htext : Text.lines text = source.lines)
    (h : source.isUnderNamespace = false) :
    staticBindings text = source.initializers.map (Initializer.foundPath · source.header.root) := by
  have hheader : ∃ s : Scanner, source.header.lines.foldl push {} = s ∧
      s.around source.column = [] ∧ s.literal = false ∧ s.root = source.header.root ∧
      s.found = [] := by
    refine ⟨_, foldl_header source.header, ?_⟩
    rw [isUnderNamespace] at h
    cases hheader : source.header with
    | implicit | module line => exact ⟨rfl, rfl, rfl, rfl⟩
    | inNamespace line =>
        rw [hheader] at h
        have hle := not_lt.mp (of_decide_eq_false h)
        exact ⟨by simp [around, hle], rfl, rfl, rfl⟩
  obtain ⟨s, hs, haround, hliteral, hroot, hfound⟩ := hheader
  have howner : s.owner source.column = none := by rw [owner, haround]; rfl
  have hnone : s.root = (none : Option String).getD source.header.root := hroot
  have hrun := source.declarations.adds_lines (howner ▸ .file) hliteral hnone
  rw [staticBindings, htext, lines, List.foldl_append, hs, hrun.found, hfound, haround,
    List.nil_append]
  rfl

theorem staticBindings_underNamespace (htext : Text.lines text = source.lines)
    (h : source.isUnderNamespace = true) : staticBindings text = [] := by
  rw [isUnderNamespace] at h
  cases hheader : source.header with
  | implicit | module line => simp [hheader] at h
  | @inNamespace column line =>
      have hdeeper : column < source.column := by simpa [hheader] using h
      have hin : InExpression column [] { scopes := [(column, .expression)] } := ⟨[], rfl, nofun⟩
      have hrun := hin.foldl_push (source.declarations.isDeeper hdeeper)
      rw [staticBindings, htext, lines, List.foldl_append, foldl_header, hheader]
      exact hrun.2.2

end Source

end GuestGate.FSharp
