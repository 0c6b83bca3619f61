import GuestGate.Proofs.FSharp.Scanning

/-!
# What a line belongs to

A line belongs to the nearest line above it that stands further out.  Here this is told from the
lines themselves, without a stack, and the stack of the scan is shown to hold what the owner of a
line has opened, what the owner of the owner has opened, and so on.  A line that has an expression
among its owners opens an expression itself.
-/

namespace GuestGate.FSharp

open Text Scanner

/-- The code of a line that counts: it does not start with a block comment, and there is code
behind its attributes. -/
def significant? (line : List Char) : Option CodeLine :=
  (CodeLine.read line).filter fun code ↦ !code.code.isEmpty

structure Row where
  line : CodeLine
  meaning : LineMeaning
deriving DecidableEq, Repr

/-- The scope that a row opens at its column, unless it names the file. -/
def Row.opened? (row : Row) : Option (Nat × Scope) :=
  match row.meaning with
  | .root _ => none
  | .scope scope _ => some (row.line.indent, scope)

def Row.IsExpression (row : Row) : Prop :=
  row.opened? = some (row.line.indent, .expression)

/-- The rows that a line at a column belongs to, from inside out, among the rows above it, the
nearest one first.  The owner of the line is the nearest row that stands further out, and what it
belongs to itself comes next.  A row that names the file gives way to its own owner. -/
def owners (column : Nat) : List Row → List Row
  | [] => []
  | row :: above =>
      if column ≤ row.line.indent then owners column above
      else
        match row.opened? with
        | none => owners row.line.indent above
        | some _ => row :: owners row.line.indent above

/-- The lines that count among the first ones of a source, the last one first. -/
structure Outline where
  rows : List Row := []
  /-- Whether the next binding is a literal. -/
  literal : Bool := false
deriving DecidableEq, Repr

namespace Outline

def scopes (o : Outline) (column : Nat) : List (Nat × Scope) :=
  (owners column o.rows).filterMap Row.opened?

def rowOf (o : Outline) (code : CodeLine) : Row where
  line := code
  meaning := meaning ((o.scopes code.indent).head?.map Prod.snd) (o.literal || code.literal) code.code

def push (o : Outline) (line : List Char) : Outline :=
  match CodeLine.read line with
  | none => o
  | some code =>
      if code.code.isEmpty then { o with literal := o.literal || code.literal }
      else { rows := o.rowOf code :: o.rows }

end Outline

variable {s : Scanner} {o : Outline} {column : Nat} {line : List Char} {code : CodeLine}
  {above : List Row} {row : Row}

theorem significant?_eq_some_iff :
    significant? line = some code ↔ CodeLine.read line = some code ∧ code.code ≠ [] := by
  rw [significant?, Option.filter_eq_some_iff]
  simp

/-! ### The stack -/

namespace Scanner

/-- Whether every open scope stands further in than the ones around it. -/
def IsNested (scopes : List (Nat × Scope)) : Prop :=
  scopes.Pairwise fun inner outer ↦ outer.1 < inner.1

theorem IsNested.around (h : IsNested s.scopes) (column : Nat) : IsNested (s.around column) :=
  h.sublist (List.dropWhile_sublist _)

theorem IsNested.lt_of_mem_around (h : IsNested s.scopes) {scope : Nat × Scope}
    (hmem : scope ∈ s.around column) : scope.1 < column := by
  cases haround : s.around column with
  | nil => simp [haround] at hmem
  | cons first rest =>
      have hfirst : first.1 < column := by
        have hhead := List.head?_dropWhile_not (fun scope ↦ decide (column ≤ scope.1)) s.scopes
        rw [← Scanner.around, haround] at hhead
        simpa using hhead
      have hnested := h.around column
      rw [haround] at hmem hnested
      rcases List.mem_cons.mp hmem with rfl | hrest
      · exact hfirst
      · exact ((List.pairwise_cons.mp hnested).1 scope hrest).trans hfirst

/-- What is open behind a line: its own scope, and what was open around it. -/
theorem scopes_pushCode (s : Scanner) (code : CodeLine) :
    (s.pushCode code).scopes =
      (Row.mk code (meaning (s.owner code.indent) (s.literal || code.literal) code.code)
        ).opened?.toList ++ s.around code.indent := by
  rw [pushCode_eq, Row.opened?]
  cases meaning (s.owner code.indent) (s.literal || code.literal) code.code <;> rfl

theorem literal_pushCode (s : Scanner) (code : CodeLine) : (s.pushCode code).literal = false := by
  rw [pushCode_eq]
  cases meaning (s.owner code.indent) (s.literal || code.literal) code.code <;> rfl

end Scanner

/-! ### Owners and the stack -/

structure Outline.Describes (o : Outline) (s : Scanner) : Prop where
  scopes : ∀ column, s.around column = o.scopes column
  literal : s.literal = o.literal
  nested : IsNested s.scopes

theorem Outline.scopes_cons (row : Row) (above : List Row) (literal : Bool) (column : Nat) :
    Outline.scopes ⟨row :: above, literal⟩ column =
      if column ≤ row.line.indent then Outline.scopes ⟨above, literal⟩ column
      else row.opened?.toList ++ Outline.scopes ⟨above, literal⟩ row.line.indent := by
  rw [Outline.scopes, owners]
  split
  · rfl
  · cases hopened : row.opened? with
    | none => rfl
    | some scope => simp [Outline.scopes, hopened]

theorem Row.mem_opened? {scope : Nat × Scope} (h : scope ∈ row.opened?) :
    scope.1 = row.line.indent := by
  rw [Row.opened?] at h
  split at h
  · cases h
  · rw [Option.mem_some_iff] at h
    rw [← h]

namespace Outline.Describes

theorem empty : Describes {} {} :=
  ⟨fun _ ↦ rfl, rfl, List.Pairwise.nil⟩

theorem owner_eq (h : o.Describes s) (column : Nat) :
    s.owner column = (o.scopes column).head?.map Prod.snd := by
  rw [Scanner.owner, h.scopes]

theorem pushCode (h : o.Describes s) (code : CodeLine) :
    Describes { rows := o.rowOf code :: o.rows } (s.pushCode code) := by
  have hpushed : (s.pushCode code).scopes =
      (o.rowOf code).opened?.toList ++ s.around code.indent := by
    rw [scopes_pushCode, h.owner_eq, h.literal]
    rfl
  have hline : (o.rowOf code).line = code := rfl
  refine ⟨fun column ↦ ?_, literal_pushCode s code, ?_⟩
  · rw [scopes_cons, hline, Scanner.around, hpushed]
    split
    · next hle =>
        -- the new scope is closed again, and so is what was closed in front of it
        have hclosed : ∀ scope ∈ (o.rowOf code).opened?.toList,
            decide (column ≤ scope.1) = true := by
          intro scope hscope
          rw [Row.mem_opened? (Option.mem_toList.mp hscope)]
          exact decide_eq_true hle
        rw [List.dropWhile_append_of_pos hclosed, dropWhile_around hle, h.scopes]
        rfl
    · next hlt =>
        have hopen : ∀ scope ∈ (o.rowOf code).opened?.toList ++ s.around code.indent,
            scope.1 < column := by
          intro scope hscope
          rcases List.mem_append.mp hscope with hnew | hold
          · rw [Row.mem_opened? (Option.mem_toList.mp hnew)]
            exact not_le.mp hlt
          · exact (h.nested.lt_of_mem_around hold).trans (not_le.mp hlt)
        have hkept : ((o.rowOf code).opened?.toList ++ s.around code.indent).dropWhile
            (fun scope ↦ decide (column ≤ scope.1)) =
              (o.rowOf code).opened?.toList ++ s.around code.indent := by
          rw [List.dropWhile_eq_self_iff]
          intro hlength
          simpa using hopen _ (List.getElem_mem hlength)
        rw [hkept, h.scopes]
        rfl
  · rw [hpushed]
    refine List.pairwise_append.mpr ⟨?_, h.nested.around _, ?_⟩
    · cases (o.rowOf code).opened? <;> simp
    · intro inner hinner outer houter
      rw [Row.mem_opened? (Option.mem_toList.mp hinner)]
      exact h.nested.lt_of_mem_around houter

theorem push (h : o.Describes s) (line : List Char) : (o.push line).Describes (s.push line) := by
  rw [Outline.push, Scanner.push]
  cases hread : CodeLine.read line with
  | none => exact h
  | some code =>
      dsimp only
      split
      · exact ⟨h.scopes, by rw [h.literal], h.nested⟩
      · exact h.pushCode code

theorem foldl_push (h : o.Describes s) (lines : List (List Char)) :
    (lines.foldl Outline.push o).Describes (lines.foldl Scanner.push s) := by
  induction lines generalizing o s with
  | nil => exact h
  | cons line lines ih => exact ih (h.push line)

end Outline.Describes

theorem Outline.rows_foldl_push (o : Outline) (lines : List (List Char)) :
    (lines.foldl Outline.push o).rows.map Row.line =
      (lines.filterMap significant?).reverse ++ o.rows.map Row.line := by
  induction lines generalizing o with
  | nil => rfl
  | cons line lines ih =>
      have hpush : (o.push line).rows.map Row.line =
          (significant? line).toList ++ o.rows.map Row.line := by
        rw [Outline.push, significant?]
        cases CodeLine.read line with
        | none => rfl
        | some code =>
            dsimp only
            split
            · next hempty => simp [Option.filter_some, hempty]
            · next hcode => simp [Option.filter_some, hcode, Outline.rowOf]
      rw [List.foldl_cons, ih, hpush, List.filterMap_cons]
      cases significant? line <;> simp

/-! ### Inside of an expression -/

/-- Whether every row whose owner is an expression is one itself. -/
def Settled : List Row → Prop
  | [] => True
  | row :: above =>
      ((∃ owner, (owners row.line.indent above).head? = some owner ∧ owner.IsExpression) →
        row.IsExpression) ∧ Settled above

theorem Settled.owner_of_mem (h : Settled above) (hmem : row ∈ owners column above)
    (hrow : row.IsExpression) :
    ∃ owner, (owners column above).head? = some owner ∧ owner.IsExpression := by
  induction above generalizing column with
  | nil => simp [owners] at hmem
  | cons first above ih =>
      rw [owners] at hmem ⊢
      split at hmem
      · next hle =>
          rw [if_pos hle]
          exact ih h.2 hmem
      · next hlt =>
          rw [if_neg hlt]
          cases hopened : first.opened? with
          | none =>
              rw [hopened] at hmem
              exact ih h.2 hmem
          | some scope =>
              rw [hopened] at hmem
              refine ⟨first, rfl, ?_⟩
              rcases List.mem_cons.mp hmem with rfl | hout
              · exact hrow
              · exact h.1 (ih h.2 hout)

theorem Outline.head?_scopes {owner : Row}
    (howner : (owners column o.rows).head? = some owner) (hexpression : owner.IsExpression) :
    (o.scopes column).head?.map Prod.snd = some .expression := by
  rw [Outline.scopes]
  cases hrows : owners column o.rows with
  | nil => simp [hrows] at howner
  | cons first rest =>
      obtain rfl : first = owner := by simpa [hrows] using howner
      have hopened : first.opened? = some (first.line.indent, .expression) := hexpression
      simp [hopened]

theorem Settled.push (h : Settled o.rows) (line : List Char) : Settled (o.push line).rows := by
  rw [Outline.push]
  cases CodeLine.read line with
  | none => exact h
  | some code =>
      dsimp only
      split
      · exact h
      · refine ⟨?_, h⟩
        rintro ⟨owner, howner, hexpression⟩
        have hscope := Outline.head?_scopes howner hexpression
        rw [Row.IsExpression, Row.opened?, Outline.rowOf]
        dsimp only
        rw [show code.indent = (o.rowOf code).line.indent from rfl, hscope, meaning_expression]

theorem Settled.foldl_push (h : Settled o.rows) (lines : List (List Char)) :
    Settled (lines.foldl Outline.push o).rows := by
  induction lines generalizing o with
  | nil => exact h
  | cons line lines ih => exact ih (h.push line)

/-! ### Texts -/

def scanTo (text : List Char) (count : Nat) : Scanner :=
  ((Text.lines text).take count).foldl Scanner.push {}

def outlineTo (text : List Char) (count : Nat) : Outline :=
  ((Text.lines text).take count).foldl Outline.push {}

/-- The rows above a line are the lines that count in front of it.  Behind the line the scopes on
the stack stand further and further out; the scopes around it are those of its owners; and if one
of them is an expression, the line opens an expression and nothing is reported for it. -/
theorem owners_of_line {text : List Char} {place : Nat}
    (hline : (Text.lines text)[place]? = some line) (hcode : significant? line = some code) :
    let rows := (outlineTo text place).rows
    let s := scanTo text place
    let t := scanTo text (place + 1)
    rows.reverse.map Row.line = ((Text.lines text).take place).filterMap significant? ∧
    IsNested t.scopes ∧
    (s.close code.indent).scopes = (owners code.indent rows).filterMap Row.opened? ∧
    ∀ row ∈ owners code.indent rows, row.IsExpression →
      t = { s with
        scopes := (code.indent, .expression) :: (s.close code.indent).scopes
        literal := false } := by
  intro rows s t
  have hdescribes : (outlineTo text place).Describes s :=
    Outline.Describes.empty.foldl_push _
  have hsettled : Settled rows := Settled.foldl_push (o := {}) trivial _
  have hstep : t = s.push line := by
    change scanTo text (place + 1) = (scanTo text place).push line
    rw [scanTo, List.take_add_one, hline, List.foldl_append]
    rfl
  have hpush : s.push line = s.pushCode code := by
    obtain ⟨hread, hne⟩ := significant?_eq_some_iff.mp hcode
    exact push_of_code hread hne s
  refine ⟨?_, ?_, hdescribes.scopes code.indent, ?_⟩
  · have hrows : rows.map Row.line =
        (((Text.lines text).take place).filterMap significant?).reverse ++ [] :=
      Outline.rows_foldl_push {} _
    rw [List.map_reverse, hrows, List.append_nil, List.reverse_reverse]
  · rw [hstep]
    exact (hdescribes.push line).nested
  · intro row hmem hrow
    obtain ⟨owner, howner, hexpression⟩ := hsettled.owner_of_mem hmem hrow
    have hscope : s.owner code.indent = some .expression := by
      rw [hdescribes.owner_eq]
      exact Outline.head?_scopes howner hexpression
    rw [hstep, hpush, pushCode_of_expression hscope]
    rfl

instance (row : Row) : Decidable row.IsExpression :=
  inferInstanceAs (Decidable (_ = _))

def nestedText : List Char :=
  "let f x =\n  module A =\n    let y = 1\n".toList

theorem nestedText_owned :
    (Text.lines nestedText)[2]? = some "    let y = 1".toList ∧
    significant? "    let y = 1".toList = some ⟨4, false, "let y = 1".toList⟩ ∧
    (∃ row ∈ owners 4 (outlineTo nestedText 2).rows,
      row.line.code = "let f x =".toList ∧ row.IsExpression) ∧
    (scanTo nestedText 3).found = (scanTo nestedText 2).found := by
  have hline : (Text.lines nestedText)[2]? = some "    let y = 1".toList := by decide +kernel
  have hcode : significant? "    let y = 1".toList = some ⟨4, false, "let y = 1".toList⟩ := by
    decide +kernel
  have hrow : ∃ row ∈ owners 4 (outlineTo nestedText 2).rows,
      row.line.code = "let f x =".toList ∧ row.IsExpression := by
    decide +kernel
  refine ⟨hline, hcode, hrow, ?_⟩
  obtain ⟨-, -, -, hinside⟩ := owners_of_line hline hcode
  obtain ⟨row, hmem, -, hexpression⟩ := hrow
  rw [hinside row hmem hexpression]

end GuestGate.FSharp
