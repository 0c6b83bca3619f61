import GuestGate.Proofs.FSharp.Paths
import GuestGate.Proofs.Text.Lines
import Mathlib.Data.List.Induction

/-!
# Comments on lines of their own

A comment behind two slashes is passed over wherever it stands, and so is the first line of a block
comment.  The further lines of a block comment are read like any others.  So the comment leaves
what is found in a source alone, whatever the source, exactly if each of these lines is passed over
by itself.
-/

namespace GuestGate.FSharp

open Text Scanner

/-- Whether the scan passes a line over: it starts with a block comment, or there is nothing on it
but a comment and attributes that make no literal. -/
def IsPassed (line : List Char) : Prop :=
  ∀ code, CodeLine.read line = some code → code.code = [] ∧ code.literal = false

/-- A block comment that has its lines for itself. -/
structure BlockComment where
  indent : Blanks
  inside : List Char
  after : Blanks
  alone : '\n' ∉ indent.text ∧ '\n' ∉ after.text

namespace BlockComment

variable (comment : BlockComment)

def text : List Char :=
  comment.indent.text ++ (['(', '*'] ++ (comment.inside ++ (['*', ')'] ++ comment.after.text)))

def lines : List (List Char) :=
  Text.lines comment.text

end BlockComment

/-- Whether two texts have the same lines but for those in one place. -/
def AgreeOutside (here there : List (List Char)) (text other : List Char) : Prop :=
  ∃ before after, Text.lines text = before ++ (here ++ after) ∧
    Text.lines other = before ++ (there ++ after)

variable {s t : Scanner} {here there lines : List (List Char)} {text other line : List Char}

/-! ### Lines that are passed over -/

theorem push_of_isPassed (h : IsPassed line) (s : Scanner) : s.push line = s := by
  obtain ⟨-, hpush⟩ | ⟨code, hread, hcases⟩ := push_cases line
  · exact hpush s
  · obtain ⟨hcode, hliteral⟩ := h code hread
    obtain ⟨-, hpush⟩ | ⟨hne, -⟩ := hcases
    · rw [hpush, hliteral, Bool.or_false]
    · exact absurd hcode hne

theorem foldl_push_of_isPassed (h : ∀ line ∈ lines, IsPassed line) (s : Scanner) :
    lines.foldl push s = s := by
  induction lines with
  | nil => rfl
  | cons line lines ih =>
      obtain ⟨hline, hlines⟩ := List.forall_mem_cons.mp h
      rw [List.foldl_cons, push_of_isPassed hline, ih hlines]

theorem AgreeOutside.staticBindings_eq (h : AgreeOutside here there text other)
    (hpush : ∀ s : Scanner, here.foldl push s = there.foldl push s) :
    staticBindings text = staticBindings other := by
  obtain ⟨before, after, htext, hother⟩ := h
  rw [staticBindings, staticBindings, htext, hother]
  simp only [List.foldl_append, hpush]

theorem isPassed_comment (indent : Blanks) (inside : List Char) :
    IsPassed (indent.text ++ ('/' :: '/' :: inside)) := by
  have hcomment : (('/' :: '/' :: inside).isEmpty ||
      ['/', '/'].isPrefixOf ('/' :: '/' :: inside)) = true := rfl
  exact (Filler.blank ⟨indent, ⟨_, hcomment⟩⟩).read_text

/-- The first line of a block comment is passed over. -/
theorem BlockComment.foldl_push (comment : BlockComment) (s : Scanner) :
    comment.lines.foldl push s = comment.lines.tail.foldl push s := by
  have hopen : '\n' ∉ comment.indent.text ++ ['(', '*'] := by
    simpa using comment.alone.1
  obtain ⟨first, more, hlines⟩ := exists_lines_append (by simp) hopen (by simp)
    (comment.inside ++ (['*', ')'] ++ comment.after.text))
  have hfirst : IsPassed ((comment.indent.text ++ ['(', '*']) ++ first) := by
    intro code hread
    rw [List.append_assoc, comment.indent.read_blockComment] at hread
    cases hread
  rw [lines, text, ← List.append_assoc, hlines, List.foldl_cons, push_of_isPassed hfirst]
  rfl

/-! ### Lines that are not passed over -/

structure SameScopes (s t : Scanner) : Prop where
  scopes : s.scopes = t.scopes
  literal : s.literal = t.literal

theorem SameScopes.owner_eq (h : SameScopes s t) (column : Nat) :
    s.owner column = t.owner column := by
  rw [Scanner.owner, Scanner.owner, Scanner.around, Scanner.around, h.scopes]

theorem SameScopes.pushCode (h : SameScopes s t) (code : CodeLine) :
    SameScopes (s.pushCode code) (t.pushCode code) := by
  have haround : s.around code.indent = t.around code.indent := by
    rw [Scanner.around, Scanner.around, h.scopes]
  rw [pushCode_eq, pushCode_eq, h.owner_eq, h.literal]
  cases meaning (t.owner code.indent) (t.literal || code.literal) code.code with
  | root name => exact ⟨haround, rfl⟩
  | scope scope initializes => exact ⟨congrArg ((code.indent, scope) :: ·) haround, rfl⟩

theorem SameScopes.push (h : SameScopes s t) (line : List Char) :
    SameScopes (s.push line) (t.push line) := by
  obtain ⟨-, hpush⟩ | ⟨code, -, ⟨-, hpush⟩ | ⟨-, hpush⟩⟩ := push_cases line
  · rwa [hpush, hpush]
  · rw [hpush, hpush]
    exact ⟨h.scopes, by rw [h.literal]⟩
  · rw [hpush, hpush]
    exact h.pushCode code

theorem SameScopes.foldl_push (h : SameScopes s t) (lines : List (List Char)) :
    SameScopes (lines.foldl Scanner.push s) (lines.foldl Scanner.push t) := by
  induction lines generalizing s t with
  | nil => exact h
  | cons line lines ih => exact ih (h.push line)

/-- A line that is not passed over leaves a trace: the next binding is made a literal, a scope is
open, or the file has a name that does not depend on what stood in front. -/
theorem traces_of_lines (h : SameScopes s t) (lines : List (List Char)) :
    (∀ line ∈ lines, IsPassed line) ∨ (lines.foldl push s).literal = true ∨
      (lines.foldl push s).scopes ≠ [] ∨
      (lines.foldl push s).root = (lines.foldl push t).root := by
  induction lines using List.reverseRecOn with
  | nil => exact .inl nofun
  | append_singleton lines line ih =>
      have hsame := h.foldl_push lines
      simp only [List.foldl_append, List.foldl_cons, List.foldl_nil]
      by_cases hpassed : IsPassed line
      · rw [push_of_isPassed hpassed, push_of_isPassed hpassed]
        refine ih.imp_left fun hall ↦ ?_
        exact List.forall_mem_append.mpr ⟨hall, List.forall_mem_singleton.mpr hpassed⟩
      · right
        simp only [IsPassed, not_forall] at hpassed
        obtain ⟨code, hread, hnot⟩ := hpassed
        obtain ⟨hnone, -⟩ | ⟨other, hother, ⟨hempty, hpush⟩ | ⟨-, hpush⟩⟩ := push_cases line
        · cases hnone.symm.trans hread
        · cases hother.symm.trans hread
          left
          have hliteral : code.literal = true := by simpa [hempty] using hnot
          rw [hpush, hliteral, Bool.or_true]
        · cases hother.symm.trans hread
          right
          rw [hpush, hpush, pushCode_eq, pushCode_eq, hsame.owner_eq, hsame.literal]
          cases meaning ((lines.foldl push t).owner code.indent)
              ((lines.foldl push t).literal || code.literal) code.code with
          | root name => exact .inr rfl
          | scope scope initializes => exact .inl (List.cons_ne_nil _ _)

/-! ### A value behind the lines -/

theorem not_moduleLevel_iff {owner : Option Scope} : ¬ ModuleLevel owner ↔
    owner = some .expression ∨ ∃ name, owner = some (.typeBody name) := by
  constructor
  · intro h
    match owner with
    | none => exact absurd .file h
    | some (.moduleBody name) => exact absurd (.block name) h
    | some (.typeBody name) => exact .inr ⟨name, rfl⟩
    | some .expression => exact .inl rfl
  · rintro (rfl | ⟨name, rfl⟩) <;> nofun

theorem found_value {column : Nat} (h : ModuleLevel (s.owner column)) :
    ((valueLine column).lines.foldl push s).found =
      if s.literal then s.found else s.found ++ [(s.close column).path] := by
  have hliteral : (valueLine column).isLiteral = false := rfl
  have hmark : (valueLine column).mark.isSome = true := rfl
  rw [Line.foldl_push, (valueLine column).meaning_code h, hliteral, hmark]
  cases s.literal <;> rfl

theorem found_value_of_not {column : Nat} (h : ¬ ModuleLevel (s.owner column)) :
    ((valueLine column).lines.foldl push s).found = s.found := by
  have hcode : (valueLine column).code = "let x = 1".toList := rfl
  rw [Line.foldl_push]
  rcases not_moduleLevel_iff.mp h with howner | ⟨name, howner⟩
  · rw [howner, meaning_expression]
    rfl
  · have hfirst : (words "let x = 1".toList).head?.map String.ofList = some "let" := by
      decide +kernel
    rw [howner, hcode]
    generalize "let x = 1".toList = code at hfirst ⊢
    simp [meaning, hfirst]

theorem around_zero (s : Scanner) : s.around 0 = [] := by
  rw [Scanner.around, List.dropWhile_eq_nil_iff]
  exact fun scope _ ↦ decide_eq_true (Nat.zero_le scope.1)

theorem moduleLevel_zero (s : Scanner) : ModuleLevel (s.owner 0) := by
  rw [Scanner.owner, around_zero]
  exact .file

theorem path_close_zero (s : Scanner) : (s.close 0).path = s.root := by
  rw [path_close_eq, around_zero]
  exact String.intercalate_singleton

/-- What a value at a column adds to a scan that has found nothing. -/
theorem found_value_zero (hfound : s.found = []) :
    ((valueLine 0).lines.foldl push s).found = if s.literal then [] else [s.root] := by
  rw [found_value (moduleLevel_zero s), hfound, path_close_zero]
  rfl

/-- The path of a module inside of a file is not the name of a file. -/
theorem intercalate_ne_implicitModule (root : String) (names : List String) (name : String) :
    String.intercalate "+" (root :: (names ++ [name])) ≠ implicitModule := by
  have hplus : '+' ∈ (String.intercalate "+" (root :: (names ++ [name]))).toList := by
    cases names with
    | nil => simp [String.intercalate_cons_cons]
    | cons other more => simp [String.intercalate_cons_cons]
  intro heq
  rw [heq] at hplus
  revert hplus
  decide

/-- A value in an open scope is not taken for one of the file. -/
theorem found_value_ne {column : Nat} {scope : Scope} {outer : List (Nat × Scope)}
    (hscopes : s.scopes = (column, scope) :: outer) (hfound : s.found = []) :
    ((valueLine (column + 1)).lines.foldl push s).found ≠ [implicitModule] := by
  have haround : s.around (column + 1) = (column, scope) :: outer := by
    rw [Scanner.around, hscopes]
    simp
  have howner : s.owner (column + 1) = some scope := by rw [Scanner.owner, haround]; rfl
  by_cases hlevel : ModuleLevel (s.owner (column + 1))
  · rw [found_value hlevel, hfound]
    cases s.literal with
    | true => exact (List.cons_ne_nil _ _).symm
    | false =>
        obtain ⟨name, rfl⟩ : ∃ name, scope = .moduleBody name := by
          rw [howner] at hlevel
          cases hlevel with
          | block name => exact ⟨name, rfl⟩
        have hpath : (s.close (column + 1)).path =
            String.intercalate "+" (s.root :: (namesOf outer ++ [name])) := by
          rw [path_close_eq, haround, namesOf_cons]
          rfl
        intro heq
        have hname : (s.close (column + 1)).path = implicitModule := by simpa using heq
        rw [hpath] at hname
        exact intercalate_ne_implicitModule s.root (namesOf outer) name hname
  · rw [found_value_of_not hlevel, hfound]
    exact (List.cons_ne_nil _ _).symm

/-! ### Block comments in sources -/

theorem newline_not_mem_value (column : Nat) :
    ∀ line ∈ (valueLine column).lines, '\n' ∉ line := by
  have hlines : (valueLine column).lines =
      [(List.replicate column ' ' ++ []) ++ "let x = 1".toList] := rfl
  rw [hlines, List.forall_mem_singleton, List.append_nil, List.mem_append, not_or]
  refine ⟨fun hmem ↦ ?_, by decide⟩
  cases List.eq_of_mem_replicate hmem

theorem newline_not_mem_header : ∀ line ∈ headerLine.lines, '\n' ∉ line := by
  decide +kernel

theorem foldl_push_header : headerLine.lines.foldl push {} = { root := "M" } :=
  Source.foldl_header (.module headerLine)

section

variable (hhere : ∀ line ∈ here, '\n' ∉ line)
  (h : ∀ text other, AgreeOutside here [] text other → staticBindings text = staticBindings other)
include hhere h

/-- Some lines that leave what is found alone in every source do so between any lines. -/
theorem found_eq_of_agree {before after : List (List Char)} (hbefore : ∀ line ∈ before, '\n' ∉ line)
    (hafter : ∀ line ∈ after, '\n' ∉ line) :
    (after.foldl push (here.foldl push (before.foldl push {}))).found =
      (after.foldl push (before.foldl push {})).found := by
  have hall : ∀ line ∈ before ++ (here ++ after), '\n' ∉ line :=
    List.forall_mem_append.mpr ⟨hbefore, List.forall_mem_append.mpr ⟨hhere, hafter⟩⟩
  have hothers : ∀ line ∈ before ++ ([] ++ after), '\n' ∉ line :=
    List.forall_mem_append.mpr ⟨hbefore, hafter⟩
  have heq := h (ofLines (before ++ (here ++ after))) (ofLines (before ++ ([] ++ after)))
    ⟨before, after, lines_ofLines hall, lines_ofLines hothers⟩
  rw [staticBindings, staticBindings, lines_ofLines hall, lines_ofLines hothers] at heq
  simpa [List.foldl_append] using heq

theorem found_alone_of_agree : (here.foldl push {}).found = [] :=
  found_eq_of_agree hhere h (List.forall_mem_nil _) (List.forall_mem_nil _)

theorem found_value_of_agree (column : Nat) :
    ((valueLine column).lines.foldl push (here.foldl push {})).found = [implicitModule] := by
  refine (found_eq_of_agree hhere h (List.forall_mem_nil _) (newline_not_mem_value column)).trans ?_
  rw [List.foldl_nil, found_value (s := {}) .file]
  exact congrArg (fun name ↦ [name]) String.intercalate_singleton

theorem found_named_of_agree : (here.foldl push { root := "M" }).found = [] := by
  rw [← foldl_push_header]
  refine (found_eq_of_agree hhere h newline_not_mem_header (List.forall_mem_nil _)).trans ?_
  rw [foldl_push_header]
  rfl

theorem found_namedValue_of_agree :
    ((valueLine 0).lines.foldl push (here.foldl push { root := "M" })).found = ["M"] := by
  rw [← foldl_push_header]
  refine (found_eq_of_agree hhere h newline_not_mem_header (newline_not_mem_value 0)).trans ?_
  rw [foldl_push_header, found_value_zero rfl]
  rfl

/-- A file with a name keeps one that is not the name of a file without: a value behind the lines
tells them apart. -/
theorem root_ne_of_agree :
    (here.foldl push {}).root ≠ (here.foldl push { root := "M" }).root := by
  intro hroot
  have hfirst := found_value_of_agree hhere h 0
  have hnamed := found_namedValue_of_agree hhere h
  rw [found_value_zero (found_alone_of_agree hhere h), hroot] at hfirst
  rw [found_value_zero (found_named_of_agree hhere h)] at hnamed
  have himplicit : (here.foldl push { root := "M" }).root = implicitModule := by
    split at hfirst
    · cases hfirst
    · simpa using hfirst
  rw [himplicit] at hnamed
  split at hnamed
  · cases hnamed
  · exact absurd hnamed (by decide)

/-- Lines that leave what is found alone in every source are passed over, and so are others that
do the same.  Otherwise a value behind them is missing or has another path, in a file without a
name or in one with a name. -/
theorem isPassed_of_agree (hpush : ∀ s : Scanner, here.foldl push s = lines.foldl push s) :
    ∀ line ∈ lines, IsPassed line := by
  obtain hall | hliteral | hscopes | hroot :=
    traces_of_lines (s := {}) (t := { root := "M" }) ⟨rfl, rfl⟩ lines
  · exact hall
  · rw [← hpush] at hliteral
    have hfound := found_value_of_agree hhere h 0
    rw [found_value_zero (found_alone_of_agree hhere h), hliteral] at hfound
    cases hfound
  · rw [← hpush] at hscopes
    obtain ⟨⟨column, scope⟩, outer, hopen⟩ := List.exists_cons_of_ne_nil hscopes
    exact absurd (found_value_of_agree hhere h (column + 1))
      (found_value_ne hopen (found_alone_of_agree hhere h))
  · rw [← hpush, ← hpush] at hroot
    exact absurd hroot (root_ne_of_agree hhere h)

end

/-- Comments behind slashes never matter.  A block comment has the effect of its lines without the
first one, and it has none in any source exactly if each of these lines is passed over. -/
theorem comments_passed_over_iff (indent : Blanks) (inside : List Char) (comment : BlockComment) :
    (∀ text other, AgreeOutside [indent.text ++ ('/' :: '/' :: inside)] [] text other →
      staticBindings text = staticBindings other) ∧
    (∀ text other, AgreeOutside comment.lines comment.lines.tail text other →
      staticBindings text = staticBindings other) ∧
    ((∀ text other, AgreeOutside comment.lines [] text other →
      staticBindings text = staticBindings other) ↔
        ∀ line ∈ comment.lines.tail, IsPassed line) := by
  refine ⟨?_, ?_, ?_, ?_⟩
  · intro text other hagree
    apply hagree.staticBindings_eq
    exact push_of_isPassed (isPassed_comment indent inside)
  · intro text other hagree
    apply hagree.staticBindings_eq
    exact comment.foldl_push
  · intro hagree
    exact isPassed_of_agree (fun _ ↦ newline_not_mem_of_mem_lines) hagree comment.foldl_push
  · intro hpassed text other hagree
    apply hagree.staticBindings_eq
    intro s
    rw [comment.foldl_push, foldl_push_of_isPassed hpassed]
    rfl

def bindingComment : BlockComment where
  indent := spaces 0
  inside := "\nlet x = 1\n".toList
  after := spaces 0
  alone := by decide

/-- The binding in the comment is found. -/
theorem bindingComment_found :
    AgreeOutside bindingComment.lines [] "(*\nlet x = 1\n*)\nlet f x = x\n".toList
      "let f x = x\n".toList ∧
    staticBindings "(*\nlet x = 1\n*)\nlet f x = x\n".toList = ["Program"] ∧
    staticBindings "let f x = x\n".toList = [] := by
  refine ⟨⟨[], ["let f x = x".toList], ?_, ?_⟩, ?_, ?_⟩ <;> decide +kernel

end GuestGate.FSharp
