import GuestGate.Proofs.FSharp.Scanning

/-!
# Paths of bindings

What is found in a source, against the bindings in it that run code on start and the modules and
types around them.
-/

namespace GuestGate.FSharp

open Text Scanner

/-! ### Small lines -/

def spaces (count : Nat) : Blanks where
  text := List.replicate count ' '
  blank := fun c hc ↦ by
    rw [List.eq_of_mem_replicate hc]
    decide

theorem byteLength_spaces (count : Nat) : byteLength (spaces count).text = count := by
  have hspace : String.utf8EncodeChar ' ' = [32] := by decide
  simp [spaces, byteLength, encode, List.flatMap_replicate, hspace]

def oneSpace : Gap where
  toBlanks := spaces 1
  nonempty := by decide

def noTrailing : Trailing where
  blanks := spaces 0
  comment := ⟨[], rfl⟩

/-- A line without attributes. -/
def lineAt (column : Nat) (front rest : List Char) (isCode : FSharp.isCode false front = true)
    (starts : front.head?.any (fun c ↦ !isBlank c && c != '[' && c != '(') = true)
    (ends : front.getLast?.any (fun c ↦ !isBlank c && c != '/') = true) : Line column where
  lead := []
  margin := ⟨spaces column, byteLength_spaces column, []⟩
  front := front
  rest := rest
  isCode := isCode
  starts := by cases front <;> simp_all
  ends := ends
  noAttribute := by
    cases front with
    | nil => cases starts
    | cons c more =>
        have hc : c ≠ '[' := by rintro rfl; simp at starts
        simp [List.isPrefixOf, hc.symm]
  noComment := by
    cases front with
    | nil => cases starts
    | cons c more =>
        have hc : c ≠ '(' := by rintro rfl; simp at starts
        simp [List.isPrefixOf, hc.symm]

def fileName : Name := ⟨['M'], by decide, by decide, by decide⟩

def blockName : Name := ⟨['X'], by decide, by decide, by decide⟩

def valueLine (column : Nat) : BindingLine column where
  toLine := lineAt column "let x =".toList " 1".toList (by decide) (by decide) (by decide)
  gap := oneSpace
  modifiers := []
  pattern := .name ['x'] (by decide) (by decide) (by decide)
  mark := some ⟨spaces 1, '=', .inl rfl⟩
  front_eq := rfl
  parameters := nofun

def functionLine (column : Nat) : BindingLine column where
  toLine := lineAt column "let f".toList " x = x".toList (by decide) (by decide) (by decide)
  gap := oneSpace
  modifiers := []
  pattern := .name ['f'] (by decide) (by decide) (by decide)
  mark := none
  front_eq := rfl
  parameters := fun _ ↦ by
    change (" x = x".toList.head?.all fun c ↦ !isIdentifierChar c) = true ∧
      ((trimStart " x = x".toList).head?.all fun c ↦ c != '=' && c != ':') = true
    decide

def headerLine : HeaderLine 0 where
  toLine := lineAt 0 "module M".toList [] (by decide) (by decide) (by decide)
  keyword := "module"
  isKeyword := by decide
  gap := oneSpace
  modifiers := []
  name := fileName
  after := []
  front_eq := rfl
  attached := rfl
  after_eq := rfl
  trailing := noTrailing
  rest_eq := rfl

def blockLine (column : Nat) : BlockLine column where
  toLine := lineAt column "module X =".toList [] (by decide) (by decide) (by decide)
  keyword := "module"
  isKeyword := by decide
  gap := oneSpace
  modifiers := []
  name := blockName
  after := " =".toList
  front_eq := rfl
  attached := rfl
  blanks := spaces 1
  after_eq := rfl
  trailing := noTrailing
  rest_eq := rfl

/-- A nested module with one value in it. -/
def block (column : Nat) (rest : Declarations column) : Declarations column :=
  .block (blockLine column) (Nat.lt_add_of_pos_right (by decide : 0 < 4))
    (.binding (valueLine (column + 4)) [] .nil) rest

/-! ### Bindings in modules -/

namespace Source

variable {text : List Char} {source : Source}

/-- Every value that is bound in a module and every static value of a type is found once, in the
order of the source.  Where they are indented under the line of a namespace, none is found. -/
theorem found_in_order (htext : Text.lines text = source.lines) :
    staticBindings text =
      (if source.isUnderNamespace then []
        else source.initializers.map (Initializer.foundPath · source.header.root)) ∧
    ((staticBindings text).length = source.initializers.length ↔
      source.isUnderNamespace = false ∨ source.initializers = []) := by
  cases hunder : source.isUnderNamespace with
  | true =>
      rw [staticBindings_underNamespace htext hunder]
      refine ⟨rfl, ?_⟩
      rw [List.length_nil, eq_comm, List.length_eq_zero_iff]
      simp
  | false =>
      rw [staticBindings_eq htext hunder]
      simp

end Source

/-- A function, and a value in a nested module. -/
def moduleSource : Source where
  header := .module headerLine
  column := 0
  declarations := .binding (functionLine 0) [] (block 0 .nil)

def moduleText : List Char :=
  "module M\nlet f x = x\nmodule X =\n    let x = 1\n".toList

theorem moduleText_found : Text.lines moduleText = moduleSource.lines ∧
    staticBindings moduleText = ["M+X"] := by
  have hlines : Text.lines moduleText = moduleSource.lines := by decide +kernel
  refine ⟨hlines, ?_⟩
  rw [(Source.found_in_order hlines).1]
  decide +kernel

def namespaceLine : NamespaceLine 0 where
  toLine := lineAt 0 "namespace".toList " N".toList (by decide) (by decide) (by decide)
  apart := by decide
  isNamespace := by decide +kernel

/-- A value in a nested module that is indented under a namespace. -/
def namespaceSource : Source where
  header := .inNamespace namespaceLine
  column := 4
  declarations := block 4 .nil

def namespaceText : List Char :=
  "namespace N\n    module X =\n        let x = 1\n".toList

/-- A value that is bound in a module under an indented namespace is not found. -/
theorem namespaceText_hidden : Text.lines namespaceText = namespaceSource.lines ∧
    namespaceSource.initializers.length = 1 ∧ staticBindings namespaceText = [] := by
  refine ⟨?_, ?_, ?_⟩ <;> decide +kernel

/-! ### Names of modules -/

theorem intercalate_cons_inj {separator a b : String} {names : List String} :
    String.intercalate separator (a :: names) = String.intercalate separator (b :: names) ↔
      a = b := by
  cases names with
  | nil => simp
  | cons name rest => simp [String.intercalate_cons_cons]

theorem Initializer.foundPath_eq_path_iff (i : Initializer) (root : String) :
    i.foundPath root = i.path root ↔ ∀ name ∈ i.above, name = root := by
  rw [foundPath, path, intercalate_cons_inj]
  cases habove : i.above <;> simp

/-- What is found has the path of the modules and types around it exactly if no abbreviation in
front of it has a name other than the one of the file. -/
theorem Source.found_paths_iff {text : List Char} {source : Source}
    (htext : Text.lines text = source.lines) (hunder : source.isUnderNamespace = false) :
    staticBindings text = source.paths ↔
      ∀ i ∈ source.initializers, ∀ name ∈ i.above, name = source.header.root := by
  rw [staticBindings_eq htext hunder, paths, List.map_inj_left]
  simp only [Initializer.foundPath_eq_path_iff]

def abbreviationLine : AbbreviationLine 0 where
  toLine := lineAt 0 "module A = B".toList [] (by decide) (by decide) (by decide)
  keyword := "module"
  isKeyword := by decide
  gap := oneSpace
  modifiers := []
  name := ⟨['A'], by decide, by decide, by decide⟩
  after := " = B".toList
  front_eq := rfl
  attached := by decide
  before := spaces 1
  behind := spaces 1
  target := ⟨['B'], by decide, by decide, by decide⟩
  after_eq := rfl
  trailing := noTrailing
  rest_eq := rfl

/-- A value in a nested module, and an abbreviation in front of it or behind it. -/
def abbreviationSource (inFront : Bool) : Source where
  header := .module headerLine
  column := 0
  declarations :=
    if inFront then .abbreviation abbreviationLine (block 0 .nil)
    else block 0 (.abbreviation abbreviationLine .nil)

def abbreviationText (inFront : Bool) : List Char :=
  if inFront then "module M\nmodule A = B\nmodule X =\n    let x = 1\n".toList
  else "module M\nmodule X =\n    let x = 1\nmodule A = B\n".toList

theorem abbreviation_behind :
    Text.lines (abbreviationText false) = (abbreviationSource false).lines ∧
    (abbreviationSource false).isUnderNamespace = false ∧
    staticBindings (abbreviationText false) = (abbreviationSource false).paths := by
  have hlines : Text.lines (abbreviationText false) = (abbreviationSource false).lines := by
    decide +kernel
  exact ⟨hlines, rfl, (Source.found_paths_iff hlines rfl).mpr (by decide +kernel)⟩

/-- The name of an abbreviation takes the place of the one of the file. -/
theorem abbreviation_in_front :
    Text.lines (abbreviationText true) = (abbreviationSource true).lines ∧
    (abbreviationSource true).paths = ["M+X"] ∧
    staticBindings (abbreviationText true) = ["A+X"] := by
  refine ⟨?_, ?_, ?_⟩ <;> decide +kernel

end GuestGate.FSharp
