import GuestGate.Proofs.VisualBasic.Bodies

/-!
# Places in a source

A place is where a member can stand, in a type at any depth, with everything that is declared in
front of it and behind it.  What is found there is put between what is found around, and neither
depends on the other.
-/

namespace GuestGate.VisualBasic

open Text Scanner

/-! ### Around a place -/

/-- What is declared in a type, members with statements of any kind in their bodies included. -/
inductive Siblings : TypeBlock → Type
  | nil {kind : TypeBlock} : Siblings kind
  | tree {kind : TypeBlock} (members : Members kind)
      (apart : ∀ accessor ∈ members.accessors, accessor.StandsApart) (rest : Siblings kind) :
      Siblings kind
  | bodied {kind : TypeBlock} (outside : kind ≠ .interfaceBlock) (m : BodiedMember)
      (rest : Siblings kind) : Siblings kind
  | type {kind : TypeBlock} (inner : TypeBlock) (head : NamedLine inner.keyword)
      (inside : Siblings inner) (closing : EndLine inner.keyword) (rest : Siblings kind) :
      Siblings kind

namespace Siblings

def lines {kind : TypeBlock} : Siblings kind → List (List Char)
  | nil => []
  | tree members _ rest => members.lines ++ rest.lines
  | bodied _ m rest => m.lines ++ rest.lines
  | type _ head inside closing rest =>
      (head.text :: (inside.lines ++ [closing.text])) ++ rest.lines

def entries {kind : TypeBlock} (types : List String) : Siblings kind → List String
  | nil => []
  | tree members _ rest => members.initializers types ++ rest.entries types
  | bodied _ m rest => m.entries kind types ++ rest.entries types
  | type _ head inside _ rest => inside.entries (types ++ [head.typeName]) ++ rest.entries types

end Siblings

/-- What is declared outside of types, with the first and last lines of namespaces. -/
inductive TopLevel
  | nil
  | tree (source : Source) (apart : ∀ accessor ∈ source.accessors, accessor.StandsApart)
      (rest : TopLevel)
  | opensNamespace (head : NamedLine "Namespace") (rest : TopLevel)
  | closesNamespace (closing : EndLine "Namespace") (rest : TopLevel)
  | type (kind : TypeBlock) (head : NamedLine kind.keyword) (inside : Siblings kind)
      (closing : EndLine kind.keyword) (rest : TopLevel)

namespace TopLevel

def lines : TopLevel → List (List Char)
  | nil => []
  | tree source _ rest => source.lines ++ rest.lines
  | opensNamespace head rest => head.text :: rest.lines
  | closesNamespace closing rest => closing.text :: rest.lines
  | type _ head inside closing rest =>
      (head.text :: (inside.lines ++ [closing.text])) ++ rest.lines

def entries : TopLevel → List String
  | nil => []
  | tree source _ rest => source.initializers ++ rest.entries
  | opensNamespace _ rest | closesNamespace _ rest => rest.entries
  | type _ head inside _ rest => inside.entries [head.typeName] ++ rest.entries

end TopLevel

/-- A type with a place in it. -/
structure Shell (kind : TypeBlock) where
  head : NamedLine kind.keyword
  front : Siblings kind
  back : Siblings kind
  closing : EndLine kind.keyword

namespace Shell

variable {kind : TypeBlock} (shell : Shell kind)

def fill (inside : List (List Char)) : List (List Char) :=
  shell.head.text :: ((shell.front.lines ++ (inside ++ shell.back.lines)) ++ [shell.closing.text])

def entries (types inside : List String) : List String :=
  shell.front.entries types ++ (inside ++ shell.back.entries types)

end Shell

inductive Place : TypeBlock → Type
  | inSource {kind : TypeBlock} (before : TopLevel) (shell : Shell kind) (after : TopLevel) :
      Place kind
  | inType {outer kind : TypeBlock} (place : Place outer) (shell : Shell kind) : Place kind

namespace Place

def stack {kind : TypeBlock} : Place kind → List (List Char × TypeBlock)
  | inSource _ shell _ => [(shell.head.name.text, kind)]
  | inType place shell => (shell.head.name.text, kind) :: place.stack

def types {kind : TypeBlock} : Place kind → List String
  | inSource _ shell _ => [shell.head.typeName]
  | inType place shell => place.types ++ [shell.head.typeName]

/-- The lines of the source with some lines at the place. -/
def fill {kind : TypeBlock} : Place kind → List (List Char) → List (List Char)
  | inSource before shell after, inside => before.lines ++ (shell.fill inside ++ after.lines)
  | inType place shell, inside => place.fill (shell.fill inside)

def entries {kind : TypeBlock} : Place kind → List String → List String
  | inSource before shell after, inside =>
      before.entries ++ (shell.entries [shell.head.typeName] inside ++ after.entries)
  | inType place shell, inside =>
      place.entries (shell.entries (place.types ++ [shell.head.typeName]) inside)

end Place

/-! ### Reading -/

variable {s : Scanner} {name : List Char} {kind : TypeBlock}
  {stack : List (List Char × TypeBlock)} {inside : List (List Char)} {entries : List String}

theorem Siblings.adds_lines (siblings : Siblings kind) (h : s.Within ((name, kind) :: stack))
    (hname : name ≠ []) :
    s.Adds (siblings.lines.foldl push s) (siblings.entries (pathOf ((name, kind) :: stack))) := by
  induction siblings generalizing s name stack with
  | nil => exact .refl s
  | tree members apart rest ih =>
      have hmembers := members.adds_lines h hname apart
      rw [lines, List.foldl_append]
      exact hmembers.append (ih (hmembers.within h) hname)
  | bodied outside m rest ih =>
      have hmember := m.adds_lines h hname outside
      rw [lines, List.foldl_append]
      exact hmember.append (ih (hmember.within h) hname)
  | @type outer inner head inside closing rest ihInside ihRest =>
      have htype := adds_type h inner head closing fun u hu ↦
        pathOf_cons head.name.text inner ((name, outer) :: stack) ▸ ihInside hu head.name.nonempty
      rw [lines, List.foldl_append]
      exact htype.append (ihRest (htype.within h) hname)

theorem TopLevel.adds_lines (top : TopLevel) (h : s.Within []) :
    s.Adds (top.lines.foldl push s) top.entries := by
  induction top generalizing s with
  | nil => exact .refl s
  | tree source apart rest ih =>
      have hsource := source.adds_lines h apart
      rw [lines, List.foldl_append]
      exact hsource.append (ih (hsource.within h))
  | opensNamespace head rest ih =>
      rw [lines, List.foldl_cons, Source.push_namespace h]
      exact h.adds_settle.append (ih (h.adds_settle.within h))
  | closesNamespace closing rest ih =>
      rw [lines, List.foldl_cons, h.push_endNamespace]
      exact h.adds_settle.append (ih (h.adds_settle.within h))
  | type kind head inside closing rest ih =>
      have htype := adds_type h kind head closing fun u hu ↦
        inside.adds_lines hu head.name.nonempty
      rw [lines, List.foldl_append]
      exact htype.append (ih (htype.within h))

/-- What the scan does with some lines wherever it stands directly in some types. -/
def AddsWithin (stack : List (List Char × TypeBlock)) (inside : List (List Char))
    (entries : List String) : Prop :=
  ∀ u : Scanner, u.Within stack → u.Adds (inside.foldl push u) entries

theorem Shell.addsWithin_fill (shell : Shell kind)
    (h : AddsWithin ((shell.head.name.text, kind) :: stack) inside entries) :
    AddsWithin stack (shell.fill inside)
      (shell.entries (pathOf ((shell.head.name.text, kind) :: stack)) entries) := by
  intro u hu
  refine adds_type hu kind shell.head shell.closing fun v hv ↦ ?_
  have hfront := shell.front.adds_lines hv shell.head.name.nonempty
  have hinside := hfront.append (h _ (hfront.within hv))
  have hback := shell.back.adds_lines (hinside.within hv) shell.head.name.nonempty
  rw [List.foldl_append, List.foldl_append, Shell.entries, ← List.append_assoc]
  exact hinside.append hback

namespace Place

theorem pathOf_stack (place : Place kind) : pathOf place.stack = place.types := by
  induction place with
  | inSource before shell after => rfl
  | inType place shell ih => rw [stack, pathOf_cons, ih]; rfl

theorem exists_stack_eq (place : Place kind) :
    ∃ name outer, name ≠ [] ∧ place.stack = (name, kind) :: outer := by
  cases place with
  | inSource before shell after => exact ⟨_, _, shell.head.name.nonempty, rfl⟩
  | inType place shell => exact ⟨_, _, shell.head.name.nonempty, rfl⟩

theorem adds_fill (place : Place kind) (h : AddsWithin place.stack inside entries)
    (hs : s.Within []) : s.Adds ((place.fill inside).foldl push s) (place.entries entries) := by
  induction place generalizing inside entries with
  | inSource before shell after =>
      have hbefore := before.adds_lines hs
      have hshell := hbefore.append (shell.addsWithin_fill h _ (hbefore.within hs))
      have hafter := after.adds_lines (hshell.within hs)
      rw [fill, List.foldl_append, List.foldl_append, Place.entries, ← List.append_assoc]
      exact hshell.append hafter
  | inType place shell ih =>
      have hshell := shell.addsWithin_fill h
      rw [← stack, (inType place shell).pathOf_stack] at hshell
      exact ih hshell

/-- The scan of a source finds at a place what is there for a scan that stands in the types around
it. -/
theorem sharedInitializers_of_fill (place : Place kind) {text : List Char}
    (h : AddsWithin place.stack inside entries) (htext : Text.lines text = place.fill inside) :
    sharedInitializers text = place.entries entries := by
  have hadds := place.adds_fill (s := {}) h rfl
  rw [sharedInitializers, htext]
  exact hadds.found

theorem entries_injective (place : Place kind) : Function.Injective place.entries := by
  induction place with
  | inSource before shell after =>
      intro a b hab
      simpa [Place.entries, Shell.entries] using hab
  | inType place shell ih =>
      intro a b hab
      simpa [Shell.entries] using ih hab

theorem mem_entries (place : Place kind) {entry : String} (h : entry ∈ entries) :
    entry ∈ place.entries entries := by
  induction place generalizing entries with
  | inSource before shell after => simp [Place.entries, Shell.entries, h]
  | inType place shell ih => exact ih (by simp [Shell.entries, h])

end Place

/-! ### Members with a body -/

theorem entryIf_eq_nil_iff {condition : Bool} {types : List String} :
    entryIf condition types = [] ↔ condition = false := by
  cases condition <;> simp [entryIf]

namespace BodiedMember

variable (m : BodiedMember) (place : Place kind)

theorem addsWithin_lines (outside : kind ≠ .interfaceBlock) :
    AddsWithin place.stack m.lines (m.entries kind place.types) := by
  obtain ⟨name, outer, hname, hstack⟩ := place.exists_stack_eq
  intro u hu
  rw [hstack] at hu
  rw [← place.pathOf_stack, hstack]
  exact m.adds_lines hu hname outside

theorem addsWithin_emptied (outside : kind ≠ .interfaceBlock) :
    AddsWithin place.stack m.emptied (entryIf (m.initializes kind) place.types) := by
  obtain ⟨name, outer, hname, hstack⟩ := place.exists_stack_eq
  intro u hu
  rw [hstack] at hu
  rw [← place.pathOf_stack, hstack]
  exact m.adds_emptied hu hname outside

/-- What is found for a member with a body is the member itself, if it is a shared constructor,
and the statements that are taken for initializers behind the first line that ends the body for
the scan.  So the source is scanned as if the body were empty exactly if there are none of these. -/
theorem opaque_iff (outside : kind ≠ .interfaceBlock) {text emptied : List Char}
    (htext : Text.lines text = place.fill m.lines)
    (hemptied : Text.lines emptied = place.fill m.emptied) :
    sharedInitializers text = place.entries (m.entries kind place.types) ∧
    (sharedInitializers text = sharedInitializers emptied ↔
      ∀ statement ∈ m.exposed, statement.initializes kind = false) := by
  have hfound := place.sharedInitializers_of_fill (m.addsWithin_lines place outside) htext
  refine ⟨hfound, ?_⟩
  rw [hfound, place.sharedInitializers_of_fill (m.addsWithin_emptied place outside) hemptied,
    place.entries_injective.eq_iff, BodiedMember.entries, List.append_right_eq_self,
    List.flatMap_eq_nil_iff]
  simp only [entryIf_eq_nil_iff]

end BodiedMember

/-! ### A lambda in a body -/

def lambdaText (statement : String) : List Char :=
  "Module M\nSub Run()\nDim f = Sub()\nGo()\nEnd Sub\n".toList ++ (statement.toList ++
    "\nEnd Sub\nDim count = 1\nEnd Module\n".toList)

def emptiedText : List Char :=
  "Module M\nSub Run()\nEnd Sub\nDim count = 1\nEnd Module\n".toList

def runHead : NamedLine "Sub" where
  toLine := plainLine [] (plainName "Sub" (by decide)) " Run()".toList (by decide) (by decide)
  isKeyword := by decide
  gap := space
  name := plainName "Run" (by decide)
  rest := "()".toList
  tail_eq := by decide
  ends := by decide

def callStatement : Line :=
  plainLine [] (plainName "Done" (by decide)) "()".toList (by decide) (by decide)

def assignment : Line :=
  plainLine [] (plainName "total" (by decide)) " = 2".toList (by decide) (by decide)

def lambdaSub (statement : Line) (h : isOneOf statement.first reservedWords = false) :
    BodiedMember :=
  .opened (.procedure .sub (by decide) runHead (by decide))
    { passed := ["Dim f = Sub()".toList, "Go()".toList]
      inside := by decide +kernel
      remainder := some ⟨"End Sub".toList, by decide +kernel, [.plain statement h]⟩ }
    (endLine "Sub" (by decide) (by decide))

theorem moduleBlock_ne : TypeBlock.moduleBlock ≠ .interfaceBlock :=
  nofun

def inModule : Place .moduleBlock :=
  .inSource .nil
    { head := moduleHead
      front := .nil
      back := .tree (.member moduleBlock_ne (.field countField) .nil)
        (by simp [Members.accessors, Member.accessor?]) .nil
      closing := moduleEnd }
    .nil

/-- A call behind a lambda is passed over like the rest of the body. -/
theorem lambda_passed : TypeBlock.moduleBlock ≠ .interfaceBlock ∧
    lines (lambdaText "Done()") = inModule.fill (lambdaSub callStatement (by decide)).lines ∧
    lines emptiedText = inModule.fill (lambdaSub callStatement (by decide)).emptied ∧
    sharedInitializers (lambdaText "Done()") = sharedInitializers emptiedText := by
  have hlines : lines (lambdaText "Done()") =
      inModule.fill (lambdaSub callStatement (by decide)).lines := by decide +kernel
  have hemptied : lines emptiedText =
      inModule.fill (lambdaSub callStatement (by decide)).emptied := by decide +kernel
  refine ⟨moduleBlock_ne, hlines, hemptied, ?_⟩
  apply (BodiedMember.opaque_iff _ _ moduleBlock_ne hlines hemptied).2.mpr
  intro statement hstatement
  rw [List.mem_singleton.mp hstatement]
  decide

/-- An assignment behind a lambda is taken for a field of the module. -/
theorem lambda_exposes :
    lines (lambdaText "total = 2") = inModule.fill (lambdaSub assignment (by decide)).lines ∧
    lines emptiedText = inModule.fill (lambdaSub assignment (by decide)).emptied ∧
    sharedInitializers (lambdaText "total = 2") = ["M", "M"] ∧
    sharedInitializers emptiedText = ["M"] := by
  refine ⟨?_, ?_, ?_, ?_⟩ <;> decide +kernel

end GuestGate.VisualBasic
