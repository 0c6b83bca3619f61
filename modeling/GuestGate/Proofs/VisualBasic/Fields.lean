import GuestGate.Proofs.Request.Gating
import GuestGate.Proofs.VisualBasic.Place

/-!
# Initialized fields

A field is initialized by an equals sign with a value behind it, or by `As New` with the type that
is created.  The scan looks for the equals sign only.
-/

namespace GuestGate.VisualBasic

open Text Scanner

inductive FieldInitializer
  | equals (value : Value)
  | asNew (asWord : List Char) (isAs : isKeyword asWord "As" = true) (gap : Gap)
      (newWord : List Char) (isNew : isKeyword newWord "New" = true) (apart : Gap)
      (creation : Value)

namespace FieldInitializer

def text : FieldInitializer → List Char
  | equals value => value.withEquals
  | asNew asWord _ gap newWord _ apart creation =>
      asWord ++ (gap.text ++ (newWord ++ (apart.text ++ creation.text)))

/-- Whether there is an equals sign in it, outside of strings.  One that creates an object has one
if arguments are named or properties are set. -/
def hasEquals : FieldInitializer → Bool
  | equals _ => true
  | asNew _ _ _ _ _ _ creation => assigns creation.text

end FieldInitializer

/-- A field with an initializer.  Its name is the word of the line, and whatever else is declared
stands behind it. -/
structure InitializedField extends Line where
  notReserved : isOneOf word.text reservedWords = false
  declared : Declared
  initializer : FieldInitializer
  tail_eq : tail = declared.text ++ initializer.text

theorem isCode_of_isKeyword {word : List Char} {keyword : String}
    (h : isKeyword word keyword = true) (hkeyword : keyword.toList.all Char.isAlpha = true) :
    isCode (· != '=') false word = true := by
  have hletters := isAlpha_of_isKeyword h hkeyword
  refine isCode_of_forall fun c hc ↦ ⟨?_, not_isCommentMark_of_isAlpha (hletters c hc), ?_⟩
  · exact ne_of_isAlpha (hletters c hc) (by decide)
  · exact bne_iff_ne.mpr (ne_of_isAlpha (hletters c hc) (by decide))

theorem FieldInitializer.hasInitializer_text (initializer : FieldInitializer) :
    hasInitializer false initializer.text = initializer.hasEquals := by
  cases initializer with
  | equals value => simp [text, Value.withEquals, hasInitializer, hasEquals]
  | asNew asWord isAs gap newWord isNew apart creation =>
      rw [text, hasInitializer_append (isCode_of_isKeyword isAs (by decide)),
        hasInitializer_append gap.isCode_text,
        hasInitializer_append (isCode_of_isKeyword isNew (by decide)),
        hasInitializer_append apart.isCode_text, hasInitializer_eq creation.isCode]
      rfl

namespace InitializedField

variable {kind : TypeBlock} (f : InitializedField) (place : Place kind)

theorem addsWithin_text (outside : kind ≠ .interfaceBlock) (hshared : f.isShared kind = true)
    (hvariable : f.has "Const" = false) :
    AddsWithin place.stack [f.text] (entryIf f.initializer.hasEquals place.types) := by
  have hfirst : isOneOf f.first reservedWords = false :=
    isOneOf_append (by decide) f.notReserved (head?_upToBlank f.apart)
  have htail : hasInitializer false f.tail = f.initializer.hasEquals := by
    rw [f.tail_eq, hasInitializer_append f.declared.isCode, f.initializer.hasInitializer_text]
  obtain ⟨name, outer, hname, hstack⟩ := place.exists_stack_eq
  intro u hu
  rw [hstack] at hu
  rw [← place.pathOf_stack, hstack, List.foldl_cons, List.foldl_nil,
    hu.push_unreserved hname outside f.toLine hfirst, hshared, hvariable, htail]
  exact hu.adds (.inl (recordIf_blocks _ _)) (hu.recordIf_found _)

/-- A shared field that is initialized, in a type at any depth, is found once if there is an equals
sign in its initializer, which one with `As New` may do without, and not at all if there is none.
A request for a machine code listing is turned away for each field that is found. -/
theorem found_iff (outside : kind ≠ .interfaceBlock) (hshared : f.isShared kind = true)
    (hvariable : f.has "Const" = false) (session : Session)
    (hlanguage : session.language = .visualBasic)
    (htext : Text.lines session.text.toList = place.fill [f.text]) :
    sharedInitializers session.text.toList =
      place.entries (entryIf f.initializer.hasEquals place.types) ∧
    (sharedInitializers session.text.toList = place.entries [String.intercalate "+" place.types] ↔
      f.initializer.hasEquals = true) ∧
    (f.initializer.hasEquals = true → session.cancelled = false →
      session.effectiveTarget = Target.machineCode →
      ∃ c : Construct, session.admit = .error (.notSupported c.render Target.machineCode)) := by
  have hfound := place.sharedInitializers_of_fill
    (f.addsWithin_text place outside hshared hvariable) htext
  refine ⟨hfound, ?_, fun hequals hopen htarget ↦ ?_⟩
  · rw [hfound, place.entries_injective.eq_iff]
    cases f.initializer.hasEquals <;> simp [entryIf]
  · rw [hequals] at hfound
    have hmem : String.intercalate "+" place.types ∈ sharedInitializers session.text.toList :=
      hfound ▸ place.mem_entries List.mem_cons_self
    have hconstruct : Construct.staticInitializer (String.intercalate "+" place.types) ∈
        session.constructs := by
      rw [Session.constructs, hlanguage]
      exact List.mem_map_of_mem hmem
    have hrefused : ¬ (Construct.staticInitializer (String.intercalate "+" place.types)).supportedBy
        session.effectiveTarget := by
      simp [htarget, Construct.supportedBy]
    obtain ⟨-, c, -, -, -, -, hadmit⟩ :=
      Session.admit_of_unsupported (by simp [hopen]) ⟨_, hconstruct, hrefused⟩
    exact ⟨c, htarget ▸ hadmit⟩

end InitializedField

/-! ### A field of a class -/

def classHead : NamedLine "Class" where
  toLine := plainLine [] (plainName "Class" (by decide)) " C".toList (by decide) (by decide)
  isKeyword := by decide
  gap := space
  name := plainName "C" (by decide)
  rest := []
  tail_eq := by decide
  ends := moduleHead.ends

def inClass : Place .classBlock :=
  .inSource .nil
    { head := classHead
      front := .nil
      back := .nil
      closing := endLine "Class" (by decide) (by decide) }
    .nil

def fieldSession (field : String) : Session :=
  { Session.start .visualBasic (Language.visualBasic.defaults {}) with
    text := "Class C\n" ++ field ++ "\nEnd Class\n"
    target := some Target.machineCode }

def sharedLine (tail : String)
    (htail : isCode (fun _ ↦ true) false tail.toList = true ∧
      tail.toList.head?.all (fun c ↦ !c.isAlpha) = true) : Line :=
  plainLine [⟨"Shared".toList, by decide, space⟩] (plainName "clock" (by decide)) tail.toList
    (by decide) htail

def assignedField : InitializedField where
  toLine := sharedLine " As Integer = 2" (by decide)
  notReserved := (by decide : isOneOf "clock".toList reservedWords = false)
  declared := ⟨" As Integer ".toList, by decide⟩
  initializer := .equals ⟨" 2".toList, by decide⟩
  tail_eq := by decide

def createdField : InitializedField where
  toLine := sharedLine " As New Clock()" (by decide)
  notReserved := (by decide : isOneOf "clock".toList reservedWords = false)
  declared := countField.declared
  initializer := .asNew "As".toList (by decide) space "New".toList (by decide) space
    ⟨"Clock()".toList, by decide⟩
  tail_eq := by decide

/-- A field with a value is found, and the request is turned away. -/
theorem assignedField_found :
    assignedField.isShared .classBlock = true ∧ assignedField.has "Const" = false ∧
    lines (fieldSession "Shared clock As Integer = 2").text.toList =
      inClass.fill [assignedField.text] ∧
    sharedInitializers (fieldSession "Shared clock As Integer = 2").text.toList =
      inClass.entries ["C"] ∧
    ∃ c : Construct, Session.admit (fieldSession "Shared clock As Integer = 2") =
      .error (.notSupported c.render Target.machineCode) := by
  have hshared : assignedField.isShared .classBlock = true := by decide
  have hvariable : assignedField.has "Const" = false := by decide
  have hlines : lines (fieldSession "Shared clock As Integer = 2").text.toList =
      inClass.fill [assignedField.text] := by decide +kernel
  obtain ⟨-, hiff, hrefused⟩ := assignedField.found_iff inClass (by decide) hshared hvariable
    (fieldSession "Shared clock As Integer = 2") rfl hlines
  exact ⟨hshared, hvariable, hlines, hiff.mpr rfl, hrefused rfl rfl rfl⟩

/-- A field that is created with `As New` is not found, and the request is admitted. -/
theorem createdField_hidden :
    createdField.isShared .classBlock = true ∧ createdField.has "Const" = false ∧
    lines (fieldSession "Shared clock As New Clock()").text.toList =
      inClass.fill [createdField.text] ∧
    sharedInitializers (fieldSession "Shared clock As New Clock()").text.toList = [] ∧
    (fieldSession "Shared clock As New Clock()").unsupported? = none := by
  refine ⟨by decide, by decide, ?_, ?_, ?_⟩ <;> decide +kernel

end GuestGate.VisualBasic
