import GuestGate.Proofs.Text.Slicing
import GuestGate.Proofs.VisualBasic.Reading

/-!
# Lines and words by offset

The scan of Visual Basic sources with its accesses spelled out: a line is cut at the byte offsets
at which its comment and its attributes end, and its words behind the modifiers.  None of this is a
fault, whatever the line, and the initializers are the same.
-/

namespace GuestGate.VisualBasic.Checked

open GuestGate.Checked Text

variable {code line : List Char} {inString : Bool}

/-! ### Lines -/

/-- The offset of the mark that begins a comment. -/
def commentOffset? : Bool → List (Nat × Char) → Option Nat
  | _, [] => none
  | inString, (offset, c) :: rest =>
      if c = '"' then commentOffset? (!inString) rest
      else if !inString && isCommentMark c then some offset
      else commentOffset? inString rest

def stripComment (line : List Char) : Except Fault (List Char) :=
  textUpTo line ((commentOffset? false (offsetsFrom 0 line)).getD (byteLength line))

/-- The comment is looked for behind a text, and the cut is where it begins. -/
theorem textUpTo_comment (inString : Bool) (front rest : List Char) :
    textUpTo (front ++ rest)
      ((commentOffset? inString (offsetsFrom (byteLength front) rest)).getD
        (byteLength (front ++ rest))) =
      .ok (front ++ VisualBasic.stripComment inString rest) := by
  induction rest generalizing front inString with
  | nil =>
      have hwhole := textUpTo_append front []
      rw [List.append_nil] at hwhole ⊢
      exact hwhole.trans (congrArg Except.ok (List.append_nil front).symm)
  | cons c rest ih =>
      have hnext (inString : Bool) := ih inString (front ++ [c])
      rw [byteLength_append, byteLength_cons, byteLength_nil, Nat.add_zero] at hnext
      simp only [← List.append_cons] at hnext
      rw [offsetsFrom, commentOffset?, VisualBasic.stripComment]
      split
      · exact hnext (!inString)
      split
      · rw [Option.getD_some, textUpTo_append, List.append_nil]
      · exact hnext inString

theorem stripComment_eq (line : List Char) :
    stripComment line = .ok (VisualBasic.stripComment false line) :=
  textUpTo_comment false [] line

def dropAttributes (code : List Char) : Except Fault (List Char) :=
  if code.head? = some '<' then
    match find? ['>'] code with
    | none => .ok []
    | some close =>
        pbind (textFrom code (close + 1)) fun rest _hrest ↦ dropAttributes (trimStart rest)
  else .ok code
termination_by code.length
decreasing_by
  have hlt := (length_of_textFrom _hrest).2 (Nat.succ_pos close)
  have htrim := length_trimStart_le rest
  omega

def codeOf (line : List Char) : Except Fault (List Char) := do
  let code ← stripComment line
  if isRemark (trim code) then .ok [] else dropAttributes (trim code)

theorem dropAttributes_eq (code : List Char) :
    dropAttributes code = .ok (VisualBasic.dropAttributes code) := by
  have hmark (inside : List Char) : ('<' :: inside).head? = some '<' := rfl
  fun_induction VisualBasic.dropAttributes code with
  | case1 inside hcut =>
      have hfind : find? ['>'] ('<' :: inside) = none := by
        rw [find?, cut_cons_of_ne (by decide), hcut]
        rfl
      rw [dropAttributes, if_pos (hmark inside), hfind]
  | case2 inside before rest hcut ih =>
      have hfind : find? ['>'] ('<' :: inside) = some (byteLength ('<' :: before)) := by
        rw [find?, cut_cons_of_ne (by decide), hcut]
        rfl
      have hrest : textFrom ('<' :: inside) (byteLength ('<' :: before) + 1) = .ok rest := by
        have htext : '<' :: inside = ('<' :: before ++ ['>']) ++ rest := by
          rw [← append_of_cut hcut]
          rfl
        have hlength : byteLength ('<' :: before) + 1 = byteLength ('<' :: before ++ ['>']) := by
          rw [byteLength_append]
          rfl
        rw [htext, hlength, textFrom_append]
      rw [dropAttributes, if_pos (hmark inside), hfind]
      dsimp only
      rw [pbind_of_eq_ok hrest, ih]
  | case3 code hcode =>
      have hhead : ¬ code.head? = some '<' := by
        intro hhead
        obtain ⟨inside, rfl⟩ := List.head?_eq_some_iff.mp hhead
        exact hcode inside rfl
      rw [dropAttributes, if_neg hhead]

theorem codeOf_eq (line : List Char) : codeOf line = .ok (VisualBasic.codeOf line) := by
  rw [codeOf, stripComment_eq, ok_bind, dropAttributes_eq, VisualBasic.codeOf]
  split <;> rfl

/-! ### Words -/

/-- A declaration, whose words are parted behind its modifiers. -/
def pushDeclaration (s : Scanner) (code : List Char) (words : List (List Char)) :
    Except Fault Scanner := do
  let split := words.findIdx fun word ↦ !isOneOf word modifiers
  let front ← upTo words split
  let rest ← onward words split
  match rest with
  | [] => .ok s
  | keyword :: rest =>
      match TypeBlock.ofWord? keyword with
      | some kind => .ok (s.openBlock (.type (beforeParenthesis (rest.head?.getD [])) kind))
      | none =>
          if s.typePath = "" ∨ s.isInside .interfaceBlock then .ok s
          else .ok (s.pushMember code front keyword rest)

def pushOutside (s : Scanner) (code : List Char) (words : List (List Char)) :
    Except Fault Scanner :=
  if words.head?.any (isKeyword · "End") then .ok (s.pushEnd words)
  else pushDeclaration s code words

def push (s : Scanner) (line : List Char) : Except Fault Scanner := do
  let code ← codeOf line
  let words := words code
  if words.isEmpty then .ok s
  else
    match s.blocks with
    | .body kind :: _ => .ok (s.pushInBody kind words)
    | .propertyHeader :: _ =>
        let s := s.closeBlock
        if Scanner.startsAccessor words then .ok (s.openBlock (.body .property))
        else pushOutside s code words
    | _ => pushOutside s code words

def sharedInitializers (text : List Char) : Except Fault (List String) := do
  let s ← (lines text).foldlM push {}
  .ok s.found

theorem pushDeclaration_eq (s : Scanner) (code : List Char) (words : List (List Char)) :
    pushDeclaration s code words = .ok (s.pushDeclaration code words) := by
  have hle : words.findIdx (fun word ↦ !isOneOf word modifiers) ≤ words.length :=
    List.findIdx_le_length
  have hfront : words.takeWhile (fun word ↦ isOneOf word modifiers) =
      words.take (words.findIdx fun word ↦ !isOneOf word modifiers) :=
    List.takeWhile_eq_take_findIdx_not
  have hrest : words.dropWhile (fun word ↦ isOneOf word modifiers) =
      words.drop (words.findIdx fun word ↦ !isOneOf word modifiers) :=
    List.dropWhile_eq_drop_findIdx_not
  rw [pushDeclaration, Scanner.pushDeclaration, upTo_of_le hle, ok_bind, onward_of_le hle, ok_bind,
    hfront, hrest]
  cases words.drop (words.findIdx fun word ↦ !isOneOf word modifiers) with
  | nil => rfl
  | cons keyword rest =>
      dsimp only
      cases TypeBlock.ofWord? keyword with
      | some kind => rfl
      | none =>
          dsimp only
          split <;> rfl

theorem pushOutside_eq (s : Scanner) (code : List Char) (words : List (List Char)) :
    pushOutside s code words = .ok (s.pushOutside code words) := by
  unfold pushOutside Scanner.pushOutside
  split
  · rfl
  · exact pushDeclaration_eq s code words

theorem push_eq (s : Scanner) (line : List Char) : push s line = .ok (s.push line) := by
  rw [push, codeOf_eq, ok_bind, Scanner.push]
  dsimp only
  split
  · rfl
  cases s.blocks with
  | nil => exact pushOutside_eq _ _ _
  | cons block outer =>
      cases block with
      | type name kind => exact pushOutside_eq _ _ _
      | body kind => rfl
      | propertyHeader =>
          dsimp only
          split
          · rfl
          · exact pushOutside_eq _ _ _

theorem sharedInitializers_eq (text : List Char) :
    sharedInitializers text = .ok (VisualBasic.sharedInitializers text) := by
  have hpush : push = fun s line ↦ pure (s.push line) := by
    funext s line
    exact push_eq s line
  rw [sharedInitializers, hpush, List.foldlM_pure]
  rfl

end GuestGate.VisualBasic.Checked
