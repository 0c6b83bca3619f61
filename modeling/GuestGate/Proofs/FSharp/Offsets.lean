import GuestGate.Proofs.FSharp.Reading
import GuestGate.Proofs.Text.Slicing

/-!
# Lines by offset

The scan of F# sources with its accesses spelled out.  A line is cut at the byte offsets at which
comments, attributes and patterns end, indentation is a difference of lengths, and the parentheses
of a pattern are counted up and down.  None of this is a fault, whatever the line, and the bindings
are the same.
-/

namespace GuestGate.FSharp.Checked

open GuestGate.Checked Text

variable {a line rest text : List Char} {inString : Bool} {previous : Char} {depth : Nat}

/-! ### Comments -/

/-- A line up to its comment, which is known by its second slash. -/
def beforeComment (line : List Char) : Bool → Char → List (Nat × Char) → Except Fault (List Char)
  | _, _, [] => .ok line
  | inString, previous, (offset, c) :: rest =>
      if c = '/' ∧ previous = '/' ∧ inString = false then do
        let last ← minus offset 1
        textUpTo line last
      else beforeComment line (if c = '"' then !inString else inString) c rest

def stripComment (line : List Char) : Except Fault (List Char) :=
  beforeComment line false ' ' (offsetsFrom 0 line)

/-- The search goes on behind a text, unless that ends with the first slash of a comment. -/
theorem beforeComment_eq (front rest : List Char)
    (h : ¬ (rest.head? = some '/' ∧ previous = '/' ∧ inString = false)) :
    beforeComment (front ++ rest) inString previous (offsetsFrom (byteLength front) rest) =
      .ok (front ++ FSharp.stripComment inString rest) := by
  induction rest generalizing front inString previous with
  | nil => rfl
  | cons c rest ih =>
      have hhere : ¬ (c = '/' ∧ previous = '/' ∧ inString = false) := by
        rintro ⟨rfl, hbefore⟩
        exact h ⟨rfl, hbefore⟩
      rw [offsetsFrom, beforeComment, if_neg hhere, FSharp.stripComment]
      by_cases hcomment : rest.head? = some '/' ∧ c = '/' ∧ inString = false
      · obtain ⟨hhead, rfl, rfl⟩ := hcomment
        obtain ⟨more, rfl⟩ := List.head?_eq_some_iff.mp hhead
        have hlast : minus (byteLength front + Char.utf8Size '/') 1 = .ok (byteLength front) :=
          minus_of_le (Nat.le_add_left 1 _)
        simp only [Char.reduceEq, if_false]
        rw [offsetsFrom, beforeComment, if_pos ⟨rfl, rfl, rfl⟩, hlast, ok_bind, textUpTo_append]
        simp
      · have hrest : ¬ (rest.head? = some '/' ∧ c = '/' ∧
            (if c = '"' then !inString else inString) = false) := by
          rintro ⟨hhead, rfl, hout⟩
          exact hcomment ⟨hhead, rfl, hout⟩
        have hopen : (!inString && c == '/' && rest.head? == some '/') = false := by
          rw [Bool.eq_false_iff]
          intro hstart
          simp only [Bool.and_eq_true, Bool.not_eq_true', beq_iff_eq] at hstart
          exact hcomment ⟨hstart.2, hstart.1.2, hstart.1.1⟩
        have hnext := ih (front ++ [c]) hrest
        rw [← List.append_cons, byteLength_append] at hnext
        rw [hopen]
        simpa [byteLength_cons] using hnext

theorem stripComment_eq (line : List Char) :
    stripComment line = .ok (FSharp.stripComment false line) :=
  beforeComment_eq [] line fun h ↦ absurd h.2.1 (by decide)

/-! ### Attributes -/

def takeAttributes (code : List Char) : Except Fault (Bool × List Char) :=
  match _hopen : afterPrefix? ['[', '<'] code with
  | none => .ok (false, code)
  | some inside =>
      match find? ['>', ']'] inside with
      | none => .ok (false, code)
      | some close =>
          pbind (textFrom inside (close + 2)) fun rest _hrest ↦ do
            let inner ← textUpTo inside close
            let next ← takeAttributes (trimStart rest)
            .ok (occurs "Literal".toList inner || next.1, next.2)
termination_by code.length
decreasing_by
  have hinside := length_of_afterPrefix? _hopen
  have hle := (length_of_textFrom _hrest).1
  have htrim := length_trimStart_le rest
  simp only [List.length_cons, List.length_nil] at hinside
  omega

theorem takeAttributes_eq (code : List Char) :
    takeAttributes code = .ok (FSharp.takeAttributes code) := by
  fun_induction FSharp.takeAttributes code with
  | case1 code hopen =>
      rw [takeAttributes]
      split
      · rfl
      · next hinside =>
          rw [hopen] at hinside
          cases hinside
  | case2 code inside hopen hcut =>
      rw [takeAttributes]
      split
      · rfl
      · next hinside =>
          rw [hopen] at hinside
          cases hinside
          rw [find?, hcut]
          rfl
  | case3 code inside hopen inner rest hcut next ih =>
      have htext := append_of_cut hcut
      have hinner : textUpTo inside (byteLength inner) = .ok inner := by
        rw [← htext, List.append_assoc, textUpTo_append]
      have hrest : textFrom inside (byteLength inner + 2) = .ok rest := by
        have hlength : byteLength inner + 2 = byteLength (inner ++ ['>', ']']) := by
          rw [byteLength_append]
          rfl
        rw [← htext, hlength, textFrom_append]
      rw [takeAttributes]
      split
      · next hnone =>
          rw [hopen] at hnone
          cases hnone
      · next hinside =>
          rw [hopen] at hinside
          cases hinside
          have hfind : find? ['>', ']'] inside = some (byteLength inner) := by
            rw [find?, hcut]
            rfl
          rw [hfind]
          dsimp only
          rw [pbind_of_eq_ok hrest, hinner, ok_bind, ih]
          rfl

/-- Where attributes are taken off, blanks are as well. -/
theorem head?_takeAttributes {code : List Char}
    (h : code.head?.all (fun c ↦ !isBlank c) = true) :
    (FSharp.takeAttributes code).2.head?.all (fun c ↦ !isBlank c) = true := by
  fun_induction FSharp.takeAttributes code with
  | case1 => exact h
  | case2 => exact h
  | case3 code inside hopen inner rest hcut next ih => exact ih (head?_trimStart rest)

/-! ### Patterns -/

def modifierOf? (text : List Char) : Option String :=
  bindingModifiers.find? fun modifier ↦
    (afterPrefix? modifier.toList text).any fun rest ↦ rest.head?.any isBlank

theorem byteLength_pos_of_modifierOf? {modifier : String} (h : modifierOf? text = some modifier) :
    0 < byteLength modifier.toList := by
  have hpos : ∀ word ∈ bindingModifiers, 0 < byteLength word.toList := by decide
  exact hpos modifier (List.mem_of_find?_eq_some h)

def dropModifiers (text : List Char) : Except Fault (List Char) :=
  match _hmodifier : modifierOf? text with
  | none => .ok text
  | some modifier =>
      pbind (textFrom text (byteLength modifier.toList)) fun rest _hrest ↦
        dropModifiers (trimStart rest)
termination_by text.length
decreasing_by
  have hlt := (length_of_textFrom _hrest).2 (byteLength_pos_of_modifierOf? _hmodifier)
  have htrim := length_trimStart_le rest
  omega

theorem findSome?_filter {α β : Type} (f : α → Option β) (p : β → Bool) (l : List α) :
    l.findSome? (fun a ↦ (f a).filter p) = (l.find? fun a ↦ (f a).any p).bind f := by
  induction l with
  | nil => rfl
  | cons a l ih =>
      rw [List.findSome?_cons, List.find?_cons, ih]
      cases hf : f a with
      | none => rfl
      | some b => cases hp : p b <;> simp [hp, hf, Option.filter_some]

theorem modifierOf?_cases (text : List Char) :
    (modifierOf? text = none ∧ afterModifier? text = none) ∨
    ∃ modifier rest, modifierOf? text = some modifier ∧ text = modifier.toList ++ rest ∧
      afterModifier? text = some rest := by
  have hafter : afterModifier? text =
      (modifierOf? text).bind fun modifier ↦ afterPrefix? modifier.toList text :=
    findSome?_filter _ _ _
  cases hmodifier : modifierOf? text with
  | none =>
      rw [hmodifier] at hafter
      exact .inl ⟨rfl, hafter⟩
  | some modifier =>
      rw [hmodifier, Option.bind_some] at hafter
      have hfound := List.find?_some hmodifier
      cases hrest : afterPrefix? modifier.toList text with
      | none =>
          rw [hrest] at hfound
          cases hfound
      | some rest =>
          rw [hrest] at hafter
          exact .inr ⟨modifier, rest, rfl, (append_of_afterPrefix? hrest).symm, hafter⟩

theorem dropModifiers_eq (text : List Char) :
    dropModifiers text = .ok (FSharp.dropModifiers text) := by
  fun_induction FSharp.dropModifiers text with
  | case1 text hnone =>
      rcases modifierOf?_cases text with ⟨hmodifier, -⟩ | ⟨modifier, rest, -, -, hsome⟩
      · rw [dropModifiers]
        split
        · rfl
        · next hfound =>
            rw [hmodifier] at hfound
            cases hfound
      · rw [hnone] at hsome
        cases hsome
  | case2 text rest hsome ih =>
      rcases modifierOf?_cases text with ⟨-, hnone⟩ | ⟨modifier, after, hmodifier, htext, hafter⟩
      · rw [hsome] at hnone
        cases hnone
      · rw [hsome] at hafter
        cases hafter
        have hrest : textFrom text (byteLength modifier.toList) = .ok rest := by
          rw [htext, textFrom_append]
        rw [dropModifiers]
        split
        · next hfound =>
            rw [hmodifier] at hfound
            cases hfound
        · next hfound =>
            rw [hmodifier] at hfound
            cases hfound
            rw [pbind_of_eq_ok hrest, ih]

def depthAfter (c : Char) (depth : Nat) : Except Fault Nat :=
  if c = '(' then .ok (depth + 1)
  else if c = ')' then minus depth 1
  else .ok depth

/-- The offset at which as many parentheses are closed as have been opened. -/
def closeOffset : Nat → List (Nat × Char) → Except Fault (Option Nat)
  | _, [] => .ok none
  | depth, (offset, c) :: rest => do
      let depth ← depthAfter c depth
      if depth = 0 then .ok (some offset) else closeOffset depth rest

def afterGroup (text : List Char) : Except Fault (Option (List Char)) := do
  match ← closeOffset 0 (offsetsFrom 0 text) with
  | some offset =>
      let rest ← textFrom text (offset + 1)
      .ok (some rest)
  | none => .ok none

def afterPattern (text : List Char) : Except Fault (Option (List Char)) :=
  if text.head? = some '(' then afterGroup text
  else .ok (some (text.dropWhile fun c ↦ isWordChar c || c == '\''))

def bindsValue (binding : List Char) : Except Fault Bool := do
  let rest ← dropModifiers (trimStart binding)
  match ← afterPattern rest with
  | none => .ok false
  | some rest => .ok ((trimStart rest).head?.any fun c ↦ c == '=' || c == ':')

/-- The offset of the parenthesis that ends a group and the text behind it, or neither. -/
inductive Ends (front : List Char) : List Char → Option Nat → Option (List Char) → Prop
  | never {rest : List Char} : Ends front rest none none
  | closed (inside after : List Char) :
      Ends front (inside ++ ')' :: after) (some (byteLength (front ++ inside))) (some after)

theorem Ends.cons {front : List Char} {c : Char} {offset : Option Nat}
    {after : Option (List Char)} (h : Ends (front ++ [c]) rest offset after) :
    Ends front (c :: rest) offset after := by
  cases h with
  | never => exact .never
  | closed inside after =>
      rw [← List.append_cons]
      exact .closed (c :: inside) after

/-- As long as a parenthesis is open the search goes on, so no more of them are closed than have
been opened. -/
theorem closeOffset_ends (hdepth : 0 < depth) (front rest : List Char) :
    ∃ offset, closeOffset depth (offsetsFrom (byteLength front) rest) = .ok offset ∧
      Ends front rest offset (afterGroup? depth rest) := by
  induction rest generalizing front depth with
  | nil => exact ⟨none, rfl, .never⟩
  | cons c rest ih =>
      have hoffset : byteLength front + c.utf8Size = byteLength (front ++ [c]) := by
        rw [byteLength_append, byteLength_cons, byteLength_nil, Nat.add_zero]
      have hrest : ∀ next, 0 < next →
          ∃ offset, closeOffset next (offsetsFrom (byteLength front + c.utf8Size) rest) =
            .ok offset ∧ Ends front (c :: rest) offset (afterGroup? next rest) := by
        intro next hnext
        obtain ⟨offset, hclose, hends⟩ := ih hnext (front ++ [c])
        rw [hoffset]
        exact ⟨offset, hclose, hends.cons⟩
      rw [offsetsFrom, closeOffset, afterGroup?, depthAfter]
      by_cases hopen : c = '('
      · simp only [if_pos hopen, ok_bind, Nat.add_one_ne_zero, if_false]
        exact hrest (depth + 1) (Nat.succ_pos depth)
      by_cases hclose : c = ')'
      · simp only [if_neg hopen, if_pos hclose, minus_of_le hdepth, ok_bind]
        by_cases hlast : depth - 1 = 0
        · rw [if_pos hlast, if_pos hlast, hclose]
          have hends : Ends front (')' :: rest) (some (byteLength (front ++ []))) (some rest) :=
            .closed [] rest
          rw [List.append_nil] at hends
          exact ⟨_, rfl, hends⟩
        · rw [if_neg hlast, if_neg hlast]
          exact hrest (depth - 1) (Nat.pos_of_ne_zero hlast)
      · simp only [if_neg hopen, if_neg hclose, ok_bind, if_neg (Nat.ne_of_gt hdepth)]
        exact hrest depth hdepth

theorem afterGroup_eq (h : text.head? = some '(') :
    afterGroup text = .ok (afterGroup? 0 text) := by
  obtain ⟨rest, rfl⟩ := List.head?_eq_some_iff.mp h
  obtain ⟨offset, hoffset, hends⟩ := closeOffset_ends Nat.one_pos ['('] rest
  have hfirst : closeOffset 0 (offsetsFrom 0 ('(' :: rest)) =
      closeOffset 1 (offsetsFrom (byteLength ['(']) rest) := rfl
  have hgroup : afterGroup? 0 ('(' :: rest) = afterGroup? 1 rest := rfl
  rw [afterGroup, hfirst, hoffset, ok_bind, hgroup]
  generalize afterGroup? 1 rest = after at hends
  cases hends with
  | never => rfl
  | closed inside after =>
      have htext : '(' :: (inside ++ ')' :: after) = (['('] ++ inside ++ [')']) ++ after := by simp
      have hlength : byteLength (['('] ++ inside) + 1 = byteLength (['('] ++ inside ++ [')']) := by
        rw [byteLength_append (['('] ++ inside)]
        rfl
      dsimp only
      rw [htext, hlength, textFrom_append]
      rfl

theorem bindsValue_eq (binding : List Char) :
    bindsValue binding = .ok (FSharp.bindsValue binding) := by
  rw [bindsValue, dropModifiers_eq, ok_bind, FSharp.bindsValue]
  generalize FSharp.dropModifiers (trimStart binding) = rest
  have hpattern : afterPattern rest = .ok (afterPattern? rest) := by
    unfold afterPattern afterPattern?
    split
    · next hopen => exact afterGroup_eq hopen
    · rfl
  rw [hpattern, ok_bind]
  cases afterPattern? rest <;> rfl

/-! ### Lines -/

def readLine (line : List Char) : Except Fault (Option CodeLine) := do
  let code ← stripComment line
  let indent ← minus (byteLength code) (byteLength (trimStart code))
  let trimmed := trim code
  if ['(', '*'].isPrefixOf trimmed then .ok none
  else
    let attributes ← takeAttributes trimmed
    .ok (some ⟨indent, attributes.1, attributes.2⟩)

theorem readLine_eq (line : List Char) : readLine line = .ok (CodeLine.read line) := by
  rw [readLine, stripComment_eq, ok_bind, CodeLine.read]
  generalize FSharp.stripComment false line = code
  have hsplit : byteLength (code.takeWhile isBlank) + byteLength (trimStart code) =
      byteLength code := by
    rw [← byteLength_append, trimStart, List.takeWhile_append_dropWhile]
  have hindent : minus (byteLength code) (byteLength (trimStart code)) =
      .ok (byteLength (code.takeWhile isBlank)) := by
    rw [minus_of_le (by omega), ← hsplit, Nat.add_sub_cancel]
  rw [hindent, ok_bind]
  dsimp only
  rw [takeAttributes_eq]
  split <;> rfl

theorem head?_read {code : CodeLine} (h : CodeLine.read line = some code) :
    code.code.head?.all (fun c ↦ !isBlank c) = true := by
  unfold CodeLine.read at h
  dsimp only at h
  split at h
  · cases h
  · cases h
    exact head?_takeAttributes (head?_trimEnd (head?_trimStart _))

/-- Whether a line of code binds a value behind its first word. -/
def isBinding (first : String) (literal : Bool) (code : List Char) : Except Fault Bool :=
  if first = "let" ∧ literal = false then do
    let binding ← textFrom code 3
    bindsValue binding
  else .ok false

def meaning (owner : Option Scope) (literal : Bool) (code : List Char) :
    Except Fault LineMeaning := do
  let words := words code
  let word ← item words 0
  let first := String.ofList word
  if owner = some .expression ∨ first = "namespace" then .ok (.scope .expression false)
  else if first = "module" then
    if code.getLast? = some '=' then .ok (.scope (.moduleBody (declaredName words)) false)
    else .ok (.root (declaredName words))
  else if first = "type" ∨ first = "and" then
    .ok (.scope (.typeBody (declaredName words)) false)
  else
    match owner with
    | some (.typeBody _) =>
        .ok (.scope .expression (first = "static" && isStaticValue words))
    | _ =>
        let initializes ← isBinding first literal code
        .ok (.scope .expression initializes)

/-- Code that is not empty and begins without blanks begins with a word. -/
theorem exists_word {code : List Char} (hne : code ≠ [])
    (hhead : code.head?.all (fun c ↦ !isBlank c) = true) :
    ∃ word more rest, words code = word :: more ∧ code = word ++ rest := by
  cases code with
  | nil => exact absurd rfl hne
  | cons c rest =>
      have hc : isBlank c = false := by simpa using hhead
      refine ⟨_, _, fromBlank rest, words_cons hc rest, ?_⟩
      rw [List.cons_append, upToBlank_append_fromBlank]

theorem meaning_eq {code : List Char} (hne : code ≠ [])
    (hhead : code.head?.all (fun c ↦ !isBlank c) = true) (owner : Option Scope) (literal : Bool) :
    meaning owner literal code = .ok (FSharp.meaning owner literal code) := by
  obtain ⟨word, more, rest, hwords, hcode⟩ := exists_word hne hhead
  have hitem : item (word :: more) 0 = .ok word := rfl
  have hbinding : isBinding (String.ofList word) literal code =
      .ok (decide (String.ofList word = "let") && !literal && FSharp.bindsValue (code.drop 3)) := by
    rw [isBinding]
    by_cases hlet : String.ofList word = "let"
    · obtain rfl : word = "let".toList := by rw [← hlet, String.toList_ofList]
      have hfrom : textFrom code 3 = .ok (code.drop 3) := by
        rw [hcode]
        exact textFrom_append "let".toList rest
      rw [hfrom, ok_bind, bindsValue_eq]
      cases literal <;> simp
    · simp [hlet]
  unfold meaning FSharp.meaning
  rw [hwords]
  dsimp only
  rw [hitem, ok_bind, hbinding, ok_bind]
  simp only [List.head?_cons, Option.map_some, Option.some.injEq]
  split
  · rfl
  split
  · split <;> rfl
  split
  · rfl
  cases owner with
  | none => rfl
  | some scope => cases scope <;> rfl

/-! ### Sources -/

def pushCode (s : Scanner) (line : CodeLine) : Except Fault Scanner := do
  let s := s.close line.indent
  match ← meaning (s.scopes.head?.map Prod.snd) (s.literal || line.literal) line.code with
  | .root name => .ok { s with root := name, literal := false }
  | .scope scope initializes =>
      .ok { s with
        scopes := (line.indent, scope) :: s.scopes
        literal := false
        found := if initializes then s.found ++ [s.path] else s.found }

def push (s : Scanner) (line : List Char) : Except Fault Scanner := do
  match ← readLine line with
  | none => .ok s
  | some code =>
      if code.code.isEmpty then .ok { s with literal := s.literal || code.literal }
      else pushCode s code

def staticBindings (text : List Char) : Except Fault (List String) := do
  let s ← (lines text).foldlM push {}
  .ok s.found

theorem push_eq (s : Scanner) (line : List Char) : push s line = .ok (s.push line) := by
  rw [push, readLine_eq, ok_bind, Scanner.push]
  cases hread : CodeLine.read line with
  | none => rfl
  | some code =>
      dsimp only
      split
      · rfl
      · next hempty =>
          have hne : code.code ≠ [] := fun hnil ↦ hempty (by rw [hnil]; rfl)
          rw [pushCode, meaning_eq hne (head?_read hread), ok_bind, Scanner.pushCode]
          generalize FSharp.meaning _ _ code.code = read
          cases read <;> rfl

theorem staticBindings_eq (text : List Char) :
    staticBindings text = .ok (FSharp.staticBindings text) := by
  have hpush : push = fun s line ↦ pure (s.push line) := by
    funext s line
    exact push_eq s line
  rw [staticBindings, hpush, List.foldlM_pure]
  rfl

end GuestGate.FSharp.Checked
