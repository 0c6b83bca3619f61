import GuestGate.Text.Class

/-!
# Cutting text into pieces

Lines, words, trimmed text and cuts at a separator, all as functions on lists
of characters.
-/

namespace GuestGate.Text

/-- The lines of a text.  A line ends at `\n`, which takes one `\r` in front
of it along; text after the last `\n` is a line of its own unless it is empty. -/
def lines : List Char → List (List Char)
  | [] => []
  | '\n' :: rest => [] :: lines rest
  | '\r' :: '\n' :: rest => [] :: lines rest
  | c :: rest =>
      match lines rest with
      | [] => [[c]]
      | line :: more => (c :: line) :: more

/-- The maximal runs of characters that are not blank. -/
def words : List Char → List (List Char)
  | [] => []
  | c :: rest =>
      if isBlank c then words rest
      else
        match rest, words rest with
        | d :: _, word :: more => if isBlank d then [c] :: word :: more else (c :: word) :: more
        | _, more => [c] :: more

def trimStart (text : List Char) : List Char :=
  text.dropWhile isBlank

def trimEnd (text : List Char) : List Char :=
  (text.reverse.dropWhile isBlank).reverse

def trim (text : List Char) : List Char :=
  trimEnd (trimStart text)

/-- The text before and after the first occurrence of a separator. -/
def cut (separator : List Char) : List Char → Option (List Char × List Char)
  | [] => if separator.isEmpty then some ([], []) else none
  | c :: rest =>
      if separator.isPrefixOf (c :: rest) then some ([], (c :: rest).drop separator.length)
      else (cut separator rest).map fun parts ↦ (c :: parts.1, parts.2)

/-- The text before and after the last occurrence of a character. -/
def cutLast (separator : Char) : List Char → Option (List Char × List Char)
  | [] => none
  | c :: rest =>
      match cutLast separator rest with
      | some parts => some (c :: parts.1, parts.2)
      | none => if c = separator then some ([], rest) else none

def occurs (piece text : List Char) : Bool :=
  (cut piece text).isSome

/-- What follows a piece of text at the start of a text. -/
def afterPrefix? : List Char → List Char → Option (List Char)
  | [], text => some text
  | _ :: _, [] => none
  | p :: piece, c :: text => if p = c then afterPrefix? piece text else none

/-- What stands before a piece of text at the end of a text. -/
def beforeSuffix? (piece text : List Char) : Option (List Char) :=
  (afterPrefix? piece.reverse text.reverse).map List.reverse

def sameLetter (a b : Char) : Bool :=
  a.toLower == b.toLower

/-- Equality of texts that takes ASCII letters of either case as equal. -/
def sameWord : List Char → List Char → Bool
  | [], [] => true
  | a :: r, b :: s => sameLetter a b && sameWord r s
  | _, _ => false

@[simp]
theorem lines_nil : lines [] = [] := rfl

@[simp]
theorem words_nil : words [] = [] := rfl

/-- A cut loses nothing but the separator. -/
theorem append_of_cut {separator text before after : List Char}
    (h : cut separator text = some (before, after)) :
    before ++ separator ++ after = text := by
  induction text generalizing before after with
  | nil =>
      simp only [cut, List.isEmpty_iff] at h
      split at h <;> simp_all
  | cons c rest ih =>
      simp only [cut] at h
      split at h
      · next hp =>
          obtain ⟨tail, htail⟩ := List.isPrefixOf_iff_prefix.1 hp
          simp only [Option.some.injEq, Prod.mk.injEq] at h
          obtain ⟨rfl, rfl⟩ := h
          rw [← htail]
          simp
      · obtain ⟨parts, hparts, heq⟩ := Option.map_eq_some_iff.1 h
        simp only [Prod.mk.injEq] at heq
        obtain ⟨rfl, rfl⟩ := heq
        simpa using ih hparts

theorem occurs_iff {piece text : List Char} : occurs piece text ↔ piece <:+: text := by
  constructor
  · intro h
    obtain ⟨⟨before, after⟩, hcut⟩ := Option.isSome_iff_exists.mp h
    exact ⟨before, after, append_of_cut hcut⟩
  · intro h
    unfold occurs
    induction text with
    | nil => simp [cut, List.infix_nil.mp h]
    | cons c rest ih =>
        simp only [cut]
        split
        · rfl
        · next hprefix =>
            rw [List.isPrefixOf_iff_prefix] at hprefix
            have hrest : piece <:+: rest := (List.infix_cons_iff.mp h).resolve_left hprefix
            simpa using ih hrest

/-- A cut at the last occurrence loses nothing but that occurrence. -/
theorem append_of_cutLast {separator : Char} {text before after : List Char}
    (h : cutLast separator text = some (before, after)) :
    before ++ separator :: after = text := by
  induction text generalizing before after with
  | nil => simp [cutLast] at h
  | cons c rest ih =>
      simp only [cutLast] at h
      split at h
      · next parts hparts =>
          simp only [Option.some.injEq, Prod.mk.injEq] at h
          obtain ⟨rfl, rfl⟩ := h
          simpa using ih hparts
      · split at h <;> simp_all

theorem length_trimStart_le (text : List Char) : (trimStart text).length ≤ text.length :=
  (List.dropWhile_suffix isBlank).length_le

/-- What follows a piece is the text without it. -/
theorem append_of_afterPrefix? {piece text rest : List Char}
    (h : afterPrefix? piece text = some rest) : piece ++ rest = text := by
  fun_induction afterPrefix? piece text <;> simp_all

theorem afterPrefix?_append (piece rest : List Char) :
    afterPrefix? piece (piece ++ rest) = some rest := by
  induction piece with
  | nil => rfl
  | cons p piece ih => simp [afterPrefix?, ih]

theorem beforeSuffix?_eq_some_iff {piece text before : List Char} :
    beforeSuffix? piece text = some before ↔ before ++ piece = text := by
  constructor
  · intro h
    obtain ⟨rest, hrest, rfl⟩ := Option.map_eq_some_iff.mp h
    simpa using congrArg List.reverse (append_of_afterPrefix? hrest)
  · rintro rfl
    simp [beforeSuffix?, afterPrefix?_append]

theorem length_of_afterPrefix? {piece text rest : List Char}
    (h : afterPrefix? piece text = some rest) : text.length = piece.length + rest.length := by
  simp [← append_of_afterPrefix? h]

theorem not_mem_of_cutLast_eq_none {separator : Char} {text : List Char}
    (h : cutLast separator text = none) : separator ∉ text := by
  induction text with
  | nil => simp
  | cons c rest ih =>
      simp only [cutLast] at h
      split at h
      · simp at h
      · next hrest =>
          split at h
          · simp at h
          · next hc => simpa [Ne.symm hc] using ih hrest

/-- After the last occurrence the character is not seen again. -/
theorem not_mem_of_cutLast {separator : Char} {text before after : List Char}
    (h : cutLast separator text = some (before, after)) : separator ∉ after := by
  induction text generalizing before after with
  | nil => simp [cutLast] at h
  | cons c rest ih =>
      simp only [cutLast] at h
      split at h
      · next parts hparts =>
          simp only [Option.some.injEq, Prod.mk.injEq] at h
          obtain ⟨_, rfl⟩ := h
          exact ih hparts
      · next hnone =>
          split at h
          · simp only [Option.some.injEq, Prod.mk.injEq] at h
            obtain ⟨_, rfl⟩ := h
            exact not_mem_of_cutLast_eq_none hnone
          · simp at h

end GuestGate.Text
