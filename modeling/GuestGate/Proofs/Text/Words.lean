import GuestGate.Text.Split
import Mathlib.Data.List.TakeWhile

/-!
# Words and trimmed text

What is read from a text through its words does not depend on the blanks around them.  A word
that is compared without regard to case consists of letters if the one it is compared to does.
-/

namespace GuestGate.Text

variable {c : Char} {a b blanks word text rest : List Char}

/-! ### Letters -/

theorem isAlpha_iff : c.isAlpha = true ↔
    (65 ≤ c.toNat ∧ c.toNat ≤ 90) ∨ (97 ≤ c.toNat ∧ c.toNat ≤ 122) := by
  change (decide (c.val ≥ 'A'.val ∧ c.val ≤ 'Z'.val) ||
    (decide (c.val ≥ 'a'.val) && decide (c.val ≤ 'z'.val))) = true ↔ _
  simp only [Bool.or_eq_true, Bool.and_eq_true, decide_eq_true_eq, UInt32.le_iff_toNat_le,
    ge_iff_le]
  rfl

theorem toNat_toLower (c : Char) :
    c.toLower.toNat = if 65 ≤ c.toNat ∧ c.toNat ≤ 90 then c.toNat + 32 else c.toNat := by
  have hupper : (c.val ≥ 'A'.val ∧ c.val ≤ 'Z'.val) ↔ (65 ≤ c.toNat ∧ c.toNat ≤ 90) := by
    simp only [UInt32.le_iff_toNat_le, ge_iff_le]
    rfl
  by_cases h : c.val ≥ 'A'.val ∧ c.val ≤ 'Z'.val
  · have hlower : c.toLower.val = c.val + 32 := congrArg Char.val (dif_pos h)
    have hle := (hupper.mp h).2
    have hval : c.val.toNat = c.toNat := rfl
    have hstep : (32 : UInt32).toNat = 32 := rfl
    rw [if_pos (hupper.mp h), ← Char.toNat_val, hlower, UInt32.toNat_add]
    omega
  · have hlower : c.toLower = c := dif_neg h
    rw [if_neg fun h' ↦ h (hupper.mpr h'), hlower]

theorem isAlpha_toLower (c : Char) : c.toLower.isAlpha = c.isAlpha := by
  rw [Bool.eq_iff_iff, isAlpha_iff, isAlpha_iff, toNat_toLower]
  split <;> omega

theorem isBlank_of_isAlpha (h : c.isAlpha = true) : isBlank c = false := by
  rw [isAlpha_iff] at h
  simp only [isBlank, inRanges, blankRanges, List.any_cons, List.any_nil, Bool.or_eq_false_iff,
    Bool.and_eq_false_iff, decide_eq_false_iff_not, Nat.not_le, Bool.or_false]
  omega

theorem not_isWordChar_of_isBlank (h : isBlank c = true) : isWordChar c = false := by
  have hnone : ∀ range ∈ blankRanges, ∀ n ∈ List.range' range.1 (range.2 + 1 - range.1),
      isWordChar (Char.ofNat n) = false := by
    decide +kernel
  obtain ⟨range, hrange, hmem⟩ := List.any_eq_true.mp h
  rw [Bool.and_eq_true, decide_eq_true_eq, decide_eq_true_eq] at hmem
  have hc := hnone range hrange c.toNat (by rw [List.mem_range'_1]; omega)
  rwa [Char.ofNat_toNat] at hc

theorem sameWord_iff : sameWord a b = true ↔ a.map Char.toLower = b.map Char.toLower := by
  induction a generalizing b with
  | nil => cases b <;> simp [sameWord]
  | cons c rest ih => cases b <;> simp [sameWord, sameLetter, ih]

/-- Words that are the same compare in the same way with any other. -/
theorem sameWord_congr (h : sameWord a b = true) (other : List Char) :
    sameWord a other = sameWord b other := by
  rw [Bool.eq_iff_iff, sameWord_iff, sameWord_iff, sameWord_iff.mp h]

theorem isAlpha_of_sameWord (h : sameWord a b = true) (hb : ∀ c ∈ b, c.isAlpha = true) :
    ∀ c ∈ a, c.isAlpha = true := by
  intro c hc
  have hlower : c.toLower ∈ b.map Char.toLower := sameWord_iff.mp h ▸ List.mem_map_of_mem hc
  obtain ⟨d, hd, heq⟩ := List.mem_map.mp hlower
  rw [← isAlpha_toLower, ← heq, isAlpha_toLower]
  exact hb d hd

theorem length_eq_of_sameWord (h : sameWord a b = true) : a.length = b.length := by
  simpa using congrArg List.length (sameWord_iff.mp h)

/-! ### Words -/

theorem takeWhile_append_of_head? {p : Char → Bool} (ha : ∀ c ∈ a, p c = true)
    (hb : b.head?.all (fun c ↦ !p c) = true) : (a ++ b).takeWhile p = a := by
  have hnone : b.takeWhile p = [] := by cases b <;> simp_all
  rw [List.takeWhile_append_of_pos ha, hnone, List.append_nil]

theorem dropWhile_append_of_head? {p : Char → Bool} (ha : ∀ c ∈ a, p c = true)
    (hb : b.head?.all (fun c ↦ !p c) = true) : (a ++ b).dropWhile p = b := by
  have hself : b.dropWhile p = b := by cases b <;> simp_all
  rw [List.dropWhile_append_of_pos ha, hself]

def upToBlank (text : List Char) : List Char :=
  text.takeWhile fun c ↦ !isBlank c

def fromBlank (text : List Char) : List Char :=
  text.dropWhile fun c ↦ !isBlank c

theorem upToBlank_append_fromBlank (text : List Char) :
    upToBlank text ++ fromBlank text = text :=
  List.takeWhile_append_dropWhile

theorem head?_upToBlank {p : Char → Bool} (h : text.head?.all p = true) :
    (upToBlank text).head?.all p = true := by
  cases text with
  | nil => rfl
  | cons c rest => cases hc : isBlank c <;> simp_all [upToBlank]

theorem head?_fromBlank (text : List Char) : (fromBlank text).head?.all isBlank = true := by
  induction text with
  | nil => rfl
  | cons c rest ih => cases hc : isBlank c <;> simp_all [fromBlank]

theorem upToBlank_eq_nil (h : text.head?.all isBlank = true) : upToBlank text = [] := by
  cases text <;> simp_all [upToBlank]

theorem fromBlank_eq_self (h : text.head?.all isBlank = true) : fromBlank text = text := by
  cases text <;> simp_all [fromBlank]

theorem words_cons_of_isBlank (h : isBlank c = true) (text : List Char) :
    words (c :: text) = words text := by
  simp [words, h]

theorem words_cons (h : isBlank c = false) (text : List Char) :
    words (c :: text) = (c :: upToBlank text) :: words (fromBlank text) := by
  induction text generalizing c with
  | nil => simp [words, h, upToBlank, fromBlank]
  | cons d rest ih =>
      rw [words.eq_def]
      cases hd : isBlank d with
      | true =>
          have hhead : (d :: rest).head?.all isBlank = true := hd
          rw [upToBlank_eq_nil hhead, fromBlank_eq_self hhead]
          cases hmore : words (d :: rest) <;> simp [h, hd, hmore]
      | false => simp [h, hd, ih hd, upToBlank, fromBlank]

/-- The first word of a text goes on up to its first blank. -/
theorem words_append (hne : word ≠ []) (hword : ∀ c ∈ word, isBlank c = false)
    (text : List Char) :
    words (word ++ text) = (word ++ upToBlank text) :: words (fromBlank text) := by
  cases word with
  | nil => exact absurd rfl hne
  | cons c rest =>
      have hrest : ∀ d ∈ rest, (!isBlank d) = true := fun d hd ↦ by simp [hword d (by simp [hd])]
      rw [List.cons_append, words_cons (hword c (by simp)), upToBlank, fromBlank,
        List.takeWhile_append_of_pos hrest, List.dropWhile_append_of_pos hrest]
      rfl

theorem words_append_of_head? (hne : word ≠ []) (hword : ∀ c ∈ word, isBlank c = false)
    (hhead : text.head?.all isBlank = true) : words (word ++ text) = word :: words text := by
  rw [words_append hne hword, upToBlank_eq_nil hhead, fromBlank_eq_self hhead, List.append_nil]

theorem words_blanks_append (h : ∀ c ∈ blanks, isBlank c = true) (text : List Char) :
    words (blanks ++ text) = words text := by
  induction blanks with
  | nil => rfl
  | cons c rest ih =>
      rw [List.cons_append, words_cons_of_isBlank (h c (by simp))]
      exact ih fun d hd ↦ h d (by simp [hd])

theorem upToBlank_append_of_apart (h : b.head?.all isBlank = true) (a : List Char) :
    upToBlank (a ++ b) = upToBlank a := by
  induction a with
  | nil => exact upToBlank_eq_nil h
  | cons c rest ih => cases hc : isBlank c <;> simp_all [upToBlank]

theorem fromBlank_append_of_apart (h : b.head?.all isBlank = true) (a : List Char) :
    fromBlank (a ++ b) = fromBlank a ++ b := by
  induction a with
  | nil => exact fromBlank_eq_self h
  | cons c rest ih => cases hc : isBlank c <;> simp_all [fromBlank]

/-- A text that is parted in front of a blank has the words of its parts. -/
theorem words_append_of_apart (h : b.head?.all isBlank = true) (a : List Char) :
    words (a ++ b) = words a ++ words b := by
  induction hlength : a.length using Nat.strongRecOn generalizing a with
  | ind n ih =>
      cases a with
      | nil => rfl
      | cons c rest =>
          have hle : (fromBlank rest).length ≤ rest.length :=
            (List.dropWhile_suffix _).length_le
          rw [List.length_cons] at hlength
          cases hc : isBlank c with
          | true =>
              rw [List.cons_append, words_cons_of_isBlank hc, words_cons_of_isBlank hc]
              exact ih rest.length (by omega) rest rfl
          | false =>
              rw [List.cons_append, words_cons hc, words_cons hc, upToBlank_append_of_apart h,
                fromBlank_append_of_apart h, ih _ (by omega) (fromBlank rest) rfl]
              rfl

theorem words_append_blanks (text : List Char) (h : ∀ c ∈ blanks, isBlank c = true) :
    words (text ++ blanks) = words text := by
  have hhead : blanks.head?.all isBlank = true := by
    cases blanks <;> simp_all
  have hblanks : words blanks = [] := by simpa using words_blanks_append h []
  rw [words_append_of_apart hhead, hblanks, List.append_nil]

/-- Where the first word of a text stands. -/
theorem exists_of_words {more : List (List Char)} (h : words text = word :: more) :
    ∃ blanks rest, text = blanks ++ word ++ rest ∧ (∀ c ∈ blanks, isBlank c = true) ∧
      word ≠ [] ∧ rest.head?.all isBlank = true ∧ words rest = more := by
  induction text with
  | nil => cases h
  | cons c rest ih =>
      cases hc : isBlank c with
      | true =>
          rw [words_cons_of_isBlank hc] at h
          obtain ⟨blanks, after, rfl, hblanks, hrest⟩ := ih h
          refine ⟨c :: blanks, after, rfl, ?_, hrest⟩
          simpa [hc] using hblanks
      | false =>
          rw [words_cons hc, List.cons.injEq] at h
          obtain ⟨rfl, hmore⟩ := h
          refine ⟨[], fromBlank rest, ?_, by simp, by simp, head?_fromBlank rest, hmore⟩
          simp [upToBlank_append_fromBlank]

/-! ### Trimmed text -/

theorem exists_append_trimEnd (text : List Char) :
    ∃ blanks, (∀ c ∈ blanks, isBlank c = true) ∧ text = trimEnd text ++ blanks := by
  refine ⟨(text.reverse.takeWhile isBlank).reverse, fun c hc ↦ ?_, ?_⟩
  · exact List.mem_takeWhile_imp (List.mem_reverse.mp hc)
  · rw [trimEnd, ← List.reverse_append, List.takeWhile_append_dropWhile, List.reverse_reverse]

theorem words_trimEnd (text : List Char) : words (trimEnd text) = words text := by
  obtain ⟨blanks, hblanks, htext⟩ := exists_append_trimEnd text
  rw [congrArg words htext, words_append_blanks _ hblanks]

theorem trimEnd_eq_nil (h : ∀ c ∈ blanks, isBlank c = true) : trimEnd blanks = [] := by
  rw [trimEnd, List.reverse_eq_nil_iff, List.dropWhile_eq_nil_iff]
  exact fun c hc ↦ h c (List.mem_reverse.mp hc)

theorem trimEnd_append_cons (text : List Char) (h : isBlank c = false) (rest : List Char) :
    trimEnd (text ++ c :: rest) = text ++ c :: trimEnd rest := by
  have hreverse : (text ++ c :: rest).reverse = rest.reverse ++ c :: text.reverse := by simp
  rw [trimEnd, trimEnd, hreverse, List.dropWhile_append]
  cases hrest : rest.reverse.dropWhile isBlank <;> simp [h]

theorem trimEnd_cons (h : isBlank c = false) (rest : List Char) :
    trimEnd (c :: rest) = c :: trimEnd rest :=
  trimEnd_append_cons [] h rest

theorem trimEnd_append (h : ∀ c ∈ word, isBlank c = false) (rest : List Char) :
    trimEnd (word ++ rest) = word ++ trimEnd rest := by
  induction word with
  | nil => rfl
  | cons c more ih =>
      rw [List.cons_append, trimEnd_cons (h c (by simp)), ih fun d hd ↦ h d (by simp [hd])]
      rfl

theorem head?_trimEnd {p : Char → Bool} (h : text.head?.all p = true) :
    (trimEnd text).head?.all p = true := by
  obtain ⟨blanks, -, htext⟩ := exists_append_trimEnd text
  rw [htext] at h
  cases htrim : trimEnd text with
  | nil => rfl
  | cons c rest => simpa [htrim] using h

theorem trimStart_blanks_append (h : ∀ c ∈ blanks, isBlank c = true) (text : List Char) :
    trimStart (blanks ++ text) = trimStart text :=
  List.dropWhile_append_of_pos h

theorem trimStart_eq_self (h : text.head?.all (fun c ↦ !isBlank c) = true) :
    trimStart text = text := by
  cases text <;> simp_all [trimStart]

theorem trim_blanks_append (hblanks : ∀ c ∈ blanks, isBlank c = true)
    (h : text.head?.all (fun c ↦ !isBlank c) = true) : trim (blanks ++ text) = trimEnd text := by
  rw [trim, trimStart_blanks_append hblanks, trimStart_eq_self h]

theorem head?_trimStart (text : List Char) :
    (trimStart text).head?.all (fun c ↦ !isBlank c) = true := by
  induction text with
  | nil => rfl
  | cons c rest ih => cases hc : isBlank c <;> simp_all [trimStart]

theorem exists_append_trimStart (text : List Char) :
    ∃ blanks, (∀ c ∈ blanks, isBlank c = true) ∧ text = blanks ++ trimStart text :=
  ⟨text.takeWhile isBlank, fun _ hc ↦ List.mem_takeWhile_imp hc,
    List.takeWhile_append_dropWhile.symm⟩

theorem trimStart_trimEnd (text : List Char) :
    trimStart (trimEnd text) = trimEnd (trimStart text) := by
  obtain ⟨blanks, hblanks, htext⟩ := exists_append_trimStart text
  have hhead := head?_trimStart text
  generalize trimStart text = inner at htext hhead ⊢
  subst htext
  cases inner with
  | nil => rw [List.append_nil, trimEnd_eq_nil hblanks]; rfl
  | cons c rest =>
      have hc : isBlank c = false := by simpa using hhead
      rw [trimEnd_append_cons _ hc, trimStart_blanks_append hblanks, trimEnd_cons hc]
      exact trimStart_eq_self hhead

end GuestGate.Text
