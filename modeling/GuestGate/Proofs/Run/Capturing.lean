import GuestGate.Proofs.Text.Utf8
import GuestGate.Run.Output
import Mathlib.Data.List.GetD

/-!
# What is left of printed text

The bytes of a character are one that starts it and others that go on with it, so looking
back for a start never goes further than to the front of one character.  A buffer of printed
text therefore holds whole characters: as many as fit, counted from the first.
-/

namespace GuestGate

open Text

namespace Output

/-! ### Where characters start -/

theorem isContinuation_of_lead : (∀ n < 128, isContinuation (UInt8.ofNat n) = false) ∧
    (∀ n < 32, isContinuation (UInt8.ofNat (n + 192)) = false) ∧
    (∀ n < 16, isContinuation (UInt8.ofNat (n + 224)) = false) ∧
    ∀ n < 8, isContinuation (UInt8.ofNat (n + 240)) = false := by
  refine ⟨?_, ?_, ?_, ?_⟩ <;> decide +kernel

theorem isContinuation_of_following :
    ∀ n < 64, isContinuation (UInt8.ofNat (n + 128)) = true := by
  decide +kernel

theorem encodeChar_eq_cons (c : Char) : ∃ first following,
    String.utf8EncodeChar c = first :: following ∧ isContinuation first = false ∧
      ∀ b ∈ following, isContinuation b = true := by
  obtain ⟨hascii, htwo, hthree, hfour⟩ := isContinuation_of_lead
  have hfollows : ∀ n, isContinuation (UInt8.ofNat (n % 64) + 128) = true := fun n ↦ by
    simpa using isContinuation_of_following _ (Nat.mod_lt n (by decide))
  simp only [String.utf8EncodeChar]
  split
  · exact ⟨_, _, rfl, hascii _ (by omega), List.forall_mem_nil _⟩
  split
  · refine ⟨_, _, rfl, htwo _ (Nat.mod_lt _ (by decide)), ?_⟩
    simp [hfollows]
  split
  · refine ⟨_, _, rfl, hthree _ (Nat.mod_lt _ (by decide)), ?_⟩
    simp [hfollows]
  · refine ⟨_, _, rfl, hfour _ (Nat.mod_lt _ (by decide)), ?_⟩
    simp [hfollows]

theorem boundary_eq {bytes : List UInt8} {start n : Nat} (hle : start ≤ n)
    (hstart : start = 0 ∨ isContinuation (bytes.getD start 0) = false)
    (hfollows : ∀ i, start < i → i ≤ n → isContinuation (bytes.getD i 0) = true) :
    boundary bytes n = start := by
  induction n with
  | zero => exact (Nat.le_zero.mp hle).symm
  | succ n ih =>
      by_cases heq : start = n + 1
      · have hlead : isContinuation (bytes.getD (n + 1) 0) = false :=
          heq ▸ hstart.resolve_left (by omega)
        rw [boundary, hlead, heq]
        rfl
      · rw [boundary, hfollows (n + 1) (by omega) (Nat.le_refl _), if_pos rfl]
        exact ih (by omega) fun i hi hin ↦ hfollows i hi (by omega)

theorem boundary_encode {kept rest : List Char} {c : Char} {n : Nat}
    (hkept : byteLength kept ≤ n) (hnext : n < byteLength kept + byteLength [c]) :
    boundary (encode (kept ++ c :: rest)) n = byteLength kept := by
  obtain ⟨first, following, hbytes, hfirst, hfollowing⟩ := encodeChar_eq_cons c
  have hsplit : encode (kept ++ c :: rest) =
      encode kept ++ (first :: following ++ encode rest) := by
    simp [encode, hbytes]
  have hlength : byteLength [c] = following.length + 1 := by simp [byteLength, encode, hbytes]
  rw [hsplit]
  refine boundary_eq hkept (.inr ?_) fun i hi hin ↦ ?_
  · rw [List.getD_append_right _ _ _ _ (Nat.le_refl (byteLength kept))]
    simpa [byteLength] using hfirst
  · obtain ⟨j, rfl⟩ : ∃ j, i = (encode kept).length + (j + 1) :=
      ⟨i - byteLength kept - 1, by simp only [byteLength] at hi ⊢; omega⟩
    have hj : j < following.length := by
      simp only [byteLength] at hin hnext hlength
      omega
    rw [List.getD_append_right _ _ _ _ (Nat.le_add_right _ _), Nat.add_sub_cancel_left,
      List.cons_append, List.getD_cons_succ, List.getD_append _ _ _ _ hj,
      List.getD_eq_getElem _ _ hj]
    exact hfollowing _ (List.getElem_mem hj)

/-- A place inside a text lies in one of its characters. -/
theorem exists_char_around {text : List Char} {n : Nat} (h : n < byteLength text) :
    ∃ kept c rest, text = kept ++ c :: rest ∧ byteLength kept ≤ n ∧
      n < byteLength kept + byteLength [c] := by
  induction text generalizing n with
  | nil => simp at h
  | cons c text ih =>
      by_cases hc : n < byteLength [c]
      · exact ⟨[], c, text, rfl, by simp, by simpa using hc⟩
      · have hsum : byteLength (c :: text) = byteLength [c] + byteLength text :=
          byteLength_append [c] text
        obtain ⟨kept, d, rest, rfl, hkept, hnext⟩ := ih (n := n - byteLength [c]) (by omega)
        have hfront : byteLength (c :: kept) = byteLength [c] + byteLength kept :=
          byteLength_append [c] kept
        exact ⟨c :: kept, d, rest, rfl, by omega, by omega⟩

/-! ### The longest part that fits -/

/-- Of a text the buffer has a first part and lacks the rest.  It lacks something only
where the next character did not fit. -/
structure Captures (out : Output) (kept rest : List Char) : Prop where
  buffer : out.buffer.toList = encode kept
  fits : byteLength kept ≤ out.limit
  whole : out.truncated = false → rest = []
  cut : out.truncated = true → ∃ c others, rest = c :: others ∧
    out.limit < byteLength kept + byteLength [c]

variable {out : Output} {kept rest : List Char} {bytes : List UInt8}

theorem captures_empty (limit : Nat) : Captures { limit } [] [] :=
  ⟨rfl, Nat.zero_le limit, fun _ ↦ rfl, nofun⟩

theorem push_of_truncated (h : out.truncated = true) (bytes : List UInt8) :
    out.push bytes = out := by
  rw [push, if_pos h]

theorem push_of_room (h : out.truncated = false)
    (hroom : bytes.length ≤ out.limit - out.buffer.size) :
    out.push bytes = { out with buffer := out.buffer ++ bytes } := by
  simp only [push, h, hroom, Bool.false_eq_true, if_false, if_true]

theorem push_of_long (h : out.truncated = false)
    (hlong : ¬ bytes.length ≤ out.limit - out.buffer.size) :
    out.push bytes = { out with
      buffer := out.buffer ++ bytes.take (boundary bytes (out.limit - out.buffer.size))
      truncated := true } := by
  simp only [push, h, hlong, Bool.false_eq_true, if_false]

@[simp]
theorem limit_push (out : Output) (bytes : List UInt8) : (out.push bytes).limit = out.limit := by
  simp only [push]
  split
  · rfl
  · split <;> rfl

@[simp]
theorem limit_write (out : Output) (text : List Char) : (out.write text).limit = out.limit :=
  limit_push out (encode text)

theorem Captures.write (h : Captures out kept rest) (text : List Char) :
    ∃ kept' rest', kept' ++ rest' = kept ++ rest ++ text ∧ Captures (out.write text) kept' rest' := by
  have hsize : out.buffer.size = byteLength kept := by
    rw [← Array.length_toList, h.buffer, byteLength]
  cases htruncated : out.truncated with
  | true =>
      obtain ⟨c, others, rfl, hcut⟩ := h.cut htruncated
      rw [Output.write, push_of_truncated htruncated]
      refine ⟨kept, c :: others ++ text, by simp, h.buffer, h.fits, ?_, fun _ ↦ ?_⟩
      · simp [htruncated]
      · exact ⟨c, others ++ text, rfl, hcut⟩
  | false =>
      obtain rfl := h.whole htruncated
      by_cases hroom : byteLength text ≤ out.limit - byteLength kept
      · have hwrite : out.write text = { out with buffer := out.buffer ++ encode text } :=
          push_of_room htruncated (hsize ▸ hroom)
        rw [hwrite]
        refine ⟨kept ++ text, [], by simp, ?_, ?_, fun _ ↦ rfl, by simp [htruncated]⟩
        · simp [h.buffer]
        · have hfits := h.fits
          simp only [byteLength_append]
          omega
      · -- the text goes up to the character in which the room ends
        have hinside : out.limit - byteLength kept < byteLength text := by omega
        obtain ⟨more, c, others, rfl, hmore, hnext⟩ := exists_char_around hinside
        have hwrite : out.write (more ++ c :: others) =
            { out with buffer := out.buffer ++ encode more, truncated := true } := by
          have htake : (encode (more ++ c :: others)).take (byteLength more) = encode more := by
            rw [encode_append, byteLength, List.take_left]
          rw [Output.write, push_of_long htruncated (hsize ▸ hroom), hsize,
            boundary_encode hmore hnext, htake]
        have hfits := h.fits
        rw [hwrite]
        refine ⟨kept ++ more, c :: others, by simp, by simp [h.buffer], ?_, by simp, fun _ ↦ ?_⟩
        · simp only [byteLength_append]
          omega
        · exact ⟨c, others, rfl, by simp only [byteLength_append]; omega⟩

theorem Captures.truncated_iff (h : Captures out kept rest) :
    out.truncated = true ↔ out.limit < byteLength (kept ++ rest) := by
  rw [byteLength_append]
  cases htruncated : out.truncated with
  | true =>
      obtain ⟨c, others, rfl, hcut⟩ := h.cut htruncated
      have hsum : byteLength (c :: others) = byteLength [c] + byteLength others :=
        byteLength_append [c] others
      simp only [true_iff]
      omega
  | false =>
      have hfits := h.fits
      obtain rfl := h.whole htruncated
      simpa using hfits

theorem utf8ByteSize_ofList (text : List Char) :
    (String.ofList text).utf8ByteSize = byteLength text := by
  simp [byteLength, encode, String.utf8ByteSize, List.utf8Encode]

/-- Whole characters are read back as they are, so reading the buffer does not make it
longer. -/
theorem Captures.text_eq (h : Captures out kept rest) : out.text = String.ofList kept := by
  rw [text, h.buffer, decode_encode]

theorem Captures.size_text_le (h : Captures out kept rest) : out.text.utf8ByteSize ≤ out.limit := by
  rw [h.text_eq, utf8ByteSize_ofList]
  exact h.fits

end Output

end GuestGate
