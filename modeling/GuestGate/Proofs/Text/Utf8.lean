import GuestGate.Text.Utf8

/-!
# Encoded text is read back

A character is a first byte, which announces how many bytes follow, and that many bytes of
the form `10xxxxxx`.  The decoder takes each of them for what it was written as, so every
text is what its encoding decodes to.
-/

namespace GuestGate.Text

/-! ### First bytes -/

theorem decodeLead_of_ascii {n : Nat} (h : n < 0x80) :
    decodeLead (UInt8.ofNat n) = ([Char.ofNat n], none) := by
  have hn : n % 256 = n := Nat.mod_eq_of_lt (by omega)
  simp [decodeLead, UInt8.lt_iff_toNat_lt, hn, h]

theorem decodeLead_of_two : ∀ n < 32, 2 ≤ n →
    decodeLead (UInt8.ofNat (n + 192)) = ([], some ⟨n, 1, 0x80, 0xbf⟩) := by
  decide

theorem decodeLead_of_three : ∀ n < 16, decodeLead (UInt8.ofNat (n + 224)) =
    ([], some ⟨n, 2, if n = 0 then 0xa0 else 0x80, if n = 13 then 0x9f else 0xbf⟩) := by
  decide

theorem decodeLead_of_four : ∀ n < 5, decodeLead (UInt8.ofNat (n + 240)) =
    ([], some ⟨n, 3, if n = 0 then 0x90 else 0x80, if n = 4 then 0x8f else 0xbf⟩) := by
  decide

/-! ### Following bytes -/

section

variable {value n : Nat} {low high : UInt8}

theorem decodeByte_of_fits (missing : Nat) (hn : n < 64) (hlow : low.toNat ≤ n + 128)
    (hhigh : n + 128 ≤ high.toNat) :
    decodeByte (some ⟨value, missing, low, high⟩) (UInt8.ofNat (n + 128)) =
      if missing ≤ 1 then ([Char.ofNat (value * 64 + n)], none)
      else ([], some ⟨value * 64 + n, missing - 1, 0x80, 0xbf⟩) := by
  have hbyte : (UInt8.ofNat (n + 128)).toNat = n + 128 := by
    simpa using Nat.mod_eq_of_lt (show n + 128 < 256 by omega)
  have hrange : low ≤ UInt8.ofNat (n + 128) ∧ UInt8.ofNat (n + 128) ≤ high := by
    rw [UInt8.le_iff_toNat_le, UInt8.le_iff_toNat_le, hbyte]
    exact ⟨hlow, hhigh⟩
  have hvalue : n + 128 - 0x80 = n := by omega
  simp only [decodeByte, hrange, and_self, if_true, hbyte, hvalue]

theorem decodeFrom_last (hn : n < 64) (hlow : low.toNat ≤ n + 128) (hhigh : n + 128 ≤ high.toNat)
    (rest : List UInt8) :
    decodeFrom (some ⟨value, 1, low, high⟩) (UInt8.ofNat (n + 128) :: rest) =
      Char.ofNat (value * 64 + n) :: decodeFrom none rest := by
  simp only [decodeFrom, decodeByte_of_fits 1 hn hlow hhigh]
  rfl

theorem decodeFrom_inner (missing : Nat) (hn : n < 64) (hlow : low.toNat ≤ n + 128)
    (hhigh : n + 128 ≤ high.toNat) (rest : List UInt8) :
    decodeFrom (some ⟨value, missing + 2, low, high⟩) (UInt8.ofNat (n + 128) :: rest) =
      decodeFrom (some ⟨value * 64 + n, missing + 1, 0x80, 0xbf⟩) rest := by
  have hmore : ¬ missing + 2 ≤ 1 := by omega
  simp only [decodeFrom, decodeByte_of_fits (missing + 2) hn hlow hhigh, hmore, if_false]
  rfl

end

/-! ### Characters and texts -/

theorem decodeFrom_none_cons (b : UInt8) (rest : List UInt8) :
    decodeFrom none (b :: rest) = (decodeLead b).1 ++ decodeFrom (decodeLead b).2 rest := rfl

theorem decodeFrom_encodeChar (c : Char) (rest : List UInt8) :
    decodeFrom none (String.utf8EncodeChar c ++ rest) = c :: decodeFrom none rest := by
  have hvalid : c.toNat < 0xd800 ∨ 0xdfff < c.toNat ∧ c.toNat < 0x110000 := c.valid
  have hself : Char.ofNat c.toNat = c := Char.ofNat_toNat c
  simp only [String.utf8EncodeChar, ← Char.toNat.eq_1]
  generalize c.toNat = v at hvalid hself ⊢
  by_cases h1 : v ≤ 127
  · simp only [h1, if_true, List.cons_append, List.nil_append, decodeFrom_none_cons,
      decodeLead_of_ascii (show v < 0x80 by omega), hself]
  by_cases h2 : v ≤ 2047
  · have hvalue : v / 64 % 32 * 64 + v % 64 = v := by omega
    simp only [h1, h2, if_false, if_true, List.cons_append, List.nil_append, decodeFrom_none_cons,
      decodeLead_of_two (v / 64 % 32) (by omega) (by omega)]
    rw [decodeFrom_last (by omega) (by simp) (by simp; omega), hvalue, hself]
  -- from here on the range of the second byte keeps overlong forms and surrogates out
  by_cases h3 : v ≤ 65535
  · have hvalue : (v / 4096 % 16 * 64 + v / 64 % 64) * 64 + v % 64 = v := by omega
    simp only [h1, h2, h3, if_false, if_true, List.cons_append, List.nil_append,
      decodeFrom_none_cons, decodeLead_of_three (v / 4096 % 16) (by omega)]
    rw [decodeFrom_inner 0 (by omega) (by split <;> simp; omega) (by split <;> simp <;> omega),
      decodeFrom_last (by omega) (by simp) (by simp; omega), hvalue, hself]
  · have hvalue : ((v / 262144 % 8 * 64 + v / 4096 % 64) * 64 + v / 64 % 64) * 64 + v % 64 = v := by
      omega
    simp only [h1, h2, h3, if_false, List.cons_append, List.nil_append, decodeFrom_none_cons,
      decodeLead_of_four (v / 262144 % 8) (by omega)]
    rw [decodeFrom_inner 1 (by omega) (by split <;> simp; omega) (by split <;> simp <;> omega),
      decodeFrom_inner 0 (by omega) (by simp) (by simp; omega),
      decodeFrom_last (by omega) (by simp) (by simp; omega), hvalue, hself]

theorem decodeFrom_encode_append (text : List Char) (rest : List UInt8) :
    decodeFrom none (encode text ++ rest) = text ++ decodeFrom none rest := by
  induction text with
  | nil => rfl
  | cons c text ih =>
      rw [encode, List.flatMap_cons, List.append_assoc, decodeFrom_encodeChar]
      exact congrArg (c :: ·) ih

@[simp]
theorem decode_encode (text : List Char) : decode (encode text) = text := by
  have hread := decodeFrom_encode_append text []
  rwa [List.append_nil, decodeFrom, List.append_nil] at hread

/-- A first part of encoded text that is an encoding encodes a first part of the text. -/
theorem encode_prefix_iff {first text : List Char} :
    encode first <+: encode text ↔ first <+: text := by
  constructor
  · rintro ⟨rest, hrest⟩
    refine ⟨decodeFrom none rest, ?_⟩
    rw [← decodeFrom_encode_append, hrest]
    exact decode_encode text
  · rintro ⟨rest, rfl⟩
    rw [encode_append]
    exact List.prefix_append _ _

end GuestGate.Text
