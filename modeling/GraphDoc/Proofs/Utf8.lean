import GraphDoc.Text.Utf8
import Mathlib.Data.Nat.Bitwise
/-! # Decoding what was encoded

`Utf8.decode` reads bytes one sequence at a time, testing lead and continuation bytes with bit
masks; the encoder is the standard one, `String.utf8EncodeChar`, which computes the bytes of a
code point with division and remainder. This module brings the two to the same arithmetic and
proves that decoding the UTF-8 bytes of any text gives the text back (`decode_encode`).

* The masks the decoder applies are remainders, and a continuation byte is one whose top two
  bits are `10` (`and_mask_eq`, `isContinuation_iff`, `secondFits_iff`).
* One lemma per sequence length says what the decoder does with a well-formed sequence
  (`decodeFrom_one` to `decodeFrom_four`).
* The bytes of one character decode to that character, whatever follows
  (`decodeFrom_encodeChar`), and so the bytes of a whole text decode to it.
-/
namespace GraphDoc

/-- The bytes of a byte array, read by its loop, are those of its data. -/
theorem byteArray_toList (b : ByteArray) : b.toList = b.data.toList := by
  -- the loop has prepended the first `i` bytes, reversed, when it stands at `i`
  have loop : ∀ i r, ByteArray.toList.loop b i r = r.reverse ++ b.data.toList.drop i := by
    intro i r
    fun_induction ByteArray.toList.loop b i r with
    | case1 i r hlt ih =>
      have hi : i < b.data.toList.length := by simpa using hlt
      rw [ih, List.drop_eq_getElem_cons hi]
      simp [ByteArray.get!, hlt]
    | case2 i r hge =>
      have : b.data.toList.drop i = [] := List.drop_eq_nil_of_le (by simp; omega)
      simp [this]
  unfold ByteArray.toList
  simpa using loop 0 []

theorem byteArray_mk_toList (b : ByteArray) : (⟨b.toList.toArray⟩ : ByteArray) = b := by
  rw [byteArray_toList]

namespace Utf8

/-! ## Bytes as numbers -/

theorem and_mask_eq (b m : UInt8) (k : Nat) (hm : m.toNat = 2 ^ k - 1) :
    (b &&& m).toNat = b.toNat % 2 ^ k := by
  rw [UInt8.toNat_and, hm, Nat.and_two_pow_sub_one_eq_mod]

theorem low6_eq (b : UInt8) : low6 b = b.toNat % 64 := and_mask_eq b 0x3F 6 rfl

theorem isContinuation_iff (b : UInt8) : isContinuation b = true ↔ b.toNat / 64 = 2 := by
  have h : ∀ i : Fin 256, (i.val &&& 192 = 128) ↔ i.val / 64 = 2 := by decide +kernel
  simp only [isContinuation, beq_iff_eq, ← UInt8.toNat_inj, UInt8.toNat_and]
  simpa using h ⟨b.toNat, b.toNat_lt⟩

/-- The second byte of a sequence is a continuation byte, in the narrower range its lead byte
asks for. -/
theorem secondFits_iff (lead b : UInt8) : secondFits lead b = true ↔
    0x80 ≤ b.toNat ∧ b.toNat ≤ 0xBF ∧ (lead.toNat = 0xE0 → 0xA0 ≤ b.toNat) ∧
      (lead.toNat = 0xED → b.toNat ≤ 0x9F) ∧ (lead.toNat = 0xF0 → 0x90 ≤ b.toNat) ∧
      (lead.toNat = 0xF4 → b.toNat ≤ 0x8F) := by
  simp only [secondFits, secondRange, beq_iff_eq, ← UInt8.toNat_inj]
  split_ifs <;> simp_all [UInt8.le_iff_toNat_le] <;> omega

/-! ## One sequence at a time -/

section Steps

variable (rest : List UInt8) (i : Nat) (acc : List Char)

theorem decodeFrom_one {b : UInt8} {d : Char} (hb : b.toNat < 0x80) (hd : b.toNat = d.toNat) :
    decodeFrom (b :: rest) i acc = decodeFrom rest (i + 1) (d :: acc) := by
  rw [decodeFrom.eq_def]
  simp only [UInt8.lt_iff_toNat_lt, UInt8.reduceToNat]
  rw [if_pos hb, hd, Char.ofNat_toNat]

theorem decodeFrom_two {b c : UInt8} {d : Char} (hb : 0xC2 ≤ b.toNat ∧ b.toNat ≤ 0xDF)
    (hc : c.toNat / 64 = 2) (hd : b.toNat % 32 * 64 + c.toNat % 64 = d.toNat) :
    decodeFrom (b :: c :: rest) i acc = decodeFrom rest (i + 2) (d :: acc) := by
  rw [decodeFrom.eq_def]
  simp [UInt8.lt_iff_toNat_lt, UInt8.le_iff_toNat_le, hb, (isContinuation_iff c).2 hc, low6_eq,
    and_mask_eq b 0x1F 5 rfl, hd, show ¬ b.toNat < 128 by omega]

theorem decodeFrom_three {b c₁ c₂ : UInt8} {d : Char} (hb : 0xE0 ≤ b.toNat ∧ b.toNat ≤ 0xEF)
    (h₁ : secondFits b c₁ = true) (h₂ : c₂.toNat / 64 = 2)
    (hd : b.toNat % 16 * 4096 + c₁.toNat % 64 * 64 + c₂.toNat % 64 = d.toNat) :
    decodeFrom (b :: c₁ :: c₂ :: rest) i acc = decodeFrom rest (i + 3) (d :: acc) := by
  rw [decodeFrom.eq_def]
  simp [UInt8.lt_iff_toNat_lt, UInt8.le_iff_toNat_le, hb, h₁, (isContinuation_iff c₂).2 h₂,
    low6_eq, and_mask_eq b 0x0F 4 rfl, hd, show ¬ b.toNat < 128 by omega,
    show ¬ b.toNat ≤ 223 by omega]

theorem decodeFrom_four {b c₁ c₂ c₃ : UInt8} {d : Char} (hb : 0xF0 ≤ b.toNat ∧ b.toNat ≤ 0xF4)
    (h₁ : secondFits b c₁ = true) (h₂ : c₂.toNat / 64 = 2) (h₃ : c₃.toNat / 64 = 2)
    (hd : b.toNat % 8 * 262144 + c₁.toNat % 64 * 4096 + c₂.toNat % 64 * 64 + c₃.toNat % 64 =
      d.toNat) :
    decodeFrom (b :: c₁ :: c₂ :: c₃ :: rest) i acc = decodeFrom rest (i + 4) (d :: acc) := by
  rw [decodeFrom.eq_def]
  simp [UInt8.lt_iff_toNat_lt, UInt8.le_iff_toNat_le, hb, h₁, (isContinuation_iff c₂).2 h₂,
    (isContinuation_iff c₃).2 h₃, low6_eq, and_mask_eq b 0x07 3 rfl, hd,
    show ¬ b.toNat < 128 by omega, show ¬ b.toNat ≤ 223 by omega, show ¬ b.toNat ≤ 239 by omega]

theorem utf8Size_eq (c : Char) : c.utf8Size =
    if c.toNat ≤ 0x7f then 1 else if c.toNat ≤ 0x7ff then 2
    else if c.toNat ≤ 0xffff then 3 else 4 := by
  simp only [Char.utf8Size, UInt32.le_iff_toNat_le, Char.toNat]; rfl

/-- **The bytes of a character decode to it**, whatever bytes follow. The arithmetic of each
case is the encoder's division of the code point into groups of six bits; a code point is no
surrogate and below U+110000, which keeps the second byte in its range. -/
theorem decodeFrom_encodeChar (c : Char) :
    decodeFrom (String.utf8EncodeChar c ++ rest) i acc =
      decodeFrom rest (i + c.utf8Size) (c :: acc) := by
  have hv : c.toNat < 0xd800 ∨ (0xdfff < c.toNat ∧ c.toNat < 0x110000) := c.valid
  rw [utf8Size_eq]
  simp only [String.utf8EncodeChar, Char.toNat_val]
  split_ifs with h₁ h₂ h₃
  · exact decodeFrom_one _ _ _ (by simp; omega) (by simp; omega)
  · exact decodeFrom_two _ _ _ (by simp; omega) (by simp; omega) (by simp; omega)
  · exact decodeFrom_three _ _ _ (by simp; omega) ((secondFits_iff _ _).2 (by simp; omega))
      (by simp; omega) (by simp; omega)
  · exact decodeFrom_four _ _ _ (by simp; omega) ((secondFits_iff _ _).2 (by simp; omega))
      (by simp; omega) (by simp; omega) (by simp; omega)

end Steps

/-! ## Texts -/

theorem decodeFrom_flatMap (cs : List Char) (i : Nat) (acc : List Char) :
    decodeFrom (cs.flatMap String.utf8EncodeChar) i acc = .ok (acc.reverse ++ cs) := by
  induction cs generalizing i acc with
  | nil => simp [decodeFrom]
  | cons c cs ih => rw [List.flatMap_cons, decodeFrom_encodeChar, ih]; simp

theorem toList_encode (s : String) :
    (encode s).toList = s.toList.flatMap String.utf8EncodeChar := by
  rw [encode, byteArray_toList, String.toUTF8_eq_toByteArray, ← String.utf8Encode_toList]
  simp [List.utf8Encode]

/-- **Decoding the UTF-8 bytes of a text gives the text back.** -/
theorem decode_encode (s : String) : decode (encode s) = .ok s := by
  simp [decode, toList_encode, decodeFrom_flatMap, Except.map]

end Utf8

end GraphDoc
