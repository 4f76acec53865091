import GraphDoc.Wire.Varint
import GraphDoc.Proofs.Utf8
import Mathlib.Tactic.Ring
import Mathlib.Data.Nat.Size
import Mathlib.Algebra.Order.Floor.Div
/-! # Varints read back

The decoder of `Varint` reads a value back from its bytes wherever they stand in a byte array,
and stops right after them (`Varint.decode_encode`). The bytes a reader sees are described by
`BytesAt bytes pos l`: the list `l` stands in `bytes` from position `pos` on. Between any bytes
before and after it, a varint reads back and takes one byte for six bits of magnitude or fewer,
and one more for every further seven bits, ten at most (`Varint.decode_encode_framed`).

* The first byte of a varint keeps six bits of the magnitude, the sign and the continuation
  flag; each further byte keeps seven bits and the flag (`flag_clear`, `sign_clear`).
* A magnitude of at most `2^63` takes at most nine further groups (`length_groups_le`), so the
  decoder never runs out of budget, and the groups add up to the magnitude
  (`readGroups_groups`).
* The sign is restored by negating with wrap-around, which also brings back `-2^63`.
-/
namespace GraphDoc

/-! ## Bytes at a position -/

/-- The list `l` stands in `bytes` from position `pos` on. -/
def BytesAt (bytes : ByteArray) (pos : Nat) (l : List UInt8) : Prop :=
  pos ≤ bytes.size ∧ l <+: bytes.data.toList.drop pos

theorem byteArray_getElem? (bytes : ByteArray) (i : Nat) : bytes[i]? = bytes.data.toList[i]? := by
  by_cases h : i < bytes.size
  · simp [h, getElem?_pos]; rfl
  · simp [h]

namespace BytesAt

variable {bytes : ByteArray} {pos : Nat}

theorem le_size {l : List UInt8} (h : BytesAt bytes pos l) : pos + l.length ≤ bytes.size := by
  have := h.2.length_le
  simp only [List.length_drop, Array.length_toList, ByteArray.size_data] at this
  have := h.1
  omega

theorem append {l₁ l₂ : List UInt8} :
    BytesAt bytes pos (l₁ ++ l₂) ↔ BytesAt bytes pos l₁ ∧ BytesAt bytes (pos + l₁.length) l₂ := by
  constructor
  · intro h
    obtain ⟨t, ht⟩ := h.2
    have hdrop : bytes.data.toList.drop (pos + l₁.length) = l₂ ++ t := by
      rw [← List.drop_drop, ← ht, List.append_assoc, List.drop_left]
    refine ⟨⟨h.1, ⟨l₂ ++ t, by rw [← ht, List.append_assoc]⟩⟩, ?_, ⟨t, hdrop.symm⟩⟩
    have := h.le_size
    simp only [List.length_append] at this
    omega
  · rintro ⟨⟨hpos, t₁, h₁⟩, -, t₂, h₂⟩
    refine ⟨hpos, t₂, ?_⟩
    have : t₁ = l₂ ++ t₂ := by rw [h₂, ← List.drop_drop, ← h₁, List.drop_left]
    rw [List.append_assoc, ← this, h₁]

theorem cons {b : UInt8} {l : List UInt8} :
    BytesAt bytes pos (b :: l) ↔ bytes[pos]? = some b ∧ BytesAt bytes (pos + 1) l := by
  rw [← List.singleton_append, append, byteArray_getElem?]
  simp only [List.length_singleton, and_congr_left_iff]
  intro _
  constructor
  · rintro ⟨-, t, ht⟩
    have := congrArg (·[0]?) ht
    simpa [List.getElem?_drop] using this.symm
  · intro h
    obtain ⟨hlt, hb⟩ := List.getElem?_eq_some_iff.1 h
    refine ⟨by simp at hlt; omega, bytes.data.toList.drop (pos + 1), ?_⟩
    rw [List.drop_eq_getElem_cons hlt, hb, List.singleton_append]

/-- Bytes put between two byte arrays stand where the first one ends. -/
theorem framed (p s : ByteArray) (l : List UInt8) : BytesAt (p ++ ⟨l.toArray⟩ ++ s) p.size l := by
  have hdata : (p ++ ⟨l.toArray⟩ ++ s).data.toList = p.data.toList ++ (l ++ s.data.toList) := by
    simp
  refine ⟨by simp only [ByteArray.size_append]; omega, s.data.toList, ?_⟩
  rw [hdata, List.drop_left' (by simp)]

end BytesAt

namespace Varint

/-! ## Flags and groups -/

theorem flag_clear (b : UInt8) : (b &&& 0x80 == 0) = decide (b.toNat < 128) := by
  have h : ∀ i : Fin 256, (i.val &&& 128 = 0) ↔ i.val < 128 := by decide +kernel
  rw [Bool.eq_iff_iff]
  simpa [← UInt8.toNat_inj, UInt8.toNat_and] using h ⟨b.toNat, b.toNat_lt⟩

theorem sign_clear (b : UInt8) : (b &&& 0x40 == 0) = decide (b.toNat % 128 < 64) := by
  have h : ∀ i : Fin 256, (i.val &&& 64 = 0) ↔ i.val % 128 < 64 := by decide +kernel
  rw [Bool.eq_iff_iff]
  simpa [← UInt8.toNat_inj, UInt8.toNat_and] using h ⟨b.toNat, b.toNat_lt⟩

theorem groups_zero : groups 0 = [] := by
  rw [groups]; simp

theorem groups_of_ne_zero {m : Nat} (hm : m ≠ 0) :
    groups m = (m % 128 + if m / 128 = 0 then 0 else 128).toUInt8 :: groups (m / 128) := by
  rw [groups]; simp [hm]

/-- A magnitude below `128 ^ k` takes at most `k` groups. -/
theorem length_groups_le : ∀ k m, m < 128 ^ k → (groups m).length ≤ k
  | 0, m, h => by simp at h; simp [h, groups_zero]
  | k + 1, m, h => by
    by_cases hm : m = 0
    · simp [hm, groups_zero]
    · rw [groups_of_ne_zero hm, List.length_cons]
      have := length_groups_le k (m / 128) (by rw [Nat.pow_succ] at h; omega)
      omega

/-- **The groups of a magnitude read back**: starting at bit `shift` with `acc` read so far,
they add `m · 2^shift`, as a 64-bit word, and end right after their last byte. -/
theorem readGroups_groups {bytes : ByteArray} :
    ∀ budget m pos shift acc, m ≠ 0 → (groups m).length ≤ budget → BytesAt bytes pos (groups m) →
      readGroups bytes budget pos shift acc =
        .ok ((acc + m * 2 ^ shift) % 2 ^ 64, pos + (groups m).length)
  | 0, m, _, _, _, hm, hlen, _ => by simp [groups_of_ne_zero hm] at hlen
  | budget + 1, m, pos, shift, acc, hm, hlen, hat => by
    rw [groups_of_ne_zero hm] at hat hlen ⊢
    obtain ⟨hb, hrest⟩ := BytesAt.cons.1 hat
    have hbyte : (m % 128 + if m / 128 = 0 then 0 else 128).toUInt8.toNat =
        m % 128 + if m / 128 = 0 then 0 else 128 := by
      simp only [Nat.toUInt8_eq, UInt8.toNat_ofNat']; split <;> omega
    rw [readGroups, hb]
    simp only [Utf8.and_mask_eq _ 0x7F 7 rfl, flag_clear, hbyte, Nat.pow_eq]
    by_cases hq : m / 128 = 0
    · simp only [hq, if_true, Nat.add_zero, groups_zero, List.length_singleton]
      have : m % 128 = m := by omega
      simp [this, show m < 128 by omega]
    · have hnext := readGroups_groups budget (m / 128) (pos + 1) (shift + 7)
        ((acc + m % 128 * 2 ^ shift) % 2 ^ 64) hq (by simpa using hlen) hrest
      simp only [hq, if_false, show ¬ (m % 128 + 128 < 128) by omega, decide_false,
        Bool.false_eq_true, if_false, List.length_cons]
      rw [show (m % 128 + 128) % 2 ^ 7 = m % 128 by omega, hnext]
      -- the low group and the rest make up `m`, and the word wraps only once at the end
      have hsplit : m % 128 * 2 ^ shift + m / 128 * 2 ^ (shift + 7) = m * 2 ^ shift := by
        calc m % 128 * 2 ^ shift + m / 128 * 2 ^ (shift + 7)
            = (m % 128 + 128 * (m / 128)) * 2 ^ shift := by rw [Nat.pow_add]; ring
          _ = m * 2 ^ shift := by rw [Nat.mod_add_div]
      simp only [Except.ok.injEq, Prod.mk.injEq]
      refine ⟨?_, by omega⟩
      rw [Nat.mod_add_mod, Nat.add_assoc, hsplit]

/-- Dropping `k` low bits drops `k` from the bit length. -/
theorem size_div_two_pow (m k : Nat) : Nat.size (m / 2 ^ k) = Nat.size m - k := by
  refine eq_of_forall_ge_iff fun s => ?_
  rw [Nat.size_le, Nat.div_lt_iff_lt_mul (Nat.two_pow_pos k), ← Nat.pow_add, ← Nat.size_le]
  omega

/-- A magnitude takes one group for every seven bits, the last one possibly short. -/
theorem length_groups (m : Nat) : (groups m).length = (Nat.size m + 6) / 7 := by
  induction m using Nat.strong_induction_on with
  | _ m ih =>
    by_cases hm : m = 0
    · simp [hm, groups_zero]
    · have hpos := Nat.size_pos.2 (Nat.pos_of_ne_zero hm)
      rw [groups_of_ne_zero hm, List.length_cons, ih (m / 128) (by omega),
        show m / 128 = m / 2 ^ 7 by norm_num, size_div_two_pow]
      omega

/-! ## Values -/

theorem natAbs_le (v : Int64) : v.toInt.natAbs ≤ 2 ^ 63 := by
  have := v.toInt_lt
  have := v.le_toInt
  omega

/-- A value is its magnitude with its sign; negation wraps `2^63` to `-2^63`. -/
theorem ofInt_natAbs (v : Int64) :
    (if v < 0 then -Int64.ofInt v.toInt.natAbs else Int64.ofInt v.toInt.natAbs) = v := by
  have hlt : v < 0 ↔ v.toInt < 0 := by simp [Int64.lt_iff_toInt_lt]
  split
  · next hv =>
    rw [Int.ofNat_natAbs_of_nonpos (by have := hlt.1 hv; omega), Int64.ofInt_neg, Int64.neg_neg,
      Int64.ofInt_toInt]
  · next hv =>
    rw [Int.natAbs_of_nonneg (by have := mt hlt.2 hv; omega), Int64.ofInt_toInt]

/-- **A varint reads back**: from the position where its bytes stand, `decode` gives the value
and the position right after them. -/
theorem decode_encode {bytes : ByteArray} {pos : Nat} (v : Int64)
    (h : BytesAt bytes pos (encode v)) : decode bytes pos = .ok (v, pos + (encode v).length) := by
  have hmag := natAbs_le v
  simp only [encode] at h ⊢
  obtain ⟨h0, hrest⟩ := BytesAt.cons.1 h
  rw [decode, h0]
  set mag := v.toInt.natAbs with hmag_def
  set F := (mag % 64 + if v < 0 then 64 else 0) + if mag / 64 = 0 then 0 else 128 with hF
  have hbyte : F.toUInt8.toNat = F := by
    simp only [Nat.toUInt8_eq, UInt8.toNat_ofNat', hF]; split <;> split <;> omega
  have hlow : (F.toUInt8 &&& 63).toNat = mag % 64 := by
    rw [Utf8.and_mask_eq _ 63 6 rfl, hbyte, hF]; split <;> split <;> omega
  have hsign : (F.toUInt8 &&& 64 == 0) = decide ¬ v < 0 := by
    rw [sign_clear, hbyte, hF]; split <;> split <;> simp_all <;> omega
  have hflag : (F.toUInt8 &&& 128 == 0) = decide (mag / 64 = 0) := by
    rw [flag_clear, hbyte, hF]; split <;> split <;> simp_all <;> omega
  simp only [hsign, hflag, hlow]
  -- the magnitude comes back whole, as one byte or through the groups
  by_cases hq : mag / 64 = 0
  · have hsmall : mag % 64 = mag := by omega
    simp only [hq, decide_true, if_true, hsmall, groups_zero, List.length_singleton,
      Except.ok.injEq, Prod.mk.injEq, and_true]
    refine Eq.trans ?_ (ofInt_natAbs v)
    by_cases hneg : v < 0 <;> simp [hneg, hmag_def]
  · have hwhole : (mag % 64 + mag / 64 * 2 ^ 6) % 2 ^ 64 = mag := by omega
    rw [readGroups_groups 9 (mag / 64) (pos + 1) 6 (mag % 64) hq
      (length_groups_le 9 _ (by omega)) hrest]
    simp only [hq, decide_false, Bool.false_eq_true, if_false, Except.map, hwhole,
      List.length_cons, Except.ok.injEq, Prod.mk.injEq]
    refine ⟨Eq.trans ?_ (ofInt_natAbs v), by omega⟩
    by_cases hneg : v < 0 <;> simp [hneg, hmag_def]

/-- The first byte holds six bits of the magnitude and each further byte seven. -/
theorem length_encode (v : Int64) :
    (encode v).length = 1 + (Nat.size v.toInt.natAbs - 6) ⌈/⌉ 7 := by
  simp only [encode, List.length_cons]
  rw [length_groups, show v.toInt.natAbs / 64 = v.toInt.natAbs / 2 ^ 6 by norm_num,
    size_div_two_pow, Nat.ceilDiv_eq_add_pred_div]
  omega

/-- A magnitude of at most `2^63` has at most 64 bits, so a varint takes at most ten bytes. -/
theorem length_encode_le (v : Int64) : (encode v).length ≤ 10 := by
  have hsize : Nat.size v.toInt.natAbs ≤ 64 := Nat.size_le.2 (by have := natAbs_le v; omega)
  rw [length_encode, Nat.ceilDiv_eq_add_pred_div]
  omega

/-- **A varint reads back between any bytes, and its length is fixed by its magnitude.**
Put after any bytes `p` and before any bytes `s`, the varint of `v` reads back as `v` from the
end of `p` and stops where it ends; it takes one byte when the magnitude is below 64, and one
more for each started group of seven bits after the first six, so never more than ten. This
holds at `-2^63` too, whose magnitude `2^63` is no value of its own. -/
theorem decode_encode_framed (p s : ByteArray) (v : Int64) :
    decode (p ++ ⟨(encode v).toArray⟩ ++ s) p.size = .ok (v, p.size + (encode v).length) ∧
    (encode v).length =
      (if v.toInt.natAbs < 64 then 1 else 1 + (Nat.size v.toInt.natAbs - 6) ⌈/⌉ 7) ∧
    (encode v).length ≤ 10 := by
  refine ⟨decode_encode v (BytesAt.framed p s _), ?_, length_encode_le v⟩
  rw [length_encode]
  split
  · next hsmall =>
    -- six bits or fewer leave no group to count
    have : Nat.size v.toInt.natAbs ≤ 6 := Nat.size_le.2 (by simpa using hsmall)
    rw [Nat.ceilDiv_eq_add_pred_div]
    omega
  · rfl

end Varint

end GraphDoc
