import GraphDoc.Ieee.Round
import Mathlib.Algebra.Order.Field.Power
import Mathlib.Data.Rat.Cast.Order
import Mathlib.Tactic.FieldSimp
import Mathlib.Tactic.GCongr
import Mathlib.Tactic.Linarith
import Mathlib.Tactic.NormNum
import Mathlib.Tactic.Positivity
import Mathlib.Tactic.Ring
/-! # Rounding a ratio to a binary format

`Format.ofRatio` rounds an exact ratio of naturals to a pattern of a binary format. This module
reads its arithmetic as exact rationals: `binade` finds the binade of the ratio
(`binade_spec`), `roundHalfEven` the nearest natural, a tie going to the even one
(`roundHalfEven_eq`), and `Format.kind`, `Format.assemble` and `Format.pack` take a pattern
apart and put it back together (`assemble_fields`, `pack_of_kind`).

The main statement is `Format.ofRatio_of_roundsTo`: a ratio that rounds to a finite nonzero
value of the format, in the sense of `Format.RoundsTo` (within half a unit of the last place,
ties to even, with the narrower gap below a power of two), gives that value's pattern. -/
namespace GraphDoc.Ieee

/-- A power of a numeral as a rational power. -/
theorem natPow_cast (b n : Nat) [b.AtLeastTwo] :
    ((Nat.pow b n : Nat) : ℚ) = (OfNat.ofNat b : ℚ) ^ (n : Int) := by
  rw [zpow_natCast, Nat.pow_eq]; push_cast; rfl

theorem belowPow_iff {num den : Nat} (hden : 0 < den) (k : Int) :
    belowPow num den k = true ↔ (num : ℚ) / den < 2 ^ k := by
  have hd : (0 : ℚ) < den := by exact_mod_cast hden
  unfold belowPow
  split
  · next hk =>
    obtain ⟨n, rfl⟩ := Int.eq_ofNat_of_zero_le hk
    rw [div_lt_iff₀ hd, decide_eq_true_iff, ← natPow_cast 2, mul_comm, ← Nat.cast_mul,
      Int.toNat_natCast, Nat.cast_lt]
  · next hk =>
    obtain ⟨n, hn⟩ : ∃ n : Nat, k = -(n : Int) := ⟨(-k).toNat, by omega⟩
    subst hn
    have h2 : (0 : ℚ) < 2 ^ (n : Int) := zpow_pos (by norm_num) _
    rw [decide_eq_true_iff, zpow_neg, div_lt_iff₀ hd, ← div_eq_inv_mul, lt_div_iff₀ h2,
      ← natPow_cast 2, neg_neg, Int.toNat_natCast, ← Nat.cast_mul, Nat.cast_lt]

/-- **The binade of a ratio**: `2 ^ e ≤ num / den < 2 ^ (e + 1)`. -/
theorem binade_spec {num den : Nat} (hnum : 0 < num) (hden : 0 < den) :
    (2 : ℚ) ^ binade num den ≤ num / den ∧ (num : ℚ) / den < 2 ^ (binade num den + 1) := by
  -- the binary logarithms bound the ratio within a factor of two on either side
  have hn : (2 : ℚ) ^ (Nat.log2 num : Int) ≤ num := by
    rw [zpow_natCast]; exact_mod_cast Nat.log2_self_le (Nat.pos_iff_ne_zero.1 hnum)
  have hn' : (num : ℚ) < 2 ^ ((Nat.log2 num : Int) + 1) := by
    rw [← Nat.cast_succ, zpow_natCast]; exact_mod_cast Nat.lt_log2_self
  have hd : (2 : ℚ) ^ (Nat.log2 den : Int) ≤ den := by
    rw [zpow_natCast]; exact_mod_cast Nat.log2_self_le (Nat.pos_iff_ne_zero.1 hden)
  have hd' : (den : ℚ) < 2 ^ ((Nat.log2 den : Int) + 1) := by
    rw [← Nat.cast_succ, zpow_natCast]; exact_mod_cast Nat.lt_log2_self
  have hden' : (0 : ℚ) < den := by exact_mod_cast hden
  set e : Int := (Nat.log2 num : Int) - Nat.log2 den with he
  have hup : (num : ℚ) / den < 2 ^ (e + 1) := by
    rw [div_lt_iff₀ hden']
    calc (num : ℚ) < 2 ^ ((Nat.log2 num : Int) + 1) := hn'
      _ = 2 ^ (e + 1) * 2 ^ (Nat.log2 den : Int) := by
        rw [← zpow_add₀ (by norm_num)]; congr 1; omega
      _ ≤ 2 ^ (e + 1) * den := by gcongr
  have hlow : (2 : ℚ) ^ (e - 1) < num / den := by
    rw [lt_div_iff₀ hden']
    calc (2 : ℚ) ^ (e - 1) * den < 2 ^ (e - 1) * 2 ^ ((Nat.log2 den : Int) + 1) := by gcongr
      _ = 2 ^ (Nat.log2 num : Int) := by rw [← zpow_add₀ (by norm_num)]; congr 1; omega
      _ ≤ num := hn
  have hbin : binade num den = if belowPow num den e then e - 1 else e := rfl
  rw [hbin]
  split
  · next hb =>
    rw [belowPow_iff hden] at hb
    exact ⟨hlow.le, by rwa [sub_add_cancel]⟩
  · next hb =>
    rw [belowPow_iff hden, not_lt] at hb
    exact ⟨hb, hup⟩

theorem binade_lt_of_lt {num den : Nat} (hnum : 0 < num) (hden : 0 < den) {k : Int}
    (h : (num : ℚ) / den < 2 ^ k) : binade num den < k := by
  by_contra hk
  have : (2 : ℚ) ^ k ≤ 2 ^ binade num den := zpow_le_zpow_right₀ (by norm_num) (by omega)
  linarith [(binade_spec hnum hden).1]

theorem le_binade_of_le {num den : Nat} (hnum : 0 < num) (hden : 0 < den) {k : Int}
    (h : (2 : ℚ) ^ k ≤ num / den) : k ≤ binade num den := by
  by_contra hk
  have : (2 : ℚ) ^ (binade num den + 1) ≤ 2 ^ k := zpow_le_zpow_right₀ (by norm_num) (by omega)
  linarith [(binade_spec hnum hden).2]

theorem nat_le_of_lt_add_one {a b : Nat} (h : (a : ℚ) < b + 1) : a ≤ b := by
  by_contra hc
  have : (b : ℚ) + 1 ≤ a := by exact_mod_cast Nat.not_le.1 hc
  linarith

/-- **Rounding half to even picks the nearest natural**: a natural within half a unit of
`num / den` is the result, when at exactly half a unit it is even. -/
theorem roundHalfEven_eq {num den r : Nat} (hden : 0 < den)
    (hlo : (r : ℚ) - 1 / 2 ≤ num / den) (hhi : (num : ℚ) / den ≤ r + 1 / 2)
    (hlo_tie : (num : ℚ) / den = r - 1 / 2 → r % 2 = 0)
    (hhi_tie : (num : ℚ) / den = r + 1 / 2 → r % 2 = 0) :
    roundHalfEven num den = r := by
  have hden' : (0 : ℚ) < den := by exact_mod_cast hden
  -- the ratio is its quotient plus a fraction in `[0, 1)`
  have hsplit : (num : ℚ) / den = (num / den : Nat) + (num % den : Nat) / den := by
    rw [div_eq_iff hden'.ne', add_mul, div_mul_cancel₀ _ hden'.ne']
    exact_mod_cast (Nat.div_add_mod' num den).symm
  have hf1 : ((num % den : Nat) : ℚ) / den < 1 := by
    rw [div_lt_one hden']; exact_mod_cast Nat.mod_lt _ hden
  have hf0 : (0 : ℚ) ≤ ((num % den : Nat) : ℚ) / den := by positivity
  have hhalf : ((num % den : Nat) : ℚ) / den = 1 / 2 ↔ 2 * (num % den) = den := by
    rw [div_eq_iff hden'.ne']
    constructor
    · intro h; exact_mod_cast (by linarith : (2 * (num % den : Nat) : ℚ) = den)
    · intro h; have : (2 * (num % den : Nat) : ℚ) = den := by exact_mod_cast h
      linarith
  have hgt : ((num % den : Nat) : ℚ) / den > 1 / 2 ↔ 2 * (num % den) > den := by
    rw [gt_iff_lt, lt_div_iff₀ hden']
    constructor
    · intro h; exact_mod_cast (by linarith : (den : ℚ) < 2 * (num % den : Nat))
    · intro h; have : (den : ℚ) < 2 * (num % den : Nat) := by exact_mod_cast h
      linarith
  set q := num / den
  set f := ((num % den : Nat) : ℚ) / den
  rw [hsplit] at hlo hhi hlo_tie hhi_tie
  unfold roundHalfEven
  dsimp only
  split_ifs with h
  · -- rounded up: more than half a unit above the quotient, or a tie at an odd quotient
    rcases h with h | ⟨h, hodd⟩
    · have hf : f > 1 / 2 := hgt.2 h
      have h₁ : q + 1 ≤ r := nat_le_of_lt_add_one (by push_cast; linarith)
      have h₂ : r ≤ q + 1 := nat_le_of_lt_add_one (by push_cast; linarith)
      omega
    · have hf : f = 1 / 2 := hhalf.2 h
      have h₁ : q ≤ r := nat_le_of_lt_add_one (by linarith)
      have h₂ : r ≤ q + 1 := nat_le_of_lt_add_one (by push_cast; linarith)
      rcases Nat.lt_or_ge q r with hlt | hge
      · omega
      · have hr : r = q := by omega
        have := hhi_tie (by rw [hf, hr])
        omega
  · -- rounded down: less than half a unit above, or a tie at an even quotient
    rw [not_or, not_and, not_lt] at h
    rcases Nat.lt_or_ge (2 * (num % den)) den with hlt | hge
    · have hf : f < 1 / 2 :=
        lt_of_le_of_ne (not_lt.1 (mt hgt.1 (by omega))) (mt hhalf.1 (by omega))
      have h₁ : r ≤ q := nat_le_of_lt_add_one (by linarith)
      have h₂ : q ≤ r := nat_le_of_lt_add_one (by linarith)
      omega
    · have hf : f = 1 / 2 := hhalf.2 (by omega)
      have heven : q % 2 = 0 := by have := h.2 (by omega); omega
      have h₁ : q ≤ r := nat_le_of_lt_add_one (by linarith)
      have h₂ : r ≤ q + 1 := nat_le_of_lt_add_one (by push_cast; linarith)
      rcases Nat.lt_or_ge q r with hlt | hge
      · have hr : r = q + 1 := by omega
        have := hlo_tie (by rw [hf, hr]; push_cast; ring)
        omega
      · omega


/-- Rounding `num / den` at the unit `2 ^ q`, as `Format.ofRatio` does, picks the natural
within half a unit of `num / den / 2 ^ q`, an even one at exactly half a unit. -/
theorem roundHalfEven_scaled_eq {num den r : Nat} (hden : 0 < den) (q : Int)
    (hlo : (r : ℚ) - 1 / 2 ≤ num / den / 2 ^ q) (hhi : (num : ℚ) / den / 2 ^ q ≤ r + 1 / 2)
    (hlo_tie : (num : ℚ) / den / 2 ^ q = r - 1 / 2 → r % 2 = 0)
    (hhi_tie : (num : ℚ) / den / 2 ^ q = r + 1 / 2 → r % 2 = 0) :
    (if 0 ≤ q then roundHalfEven num (den * Nat.pow 2 q.toNat)
      else roundHalfEven (num * Nat.pow 2 (-q).toNat) den) = r := by
  split
  · next hq =>
    obtain ⟨n, rfl⟩ := Int.eq_ofNat_of_zero_le hq
    have h : (num : ℚ) / den / 2 ^ (n : Int) = num / ((den * Nat.pow 2 n : Nat) : ℚ) := by
      rw [Nat.cast_mul, natPow_cast 2, div_div]
    rw [h] at hlo hhi hlo_tie hhi_tie
    exact roundHalfEven_eq (Nat.mul_pos hden (by simp [Nat.pow_eq])) hlo hhi hlo_tie hhi_tie
  · next hq =>
    obtain ⟨n, hn⟩ : ∃ n : Nat, q = -(n : Int) := ⟨(-q).toNat, by omega⟩
    subst hn
    have h : (num : ℚ) / den / 2 ^ (-(n : Int)) = ((num * Nat.pow 2 n : Nat) : ℚ) / den := by
      rw [Nat.cast_mul, natPow_cast 2, zpow_neg, div_inv_eq_mul, div_mul_eq_mul_div]
    simp only [neg_neg, Int.toNat_natCast]
    rw [h] at hlo hhi hlo_tie hhi_tie
    exact roundHalfEven_eq hden hlo hhi hlo_tie hhi_tie

namespace Format

variable (f : Format)

theorem pow_fractionWidth_pos : 0 < Nat.pow 2 f.fractionWidth := by simp [Nat.pow_eq]

/-- A pattern is its sign, biased exponent and fraction put back together. -/
theorem assemble_fields {bits : Nat} (hb : bits < Nat.pow 2 f.width) :
    f.assemble (f.signOf bits) (f.fieldOf bits) (f.fractionOf bits) = bits := by
  set A := Nat.pow 2 f.fractionWidth with hA
  set B := Nat.pow 2 f.exponentWidth with hB
  have hAB : Nat.pow 2 (f.width - 1) = A * B := by
    simp only [hA, hB, Nat.pow_eq, width, ← Nat.pow_add]; congr 1; omega
  have hW : Nat.pow 2 f.width = 2 * (A * B) := by
    rw [← hAB]; simp only [Nat.pow_eq, width, ← Nat.pow_succ']; congr 1; omega
  have hApos : 0 < A := f.pow_fractionWidth_pos
  have hBpos : 0 < B := by simp [hB, Nat.pow_eq]
  unfold assemble signOf fieldOf fractionOf
  rw [hAB, ← hA, ← hB]
  -- the top part is the sign bit, below it the exponent field, below that the fraction
  have h1 := Nat.div_add_mod bits A
  have h2 := Nat.div_add_mod (bits / A) B
  have h3 : bits / A / B = bits / (A * B) := Nat.div_div_eq_div_mul bits A B
  have hs : bits / (A * B) < 2 := Nat.div_lt_of_lt_mul (by rw [hW] at hb; linarith)
  have hsum : bits = bits / (A * B) * (A * B) + bits / A % B * A + bits % A := by
    calc bits = A * (bits / A) + bits % A := h1.symm
      _ = A * (B * (bits / A / B) + bits / A % B) + bits % A := by rw [h2]
      _ = bits / (A * B) * (A * B) + bits / A % B * A + bits % A := by rw [h3]; ring
  generalize bits / (A * B) = t at hs hsum ⊢
  rcases (by omega : t = 0 ∨ t = 1) with hz | hz
  · rw [hz] at hsum ⊢
    simp only [Nat.zero_mod, beq_iff_eq, zero_ne_one, if_false]
    omega
  · rw [hz] at hsum ⊢
    simp only [Nat.one_mod, beq_self_eq_true, if_true]
    omega

theorem fieldOf_lt (bits : Nat) : f.fieldOf bits < Nat.pow 2 f.exponentWidth :=
  Nat.mod_lt _ (by simp [Nat.pow_eq])

theorem fractionOf_lt (bits : Nat) : f.fractionOf bits < Nat.pow 2 f.fractionWidth :=
  Nat.mod_lt _ f.pow_fractionWidth_pos

/-- **What a finite pattern stands for**: a subnormal significand (the bare fraction) at the
least exponent, or a normal one with its hidden bit at the exponent its field gives. -/
theorem kind_eq_finite {bits m : Nat} {q : Int} (hk : f.kind bits = .finite m q) :
    (f.fieldOf bits = 0 ∧ m = f.fractionOf bits ∧ q = f.minExponent) ∨
      (0 < f.fieldOf bits ∧ f.fieldOf bits < f.topField ∧
        m = Nat.pow 2 f.fractionWidth + f.fractionOf bits ∧
        q = f.minExponent + (f.fieldOf bits - 1 : Nat)) := by
  have hlt := f.fieldOf_lt bits
  unfold kind at hk
  dsimp only at hk
  split_ifs at hk with htop hfrac hzero
  · simp only [beq_iff_eq] at hzero
    simp only [Kind.finite.injEq] at hk
    exact .inl ⟨hzero, hk.1.symm, hk.2.symm⟩
  · simp only [beq_iff_eq] at htop hzero
    simp only [Kind.finite.injEq] at hk
    refine .inr ⟨Nat.pos_of_ne_zero hzero, ?_, hk.1.symm, hk.2.symm⟩
    have : f.topField = Nat.pow 2 f.exponentWidth - 1 := rfl
    omega

/-- Packing the significand and exponent of a finite pattern gives the pattern back. -/
theorem pack_of_kind (hp : 1 ≤ f.precision) {bits m : Nat} {q : Int}
    (hb : bits < Nat.pow 2 f.width) (hk : f.kind bits = .finite m q) :
    f.pack (f.signOf bits) m q = bits := by
  have hprec : Nat.pow 2 f.precision = 2 * Nat.pow 2 f.fractionWidth := by
    simp only [Nat.pow_eq, fractionWidth, ← Nat.pow_succ']; congr 1; omega
  have hfr := f.fractionOf_lt bits
  unfold pack
  rcases f.kind_eq_finite hk with ⟨hz, rfl, rfl⟩ | ⟨hpos, htop, rfl, rfl⟩
  · -- subnormal: the field is zero and the significand the bare fraction
    simp only [show ¬ f.fractionOf bits ≥ Nat.pow 2 f.precision by omega, if_false, hfr, if_true]
    rw [← hz]
    exact f.assemble_fields hb
  · simp only [show ¬ Nat.pow 2 f.fractionWidth + f.fractionOf bits ≥ Nat.pow 2 f.precision by omega,
      if_false, show ¬ Nat.pow 2 f.fractionWidth + f.fractionOf bits < Nat.pow 2 f.fractionWidth by omega]
    have hfield : (f.minExponent + ((f.fieldOf bits - 1 : Nat) : Int) - f.minExponent).toNat + 1 =
        f.fieldOf bits := by omega
    rw [hfield, if_neg (by omega), Nat.add_sub_cancel_left]
    exact f.assemble_fields hb


/-- The ratio `v` rounds, ties to even, to the positive value `m · 2 ^ q` of the format:
measured in units of `2 ^ q` it is within half a unit of `m`, or only a quarter below at the
least significand of a binade above the subnormals, where the neighbour below is half as far;
the ends belong when `m` is even. -/
def RoundsTo (m : Nat) (q : Int) (v : ℚ) : Prop :=
  let w := v / 2 ^ q
  let below : ℚ := if m = Nat.pow 2 f.fractionWidth ∧ f.minExponent < q then 1 / 4 else 1 / 2
  (m - below < w ∨ (m % 2 = 0 ∧ w = m - below)) ∧ (w < m + 1 / 2 ∨ (m % 2 = 0 ∧ w = m + 1 / 2))

/-- A significand carried to `2 ^ precision` moves up one binade. -/
theorem pack_carry (hp : 1 ≤ f.precision) (neg : Bool) (q : Int) :
    f.pack neg (2 * Nat.pow 2 f.fractionWidth) (q - 1) = f.pack neg (Nat.pow 2 f.fractionWidth) q := by
  have hprec : Nat.pow 2 f.precision = 2 * Nat.pow 2 f.fractionWidth := by
    simp only [Nat.pow_eq, fractionWidth, ← Nat.pow_succ']; congr 1; omega
  have hP := f.pow_fractionWidth_pos
  unfold pack
  rw [if_pos (by omega), if_neg (by omega), Nat.mul_div_cancel_left _ (by norm_num), sub_add_cancel]

/-- **The unit a ratio is rounded at**: `ofRatio` rounds at `2 ^ q` when the ratio is below
`2 * 2 ^ fractionWidth` units of `2 ^ q`, and either `q` is the least exponent or the ratio is at
least `2 ^ fractionWidth` of those units, so that its significand has `precision` bits. -/
theorem unitExponent_eq {num den : Nat} (hnum : 0 < num) (hden : 0 < den) {q : Int}
    (hqmin : f.minExponent ≤ q)
    (hhi : (num : ℚ) / den / 2 ^ q < 2 * (Nat.pow 2 f.fractionWidth : Nat))
    (hlo : q = f.minExponent ∨ ((Nat.pow 2 f.fractionWidth : Nat) : ℚ) ≤ num / den / 2 ^ q) :
    max (binade num den - f.fractionWidth) f.minExponent = q := by
  have h2q : (0 : ℚ) < 2 ^ q := zpow_pos (by norm_num) q
  have hP2 : ((Nat.pow 2 f.fractionWidth : Nat) : ℚ) = 2 ^ (f.fractionWidth : Int) := natPow_cast 2 _
  -- the ratio lies below the binade of `2 * 2 ^ fractionWidth` units
  have hbelow : binade num den < f.fractionWidth + 1 + q := by
    refine binade_lt_of_lt hnum hden ?_
    rw [zpow_add₀ (by norm_num), zpow_add₀ (by norm_num), zpow_one, ← hP2, ← div_lt_iff₀ h2q]
    linarith
  rcases hlo with rfl | hlo
  · omega
  · -- and at or above that of `2 ^ fractionWidth` units
    have habove : f.fractionWidth + q ≤ binade num den := by
      refine le_binade_of_le hnum hden ?_
      rw [zpow_add₀ (by norm_num), ← hP2, ← le_div_iff₀ h2q]
      exact hlo
    omega

/-- **A ratio that rounds to a finite value reads back as its pattern**: `ofRatio` finds the
binade of the ratio, whose unit is that of the value (one binade lower when the ratio lies
just below a power of two, where the rounding carries back up), and rounds to the value's
significand. -/
theorem ofRatio_of_roundsTo (hp : 2 ≤ f.precision) {bits num den m : Nat} {q : Int}
    (hb : bits < Nat.pow 2 f.width) (hk : f.kind bits = .finite m q) (hm : 0 < m)
    (hnum : 0 < num) (hden : 0 < den) (hv : f.RoundsTo m q (num / den)) :
    f.ofRatio (f.signOf bits) num den = bits := by
  -- it suffices to find the exponent and significand that `ofRatio` computes
  suffices h : ∃ m' q', max (binade num den - f.fractionWidth) f.minExponent = q' ∧
      (if 0 ≤ q' then roundHalfEven num (den * Nat.pow 2 q'.toNat)
        else roundHalfEven (num * Nat.pow 2 (-q').toNat) den) = m' ∧
      f.pack (f.signOf bits) m' q' = f.pack (f.signOf bits) m q by
    obtain ⟨m', q', hq', hm', hpk⟩ := h
    unfold ofRatio
    rw [if_neg (by omega)]
    dsimp only
    rw [hq', hm', hpk, f.pack_of_kind (by omega) hb hk]
  set P := Nat.pow 2 f.fractionWidth with hPdef
  have hPpos : 0 < P := f.pow_fractionWidth_pos
  have hP1 : (1 : ℚ) ≤ P := by exact_mod_cast hPpos
  have hPeven : P % 2 = 0 := by
    obtain ⟨k, hk⟩ : ∃ k, f.fractionWidth = k + 1 := ⟨f.fractionWidth - 1, by unfold fractionWidth; omega⟩
    simp only [hPdef, hk, Nat.pow_eq, Nat.pow_succ, Nat.mul_mod_left]
  have hfr := f.fractionOf_lt bits
  have hmP : m < 2 * P := by rcases f.kind_eq_finite hk with ⟨-, rfl, -⟩ | ⟨-, -, rfl, -⟩ <;> omega
  have hqmin : f.minExponent ≤ q := by
    rcases f.kind_eq_finite hk with ⟨-, -, rfl⟩ | ⟨-, -, -, rfl⟩ <;> omega
  have hsub : m < P → q = f.minExponent := by
    rcases f.kind_eq_finite hk with ⟨-, -, rfl⟩ | ⟨-, -, rfl, -⟩ <;> intro h <;> omega
  unfold RoundsTo at hv
  dsimp only at hv
  obtain ⟨hlo, hhi⟩ := hv
  have hwhi : (num : ℚ) / den / 2 ^ q ≤ m + 1 / 2 := by
    rcases hhi with h | ⟨-, h⟩ <;> linarith
  -- the ratio lies below the next binade
  have hwlt : (num : ℚ) / den / 2 ^ q < 2 * P := by
    have : (m : ℚ) + 1 ≤ 2 * P := by exact_mod_cast hmP
    linarith
  by_cases hn : m = P ∧ f.minExponent < q
  · -- the least significand of a binade: the ratio may lie a quarter unit below it
    rw [if_pos hn] at hlo
    obtain ⟨rfl, hqgt⟩ := hn
    have hwlo : (P : ℚ) - 1 / 4 ≤ num / den / 2 ^ q := by
      rcases hlo with h | ⟨-, h⟩ <;> linarith
    rcases le_or_gt (P : ℚ) (num / den / 2 ^ q) with hge | hlt
    · refine ⟨P, q, f.unitExponent_eq hnum hden hqmin hwlt (.inr hge), ?_, rfl⟩
      refine roundHalfEven_scaled_eq hden q (by linarith) hwhi (fun h => by linarith) ?_
      intro h; exact hPeven
    · -- below the power of two: one binade lower, where rounding carries up to `2 * P`
      have hscale : (num : ℚ) / den / 2 ^ (q - 1) = 2 * (num / den / 2 ^ q) := by
        rw [zpow_sub₀ (by norm_num), zpow_one]; field_simp
      refine ⟨2 * P, q - 1, f.unitExponent_eq hnum hden (by omega) ?_ (.inr ?_), ?_,
        f.pack_carry (by omega) _ q⟩
      · rw [hscale]; linarith
      · rw [hscale]; linarith
      · refine roundHalfEven_scaled_eq hden (q - 1) ?_ ?_ ?_ ?_ <;> rw [hscale] <;> push_cast
        · linarith
        · linarith
        · intro _; omega
        · intro h; linarith
  · -- away from the bottom of a binade the value's own unit is found, and the significand
    rw [if_neg hn] at hlo
    -- the ratio reaches `P` units unless the value is subnormal
    have hwlo : q = f.minExponent ∨ (P : ℚ) ≤ num / den / 2 ^ q := by
      rcases Nat.lt_or_ge P m with hgt | hle
      · have : (P : ℚ) + 1 ≤ m := by exact_mod_cast hgt
        right
        rcases hlo with h | ⟨-, h⟩ <;> linarith
      · left
        rcases Nat.lt_or_ge m P with hlt | hge
        · exact hsub hlt
        · by_contra hne
          exact hn ⟨by omega, by omega⟩
    refine ⟨m, q, f.unitExponent_eq hnum hden hqmin hwlt hwlo, ?_, rfl⟩
    refine roundHalfEven_scaled_eq hden q ?_ hwhi ?_ ?_
    · rcases hlo with h | ⟨-, h⟩ <;> linarith
    · intro h; rcases hlo with h' | ⟨he, -⟩
      · linarith
      · exact he
    · intro h; rcases hhi with h' | ⟨he, -⟩
      · linarith
      · exact he

end Format

end GraphDoc.Ieee
