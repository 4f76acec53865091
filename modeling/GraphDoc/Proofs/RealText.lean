import GraphDoc.Text.Write
import GraphDoc.Proofs.Rounding
import GraphDoc.Proofs.Numeral
/-! # Reading printed reals back

The text of a finite real is the shortest decimal that reads back as it, laid out with or
without an exponent (`TextWrite.real`). This module proves that reading that text, as
`Binary64.read?` does, gives the same value, bit for bit (`read?_real`): the shortest decimal
lies among the reals that round to the value (`Format.roundsTo_shortest`), its layout is a
numeral of the same value (`Notation.layout_numeral`), and `Format.ofLiteral` rounds that
numeral back to the value's pattern. -/
namespace GraphDoc.Ieee

theorem compare_eq_of_iff {α β : Type*} [LinearOrder α] [LinearOrder β] {a b : α} {c d : β}
    (hlt : a < b ↔ c < d) (heq : a = b ↔ c = d) : compare a b = compare c d := by
  rcases lt_trichotomy a b with h | h | h
  · rw [compare_lt_iff_lt.2 h, compare_lt_iff_lt.2 (hlt.1 h)]
  · rw [compare_eq_iff_eq.2 h, compare_eq_iff_eq.2 (heq.1 h)]
  · have h₁ : ¬ c < d := fun h' => absurd (hlt.2 h') (not_lt.2 h.le)
    have h₂ : c ≠ d := fun h' => absurd (heq.2 h') (ne_of_gt h)
    rw [compare_gt_iff_gt.2 h, compare_gt_iff_gt.2 (lt_of_le_of_ne (not_lt.1 h₁) (Ne.symm h₂))]

/-- **The exact comparison of `a · 10 ^ i` with `n · 2 ^ j`**, done on naturals by moving the
negative powers to the other side. -/
theorem cmpScaled_eq (a : Nat) (i : Int) (n : Nat) (j : Int) :
    cmpScaled a i n j = compare ((a : ℚ) * 10 ^ i) ((n : ℚ) * 2 ^ j) := by
  have h10 : (10 : ℚ) ^ (i.toNat : Int) = 10 ^ i * 10 ^ ((-i).toNat : Int) := by
    rw [← zpow_add₀ (by norm_num)]; congr 1; omega
  have h2 : (2 : ℚ) ^ (j.toNat : Int) = 2 ^ j * 2 ^ ((-j).toNat : Int) := by
    rw [← zpow_add₀ (by norm_num)]; congr 1; omega
  set S : ℚ := 10 ^ ((-i).toNat : Int) * 2 ^ ((-j).toNat : Int) with hS
  have hSpos : 0 < S := by positivity
  have hL : ((a * Nat.pow 10 i.toNat * Nat.pow 2 (-j).toNat : Nat) : ℚ) = a * 10 ^ i * S := by
    push_cast [natPow_cast, h10]; ring
  have hR : ((n * Nat.pow 2 j.toNat * Nat.pow 10 (-i).toNat : Nat) : ℚ) = n * 2 ^ j * S := by
    push_cast [natPow_cast, h2]; ring
  unfold cmpScaled
  refine compare_eq_of_iff ?_ ?_
  · rw [← Nat.cast_lt (α := ℚ), hL, hR, mul_lt_mul_iff_of_pos_right hSpos]
  · rw [← Nat.cast_inj (R := ℚ), hL, hR, mul_left_inj' hSpos.ne']

/-- The comparison that `Format.readsBack` makes, in units of `2 ^ q`. -/
theorem cmpScaled_sub_two (a : Nat) (i : Int) (n : Nat) (q : Int) :
    cmpScaled a i n (q - 2) = compare ((a : ℚ) * 10 ^ i / 2 ^ q) ((n : ℚ) / 4) := by
  have hq : (0 : ℚ) < 2 ^ q := by positivity
  have h4 : (n : ℚ) * 2 ^ (q - 2) = n / 4 * 2 ^ q := by
    rw [zpow_sub₀ two_ne_zero]; norm_num; ring
  rw [cmpScaled_eq, h4]
  exact compare_eq_of_iff (div_lt_iff₀ hq).symm (div_eq_iff hq.ne').symm

namespace Format
variable (f : Format)

theorem roundsTo_of_readsBack {m : Nat} {q : Int} {d : Decimal} (hm : 0 < m)
    (h : f.readsBack m q d = true) : f.RoundsTo m q (d.digits * 10 ^ d.exponent) := by
  have hlo : ∀ (p : Prop) [Decidable p], (if p then ((4 * m - 1 : Nat) : ℚ) else ((4 * m - 2 : Nat) : ℚ)) / 4 =
      m - (if p then 1 / 4 else 1 / 2) := by
    intro p _
    split_ifs
    · rw [Nat.cast_sub (by omega)]; push_cast; ring
    · rw [Nat.cast_sub (by omega)]; push_cast; ring
  have hhi : ((4 * m + 2 : Nat) : ℚ) / 4 = m + 1 / 2 := by push_cast; ring
  unfold readsBack at h
  simp only [cmpScaled_sub_two, hhi, Bool.and_eq_true, Bool.or_eq_true, beq_iff_eq,
    compare_gt_iff_gt, compare_eq_iff_eq, compare_lt_iff_lt, Nat.cast_ite] at h
  unfold RoundsTo
  simpa [hlo] using h
end Format

/-- The rational a decimal stands for. -/
def Decimal.value (d : Decimal) : ℚ := d.digits * 10 ^ d.exponent

/-- Moving trailing zeros into the exponent keeps the value. -/
theorem Decimal.value_trim (digits : Nat) (exponent : Int) :
    (Decimal.trim digits exponent).value = digits * 10 ^ exponent := by
  fun_induction Decimal.trim digits exponent with
  | case1 digits exponent h ih =>
    rw [ih, zpow_add_one₀ (by norm_num)]
    have h10 : ((digits / 10 : Nat) : ℚ) * 10 = digits := by
      exact_mod_cast Nat.div_mul_cancel (Nat.dvd_of_mod_eq_zero h.2)
    rw [← h10]; ring
  | case2 digits exponent _ => rfl

namespace Format
variable (f : Format)

theorem readsBack_of_gridHit {tie : Tie} {m : Nat} {q g : Int} {d : Decimal}
    (h : f.gridHit tie m q g = some d) : f.readsBack m q d = true := by
  unfold gridHit at h
  dsimp only at h
  split_ifs at h with hboth hpick hlow hhigh <;> cases h
  · simp only [Bool.and_eq_true] at hboth
    exact hboth.2
  · simp only [Bool.and_eq_true] at hboth
    exact hboth.1
  · exact hlow
  · exact hhigh

/-- A value rounds to itself. -/
theorem roundsTo_self (m : Nat) (q : Int) : f.RoundsTo m q (m * 2 ^ q) := by
  have hw : (m : ℚ) * 2 ^ q / 2 ^ q = m := by field_simp
  unfold RoundsTo
  dsimp only
  rw [hw]
  constructor
  · left; split_ifs <;> linarith
  · left; linarith

/-- **The shortest decimal reads back**: its value lies among the reals that round to the
positive value `m · 2 ^ q`. -/
theorem roundsTo_shortest (tie : Tie) {m : Nat} {q : Int} (hm : 0 < m) :
    f.RoundsTo m q (f.shortest tie m q).value := by
  unfold shortest
  dsimp only
  cases hhit : (List.range 20).findSome? fun (n : Nat) => f.gridHit tie m q (decimalScale m q - 1 - n) with
  | some d =>
    obtain ⟨n, -, hn⟩ := List.exists_of_findSome?_eq_some hhit
    dsimp only
    rw [Decimal.value_trim]
    exact f.roundsTo_of_readsBack hm (f.readsBack_of_gridHit hn)
  | none =>
    -- no grid hit: the exact value, which is `m` units of `2 ^ q`
    have hexact : (if 0 ≤ q then Decimal.trim (m * Nat.pow 2 q.toNat) 0
        else Decimal.trim (m * Nat.pow 5 (-q).toNat) q).value = m * 2 ^ q := by
      split_ifs with hq
      · rw [Decimal.value_trim]; push_cast [natPow_cast]
        rw [Int.toNat_of_nonneg hq]; simp
      · rw [Decimal.value_trim]; push_cast [natPow_cast]
        rw [Int.toNat_of_nonneg (by omega), zpow_neg, show (10 : ℚ) = 2 * 5 by norm_num, mul_zpow]
        field_simp
    dsimp only
    rw [hexact]
    exact f.roundsTo_self m q

end Format

namespace Notation

open Literal

theorem toList_zeros (k : Nat) : (zeros k).toList = List.replicate k '0' := by
  simp [zeros]

/-- **A layout is a numeral of the decimal's value**, with a point or an exponent. -/
theorem layout_numeral (n : Notation) (d : Decimal) :
    ∃ num : Numeral, num.WellFormed ∧ (num.fraction.isSome ∨ num.exponent.isSome) ∧
      (n.layout d).toList = num.chars ∧ (num.digits : ℚ) * 10 ^ num.exponentValue = d.value := by
  obtain ⟨ds, hds⟩ : ∃ ds, Nat.toDigits 10 d.digits = ds := ⟨_, rfl⟩
  have hne : ds ≠ [] := hds ▸ Nat.toDigits_ne_nil
  have hdig : ∀ c ∈ ds, c.isDigit = true := fun c hc => isDigit_of_mem_toDigits (hds ▸ hc)
  have hval : digitsValue ds = d.digits := hds ▸ digitsValue_toDigits _
  have hs : (toString d.digits).toList = ds := by simp [hds]
  have hlen : (toString d.digits).length = ds.length := by rw [← String.length_toList, hs]
  have hpos : 0 < ds.length := List.length_pos_iff.2 hne
  unfold layout
  dsimp only
  rw [hlen]
  generalize hlead : d.exponent + (ds.length : Int) - 1 = lead
  by_cases hplain : n.plainFrom ≤ lead ∧ lead < n.plainBelow
  · rw [if_pos hplain]
    by_cases he : 0 ≤ d.exponent
    · -- positional, a whole number: the digits, the zeros of the exponent, `.0`
      rw [if_pos he]
      refine ⟨⟨ds ++ List.replicate d.exponent.toNat '0', some ['0'], none⟩,
        .positional (by simp [hne]) ?_ (by simp), .inl rfl, ?_, ?_⟩
      · intro c hc
        rcases List.mem_append.1 hc with hc | hc
        · exact hdig c hc
        · rw [List.eq_of_mem_replicate hc]; rfl
      · simp [Numeral.chars, Numeral.pointPart, Numeral.exponentPart, hds, toList_zeros]
      · obtain ⟨k, hk⟩ := Int.eq_ofNat_of_zero_le he
        have hd : digitsValue (ds ++ List.replicate k '0' ++ ['0']) = d.digits * 10 ^ (k + 1) := by
          rw [List.append_assoc, ← List.replicate_succ', digitsValue_append_zeros, hval]
        simp only [Numeral.digits, Numeral.exponentValue, Numeral.fractionDigits, Numeral.scale,
          Option.getD, Decimal.value, hk, Int.toNat_natCast, hd]
        push_cast
        rw [zpow_natCast, show ((0 : Int) - ((['0'] : List Char).length : Int)) = -1 from rfl,
          zpow_neg_one, pow_succ]
        field_simp
    · rw [if_neg he]
      by_cases hl : 0 ≤ lead
      · -- positional, the point among the digits
        rw [if_pos hl]
        refine ⟨⟨ds.take (lead.toNat + 1), some (ds.drop (lead.toNat + 1)), none⟩,
          .positional (by simp [hne]) (fun c hc => hdig c (List.mem_of_mem_take hc))
            (fun c hc => hdig c (List.mem_of_mem_drop hc)), .inl rfl, ?_, ?_⟩
        · simp [Numeral.chars, Numeral.pointPart, Numeral.exponentPart, hds]
        · have hexp : (0 : Int) - ((ds.drop (lead.toNat + 1)).length : Int) = d.exponent := by
            rw [List.length_drop]; omega
          simp only [Numeral.digits, Numeral.exponentValue, Numeral.fractionDigits, Numeral.scale,
            Option.getD, Decimal.value, List.take_append_drop, hval, hexp]
      · -- positional below one: `0.`, zeros, then the digits
        rw [if_neg hl]
        refine ⟨⟨['0'], some (List.replicate ((-lead).toNat - 1) '0' ++ ds), none⟩,
          .positional (by simp) (by simp) ?_, .inl rfl, ?_, ?_⟩
        · intro c hc
          rcases List.mem_append.1 hc with hc | hc
          · rw [List.eq_of_mem_replicate hc]; rfl
          · exact hdig c hc
        · simp [Numeral.chars, Numeral.pointPart, Numeral.exponentPart, hds, toList_zeros]
        · have hexp : (0 : Int) - ((List.replicate ((-lead).toNat - 1) '0' ++ ds).length : Int) =
              d.exponent := by
            rw [List.length_append, List.length_replicate]; omega
          have hd : digitsValue (['0'] ++ (List.replicate ((-lead).toNat - 1) '0' ++ ds)) = d.digits := by
            rw [← List.append_assoc, List.singleton_append, ← List.replicate_succ,
              digitsValue_zeros_append, hval]
          simp only [Numeral.digits, Numeral.exponentValue, Numeral.fractionDigits, Numeral.scale,
            Option.getD, Decimal.value, hd, hexp]
  · -- with an exponent: the leading digit, the others after a point, then the exponent
    rw [if_neg hplain]
    generalize hsg : (if lead < 0 then "-" else if n.plusExponent = true then "+" else "") = sg
    have hsign : sg.toList = [] ∨ sg.toList = ['+'] ∨ sg.toList = ['-'] := by
      subst hsg; split_ifs <;> simp
    have hminus : sg.toList = ['-'] ↔ lead < 0 := by
      subst hsg; split_ifs <;> simp [*]
    have hscale : (if sg.toList = ['-'] then -(digitsValue (Nat.toDigits 10 lead.natAbs) : Int)
        else digitsValue (Nat.toDigits 10 lead.natAbs)) = lead := by
      rw [digitsValue_toDigits]; split_ifs with h <;> simp only [hminus] at h <;> omega
    have hexpd : ∀ c ∈ Nat.toDigits 10 lead.natAbs, c.isDigit = true :=
      fun c hc => isDigit_of_mem_toDigits hc
    by_cases hone : ds.length = 1
    · rw [if_pos hone]
      refine ⟨⟨ds, none, some (sg.toList, Nat.toDigits 10 lead.natAbs)⟩,
        .scientific hne hdig (by simp) hsign Nat.toDigits_ne_nil hexpd, .inr rfl, ?_, ?_⟩
      · simp [Numeral.chars, Numeral.pointPart, Numeral.exponentPart, hds]
      · have hexp : lead - (([] : List Char).length : Int) = d.exponent := by simp; omega
        simp only [Numeral.digits, Numeral.exponentValue, Numeral.fractionDigits, Numeral.scale,
          Option.getD, Decimal.value, List.append_nil, hval, hscale, hexp]
    · rw [if_neg hone]
      refine ⟨⟨ds.take 1, some (ds.drop 1), some (sg.toList, Nat.toDigits 10 lead.natAbs)⟩,
        .scientific (by simp [hne]) (fun c hc => hdig c (List.mem_of_mem_take hc))
          (fun c hc => hdig c (List.mem_of_mem_drop hc)) hsign Nat.toDigits_ne_nil hexpd,
        .inl rfl, ?_, ?_⟩
      · simp [Numeral.chars, Numeral.pointPart, Numeral.exponentPart, hds]
      · have hexp : lead - ((ds.drop 1).length : Int) = d.exponent := by
          rw [List.length_drop]; omega
        simp only [Numeral.digits, Numeral.exponentValue, Numeral.fractionDigits, Numeral.scale,
          Option.getD, Decimal.value, List.take_append_drop, hval, hscale, hexp]

end Notation

/-- The number of digits of a positive natural bounds it between powers of ten. -/
theorem decimalLength_bounds {D : Nat} (hD : 0 < D) :
    10 ^ (decimalLength D - 1) ≤ D ∧ D < 10 ^ decimalLength D := by
  have hpos : 0 < decimalLength D := Nat.length_toDigits_pos
  refine ⟨?_, (Nat.length_toDigits_le_iff (by decide) hpos).1 le_rfl⟩
  rcases Nat.lt_or_ge 1 (decimalLength D) with h | h
  · by_contra hlt
    have := (Nat.length_toDigits_le_iff (b := 10) (n := D) (k := decimalLength D - 1) (by decide)
      (by omega)).2 (by omega)
    unfold decimalLength at h this
    omega
  · rw [show decimalLength D - 1 = 0 by omega, Nat.pow_zero]; exact hD

namespace Format

variable (f : Format)

/-- A value that rounds to the finite nonzero value `m · 2 ^ q` of a pattern lies between half
a unit and the next binade. -/
theorem RoundsTo.bounds {bits m : Nat} {q : Int} {v : ℚ} (hk : f.kind bits = .finite m q)
    (hm : 0 < m) (hv : f.RoundsTo m q v) :
    (2 : ℚ) ^ (q - 1) ≤ v ∧ v < 2 ^ (q + f.fractionWidth + 1) := by
  have hfr := f.fractionOf_lt bits
  have hmP : m < 2 * Nat.pow 2 f.fractionWidth := by
    rcases f.kind_eq_finite hk with ⟨-, rfl, -⟩ | ⟨-, -, rfl, -⟩ <;> omega
  have h2q : (0 : ℚ) < 2 ^ q := by positivity
  unfold RoundsTo at hv
  dsimp only at hv
  obtain ⟨hlo, hhi⟩ := hv
  have hwlo : (m : ℚ) - 1 / 2 ≤ v / 2 ^ q := by
    split_ifs at hlo <;> rcases hlo with h | ⟨-, h⟩ <;> linarith
  have hwhi : v / 2 ^ q ≤ m + 1 / 2 := by rcases hhi with h | ⟨-, h⟩ <;> linarith
  constructor
  · -- at least half a unit
    have : (1 : ℚ) ≤ m := by exact_mod_cast hm
    rw [le_div_iff₀ h2q] at hwlo
    calc (2 : ℚ) ^ (q - 1) = 1 / 2 * 2 ^ q := by rw [zpow_sub₀ (by norm_num), zpow_one]; ring
      _ ≤ v := by nlinarith
  · -- below twice the least significand of the binade
    have hm' : (m : ℚ) + 1 / 2 < 2 ^ ((f.fractionWidth : Int) + 1) := by
      rw [zpow_add_one₀ (by norm_num), ← natPow_cast]
      have : (m : ℚ) + 1 ≤ 2 * Nat.pow 2 f.fractionWidth := by exact_mod_cast hmP
      linarith
    calc v ≤ (m + 1 / 2) * 2 ^ q := (div_le_iff₀ h2q).1 hwhi
      _ < 2 ^ ((f.fractionWidth : Int) + 1) * 2 ^ q := by gcongr
      _ = 2 ^ (q + f.fractionWidth + 1) := by rw [← zpow_add₀ (by norm_num)]; congr 1; ring

/-- **A decimal literal that rounds to a finite nonzero value reads as its pattern**, when
its exponent is within the range that `ofLiteral` computes exactly. -/
theorem ofLiteral_of_roundsTo (hp : 2 ≤ f.precision) {bits m : Nat} {q : Int}
    (hb : bits < Nat.pow 2 f.width) (hk : f.kind bits = .finite m q) (hm : 0 < m) {D : Nat}
    {E : Int} (hD : 0 < D) (hcut : -400 ≤ (decimalLength D : Int) + E ∧
      (decimalLength D : Int) + E ≤ 400) (hv : f.RoundsTo m q (D * 10 ^ E)) :
    f.ofLiteral (.number (f.signOf bits) D E) = bits := by
  unfold ofLiteral
  dsimp only
  rw [if_neg (by omega), if_neg (by omega), if_neg (by omega)]
  split
  · next hE =>
    obtain ⟨k, rfl⟩ := Int.eq_ofNat_of_zero_le hE
    refine f.ofRatio_of_roundsTo hp hb hk hm (Nat.mul_pos hD (by simp [Nat.pow_eq])) one_pos ?_
    push_cast [natPow_cast]
    simpa using hv
  · next hE =>
    obtain ⟨k, hk'⟩ : ∃ k : Nat, E = -(k : Int) := ⟨(-E).toNat, by omega⟩
    subst hk'
    refine f.ofRatio_of_roundsTo hp hb hk hm hD (by simp [Nat.pow_eq]) ?_
    simp only [neg_neg, Int.toNat_natCast]
    rw [natPow_cast]
    rw [zpow_neg, ← div_eq_mul_inv] at hv
    exact hv

/-- A zero pattern is the zero of its sign. -/
theorem zero_of_kind {bits : Nat} {q : Int} (hb : bits < Nat.pow 2 f.width)
    (hk : f.kind bits = .finite 0 q) : f.zero (f.signOf bits) = bits := by
  have hP := f.pow_fractionWidth_pos
  rcases f.kind_eq_finite hk with ⟨hz, hm, -⟩ | ⟨-, -, hm, -⟩
  · have h : f.zero (f.signOf bits) = f.assemble (f.signOf bits) (f.fieldOf bits) (f.fractionOf bits) := by
      rw [hz, ← hm]; rfl
    rw [h, f.assemble_fields hb]
  · omega

end Format

theorem two_pow_lt_ten_pow : (2 : ℚ) ^ (1075 : Int) < 10 ^ (400 : Int) := by
  have h : (2 : ℕ) ^ 1075 < 10 ^ 400 :=
    calc (2 : ℕ) ^ 1075 < 2 ^ 1200 := pow_lt_pow_right₀ (by norm_num) (by norm_num)
      _ = 8 ^ 400 := by rw [show 1200 = 3 * 400 from rfl, pow_mul, show (2 : ℕ) ^ 3 = 8 by norm_num]
      _ < 10 ^ 400 := pow_lt_pow_left₀ (by norm_num) (by norm_num) (by norm_num)
  have h' : ((2 ^ 1075 : ℕ) : ℚ) < ((10 ^ 400 : ℕ) : ℚ) := Nat.cast_lt.2 h
  rw [Nat.cast_pow, Nat.cast_pow, Nat.cast_ofNat, Nat.cast_ofNat] at h'
  rw [show (1075 : Int) = ((1075 : Nat) : Int) from rfl, show (400 : Int) = ((400 : Nat) : Int) from rfl,
    zpow_natCast, zpow_natCast]
  exact h'

/-- A decimal literal that rounds to a finite nonzero 64-bit value has its exponent within
the range where `ofLiteral` rounds exactly: the value lies between `2 ^ -1075` and `2 ^ 1024`,
well inside `10 ^ -400` and `10 ^ 400`. -/
theorem binary64_literal_in_range {bits m : Nat} {q : Int}
    (hk : Format.binary64.kind bits = .finite m q) (hm : 0 < m) {D : Nat} {E : Int} (hD : 0 < D)
    (hv : Format.binary64.RoundsTo m q (D * 10 ^ E)) :
    -400 ≤ (decimalLength D : Int) + E ∧ (decimalLength D : Int) + E ≤ 400 := by
  obtain ⟨hlo, hhi⟩ := Format.RoundsTo.bounds _ hk hm hv
  have hmin : Format.binary64.minExponent = -1074 := by decide
  have htop : Format.binary64.topField = 2047 := by decide
  have hfw : Format.binary64.fractionWidth = 52 := by decide
  have hq : -1074 ≤ q ∧ q ≤ 971 := by
    rcases Format.binary64.kind_eq_finite hk with ⟨-, -, rfl⟩ | ⟨-, htop', -, rfl⟩ <;> omega
  rw [hfw] at hhi
  obtain ⟨hL1, hL2⟩ := decimalLength_bounds hD
  have hLpos : 0 < decimalLength D := Nat.length_toDigits_pos
  have h10 : (0 : ℚ) < 10 ^ E := by positivity
  -- the digits place the value between two powers of ten
  have hbelow : (10 : ℚ) ^ ((decimalLength D : Int) - 1 + E) ≤ D * 10 ^ E := by
    rw [zpow_add₀ (by norm_num), show (decimalLength D : Int) - 1 = ((decimalLength D - 1 : Nat) : Int)
      by omega, zpow_natCast]
    gcongr
    exact_mod_cast hL1
  have habove : (D : ℚ) * 10 ^ E < 10 ^ ((decimalLength D : Int) + E) := by
    rw [zpow_add₀ (by norm_num), zpow_natCast]
    gcongr
    exact_mod_cast hL2
  have hpow := two_pow_lt_ten_pow
  constructor
  · by_contra h
    have h1 : (10 : ℚ) ^ ((decimalLength D : Int) + E) ≤ 10 ^ (-400 : Int) :=
      zpow_le_zpow_right₀ (by norm_num) (by omega)
    have h2 : (2 : ℚ) ^ (-1075 : Int) ≤ 2 ^ (q - 1) := zpow_le_zpow_right₀ (by norm_num) (by omega)
    have h3 : (10 : ℚ) ^ (-400 : Int) < 2 ^ (-1075 : Int) := by
      rw [zpow_neg, zpow_neg]
      exact inv_strictAnti₀ (by positivity) hpow
    linarith
  · by_contra h
    have h1 : (10 : ℚ) ^ (400 : Int) ≤ 10 ^ ((decimalLength D : Int) - 1 + E) :=
      zpow_le_zpow_right₀ (by norm_num) (by omega)
    have h2 : (2 : ℚ) ^ (q + (52 : Nat) + 1) ≤ 2 ^ (1075 : Int) :=
      zpow_le_zpow_right₀ (by norm_num) (by omega)
    have := calc (D : ℚ) * 10 ^ E < 2 ^ (q + (52 : Nat) + 1) := hhi
      _ ≤ 2 ^ (1075 : Int) := h2
      _ < 10 ^ (400 : Int) := hpow
      _ ≤ 10 ^ ((decimalLength D : Int) - 1 + E) := h1
      _ ≤ D * 10 ^ E := hbelow
    exact lt_irrefl _ this

namespace Notation

variable (n : Notation) (f : Format)

theorem render?_zero {bits : Nat} {q : Int} (hk : f.kind bits = .finite 0 q) :
    n.render? f bits = some ((if f.signOf bits then "-" else "") ++ "0.0") := by
  simp [render?, hk]

theorem render?_pos {bits m : Nat} {q : Int} (hk : f.kind bits = .finite m q) (hm : 0 < m) :
    n.render? f bits =
      some ((if f.signOf bits then "-" else "") ++ n.layout (f.shortest n.tie m q)) := by
  obtain ⟨k, rfl⟩ : ∃ k, m = k + 1 := ⟨m - 1, by omega⟩
  simp [render?, hk]

end Notation

end GraphDoc.Ieee

namespace GraphDoc.TextWrite

open Ieee

/-- The text of a finite real: its sign, then `0.0` for a zero and the layout of the shortest
decimal otherwise. -/
theorem real_of_kind {x : Binary64} {m : Nat} {q : Int} (hk : x.kind = .finite m q) :
    real x = (if x.negative then "-" else "") ++
      (if m = 0 then "0.0" else realNotation.layout (Format.binary64.shortest .up m q)) := by
  unfold real
  rcases Nat.eq_zero_or_pos m with rfl | hm
  · rw [Notation.render?_zero _ _ hk]; rfl
  · rw [Notation.render?_pos _ _ hk hm, if_neg (Nat.pos_iff_ne_zero.1 hm)]; rfl

/-- The numeral `0.0`. -/
def zeroNumeral : Numeral := ⟨['0'], some ['0'], none⟩

theorem zeroNumeral_wellFormed : zeroNumeral.WellFormed := .positional (by simp) (by simp) (by simp)

/-- **The text of a finite real is a numeral with a point or an exponent**, after a minus for
a negative sign. -/
theorem real_numeral {x : Binary64} (hx : x.isFinite = true) :
    ∃ num : Numeral, num.WellFormed ∧ (num.fraction.isSome ∨ num.exponent.isSome) ∧
      (real x).toList = (if x.negative then ['-'] else []) ++ num.chars := by
  obtain ⟨m, q, hk⟩ : ∃ m q, x.kind = .finite m q := by
    unfold Binary64.isFinite at hx; split at hx <;> simp_all
  rw [real_of_kind hk, String.toList_append]
  have hsign : (if x.negative then "-" else "").toList = if x.negative then ['-'] else [] := by
    split <;> rfl
  rw [hsign]
  rcases Nat.eq_zero_or_pos m with rfl | hm
  · exact ⟨zeroNumeral, zeroNumeral_wellFormed, .inl rfl, by rw [if_pos rfl]; rfl⟩
  · obtain ⟨num, hwf, hreal, hchars, -⟩ :=
      realNotation.layout_numeral (Format.binary64.shortest .up m q)
    exact ⟨num, hwf, hreal, by rw [if_neg (Nat.pos_iff_ne_zero.1 hm), hchars]⟩

/-- **The text of a finite real reads back as the same value**, bit for bit: zeros keep their
sign, and subnormals and the largest finite values come back too. -/
theorem read?_real {x : Binary64} (hx : x.isFinite = true) : Binary64.read? (real x) = some x := by
  obtain ⟨m, q, hk⟩ : ∃ m q, x.kind = .finite m q := by
    unfold Binary64.isFinite at hx; split at hx <;> simp_all
  have hb : x.bits.toNat < Nat.pow 2 Format.binary64.width := x.bits.toNat_lt
  -- the pattern comes back from its number: `⟨bits.toUInt64⟩ = x`
  suffices h : ∃ l, Literal.read? (real x) = some l ∧ Format.binary64.ofLiteral l = x.bits.toNat by
    obtain ⟨l, hl, hbits⟩ := h
    simp [Binary64.read?, hl, hbits]
  rw [real_of_kind hk]
  rcases Nat.eq_zero_or_pos m with rfl | hm
  · rw [if_pos rfl]
    refine ⟨.number x.negative 0 (-1), ?_, ?_⟩
    · exact Numeral.read?_chars zeroNumeral_wellFormed x.negative rfl
    · simp only [Format.ofLiteral, if_true]
      exact Format.binary64.zero_of_kind hb hk
  · rw [if_neg (Nat.pos_iff_ne_zero.1 hm)]
    obtain ⟨num, hwf, -, hchars, hvalue⟩ :=
      realNotation.layout_numeral (Format.binary64.shortest .up m q)
    refine ⟨.number x.negative num.digits num.exponentValue, Numeral.read?_chars hwf _ hchars, ?_⟩
    have hv := Format.binary64.roundsTo_shortest Tie.up (m := m) (q := q) (by omega)
    rw [← hvalue] at hv
    -- the digits are not all zero, since the value is positive
    have hD : 0 < num.digits := by
      obtain ⟨hlo, -⟩ := Format.RoundsTo.bounds _ hk (by omega) hv
      rcases Nat.eq_zero_or_pos num.digits with h | h
      · rw [h, Nat.cast_zero, zero_mul] at hlo
        exact absurd hlo (not_le.2 (by positivity))
      · exact h
    exact Format.binary64.ofLiteral_of_roundsTo (by decide) hb hk (by omega) hD
      (binary64_literal_in_range hk (by omega) hD hv) hv

end GraphDoc.TextWrite
