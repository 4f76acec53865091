import GraphDoc.Text.Parse
import Mathlib.Data.List.TakeDrop
import Mathlib.Tactic.Ring
/-! # Decimal numerals

Numbers are read from text digit by digit: `Literal.digitsValue` folds decimal digits into a
natural, and both the scanner and `Literal.read?` cut a numeral into its whole digits, fraction
and exponent with `takeWhile`, `dropWhile` and `span`. This module says what they give on the
numerals that printing writes: `digitsValue` inverts `Nat.toDigits` (`digitsValue_toDigits`),
a `Numeral` (whole digits, an optional point and fraction, an optional exponent) is read as
its digits and exponent (`read?_chars`), and the decimal text of a 64-bit integer is read back
as that integer (`integerValue_toString`). -/
namespace GraphDoc

section Stop

variable {α : Type} {p : α → Bool} {ds rest : List α}

/-- `takeWhile` keeps a prefix that passes and stops where the rest fails. -/
theorem takeWhile_append_stop (hds : ∀ c ∈ ds, p c) (hrest : rest.head?.any p = false) :
    (ds ++ rest).takeWhile p = ds := by
  rw [List.takeWhile_append_of_pos hds]
  cases rest with
  | nil => simp
  | cons c r => simp_all

/-- `dropWhile` drops a prefix that passes and stops where the rest fails. -/
theorem dropWhile_append_stop (hds : ∀ c ∈ ds, p c) (hrest : rest.head?.any p = false) :
    (ds ++ rest).dropWhile p = rest := by
  rw [List.dropWhile_append_of_pos hds]
  cases rest with
  | nil => rfl
  | cons c r => simp_all

theorem span_append_stop (hds : ∀ c ∈ ds, p c) (hrest : rest.head?.any p = false) :
    (ds ++ rest).span p = (ds, rest) := by
  rw [List.span_eq_takeWhile_dropWhile, takeWhile_append_stop hds hrest,
    dropWhile_append_stop hds hrest]

end Stop

namespace Ieee.Literal

theorem foldl_digit (ds : List Char) (n : Nat) :
    ds.foldl (fun n c => 10 * n + (c.toNat - '0'.toNat)) n = n * 10 ^ ds.length + digitsValue ds := by
  induction ds generalizing n with
  | nil => simp [digitsValue]
  | cons c ds ih =>
    have hcons : digitsValue (c :: ds) =
        (10 * 0 + (c.toNat - '0'.toNat)) * 10 ^ ds.length + digitsValue ds := ih _
    rw [List.foldl_cons, ih, hcons, List.length_cons, Nat.pow_succ]
    ring

theorem digitsValue_append (a b : List Char) :
    digitsValue (a ++ b) = digitsValue a * 10 ^ b.length + digitsValue b := by
  rw [digitsValue, List.foldl_append, foldl_digit]
  rfl

theorem digitsValue_cons (c : Char) (ds : List Char) :
    digitsValue (c :: ds) = (c.toNat - '0'.toNat) * 10 ^ ds.length + digitsValue ds := by
  rw [← List.singleton_append, digitsValue_append]
  simp [digitsValue]

@[simp] theorem digitsValue_nil : digitsValue [] = 0 := rfl

theorem digitsValue_replicate_zero (k : Nat) : digitsValue (List.replicate k '0') = 0 := by
  induction k with
  | zero => rfl
  | succ k ih => rw [List.replicate_succ, digitsValue_cons, ih]; simp

theorem digitsValue_append_zeros (ds : List Char) (k : Nat) :
    digitsValue (ds ++ List.replicate k '0') = digitsValue ds * 10 ^ k := by
  rw [digitsValue_append, digitsValue_replicate_zero, List.length_replicate, Nat.add_zero]

theorem digitsValue_zeros_append (k : Nat) (ds : List Char) :
    digitsValue (List.replicate k '0' ++ ds) = digitsValue ds := by
  rw [digitsValue_append, digitsValue_replicate_zero, Nat.zero_mul, Nat.zero_add]

theorem toNat_le_of_isDigit {c : Char} (h : c.isDigit = true) : c.toNat - '0'.toNat < 10 := by
  unfold Char.isDigit at h
  simp only [Bool.and_eq_true, decide_eq_true_eq, UInt32.le_iff_toNat_le] at h
  have h9 : ('9' : Char).val.toNat = 57 := rfl
  have h0 : ('0' : Char).val.toNat = 48 := rfl
  simp only [Char.toNat]
  omega

/-- Decimal digits are worth less than the next power of ten. -/
theorem digitsValue_lt {ds : List Char} (h : ∀ c ∈ ds, c.isDigit = true) :
    digitsValue ds < 10 ^ ds.length := by
  induction ds with
  | nil => simp
  | cons c ds ih =>
    rw [digitsValue_cons, List.length_cons, Nat.pow_succ]
    have hc := toNat_le_of_isDigit (h c (by simp))
    have hds := ih fun c hc => h c (by simp [hc])
    have : (c.toNat - '0'.toNat) * 10 ^ ds.length ≤ 9 * 10 ^ ds.length :=
      Nat.mul_le_mul_right _ (by omega)
    omega

theorem isDigit_of_mem_toDigits {n : Nat} {c : Char} (h : c ∈ Nat.toDigits 10 n) :
    c.isDigit = true :=
  Nat.isDigit_of_mem_toDigits (by decide) (by decide) h

/-- **Reading printed digits gives the number back.** -/
theorem digitsValue_toDigits (n : Nat) : digitsValue (Nat.toDigits 10 n) = n := by
  induction n using Nat.strongRecOn with
  | ind n ih =>
    rw [Nat.toDigits_eq_if (by decide)]
    split
    · next hn => simp [digitsValue, Nat.toNat_digitChar_sub_48_of_lt_ten hn]
    · next hn =>
      rw [digitsValue_append, ih _ (by omega)]
      simp [digitsValue, Nat.toNat_digitChar_sub_48_of_lt_ten (Nat.mod_lt n (by decide))]
      omega

/-- Printed digits start with a zero only for zero itself. -/
theorem eq_zero_of_toDigits_eq_cons {n : Nat} {t : List Char} (h : Nat.toDigits 10 n = '0' :: t) :
    n = 0 ∧ t = [] := by
  have hv : n = digitsValue t := by
    have := digitsValue_toDigits n
    rw [h, digitsValue_cons] at this
    simpa using this.symm
  have hdig : ∀ c ∈ t, c.isDigit = true := fun c hc =>
    isDigit_of_mem_toDigits (n := n) (by rw [h]; exact List.mem_cons_of_mem _ hc)
  cases t with
  | nil => simp_all
  | cons x r =>
    have hlt : n < 10 ^ (x :: r).length := hv ▸ digitsValue_lt hdig
    have hlen := (Nat.length_toDigits_le_iff (by decide) (by simp)).2 hlt
    rw [h] at hlen
    simp only [List.length_cons] at hlen
    omega

theorem splitSign_of_isDigit {c : Char} (hc : c.isDigit = true) (r : List Char) :
    splitSign (c :: r) = (false, c :: r) := by
  have hm : c ≠ '-' := by rintro rfl; simp at hc
  have hp : c ≠ '+' := by rintro rfl; simp at hc
  simp [splitSign, hm, hp]

/-- An exponent with a sign of at most one character and at least one digit. -/
theorem readExponent_eq {s ds : List Char} (hs : s = [] ∨ s = ['+'] ∨ s = ['-'])
    (hne : ds ≠ []) (hd : ∀ c ∈ ds, c.isDigit = true) :
    readExponent (s ++ ds) =
      some (if s = ['-'] then -(digitsValue ds : Int) else digitsValue ds) := by
  have htake : (ds ++ []).takeWhile Char.isDigit = ds := takeWhile_append_stop hd rfl
  have hdrop : (ds ++ []).dropWhile Char.isDigit = [] := dropWhile_append_stop hd rfl
  rw [List.append_nil] at htake hdrop
  have hds : ds.isEmpty = false := List.isEmpty_eq_false_iff.2 hne
  obtain ⟨c, r, rfl⟩ := List.exists_cons_of_ne_nil hne
  rcases hs with rfl | rfl | rfl
  · simp [readExponent, splitSign_of_isDigit (hd c (by simp)), List.span_eq_takeWhile_dropWhile,
      htake, hdrop]
  · simp [readExponent, splitSign, List.span_eq_takeWhile_dropWhile, htake, hdrop]
  · simp [readExponent, splitSign, List.span_eq_takeWhile_dropWhile, htake, hdrop]

end Ieee.Literal

/-- A decimal numeral as printing writes it: whole digits, then optionally a point and the
digits of a fraction, then optionally `e`, the sign of the exponent and its digits. -/
structure Numeral where
  whole : List Char
  fraction : Option (List Char)
  exponent : Option (List Char × List Char)

namespace Numeral

open Ieee.Literal

/-- The point and the fraction, if there is one. -/
def pointPart : Option (List Char) → List Char
  | none => []
  | some fr => '.' :: fr

/-- The exponent with its `e`, if there is one. -/
def exponentPart : Option (List Char × List Char) → List Char
  | none => []
  | some (s, ds) => 'e' :: (s ++ ds)

/-- The characters of a numeral. -/
def chars (n : Numeral) : List Char := n.whole ++ (pointPart n.fraction ++ exponentPart n.exponent)

/-- The digits after the point. -/
def fractionDigits (n : Numeral) : List Char := n.fraction.getD []

/-- The value of the exponent, zero without one. -/
def scale (n : Numeral) : Int :=
  match n.exponent with
  | none => 0
  | some (s, ds) => if s = ['-'] then -(digitsValue ds : Int) else digitsValue ds

/-- All digits of the numeral, the point ignored. -/
def digits (n : Numeral) : Nat := digitsValue (n.whole ++ n.fractionDigits)

/-- The power of ten that the digits are worth. -/
def exponentValue (n : Numeral) : Int := n.scale - n.fractionDigits.length

/-- A numeral has at least one whole digit, digits only where digits stand, a sign of at most
one character on its exponent, and at least one exponent digit. -/
structure WellFormed (n : Numeral) : Prop where
  whole_ne : n.whole ≠ []
  whole_digits : ∀ c ∈ n.whole, c.isDigit = true
  fraction_digits : ∀ c ∈ n.fractionDigits, c.isDigit = true
  exponent_sign : ∀ e ∈ n.exponent, e.1 = [] ∨ e.1 = ['+'] ∨ e.1 = ['-']
  exponent_ne : ∀ e ∈ n.exponent, e.2 ≠ []
  exponent_digits : ∀ e ∈ n.exponent, ∀ c ∈ e.2, c.isDigit = true

/-- A numeral with a point and no exponent. -/
theorem WellFormed.positional {w fr : List Char} (hw : w ≠ []) (hwd : ∀ c ∈ w, c.isDigit = true)
    (hfd : ∀ c ∈ fr, c.isDigit = true) : WellFormed ⟨w, some fr, none⟩ where
  whole_ne := hw
  whole_digits := hwd
  fraction_digits := hfd
  exponent_sign := by simp
  exponent_ne := by simp
  exponent_digits := by simp

/-- A numeral with an exponent. -/
theorem WellFormed.scientific {w : List Char} {fr : Option (List Char)} {s ds : List Char}
    (hw : w ≠ []) (hwd : ∀ c ∈ w, c.isDigit = true) (hfd : ∀ c ∈ fr.getD [], c.isDigit = true)
    (hs : s = [] ∨ s = ['+'] ∨ s = ['-']) (hne : ds ≠ []) (hdd : ∀ c ∈ ds, c.isDigit = true) :
    WellFormed ⟨w, fr, some (s, ds)⟩ where
  whole_ne := hw
  whole_digits := hwd
  fraction_digits := hfd
  exponent_sign := by simpa using hs
  exponent_ne := by simpa using hne
  exponent_digits := by simpa using hdd

theorem exponentPart_head (e : Option (List Char × List Char)) :
    (exponentPart e).head?.any Char.isDigit = false := by
  cases e <;> rfl

theorem pointPart_head (fr : Option (List Char)) (e : Option (List Char × List Char)) :
    (pointPart fr ++ exponentPart e).head?.any Char.isDigit = false := by
  cases fr
  · simpa [pointPart] using exponentPart_head e
  · rfl

/-- **A well-formed numeral is read as its digits and exponent.** -/
theorem readMagnitude_chars {n : Numeral} (h : n.WellFormed) :
    readMagnitude n.chars = some (n.digits, n.exponentValue) := by
  obtain ⟨whole, fraction, exponent⟩ := n
  have hw : whole.isEmpty = false := List.isEmpty_eq_false_iff.2 h.whole_ne
  -- the whole digits stop at the point, at the exponent or at the end
  have hspan := span_append_stop h.whole_digits (pointPart_head fraction exponent)
  -- so do the digits of the fraction
  have hspan' := span_append_stop h.fraction_digits (exponentPart_head exponent)
  -- the exponent, when there is one, is read from its sign and digits
  have hexp : ∀ s ds, exponent = some (s, ds) →
      readExponent (s ++ ds) = some (if s = ['-'] then -(digitsValue ds : Int) else digitsValue ds) :=
    fun s ds he => readExponent_eq (h.exponent_sign _ he) (h.exponent_ne _ he)
      (h.exponent_digits _ he)
  simp only [readMagnitude, chars, hspan, hw, Bool.false_and, Bool.false_eq_true, if_false]
  cases fraction with
  | none =>
    cases exponent with
    | none => rfl
    | some e =>
      obtain ⟨s, ds⟩ := e
      simp [pointPart, exponentPart, hexp s ds rfl, digits, exponentValue, fractionDigits, scale]
  | some fr =>
    simp only [fractionDigits, Option.getD_some] at hspan'
    simp only [pointPart, List.cons_append, hspan']
    cases exponent with
    | none => simp [exponentPart, digits, exponentValue, fractionDigits, scale]
    | some e =>
      obtain ⟨s, ds⟩ := e
      simp [exponentPart, hexp s ds rfl, digits, exponentValue, fractionDigits, scale]

/-- **A numeral after an optional minus is read as that number.** -/
theorem read?_chars {n : Numeral} (h : n.WellFormed) (neg : Bool) {s : String}
    (hs : s.toList = n.chars) :
    Ieee.Literal.read? ((if neg then "-" else "") ++ s) =
      some (.number neg n.digits n.exponentValue) := by
  -- a numeral starts with a digit
  obtain ⟨c, w, hcw⟩ := List.exists_cons_of_ne_nil h.whole_ne
  have hc : c.isDigit = true := h.whole_digits c (by simp [hcw])
  have hchars : n.chars = c :: (w ++ (pointPart n.fraction ++ exponentPart n.exponent)) := by
    simp [chars, hcw]
  have hsign : splitSign ((if neg then "-" else "") ++ s).toList = (neg, n.chars) := by
    cases neg
    · simp [hs, hchars, splitSign_of_isDigit hc]
    · simp [hs, splitSign]
  have hne : n.chars.isEmpty = false := by rw [hchars]; rfl
  unfold Ieee.Literal.read?
  rw [hsign]
  simp [readMagnitude_chars h, hne]

end Numeral

/-- The decimal text of an integer: a minus for a negative one, then the digits of its size. -/
theorem toList_toString_int (i : Int) :
    (toString i).toList = (if i < 0 then ['-'] else []) ++ Nat.toDigits 10 i.natAbs := by
  cases i with
  | ofNat n => simp [toString, Int.repr]
  | negSucc n => simp [toString, Int.repr, Int.negSucc_lt_zero]

/-- **The decimal text of a 64-bit integer is read back as that integer**: as a decimal, since
no printed magnitude starts with `0x`, and within the 64-bit range. -/
theorem integerValue_toString (v : Int64) : Parse.integerValue (toString v.toInt) = some v := by
  have hlo := Int64.le_toInt v
  have hhi := Int64.toInt_lt v
  have hdig : ∀ c ∈ Nat.toDigits 10 v.toInt.natAbs, c.isDigit = true :=
    fun c hc => Ieee.Literal.isDigit_of_mem_toDigits hc
  have hval : (if v.toInt < 0 then -(Ieee.Literal.digitsValue (Nat.toDigits 10 v.toInt.natAbs) : Int)
      else Ieee.Literal.digitsValue (Nat.toDigits 10 v.toInt.natAbs)) = v.toInt := by
    rw [Ieee.Literal.digitsValue_toDigits]; split <;> omega
  -- the printed magnitude is a digit, or a first digit other than zero followed by more
  obtain ⟨c, t, hct⟩ := List.exists_cons_of_ne_nil (Nat.toDigits_ne_nil (b := 10) (n := v.toInt.natAbs))
  have hc : c.isDigit = true := hdig c (by simp [hct])
  have hm : c ≠ '-' := by rintro rfl; simp at hc
  have hp : c ≠ '+' := by rintro rfl; simp at hc
  rw [hct] at hdig hval
  have hdig' : ∀ x ∈ t, x.isDigit = true := fun x hx => hdig x (by simp [hx])
  have hdec : Parse.decimalValue (toString v.toInt) = some v := by
    unfold Parse.decimalValue
    rw [toList_toString_int, hct]
    split_ifs at hval with hneg
    · simp only [hneg, if_true, List.cons_append, List.nil_append]
      simp [hc, Int.pow_eq]
      refine ⟨by omega, by omega, ?_⟩
      rw [← Int64.ofInt_neg, hval, Int64.ofInt_toInt]
    · simp only [hneg, if_false, List.nil_append]
      simp [hm, hp, hc, Int.pow_eq]
      exact ⟨hdig', by omega, by rw [hval, Int64.ofInt_toInt]⟩
  -- a printed magnitude never starts with `0x`
  have hc0 : t ≠ [] → c ≠ '0' := by
    rintro ht rfl
    exact ht (Ieee.Literal.eq_zero_of_toDigits_eq_cons hct).2
  unfold Parse.integerValue
  rw [toList_toString_int, hct]
  replace hdec : Parse.decimalValue v.toInt.repr = some v := hdec
  cases t with
  | nil => by_cases hneg : v.toInt < 0 <;> simp [hneg, hm, hp, hdec]
  | cons x hex =>
    have h0 := hc0 (List.cons_ne_nil _ _)
    by_cases hneg : v.toInt < 0 <;> simp [hneg, hm, hp, h0, hdec]

end GraphDoc
