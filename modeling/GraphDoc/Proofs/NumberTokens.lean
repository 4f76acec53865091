import Mathlib
import GraphDoc.Proofs.RealTokens
/-! # The numbers of the scanner and the readers of numbers

The scanner calls a number an integer or a real by its form, and the reader of documents
then reads an integer token with `Parse.integerValue` and a real token with `Binary64.read?`.
This module says how the two sides meet on every token of every text
(`numberTokens_read`):

* the number reader is the only step of the scanner that makes integers and reals
  (`Scan.tokenAt_numberRead`), and what holds of the tokens of each step holds of a whole
  scan (`Scan.lexFrom_tokens`);
* an integer it makes is a decimal integer, an optional sign and decimal digits, or a
  hexadecimal one, an optional sign, `0x` or `0X` and hexadecimal digits
  (`Scan.readNumber_integer`);
* a decimal integer is read exactly when its signed value lies in the 64-bit range, as that
  value (`Parse.integerValue_decimal`); a hexadecimal one exactly when its magnitude is below
  `2^64`, as that magnitude negated with wrap-around after a minus, which is the signed
  magnitude reduced to 64-bit two's complement (`Parse.integerValue_hex`);
* a real it makes is always read (`Scan.lexFrom_reals`).
-/
namespace GraphDoc

namespace Scan

/-- An optional sign: nothing, `+` or `-`. -/
def IsSign (sign : List Char) : Prop := sign = [] ∨ sign = ['+'] ∨ sign = ['-']

/-- The form of a decimal integer: an optional sign, then at least one decimal digit. -/
structure DecimalInteger (sign ds : List Char) : Prop where
  sign : IsSign sign
  nonempty : ds ≠ []
  digits : ∀ c ∈ ds, c.isDigit = true

/-- The form of a hexadecimal integer: an optional sign, `0x` or `0X`, then at least one
hexadecimal digit. -/
structure HexInteger (sign : List Char) (x : Char) (hs : List Char) : Prop where
  sign : IsSign sign
  mark : x = 'x' ∨ x = 'X'
  nonempty : hs ≠ []
  digits : ∀ c ∈ hs, isHexDigit c = true

end Scan

namespace Parse

open Scan Ieee.Literal

/-- A digit is no sign. -/
theorem ne_sign_of_isDigit {c : Char} (hc : c.isDigit = true) : c ≠ '-' ∧ c ≠ '+' := by
  constructor <;> rintro rfl <;> simp at hc

/-- The value of a magnitude after a sign. -/
def signed (sign : List Char) (m : Nat) : Int := if sign = ['-'] then -(m : Int) else m

theorem decimalValue_eq {sign ds : List Char} (h : DecimalInteger sign ds) :
    decimalValue (String.ofList (sign ++ ds)) =
      if -2 ^ 63 ≤ signed sign (digitsValue ds) ∧ signed sign (digitsValue ds) < 2 ^ 63 then
        some (Int64.ofInt (signed sign (digitsValue ds)))
      else none := by
  obtain ⟨c, r, rfl⟩ := List.exists_cons_of_ne_nil h.nonempty
  obtain ⟨hm, hp⟩ := ne_sign_of_isDigit (h.digits c (by simp))
  have hall : (c :: r).all Char.isDigit = true := List.all_eq_true.2 h.digits
  rcases h.sign with rfl | rfl | rfl
  all_goals simp [decimalValue, signed, hm, hp, hall, Int.pow_eq]

/-- Decimal digits never start with `0x`, so the integer reader reads them as a decimal. -/
theorem integerValue_of_decimal {sign ds : List Char} (h : DecimalInteger sign ds) :
    integerValue (String.ofList (sign ++ ds)) = decimalValue (String.ofList (sign ++ ds)) := by
  obtain ⟨c, r, rfl⟩ := List.exists_cons_of_ne_nil h.nonempty
  obtain ⟨hm, hp⟩ := ne_sign_of_isDigit (h.digits c (by simp))
  have hx : ∀ x r', r = x :: r' → x ≠ 'x' ∧ x ≠ 'X' := by
    rintro x r' rfl
    have := h.digits x (by simp)
    constructor <;> rintro rfl <;> simp at this
  unfold integerValue
  rcases h.sign with rfl | rfl | rfl
  all_goals
    cases r with
    | nil => simp [hm, hp]
    | cons x r' =>
      obtain ⟨hx1, hx2⟩ := hx x r' rfl
      by_cases h0 : c = '0'
      · subst h0
        simp [hx1, hx2]
      · simp [hm, hp, h0]

/-- **A decimal integer is read exactly when its value lies in the 64-bit range**, and then
as that value. -/
theorem integerValue_decimal {sign ds : List Char} (h : DecimalInteger sign ds) (v : Int64) :
    integerValue (String.ofList (sign ++ ds)) = some v ↔
      -2 ^ 63 ≤ signed sign (digitsValue ds) ∧ signed sign (digitsValue ds) < 2 ^ 63 ∧
        v.toInt = signed sign (digitsValue ds) := by
  rw [integerValue_of_decimal h, decimalValue_eq h]
  split
  next hr =>
    -- within the range, the value is its own 64-bit word
    have hbmod : (signed sign (digitsValue ds)).bmod (2 ^ 64) = signed sign (digitsValue ds) :=
      Int.bmod_eq_of_le (by omega) (by omega)
    rw [Option.some.injEq, Int64.ofInt_eq_iff_bmod_eq_toInt, hbmod]
    exact ⟨fun h => ⟨hr.1, hr.2, h.symm⟩, fun h => h.2.2.symm⟩
  next hr =>
    simp only [reduceCtorEq, false_iff]
    exact fun h => hr ⟨h.1, h.2.1⟩

/-- Negating a 64-bit word wraps around: the negation of the word of `m` is the word of `-m`. -/
theorem neg_ofInt_eq_iff (m : Int) (v : Int64) : -Int64.ofInt m = v ↔ v.toInt = (-m).bmod (2 ^ 64) := by
  rw [← Int64.toInt_inj, Int64.toInt_neg, Int64.toInt_ofInt, Int64.size, Int.bmod_neg_bmod]
  exact eq_comm

/-- The 64-bit word of a magnitude after a sign, negated with wrap-around after a minus, is
the signed magnitude reduced to 64-bit two's complement. -/
theorem signedWord_eq_iff (sign : List Char) (m : Nat) (v : Int64) :
    (if sign = ['-'] then -Int64.ofInt m else Int64.ofInt m) = v ↔
      v.toInt = (signed sign m).bmod (2 ^ 64) := by
  unfold signed
  split
  · exact neg_ofInt_eq_iff m v
  · exact (Int64.ofInt_eq_iff_bmod_eq_toInt _ _).trans eq_comm

/-- A hexadecimal integer is read when its magnitude is below `2^64`, as the 64-bit word of its
magnitude, negated after a minus. -/
theorem integerValue_of_hex {sign hs : List Char} {x : Char} (h : HexInteger sign x hs) :
    integerValue (String.ofList (sign ++ '0' :: x :: hs)) =
      if hexValue hs < 2 ^ 64 then
        some (if sign = ['-'] then -Int64.ofInt (hexValue hs) else Int64.ofInt (hexValue hs))
      else none := by
  have hall : hs.all isHexDigit = true := List.all_eq_true.2 h.digits
  have hne : hs.isEmpty = false := List.isEmpty_eq_false_iff.2 h.nonempty
  have hmark : (x == 'x' || x == 'X') = true := by rcases h.mark with rfl | rfl <;> rfl
  unfold integerValue
  rcases h.sign with rfl | rfl | rfl
  all_goals simp [hmark, hne, hall, Nat.pow_eq]

/-- **A hexadecimal integer is read exactly when its magnitude is below `2^64`**, and then as the
magnitude with its sign, reduced to 64-bit two's complement. -/
theorem integerValue_hex {sign hs : List Char} {x : Char} (h : HexInteger sign x hs) (v : Int64) :
    integerValue (String.ofList (sign ++ '0' :: x :: hs)) = some v ↔
      hexValue hs < 2 ^ 64 ∧ v.toInt = (signed sign (hexValue hs)).bmod (2 ^ 64) := by
  rw [integerValue_of_hex h]
  split
  next hlt => rw [Option.some.injEq, signedWord_eq_iff]; exact ⟨fun h => ⟨hlt, h⟩, And.right⟩
  next hlt => simp only [reduceCtorEq, false_iff]; exact fun h => hlt h.1

example : integerValue "0xFFFFFFFFFFFFFFFF" = some (-1) := by decide
example : integerValue "-0x8000000000000000" = some (Int64.ofInt (-9223372036854775808)) := by decide
example : integerValue "9223372036854775808" = none := by decide

end Parse

namespace Scan

open Ieee.Literal

/-- **An integer read by the decimal reader is its sign and whole digits.** -/
theorem readDecimal_integer {sign cs rest : List Char} {line : Nat} {tok : Token}
    (h : readDecimal sign cs line = .ok (tok, rest)) (hk : tok.kind = .integer) :
    ∃ ds, ds ≠ [] ∧ (∀ c ∈ ds, c.isDigit = true) ∧ tok.text = String.ofList (sign ++ ds) := by
  have hw : ∀ c ∈ cs.takeWhile Char.isDigit, c.isDigit = true :=
    fun c hc => List.mem_takeWhile_imp hc
  unfold readDecimal at h
  simp only at h
  split at h
  next r' hpt =>
    -- a point makes the number real
    simp only [if_true] at h
    split at h
    · cases h
    · split at h
      · rcases exponent_token h with ⟨tail, -, rfl⟩ | rfl <;> cases hk
      · obtain rfl := finishNumber_token h
        cases hk
  next hpt =>
    -- no point: an exponent makes it real, and otherwise it is its whole digits
    simp only [Bool.false_eq_true, if_false] at h
    split at h
    · cases h
    next hdig =>
      have hne : cs.takeWhile Char.isDigit ≠ [] := by simpa using hdig
      split at h
      · rcases exponent_token h with ⟨tail, -, rfl⟩ | rfl
        · cases hk
        · exact ⟨_, hne, hw, by simp⟩
      · obtain rfl := finishNumber_token h
        exact ⟨_, hne, hw, by simp⟩

/-- **An integer read by the number reader is a decimal or a hexadecimal integer.** -/
theorem readNumber_integer {cs rest : List Char} {line : Nat} {tok : Token}
    (h : readNumber cs line = .ok (tok, rest)) (hk : tok.kind = .integer) :
    (∃ sign ds, DecimalInteger sign ds ∧ tok.text = String.ofList (sign ++ ds)) ∨
      ∃ sign x hs, HexInteger sign x hs ∧ tok.text = String.ofList (sign ++ '0' :: x :: hs) := by
  rcases hts : takeSign cs with ⟨sign, r⟩
  have hs : IsSign sign := by simpa [IsSign, hts] using takeSign_fst cs
  -- a decimal after the sign is a decimal integer
  have hdecimal : ∀ cs', readDecimal sign cs' line = .ok (tok, rest) →
      ∃ sign ds, DecimalInteger sign ds ∧ tok.text = String.ofList (sign ++ ds) := by
    intro cs' hd
    obtain ⟨ds, hne, hds, htext⟩ := readDecimal_integer hd hk
    exact ⟨sign, ds, ⟨hs, hne, hds⟩, htext⟩
  unfold readNumber at h
  rw [hts] at h
  simp only at h
  split at h
  next x r' =>
    split at h
    next hx =>
      split at h
      · cases h
      next hhex =>
        obtain rfl := finishNumber_token h
        exact .inr ⟨sign, x, _, ⟨hs, by simpa using hx, by simpa using hhex,
          fun c hc => List.mem_takeWhile_imp hc⟩, rfl⟩
    · exact .inl (hdecimal _ h)
  · exact .inl (hdecimal _ h)

/-! ## Number tokens come from the number reader -/

/-- **What holds of the tokens of every step holds of the tokens of a whole scan.** -/
theorem lexFrom_tokens {P : Token → Prop} (hstep : ∀ cs line, ∀ tok ∈ (step cs line).tokens, P tok)
    (cs : List Char) (line : Nat) : ∀ tok ∈ (lexFrom cs line).tokens, P tok := by
  fun_induction lexFrom cs line with
  | case1 => simp
  | case2 cs line ts e hs => simpa [hs] using hstep cs line
  | case3 cs line ts rest line' hs hlen _ ih =>
    intro tok htok
    rcases List.mem_append.1 htok with htok | htok
    · exact hstep cs line tok (by simpa [hs] using htok)
    · exact ih tok htok
  | case4 cs line ts rest line' hs hlen => simpa [hs] using hstep cs line

/-- A token that the number reader reads from some text. -/
def NumberRead (tok : Token) : Prop := ∃ cs line rest, readNumber cs line = .ok (tok, rest)

/-- A step at a character makes integers and reals only through the number reader. -/
theorem tokenAt_numberRead (c : Char) (r : List Char) (n : Nat) :
    ∀ tok ∈ (tokenAt c r n).tokens, (tok.kind = .integer ∨ tok.kind = .real) → NumberRead tok := by
  unfold tokenAt
  split
  next k hk =>
    -- a bracket or `=`
    have hnum : k ≠ .integer ∧ k ≠ .real := by
      unfold single at hk
      split at hk <;> cases hk <;> simp
    simp [hnum.1, hnum.2]
  split
  · -- `{`: a rawtext block or a brace
    split
    · split <;> simp
    · simp
  split
  · -- a string
    split <;> simp
  split
  · -- a UID
    dsimp only
    split <;> simp
  split
  · -- a tag header
    dsimp only
    split
    · split <;> simp
    · simp
  split
  · -- a name: a boolean or an identifier
    dsimp only
    split <;> simp
  split
  · -- a number
    intro tok htok _
    obtain ⟨rest, hread⟩ := mem_ofRead_tokens.1 htok
    exact ⟨_, _, rest, hread⟩
  · simp

theorem step_numberRead (cs : List Char) (line : Nat) :
    ∀ tok ∈ (step cs line).tokens, (tok.kind = .integer ∨ tok.kind = .real) → NumberRead tok := by
  unfold step
  split
  · simp
  · simp
  · exact tokenAt_numberRead _ _ _

end Scan

open Scan Ieee.Literal

/-- What the readers of numbers make of a token. An integer token is a decimal integer, read
exactly when its signed value lies in the 64-bit range and then as that value, or a hexadecimal
integer, read exactly when its magnitude is below `2^64` and then as the signed magnitude
reduced to 64-bit two's complement. A real token is read as a real. -/
def Token.ReadsAsNumber (tok : Token) : Prop :=
  (tok.kind = .integer →
    (∃ sign ds, DecimalInteger sign ds ∧ tok.text = String.ofList (sign ++ ds) ∧
      ∀ v, Parse.integerValue tok.text = some v ↔
        -2 ^ 63 ≤ Parse.signed sign (digitsValue ds) ∧
          Parse.signed sign (digitsValue ds) < 2 ^ 63 ∧ v.toInt = Parse.signed sign (digitsValue ds)) ∨
    ∃ sign x hs, HexInteger sign x hs ∧ tok.text = String.ofList (sign ++ '0' :: x :: hs) ∧
      ∀ v, Parse.integerValue tok.text = some v ↔
        Parse.hexValue hs < 2 ^ 64 ∧ v.toInt = (Parse.signed sign (Parse.hexValue hs)).bmod (2 ^ 64)) ∧
  (tok.kind = .real → (Binary64.read? tok.text).isSome)

/-- **The numbers of the scanner agree with the readers of numbers.** Every integer token of a
text is a decimal or a hexadecimal integer, read as its value exactly when that value fits:
a decimal one within the 64-bit range, a hexadecimal one with its magnitude below `2^64`,
wrapping to two's complement. Every real token is read as a real, so no text is refused at a
real. -/
theorem numberTokens_read (s : String) : ∀ tok ∈ (Lexed.ofString s).tokens, tok.ReadsAsNumber := by
  intro tok htok
  refine ⟨fun hk => ?_, fun hk => lexFrom_reals _ _ tok htok hk⟩
  -- an integer token comes from the number reader, which cuts it in one of the two forms
  obtain ⟨cs, line, rest, hread⟩ := lexFrom_tokens step_numberRead _ _ tok htok (.inl hk)
  rcases readNumber_integer hread hk with ⟨sign, ds, hd, htext⟩ | ⟨sign, x, hs, hh, htext⟩
  · exact .inl ⟨sign, ds, hd, htext, fun v => htext ▸ Parse.integerValue_decimal hd v⟩
  · exact .inr ⟨sign, x, hs, hh, htext, fun v => htext ▸ Parse.integerValue_hex hh v⟩

/-- The widest hexadecimal literal is a token of its text, and it reads as a number. -/
theorem numberTokens_read_widest :
    (⟨.integer, "0xFFFFFFFFFFFFFFFF", 1⟩ : Token) ∈ (Lexed.ofString "x = 0xFFFFFFFFFFFFFFFF").tokens ∧
      Token.ReadsAsNumber ⟨.integer, "0xFFFFFFFFFFFFFFFF", 1⟩ :=
  have hmem : (⟨.integer, "0xFFFFFFFFFFFFFFFF", 1⟩ : Token) ∈
      (Lexed.ofString "x = 0xFFFFFFFFFFFFFFFF").tokens := by decide +kernel
  ⟨hmem, numberTokens_read _ _ hmem⟩

end GraphDoc
