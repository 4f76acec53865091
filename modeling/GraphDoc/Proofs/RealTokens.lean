import GraphDoc.Proofs.Scan
import Mathlib.Data.List.TakeWhile
/-! # Every real token is a real number

The scanner calls a number real by its form alone: digits with a point, or digits with an
exponent, after an optional sign. The reader of reals reads every text of that form, so no
real token of a text is ever refused by the reader: `Scan.lexFrom_reals`.

* The reader of literals reads any decimal number after an optional sign: digits with an
  optional point and fraction, at least one digit in all, followed by nothing or by an
  exponent (`DecimalForm`, `DecimalForm.read?_isSome`).
* The number reader of the scanner makes a real token only of such a text
  (`Scan.readDecimal_real`, `Scan.readNumber_real`), and no other step of the scanner makes a
  real token (`Scan.tokenAt_reals`).
-/
namespace GraphDoc

namespace Ieee.Literal

/-- What may follow the digits of a number: nothing, or an exponent: `e` or `E`, an optional
sign and at least one digit. -/
def ExponentTail (rest : List Char) : Prop :=
  rest = [] ∨ ∃ e s ds, (e = 'e' ∨ e = 'E') ∧ (s = [] ∨ s = ['+'] ∨ s = ['-']) ∧ ds ≠ [] ∧
    (∀ c ∈ ds, c.isDigit = true) ∧ rest = e :: (s ++ ds)

theorem ExponentTail.head {rest : List Char} (h : ExponentTail rest) :
    rest.head?.any Char.isDigit = false := by
  rcases h with rfl | ⟨e, s, ds, he, -, -, -, rfl⟩
  · rfl
  · rcases he with rfl | rfl <;> rfl

/-- The form of a decimal number after its sign: whole digits, then a point and fraction digits
if there is a point, at least one digit in all, then nothing or an exponent. -/
structure DecimalForm (whole fraction : List Char) (point : Bool) (tail : List Char) : Prop where
  whole_digits : ∀ c ∈ whole, c.isDigit = true
  fraction_digits : ∀ c ∈ fraction, c.isDigit = true
  no_point : point = false → fraction = []
  has_digit : whole ≠ [] ∨ fraction ≠ []
  exponent : ExponentTail tail

section DecimalForm

variable {whole fraction tail : List Char} {point : Bool}

/-- A decimal number starts with a digit or a point, so with no sign. -/
theorem DecimalForm.head (h : DecimalForm whole fraction point tail) :
    (whole ++ ((if point then '.' :: fraction else []) ++ tail)).head?.any
      (fun c => c == '+' || c == '-') = false := by
  cases whole with
  | cons c w =>
    have hc := h.whole_digits c (by simp)
    have hp : c ≠ '+' := by rintro rfl; simp at hc
    have hm : c ≠ '-' := by rintro rfl; simp at hc
    simp [hp, hm]
  | nil =>
    -- no whole digits: the fraction has one, so there is a point
    cases point with
    | true => rfl
    | false => exact absurd h.has_digit (by simp [h.no_point rfl])

/-- **A decimal number is a magnitude.** -/
theorem DecimalForm.readMagnitude_isSome (h : DecimalForm whole fraction point tail) :
    (readMagnitude (whole ++ ((if point then '.' :: fraction else []) ++ tail))).isSome := by
  have hdigits : (whole.isEmpty && fraction.isEmpty) = false := by
    rcases h.has_digit with h | h <;> simp [h]
  cases point with
  | false =>
    -- no point: the whole digits stop at the exponent or at the end
    obtain rfl := h.no_point rfl
    have hwne : whole ≠ [] := by simpa using h.has_digit
    simp only [Bool.false_eq_true, if_false, List.nil_append]
    rw [readMagnitude, span_append_stop h.whole_digits h.exponent.head]
    rcases h.exponent with rfl | ⟨e, s, ds, rfl | rfl, hs, hds, hd, rfl⟩
    · simp [hwne]
    all_goals simp [hwne, readExponent_eq hs hds hd]
  | true =>
    -- the whole digits stop at the point, the fraction digits at the exponent or at the end
    have hpoint : ('.' :: (fraction ++ tail)).head?.any Char.isDigit = false := rfl
    simp only [if_true, List.cons_append]
    rw [readMagnitude, span_append_stop h.whole_digits hpoint]
    simp only [span_append_stop h.fraction_digits h.exponent.head]
    rcases h.exponent with rfl | ⟨e, s, ds, rfl | rfl, hs, hds, hd, rfl⟩
    · simp [hdigits]
    all_goals simp [hdigits, readExponent_eq hs hds hd]

/-- A magnitude after an optional sign is a literal. -/
theorem read?_isSome {sign body : List Char} (hs : sign = [] ∨ sign = ['+'] ∨ sign = ['-'])
    (hb : body.head?.any (fun c => c == '+' || c == '-') = false)
    (hm : (readMagnitude body).isSome) :
    (read? (String.ofList (sign ++ body))).isSome := by
  obtain ⟨⟨d, e⟩, hde⟩ := Option.isSome_iff_exists.1 hm
  cases body with
  | nil => simp [readMagnitude] at hde
  | cons c r =>
    -- the sign is split off, and the body is not empty
    have hsign : splitSign (sign ++ c :: r) = (decide (sign = ['-']), c :: r) := by
      have hc : c ≠ '+' ∧ c ≠ '-' := by simpa using hb
      rcases hs with rfl | rfl | rfl
      · simp [splitSign, hc.1, hc.2]
      all_goals rfl
    simp [read?, hsign, hde]

/-- **A decimal number after an optional sign is a real.** -/
theorem DecimalForm.read?_isSome (h : DecimalForm whole fraction point tail) {sign : List Char}
    (hs : sign = [] ∨ sign = ['+'] ∨ sign = ['-']) :
    (Binary64.read? (String.ofList
      (sign ++ (whole ++ ((if point then '.' :: fraction else []) ++ tail))))).isSome := by
  rw [Binary64.read?, Option.isSome_map]
  exact Literal.read?_isSome hs h.head h.readMagnitude_isSome

end DecimalForm

end Ieee.Literal

namespace Scan

open Ieee.Literal

theorem takeSign_fst (cs : List Char) :
    (takeSign cs).1 = [] ∨ (takeSign cs).1 = ['+'] ∨ (takeSign cs).1 = ['-'] := by
  cases cs with
  | nil => simp [takeSign]
  | cons c r =>
    by_cases hp : c = '+'
    · simp [takeSign, hp]
    · by_cases hm : c = '-'
      · simp [takeSign, hm]
      · simp [takeSign, hp, hm]

theorem finishNumber_token {kind : TokenKind} {text rest rest' : List Char} {line : Nat}
    {tok : Token} (h : finishNumber kind text rest line = .ok (tok, rest')) :
    tok = ⟨kind, String.ofList text, line⟩ := by
  unfold finishNumber at h
  split at h
  · split at h
    · cases h
    · cases h; rfl
  · cases h; rfl

/-- The last step of `readDecimal`, once the digits and the point of a number, `text`, are
read and a character `e` follows them, then `r`: `e` or `E` with an optional sign and digits
make the number a real; any other character ends it as `k`, before `R` (which is `e :: r`). -/
def exponentStep (e : Char) (r R text : List Char) (k : TokenKind) (line : Nat) :
    Except LexError (Token × List Char) :=
  if (e == 'e' || e == 'E') = true then
    if (List.takeWhile Char.isDigit (takeSign r).2).isEmpty = true then
      Except.error ⟨line, .malformedExponent⟩
    else finishNumber .real (text ++ e :: (takeSign r).1 ++
      List.takeWhile Char.isDigit (takeSign r).2) (List.dropWhile Char.isDigit (takeSign r).2) line
  else finishNumber k text R line

/-- After the digits and the point of a number: an exponent makes it real; anything else
leaves it as it is. -/
theorem exponent_token {e : Char} {r R text rest : List Char} {k : TokenKind} {line : Nat}
    {tok : Token} (h : exponentStep e r R text k line = .ok (tok, rest)) :
    (∃ tail, ExponentTail tail ∧ tok = ⟨.real, String.ofList (text ++ tail), line⟩) ∨
      tok = ⟨k, String.ofList text, line⟩ := by
  unfold exponentStep at h
  split at h
  next he =>
    split at h
    · cases h
    next hd =>
      refine .inl ⟨e :: ((takeSign r).1 ++ List.takeWhile Char.isDigit (takeSign r).2), ?_, ?_⟩
      · exact .inr ⟨e, _, _, by simpa using he, takeSign_fst r, by simpa using hd,
          fun c hc => List.mem_takeWhile_imp hc, rfl⟩
      · rw [finishNumber_token h]
        simp
  · exact .inr (finishNumber_token h)

/-- **A real read by the decimal reader is a decimal number after the sign.** -/
theorem readDecimal_real {sign cs rest : List Char} {line : Nat} {tok : Token}
    (h : readDecimal sign cs line = .ok (tok, rest)) (hk : tok.kind = .real) :
    ∃ whole fraction point tail, DecimalForm whole fraction point tail ∧
      tok.text = String.ofList (sign ++ (whole ++ ((if point then '.' :: fraction else []) ++ tail))) := by
  have hw : ∀ c ∈ cs.takeWhile Char.isDigit, c.isDigit = true := fun c hc => List.mem_takeWhile_imp hc
  unfold readDecimal at h
  simp only at h
  split at h
  next r' hpt =>
    -- a point: the fraction digits follow it
    simp only [if_true] at h
    split at h
    · cases h
    next hdig =>
      have hform : ∀ tail, ExponentTail tail →
          DecimalForm (cs.takeWhile Char.isDigit) (r'.takeWhile Char.isDigit) true tail :=
        fun tail ht => ⟨hw, fun c hc => List.mem_takeWhile_imp hc, by simp,
          by simpa [imp_iff_not_or] using hdig, ht⟩
      split at h
      · rcases exponent_token h with ⟨tail, ht, rfl⟩ | rfl
        · exact ⟨_, _, true, tail, hform tail ht, by simp⟩
        · exact ⟨_, _, true, [], hform [] (.inl rfl), by simp⟩
      · obtain rfl := finishNumber_token h
        exact ⟨_, _, true, [], hform [] (.inl rfl), by simp⟩
  next hpt =>
    -- no point: the number is real only with an exponent
    simp only [Bool.false_eq_true, if_false] at h
    split at h
    · cases h
    next hdig =>
      have hform : ∀ tail, ExponentTail tail → DecimalForm (cs.takeWhile Char.isDigit) [] false tail :=
        fun tail ht => ⟨hw, by simp, fun _ => rfl, by simpa using hdig, ht⟩
      split at h
      · rcases exponent_token h with ⟨tail, ht, rfl⟩ | rfl
        · exact ⟨_, [], false, tail, hform tail ht, by simp⟩
        · cases hk
      · obtain rfl := finishNumber_token h
        cases hk

/-- Every real among the tokens is a real number. -/
def RealsRead (ts : List Token) : Prop :=
  ∀ tok ∈ ts, tok.kind = .real → (Binary64.read? tok.text).isSome

@[simp] theorem realsRead_nil : RealsRead [] := nofun

@[simp] theorem realsRead_cons {tok : Token} {ts : List Token} :
    RealsRead (tok :: ts) ↔ (tok.kind = .real → (Binary64.read? tok.text).isSome) ∧ RealsRead ts := by
  simp [RealsRead]

@[simp] theorem realsRead_append {ts ts' : List Token} :
    RealsRead (ts ++ ts') ↔ RealsRead ts ∧ RealsRead ts' := by
  simp only [RealsRead, List.mem_append]
  grind

/-- The tokens a step reads. -/
@[simp] def Step.tokens : Step → List Token
  | .found ts _ _ => ts
  | .broken ts _ => ts
  | .finished => []

theorem mem_ofRead_tokens {x : Except LexError (Token × List Char)} {tok : Token} :
    tok ∈ (ofRead x).tokens ↔ ∃ rest, x = .ok (tok, rest) := by
  cases x with
  | ok p => obtain ⟨t, rest⟩ := p; simp [ofRead, eq_comm]
  | error e => simp [ofRead]

/-- **The number reader reads only real numbers as reals.** -/
theorem readNumber_real {cs rest : List Char} {line : Nat} {tok : Token}
    (h : readNumber cs line = .ok (tok, rest)) (hk : tok.kind = .real) :
    (Binary64.read? tok.text).isSome := by
  rcases hts : takeSign cs with ⟨sign, r⟩
  have hs : sign = [] ∨ sign = ['+'] ∨ sign = ['-'] := by simpa [hts] using takeSign_fst cs
  -- a decimal after the sign reads as a real
  have hdecimal : ∀ cs', readDecimal sign cs' line = .ok (tok, rest) →
      (Binary64.read? tok.text).isSome := by
    intro cs' hd
    obtain ⟨whole, fraction, point, tail, hform, htext⟩ := readDecimal_real hd hk
    rw [htext]
    exact hform.read?_isSome hs
  unfold readNumber at h
  rw [hts] at h
  simp only at h
  split at h
  · split at h
    · -- a hexadecimal number is an integer
      split at h
      · cases h
      · rw [finishNumber_token h] at hk
        cases hk
    · exact hdecimal _ h
  · exact hdecimal _ h

theorem single_ne_real {c : Char} {k : TokenKind} (h : single c = some k) : k ≠ .real := by
  unfold single at h
  split at h <;> cases h <;> simp

/-- A step at a character reads reals only through the number reader. -/
theorem tokenAt_reals (c : Char) (r : List Char) (n : Nat) : RealsRead (tokenAt c r n).tokens := by
  unfold tokenAt
  split
  next k hk =>
    -- a bracket or `=`
    simp [single_ne_real hk]
  split
  · -- `{`: a rawtext block or a brace
    split
    · split <;> simp
    · simp
  split
  · -- a string
    split <;> simp
  split
  · -- a UID
    dsimp only
    split <;> simp
  split
  · -- a tag header
    dsimp only
    split
    · split <;> simp
    · simp
  split
  · -- a name: a boolean or an identifier
    dsimp only
    split <;> simp
  split
  · -- a number
    intro tok htok hk
    obtain ⟨rest, hread⟩ := mem_ofRead_tokens.1 htok
    exact readNumber_real hread hk
  · simp

theorem step_reals (cs : List Char) (line : Nat) : RealsRead (step cs line).tokens := by
  unfold step
  split
  · simp
  · simp
  · exact tokenAt_reals _ _ _

/-- **Every real token of a text is a real number**: the scanner calls a number real by its
form, and the reader of reals reads every number of that form. -/
theorem lexFrom_reals (cs : List Char) (line : Nat) : RealsRead (lexFrom cs line).tokens := by
  fun_induction lexFrom cs line with
  | case1 => simp
  | case2 cs line ts e hstep =>
    simpa [hstep] using step_reals cs line
  | case3 cs line ts rest line' hstep hlen _ ih =>
    refine realsRead_append.2 ⟨?_, ih⟩
    simpa [hstep] using step_reals cs line
  | case4 cs line ts rest line' hstep hlen =>
    simpa [hstep] using step_reals cs line

end Scan

end GraphDoc
