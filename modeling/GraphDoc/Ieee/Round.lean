import GraphDoc.Ieee.Binary
/-! # Rounding to a binary format

The value nearest to an exact ratio of naturals, in any binary format, a tie going to the
even significand: the rounding that reading decimal text and converting between number
types both use. `Format.ofRatio` finds the binade of the ratio, fixes the unit of the last
place there (never below the least subnormal unit), and rounds the ratio at that unit with
`roundHalfEven`; `Format.pack` then handles the carry into the next binade and overflow. -/
namespace GraphDoc
namespace Ieee

/-- `num / den` rounded to the nearest natural, a tie going to the even one. -/
def roundHalfEven (num den : Nat) : Nat :=
  let q := num / den
  let r := num % den
  if 2 * r > den ∨ (2 * r = den ∧ q % 2 = 1) then q + 1 else q

/-- Whether `num / den < 2 ^ k`, compared exactly. -/
def belowPow (num den : Nat) (k : Int) : Bool :=
  if 0 ≤ k then num < den * Nat.pow 2 k.toNat else num * Nat.pow 2 (-k).toNat < den

/-- The exponent `e` with `2 ^ e ≤ num / den < 2 ^ (e + 1)`, for positive `num` and `den`.
The difference of the binary logarithms is `e` or `e + 1`, and one exact comparison decides. -/
def binade (num den : Nat) : Int :=
  let e : Int := (Nat.log2 num : Int) - Nat.log2 den
  if belowPow num den e then e - 1 else e

namespace Format

variable (f : Format)

/-- The pattern of the value nearest to `num / den` with sign `neg`, a tie going to the even
significand; a ratio beyond the largest finite value gives infinity, and a zero numerator (or
denominator) a zero. -/
def ofRatio (neg : Bool) (num den : Nat) : Nat :=
  if num = 0 ∨ den = 0 then f.zero neg
  else
    let q := max (binade num den - f.fractionWidth) f.minExponent
    let m :=
      if 0 ≤ q then roundHalfEven num (den * Nat.pow 2 q.toNat)
      else roundHalfEven (num * Nat.pow 2 (-q).toNat) den
    f.pack neg m q

/-- The pattern nearest to an integer. -/
def ofInt (i : Int) : Nat := f.ofRatio (i < 0) i.natAbs 1

/-- The integer part of a finite pattern, rounded toward zero; `none` for a NaN or an
infinity. -/
def truncate? (bits : Nat) : Option Int :=
  match f.kind bits with
  | .finite m q =>
    let n : Nat := if 0 ≤ q then m * Nat.pow 2 q.toNat else m / Nat.pow 2 (-q).toNat
    some (if f.signOf bits then -(n : Int) else n)
  | _ => none

/-- The integer nearest toward zero within `[lo, hi]`: a value beyond the range goes to the
nearer end, an infinity to the end of its sign, and a NaN to zero. -/
def saturate (bits : Nat) (lo hi : Int) : Int :=
  match f.kind bits with
  | .nan => 0
  | .infinite => if f.signOf bits then lo else hi
  | .finite _ _ =>
    let t := (f.truncate? bits).getD 0
    if t < lo then lo else if hi < t then hi else t

end Format

end Ieee

namespace Binary64

/-- The value nearest to `num / den` with sign `neg`. -/
def ofRatio (neg : Bool) (num den : Nat) : Binary64 :=
  ⟨(Ieee.Format.binary64.ofRatio neg num den).toUInt64⟩

/-- The value nearest to an integer. -/
def ofInt (i : Int) : Binary64 := ⟨(Ieee.Format.binary64.ofInt i).toUInt64⟩

/-- The integer part, saturated to `[lo, hi]`, with NaN going to zero. -/
def saturate (x : Binary64) (lo hi : Int) : Int := Ieee.Format.binary64.saturate x.bits.toNat lo hi

/-- The nearest 32-bit value. A NaN stays a NaN of the same sign, made quiet, keeping the
top bits of its payload. -/
def toBinary32 (x : Binary64) : Binary32 :=
  let b := x.bits.toNat
  let f := Ieee.Format.binary64
  match x.kind with
  | .nan =>
    ⟨(Ieee.Format.binary32.assemble (f.signOf b) 255 (Nat.pow 2 22 + f.fractionOf b / Nat.pow 2 29 % Nat.pow 2 22)).toUInt32⟩
  | .infinite => ⟨(Ieee.Format.binary32.infinity (f.signOf b)).toUInt32⟩
  | .finite m q =>
    if 0 ≤ q then ⟨(Ieee.Format.binary32.ofRatio (f.signOf b) (m * Nat.pow 2 q.toNat) 1).toUInt32⟩
    else ⟨(Ieee.Format.binary32.ofRatio (f.signOf b) m (Nat.pow 2 (-q).toNat)).toUInt32⟩

end Binary64

namespace Binary32

/-- The value nearest to `num / den` with sign `neg`. -/
def ofRatio (neg : Bool) (num den : Nat) : Binary32 :=
  ⟨(Ieee.Format.binary32.ofRatio neg num den).toUInt32⟩

/-- The value nearest to an integer. -/
def ofInt (i : Int) : Binary32 := ⟨(Ieee.Format.binary32.ofInt i).toUInt32⟩

/-- The integer part, saturated to `[lo, hi]`, with NaN going to zero. -/
def saturate (x : Binary32) (lo hi : Int) : Int := Ieee.Format.binary32.saturate x.bits.toNat lo hi

/-- The same value in 64 bits, which holds every 32-bit value exactly. A NaN stays a NaN of
the same sign, made quiet, with its payload moved to the top of the wider fraction. -/
def toBinary64 (x : Binary32) : Binary64 :=
  let b := x.bits.toNat
  let f := Ieee.Format.binary32
  match x.kind with
  | .nan =>
    ⟨(Ieee.Format.binary64.assemble (f.signOf b) 2047 (Nat.pow 2 51 + f.fractionOf b * Nat.pow 2 29 % Nat.pow 2 51)).toUInt64⟩
  | .infinite => ⟨(Ieee.Format.binary64.infinity (f.signOf b)).toUInt64⟩
  | .finite m q =>
    if 0 ≤ q then ⟨(Ieee.Format.binary64.ofRatio (f.signOf b) (m * Nat.pow 2 q.toNat) 1).toUInt64⟩
    else ⟨(Ieee.Format.binary64.ofRatio (f.signOf b) m (Nat.pow 2 (-q).toNat)).toUInt64⟩

end Binary32

end GraphDoc
