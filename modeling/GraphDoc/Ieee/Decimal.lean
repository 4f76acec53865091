import GraphDoc.Ieee.Round
/-! # Reading decimal text

Decimal numbers as text writes them: an optional sign, then digits with at most one point
and at least one digit, then an optional exponent `e` or `E` with an optional sign and at
least one digit; or, after the sign, one of the words `inf`, `infinity` and `nan` in any
case. `Literal.read?` accepts exactly this grammar, and `Format.ofLiteral` rounds the exact
value to the nearest pattern of a format. -/
namespace GraphDoc
namespace Ieee

/-- A number as decimal text writes it. -/
inductive Literal where
  /-- `digits · 10 ^ exponent` -/
  | number (neg : Bool) (digits : Nat) (exponent : Int)
  | infinity (neg : Bool)
  | nan (neg : Bool)
deriving DecidableEq, Repr

namespace Literal

/-- The value of a list of decimal digits. -/
def digitsValue (ds : List Char) : Nat :=
  ds.foldl (fun n c => 10 * n + (c.toNat - '0'.toNat)) 0

/-- An optional sign: whether it is a minus, and the text after it. -/
def splitSign : List Char → Bool × List Char
  | '-' :: r => (true, r)
  | '+' :: r => (false, r)
  | r => (false, r)

/-- The exponent part after `e`: an optional sign and at least one digit, ending the text. -/
def readExponent (cs : List Char) : Option Int :=
  let (neg, r) := splitSign cs
  let (ds, rest) := r.span Char.isDigit
  if ds.isEmpty || !rest.isEmpty then none
  else
    let n := digitsValue ds
    some (if neg then -(n : Int) else n)

/-- The unsigned part of a number: digits with at most one point and at least one digit, and
an optional exponent. -/
def readMagnitude (cs : List Char) : Option (Nat × Int) :=
  let (whole, r) := cs.span Char.isDigit
  let (fraction, r) := match r with
    | '.' :: r' => r'.span Char.isDigit
    | _ => ([], r)
  if whole.isEmpty && fraction.isEmpty then none
  else
    let scale : Option Int := match r with
      | [] => some 0
      | c :: r' => if c == 'e' || c == 'E' then readExponent r' else none
    scale.map fun e => (digitsValue (whole ++ fraction), e - fraction.length)

/-- The literal that a text writes, or `none` if the text is not one. -/
def read? (s : String) : Option Literal :=
  let (neg, body) := splitSign s.toList
  if body.isEmpty then none
  else
    match readMagnitude body with
    | some (d, e) => some (.number neg d e)
    | none =>
      let word := String.ofList (body.map Char.toLower)
      if word == "inf" || word == "infinity" then some (.infinity neg)
      else if word == "nan" then some (.nan neg)
      else none

end Literal

/-- The number of decimal digits of a natural, one for zero. -/
def decimalLength (n : Nat) : Nat := (Nat.toDigits 10 n).length

namespace Format

variable (f : Format)

/-- The pattern nearest to a literal. A NaN is the quiet NaN with an empty payload. Far
beyond the largest finite value or far below half the least subnormal, the result is already
decided, so the exact ratio is only formed for exponents within four hundred of the digits. -/
def ofLiteral : Literal → Nat
  | .nan neg => f.assemble neg f.topField (Nat.pow 2 (f.fractionWidth - 1))
  | .infinity neg => f.infinity neg
  | .number neg d e =>
    if d = 0 then f.zero neg
    else if 400 < (decimalLength d : Int) + e then f.infinity neg
    else if (decimalLength d : Int) + e < -400 then f.zero neg
    else if 0 ≤ e then f.ofRatio neg (d * Nat.pow 10 e.toNat) 1
    else f.ofRatio neg d (Nat.pow 10 (-e).toNat)

end Format

end Ieee

namespace Binary64

/-- The value a decimal text denotes, correctly rounded, or `none` if it is no number. -/
def read? (s : String) : Option Binary64 :=
  (Ieee.Literal.read? s).map fun l => ⟨(Ieee.Format.binary64.ofLiteral l).toUInt64⟩

end Binary64

namespace Binary32

/-- The value a decimal text denotes, correctly rounded, or `none` if it is no number. -/
def read? (s : String) : Option Binary32 :=
  (Ieee.Literal.read? s).map fun l => ⟨(Ieee.Format.binary32.ofLiteral l).toUInt32⟩

end Binary32

end GraphDoc
