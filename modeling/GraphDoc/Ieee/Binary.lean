/-! # Binary interchange formats

IEEE-754 binary floating-point values kept as their bit patterns. Every operation here is
plain natural-number arithmetic on the three fields (sign, biased exponent, fraction), so
two values are the same exactly when their patterns are, and the kernel can evaluate all of
it. The main definitions are `Format.kind`, which reads a pattern as `m · 2^q`, and
`Format.pack`, which writes a rounded significand back, overflowing to infinity. -/
namespace GraphDoc
namespace Ieee

/-- A binary interchange format: `precision` significand bits, the hidden bit included, and
`exponentWidth` bits of biased exponent. -/
structure Format where
  precision : Nat
  exponentWidth : Nat

/-- What a bit pattern stands for, apart from its sign. -/
inductive Kind where
  | nan
  | infinite
  /-- The magnitude `m · 2^q`. -/
  | finite (m : Nat) (q : Int)
deriving DecidableEq, Repr

namespace Format

variable (f : Format)

/-- The 64-bit format: 53 significand bits and 11 exponent bits. -/
def binary64 : Format := ⟨53, 11⟩

/-- The 32-bit format: 24 significand bits and 8 exponent bits. -/
def binary32 : Format := ⟨24, 8⟩

/-- Bits of stored fraction: the significand without its hidden bit. -/
def fractionWidth : Nat := f.precision - 1

/-- Bits of a whole pattern: sign, exponent and fraction. -/
def width : Nat := 1 + f.exponentWidth + f.fractionWidth

/-- The biased exponent of infinities and NaNs. -/
def topField : Nat := Nat.pow 2 f.exponentWidth - 1

/-- The exponent bias. -/
def bias : Nat := Nat.pow 2 (f.exponentWidth - 1) - 1

/-- The exponent of the least unit: a subnormal value is `m · 2^minExponent`. -/
def minExponent : Int := 1 - (f.bias : Int) - f.fractionWidth

/-- The sign bit of a pattern. -/
def signOf (bits : Nat) : Bool := bits / Nat.pow 2 (f.width - 1) % 2 == 1

/-- The biased exponent field of a pattern. -/
def fieldOf (bits : Nat) : Nat := bits / Nat.pow 2 f.fractionWidth % Nat.pow 2 f.exponentWidth

/-- The fraction field of a pattern. -/
def fractionOf (bits : Nat) : Nat := bits % Nat.pow 2 f.fractionWidth

/-- The pattern with the given sign, biased exponent and fraction. -/
def assemble (neg : Bool) (field fraction : Nat) : Nat :=
  (if neg then Nat.pow 2 (f.width - 1) else 0) + field * Nat.pow 2 f.fractionWidth + fraction

/-- The value a pattern stands for, apart from its sign: a zero or subnormal field scales the
bare fraction by the least unit, a normal one adds the hidden bit. -/
def kind (bits : Nat) : Kind :=
  let field := f.fieldOf bits
  let fraction := f.fractionOf bits
  if field == f.topField then
    if fraction == 0 then .infinite else .nan
  else if field == 0 then .finite fraction f.minExponent
  else .finite (Nat.pow 2 f.fractionWidth + fraction) (f.minExponent + (field - 1 : Nat))

/-- The pattern of an infinity. -/
def infinity (neg : Bool) : Nat := f.assemble neg f.topField 0

/-- The pattern of a zero. -/
def zero (neg : Bool) : Nat := f.assemble neg 0 0

/-- The pattern of the magnitude `m · 2^q`, where `m` is a significand already rounded at the
unit `2^q`: either `q` is the least exponent or `m` has at least `precision` bits' worth of
place. A significand that rounding carried to `2^precision` moves up one binade; an exponent
past the largest binade gives infinity. -/
def pack (neg : Bool) (m : Nat) (q : Int) : Nat :=
  let (m, q) := if m ≥ Nat.pow 2 f.precision then (m / 2, q + 1) else (m, q)
  if m < Nat.pow 2 f.fractionWidth then f.assemble neg 0 m
  else
    let field := (q - f.minExponent).toNat + 1
    if field ≥ f.topField then f.infinity neg
    else f.assemble neg field (m - Nat.pow 2 f.fractionWidth)

end Format

end Ieee

/-- A 64-bit binary floating-point value, kept as its bit pattern. -/
structure Binary64 where
  bits : UInt64
deriving DecidableEq, Inhabited, Repr

/-- A 32-bit binary floating-point value, kept as its bit pattern. -/
structure Binary32 where
  bits : UInt32
deriving DecidableEq, Inhabited, Repr

namespace Binary64

/-- What the value stands for, apart from its sign. -/
def kind (x : Binary64) : Ieee.Kind := Ieee.Format.binary64.kind x.bits.toNat

/-- The sign bit. -/
def negative (x : Binary64) : Bool := Ieee.Format.binary64.signOf x.bits.toNat

/-- Whether the value is a NaN. -/
def isNaN (x : Binary64) : Bool := x.kind == .nan

/-- Whether the value is neither a NaN nor an infinity. -/
def isFinite (x : Binary64) : Bool :=
  match x.kind with
  | .finite _ _ => true
  | _ => false

/-- Whether the value is a zero of either sign. -/
def isZero (x : Binary64) : Bool := x.bits &&& 0x7FFFFFFFFFFFFFFF == 0

/-- Equality of values, not of patterns: a NaN equals nothing, itself included, and the two
zeros are equal. -/
def ieeeEq (x y : Binary64) : Bool :=
  !x.isNaN && !y.isNaN && (x.bits == y.bits || (x.isZero && y.isZero))

end Binary64

namespace Binary32

/-- What the value stands for, apart from its sign. -/
def kind (x : Binary32) : Ieee.Kind := Ieee.Format.binary32.kind x.bits.toNat

/-- The sign bit. -/
def negative (x : Binary32) : Bool := Ieee.Format.binary32.signOf x.bits.toNat

/-- Whether the value is a NaN. -/
def isNaN (x : Binary32) : Bool := x.kind == .nan

end Binary32

end GraphDoc
