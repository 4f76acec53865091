import GraphDoc.Ieee.Binary
/-! # Shortest decimal text

The fewest significant digits that read back as the same value. A positive finite value
`m · 2^q` stands for every real that rounds to it: from halfway to its lower neighbour to
halfway to its upper neighbour, both ends included when `m` is even (`Format.readsBack`).
`Format.shortest` tries the decimal grids `10^(k-1)`, `10^(k-2)`, … below the scale `10^k`
of the value; on each it tests the two grid points around the value, and the first grid with
a point inside the interval wins, the nearer of two points, an exact tie settled by a `Tie`.

`Notation` then lays the digits out: positionally or with an exponent, by the exponent of
the leading digit. -/
namespace GraphDoc
namespace Ieee

/-- The decimal `digits · 10 ^ exponent`. -/
structure Decimal where
  digits : Nat
  exponent : Int
deriving DecidableEq, Repr

/-- How a tie between two equally near candidates is settled. -/
inductive Tie where
  /-- the larger candidate -/
  | up
  /-- the candidate whose last digit is even -/
  | even
deriving DecidableEq, Repr

/-- Compare `a · 10 ^ i` with `n · 2 ^ j`, exactly. -/
def cmpScaled (a : Nat) (i : Int) (n : Nat) (j : Int) : Ordering :=
  compare (a * Nat.pow 10 i.toNat * Nat.pow 2 (-j).toNat) (n * Nat.pow 2 j.toNat * Nat.pow 10 (-i).toNat)

/-- Move trailing zeros of the digits into the exponent. -/
def Decimal.trim (digits : Nat) (exponent : Int) : Decimal :=
  if digits ≠ 0 ∧ digits % 10 = 0 then trim (digits / 10) (exponent + 1) else ⟨digits, exponent⟩
termination_by digits
decreasing_by omega

namespace Format

variable (f : Format)

/-- Whether the decimal `d` lies among the reals that round to the positive value `m · 2^q`.
At the least significand of a binade above the subnormals the neighbour below is half as
far away as the one above. -/
def readsBack (m : Nat) (q : Int) (d : Decimal) : Bool :=
  let narrow := m == Nat.pow 2 f.fractionWidth && f.minExponent < q
  let lo := if narrow then 4 * m - 1 else 4 * m - 2
  let hi := 4 * m + 2
  let incl := m % 2 == 0
  let cl := cmpScaled d.digits d.exponent lo (q - 2)
  let ch := cmpScaled d.digits d.exponent hi (q - 2)
  (cl == .gt || (incl && cl == .eq)) && (ch == .lt || (incl && ch == .eq))

end Format

/-- Whether `m · 2 ^ q < 10 ^ k`. -/
def belowTenPow (m : Nat) (q k : Int) : Bool :=
  m * Nat.pow 2 q.toNat * Nat.pow 10 (-k).toNat < Nat.pow 10 k.toNat * Nat.pow 2 (-q).toNat

/-- The least `k` with `m · 2 ^ q < 10 ^ k`, for positive `m`. The binary logarithm times
`log₁₀ 2` estimates it within one; the candidates around the estimate are tested exactly. -/
def decimalScale (m : Nat) (q : Int) : Int :=
  let est : Int := ((Nat.log2 m : Int) + q) * 30103 / 100000
  let ks := (List.range 6).map fun (i : Nat) => est - 2 + (i : Int)
  (ks.find? fun k => belowTenPow m q k).getD (est + 4)

/-- The two points of the grid `10 ^ g` around `m · 2 ^ q`: the one at or below it as a
number of grid units, and how twice the value compares with the sum of both points. -/
def gridNeighbours (m : Nat) (q g : Int) : Nat × Ordering :=
  let num := m * Nat.pow 2 q.toNat * Nat.pow 10 (-g).toNat
  let den := Nat.pow 2 (-q).toNat * Nat.pow 10 g.toNat
  let low := num / den
  (low, compare (2 * num) ((2 * low + 1) * den))

namespace Format

variable (f : Format)

/-- On the grid `10 ^ g`, the grid point around `m · 2 ^ q` that reads back, if any: the nearer
of the two when both do, a tie settled by `tie`. -/
def gridHit (tie : Tie) (m : Nat) (q g : Int) : Option Decimal :=
  let (low, side) := gridNeighbours m q g
  let lowOk := f.readsBack m q ⟨low, g⟩
  let highOk := f.readsBack m q ⟨low + 1, g⟩
  let pickHigh := match side, tie with
    | .lt, _ => false
    | .gt, _ => true
    | .eq, .up => true
    | .eq, .even => low % 2 == 1
  if lowOk && highOk then some ⟨if pickHigh then low + 1 else low, g⟩
  else if lowOk then some ⟨low, g⟩
  else if highOk then some ⟨low + 1, g⟩
  else none

/-- The shortest decimal that reads back as the positive finite value `m · 2 ^ q`, with its
trailing zeros moved into the exponent. Twenty grids are tried, more than any format here
needs; past them the exact value is returned. -/
def shortest (tie : Tie) (m : Nat) (q : Int) : Decimal :=
  let k := decimalScale m q
  let hit := (List.range 20).findSome? fun (n : Nat) => f.gridHit tie m q (k - 1 - (n : Int))
  match hit with
  | some d => Decimal.trim d.digits d.exponent
  | none =>
    if 0 ≤ q then Decimal.trim (m * Nat.pow 2 q.toNat) 0
    else Decimal.trim (m * Nat.pow 5 (-q).toNat) q

end Format

/-- How a printed number is laid out. -/
structure Notation where
  /-- the least exponent of the leading digit that is written positionally -/
  plainFrom : Int
  /-- the least exponent of the leading digit, above `plainFrom`, written with an exponent -/
  plainBelow : Int
  /-- whether a non-negative exponent carries a `+` -/
  plusExponent : Bool
  /-- how a tie between two shortest candidates is settled -/
  tie : Tie

namespace Notation

/-- `n` zeros. -/
def zeros (n : Nat) : String := String.ofList (List.replicate n '0')

/-- The digits of a positive decimal without trailing zeros, laid out: positionally with a
point and at least one digit after it, or as digits with a point after the first, then `e`
and the exponent of the leading digit. -/
def layout (n : Notation) (d : Decimal) : String :=
  let s := toString d.digits
  let len := s.length
  let lead : Int := d.exponent + len - 1
  if n.plainFrom ≤ lead ∧ lead < n.plainBelow then
    if 0 ≤ d.exponent then s ++ zeros d.exponent.toNat ++ ".0"
    else if 0 ≤ lead then
      String.ofList (s.toList.take (lead.toNat + 1)) ++ "." ++
        String.ofList (s.toList.drop (lead.toNat + 1))
    else "0." ++ zeros ((-lead).toNat - 1) ++ s
  else
    let mantissa :=
      if len = 1 then s else String.ofList (s.toList.take 1) ++ "." ++ String.ofList (s.toList.drop 1)
    let sign := if lead < 0 then "-" else if n.plusExponent then "+" else ""
    mantissa ++ "e" ++ sign ++ toString lead.natAbs

/-- The text of a finite pattern of format `f`: a minus for a negative sign, `0.0` for a
zero, else the shortest digits laid out; `none` for a NaN or an infinity. -/
def render? (n : Notation) (f : Format) (bits : Nat) : Option String :=
  let sign := if f.signOf bits then "-" else ""
  match f.kind bits with
  | .finite 0 _ => some (sign ++ "0.0")
  | .finite m q => some (sign ++ n.layout (f.shortest n.tie m q))
  | _ => none

end Notation

end Ieee

end GraphDoc
