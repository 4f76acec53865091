import GraphDoc.Ieee.Decimal
/-! # Array elements of other number types

Arrays of a document hold 64-bit integers or 64-bit reals; programs exchange their contents
with buffers of other number types. A conversion between number types works as follows:
between integer types the value wraps around to the target width; from an integer to a real
it rounds to nearest; from a real to an integer it drops the fraction and saturates at the
ends of the range, with NaN going to zero; between real types it rounds to nearest. -/
namespace GraphDoc

/-- A number type of buffer elements. -/
inductive ElementType where
  | i8 | i16 | i32 | i64 | u8 | u16 | u32 | u64 | f32 | f64
deriving DecidableEq, Repr, Inhabited

/-- A buffer element: an integer within its type's range, or a real. -/
inductive Element where
  | int (n : Int)
  | single (x : Binary32)
  | double (x : Binary64)
deriving DecidableEq, Repr, Inhabited

namespace ElementType

/-- The type a name stands for. -/
def ofName? : String → Option ElementType
  | "i8" => some .i8 | "i16" => some .i16 | "i32" => some .i32 | "i64" => some .i64
  | "u8" => some .u8 | "u16" => some .u16 | "u32" => some .u32 | "u64" => some .u64
  | "f32" => some .f32 | "f64" => some .f64
  | _ => none

/-- The width and signedness of an integer type; `none` for a real type. -/
def integerLayout : ElementType → Option (Nat × Bool)
  | .i8 => some (8, true) | .i16 => some (16, true) | .i32 => some (32, true)
  | .i64 => some (64, true) | .u8 => some (8, false) | .u16 => some (16, false)
  | .u32 => some (32, false) | .u64 => some (64, false)
  | _ => none

/-- The least and greatest values of an integer type of the given layout. -/
def bounds (width : Nat) (signed : Bool) : Int × Int :=
  if signed then (-Int.pow 2 (width - 1), Int.pow 2 (width - 1) - 1) else (0, Int.pow 2 width - 1)

/-- An integer wrapped around into a layout's range. -/
def wrap (width : Nat) (signed : Bool) (n : Int) : Int :=
  let m := n % Int.pow 2 width
  if signed && m ≥ Int.pow 2 (width - 1) then m - Int.pow 2 width else m

/-- The zero of a type. -/
def zero : ElementType → Element
  | .f32 => .single ⟨0⟩
  | .f64 => .double ⟨0⟩
  | _ => .int 0

/-- A 64-bit integer converted to a type. -/
def ofInt64 (t : ElementType) (v : Int64) : Element :=
  match t, t.integerLayout with
  | _, some (w, s) => .int (wrap w s v.toInt)
  | .f32, none => .single (Binary32.ofInt v.toInt)
  | _, none => .double (Binary64.ofInt v.toInt)

/-- A 64-bit real converted to a type. -/
def ofReal (t : ElementType) (x : Binary64) : Element :=
  match t, t.integerLayout with
  | _, some (w, s) => let (lo, hi) := bounds w s; .int (x.saturate lo hi)
  | .f32, none => .single x.toBinary32
  | _, none => .double x

/-- The element that text denotes in a type: an integer in range with an optional sign (a
minus only for signed types), or a real. -/
def read? (t : ElementType) (s : String) : Option Element :=
  match t.integerLayout with
  | some (w, signed) =>
    let (neg, digits) := match s.toList with
      | '-' :: r => (true, r)
      | '+' :: r => (false, r)
      | r => (false, r)
    if digits.isEmpty || !digits.all Char.isDigit || (neg && !signed) then none
    else
      let n : Int := Ieee.Literal.digitsValue digits
      let v := if neg then -n else n
      let (lo, hi) := bounds w signed
      if lo ≤ v && v ≤ hi then some (.int v) else none
  | none =>
    if t == .f32 then (Binary32.read? s).map .single else (Binary64.read? s).map .double

end ElementType

namespace Element

/-- The element as a 64-bit integer. -/
def toInt64 : Element → Int64
  | .int n => Int64.ofInt n
  | .single x => Int64.ofInt (x.saturate (-Int.pow 2 63) (Int.pow 2 63 - 1))
  | .double x => Int64.ofInt (x.saturate (-Int.pow 2 63) (Int.pow 2 63 - 1))

/-- The element as a 64-bit real. -/
def toReal : Element → Binary64
  | .int n => Binary64.ofInt n
  | .single x => x.toBinary64
  | .double x => x

end Element

/-- Copy converted elements into a buffer of `dst.length`: as many as fit; the buffer and the
number copied. -/
def copyInto (src dst : List Element) : List Element × Nat :=
  let n := min src.length dst.length
  (src.take n ++ dst.drop n, n)

end GraphDoc
