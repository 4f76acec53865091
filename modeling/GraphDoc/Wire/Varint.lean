/-! # Signed varints

Variable-length signed 64-bit integers in sign-magnitude form. The first byte holds a
continuation flag (`0x80`), the sign (`0x40`) and the low six bits of the magnitude; each
further byte holds a continuation flag and the next seven bits, least significant first.
So a value takes one byte below 64 in magnitude and at most ten in all. Reading stops with
a fault when the bytes end inside a varint or when a tenth byte asks for more. -/
namespace GraphDoc
namespace Varint

/-- The seven-bit groups of a magnitude after its first six bits, each with its
continuation flag. -/
def groups (mag : Nat) : List UInt8 :=
  if mag = 0 then []
  else
    let more := mag / 128
    (mag % 128 + (if more = 0 then 0 else 128)).toUInt8 :: groups more
termination_by mag
decreasing_by omega

/-- The bytes of a value. -/
def encode (v : Int64) : List UInt8 :=
  let mag := v.toInt.natAbs
  let first := mag % 64 + (if v < 0 then 64 else 0) + (if mag / 64 = 0 then 0 else 128)
  first.toUInt8 :: groups (mag / 64)

/-- Why a varint could not be read. -/
inductive Fault where
  /-- the bytes end inside the varint -/
  | truncated
  /-- a tenth byte still asks for more -/
  | tooLong
deriving DecidableEq, Repr

/-- Read the groups after the first byte from `pos` on: at most `budget` more bytes, the next
group landing at bit `shift` of the magnitude; bits past the sixty-fourth are dropped. The
magnitude and the position after the last byte. -/
def readGroups (bytes : ByteArray) : (budget pos shift mag : Nat) → Except Fault (Nat × Nat)
  | 0, _, _, _ => .error .tooLong
  | budget + 1, pos, shift, mag =>
    match bytes[pos]? with
    | none => .error .truncated
    | some b =>
      let mag := (mag + (b &&& 0x7F).toNat * Nat.pow 2 shift) % Nat.pow 2 64
      if b &&& 0x80 == 0 then .ok (mag, pos + 1)
      else readGroups bytes budget (pos + 1) (shift + 7) mag

/-- The value at `pos` and the position after it. The magnitude is read as an unsigned 64-bit
word and then taken as a signed one, negated with wrap-around when the sign is set. -/
def decode (bytes : ByteArray) (pos : Nat) : Except Fault (Int64 × Nat) :=
  match bytes[pos]? with
  | none => .error .truncated
  | some first =>
    let done : Nat × Nat → Int64 × Nat := fun (mag, next) =>
      let v := Int64.ofInt mag
      (if first &&& 0x40 == 0 then v else -v, next)
    if first &&& 0x80 == 0 then .ok (done ((first &&& 0x3F).toNat, pos + 1))
    else (readGroups bytes 9 (pos + 1) 6 (first &&& 0x3F).toNat).map done

end Varint
end GraphDoc
