/-! # UTF-8 byte text

Decoding bytes as UTF-8, with the position and length of the first fault. A fault is either a
maximal prefix of a sequence that cannot be completed (its length is reported) or a sequence
cut off by the end of the bytes (no length). `decode` accepts exactly the well-formed byte
sequences of the Unicode standard: no overlong forms, no surrogates, nothing above U+10FFFF. -/
namespace GraphDoc
namespace Utf8

/-- The first place where bytes stop being UTF-8. -/
structure Fault where
  /-- the bytes before this index are well formed -/
  validUpTo : Nat
  /-- the length of the bad sequence, or `none` when the bytes end inside a sequence -/
  errorLength : Option Nat
deriving DecidableEq, Repr

/-- The description of a fault. -/
def Fault.message (f : Fault) : String :=
  match f.errorLength with
  | some n => "invalid utf-8 sequence of " ++ toString n ++ " bytes from index " ++ toString f.validUpTo
  | none => "incomplete utf-8 byte sequence from index " ++ toString f.validUpTo

/-- A continuation byte, `10xxxxxx`. -/
def isContinuation (b : UInt8) : Bool := b &&& 0xC0 == 0x80

/-- The bits a continuation byte carries. -/
def low6 (b : UInt8) : Nat := (b &&& 0x3F).toNat

/-- The range the second byte of a sequence must fall in, by its lead byte: narrowed after
`E0`, `ED`, `F0` and `F4`, which excludes overlong forms, surrogates and code points past
U+10FFFF. -/
def secondRange (lead : UInt8) : UInt8 × UInt8 :=
  if lead == 0xE0 then (0xA0, 0xBF)
  else if lead == 0xED then (0x80, 0x9F)
  else if lead == 0xF0 then (0x90, 0xBF)
  else if lead == 0xF4 then (0x80, 0x8F)
  else (0x80, 0xBF)

/-- Whether `b` may follow the lead byte `lead`. -/
def secondFits (lead b : UInt8) : Bool :=
  let (lo, hi) := secondRange lead
  lo ≤ b && b ≤ hi

/-- Decode the bytes from index `i` on, prepending the characters to `acc` in reverse. -/
def decodeFrom : List UInt8 → Nat → List Char → Except Fault (List Char)
  | [], _, acc => .ok acc.reverse
  | b :: rest, i, acc =>
    if b < 0x80 then decodeFrom rest (i + 1) (Char.ofNat b.toNat :: acc)
    else if 0xC2 ≤ b && b ≤ 0xDF then
      match rest with
      | [] => .error ⟨i, none⟩
      | c :: rest =>
        if isContinuation c then
          decodeFrom rest (i + 2) (Char.ofNat ((b &&& 0x1F).toNat * 64 + low6 c) :: acc)
        else .error ⟨i, some 1⟩
    else if 0xE0 ≤ b && b ≤ 0xEF then
      match rest with
      | [] => .error ⟨i, none⟩
      | c1 :: rest =>
        if !secondFits b c1 then .error ⟨i, some 1⟩
        else
          match rest with
          | [] => .error ⟨i, none⟩
          | c2 :: rest =>
            if isContinuation c2 then
              decodeFrom rest (i + 3)
                (Char.ofNat ((b &&& 0x0F).toNat * 4096 + low6 c1 * 64 + low6 c2) :: acc)
            else .error ⟨i, some 2⟩
    else if 0xF0 ≤ b && b ≤ 0xF4 then
      match rest with
      | [] => .error ⟨i, none⟩
      | c1 :: rest =>
        if !secondFits b c1 then .error ⟨i, some 1⟩
        else
          match rest with
          | [] => .error ⟨i, none⟩
          | c2 :: rest =>
            if !isContinuation c2 then .error ⟨i, some 2⟩
            else
              match rest with
              | [] => .error ⟨i, none⟩
              | c3 :: rest =>
                if isContinuation c3 then
                  decodeFrom rest (i + 4)
                    (Char.ofNat ((b &&& 0x07).toNat * 262144 + low6 c1 * 4096 + low6 c2 * 64 +
                      low6 c3) :: acc)
                else .error ⟨i, some 3⟩
    else .error ⟨i, some 1⟩

/-- Decode bytes, putting U+FFFD in place of each maximal bad sequence and of a sequence cut
off by the end; the characters are prepended to `acc` in reverse. -/
def lossyFrom : List UInt8 → List Char → List Char
  | [], acc => acc.reverse
  | b :: rest, acc =>
    if b < 0x80 then lossyFrom rest (Char.ofNat b.toNat :: acc)
    else if 0xC2 ≤ b && b ≤ 0xDF then
      match rest with
      | [] => ('\uFFFD' :: acc).reverse
      | c :: rest' =>
        if isContinuation c then
          lossyFrom rest' (Char.ofNat ((b &&& 0x1F).toNat * 64 + low6 c) :: acc)
        else lossyFrom (c :: rest') ('\uFFFD' :: acc)
    else if 0xE0 ≤ b && b ≤ 0xEF then
      match rest with
      | [] => ('\uFFFD' :: acc).reverse
      | c1 :: rest1 =>
        if !secondFits b c1 then lossyFrom (c1 :: rest1) ('\uFFFD' :: acc)
        else
          match rest1 with
          | [] => ('\uFFFD' :: acc).reverse
          | c2 :: rest2 =>
            if isContinuation c2 then
              lossyFrom rest2
                (Char.ofNat ((b &&& 0x0F).toNat * 4096 + low6 c1 * 64 + low6 c2) :: acc)
            else lossyFrom (c2 :: rest2) ('\uFFFD' :: acc)
    else if 0xF0 ≤ b && b ≤ 0xF4 then
      match rest with
      | [] => ('\uFFFD' :: acc).reverse
      | c1 :: rest1 =>
        if !secondFits b c1 then lossyFrom (c1 :: rest1) ('\uFFFD' :: acc)
        else
          match rest1 with
          | [] => ('\uFFFD' :: acc).reverse
          | c2 :: rest2 =>
            if !isContinuation c2 then lossyFrom (c2 :: rest2) ('\uFFFD' :: acc)
            else
              match rest2 with
              | [] => ('\uFFFD' :: acc).reverse
              | c3 :: rest3 =>
                if isContinuation c3 then
                  lossyFrom rest3
                    (Char.ofNat ((b &&& 0x07).toNat * 262144 + low6 c1 * 4096 + low6 c2 * 64 +
                      low6 c3) :: acc)
                else lossyFrom (c3 :: rest3) ('\uFFFD' :: acc)
    else lossyFrom rest ('\uFFFD' :: acc)
termination_by bs => bs.length

/-- The text of bytes with each bad sequence replaced by U+FFFD. -/
def decodeLossy (bytes : List UInt8) : String := String.ofList (lossyFrom bytes [])

/-- The text that bytes encode, or the first fault. -/
def decode (bytes : ByteArray) : Except Fault String :=
  (decodeFrom bytes.toList 0 []).map String.ofList

/-- The UTF-8 bytes of a text. -/
def encode (s : String) : ByteArray := s.toUTF8

end Utf8
end GraphDoc
