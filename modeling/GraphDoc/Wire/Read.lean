import GraphDoc.Wire.Chunk
import GraphDoc.Error
import GraphDoc.Tree
import GraphDoc.Text.Utf8
import GraphDoc.Ieee.Round
/-! # Reading documents in the binary format

`Tree.ofBinary` reads a header and one structure chunk that must end the bytes. Values read
from binary have line 0 and their UID references are unlinked. A 32-bit real array is widened
to 64 bits. Every chunk read consumes at least one byte, so the nesting depth, and the fuel
that bounds it, never exceeds the number of bytes. -/
namespace GraphDoc
namespace Wire

/-- Reading from a fixed byte array, at a position. -/
abbrev Reader := StateT Nat (Except Fault)

namespace Reader

variable (bytes : ByteArray)

/-- One byte. -/
def byte : Reader UInt8 := do
  let pos ← get
  match bytes[pos]? with
  | some b => set (pos + 1); return b
  | none => throw .truncated

/-- `n` bytes. -/
def take (n : Nat) : Reader (List UInt8) := do
  let pos ← get
  if pos + n ≤ bytes.size then
    set (pos + n)
    return (bytes.extract pos (pos + n)).toList
  else throw .truncated

/-- A little-endian word of `n` bytes. -/
def word (n : Nat) : Reader Nat := do
  let bs ← take bytes n
  return bs.foldr (fun b acc => acc * 256 + b.toNat) 0

/-- A varint. -/
def varint : Reader Int64 := do
  match Varint.decode bytes (← get) with
  | .ok (v, pos) => set pos; return v
  | .error f => throw (.varint f)

/-- A count: a varint that must not be negative. -/
def count : Reader Nat := do
  let n ← varint bytes
  if n < 0 then throw (.negativeCount n) else return n.toInt.toNat

/-- A string: a byte count and that many bytes of UTF-8. -/
def string : Reader String := do
  let n ← count bytes
  let raw ← take bytes n
  match Utf8.decode ⟨raw.toArray⟩ with
  | .ok s => return s
  | .error _ => throw .badString

/-- A chunk kind byte. -/
def kind : Reader ChunkKind := do
  let b ← byte bytes
  match ChunkKind.ofCode? b with
  | some k => return k
  | none => throw (.unknownKind b)

/-- `n` items read by `r`, in order. -/
def many (r : Reader α) : Nat → Reader (List α)
  | 0 => return []
  | n + 1 => do
    let x ← r
    let xs ← many r n
    return x :: xs

mutual
/-- A value chunk, its kind byte included. -/
def value : Nat → Reader Tree
  | 0 => throw .truncated
  | fuel + 1 => do
    match ← kind bytes with
    | .struct => structureBody fuel
    | .list => do
      let tag ← string bytes
      let n ← count bytes
      let items ← values fuel n
      return .list tag 0 items
    | .realArray64 => do
      let tag ← string bytes
      let n ← count bytes
      let xs ← many (word bytes 8) n
      return .reals tag 0 (xs.map fun w => ⟨w.toUInt64⟩)
    | .realArray32 => do
      let tag ← string bytes
      let n ← count bytes
      let xs ← many (word bytes 4) n
      return .reals tag 0 (xs.map fun w => (⟨w.toUInt32⟩ : Binary32).toBinary64)
    | .intArray => do
      let tag ← string bytes
      let n ← count bytes
      let len ← count bytes
      let stop := (← get) + len
      if stop > bytes.size then throw .truncated
      let vs ← many (varint bytes) n
      if (← get) != stop then throw (.arrayLength len)
      return .ints tag 0 vs
    | .rawtext => do
      let tag ← string bytes
      let text ← string bytes
      return .raw tag 0 text
    | .string => return .scalar (.str (← string bytes)) 0
    | .identifier => return .scalar (.ident (← string bytes)) 0
    | .uid => return .scalar (.uid (← string bytes) none) 0
    | .real => return .scalar (.real ⟨(← word bytes 8).toUInt64⟩) 0
    | .integer => return .scalar (.int (← varint bytes)) 0
    | .bool => return .scalar (.bool ((← byte bytes) != 0)) 0
termination_by fuel => (fuel, 0, 0)

/-- The body of a structure chunk after its kind byte: tag, UID, count and pairs. -/
def structureBody (fuel : Nat) : Reader Tree := do
  let tag ← string bytes
  let uid ← string bytes
  let n ← count bytes
  let ps ← pairs fuel n
  return .struct tag uid 0 ps
termination_by (fuel, 2, 0)

/-- `n` values. -/
def values (fuel : Nat) : Nat → Reader (List Tree)
  | 0 => return []
  | n + 1 => do
    let v ← value fuel
    let vs ← values fuel n
    return v :: vs
termination_by n => (fuel, 1, n)

/-- `n` pairs of a key and a value. -/
def pairs (fuel : Nat) : Nat → Reader (List (String × Tree))
  | 0 => return []
  | n + 1 => do
    let k ← string bytes
    let v ← value fuel
    let ps ← pairs fuel n
    return (k, v) :: ps
termination_by n => (fuel, 1, n)
end

/-- The header: signature, version 100, encoding `ascii` up to a zero byte, four flag bytes. -/
def header : Reader Unit := do
  let pos ← get
  if !(pos + magic.length ≤ bytes.size && (bytes.extract pos (pos + magic.length)).toList == magic) then
    throw .badMagic
  set (pos + magic.length)
  let v ← word bytes 2
  if v != version then throw (.version v)
  let start ← get
  let rest := (bytes.extract start bytes.size).toList
  match rest.idxOf? 0 with
  | none => throw .truncated
  | some k =>
    let name := rest.take k
    if name != encodingName.toUTF8.toList then throw (.encoding (Utf8.decodeLossy name))
    set (start + k + 1)
    let _ ← take bytes 4
    return ()

/-- A whole document: header, a structure chunk, and nothing after it. -/
def document : Reader Tree := do
  header bytes
  let k ← kind bytes
  if k != .struct then throw (.rootKind k)
  let root ← structureBody bytes (bytes.size + 1)
  let pos ← get
  if pos != bytes.size then throw (.trailing (bytes.size - pos))
  return root

end Reader

end Wire

/-- Read a document from its binary form. -/
def Tree.ofBinary (bytes : ByteArray) : Except Error Tree :=
  match (Wire.Reader.document bytes).run' 0 with
  | .ok t => .ok t
  | .error f => .error (Error.decode f)

end GraphDoc
