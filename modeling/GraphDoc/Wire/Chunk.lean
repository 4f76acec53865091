import GraphDoc.Wire.Varint
/-! # Chunks of the binary format

A binary document is a header followed by one structure chunk. Every chunk starts with a
byte that says its kind; this module fixes those bytes, the header, and the faults that stop
reading. -/
namespace GraphDoc
namespace Wire

/-- The kinds of chunk, each with its leading byte. -/
inductive ChunkKind where
  | struct
  | list
  | realArray64
  | realArray32
  | intArray
  | rawtext
  | string
  | identifier
  | uid
  | real
  | integer
  | bool
deriving DecidableEq, Repr, Inhabited

namespace ChunkKind

/-- The leading byte of a chunk of this kind. -/
def code : ChunkKind → UInt8
  | .struct => 1
  | .list => 2
  | .realArray64 => 3
  | .realArray32 => 4
  | .intArray => 5
  | .rawtext => 6
  | .string => 7
  | .identifier => 8
  | .uid => 9
  | .real => 10
  | .integer => 11
  | .bool => 12

/-- The kind a leading byte stands for. -/
def ofCode? : UInt8 → Option ChunkKind
  | 1 => some .struct
  | 2 => some .list
  | 3 => some .realArray64
  | 4 => some .realArray32
  | 5 => some .intArray
  | 6 => some .rawtext
  | 7 => some .string
  | 8 => some .identifier
  | 9 => some .uid
  | 10 => some .real
  | 11 => some .integer
  | 12 => some .bool
  | _ => none

/-- The name of a kind in fault descriptions. -/
def name : ChunkKind → String
  | .struct => "Structure"
  | .list => "List"
  | .realArray64 => "ArrayRealDouble"
  | .realArray32 => "ArrayRealFloat"
  | .intArray => "ArrayInteger"
  | .rawtext => "Rawtext"
  | .string => "String"
  | .identifier => "Identifier"
  | .uid => "Uid"
  | .real => "RealDouble"
  | .integer => "Integer"
  | .bool => "Bool"

end ChunkKind

/-- The signature that opens every binary document. Its carriage return, line feed and
end-of-file bytes show damage by text-mode transfer. -/
def magic : List UInt8 := [0xAB, 0x56, 0x4C, 0x58, 0xBB, 0x0D, 0x0A, 0x1A, 0x0A]

/-- The only format version. -/
def version : Nat := 100

/-- The only text encoding. -/
def encodingName : String := "ascii"

/-- The header: signature, version as two little-endian bytes, encoding name with a closing
zero byte, and four zero flag bytes. -/
def header : List UInt8 :=
  magic ++ [version.toUInt8, (version / 256).toUInt8] ++ encodingName.toUTF8.toList ++ [0] ++
    [0, 0, 0, 0]

/-- Whether bytes start with the signature. -/
def isBinary (bytes : ByteArray) : Bool := magic.isPrefixOf bytes.toList

/-- Why bytes could not be read as a binary document. -/
inductive Fault where
  | truncated
  | varint (f : Varint.Fault)
  | badMagic
  | version (v : Nat)
  | encoding (name : String)
  | unknownKind (byte : UInt8)
  | rootKind (kind : ChunkKind)
  | trailing (count : Nat)
  | negativeCount (n : Int64)
  | badString
  | arrayLength (expected : Nat)
deriving DecidableEq, Repr

/-- The description of a fault. -/
def Fault.message : Fault → String
  | .truncated => "unexpected end of data"
  | .varint .truncated => "unexpected end of data in varint"
  | .varint .tooLong => "varint too long"
  | .badMagic => "bad magic"
  | .version v => "version " ++ toString v ++ " not supported"
  | .encoding e => "encoding '" ++ e ++ "' not supported"
  | .unknownKind b => "unknown chunk kind " ++ toString b.toNat
  | .rootKind k => "root chunk is " ++ k.name ++ ", expected Structure"
  | .trailing n => toString n ++ " trailing bytes after root structure"
  | .negativeCount n => "negative count " ++ toString n.toInt
  | .badString => "invalid UTF-8 string data"
  | .arrayLength n => "integer array length mismatch: expected " ++ toString n ++ " bytes"

end Wire
end GraphDoc
