import GraphDoc.Wire.Chunk
import GraphDoc.Usage
import GraphDoc.Ieee.Round
/-! # Writing documents in the binary format

A walk written as chunks after the header. Strings are a varint byte count and their UTF-8
bytes; counts are varints; reals are eight little-endian bytes. A structure reached again is
written as a UID chunk of its UID, and a list reached again as an empty list chunk of its tag.
A real array whose every element survives the trip through 32 bits (a NaN never does) is
written with four bytes an element. -/
namespace GraphDoc
namespace Wire

/-- The `n` little-endian bytes of a word. -/
def littleEndian (n : Nat) (w : Nat) : List UInt8 :=
  (List.range n).map fun i => (w / Nat.pow 2 (8 * i) % 256).toUInt8

/-- A count as a varint. -/
def countBytes (n : Nat) : List UInt8 := Varint.encode (Int64.ofInt n)

/-- A string: its UTF-8 byte count and bytes. -/
def stringBytes (s : String) : List UInt8 :=
  let b := s.toUTF8.toList
  countBytes b.length ++ b

/-- Whether every element of a real array is a 32-bit value, compared as numbers. -/
def fits32 (xs : List Binary64) : Bool := xs.all fun x => x.toBinary32.toBinary64.ieeeEq x

/-- The chunk of a scalar. -/
def scalarChunk : Scalar → List UInt8
  | .bool b => [ChunkKind.bool.code, if b then 1 else 0]
  | .int n => ChunkKind.integer.code :: Varint.encode n
  | .real x => ChunkKind.real.code :: littleEndian 8 x.bits.toNat
  | .str s => ChunkKind.string.code :: stringBytes s
  | .ident s => ChunkKind.identifier.code :: stringBytes s
  | .uid name _ => ChunkKind.uid.code :: stringBytes name

/-- The chunk of a rawtext block or an array. -/
def leafChunk (n : Node) : List UInt8 :=
  match n.body with
  | .raw text => ChunkKind.rawtext.code :: stringBytes n.tag ++ stringBytes text
  | .ints vs =>
    let enc := vs.flatMap Varint.encode
    ChunkKind.intArray.code :: stringBytes n.tag ++ countBytes vs.length ++ countBytes enc.length ++ enc
  | .reals xs =>
    if fits32 xs then
      ChunkKind.realArray32.code :: stringBytes n.tag ++ countBytes xs.length ++
        xs.flatMap fun x => littleEndian 4 x.toBinary32.bits.toNat
    else
      ChunkKind.realArray64.code :: stringBytes n.tag ++ countBytes xs.length ++
        xs.flatMap fun x => littleEndian 8 x.bits.toNat
  | _ => []

mutual
/-- The chunks of a walk; `used` says which UIDs are declared. -/
def chunk (used : String → Bool) : Shape → List UInt8
  | .scalar s _ => scalarChunk s
  | .struct _ tag uid _ pairs =>
    ChunkKind.struct.code :: stringBytes tag ++
      stringBytes (if uid != nullUid && used uid then uid else nullUid) ++
      countBytes pairs.length ++ pairChunks used pairs
  | .list _ tag _ items =>
    ChunkKind.list.code :: stringBytes tag ++ countBytes items.length ++ itemChunks used items
  | .leaf _ n => leafChunk n
  | .again _ n =>
    match n.body with
    | .struct uid _ => ChunkKind.uid.code :: stringBytes uid
    | _ => ChunkKind.list.code :: stringBytes n.tag ++ countBytes 0
  | .missing => []

/-- Keys and value chunks of pairs. -/
def pairChunks (used : String → Bool) : List (String × Shape) → List UInt8
  | [] => []
  | (k, s) :: rest => stringBytes k ++ chunk used s ++ pairChunks used rest

/-- Chunks of items. -/
def itemChunks (used : String → Bool) : List Shape → List UInt8
  | [] => []
  | s :: rest => chunk used s ++ itemChunks used rest
end

end Wire

/-- Bytes being written: the UIDs they declare, the containers entered so far and the bytes
so far. Walks written one after another share the visited set, as for text. -/
structure BinaryWriter where
  usage : Option Usage := none
  visited : Visited := {}
  output : List UInt8 := []

namespace BinaryWriter

/-- Write the header. -/
def writeHeader (w : BinaryWriter) : BinaryWriter := { w with output := w.output ++ Wire.header }

/-- Write the chunks of the walk from a structure of a graph. -/
def writeRoot (w : BinaryWriter) (g : Graph) (root : NodeId) : BinaryWriter :=
  let (s, vis) := g.walk w.visited root
  { w with visited := vis, output := w.output ++ Wire.chunk (Usage.declares w.usage) s }

/-- Forget the containers entered, so that the next walk is written in full. -/
def forgetVisited (w : BinaryWriter) : BinaryWriter := { w with visited := {} }

end BinaryWriter

namespace Graph

/-- The binary form of the document rooted at a structure; `usage` as for text. -/
def binaryWith (g : Graph) (usage : Option Usage) (root : NodeId) : List UInt8 :=
  (({ usage := usage } : BinaryWriter).writeHeader.writeRoot g root).output

/-- The binary form, declaring only referenced UIDs. -/
def binary (g : Graph) (root : NodeId) : List UInt8 := g.binaryWith (some (g.usage root)) root

end Graph

end GraphDoc
