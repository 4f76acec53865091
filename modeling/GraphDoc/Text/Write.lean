import GraphDoc.Usage
import GraphDoc.Ieee.Shortest
/-! # Writing documents as text

The text form of a walk, in the grammar that `Parsed.ofString` reads: one pair a line,
nested containers indented one step per level, a tag on its own line before a structure or a
non-empty list and inline before other containers, arrays on one line or in chunks.

A structure reached again is written as its bare UID and a list reached again as `[ ]`, so
the text of a shared or cyclic graph stays finite. A structure declares its UID only where the
usage says it is referenced (or always, without a usage). Reals are written with the fewest
digits that read back (`realNotation`); a NaN or an infinity, which the grammar cannot write,
is written `0.0`. -/
namespace GraphDoc

/-- Layout choices of the text writer. None of them changes what a reader gets back. -/
structure TextOptions where
  /-- one copy per nesting level -/
  indent : String := "\t"
  /-- array elements per line -/
  arrayChunk : Nat := 10
  /-- the first word of the header -/
  formatName : String := "VLX"
deriving Repr, Inhabited

namespace TextWrite

/-- Reals in text: positional from `1e-4` up to below `1e16`, with exponent otherwise and no
`+` on it; a tie between two shortest candidates goes to the larger. -/
def realNotation : Ieee.Notation where
  plainFrom := -4
  plainBelow := 16
  plusExponent := false
  tie := .up

/-- The text of a real. -/
def real (x : Binary64) : String :=
  (realNotation.render? Ieee.Format.binary64 x.bits.toNat).getD "0.0"

/-- The characters of a quoted string: the quotes, and the escapes the scanner resolves. -/
def escapeChars : List Char → List Char
  | [] => []
  | c :: rest =>
    let e : List Char := match c with
      | '"' => ['\\', '"']
      | '\\' => ['\\', '\\']
      | '\x08' => ['\\', 'b']
      | '\x0c' => ['\\', 'f']
      | '\n' => ['\\', 'n']
      | '\r' => ['\\', 'r']
      | '\t' => ['\\', 't']
      | c => [c]
    e ++ escapeChars rest

/-- A string as a quoted literal. -/
def escapeString (s : String) : String := String.ofList ('"' :: escapeChars s.toList ++ ['"'])

/-- A rawtext body made safe between `{<` and `>}`: each `>}` is written `\>}`. Built in
reverse, so that the last character written is at the front. -/
def escapeRawChars (acc : List Char) : List Char → List Char
  | [] => acc.reverse
  | c :: rest =>
    match c, acc with
    | '}', '>' :: acc' => escapeRawChars ('}' :: '>' :: '\\' :: acc') rest
    | c, acc => escapeRawChars (c :: acc) rest

/-- A rawtext body made safe between `{<` and `>}`. -/
def escapeRawtext (s : String) : String := String.ofList (escapeRawChars [] s.toList)

/-- `depth` copies of the indent. -/
def indentOf (o : TextOptions) (depth : Nat) : String :=
  String.join (List.replicate depth o.indent)

/-- A tag and a space before an inline container; nothing for an untagged one. -/
def inlineTag (tag : String) : String := if tag.isEmpty then "" else tag ++ " "

/-- A tag on its own line before a block container; nothing for an untagged one. -/
def blockTag (o : TextOptions) (depth : Nat) (tag : String) : String :=
  if tag.isEmpty then "" else tag ++ "\n" ++ indentOf o depth

/-- Split a list into chunks of `n + 1` elements, the last one possibly shorter. -/
def chunks (n : Nat) : List String → List (List String)
  | [] => []
  | x :: xs => (x :: xs.take n) :: chunks n (xs.drop n)
termination_by xs => xs.length
decreasing_by simp only [List.length_drop, List.length_cons]; omega

/-- An array of element texts: `( )` when empty, on one line up to `arrayChunk` elements,
else one chunk a line. -/
def array (o : TextOptions) (depth : Nat) (tag : String) (items : List String) : String :=
  let chunk := max o.arrayChunk 1
  inlineTag tag ++
    if items.isEmpty then "( )"
    else if items.length ≤ chunk then "( " ++ String.join (items.map (· ++ " ")) ++ ")"
    else
      "(" ++ String.join ((chunks (chunk - 1) items).map fun line =>
          "\n" ++ indentOf o (depth + 1) ++ " ".intercalate line) ++
        "\n" ++ indentOf o depth ++ ")"

/-- The text of a scalar. -/
def scalar : Scalar → String
  | .bool b => if b then "true" else "false"
  | .int n => toString n.toInt
  | .real x => real x
  | .str s => escapeString s
  | .ident s => s
  | .uid name _ => name

mutual
/-- The text of a walk at nesting depth `depth`; `used` says which UIDs are declared. -/
def shape (o : TextOptions) (used : String → Bool) (depth : Nat) : Shape → String
  | .scalar s _ => scalar s
  | .struct _ tag uid _ pairs =>
    let inner := indentOf o (depth + 1)
    blockTag o depth tag ++ "\x7b\n" ++
      (if uid != nullUid && used uid then inner ++ "ID = " ++ uid ++ "\n" else "") ++
      pairsText o used depth pairs ++ indentOf o depth ++ "\x7d"
  | .list _ tag _ items =>
    if items.isEmpty then inlineTag tag ++ "[ ]"
    else blockTag o depth tag ++ "[\n" ++ itemsText o used depth items ++ indentOf o depth ++ "]"
  | .leaf _ n =>
    match n.body with
    | .raw text => inlineTag n.tag ++ "\x7b<\n" ++ escapeRawtext text ++ "\n>\x7d"
    | .ints vs => array o depth n.tag (vs.map fun v => toString v.toInt)
    | .reals vs => array o depth n.tag (vs.map real)
    | _ => ""
  | .again _ n =>
    match n.body with
    | .struct uid _ => uid
    | _ => "[ ]"
  | .missing => ""

/-- The lines of pairs inside a structure at depth `depth`. -/
def pairsText (o : TextOptions) (used : String → Bool) (depth : Nat) :
    List (String × Shape) → String
  | [] => ""
  | (k, s) :: rest =>
    indentOf o (depth + 1) ++ k ++ " = " ++ shape o used (depth + 1) s ++ "\n" ++
      pairsText o used depth rest

/-- The lines of items inside a list at depth `depth`. -/
def itemsText (o : TextOptions) (used : String → Bool) (depth : Nat) : List Shape → String
  | [] => ""
  | s :: rest =>
    indentOf o (depth + 1) ++ shape o used (depth + 1) s ++ "\n" ++ itemsText o used depth rest
end

/-- The header line and the blank line after it. -/
def header (o : TextOptions) : String := o.formatName ++ " version=100 encoding=ascii\n\n"

end TextWrite

/-- A text being written: its options, the UIDs it declares, the containers entered so far and
the text so far. Walks written one after another share the visited set, so a structure
written by an earlier walk is written by a later one as its bare UID. -/
structure TextWriter where
  options : TextOptions := {}
  usage : Option Usage := none
  visited : Visited := {}
  output : String := ""

namespace TextWriter

/-- Write the header. -/
def writeHeader (w : TextWriter) : TextWriter :=
  { w with output := w.output ++ TextWrite.header w.options }

/-- Write the walk from a structure of a graph, with no line break after it. -/
def writeRoot (w : TextWriter) (g : Graph) (root : NodeId) : TextWriter :=
  let (s, vis) := g.walk w.visited root
  { w with visited := vis, output := w.output ++ TextWrite.shape w.options (Usage.declares w.usage) 0 s }

/-- Forget the containers entered, so that the next walk is written in full. -/
def forgetVisited (w : TextWriter) : TextWriter := { w with visited := {} }

end TextWriter

namespace Graph

/-- The text of the document rooted at a structure, with explicit options and usage: the
header, the walk from the root and a line break. -/
def textWith (g : Graph) (o : TextOptions) (usage : Option Usage) (root : NodeId) : String :=
  (({ options := o, usage := usage } : TextWriter).writeHeader.writeRoot g root).output ++ "\n"

/-- The text of the document rooted at a structure, declaring only referenced UIDs. -/
def text (g : Graph) (root : NodeId) : String := g.textWith {} (some (g.usage root)) root

end Graph

end GraphDoc
