import GraphDoc.Ieee.Shortest
/-! # JSON values and their text

JSON values with objects that keep their keys in insertion order, and their text in two
layouts: compact, and pretty with two spaces an indent level. Strings escape the quote, the
backslash and every control character; numbers are integers, or finite reals written with the
fewest digits that read back (`numberNotation`). -/
namespace GraphDoc
namespace Json

/-- A JSON value. An object keeps its keys in the order they were first inserted. -/
inductive Value where
  | null
  | bool (b : Bool)
  | int (n : Int)
  /-- a finite real -/
  | num (x : Binary64)
  | str (s : String)
  | arr (items : List Value)
  | obj (fields : List (String × Value))
deriving Repr, Inhabited

namespace Value

/-- A real as JSON: a number if finite, else `null`. -/
def ofReal (x : Binary64) : Value := if x.isFinite then .num x else .null

/-- Set a key of an object's fields: a present key keeps its place and takes the new value,
a new key goes last. -/
def setField (fields : List (String × Value)) (k : String) (v : Value) : List (String × Value) :=
  if fields.any (·.1 == k) then fields.map fun (k', v') => if k' == k then (k', v) else (k', v')
  else fields ++ [(k, v)]

/-- Reals in JSON: positional from `1e-5` up to below `1e16`, else with an exponent that
carries its sign, `+` included; a tie between two shortest candidates goes to the even one. -/
def numberNotation : Ieee.Notation where
  plainFrom := -5
  plainBelow := 16
  plusExponent := true
  tie := .even

/-- The text of a finite real. -/
def numberText (x : Binary64) : String :=
  (numberNotation.render? Ieee.Format.binary64 x.bits.toNat).getD "null"

/-- Four lowercase hexadecimal digits. -/
def hex4 (n : Nat) : String :=
  let d := Nat.toDigits 16 n
  String.ofList (List.replicate (4 - d.length) '0' ++ d)

/-- The characters of a string literal between its quotes. -/
def escapeChar (c : Char) : String :=
  match c with
  | '"' => "\\\""
  | '\\' => "\\\\"
  | '\x08' => "\\b"
  | '\x0c' => "\\f"
  | '\n' => "\\n"
  | '\r' => "\\r"
  | '\t' => "\\t"
  | c => if c.toNat < 0x20 then "\\u" ++ hex4 c.toNat else c.toString

/-- A string literal. -/
def quote (s : String) : String := "\"" ++ String.join (s.toList.map escapeChar) ++ "\""

mutual
/-- The compact text of a value. -/
def compact : Value → String
  | .null => "null"
  | .bool b => if b then "true" else "false"
  | .int n => toString n
  | .num x => numberText x
  | .str s => quote s
  | .arr items => "[" ++ compactItems items ++ "]"
  | .obj fields => "\x7b" ++ compactFields fields ++ "\x7d"

/-- Items separated by commas. -/
def compactItems : List Value → String
  | [] => ""
  | [v] => compact v
  | v :: rest => compact v ++ "," ++ compactItems rest

/-- Fields separated by commas. -/
def compactFields : List (String × Value) → String
  | [] => ""
  | [(k, v)] => quote k ++ ":" ++ compact v
  | (k, v) :: rest => quote k ++ ":" ++ compact v ++ "," ++ compactFields rest
end

/-- Two spaces for each level. -/
def indent (depth : Nat) : String := String.join (List.replicate depth "  ")

mutual
/-- The pretty text of a value at nesting depth `depth`: each item and field on its own line,
empty arrays and objects as `[]` and `{}`. -/
def pretty (depth : Nat) : Value → String
  | .arr [] => "[]"
  | .arr items => "[\n" ++ prettyItems depth items ++ "\n" ++ indent depth ++ "]"
  | .obj [] => "\x7b\x7d"
  | .obj fields => "\x7b\n" ++ prettyFields depth fields ++ "\n" ++ indent depth ++ "\x7d"
  | v => compact v

/-- Items one a line, separated by commas. -/
def prettyItems (depth : Nat) : List Value → String
  | [] => ""
  | [v] => indent (depth + 1) ++ pretty (depth + 1) v
  | v :: rest => indent (depth + 1) ++ pretty (depth + 1) v ++ ",\n" ++ prettyItems depth rest

/-- Fields one a line, separated by commas. -/
def prettyFields (depth : Nat) : List (String × Value) → String
  | [] => ""
  | [(k, v)] => indent (depth + 1) ++ quote k ++ ": " ++ pretty (depth + 1) v
  | (k, v) :: rest =>
    indent (depth + 1) ++ quote k ++ ": " ++ pretty (depth + 1) v ++ ",\n" ++ prettyFields depth rest
end

end Value

end Json
end GraphDoc
