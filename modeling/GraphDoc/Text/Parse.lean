import GraphDoc.Text.Scan
import GraphDoc.Error
import GraphDoc.Tree
import GraphDoc.Ieee.Decimal
/-! # Reading documents from text

The grammar of a document text:

```text
document       := header TagHeader '{' structure-body '}'
header         := IDENTIFIER 'version' '=' INTEGER 'encoding' '=' IDENTIFIER
structure-body := ( 'ID' '=' UID | key '=' value )*
value          := TagHeader? ( '{' structure-body '}' | '[' value* ']'
                             | '(' array-body ')' | '{<' RAWTEXT '>}' )
                | STRING | IDENTIFIER | UID | BOOLEAN | INTEGER | REAL
array-body     := INTEGER* | REAL ( REAL | INTEGER )*
```

The header must name version 100 and encoding `ascii`. A structure declares at most one UID;
the keys `Id`, `iD` and `id` are reserved. Integers inside a real array become reals.
`Parsed.ofString` reads a whole text; the first fault, lexical or grammatical, is the
answer, with the line of the token where it was found. -/
namespace GraphDoc

/-- A document read from text: the first word of its header and its root structure. -/
structure Parsed where
  formatName : String
  root : Tree
deriving Repr

namespace Parse

/-- The only accepted version. -/
def versionNumber : Int64 := 100

/-- A token that the grammar does not allow where it stands. -/
def unexpected (t : Token) : Error := .parse t.line t.text

/-- What running out of tokens means: the end of the text, reported at the line where the
last token ended, or the lexical fault that stopped scanning. -/
def exhausted : Ending → Error
  | .endOfText line => .parse line "end of input"
  | .failed e => .lex e

/-- The next token, or `none` at the end of the text; a lexical fault is an error. -/
def pull (ending : Ending) : List Token → Except Error (Option (Token × List Token))
  | t :: r => .ok (some (t, r))
  | [] => match ending with
    | .endOfText _ => .ok none
    | .failed e => .error (.lex e)

/-- The value of hexadecimal digits. -/
def hexValue (ds : List Char) : Nat :=
  ds.foldl (fun n c => 16 * n + (if c.isDigit then c.toNat - '0'.toNat
    else if 'a' ≤ c && c ≤ 'f' then c.toNat - 'a'.toNat + 10 else c.toNat - 'A'.toNat + 10)) 0

/-- Decimal digits with an optional sign, within the 64-bit range. -/
def decimalValue (text : String) : Option Int64 :=
  let (neg, digits) := match text.toList with
    | '-' :: r => (true, r)
    | '+' :: r => (false, r)
    | r => (false, r)
  if digits.isEmpty || !digits.all Char.isDigit then none
  else
    let n : Int := Ieee.Literal.digitsValue digits
    let v := if neg then -n else n
    if -Int.pow 2 63 ≤ v && v < Int.pow 2 63 then some (Int64.ofInt v) else none

/-- The integer an integer token writes: decimal within the 64-bit range, or `0x` and
hexadecimal digits below `2^64`, taken as a 64-bit word and negated with wrap-around after a
minus. -/
def integerValue (text : String) : Option Int64 :=
  let (neg, digits) := match text.toList with
    | '-' :: r => (true, r)
    | '+' :: r => (false, r)
    | r => (false, r)
  match digits with
  | '0' :: x :: hex =>
    if x == 'x' || x == 'X' then
      if !hex.isEmpty && hex.all Scan.isHexDigit && hexValue hex < Nat.pow 2 64 then
        let v := Int64.ofInt (hexValue hex)
        some (if neg then -v else v)
      else none
    else decimalValue text
  | _ => decimalValue text

/-- The integer of a token. -/
def integer (t : Token) : Except Error Int64 :=
  match integerValue t.text with
  | some v => .ok v
  | none => .error (unexpected t)

/-- The real of a token, correctly rounded. -/
def real (t : Token) : Except Error Binary64 :=
  match Binary64.read? t.text with
  | some x => .ok x
  | none => .error (unexpected t)

/-- The scalar a token stands for, if it stands for one. -/
def scalar (t : Token) : Except Error Scalar :=
  match t.kind with
  | .string => .ok (.str t.text)
  | .identifier => .ok (.ident t.text)
  | .uid => .ok (.uid t.text none)
  | .boolean => .ok (.bool (t.text == "true"))
  | .integer => (integer t).map .int
  | .real => (real t).map .real
  | _ => .error (unexpected t)

/-- An array body up to its `)`: integers, or reals with integers among them widened. The
first literal decides; a real after an integer is an error. -/
def array (ending : Ending) (tag : String) (line : Nat) :
    List Int64 → Option (List Binary64) → List Token → Except Error (Tree × List Token)
  | _, _, [] => .error (exhausted ending)
  | ints, reals, t :: rest =>
    match t.kind with
    | .rightRound =>
      match reals with
      | some xs => .ok (.reals tag line xs.reverse, rest)
      | none => .ok (.ints tag line ints.reverse, rest)
    | .integer => do
      let i ← integer t
      match reals with
      | some xs => array ending tag line ints (some (Binary64.ofInt i.toInt :: xs)) rest
      | none => array ending tag line (i :: ints) none rest
    | .real => do
      if !ints.isEmpty then throw (unexpected t)
      let x ← real t
      array ending tag line ints (some (x :: reals.getD [])) rest
    | _ => .error (unexpected t)

/-- Whether a key is a spelling of `ID` other than `ID` itself. -/
def isReservedKey (k : String) : Bool := k != "ID" && k.toLower == "id"

mutual
/-- A value whose first token is `first`, with the tokens after it. -/
def value (ending : Ending) (first : Token) (ts : List Token) : Except Error (Tree × List Token) :=
  if first.kind == .tagHeader then
    match ts with
    | [] => .error (exhausted ending)
    | t :: rest => container ending first.text t rest
  else
    match first.kind with
    | .leftCurly | .leftSquare | .leftRound | .leftFancy => container ending "" first ts
    | _ => (scalar first).map fun s => (.scalar s first.line, ts)
termination_by 3 * ts.length + 2

/-- A container opened by `opener`, tagged `tag`. -/
def container (ending : Ending) (tag : String) (opener : Token) (ts : List Token) :
    Except Error (Tree × List Token) :=
  let line := opener.line
  match opener.kind with
  | .leftCurly => do
    let (uid, pairs, rest) ← body ending nullUid [] ts
    return (.struct tag uid line pairs, rest)
  | .leftSquare => do
    let (items, rest) ← listItems ending [] ts
    return (.list tag line items, rest)
  | .leftRound => array ending tag line [] none ts
  | .leftFancy =>
    match ts with
    | [] => .error (exhausted ending)
    | b :: ts' =>
      if b.kind != .rawtext then .error (unexpected b)
      else match ts' with
        | [] => .error (exhausted ending)
        | c :: rest =>
          if c.kind != .rightFancy then .error (unexpected c)
          else .ok (.raw tag line b.text, rest)
  | _ => .error (unexpected opener)
termination_by 3 * ts.length + 1

/-- The pairs of a structure up to its `}`, with the UID declared so far. -/
def body (ending : Ending) (uid : String) (acc : List (String × Tree)) (ts : List Token) :
    Except Error (String × List (String × Tree) × List Token) :=
  match ts with
  | [] => .error (exhausted ending)
  | key :: ts1 =>
    if key.kind == .rightCurly then .ok (uid, acc.reverse, ts1)
    else if key.kind != .identifier then .error (unexpected key)
    else match ts1 with
      | [] => .error (exhausted ending)
      | eq :: ts2 =>
        if eq.kind != .equals then .error (unexpected eq)
        -- another spelling of `ID` is refused before anything after `=` is read
        else if isReservedKey key.text then .error (unexpected key)
        else match ts2 with
          | [] => .error (exhausted ending)
          | t :: ts3 =>
            if key.text == "ID" then
              if t.kind != .uid || uid != nullUid then .error (unexpected t)
              else body ending t.text acc ts3
            else match value ending t ts3 with
              | .error e => .error e
              | .ok (v, rest) =>
                if rest.length ≤ ts3.length then body ending uid ((key.text, v) :: acc) rest
                else .error (exhausted ending)
termination_by 3 * ts.length

/-- The items of a list up to its `]`. -/
def listItems (ending : Ending) (acc : List Tree) (ts : List Token) :
    Except Error (List Tree × List Token) :=
  match ts with
  | [] => .error (exhausted ending)
  | t :: ts1 =>
    if t.kind == .rightSquare then .ok (acc.reverse, ts1)
    else match value ending t ts1 with
      | .error e => .error e
      | .ok (v, rest) =>
        if rest.length ≤ ts1.length then listItems ending (v :: acc) rest
        else .error (exhausted ending)
termination_by 3 * ts.length
end

/-- `word =` in the header; a missing or different token is a missing header. -/
def headerWord (ending : Ending) (word : String) (ts : List Token) : Except Error (List Token) := do
  let endLine := match ending with
    | .endOfText line => line
    | .failed _ => 0
  match ← pull ending ts with
  | none => throw (.headerNotFound endLine)
  | some (t, ts) =>
    if t.kind != .identifier || t.text != word then throw (.headerNotFound t.line)
    match ← pull ending ts with
    | none => throw (.headerNotFound endLine)
    | some (t, ts) =>
      if t.kind != .equals then throw (.headerNotFound t.line)
      return ts

/-- The header: the format name, then version 100 and encoding `ascii`. A header cut short
is reported at line 1. -/
def header (ending : Ending) (ts : List Token) : Except Error (String × List Token) := do
  let some (name, ts) ← pull ending ts | throw (.headerNotFound 1)
  if name.kind != .identifier then throw (.headerNotFound name.line)
  let ts ← headerWord ending "version" ts
  let some (v, ts) ← pull ending ts | throw (.headerNotFound 1)
  if v.kind != .integer then throw (.headerNotFound v.line)
  let n ← integer v
  if n != versionNumber then throw (.unsupportedVersion v.line n)
  let ts ← headerWord ending "encoding" ts
  let some (e, ts) ← pull ending ts | throw (.headerNotFound 1)
  if e.kind != .identifier || e.text != "ascii" then throw (.unsupportedEncoding e.line e.text)
  return (name.text, ts)

/-- A whole document: header, tagged root structure, and nothing after it. -/
def document (lexed : Lexed) : Except Error Parsed := do
  let ending := lexed.ending
  let (name, ts) ← header ending lexed.tokens
  let some (tag, ts) ← pull ending ts | throw (exhausted ending)
  if tag.kind != .tagHeader then throw (unexpected tag)
  let some (opener, ts) ← pull ending ts | throw (exhausted ending)
  if opener.kind != .leftCurly then throw (unexpected opener)
  let (uid, pairs, ts) ← body ending nullUid [] ts
  match ← pull ending ts with
  | some (t, _) => throw (unexpected t)
  | none => return ⟨name, .struct tag.text uid opener.line pairs⟩

end Parse

/-- Read a document from its text. -/
def Parsed.ofString (s : String) : Except Error Parsed := Parse.document (Lexed.ofString s)

end GraphDoc
