import GraphDoc.Text.Utf8
/-! # Tokens of the text format

The lexical units of a document text: brackets, `=`, literals, tag headers and rawtext
bodies, each with the line it starts on; and the faults that stop scanning. -/
namespace GraphDoc

/-- The kinds of token. -/
inductive TokenKind where
  | leftRound
  | rightRound
  | leftSquare
  | rightSquare
  | leftCurly
  | rightCurly
  /-- `{<`, which opens a rawtext block -/
  | leftFancy
  /-- `>}`, which closes a rawtext block -/
  | rightFancy
  | equals
  | string
  | uid
  | identifier
  | boolean
  | integer
  | real
  /-- `<Name>` -/
  | tagHeader
  /-- the body of a rawtext block -/
  | rawtext
deriving DecidableEq, Repr, Inhabited

/-- A token: its kind, its text and the line it starts on. The text of a string is its
contents with escapes resolved, the text of a rawtext body is the body without its delimiting
line breaks, and every other text is the source text itself. -/
structure Token where
  kind : TokenKind
  text : String
  line : Nat
deriving DecidableEq, Repr, Inhabited

/-- Why scanning stopped. -/
inductive LexFault where
  | unterminatedComment
  | unterminatedString
  | unterminatedRawtext
  | emptyUid
  | malformedTag
  | malformedHex
  /-- a sign or point with no digit; the text read so far -/
  | malformedNumber (text : String)
  | malformedExponent
  /-- a name character or a point right after a number -/
  | afterNumber (c : Char) (number : String)
  | unexpected (c : Char)
  /-- bytes that are neither the binary format nor UTF-8 text -/
  | notText (fault : Utf8.Fault)
deriving DecidableEq, Repr

/-- The description of a lexical fault. -/
def LexFault.message : LexFault → String
  | .unterminatedComment => "unterminated comment"
  | .unterminatedString => "unterminated string"
  | .unterminatedRawtext => "unterminated rawtext block"
  | .emptyUid => "empty UID after '#'"
  | .malformedTag => "malformed tag header"
  | .malformedHex => "malformed hexadecimal literal"
  | .malformedNumber t => "malformed number '" ++ t ++ "'"
  | .malformedExponent => "malformed exponent"
  | .afterNumber c t => "unexpected character '" ++ c.toString ++ "' after number '" ++ t ++ "'"
  | .unexpected c => "unexpected character '" ++ c.toString ++ "'"
  | .notText f => "input is neither binary VLX nor UTF-8 text: " ++ f.message

/-- A lexical fault at a line. -/
structure LexError where
  line : Nat
  fault : LexFault
deriving DecidableEq, Repr

/-- How a token sequence ends: at the end of the text, with the line the last token ended on,
or at a lexical fault. -/
inductive Ending where
  | endOfText (line : Nat)
  | failed (e : LexError)
deriving DecidableEq, Repr

/-- The tokens of a text, in order, and how the sequence ends. -/
structure Lexed where
  tokens : List Token
  ending : Ending
deriving DecidableEq, Repr

end GraphDoc
