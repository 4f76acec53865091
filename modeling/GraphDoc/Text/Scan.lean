import GraphDoc.Text.Token
/-! # Scanning text into tokens

`Lexed.ofString` cuts a text into tokens. Between tokens it skips blanks (space, tab, carriage
return, line feed), line comments `// …` and block comments `/* … */`. Lines are counted by
line feeds only. A token records the line it starts on; the `>}` that closes a rawtext body
records the line where the body ended.

A rawtext body runs from `{<` to the first `>}` not written `\>}`; one delimiting line break
after `{<` and one before `>}` are not part of it (`trimRawBody`). Each scanning step consumes
at least one character, which is what `lexFrom` recurses on. -/
namespace GraphDoc
namespace Scan

/-- Characters of names (identifiers, UIDs, tag headers): ASCII letters and digits and the
underscore. -/
def isNameChar (c : Char) : Bool := c.isAlphanum || c == '_'

/-- ASCII hexadecimal digits. -/
def isHexDigit (c : Char) : Bool := c.isDigit || ('a' ≤ c && c ≤ 'f') || ('A' ≤ c && c ≤ 'F')

/-- The line after reading `c` on line `n`. -/
def lineAfter (c : Char) (n : Nat) : Nat := if c == '\n' then n + 1 else n

/-- Where blank skipping stands: between tokens, inside a line comment or inside a block
comment. -/
inductive Blank where
  | code
  | lineComment
  | blockComment

/-- Skip blanks and comments: the text after them and the line reached, or the fault of a
block comment that the text ends in. -/
def skipBlank : Blank → List Char → Nat → Except LexError (List Char × Nat)
  | .code, ' ' :: r, n => skipBlank .code r n
  | .code, '\t' :: r, n => skipBlank .code r n
  | .code, '\r' :: r, n => skipBlank .code r n
  | .code, '\n' :: r, n => skipBlank .code r (n + 1)
  | .code, '/' :: '/' :: r, n => skipBlank .lineComment r n
  | .code, '/' :: '*' :: r, n => skipBlank .blockComment r n
  | .code, cs, n => .ok (cs, n)
  | .lineComment, [], n => .ok ([], n)
  | .lineComment, '\n' :: r, n => skipBlank .code r (n + 1)
  | .lineComment, _ :: r, n => skipBlank .lineComment r n
  | .blockComment, [], n => .error ⟨n, .unterminatedComment⟩
  | .blockComment, '*' :: '/' :: r, n => skipBlank .code r n
  | .blockComment, c :: r, n => skipBlank .blockComment r (lineAfter c n)

/-- What the escape `\c` stands for inside a string, reversed: a known escape is one
character, any other keeps its backslash. -/
def unescape (c : Char) : List Char :=
  match c with
  | '"' => ['"']
  | '\\' => ['\\']
  | 'b' => ['\x08']
  | 'f' => ['\x0c']
  | 'n' => ['\n']
  | 'r' => ['\r']
  | 't' => ['\t']
  | c => [c, '\\']

/-- The contents of a string after its opening quote, escapes resolved: the contents, the text
after the closing quote and the line reached; `none` if the text ends first. -/
def readString : List Char → Nat → List Char → Option (List Char × List Char × Nat)
  | [], _, _ => none
  | '"' :: r, n, acc => some (acc.reverse, r, n)
  | '\\' :: c :: r, n, acc => readString r (lineAfter c n) (unescape c ++ acc)
  | c :: r, n, acc => readString r (lineAfter c n) (c :: acc)

/-- A rawtext body after its `{<`, up to the first `>}` whose `>` does not follow a backslash;
`\>}` stands for `>}`. The body, the text after `>}` and the line reached; `none` if the text
ends first. -/
def readRaw : List Char → Nat → List Char → Option (List Char × List Char × Nat)
  | [], _, _ => none
  | '>' :: tl@('}' :: r), n, acc =>
    match acc with
    | '\\' :: acc' => readRaw tl n ('>' :: acc')
    | _ => some (acc.reverse, r, n)
  | c :: r, n, acc => readRaw r (lineAfter c n) (c :: acc)

/-- A rawtext body without its delimiting line breaks: a leading `\r\n` makes `\r\n` the
delimiter at both ends; otherwise a leading and a trailing `\n` are dropped. -/
def trimRawBody (body : List Char) : List Char :=
  let (crlf, b) : Bool × List Char := match body with
    | '\r' :: '\n' :: r => (true, r)
    | '\n' :: r => (false, r)
    | r => (false, r)
  match crlf, b.reverse with
  | true, '\n' :: '\r' :: r => r.reverse
  | _, '\n' :: r => r.reverse
  | _, _ => b

/-- The sign characters at the front, if any, and the text after them. -/
def takeSign : List Char → List Char × List Char
  | c :: r => if c == '+' || c == '-' then ([c], r) else ([], c :: r)
  | [] => ([], [])

/-- A number ends where neither a name character nor a point follows it. -/
def finishNumber (kind : TokenKind) (text rest : List Char) (line : Nat) :
    Except LexError (Token × List Char) :=
  match rest with
  | c :: _ =>
    if isNameChar c || c == '.' then .error ⟨line, .afterNumber c (String.ofList text)⟩
    else .ok (⟨kind, String.ofList text, line⟩, rest)
  | [] => .ok (⟨kind, String.ofList text, line⟩, rest)

/-- A decimal number after its sign: digits with an optional point and fraction, at least one
digit in all, and an optional exponent; a point or an exponent makes it real. -/
def readDecimal (sign cs : List Char) (line : Nat) : Except LexError (Token × List Char) :=
  let whole := cs.takeWhile Char.isDigit
  let r := cs.dropWhile Char.isDigit
  let (point, fraction, r) : Bool × List Char × List Char := match r with
    | '.' :: r' => (true, r'.takeWhile Char.isDigit, r'.dropWhile Char.isDigit)
    | _ => (false, [], r)
  let text := sign ++ whole ++ (if point then '.' :: fraction else [])
  if whole.isEmpty && fraction.isEmpty then .error ⟨line, .malformedNumber (String.ofList text)⟩
  else
    match r with
    | e :: r' =>
      if e == 'e' || e == 'E' then
        let (esign, r'') := takeSign r'
        let digits := r''.takeWhile Char.isDigit
        if digits.isEmpty then .error ⟨line, .malformedExponent⟩
        else finishNumber .real (text ++ e :: esign ++ digits) (r''.dropWhile Char.isDigit) line
      else finishNumber (if point then .real else .integer) text r line
    | [] => finishNumber (if point then .real else .integer) text r line

/-- A number: an optional sign, then `0x` or `0X` and hexadecimal digits, or a decimal. -/
def readNumber (cs : List Char) (line : Nat) : Except LexError (Token × List Char) :=
  let (sign, r) := takeSign cs
  match r with
  | '0' :: x :: r' =>
    if x == 'x' || x == 'X' then
      let hex := r'.takeWhile isHexDigit
      if hex.isEmpty then .error ⟨line, .malformedHex⟩
      else finishNumber .integer (sign ++ '0' :: x :: hex) (r'.dropWhile isHexDigit) line
    else readDecimal sign r line
  | _ => readDecimal sign r line

/-- The result of one scanning step. -/
inductive Step where
  /-- tokens found, then the text after them and the line reached -/
  | found (tokens : List Token) (rest : List Char) (line : Nat)
  /-- tokens found, then a fault -/
  | broken (tokens : List Token) (e : LexError)
  | finished

/-- The bracket or `=` that a character stands for on its own. -/
def single (c : Char) : Option TokenKind :=
  match c with
  | '(' => some .leftRound
  | ')' => some .rightRound
  | '[' => some .leftSquare
  | ']' => some .rightSquare
  | '}' => some .rightCurly
  | '=' => some .equals
  | _ => none

/-- A token read by a reader, as a step. -/
def ofRead : Except LexError (Token × List Char) → Step
  | .ok (t, rest) => .found [t] rest t.line
  | .error e => .broken [] e

/-- The tokens that start at `c :: r` on line `n`, after blanks. A rawtext block gives its
three tokens at once: `{<`, the body and `>}`. -/
def tokenAt (c : Char) (r : List Char) (n : Nat) : Step :=
  match single c with
  | some kind => .found [⟨kind, c.toString, n⟩] r n
  | none =>
    if c == '{' then
      match r with
      | '<' :: r' =>
        let opener : Token := ⟨.leftFancy, "\x7b<", n⟩
        match readRaw r' n [] with
        | some (body, rest, n') =>
          .found [opener, ⟨.rawtext, String.ofList (trimRawBody body), n⟩, ⟨.rightFancy, ">\x7d", n'⟩]
            rest n'
        | none => .broken [opener] ⟨n, .unterminatedRawtext⟩
      | _ => .found [⟨.leftCurly, "\x7b", n⟩] r n
    else if c == '"' then
      match readString r n [] with
      | some (s, rest, n') => .found [⟨.string, String.ofList s, n⟩] rest n'
      | none => .broken [] ⟨n, .unterminatedString⟩
    else if c == '#' then
      let name := r.takeWhile isNameChar
      if name.isEmpty then .broken [] ⟨n, .emptyUid⟩
      else .found [⟨.uid, String.ofList (c :: name), n⟩] (r.dropWhile isNameChar) n
    else if c == '<' then
      let name := r.takeWhile isNameChar
      match r.dropWhile isNameChar with
      | '>' :: rest =>
        if name.isEmpty then .broken [] ⟨n, .malformedTag⟩
        else .found [⟨.tagHeader, String.ofList ('<' :: name ++ ['>']), n⟩] rest n
      | _ => .broken [] ⟨n, .malformedTag⟩
    else if c.isAlpha || c == '_' then
      let name := c :: r.takeWhile isNameChar
      let text := String.ofList name
      let kind := if text == "true" || text == "false" then TokenKind.boolean else .identifier
      .found [⟨kind, text, n⟩] (r.dropWhile isNameChar) n
    else if c.isDigit || c == '+' || c == '-' || c == '.' then ofRead (readNumber (c :: r) n)
    else .broken [] ⟨n, .unexpected c⟩

/-- One scanning step: skip blanks, then read the tokens there. -/
def step (cs : List Char) (line : Nat) : Step :=
  match skipBlank .code cs line with
  | .error e => .broken [] e
  | .ok ([], _) => .finished
  | .ok (c :: r, n) => tokenAt c r n

/-- The tokens of `cs`, scanned from line `line`. The end of the text is reported with the
line that the last token ended on. -/
def lexFrom (cs : List Char) (line : Nat) : Lexed :=
  match step cs line with
  | .finished => ⟨[], .endOfText line⟩
  | .broken ts e => ⟨ts, .failed e⟩
  | .found ts rest line' =>
    if rest.length < cs.length then
      let more := lexFrom rest line'
      ⟨ts ++ more.tokens, more.ending⟩
    else ⟨ts, .endOfText line'⟩
termination_by cs.length

end Scan

/-- The tokens of a text, scanned from line 1. -/
def Lexed.ofString (s : String) : Lexed := Scan.lexFrom s.toList 1

end GraphDoc
