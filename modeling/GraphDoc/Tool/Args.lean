/-! # Command lines of the document tool

The tool `vlx` has four commands, each reading a document from `-i` (`--input`) or from standard
input:

* `check` links the document and reports its counts;
* `convert --to text|binary [-o FILE]` writes it in the other format;
* `inspect [--pretty] [-o FILE]` writes its JSON view;
* `stats [--pretty]` writes its statistics as JSON.

`--help` and `--version` print and succeed; any other misuse is refused with exit status 2.
Arguments are read from left to right, and the first that decides the outcome wins: a help
flag met before any fault prints help, a fault met first is refused. An option's value follows
it as the next argument, after `=`, or (short options) right after the letter; a value may not
start with `-` unless it is `-` itself, so `--` cannot stand for one. After `--` nothing is
read as an option. No option may be given twice, and no command takes positional arguments.

Short options may be run together after one `-`, each letter read in turn. Every short option
but `-h` and `-V` takes a value, which is the rest of the argument, so the first letter alone
decides what the argument means: `-hx` asks for help and `-ix` names the input `x`. -/
namespace GraphDoc

namespace Tool

/-- The encodings a document can be converted to. -/
inductive Format where
  | text | binary
deriving DecidableEq, Repr, Inhabited

/-- A command to run. Options left out are `none` or `false`. -/
inductive Command where
  | check (input : Option String)
  | convert (input output : Option String) (target : Format)
  | inspect (input output : Option String) (pretty : Bool)
  | stats (input : Option String) (pretty : Bool)
deriving DecidableEq, Repr, Inhabited

/-- What a command line asks for: a command to run, text to print before succeeding (help or
the version), or a refusal with its message. -/
inductive Invocation where
  | run (c : Command)
  | print (text : String)
  | refuse (message : String)
deriving DecidableEq, Repr, Inhabited

/-- The version line. -/
def versionText : String := "vlx 0.1.0\n"

/-- The commands, each with its one-line summary. -/
def commands : List (String × String) :=
  [("check", "Parse and link a document, reporting every error"),
   ("convert", "Re-encode a document as text or binary"),
   ("inspect", "Print a document as JSON"),
   ("stats", "Show node counts and text/binary sizes as JSON")]

/-- The general help text. -/
def mainHelp : String :=
  "VLX object-graph document tool\n\nUsage: vlx <COMMAND>\n\nCommands:\n" ++
  String.join (commands.map fun (n, d) => "  " ++ n ++ String.ofList (List.replicate (9 - n.length) ' ') ++ d ++ "\n") ++
  "  help     Print this message or the help of the given subcommand(s)\n\n" ++
  "Options:\n  -h, --help     Print help\n  -V, --version  Print version\n"

/-- An option of a command: its short letter, if any, its long name, and whether it takes a
value. -/
structure OptionSpec where
  short : Option Char
  long : String
  takesValue : Bool
deriving DecidableEq, Repr

/-- The options of each command. -/
def optionsOf : String → List OptionSpec
  | "check" => [⟨some 'i', "input", true⟩]
  | "convert" => [⟨some 'i', "input", true⟩, ⟨some 'o', "output", true⟩, ⟨none, "to", true⟩]
  | "inspect" => [⟨some 'i', "input", true⟩, ⟨some 'o', "output", true⟩, ⟨none, "pretty", false⟩]
  | "stats" => [⟨some 'i', "input", true⟩, ⟨none, "pretty", false⟩]
  | _ => []

/-- The help text of a command. -/
def commandHelp (name : String) : String :=
  let summary := (commands.lookup name).getD ""
  let line (o : OptionSpec) : String :=
    "  " ++ (match o.short with | some c => "-" ++ c.toString ++ ", " | none => "    ") ++ "--" ++ o.long ++
      (if o.takesValue then " <" ++ o.long.toUpper ++ ">" else "") ++ "\n"
  summary ++ "\n\nUsage: vlx " ++ name ++ " [OPTIONS]\n\nOptions:\n" ++
    String.join ((optionsOf name).map line) ++ "  -h, --help  Print help\n"

/-- A refusal in the usual form. -/
def refusal (what : String) : Invocation :=
  .refuse ("error: " ++ what ++ "\n\nUsage: vlx <COMMAND>\n\nFor more information, try '--help'.\n")

/-- The options given so far, by long name. -/
abbrev Given := List (String × String)

/-- Whether an argument looks like an option rather than a value. -/
def looksLikeOption (a : String) : Bool := a.startsWith "-" && a != "-"

/-- Whether an argument is a run of short options that starts with the letter `c`. -/
def startsShort (a : String) (c : Char) : Bool :=
  a.toList.take 2 == ['-', c]

/-- The refusal of an argument that names no option: a long option is named without its value,
a run of short options by its first letter, the one that could not be read. -/
def unknownOption (a : String) : Invocation :=
  let named := if a.startsWith "--" then (a.splitOn "=").headD a else String.ofList (a.toList.take 2)
  refusal ("unexpected argument '" ++ named ++ "' found")

/-- The value of an option that takes one, from what is attached to it or else from the next
argument, and the arguments after it. -/
def valueAndRest (attached : Option String) (rest : List String) : Option String × List String :=
  match attached, rest with
  | some v, _ => (some v, rest)
  | none, v :: more => (if looksLikeOption v then none else some v, more)
  | none, [] => (none, [])

theorem valueAndRest_length (attached : Option String) (rest : List String) :
    (valueAndRest attached rest).2.length ≤ rest.length := by
  unfold valueAndRest
  split <;> simp

/-- Read the arguments of a command after its name. -/
def readOptions (name : String) : Given → List String → Except Invocation Given
  | given, [] => .ok given
  | given, a :: rest =>
    if a == "--help" || startsShort a 'h' then .error (.print (commandHelp name))
    else if a == "--" then
      match rest with
      | [] => .ok given
      | b :: _ => .error (refusal ("unexpected argument '" ++ b ++ "' found"))
    else
      -- the option an argument names, and a value attached to it
      let found : Option (OptionSpec × Option String) :=
        if a.startsWith "--" then
          let body := String.ofList (a.toList.drop 2)
          let (key, attached) := match body.splitOn "=" with
            | [k] => (k, none)
            | k :: vs => (k, some ("=".intercalate vs))
            | [] => (body, none)
          ((optionsOf name).find? (·.long == key)).map (·, attached)
        else if looksLikeOption a then
          match a.toList with
          | _ :: c :: more =>
            let attached := match more with
              | [] => none
              | '=' :: v => some (String.ofList v)
              | v => some (String.ofList v)
            ((optionsOf name).find? (·.short == some c)).map (·, attached)
          | _ => none
        else none
      match found with
      | none =>
        .error (if looksLikeOption a then unknownOption a
          else refusal ("unexpected argument '" ++ a ++ "' found"))
      | some (o, attached) =>
        if (given.lookup o.long).isSome then
          .error (refusal ("the argument '--" ++ o.long ++ "' cannot be used multiple times"))
        else if !o.takesValue then
          match attached with
          | some v => .error (refusal ("unexpected value '" ++ v ++ "' for '--" ++ o.long ++ "' found"))
          | none => readOptions name (given ++ [(o.long, "")]) rest
        else
          match (valueAndRest attached rest).1 with
          | none => .error (refusal ("a value is required for '--" ++ o.long ++ "' but none was supplied"))
          | some v =>
            if o.long == "to" && v != "text" && v != "binary" then
              .error (refusal ("invalid value '" ++ v ++ "' for '--to <TO>'"))
            else readOptions name (given ++ [(o.long, v)]) (valueAndRest attached rest).2
termination_by _ args => args.length
decreasing_by
  all_goals simp_wf
  all_goals have := valueAndRest_length attached rest
  all_goals omega

/-- The command named `name` with the options given. -/
def commandOf (name : String) (given : Given) : Invocation :=
  let input := given.lookup "input"
  let output := given.lookup "output"
  let pretty := (given.lookup "pretty").isSome
  match name with
  | "check" => .run (.check input)
  | "convert" =>
    match given.lookup "to" with
    | some "text" => .run (.convert input output .text)
    | some "binary" => .run (.convert input output .binary)
    | _ => refusal "the following required arguments were not provided:\n  --to <TO>"
  | "inspect" => .run (.inspect input output pretty)
  | _ => .run (.stats input pretty)

/-- What a command line, without the program name, asks for. -/
def Invocation.ofArgs : List String → Invocation
  | [] => .refuse mainHelp
  | a :: rest =>
    if a == "--help" || startsShort a 'h' then .print mainHelp
    else if a == "--version" || startsShort a 'V' then .print versionText
    else if a == "help" then
      match rest with
      | [] => .print mainHelp
      | [c] => if (commands.lookup c).isSome then .print (commandHelp c)
        else if c == "help" then .print mainHelp
        else refusal ("unrecognized subcommand '" ++ c ++ "'")
      | _ => refusal "unexpected argument found"
    else if (commands.lookup a).isSome then
      match readOptions a [] rest with
      | .ok given => commandOf a given
      | .error i => i
    else if looksLikeOption a then unknownOption a
    else refusal ("unrecognized subcommand '" ++ a ++ "'")

end Tool

end GraphDoc
