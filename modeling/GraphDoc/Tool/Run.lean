import GraphDoc.Tool.Args
import GraphDoc.Text.Parse
import GraphDoc.Text.Write
import GraphDoc.Wire.Write
import GraphDoc.Wire.Read
import GraphDoc.Link
import GraphDoc.Stats
import GraphDoc.Json.View
/-! # Running the document tool

A command reads its document, computes its output and writes it to a file or to standard
output. What the command needs from its surroundings, files and standard input, comes through
a `Host`, so that the same run works on a real system and on a model of one.

A failure ends the run with status 1 and a report naming what was being done and why it
failed. -/
namespace GraphDoc

namespace Tool

/-- What a run needs from where it happens: whole files read and written, and standard input.
A failed file access is described by the system's text. -/
structure Host (m : Type → Type) where
  getFile : String → m (Except String ByteArray)
  putFile : String → ByteArray → m (Except String Unit)
  getInput : m ByteArray

/-- A failure: what was being done and what went wrong. -/
structure Failure where
  context : String
  cause : String
deriving DecidableEq, Repr

/-- The report of a failure on standard error. -/
def Failure.render (f : Failure) : String :=
  "Error: " ++ f.context ++ "\n\nCaused by:\n    " ++ f.cause ++ "\n"

/-- How a run ends: exit status, standard output and standard error. -/
structure Outcome where
  code : Nat
  stdout : ByteArray := .empty
  stderr : String := ""

/-- The outcome of a failure. -/
def Outcome.failed (f : Failure) : Outcome := { code := 1, stderr := f.render }

/-- Read a document, in the binary format if the bytes start with its signature and as UTF-8
text otherwise: the graph and its root. -/
def readDocument (bytes : ByteArray) : Except Failure (Graph × NodeId) :=
  if Wire.isBinary bytes then
    match Tree.ofBinary bytes with
    | .ok t => .ok (Graph.plantRoot {} t)
    | .error e => .error ⟨"Failed to decode binary VLX", e.message⟩
  else
    match Utf8.decode bytes with
    | .error f => .error ⟨"Input is neither binary VLX nor UTF-8 text", f.message⟩
    | .ok text =>
      match Parsed.ofString text with
      | .ok p => .ok (Graph.plantRoot {} p.root)
      | .error e => .error ⟨"Failed to parse VLX text", e.message⟩

/-- The statistics of a document with the sizes of its two encodings, as JSON. -/
def statsReport (g : Graph) (root : NodeId) : Json.Value :=
  let st := g.stats root
  let n (k : String) (v : Nat) : String × Json.Value := (k, .int v)
  .obj [n "structures" st.structures, n "lists" st.lists, n "rawtext_blocks" st.rawtextBlocks,
    n "integer_arrays" st.integerArrays, n "integer_elements" st.integerElements,
    n "real_arrays" st.realArrays, n "real_elements" st.realElements, n "scalars" st.scalars,
    n "uid_references" st.uidReferences, n "declared_uids" st.declaredUids,
    n "text_bytes" (g.text root).utf8ByteSize, n "binary_bytes" (g.binary root).length]

/-- JSON text, compact or pretty, and a line break. -/
def jsonLine (pretty : Bool) (v : Json.Value) : String :=
  (if pretty then v.pretty 0 else v.compact) ++ "\n"

namespace Command

/-- The file a command reads, or `none` for standard input. -/
def input : Command → Option String
  | .check i | .convert i _ _ | .inspect i _ _ | .stats i _ => i

/-- The file a command writes, or `none` for standard output. -/
def output : Command → Option String
  | .convert _ o _ | .inspect _ o _ => o
  | _ => none

/-- The output of a command for a document. -/
def respond (c : Command) (g : Graph) (root : NodeId) : Except Failure ByteArray :=
  match c with
  | .check _ =>
    match g.link root with
    | (_, .error e) => .error ⟨"Failed to link document", e.message⟩
    | (g, .ok ()) =>
      let st := g.stats root
      .ok (g.tagOf root ++ ": ok (" ++ toString st.structures ++ " structures, " ++
        toString st.uidReferences ++ " references)\n").toUTF8
  | .convert _ _ .text => .ok (g.text root).toUTF8
  | .convert _ _ .binary => .ok ⟨(g.binary root).toArray⟩
  | .inspect _ _ pretty => .ok (jsonLine pretty (g.json root)).toUTF8
  | .stats _ pretty => .ok (jsonLine pretty (statsReport g root)).toUTF8

/-- Run a command: read, respond, write. -/
def run [Monad m] (h : Host m) (c : Command) : m Outcome := do
  let bytes ← match c.input with
    | some path => do
      match ← h.getFile path with
      | .ok b => pure (Except.ok b)
      | .error e => pure (.error ⟨"Failed to read file: " ++ path, e⟩)
    | none => do pure (Except.ok (← h.getInput))
  match bytes >>= readDocument >>= fun (g, root) => c.respond g root with
  | .error f => return Outcome.failed f
  | .ok out =>
    match c.output with
    | none => return { code := 0, stdout := out }
    | some path =>
      match ← h.putFile path out with
      | .ok () => return { code := 0 }
      | .error e => return Outcome.failed ⟨"Failed to write file: " ++ path, e⟩

end Command

/-- Carry out what a command line asks for. -/
def Invocation.execute [Monad m] (h : Host m) : Invocation → m Outcome
  | .run c => c.run h
  | .print text => pure { code := 0, stdout := text.toUTF8 }
  | .refuse message => pure { code := 2, stderr := message }

end Tool

end GraphDoc
