import GraphDoc.Session.Import
import GraphDoc.Text.Parse
import GraphDoc.Text.Write
import GraphDoc.Wire.Write
import GraphDoc.Wire.Read
import GraphDoc.Link
/-! # Loading and saving objects

Loading reads a document, links its UID references and imports its root afresh, holding the
document until the import ends; saving exports an object afresh and writes the document it
roots. A document that cannot be read or linked fails before the session is touched. Bytes are
read as the binary format when they start with its signature, and as text otherwise, which must
then be UTF-8. -/
namespace GraphDoc

namespace SessionM

/-- Fail with an error of the library, leaving the session as it is. -/
def liftError (r : Except Error α) : SessionM α :=
  match r with
  | .ok a => pure a
  | .error e => throw e

/-- Put a document tree into the session graph: its root. -/
def plant (t : Tree) : SessionM NodeId := do
  let s ← get
  let (g, root) := s.graph.plantRoot t
  set { s with graph := g }
  return root

/-- Read a text into the session graph: its root. -/
def parseText (text : String) : SessionM NodeId := do
  plant (← liftError (Parsed.ofString text)).root

/-- Link the document rooted at a structure of the session graph. -/
def linkRoot (root : NodeId) : SessionM Unit := do
  let s ← get
  let (g, r) := s.graph.link root
  set { s with graph := g }
  liftError r

/-- Read a text into the session graph and link it: its root. -/
def readLinked (text : String) : SessionM NodeId := do
  let root ← parseText text
  linkRoot root
  return root

/-- Read a text into the session graph and try to link it: its root, and whether every
reference was linked. A failed link leaves the references it could link linked. -/
def readTryLink (text : String) : SessionM (NodeId × Bool) := do
  let root ← parseText text
  let linked ← tryCatch (do linkRoot root; pure true) fun _ => pure false
  return (root, linked)

/-- Load an object from text, holding the document while it is imported. -/
def loadText (reg : Registry) (text : String) : SessionM ObjId := do
  let root ← readLinked text
  withHandle root (importDocument reg root)

/-- Load an object from the binary format, holding the document while it is imported. -/
def loadBinary (reg : Registry) (bytes : ByteArray) : SessionM ObjId := do
  let root ← plant (← liftError (Tree.ofBinary bytes))
  linkRoot root
  withHandle root (importDocument reg root)

/-- Load an object from bytes in either format. -/
def loadBytes (reg : Registry) (bytes : ByteArray) : SessionM ObjId :=
  if Wire.isBinary bytes then loadBinary reg bytes
  else
    match Utf8.decode bytes with
    | .error f => throw (.lex ⟨0, .notText f⟩)
    | .ok text => loadText reg text

/-- Save an object as text. -/
def saveText (reg : Registry) (o : ObjId) : SessionM String := do
  let root ← exportDocument reg o
  return (← get).graph.text root

/-- Save an object in the binary format. -/
def saveBinary (reg : Registry) (o : ObjId) : SessionM ByteArray := do
  let root ← exportDocument reg o
  return ⟨((← get).graph.binary root).toArray⟩

end SessionM

end GraphDoc
