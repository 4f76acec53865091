import GraphDoc.Graph.Edit
import GraphDoc.Graph.Live
import GraphDoc.Error
/-! # Sessions between documents and objects

A program keeps its data as objects: each has a type tag, a name and child objects, and
objects may share children or form cycles. A session turns objects into document structures
(export) and structures into objects (import), one structure per object and one object per
structure: it remembers every pair it has made, so that an object reached twice is exported
once and later written as a UID reference, and a structure reached twice is imported once.

A registry says, for each type tag, how objects of that tag are written. A plain writer
creates the structure, registers it, exports the children and then fills in the name and the
children. A holding writer keeps its structure open for writing from before the name to after
the children, so that a child leading back to it fails.

The first failure of a session is kept: until the session is reset, every import or export
fails at once with it. Objects and the document graph outlive a reset; the pairs made, the
UID counter and the failure do not.

A UID reference does not own the structure it is linked to: an import follows the link only
while the structure is alive (`Graph.live`). The handles that keep containers alive are the
program's, such as the roots of the documents it keeps, and the session's own on the
structures of the pairs it has made (`Session.handles`). -/
namespace GraphDoc

/-- The index of an object among the objects of a session. -/
abbrev ObjId := Nat

/-- A domain object: its type tag, its name and its children, in order. -/
structure Obj where
  tag : String
  name : String
  children : List ObjId := []
deriving DecidableEq, Repr, Inhabited

/-- How objects of a type tag are written: `plain` fills in its structure after the children
are exported, `holding` keeps the structure open while it exports them. -/
inductive Writer where
  | plain | holding
deriving DecidableEq, Repr, Inhabited

/-- The writers of the type tags that have handlers. -/
structure Registry where
  writers : List (String × Writer) := []
deriving Repr, Inhabited

/-- The writer registered for a type tag. -/
def Registry.get? (r : Registry) (tag : String) : Option Writer := r.writers.lookup tag

/-- Whether a type tag has handlers. -/
def Registry.contains (r : Registry) (tag : String) : Bool := (r.get? tag).isSome

/-- Whether a session has failed, and how. -/
inductive Status where
  | noError | importError | exportError
deriving DecidableEq, Repr, Inhabited

/-- The name of a status. -/
def Status.name : Status → String
  | .noError => "NoError" | .importError => "ImportError" | .exportError => "ExportError"

/-- The state of a session together with the objects and document graph it works on. -/
structure Session where
  objects : Array Obj := #[]
  graph : Graph := {}
  /-- structures imported, each with its object -/
  imported : List (NodeId × ObjId) := []
  /-- objects exported, each with its structure -/
  exported : List (ObjId × NodeId) := []
  /-- structures a holding writer is writing -/
  writing : List NodeId := []
  uidCounter : Nat := 0
  status : Status := .noError
  firstError : Option String := none
  /-- containers the program holds handles on -/
  held : List NodeId := []
deriving Repr, Inhabited

/-- Computations of a session: a failure keeps the state reached before it. -/
abbrev SessionM := ExceptT Error (StateM Session)

/-- The prefix of the UIDs given to structures of a type tag: the tag without its leading
`<` and trailing `>` characters, in ASCII lower case, followed by `_`; nothing if that leaves
no name. -/
def uidPrefix (tag : String) : String :=
  let name := ((tag.toList.dropWhile (· == '<')).reverse.dropWhile (· == '>')).reverse
  if name.isEmpty then "" else String.ofList (name.map Char.toLower) ++ "_"

/-- The message that a handler failure carries into the session: the bare text of an import
or export failure, the full message of any other. -/
def Error.bareMessage : Error → String
  | .importFailed m | .exportFailed m => m
  | e => e.message

namespace Session

/-- Forget the pairs made, the UID counter and the failure. -/
def reset (s : Session) : Session :=
  { s with imported := [], exported := [], writing := [], uidCounter := 0, status := .noError,
           firstError := none }

/-- The kept failure as an error, if the session has failed. -/
def stickyError (s : Session) : Option Error :=
  let m := s.firstError.getD ""
  match s.status with
  | .noError => none
  | .importError => some (.importFailed m)
  | .exportError => some (.exportFailed m)

/-- Record a failure, unless one is already kept. -/
def signal (s : Session) (st : Status) (message : String) : Session :=
  if s.status != .noError then s else { s with status := st, firstError := some message }

/-- The next generated UID, `#` then the prefix, `id` and the counter. -/
def generateUid (s : Session) (pfx : String) : String × Session :=
  ("#" ++ pfx ++ "id" ++ toString s.uidCounter, { s with uidCounter := s.uidCounter + 1 })

/-- Add an object; its handle is the old number of objects. -/
def addObject (s : Session) (o : Obj) : Session × ObjId :=
  ({ s with objects := s.objects.push o }, s.objects.size)

/-- The object with a handle. -/
def object? (s : Session) (o : ObjId) : Option Obj := s.objects[o]?

/-- The handles on containers: the program's, and the session's on the structures imported and
exported. -/
def handles (s : Session) : List NodeId :=
  s.held ++ s.imported.map Prod.fst ++ s.exported.map Prod.snd

/-- Whether a container of the session graph is alive: the handles keep it from being freed. -/
def alive (s : Session) : NodeId → Bool := s.graph.live s.handles

end Session

namespace SessionM

/-- Fail with the kept failure, if there is one. -/
def checkSticky : SessionM Unit := do
  if let some e := (← get).stickyError then throw e

/-- Record an import failure and fail with the kept one. -/
def failImport (message : String) : SessionM α := do
  modify (·.signal .importError message)
  throw (((← get).stickyError).getD (.importFailed "import failed"))

/-- Record an export failure and fail with the kept one. -/
def failExport (message : String) : SessionM α := do
  modify (·.signal .exportError message)
  throw (((← get).stickyError).getD (.exportFailed "export failed"))

/-- Start over: the same as `Session.reset`, as a step. -/
def reset : SessionM Unit := modify Session.reset

/-- Take a handle on a container. -/
def hold (id : NodeId) : SessionM Unit := modify fun s => { s with held := id :: s.held }

/-- Drop a handle on a container. -/
def release (id : NodeId) : SessionM Unit := modify fun s => { s with held := s.held.erase id }

/-- Run `m` holding a handle on a container, dropped when `m` ends, whether it succeeds or
fails. -/
def withHandle (id : NodeId) (m : SessionM α) : SessionM α := do
  hold id
  tryCatch (do let a ← m; release id; pure a) fun e => do release id; throw e

end SessionM

end GraphDoc
