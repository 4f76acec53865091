import GraphDoc.Session.Import
/-! # Sessions with any handlers

The handlers of a registry are code of the program that uses the library. They call back into
the session at any depth, catch its failures and carry on, fail with errors of any kind, or
record a failure and still succeed. What they can do to the session is what the session offers:
calls that import and export, recording an import or an export failure, registering the pairs
they make, generating UIDs and reading the session. Besides that they work on the program's own
data: the objects, the document graph and the structures they hold open for writing. A
`Script` is such code, step by step: each call hands its outcome, success or failure, to the
rest of the script. Starting over is not a step of a script; it ends the session.

`Calls` are the import and export calls of a session, and `Calls.run` runs a script with them.
`Handlers.serve` builds the calls of a registry: an import or an export checks the kept failure
and the pairs made, runs the handler's script with the calls one level down, and turns every
failure of the handler into the kept one. Scripts nest as deep as the level allows, one less at
each call; a call at level zero that needs a handler fails, as `SessionM.importObject` and
`SessionM.exportObject` do when their fuel runs out.

The handlers of a `Registry`, the importer `Script.read` and the exporter `Script.write`, are
the code of `SessionM.read` and `SessionM.write` written as scripts.
-/
namespace GraphDoc

/-- The program's data that a handler works on besides the session: the objects, the document
graph and the structures held open for writing. -/
structure Domain where
  objects : Array Obj
  graph : Graph
  writing : List NodeId

namespace Session

/-- The program's data a session works on. -/
def domain (s : Session) : Domain := ⟨s.objects, s.graph, s.writing⟩

/-- Replace the program's data, keeping the session's own state. -/
def withDomain (s : Session) (d : Domain) : Session :=
  { s with objects := d.objects, graph := d.graph, writing := d.writing }

end Session

/-- The code of a handler, step by step: a result, a failure, or one step and the rest, which
may depend on what the step gave. -/
inductive Script (α : Type) where
  | done (a : α)
  | fail (e : Error)
  | importObject (st : NodeId) (k : Except Error ObjId → Script α)
  | importValue (v : Value) (k : Except Error ObjId → Script α)
  | exportObject (o : ObjId) (k : Except Error NodeId → Script α)
  | signalImport (message : String) (k : Script α)
  | signalExport (message : String) (k : Script α)
  | registerImported (st : NodeId) (o : ObjId) (k : Script α)
  | registerExported (o : ObjId) (st : NodeId) (k : Script α)
  | generateUid (pfx : String) (k : String → Script α)
  | look (k : Session → Script α)
  | edit (f : Domain → Domain) (k : Script α)

/-- The code registered for a type tag: the importer makes an object of a structure, the
exporter a structure of an object. -/
structure Handler where
  importer : NodeId → Script ObjId
  exporter : ObjId → Script NodeId

/-- A registry: the handler of each type tag that has one. -/
structure Handlers where
  get? : String → Option Handler

/-- The import and export calls a session offers to the code that uses it. -/
structure Calls where
  importObject : NodeId → SessionM ObjId
  importValue : Value → SessionM ObjId
  exportObject : ObjId → SessionM NodeId

/-- Run a computation and give its outcome as a value; a failure keeps the session it left. -/
def SessionM.attempt {α : Type} (m : SessionM α) : SessionM (Except Error α) :=
  ExceptT.lift m.run

namespace Calls

/-- An export, as a value ready to store under a key or in a list. -/
def exportValue (c : Calls) (o : ObjId) : SessionM Value := do
  return .node (← c.exportObject o)

/-- Run a script, making its calls with `c`. -/
def run {α : Type} (c : Calls) : Script α → SessionM α
  | .done a => pure a
  | .fail e => throw e
  | .importObject st k => do c.run (k (← (c.importObject st).attempt))
  | .importValue v k => do c.run (k (← (c.importValue v).attempt))
  | .exportObject o k => do c.run (k (← (c.exportObject o).attempt))
  | .signalImport m k => do modify (·.signal .importError m); c.run k
  | .signalExport m k => do modify (·.signal .exportError m); c.run k
  | .registerImported st o k => do SessionM.registerImported st o; c.run k
  | .registerExported o st k => do SessionM.registerExported o st; c.run k
  | .generateUid pfx k => do
    let (uid, s) := (← get).generateUid pfx
    set s
    c.run (k uid)
  | .look k => do c.run (k (← get))
  | .edit f k => do modify (fun s => s.withDomain (f s.domain)); c.run k

end Calls

namespace Handlers

open SessionM

variable (h : Handlers) (deeper : Option Calls)

/-- Import a structure, with handlers that call the session through `deeper`: its earlier
object, or the one the importer of its tag makes. -/
def importObject (st : NodeId) : SessionM ObjId := do
  checkSticky
  match (← get).imported.lookup st with
  | some o => return o
  | none =>
    let g := (← get).graph
    let tag := g.tagOf st
    let line := lineOf g (.node st)
    match deeper, h.get? tag with
    | _, none => failImport ("line " ++ toString line ++ ": no importer registered for " ++ tag)
    | none, some _ => failImport ("line " ++ toString line ++ ": " ++ tag ++ " is nested too deeply")
    | some c, some w =>
      let o ← tryCatch (c.run (w.importer st)) fun e => failImport e.bareMessage
      checkSticky
      registerImported st o
      return o

/-- Import the structure a value stands for: a structure, or the live target of a linked UID,
held while it is imported. -/
def importValue (v : Value) : SessionM ObjId := do
  let s ← get
  let g := s.graph
  match g.resolvedStructure s.alive v with
  | some st => withHandle st (h.importObject deeper st)
  | none =>
    failImport ("line " ++ toString (lineOf g v) ++ ": expected a structure or a linked UID, found " ++
      (g.valueType v).name)

/-- Export an object, with handlers that call the session through `deeper`: its earlier
structure, or the one the exporter of its tag makes. -/
def exportObject (o : ObjId) : SessionM NodeId := do
  checkSticky
  match (← get).exported.lookup o with
  | some st => exportAgain o st
  | none =>
    let tag ← tagOf o
    match deeper, h.get? tag with
    | _, none => failExport ("no exporter registered for " ++ tag)
    | none, some _ => failExport (tag ++ " is nested too deeply")
    | some c, some w =>
      let st ← tryCatch (c.run (w.exporter o)) fun e => failExport e.bareMessage
      checkSticky
      registerExported o st
      return st

/-- The calls of a session whose handlers call it through `deeper`. -/
def level : Calls := ⟨h.importObject deeper, h.importValue deeper, h.exportObject deeper⟩

/-- The calls of a session whose handlers may nest `n` deep. -/
def serve : Nat → Calls
  | 0 => h.level none
  | n + 1 => h.level (some (serve n))

end Handlers

namespace Script

/-- Go on with the outcome of a call: `k` after a success, `onError` after a failure. -/
def handle {α β : Type} (onError : Error → Script β) (k : α → Script β) : Except Error α → Script β
  | .ok a => k a
  | .error e => onError e

/-- Import values in order, appending each object to the children of `o`, then go on with `k`;
the first failure ends the script. -/
def importChildren {α : Type} (o : ObjId) : List Value → Script α → Script α
  | [], k => k
  | v :: vs, k => .importValue v <| handle .fail fun c =>
    .edit (fun d => { d with objects := d.objects.modify o fun x => { x with children := x.children ++ [c] } })
      (importChildren o vs k)

/-- Export objects in order and go on with their structures as values; the first failure goes
to `onError`. -/
def exportChildren {β : Type} (os : List ObjId) (onError : Error → Script β)
    (k : List Value → Script β) : Script β :=
  match os with
  | [] => k []
  | c :: cs => .exportObject c <| handle onError fun st =>
    exportChildren cs onError fun rest => k (.node st :: rest)

/-- The importer of a registry's tags: a new object with the structure's tag and name,
registered before its children are imported. -/
def read (st : NodeId) : Script ObjId :=
  .look fun s =>
    let g := s.graph
    match (g.valuesUnder st "name").head? with
    | some (.scalar (.str name) _) =>
      .look fun s =>
        let o := s.objects.size
        .edit (fun d => { d with objects := d.objects.push { tag := g.tagOf st, name := name } }) <|
        .registerImported st o <|
        importChildren o (SessionM.listItems g (g.valuesUnder st "children").head?) (.done o)
    | _ => .fail (.importFailed ("line " ++ toString (SessionM.lineOf g (.node st)) ++ ": node without a name"))

/-- The exporter of a registry's tags with writer `w`: a fresh structure, registered before
the children are exported; a holding writer keeps it open from before the name to after the
children. -/
def write (w : Writer) (o : ObjId) : Script NodeId :=
  .look fun s =>
    let obj := (s.object? o).getD default
    .look fun s =>
      let st := s.graph.size
      .edit (fun d => { d with graph := (d.graph.add ⟨obj.tag, 0, .struct nullUid []⟩).1 }) <|
      .registerExported o st <|
      match w with
      | .plain =>
        exportChildren obj.children .fail fun items =>
          .look fun s =>
            let list := s.graph.size
            .edit (fun d => { d with graph := (d.graph.add ⟨"", 0, .list items⟩).1 }) <|
            .edit (fun d => { d with graph := d.graph.pushPair st "name" (.scalar (.str obj.name) 0) }) <|
            .edit (fun d => { d with graph := d.graph.pushPair st "children" (.node list) }) <|
            .done st
      | .holding =>
        let release := Script.edit fun d => { d with writing := d.writing.erase st }
        .edit (fun d => { d with writing := st :: d.writing }) <|
        .edit (fun d => { d with graph := d.graph.pushPair st "name" (.scalar (.str obj.name) 0) }) <|
        exportChildren obj.children (fun e => release (.fail e)) fun items =>
          .look fun s =>
            let list := s.graph.size
            .edit (fun d => { d with graph := (d.graph.add ⟨"", 0, .list items⟩).1 }) <|
            .edit (fun d => { d with graph := d.graph.pushPair st "children" (.node list) }) <|
            release (.done st)

end Script

namespace Registry

/-- The handlers of a registry's tags: the importer `Script.read`, and the exporter
`Script.write` with the tag's writer. -/
def handlers (reg : Registry) : Handlers where
  get? tag := (reg.get? tag).map fun w => ⟨Script.read, Script.write w⟩

/-- The calls of a session with a registry's writers, nesting `fuel` deep. -/
def calls (reg : Registry) (fuel : Nat) : Calls :=
  ⟨SessionM.importObject reg fuel, SessionM.importValue reg fuel, SessionM.exportObject reg fuel⟩

end Registry

end GraphDoc
