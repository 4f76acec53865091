import GraphDoc.Session.Basic
/-! # Exporting objects to structures

`exportObject` gives the structure of an object. An object exported before gets its earlier
structure, which receives a generated UID the first time it is reached again, so that writers
can refer to it; if a holding writer is still writing that structure, the export fails. A new
object is written by the writer of its tag into a fresh structure tagged with the object's tag,
holding `name` and then `children`, an untagged list of the children's structures.

Each object is exported at most once before it is registered, so the nesting of exports never
exceeds the number of objects; the fuel given by `exportRoot` is one more than that. -/
namespace GraphDoc

namespace SessionM

/-- The tag of an object, empty for a handle with no object. -/
def tagOf (o : ObjId) : SessionM String := do
  return (((← get).object? o).map Obj.tag).getD ""

/-- Add a container to the document graph. -/
def addNode (n : Node) : SessionM NodeId := do
  let s ← get
  let (g, id) := s.graph.add n
  set { s with graph := g }
  return id

/-- Append a pair to a structure of the document graph. -/
def pushPair (id : NodeId) (key : String) (v : Value) : SessionM Unit :=
  modify fun s => { s with graph := s.graph.pushPair id key v }

/-- Register the structure of an object. -/
def registerExported (o : ObjId) (st : NodeId) : SessionM Unit :=
  modify fun s => { s with exported := (o, st) :: s.exported.filter (·.1 != o) }

/-- An object reached again: its structure, given a UID now if it has none. -/
def exportAgain (o : ObjId) (st : NodeId) : SessionM NodeId := do
  let tag ← tagOf o
  if (← get).writing.contains st then
    failExport (tag ++ " is referenced while its structure is being written")
  let hasUid := match (← get).graph.get? st with
    | some ⟨_, _, .struct uid _⟩ => uid != nullUid
    | _ => true
  if !hasUid then
    let s ← get
    let (uid, s) := s.generateUid (uidPrefix tag)
    set { s with graph := s.graph.setUid st uid }
  return st

mutual
/-- Export an object: its structure, made at most once per object. -/
def exportObject (reg : Registry) (fuel : Nat) (o : ObjId) : SessionM NodeId := do
  checkSticky
  match (← get).exported.lookup o with
  | some st => exportAgain o st
  | none =>
    let tag ← tagOf o
    match fuel, reg.get? tag with
    | _, none => failExport ("no exporter registered for " ++ tag)
    | 0, some _ => failExport (tag ++ " is nested too deeply")
    | fuel + 1, some w =>
      let st ← tryCatch (write reg fuel w o) fun e => failExport e.bareMessage
      checkSticky
      registerExported o st
      return st
termination_by (fuel, 0, 0)

/-- Write a new object into a fresh structure with the given writer. -/
def write (reg : Registry) (fuel : Nat) (w : Writer) (o : ObjId) : SessionM NodeId := do
  let obj := ((← get).object? o).getD default
  let st ← addNode ⟨obj.tag, 0, .struct nullUid []⟩
  registerExported o st
  match w with
  | .plain =>
    let items ← exportChildren reg fuel obj.children
    let list ← addNode ⟨"", 0, .list items⟩
    pushPair st "name" (.scalar (.str obj.name) 0)
    pushPair st "children" (.node list)
  | .holding =>
    modify fun s => { s with writing := st :: s.writing }
    pushPair st "name" (.scalar (.str obj.name) 0)
    let release : SessionM Unit := modify fun s => { s with writing := s.writing.erase st }
    let items ← tryCatch (exportChildren reg fuel obj.children) fun e => do release; throw e
    let list ← addNode ⟨"", 0, .list items⟩
    pushPair st "children" (.node list)
    release
  return st
termination_by (fuel, 2, 0)

/-- Export children in order; the first failure ends the export. -/
def exportChildren (reg : Registry) (fuel : Nat) : List ObjId → SessionM (List Value)
  | [] => return []
  | c :: cs => do
    let st ← exportObject reg fuel c
    let rest ← exportChildren reg fuel cs
    return .node st :: rest
termination_by cs => (fuel, 1, cs.length)
end

/-- Export an object with enough fuel. -/
def exportRoot (reg : Registry) (o : ObjId) : SessionM NodeId := do
  exportObject reg ((← get).objects.size + 1) o

/-- Start afresh and export an object as the root of a document. -/
def exportDocument (reg : Registry) (o : ObjId) : SessionM NodeId := do
  reset
  exportRoot reg o

end SessionM

end GraphDoc
