import GraphDoc.Session.Export
import GraphDoc.Graph.Live
/-! # Importing structures into objects

`importObject` gives the object of a structure. A structure imported before gets its earlier
object. A new structure needs a registered tag; its `name` must be a string, and the values of
its first `children` value, if that is a list, are imported in order as the object's children.
The object is registered before its children are imported, so a child leading back to it gets
it, and cycles of structures become cycles of objects. A child must be a structure or a UID
reference linked to one that is still alive.

Each structure is imported at most once before it is registered, so the nesting never exceeds
the number of containers of the graph; the fuel given by `importRoot` is one more than that. -/
namespace GraphDoc

namespace SessionM

/-- Register the object of a structure. -/
def registerImported (st : NodeId) (o : ObjId) : SessionM Unit :=
  modify fun s => { s with imported := (st, o) :: s.imported.filter (·.1 != st) }

/-- Add an object to the session. -/
def newObject (o : Obj) : SessionM ObjId := do
  let s ← get
  let (s, id) := s.addObject o
  set s
  return id

/-- Append a child to an object. -/
def appendChild (o c : ObjId) : SessionM Unit :=
  modify fun s => { s with objects := s.objects.modify o fun x => { x with children := x.children ++ [c] } }

/-- The line of a value: its own, or that of the container it holds. -/
def lineOf (g : Graph) : Value → Nat
  | .scalar _ line => line
  | .node id => ((g.get? id).map Node.line).getD 0

/-- The values of a list value; nothing for any other value. -/
def listItems (g : Graph) : Option Value → List Value
  | some (.node id) =>
    match g.get? id with
    | some ⟨_, _, .list items⟩ => items
    | _ => []
  | _ => []

mutual
/-- Import a structure: its object, made at most once per structure. -/
def importObject (reg : Registry) (fuel : Nat) (st : NodeId) : SessionM ObjId := do
  checkSticky
  match (← get).imported.lookup st with
  | some o => return o
  | none =>
    let g := (← get).graph
    let tag := g.tagOf st
    let line := lineOf g (.node st)
    match fuel, reg.get? tag with
    | _, none => failImport ("line " ++ toString line ++ ": no importer registered for " ++ tag)
    | 0, some _ => failImport ("line " ++ toString line ++ ": " ++ tag ++ " is nested too deeply")
    | fuel + 1, some _ =>
      let o ← tryCatch (read reg fuel st) fun e => failImport e.bareMessage
      checkSticky
      registerImported st o
      return o
termination_by (fuel, 0, 0)

/-- Read a new structure into a fresh object. -/
def read (reg : Registry) (fuel : Nat) (st : NodeId) : SessionM ObjId := do
  let g := (← get).graph
  let line := lineOf g (.node st)
  let name ← match (g.valuesUnder st "name").head? with
    | some (.scalar (.str n) _) => pure n
    | _ => throw (.importFailed ("line " ++ toString line ++ ": node without a name"))
  let items := listItems g (g.valuesUnder st "children").head?
  let o ← newObject { tag := g.tagOf st, name := name }
  registerImported st o
  importChildren reg fuel o items
  return o
termination_by (fuel, 3, 0)

/-- Import the children of an object in order; the first failure ends the import. -/
def importChildren (reg : Registry) (fuel : Nat) (o : ObjId) : List Value → SessionM Unit
  | [] => return ()
  | v :: vs => do
    let c ← importValue reg fuel v
    appendChild o c
    importChildren reg fuel o vs
termination_by vs => (fuel, 2, vs.length)

/-- Import the structure a value stands for: a structure, or the live target of a linked UID.
The structure is held while it is imported. -/
def importValue (reg : Registry) (fuel : Nat) (v : Value) : SessionM ObjId := do
  let s ← get
  let g := s.graph
  match g.resolvedStructure s.alive v with
  | some st => withHandle st (importObject reg fuel st)
  | none =>
    failImport ("line " ++ toString (lineOf g v) ++ ": expected a structure or a linked UID, found " ++
      (g.valueType v).name)
termination_by (fuel, 1, 0)
end

/-- Import a structure with enough fuel. -/
def importRoot (reg : Registry) (st : NodeId) : SessionM ObjId := do
  importObject reg ((← get).graph.size + 1) st

/-- Import the structure a value stands for, with enough fuel. -/
def importRootValue (reg : Registry) (v : Value) : SessionM ObjId := do
  importValue reg ((← get).graph.size + 1) v

/-- Start afresh and import the root of a linked document. -/
def importDocument (reg : Registry) (st : NodeId) : SessionM ObjId := do
  reset
  importRoot reg st

end SessionM

end GraphDoc
