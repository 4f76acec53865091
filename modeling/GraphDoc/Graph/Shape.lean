import GraphDoc.Graph
/-! # Walking a graph once

Every walk over a document graph follows one discipline: a structure or a list is entered the
first time it is reached and only named on later visits, so that shared and cyclic documents
are walked in finite time; rawtext blocks and arrays hold no containers and are visited every
time they are reached. A `Visited` set remembers the containers entered.

`Graph.unfold` performs the walk once and records it as a `Shape`, a finite tree in which a
container reached again appears as `again`. Writers, counters and the linker are then plain
recursive functions on shapes. With `guardAll` every kind of container is entered once, as
the numbered outline of a graph needs. -/
namespace GraphDoc

/-- The containers entered so far, most recent first. -/
structure Visited where
  ids : List NodeId := []
deriving Repr, Inhabited

namespace Visited

/-- Whether a container has been entered. -/
def contains (v : Visited) (id : NodeId) : Bool := v.ids.contains id

/-- Record a container as entered. -/
def insert (v : Visited) (id : NodeId) : Visited := ⟨id :: v.ids⟩

/-- The number of containers entered. -/
def size (v : Visited) : Nat := v.ids.length

/-- Enter a container unless it was entered before: whether it was, and the set after. -/
def visit (v : Visited) (id : NodeId) : Bool × Visited :=
  if v.contains id then (true, v) else (false, v.insert id)

end Visited

/-- A walk from one value of a graph. -/
inductive Shape where
  | scalar (s : Scalar) (line : Nat)
  /-- a structure entered for the first time, with the shapes of its values in order -/
  | struct (id : NodeId) (tag uid : String) (line : Nat) (pairs : List (String × Shape))
  /-- a list entered for the first time -/
  | list (id : NodeId) (tag : String) (line : Nat) (items : List Shape)
  /-- a rawtext block or an array -/
  | leaf (id : NodeId) (node : Node)
  /-- a container reached again -/
  | again (id : NodeId) (node : Node)
  /-- an index with no container, or a walk cut short -/
  | missing
deriving Repr, Inhabited

namespace Graph

mutual
/-- Walk from a value, entering each structure and list (with `guardAll`, each container)
at most once. `fuel` bounds the depth of the walk; the size of the graph plus one is
enough, since each level enters a container not entered before. -/
def unfold (g : Graph) (guardAll : Bool) (fuel : Nat) (vis : Visited) (v : Value) :
    Shape × Visited :=
  match v with
  | .scalar s line => (.scalar s line, vis)
  | .node id =>
    match fuel, g.get? id with
    | 0, _ => (.missing, vis)
    | _, none => (.missing, vis)
    | fuel + 1, some n =>
      if (n.isBranch || guardAll) && vis.contains id then (.again id n, vis)
      else
        let vis := if n.isBranch || guardAll then vis.insert id else vis
        match n.body with
        | .struct uid pairs =>
          let (ps, vis) := unfoldPairs g guardAll fuel vis pairs
          (.struct id n.tag uid n.line ps, vis)
        | .list items =>
          let (vs, vis) := unfoldItems g guardAll fuel vis items
          (.list id n.tag n.line vs, vis)
        | _ => (.leaf id n, vis)
termination_by (fuel, 0)

/-- Walk from the values of pairs in order. -/
def unfoldPairs (g : Graph) (guardAll : Bool) (fuel : Nat) (vis : Visited) :
    List (String × Value) → List (String × Shape) × Visited
  | [] => ([], vis)
  | (k, v) :: rest =>
    let (s, vis) := unfold g guardAll fuel vis v
    let (ss, vis) := unfoldPairs g guardAll fuel vis rest
    ((k, s) :: ss, vis)
termination_by ps => (fuel, ps.length + 1)

/-- Walk from values in order. -/
def unfoldItems (g : Graph) (guardAll : Bool) (fuel : Nat) (vis : Visited) :
    List Value → List Shape × Visited
  | [] => ([], vis)
  | v :: rest =>
    let (s, vis) := unfold g guardAll fuel vis v
    let (ss, vis) := unfoldItems g guardAll fuel vis rest
    (s :: ss, vis)
termination_by vs => (fuel, vs.length + 1)
end

/-- The walk from a container, with enough fuel. -/
def walk (g : Graph) (vis : Visited) (id : NodeId) : Shape × Visited :=
  g.unfold false (g.size + 1) vis (.node id)

/-- The walks from several containers in order, sharing one visited set. -/
def walkAll (g : Graph) (guardAll : Bool) (vis : Visited) : List NodeId → List Shape × Visited
  | [] => ([], vis)
  | id :: rest =>
    let (s, vis) := g.unfold guardAll (g.size + 1) vis (.node id)
    let (ss, vis) := walkAll g guardAll vis rest
    (s :: ss, vis)

end Graph

end GraphDoc
