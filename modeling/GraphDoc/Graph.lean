import GraphDoc.Tree
/-! # Document graphs

Documents built in memory may share containers and even contain cycles, so a document in
general is a `Graph`: an array of containers indexed by `NodeId`, whose values point at other
containers by index. A UID reference may additionally be linked to the structure it names;
that link does not own its target.

`Graph.plant` puts a `Tree` into a graph as fresh containers, one per container of the tree. -/
namespace GraphDoc

/-- A value stored in a container: a scalar with its source line, or a container. -/
inductive Value where
  | scalar (s : Scalar) (line : Nat)
  | node (id : NodeId)
deriving DecidableEq, Repr, Inhabited

/-- What a container holds. -/
inductive Body where
  /-- a structure: its UID (`#NULL` if none) and its key–value pairs in order -/
  | struct (uid : String) (pairs : List (String × Value))
  | list (items : List Value)
  | raw (text : String)
  | ints (values : List Int64)
  | reals (values : List Binary64)
deriving DecidableEq, Repr, Inhabited

/-- A container: its tag (empty when untagged), the line that opened it, and its contents. -/
structure Node where
  tag : String
  line : Nat
  body : Body
deriving DecidableEq, Repr, Inhabited

namespace Node

/-- Whether the container is a structure or a list, the kinds whose contents can lead back to
containers. -/
def isBranch (n : Node) : Bool :=
  match n.body with
  | .struct _ _ | .list _ => true
  | _ => false

/-- The containers a container points at, in order, with repeats. -/
def children (n : Node) : List NodeId :=
  let ofValue : Value → List NodeId := fun
    | .node id => [id]
    | .scalar _ _ => []
  match n.body with
  | .struct _ pairs => pairs.flatMap (fun p => ofValue p.2)
  | .list items => items.flatMap ofValue
  | _ => []

end Node

/-- Containers indexed by `NodeId`. -/
structure Graph where
  nodes : Array Node := #[]
deriving Repr, Inhabited

namespace Graph

/-- The number of containers. -/
def size (g : Graph) : Nat := g.nodes.size

/-- The container with index `id`. -/
def get? (g : Graph) (id : NodeId) : Option Node := g.nodes[id]?

/-- The tag of a container, empty if there is none. -/
def tagOf (g : Graph) (id : NodeId) : String := ((g.get? id).map Node.tag).getD ""

/-- Add a container; its index is the old size. -/
def add (g : Graph) (n : Node) : Graph × NodeId := (⟨g.nodes.push n⟩, g.nodes.size)

/-- Replace the container with index `id`, if there is one. -/
def set (g : Graph) (id : NodeId) (n : Node) : Graph :=
  if h : id < g.nodes.size then ⟨g.nodes.set id n h⟩ else g

/-- Change the container with index `id` by `f`, if there is one. -/
def modify (g : Graph) (id : NodeId) (f : Node → Node) : Graph :=
  match g.get? id with
  | some n => g.set id (f n)
  | none => g

mutual
/-- Put a tree into the graph as fresh containers. -/
def plant (g : Graph) : Tree → Graph × Value
  | .scalar s line => (g, .scalar s line)
  | .struct tag uid line pairs =>
    let (g, ps) := plantPairs g pairs
    let (g, id) := g.add ⟨tag, line, .struct uid ps⟩
    (g, .node id)
  | .list tag line items =>
    let (g, vs) := plantItems g items
    let (g, id) := g.add ⟨tag, line, .list vs⟩
    (g, .node id)
  | .raw tag line text =>
    let (g, id) := g.add ⟨tag, line, .raw text⟩
    (g, .node id)
  | .ints tag line values =>
    let (g, id) := g.add ⟨tag, line, .ints values⟩
    (g, .node id)
  | .reals tag line values =>
    let (g, id) := g.add ⟨tag, line, .reals values⟩
    (g, .node id)

/-- Put the values of pairs into the graph. -/
def plantPairs (g : Graph) : List (String × Tree) → Graph × List (String × Value)
  | [] => (g, [])
  | (k, t) :: rest =>
    let (g, v) := plant g t
    let (g, vs) := plantPairs g rest
    (g, (k, v) :: vs)

/-- Put the items of a list into the graph. -/
def plantItems (g : Graph) : List Tree → Graph × List Value
  | [] => (g, [])
  | t :: rest =>
    let (g, v) := plant g t
    let (g, vs) := plantItems g rest
    (g, v :: vs)
end

/-- Put a tree whose root is a container into the graph: the graph and the root's index. -/
def plantRoot (g : Graph) (t : Tree) : Graph × NodeId :=
  match g.plant t with
  | (g, .node id) => (g, id)
  | (g, .scalar _ _) => (g, g.size)

end Graph

end GraphDoc
