import GraphDoc.Graph.Shape
/-! # Borrowing containers during a walk

Containers are shared cells. A walker borrows a container to read it, or to change it, and a
borrow is refused, which stops the program, while a borrow of the same container that excludes
it is held. A walker holds a borrow of each structure and list it enters for as long as it walks
its values, so the borrows held at any point of a walk are those of the containers entered around
that point. On other visits, to a structure or list reached again or to a rawtext block or an
array, a walker borrows the container for a moment, or not at all.

`Walker` records which borrows a walker of documents takes, and the seven walkers are given by
what they borrow: the usage count, the two writers, the two passes of the linker, the statistics
and the JSON view. `Shape.borrowsOk` replays the borrows of a walker along a walk and says whether
each one could be taken. -/
namespace GraphDoc

/-- How a container is borrowed: shared with other readers, or exclusively, to change it. -/
inductive Borrow where
  | shared
  | exclusive
deriving DecidableEq, Repr

namespace Borrow

/-- Whether a borrow of container `id` can be taken while the borrows `held` are: an exclusive
one only if no borrow of `id` is held, a shared one only if no exclusive borrow of `id` is. -/
def allowed (held : List (NodeId × Borrow)) (id : NodeId) : Borrow → Bool
  | .shared => held.all fun h => h.1 != id || h.2 == .shared
  | .exclusive => held.all fun h => h.1 != id

end Borrow

/-- Which borrows a walker takes. -/
structure Walker where
  /-- the borrow held on a structure or list while its values are walked -/
  enter : Borrow
  /-- the borrow taken for a moment on a structure or list reached again -/
  again : Node → Option Borrow
  /-- the borrow taken for a moment on a rawtext block or an array -/
  leaf : Node → Option Borrow
  /-- whether, on entering a structure, it may borrow another structure for a moment, shared -/
  elsewhere : Bool := false

namespace Walker

/-- A borrow for structures and another for the other kinds of container. -/
def byKind (struct other : Option Borrow) (n : Node) : Option Borrow :=
  match n.body with
  | .struct _ _ => struct
  | _ => other

/-- A borrow for rawtext blocks and another for arrays. -/
def byLeaf (raw array : Option Borrow) (n : Node) : Option Borrow :=
  match n.body with
  | .raw _ => raw
  | _ => array

/-- The usage count reads the UID of a structure reached again; it does not look into blocks
and arrays. -/
def usage : Walker where
  enter := .shared
  again := byKind (some .shared) none
  leaf := fun _ => none

/-- The text writer writes the UID of a structure reached again and warns with the tag of a
list reached again; it reads blocks and arrays to write them. -/
def textWriter : Walker where
  enter := .shared
  again := fun _ => some .shared
  leaf := fun _ => some .shared

/-- The binary writer writes the UID of a structure and the tag of a list reached again, and
reads blocks and arrays to write them. -/
def binaryWriter : Walker where
  enter := .shared
  again := fun _ => some .shared
  leaf := fun _ => some .shared

/-- The first pass of the linker warns with the tag of a list reached again, and reads the tag
of the structure that first declared a UID declared again. -/
def mapper : Walker where
  enter := .shared
  again := byKind none (some .shared)
  leaf := fun _ => none
  elsewhere := true

/-- The second pass of the linker changes the references among the values of what it enters,
and leaves a container reached again alone: it may be borrowed further up. -/
def resolver : Walker where
  enter := .exclusive
  again := fun _ => none
  leaf := fun _ => none

/-- The statistics count a rawtext block without reading it, and read the length of an
array. -/
def stats : Walker where
  enter := .shared
  again := fun _ => none
  leaf := byLeaf none (some .shared)

/-- The JSON view borrows a structure before it asks whether it was entered, to show a
structure reached again by its UID; it reads blocks and arrays to show them. -/
def json : Walker where
  enter := .shared
  again := byKind (some .shared) none
  leaf := fun _ => some .shared

/-- The walkers of documents. -/
def all : List Walker := [usage, textWriter, binaryWriter, mapper, resolver, stats, json]

end Walker

namespace Shape

mutual
/-- Replay the borrows of walker `w` along a walk, with the borrows `held` by the containers
entered around it: whether each borrow requested could be taken. -/
def borrowsOk (w : Walker) (held : List (NodeId × Borrow)) : Shape → Bool
  | .struct id _ _ _ pairs =>
    -- the first pass of the linker reads another structure while it holds this one
    w.enter.allowed held id &&
      (!w.elsewhere || ((id, w.enter) :: held).all (·.2 == .shared)) &&
      borrowsOkPairs w ((id, w.enter) :: held) pairs
  | .list id _ _ items => w.enter.allowed held id && borrowsOkItems w ((id, w.enter) :: held) items
  | .leaf id n => (w.leaf n).all (Borrow.allowed held id)
  | .again id n => (w.again n).all (Borrow.allowed held id)
  | _ => true

/-- The borrows along the walks of the values of pairs. -/
def borrowsOkPairs (w : Walker) (held : List (NodeId × Borrow)) : List (String × Shape) → Bool
  | [] => true
  | (_, s) :: rest => borrowsOk w held s && borrowsOkPairs w held rest

/-- The borrows along the walks of items. -/
def borrowsOkItems (w : Walker) (held : List (NodeId × Borrow)) : List Shape → Bool
  | [] => true
  | s :: rest => borrowsOk w held s && borrowsOkItems w held rest
end

end Shape

end GraphDoc
