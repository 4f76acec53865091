import GraphDoc.Graph.Edit
/-! # Which containers are alive

A container is owned by the handles a program holds on it and by every live container whose
values point at it; a UID link owns nothing. A container that loses its last owner is freed,
and what it pointed at loses an owner in turn. Containers that own each other in a cycle are
therefore never freed, even when no handle reaches the cycle.

`Graph.survivors` computes the containers left after freeing: it removes, one at a time, a
container that no handle and no remaining container owns, until every remaining container
has an owner. Each removal shortens the pool, which bounds the recursion. -/
namespace GraphDoc

namespace Graph

/-- Whether a handle in `held`, or a container in `pool`, owns container `id`. -/
def owned (g : Graph) (held pool : List NodeId) (id : NodeId) : Bool :=
  held.contains id || pool.any fun p => (((g.get? p).map Node.children).getD []).contains id

/-- The containers of `pool` that survive the freeing of every container without an owner. -/
def survivors (g : Graph) (held pool : List NodeId) : List NodeId :=
  match _found : pool.find? (fun id => !g.owned held pool id) with
  | none => pool
  | some id => g.survivors held (pool.erase id)
termination_by pool.length
decreasing_by
  have member : id ∈ pool := List.mem_of_find?_eq_some _found
  have smaller := List.length_erase_of_mem member
  have positive := List.length_pos_of_mem member
  omega

/-- Whether a container is alive while the handles `held` are held. -/
def live (g : Graph) (held : List NodeId) : NodeId → Bool :=
  let alive := g.survivors held (List.range g.size)
  fun id => alive.contains id

/-- The structure a value leads to: a structure itself, or the live target of a linked UID
reference. -/
def resolvedStructure (g : Graph) (alive : NodeId → Bool) : Value → Option NodeId
  | .node id => if g.valueType (.node id) == .struct then some id else none
  | .scalar (.uid _ (some t)) _ => if alive t then some t else none
  | .scalar _ _ => none

end Graph

end GraphDoc
