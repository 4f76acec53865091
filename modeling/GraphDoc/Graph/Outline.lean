import GraphDoc.Graph.Shape
/-! # Numbered outlines

An outline shows a graph, sharing and cycles included, as a finite tree: the containers
reachable from some roots are numbered in the order a walk first reaches them, every kind of
container is entered once, and a container reached again appears as `seen` with its number.
A linked UID reference shows where its link points: the number of its target when the target
is reachable from the roots, its tag when it is not, and nothing when the reference is
unlinked or its target no longer exists. -/
namespace GraphDoc

/-- Where a UID reference points in an outline. -/
inductive Target where
  | unlinked
  | numbered (n : Nat)
  | external (tag : String)
deriving DecidableEq, Repr

/-- A numbered view of a graph. -/
inductive Outline where
  | scalar (s : Scalar) (line : Nat)
  | uid (name : String) (line : Nat) (target : Target)
  | struct (n : Nat) (tag uid : String) (line : Nat) (pairs : List (String × Outline))
  | list (n : Nat) (tag : String) (line : Nat) (items : List Outline)
  | raw (n : Nat) (tag : String) (line : Nat) (text : String)
  | ints (n : Nat) (tag : String) (line : Nat) (values : List Int64)
  | reals (n : Nat) (tag : String) (line : Nat) (values : List Binary64)
  | seen (n : Nat)
deriving Repr, Inhabited

namespace Shape

mutual
/-- The containers a walk enters, in the order it enters them. -/
def entered : Shape → List NodeId
  | .struct id _ _ _ pairs => id :: enteredPairs pairs
  | .list id _ _ items => id :: enteredItems items
  | .leaf id _ => [id]
  | _ => []

/-- The containers entered from pairs, in order. -/
def enteredPairs : List (String × Shape) → List NodeId
  | [] => []
  | (_, s) :: rest => entered s ++ enteredPairs rest

/-- The containers entered from items, in order. -/
def enteredItems : List Shape → List NodeId
  | [] => []
  | s :: rest => entered s ++ enteredItems rest
end

end Shape

namespace Graph

/-- Outline a walk, given the order in which containers were first entered and which
containers still exist. -/
structure Numbering where
  order : List NodeId
  alive : NodeId → Bool

/-- The number of a container: its position in the order of first entry. -/
def Numbering.number? (m : Numbering) (id : NodeId) : Option Nat := m.order.idxOf? id

/-- Where a link points. -/
def target (g : Graph) (m : Numbering) : Option NodeId → Target
  | none => .unlinked
  | some t =>
    match g.get? t with
    | none => .unlinked
    | some n =>
      if !m.alive t then .unlinked
      else match m.number? t with
        | some k => .numbered k
        | none => .external n.tag

mutual
/-- The outline of a walk. -/
def outlineOf (g : Graph) (m : Numbering) : Shape → Outline
  | .scalar (.uid name t) line => .uid name line (g.target m t)
  | .scalar s line => .scalar s line
  | .struct id tag uid line pairs => .struct ((m.number? id).getD 0) tag uid line (outlinePairs g m pairs)
  | .list id tag line items => .list ((m.number? id).getD 0) tag line (outlineItems g m items)
  | .leaf id n =>
    let k := (m.number? id).getD 0
    match n.body with
    | .raw text => .raw k n.tag n.line text
    | .ints values => .ints k n.tag n.line values
    | .reals values => .reals k n.tag n.line values
    | _ => .seen k
  | .again id _ => .seen ((m.number? id).getD 0)
  | .missing => .seen 0

/-- The outlines of the values of pairs. -/
def outlinePairs (g : Graph) (m : Numbering) : List (String × Shape) → List (String × Outline)
  | [] => []
  | (k, s) :: rest => (k, outlineOf g m s) :: outlinePairs g m rest

/-- The outlines of items. -/
def outlineItems (g : Graph) (m : Numbering) : List Shape → List Outline
  | [] => []
  | s :: rest => outlineOf g m s :: outlineItems g m rest
end

/-- The outlines of several roots under one numbering, given which containers still exist. -/
def outline (g : Graph) (alive : NodeId → Bool) (roots : List NodeId) : List Outline :=
  let (shapes, _) := g.walkAll true {} roots
  let m : Numbering := ⟨shapes.flatMap Shape.entered, alive⟩
  shapes.map (outlineOf g m)

end Graph

end GraphDoc
