import GraphDoc.Graph
import GraphDoc.Ieee.Round
/-! # Editing containers and reading their values

Documents built in memory grow by appending pairs to structures and values to lists; a pair
or an item can be removed, and the first value under a key replaced. Reading a structure by
key follows the document order: `valuesUnder` lists every value stored under a key, the first
of them is the one a single look-up answers.

Every edit addresses one container by index and leaves all others as they are; an edit of the
wrong kind of container, or of an index with no container, changes nothing. -/
namespace GraphDoc

/-- The kinds of values, as named in messages. -/
inductive ValueType where
  | bool | integer | real | string | identifier | uid
  | rawtext | list | struct | integerArray | realArray
deriving DecidableEq, Repr, Inhabited

/-- The name of a kind of value. -/
def ValueType.name : ValueType → String
  | .bool => "Bool" | .integer => "Integer" | .real => "Real" | .string => "String"
  | .identifier => "Identifier" | .uid => "UID" | .rawtext => "RawtextBlock" | .list => "List"
  | .struct => "Structure" | .integerArray => "ArrayInteger" | .realArray => "ArrayReal"

/-- The kind of a scalar. -/
def Scalar.type : Scalar → ValueType
  | .bool _ => .bool | .int _ => .integer | .real _ => .real | .str _ => .string
  | .ident _ => .identifier | .uid _ _ => .uid

/-- A scalar read as a 64-bit real: a real as it is, an integer rounded to nearest. -/
def Scalar.asReal? : Scalar → Option Binary64
  | .real x => some x
  | .int n => some (Binary64.ofInt n.toInt)
  | _ => none

/-- The kind of what a container holds. -/
def Body.type : Body → ValueType
  | .struct _ _ => .struct | .list _ => .list | .raw _ => .rawtext
  | .ints _ => .integerArray | .reals _ => .realArray

namespace Graph

/-- The kind of a value of the graph. Values built by the graph's own operations always point
at a container; an index with none is read as a structure. -/
def valueType (g : Graph) : Value → ValueType
  | .scalar s _ => s.type
  | .node id => ((g.get? id).map (·.body.type)).getD .struct

/-- Append a pair to a structure. -/
def pushPair (g : Graph) (id : NodeId) (key : String) (v : Value) : Graph :=
  g.modify id fun n =>
    match n.body with
    | .struct uid pairs => { n with body := .struct uid (pairs ++ [(key, v)]) }
    | _ => n

/-- Append a value to a list. -/
def pushItem (g : Graph) (id : NodeId) (v : Value) : Graph :=
  g.modify id fun n =>
    match n.body with
    | .list items => { n with body := .list (items ++ [v]) }
    | _ => n

/-- Remove the pair or item at a position of a structure or list. -/
def removeAt (g : Graph) (id : NodeId) (i : Nat) : Graph :=
  g.modify id fun n =>
    match n.body with
    | .struct uid pairs => { n with body := .struct uid (pairs.eraseIdx i) }
    | .list items => { n with body := .list (items.eraseIdx i) }
    | _ => n

/-- Give a structure a UID. -/
def setUid (g : Graph) (id : NodeId) (uid : String) : Graph :=
  g.modify id fun n =>
    match n.body with
    | .struct _ pairs => { n with body := .struct uid pairs }
    | _ => n

/-- The pairs of a structure; nothing for another container. -/
def pairsOf (g : Graph) (id : NodeId) : List (String × Value) :=
  match g.get? id with
  | some ⟨_, _, .struct _ pairs⟩ => pairs
  | _ => []

/-- Every value stored under a key of a structure, in document order. -/
def valuesUnder (g : Graph) (id : NodeId) (key : String) : List Value :=
  (g.pairsOf id).filterMap fun (k, v) => if k == key then some v else none

/-- Replace the first value stored under a key of a structure. Whether there was one. -/
def setFirst (g : Graph) (id : NodeId) (key : String) (v : Value) : Graph × Bool :=
  match (g.pairsOf id).findIdx? (·.1 == key) with
  | none => (g, false)
  | some i =>
    (g.modify id fun n =>
      match n.body with
      | .struct uid pairs => { n with body := .struct uid (pairs.modify i fun (k, _) => (k, v)) }
      | _ => n, true)

/-- Drop the link of the first value under a key, if that value is a UID reference. Whether
it is one. -/
def unlinkFirst (g : Graph) (id : NodeId) (key : String) : Graph × Bool :=
  match (g.pairsOf id).findIdx? (·.1 == key) with
  | none => (g, false)
  | some i =>
    match (g.pairsOf id)[i]? with
    | some (_, .scalar (.uid name _) line) =>
      (g.modify id fun n =>
        match n.body with
        | .struct uid pairs =>
          { n with body := .struct uid (pairs.modify i fun (k, _) => (k, .scalar (.uid name none) line)) }
        | _ => n, true)
    | _ => (g, false)

end Graph

end GraphDoc
