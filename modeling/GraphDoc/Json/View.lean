import GraphDoc.Json.Value
import GraphDoc.Graph.Shape
/-! # The JSON view of a document

A lossy view of a walk for reading by people and programs. A structure becomes an object
with `@tag` and `@uid` first (each only if present) and then its keys in order; a key that
occurs more than once collects all its values in an array, in order. Lists and arrays become
arrays, rawtext its body, identifiers and UID references strings. A structure reached again
is shown as its UID, a list reached again as an empty array. Non-finite reals become
`null`. -/
namespace GraphDoc

namespace Shape

/-- Add the view `v` of a pair keyed `k` to the fields of an object. A key that occurs once in
the structure is set; a key that occurs more often collects into an array, and a value whose
slot already holds something other than an array is dropped. -/
def addField (keys : List String) (fields : List (String × Json.Value)) (k : String) (v : Json.Value) :
    List (String × Json.Value) :=
  if keys.count k ≤ 1 then Json.Value.setField fields k v
  else
    match fields.find? (·.1 == k) with
    | none => fields ++ [(k, .arr [v])]
    | some (_, .arr xs) => Json.Value.setField fields k (.arr (xs ++ [v]))
    | some _ => fields

/-- The view of a scalar. -/
def scalarView : Scalar → Json.Value
  | .bool b => .bool b
  | .int n => .int n.toInt
  | .real x => Json.Value.ofReal x
  | .str s => .str s
  | .ident s => .str s
  | .uid name _ => .str name

mutual
/-- The JSON view of a walk. -/
def view : Shape → Json.Value
  | .scalar s _ => scalarView s
  | .struct _ tag uid _ pairs =>
    let head := (if tag.isEmpty then [] else [("@tag", Json.Value.str tag)]) ++
      (if uid == nullUid then [] else [("@uid", Json.Value.str uid)])
    .obj (viewPairs (pairs.map (·.1)) head pairs)
  | .list _ _ _ items => .arr (viewItems items)
  | .leaf _ n =>
    match n.body with
    | .raw text => .str text
    | .ints vs => .arr (vs.map fun v => .int v.toInt)
    | .reals xs => .arr (xs.map Json.Value.ofReal)
    | _ => .null
  | .again _ n =>
    match n.body with
    | .struct uid _ => .str uid
    | _ => .arr []
  | .missing => .null

/-- The fields of an object from pairs, given all keys of the structure. -/
def viewPairs (keys : List String) (fields : List (String × Json.Value)) :
    List (String × Shape) → List (String × Json.Value)
  | [] => fields
  | (k, s) :: rest => viewPairs keys (addField keys fields k (view s)) rest

/-- The views of items. -/
def viewItems : List Shape → List Json.Value
  | [] => []
  | s :: rest => view s :: viewItems rest
end

end Shape

namespace Graph

/-- The JSON view of the document rooted at a structure. -/
def json (g : Graph) (root : NodeId) : Json.Value := (g.walk {} root).1.view

/-- The JSON view of one value, walked on its own. -/
def valueJson (g : Graph) (v : Value) : Json.Value := (g.unfold false (g.size + 1) {} v).1.view

end Graph

end GraphDoc
