import GraphDoc.Graph.Shape
/-! # Document statistics

Counts of what a walk meets: structures and lists once each (they are entered once), rawtext
blocks and arrays every time they are reached, scalars and UID references once for every
place they stand in an entered container. -/
namespace GraphDoc

/-- What a document holds, counted. -/
structure Stats where
  structures : Nat := 0
  lists : Nat := 0
  rawtextBlocks : Nat := 0
  integerArrays : Nat := 0
  integerElements : Nat := 0
  realArrays : Nat := 0
  realElements : Nat := 0
  scalars : Nat := 0
  uidReferences : Nat := 0
  declaredUids : Nat := 0
deriving Repr, Inhabited, DecidableEq

namespace Shape

mutual
/-- Add what a walk meets to `st`. -/
def tally (st : Stats) : Shape → Stats
  | .scalar (.uid name _) _ =>
    if name == nullUid then st else { st with uidReferences := st.uidReferences + 1 }
  | .scalar _ _ => { st with scalars := st.scalars + 1 }
  | .struct _ _ uid _ pairs =>
    tallyPairs { st with
      structures := st.structures + 1
      declaredUids := st.declaredUids + (if uid == nullUid then 0 else 1) } pairs
  | .list _ _ _ items => tallyItems { st with lists := st.lists + 1 } items
  | .leaf _ n =>
    match n.body with
    | .raw _ => { st with rawtextBlocks := st.rawtextBlocks + 1 }
    | .ints vs =>
      { st with integerArrays := st.integerArrays + 1, integerElements := st.integerElements + vs.length }
    | .reals vs =>
      { st with realArrays := st.realArrays + 1, realElements := st.realElements + vs.length }
    | _ => st
  | _ => st

/-- Add what the walks of the values of pairs meet. -/
def tallyPairs (st : Stats) : List (String × Shape) → Stats
  | [] => st
  | (_, s) :: rest => tallyPairs (tally st s) rest

/-- Add what the walks of items meet. -/
def tallyItems (st : Stats) : List Shape → Stats
  | [] => st
  | s :: rest => tallyItems (tally st s) rest
end

end Shape

/-- The statistics of the document rooted at a structure. -/
def Graph.stats (g : Graph) (root : NodeId) : Stats := (g.walk {} root).1.tally {}

end GraphDoc
