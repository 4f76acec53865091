import GraphDoc.Stats
import GraphDoc.Proofs.Rebuild
/-! # What the statistics count

`Graph.stats` counts what one walk from the root meets. The walk enters each reachable
structure and list once, so the statistics are a sum over those containers of what each holds
directly (`Graph.statsAt`): the container itself, its scalars, its UID references other than
`#NULL`, and the rawtext blocks and arrays it holds with their elements (`Graph.valueStats`).
Blocks and arrays are not entered, only reached, so one held in several places is counted in
each of them.

* Statistics form a commutative monoid under fieldwise addition.
* `Graph.Walks.tally` is the step from the walk relation: what a walk adds is the count of
  the value it starts from and of the containers it enters.
* Main statement: `Graph.stats_eq_sum`; `Graph.stats_shared_array_twice` counts an array held
  twice. -/
namespace GraphDoc

namespace Stats

/-- Statistics added field by field. -/
def add (a b : Stats) : Stats where
  structures := a.structures + b.structures
  lists := a.lists + b.lists
  rawtextBlocks := a.rawtextBlocks + b.rawtextBlocks
  integerArrays := a.integerArrays + b.integerArrays
  integerElements := a.integerElements + b.integerElements
  realArrays := a.realArrays + b.realArrays
  realElements := a.realElements + b.realElements
  scalars := a.scalars + b.scalars
  uidReferences := a.uidReferences + b.uidReferences
  declaredUids := a.declaredUids + b.declaredUids

instance : Zero Stats := ⟨{}⟩

instance : Add Stats := ⟨add⟩

instance : AddCommMonoid Stats where
  add_assoc a b c := by
    show add (add a b) c = add a (add b c)
    simp [add, Nat.add_assoc]
  zero_add a := by
    show add {} a = a
    simp [add]
  add_zero a := by
    show add a {} = a
    simp [add]
  add_comm a b := by
    show add a b = add b a
    simp [add, Nat.add_comm]
  nsmul := nsmulRec
  nsmul_zero _ := rfl
  nsmul_succ _ _ := rfl

end Stats

namespace Node

/-- What the statistics count for a container itself when it is entered: one structure,
declaring a UID unless it is `#NULL`, or one list. -/
def selfStats (n : Node) : Stats :=
  match n.body with
  | .struct uid _ => { structures := 1, declaredUids := if uid == nullUid then 0 else 1 }
  | .list _ => { lists := 1 }
  | _ => 0

/-- What the statistics count for a rawtext block or an array each time it is reached: one
block, or one array with its elements. -/
def leafStats (n : Node) : Stats :=
  match n.body with
  | .raw _ => { rawtextBlocks := 1 }
  | .ints vs => { integerArrays := 1, integerElements := vs.length }
  | .reals vs => { realArrays := 1, realElements := vs.length }
  | _ => 0

end Node

namespace Graph

/-- What the statistics count for a value held by an entered container: a scalar, a UID
reference other than `#NULL`, or a rawtext block or an array with its elements. A structure or a
list held is counted where it is entered. -/
def valueStats (g : Graph) : Value → Stats
  | .scalar (.uid name _) _ => if name == nullUid then 0 else { uidReferences := 1 }
  | .scalar _ _ => { scalars := 1 }
  | .node id => ((g.get? id).map Node.leafStats).getD 0

/-- What the statistics count for the container at `id` when it is entered: itself and each
value it holds. -/
def statsAt (g : Graph) (id : NodeId) : Stats :=
  ((g.get? id).map fun n => n.selfStats + (n.values.map g.valueStats).sum).getD 0

end Graph

namespace Shape

theorem tallyPairs_eq (st : Stats) (ps : List (String × Shape)) :
    tallyPairs st ps = tallyItems st (ps.map Prod.snd) := by
  induction ps generalizing st with
  | nil => simp [tallyPairs, tallyItems]
  | cons p ps ih =>
    obtain ⟨k, s⟩ := p
    simp [tallyPairs, tallyItems, ih]

end Shape

namespace Graph

variable {g : Graph}

theorem tally_scalar (st : Stats) (sc : Scalar) (line : Nat) :
    (Shape.scalar sc line).tally st = st + g.valueStats (.scalar sc line) := by
  cases sc with
  | uid name target =>
    by_cases h : name == nullUid
    · simp only [Shape.tally, valueStats, h, if_true]
      exact (add_zero st).symm
    · simp only [Shape.tally, valueStats, h, Bool.false_eq_true, if_false]
      rfl
  | _ => rfl

theorem leafStats_of_isBranch {n : Node} (h : n.isBranch = true) : n.leafStats = 0 := by
  obtain ⟨tag, line, body⟩ := n
  cases body <;> simp_all [Node.isBranch, Node.leafStats]

/-- A structure or a list held is counted where it is entered, not where it is reached. -/
theorem valueStats_branch {id : NodeId} {n : Node} (hn : g.get? id = some n)
    (hb : n.isBranch = true) : g.valueStats (.node id) = 0 := by
  simp [valueStats, hn, leafStats_of_isBranch hb]

theorem statsAt_of_get {id : NodeId} {n : Node} (hn : g.get? id = some n) :
    g.statsAt id = n.selfStats + (n.values.map g.valueStats).sum := by
  simp [statsAt, hn]

theorem tally_leaf (st : Stats) (id : NodeId) {n : Node} (hb : n.isBranch = false) :
    (Shape.leaf id n).tally st = st + n.leafStats := by
  obtain ⟨tag, line, body⟩ := n
  cases body with
  | struct uid pairs => simp [Node.isBranch] at hb
  | list items => simp [Node.isBranch] at hb
  | raw text => rfl
  | ints vs => rfl
  | reals xs => rfl

theorem tally_struct (st : Stats) (id : NodeId) (tag uid : String) (line : Nat)
    (ps : List (String × Shape)) :
    (Shape.struct id tag uid line ps).tally st =
      Shape.tallyItems (st + { structures := 1, declaredUids := if uid == nullUid then 0 else 1 })
        (ps.map Prod.snd) := by
  rw [Shape.tally, Shape.tallyPairs_eq]
  rfl

theorem tally_list (st : Stats) (id : NodeId) (tag : String) (line : Nat) (ss : List Shape) :
    (Shape.list id tag line ss).tally st = Shape.tallyItems (st + { lists := 1 }) ss := by
  rw [Shape.tally]
  rfl

mutual
/-- **What a walk counts**: what it adds to statistics `st` is the count of the value it starts
from, and the counts of the containers it enters. -/
theorem Walks.tally : ∀ {vis vis' v s}, g.Walks vis v s vis' → ∀ st,
    s.tally st = st + g.valueStats v + (s.opened.map g.statsAt).sum
  | _, _, _, _, .scalar _ sc line, st => by
    simpa [Shape.opened] using tally_scalar (g := g) st sc line
  | _, _, _, _, .missing _ _ hn, st => by
    simp [Shape.tally, valueStats, hn, Shape.opened]
  | _, _, _, _, .again _ _ _ hn hb _, st => by
    simp [Shape.tally, valueStats_branch hn hb, Shape.opened]
  | _, _, _, _, .leaf _ id n hn hb, st => by
    simp [tally_leaf st id hb, valueStats, hn, Shape.opened]
  | _, _, _, _, .struct _ _ id n uid pairs ps hn hb _ _ hl, st => by
    have hself : n.selfStats = { structures := 1, declaredUids := if uid == nullUid then 0 else 1 } := by
      simp [Node.selfStats, hb]
    rw [tally_struct, WalksList.tally hl, valueStats_branch hn (by simp [Node.isBranch, hb])]
    simp only [Shape.opened, Shape.openedPairs_eq, List.map_cons, List.sum_cons, statsAt_of_get hn,
      Node.values, hb, hself]
    abel
  | _, _, _, _, .list _ _ id n items ss hn hb _ hl, st => by
    have hself : n.selfStats = { lists := 1 } := by
      simp [Node.selfStats, hb]
    rw [tally_list, WalksList.tally hl, valueStats_branch hn (by simp [Node.isBranch, hb])]
    simp only [Shape.opened, List.map_cons, List.sum_cons, statsAt_of_get hn, Node.values, hb,
      hself]
    abel

theorem WalksList.tally : ∀ {vis vis' vs ss}, g.WalksList vis vs ss vis' → ∀ st,
    Shape.tallyItems st ss = st + (vs.map g.valueStats).sum + ((Shape.openedItems ss).map g.statsAt).sum
  | _, _, _, _, .nil _, st => by simp [Shape.tallyItems, Shape.openedItems]
  | _, _, _, _, .cons h hl, st => by
    rw [Shape.tallyItems, WalksList.tally hl, Walks.tally h]
    simp only [List.map_cons, List.sum_cons, Shape.openedItems, List.map_append, List.sum_append]
    abel
end

/-- **What the statistics count.** The walk from `root` enters each structure and list
reachable from it exactly once (`preorder`), and the statistics are the sum, over those
containers, of what each holds directly: itself, its scalars, its UID references other than
`#NULL`, and each rawtext block and array it holds, with their elements. So a block or an array
held in several places is counted in each of them; a root that is itself a block or an array is
counted once as reached. -/
theorem stats_eq_sum (g : Graph) (root : NodeId) :
    (g.preorder [root]).Nodup ∧
    (∀ id, id ∈ g.preorder [root] ↔ g.Reaches [root] id ∧ g.IsBranch id) ∧
    g.stats root = g.valueStats (.node root) + ((g.preorder [root]).map g.statsAt).sum := by
  refine ⟨preorder_nodup, fun _ => mem_preorder, ?_⟩
  rw [stats, (walks_walk visitedOk_empty root).tally, preorder_singleton]
  rw [show ({} : Stats) = 0 from rfl, zero_add]

/-- A structure that holds one integer array under two keys. -/
def sharedArray : Graph where
  nodes := #[⟨"<R>", 0, .struct nullUid [("a", .node 1), ("b", .node 1)]⟩, ⟨"", 0, .ints [1, 2]⟩]

/-- The shared array is counted twice, with its elements: two containers in all, one of them the
structure, yet two integer arrays and four elements. -/
theorem stats_shared_array_twice :
    sharedArray.size = 2 ∧ (sharedArray.stats 0).structures = 1 ∧
      (sharedArray.stats 0).integerArrays = 2 ∧ (sharedArray.stats 0).integerElements = 4 := by
  simp [stats, walk, unfold, unfoldPairs, get?, sharedArray, Node.isBranch, Visited.contains,
    Visited.insert, size, Shape.tally, Shape.tallyPairs]

end Graph
end GraphDoc
