import GraphDoc.Graph.Shape
import GraphDoc.Error
/-! # Linking UID references

A linker holds modules (containers of one graph) and links their UID references to the
structures that declare those UIDs, across all modules. Linking has two passes, each a walk
over all modules with one visited set:

* `mapUids` records, in walk order, the structure that first declares each UID; a different
  structure declaring the same UID is a `duplicateUid` fault;
* `resolveUids` links every reference (other than `#NULL`) to the recorded structure; a
  reference with no record is an `unresolvedUid` fault and keeps whatever link it had.

`link` clears the record and the faults, runs both passes, and fails if any fault was found.
A link does not own its target. -/
namespace GraphDoc

/-- The state of a linker. -/
structure Linker where
  modules : List NodeId := []
  /-- UIDs and their declaring structures, in the order they were recorded -/
  uidMap : List (String × NodeId) := []
  /-- faults in the order they were found -/
  faults : List LinkFault := []
deriving Repr, Inhabited

namespace Shape

mutual
/-- The structures a walk enters that declare a UID, with their UIDs, in walk order. -/
def declarations : Shape → List (NodeId × String)
  | .struct id _ uid _ pairs => (if uid == nullUid then [] else [(id, uid)]) ++ declarationsPairs pairs
  | .list _ _ _ items => declarationsItems items
  | _ => []

/-- The declarations entered from pairs. -/
def declarationsPairs : List (String × Shape) → List (NodeId × String)
  | [] => []
  | (_, s) :: rest => declarations s ++ declarationsPairs rest

/-- The declarations entered from items. -/
def declarationsItems : List Shape → List (NodeId × String)
  | [] => []
  | s :: rest => declarations s ++ declarationsItems rest
end

/-- Where a UID reference stands: its container, its position there, its UID and line. -/
structure Site where
  node : NodeId
  slot : Nat
  uid : String
  line : Nat
deriving Repr

mutual
/-- The UID references (other than `#NULL`) that a walk meets, in walk order. -/
def sites : Shape → List Site
  | .struct id _ _ _ pairs => sitesPairs id 0 pairs
  | .list id _ _ items => sitesItems id 0 items
  | _ => []

/-- The references among the values of pairs of container `id`, from position `i` on. -/
def sitesPairs (id : NodeId) (i : Nat) : List (String × Shape) → List Site
  | [] => []
  | (_, .scalar (.uid name _) line) :: rest =>
    (if name == nullUid then [] else [⟨id, i, name, line⟩]) ++ sitesPairs id (i + 1) rest
  | (_, s) :: rest => sites s ++ sitesPairs id (i + 1) rest

/-- The references among the items of container `id`, from position `i` on. -/
def sitesItems (id : NodeId) (i : Nat) : List Shape → List Site
  | [] => []
  | .scalar (.uid name _) line :: rest =>
    (if name == nullUid then [] else [⟨id, i, name, line⟩]) ++ sitesItems id (i + 1) rest
  | s :: rest => sites s ++ sitesItems id (i + 1) rest
end

end Shape

namespace Graph

/-- Link the reference at position `slot` of container `id` to `target`. -/
def setTarget (g : Graph) (id : NodeId) (slot : Nat) (target : Option NodeId) : Graph :=
  let relink : Value → Value := fun
    | .scalar (.uid name _) line => .scalar (.uid name target) line
    | v => v
  g.modify id fun n =>
    match n.body with
    | .struct uid pairs => { n with body := .struct uid (pairs.modify slot fun (k, v) => (k, relink v)) }
    | .list items => { n with body := .list (items.modify slot relink) }
    | _ => n

end Graph

namespace Linker

/-- The structure recorded for a UID. -/
def lookup (l : Linker) (uid : String) : Option NodeId :=
  (l.uidMap.find? (·.1 == uid)).map (·.2)

/-- Record one declaration: a first declaration is kept, the same structure again is nothing,
and another structure is a duplicate. -/
def declare (g : Graph) (l : Linker) (d : NodeId × String) : Linker :=
  let (id, uid) := d
  match l.lookup uid with
  | none => { l with uidMap := l.uidMap ++ [(uid, id)] }
  | some first =>
    if first == id then l
    else { l with faults := l.faults ++ [.duplicateUid uid (g.tagOf first) (g.tagOf id)] }

/-- The first pass: record the structures declaring UIDs. Whether it found no fault. -/
def mapUids (g : Graph) (l : Linker) : Linker × Bool :=
  let (shapes, _) := g.walkAll false {} l.modules
  let l' := (shapes.flatMap Shape.declarations).foldl (declare g) l
  (l', l'.faults.length == l.faults.length)

/-- Link one reference, or record it as unresolved. -/
def resolveSite (l : Linker) (acc : Graph × List LinkFault) (s : Shape.Site) :
    Graph × List LinkFault :=
  let (g, faults) := acc
  match l.lookup s.uid with
  | some t => (g.setTarget s.node s.slot (some t), faults)
  | none => (g, faults ++ [.unresolvedUid s.uid s.line])

/-- The second pass: link every reference to its recorded structure. Whether it found no
fault. -/
def resolveUids (g : Graph) (l : Linker) : Graph × Linker × Bool :=
  let (shapes, _) := g.walkAll false {} l.modules
  let (g', faults) := (shapes.flatMap Shape.sites).foldl l.resolveSite (g, l.faults)
  (g', { l with faults := faults }, faults.length == l.faults.length)

/-- Both passes from a clean record; an error lists the faults found. -/
def link (g : Graph) (l : Linker) : Graph × Linker × Except Error Unit :=
  let l := { l with uidMap := [], faults := [] }
  let (l, _) := l.mapUids g
  let (g, l, _) := l.resolveUids g
  (g, l, if l.faults.isEmpty then .ok () else .error (.link l.faults))

/-- The record ordered by UID. -/
def sortedMap (l : Linker) : List (String × NodeId) :=
  l.uidMap.mergeSort fun a b => decide (a.1 ≤ b.1)

end Linker

/-- Link the document rooted at a structure on its own. -/
def Graph.link (g : Graph) (root : NodeId) : Graph × Except Error Unit :=
  let (g, _, r) := ({ modules := [root] } : Linker).link g
  (g, r)

end GraphDoc
