import GraphDoc.Graph.Shape
/-! # UID usage

How often each UID is referenced from a walk: once for every UID reference that names it,
and once for every time its structure is reached again (writers then write the bare UID). A
structure's own declaration is no reference. Writers declare a UID only where it is used. -/
namespace GraphDoc

/-- Reference counts of UIDs, in the order the UIDs were first counted. -/
structure Usage where
  counts : List (String × Nat) := []
deriving Repr, Inhabited

namespace Usage

/-- The count of a UID, zero if it was never referenced. -/
def count (u : Usage) (uid : String) : Nat :=
  match u.counts.find? (·.1 == uid) with
  | some (_, n) => n
  | none => 0

/-- Count one more reference to a UID. -/
def bump (u : Usage) (uid : String) : Usage :=
  if u.counts.any (·.1 == uid) then
    ⟨u.counts.map fun (k, n) => if k == uid then (k, n + 1) else (k, n)⟩
  else ⟨u.counts ++ [(uid, 1)]⟩

/-- Which UIDs a writer declares: every one without a usage, else those referenced. -/
def declares (usage : Option Usage) (uid : String) : Bool :=
  match usage with
  | none => true
  | some u => u.count uid > 0

/-- The counts ordered by UID. -/
def sorted (u : Usage) : List (String × Nat) :=
  u.counts.mergeSort fun a b => decide (a.1 ≤ b.1)

end Usage

namespace Shape

mutual
/-- Add the references of a walk to `u`. -/
def collectUsage (u : Usage) : Shape → Usage
  | .scalar (.uid name _) _ => if name == nullUid then u else u.bump name
  | .scalar _ _ => u
  | .struct _ _ _ _ pairs => collectUsagePairs u pairs
  | .list _ _ _ items => collectUsageItems u items
  | .again _ n =>
    match n.body with
    | .struct uid _ => if uid == nullUid then u else u.bump uid
    | _ => u
  | _ => u

/-- Add the references of the values of pairs. -/
def collectUsagePairs (u : Usage) : List (String × Shape) → Usage
  | [] => u
  | (_, s) :: rest => collectUsagePairs (collectUsage u s) rest

/-- Add the references of items. -/
def collectUsageItems (u : Usage) : List Shape → Usage
  | [] => u
  | s :: rest => collectUsageItems (collectUsage u s) rest
end

end Shape

/-- The UID usage of the document rooted at a structure. -/
def Graph.usage (g : Graph) (root : NodeId) : Usage :=
  (g.walk {} root).1.collectUsage {}

end GraphDoc
