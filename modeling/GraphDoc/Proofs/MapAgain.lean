import GraphDoc.Proofs.Link
/-! # Mapping UIDs a second time

The first pass of linking adds to the record it is given and never replaces an entry. Run once
over some modules, it leaves every UID the walks meet recorded, so a second run over the same
modules records nothing: the record stays as the first run left it. The second run is not
silent, though. A declaration whose UID is recorded for another structure is a duplicate on
every run, so the second run finds again, one for one, the duplicates the first run found, and
it reports success exactly when the first one did (`Linker.mapUids_again`). So running the pass
twice adds nothing and reports nothing new only over modules whose first run found no fault; a
document with two structures declaring one UID reports the duplicate twice
(`Linker.mapUids_again_twins`).

* A declaration whose UID is recorded only adds the fault it makes (`declare_of_recorded`), and
  a pass over such declarations changes the faults alone (`foldl_declare_of_recorded`).
-/
namespace GraphDoc

namespace Linker

variable (g : Graph)

/-- A declaration whose UID is recorded changes no record; it adds a fault when another
structure holds the UID. -/
theorem declare_of_recorded {l : Linker} {d : NodeId × String} (h : (l.lookup d.2).isSome) :
    l.declare g d = { l with faults := l.faults ++ (duplicateOf g (l.lookup d.2) d).toList } := by
  obtain ⟨first, hf⟩ := Option.isSome_iff_exists.1 h
  rw [declare_of_some g hf, hf]
  by_cases he : first = d.1 <;> simp [duplicateOf, he]

/-- **A pass over recorded declarations changes only the faults**: each declaration adds the
duplicate it makes against the record, which the pass leaves as it is. -/
theorem foldl_declare_of_recorded : ∀ (ds : List (NodeId × String)) (l : Linker),
    (∀ d ∈ ds, (l.lookup d.2).isSome) →
    ds.foldl (declare g) l =
      { l with faults := l.faults ++ ds.filterMap fun d => duplicateOf g (l.lookup d.2) d }
  | [], l, _ => by simp
  | d :: ds, l, h => by
    -- adding a fault keeps the record, so the rest of the declarations stay recorded
    have hl : ({ l with faults := l.faults ++ (duplicateOf g (l.lookup d.2) d).toList } :
        Linker).lookup = l.lookup := rfl
    rw [List.foldl_cons, declare_of_recorded g (h d List.mem_cons_self),
      foldl_declare_of_recorded ds _ (hl ▸ fun d' hd' => h d' (List.mem_cons_of_mem _ hd')), hl]
    cases hdup : duplicateOf g (l.lookup d.2) d <;> simp [hdup]

/-- A declaration among others has a first declarer of its UID. -/
theorem isSome_firstIn {ds : List (NodeId × String)} {d : NodeId × String} (hd : d ∈ ds) :
    (firstIn ds d.2).isSome := by
  simp only [firstIn, Option.isSome_map, List.find?_isSome]
  exact ⟨d, hd, by simp⟩

/-- The first pass folds the declarations met by the walks into the record. -/
theorem mapUids_eq (l : Linker) : l.mapUids g =
    ((g.declarations l.modules).foldl (declare g) l,
      ((g.declarations l.modules).foldl (declare g) l).faults.length == l.faults.length) := by
  simp only [mapUids, Graph.walkAll_declarations]

/-- **The first pass, run again over the same modules, repeats its faults.** After one run,
from any linker, a second run leaves the modules and the record as they are and appends again
exactly the faults the first run appended; so it reports success exactly when the first run
did, and it appends nothing exactly when the first run found no fault. -/
theorem mapUids_again (l : Linker) :
    ((l.mapUids g).1.mapUids g).1 = { (l.mapUids g).1 with
      faults := (l.mapUids g).1.faults ++ (l.mapUids g).1.faults.drop l.faults.length } ∧
    ((l.mapUids g).1.mapUids g).2 = (l.mapUids g).2 ∧
    (((l.mapUids g).1.mapUids g).1.faults = (l.mapUids g).1.faults ↔ (l.mapUids g).2 = true) := by
  obtain ⟨hlook, hfaults⟩ := foldl_declare g (g.declarations l.modules) l
  have hmod := modules_foldl_declare g (g.declarations l.modules) l
  -- after the first run every UID the walks meet is recorded
  have hrec : ∀ d ∈ g.declarations l.modules,
      (((g.declarations l.modules).foldl (declare g) l).lookup d.2).isSome := by
    intro d hd
    rw [hlook]
    cases l.lookup d.2 <;> simp [isSome_firstIn hd]
  simp only [mapUids_eq, hmod]
  rw [foldl_declare_of_recorded g _ _ hrec]
  simp only [hlook, hfaults, hmod, List.drop_left, List.length_append, true_and]
  refine ⟨?_, ?_⟩
  · rw [Bool.eq_iff_iff]
    simp
  · simp

/-- A root holding a list of two structures that both declare `#a`. -/
def twinDocument : Graph where
  nodes := #[⟨"<Root>", 2, .struct nullUid [("items", .node 1)]⟩, ⟨"", 2, .list [.node 2, .node 3]⟩,
    ⟨"<First>", 2, .struct "#a" []⟩, ⟨"<Second>", 2, .struct "#a" []⟩]

/-- **A duplicate is reported on every run.** The first run of the mapping pass over
`twinDocument` reports the second structure declaring `#a`; a second run over the same module
reports it again and fails, though the record is unchanged. -/
theorem mapUids_again_twins :
    (({ modules := [0] } : Linker).mapUids twinDocument).1.faults =
      [.duplicateUid "#a" "<First>" "<Second>"] ∧
    ((({ modules := [0] } : Linker).mapUids twinDocument).1.mapUids twinDocument).1.faults =
      [.duplicateUid "#a" "<First>" "<Second>", .duplicateUid "#a" "<First>" "<Second>"] ∧
    ((({ modules := [0] } : Linker).mapUids twinDocument).1.mapUids twinDocument).2 = false := by
  simp [mapUids, twinDocument, Graph.walkAll, Graph.unfold, Graph.unfoldPairs, Graph.unfoldItems,
    Graph.get?, Visited.contains, Visited.insert, Node.isBranch, Graph.size, Shape.declarations,
    Shape.declarationsPairs, Shape.declarationsItems, declare, lookup, Graph.tagOf, nullUid]

end Linker

end GraphDoc
