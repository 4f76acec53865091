import GraphDoc.Proofs.Link
import GraphDoc.Proofs.Survivors
/-! # Linking again keeps the links it cannot renew

`Linker.link` starts each run from an empty record and no faults, but the references it links
are changed in place and keep what earlier runs gave them. The second pass links a reference
whose UID is recorded to the recorded structure and leaves every other reference as it is. So
a reference whose UID no reachable structure declares any more keeps the link an earlier run
gave it, and that link may still lead to a live structure (`Linker.link_keeps_unrecorded_links`).
A document that names its own UID, linked once, renamed and linked again, fails to resolve the
old UID, yet its reference still leads to the structure, which its handle keeps alive
(`Linker.relink_after_rename`).
-/
namespace GraphDoc

namespace Node

/-- Only structures and lists hold values. -/
theorem isBranch_of_values {n : Node} {i : Nat} {v : Value} (h : n.values[i]? = some v) :
    n.isBranch = true := by
  obtain ⟨tag, line, body⟩ := n
  cases body <;> simp_all [values, isBranch]

end Node

namespace Linker

/-- **Linking renews only the links it records.** After linking, from any state of the linker
and over a graph whose references may carry links that earlier runs left, a reference other
than `#NULL` in a reachable container is linked to the structure recorded for its UID when one
is recorded, and otherwise keeps the link it had before, whatever it leads to. A UID is
recorded exactly when a reachable structure declares it. -/
theorem link_keeps_unrecorded_links (g : Graph) (l : Linker) {id : NodeId} {n₀ : Node} {i : Nat}
    {uid : String} {t₀ : Option NodeId} {line : Nat} (hn : g.get? id = some n₀)
    (hr : g.Reaches l.modules id) (hv : n₀.values[i]? = some (.scalar (.uid uid t₀) line))
    (hu : uid ≠ nullUid) :
    (∃ n, (l.link g).1.get? id = some n ∧
      n.values[i]? = some (.scalar (.uid uid (((l.link g).2.1.lookup uid).or t₀)) line)) ∧
    (((l.link g).2.1.lookup uid).isSome ↔ ∃ s, g.Declares l.modules s uid) := by
  have hlookup := (link_linker g l).1 uid
  -- the container holds a value, so it is a structure or a list the walks enter
  have hx : id ∈ g.preorder l.modules :=
    Graph.mem_preorder.mpr ⟨hr, n₀, hn, Node.isBranch_of_values hv⟩
  refine ⟨?_, ?_⟩
  · rw [link_graph, hn]
    refine ⟨_, rfl, ?_⟩
    simp only [hx, if_true, Node.values_mapValues_const, List.getElem?_map, hv, Option.map_some,
      relink_uid _ _ _ hu, hlookup]
  · rw [hlookup]
    constructor
    · intro hs
      obtain ⟨s, hs⟩ := Option.isSome_iff_exists.1 hs
      exact ⟨s, Graph.declares_of_firstDeclarer hs⟩
    · rintro ⟨s, hs⟩
      obtain ⟨f, hf⟩ := Graph.firstDeclarer_isSome hs
      simp [hf]

/-- A structure `<R>` that declares `#r` and refers to `#r`. -/
def selfNamed : Graph where
  nodes := #[⟨"<R>", 0, .struct "#r" [("me", .scalar (.uid "#r" none) 0)]⟩]

/-- The first run of a linker over `selfNamed`. -/
def firstLink : Graph × Linker × Except Error Unit := ({ modules := [0] } : Linker).link selfNamed

/-- The linked document with its structure renamed `#q`. -/
def renamedDocument : Graph := firstLink.1.setUid 0 "#q"

/-- The renamed document linked again by the same linker. -/
def renamedRelink : Graph × Linker × Except Error Unit := firstLink.2.1.link renamedDocument

/-- The first run succeeds and links the reference to the structure. -/
theorem firstLink_eq : firstLink =
    (⟨#[⟨"<R>", 0, .struct "#r" [("me", .scalar (.uid "#r" (some 0)) 0)]⟩]⟩,
      { modules := [0], uidMap := [("#r", 0)], faults := [] }, .ok ()) := by
  simp [firstLink, selfNamed, link, mapUids, resolveUids, Graph.walkAll, Graph.unfold,
    Graph.unfoldPairs, Graph.get?, Visited.contains, Visited.insert, Node.isBranch, Graph.size,
    Shape.declarations, Shape.declarationsPairs, Shape.sites, Shape.sitesPairs, declare, lookup,
    resolveSite, Graph.modify, Graph.set, Graph.setTarget, nullUid]

/-- Renaming keeps the link the first run made. -/
theorem renamedDocument_eq : renamedDocument =
    ⟨#[⟨"<R>", 0, .struct "#q" [("me", .scalar (.uid "#r" (some 0)) 0)]⟩]⟩ := by
  simp [renamedDocument, firstLink_eq, Graph.setUid, Graph.modify, Graph.get?, Graph.set]

/-- Linking the renamed document leaves the reference to `#r` linked to the structure, now
`#q`, which the record holds; `#r` is unresolved. -/
theorem renamedRelink_eq : renamedRelink =
    (⟨#[⟨"<R>", 0, .struct "#q" [("me", .scalar (.uid "#r" (some 0)) 0)]⟩]⟩,
      { modules := [0], uidMap := [("#q", 0)], faults := [.unresolvedUid "#r" 0] },
      .error (.link [.unresolvedUid "#r" 0])) := by
  simp [renamedRelink, firstLink_eq, renamedDocument_eq, link, mapUids, resolveUids,
    Graph.walkAll, Graph.unfold, Graph.unfoldPairs, Graph.get?, Visited.contains, Visited.insert,
    Node.isBranch, Graph.size, Shape.declarations, Shape.declarationsPairs, Shape.sites,
    Shape.sitesPairs, declare, lookup, resolveSite, nullUid]

/-- The renamed document, linked by a fresh linker over its structure: the reference to `#r`
keeps its link, as `#r` is not recorded. -/
theorem link_keeps_unrecorded_links_renamed :
    renamedDocument.get? 0 = some ⟨"<R>", 0, .struct "#q" [("me", .scalar (.uid "#r" (some 0)) 0)]⟩ ∧
      renamedDocument.Reaches [0] 0 ∧
      (⟨"<R>", 0, .struct "#q" [("me", .scalar (.uid "#r" (some 0)) 0)]⟩ : Node).values[0]? =
        some (.scalar (.uid "#r" (some 0)) 0) ∧
      "#r" ≠ nullUid ∧
      ((∃ n, (({ modules := [0] } : Linker).link renamedDocument).1.get? 0 = some n ∧
        n.values[0]? = some (.scalar (.uid "#r"
          (((({ modules := [0] } : Linker).link renamedDocument).2.1.lookup "#r").or (some 0))) 0)) ∧
      (((({ modules := [0] } : Linker).link renamedDocument).2.1.lookup "#r").isSome ↔
        ∃ s, renamedDocument.Declares [0] s "#r")) :=
  have hget : renamedDocument.get? 0 =
      some ⟨"<R>", 0, .struct "#q" [("me", .scalar (.uid "#r" (some 0)) 0)]⟩ := by
    rw [renamedDocument_eq]
    rfl
  have hroot : renamedDocument.Reaches [0] 0 := .root (List.mem_singleton_self 0)
  ⟨hget, hroot, rfl, by decide,
    link_keeps_unrecorded_links renamedDocument { modules := [0] } hget hroot rfl (by decide)⟩

/-- **A link outlives the UID it came from.** Linked, renamed `#q` and linked again by the same
linker, the document fails to resolve `#r`, and `#r` is not recorded; yet its reference to `#r`
keeps the link to the structure, which its handle keeps alive. -/
theorem relink_after_rename :
    firstLink.2.2 = .ok () ∧
      renamedRelink.2.2 = .error (.link [.unresolvedUid "#r" 0]) ∧
      renamedRelink.2.1.lookup "#r" = none ∧
      renamedRelink.1.get? 0 = some ⟨"<R>", 0, .struct "#q" [("me", .scalar (.uid "#r" (some 0)) 0)]⟩ ∧
      renamedRelink.1.live [0] 0 = true := by
  rw [renamedRelink_eq]
  refine ⟨by rw [firstLink_eq], rfl, rfl, rfl, ?_⟩
  exact Graph.live_of_held _ (List.mem_singleton_self 0) (by decide)

end Linker

end GraphDoc
