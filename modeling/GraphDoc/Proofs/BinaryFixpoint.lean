import GraphDoc.Proofs.Flatten
/-! # The binary form is a fixpoint

Reading a document back from its binary form flattens it into a tree: a structure reached
again becomes a reference to its UID, a list reached again an empty list of its tag. Those are
exactly the chunks the binary writer wrote for the repeats, so writing the tree read back gives
the same bytes again, on every document, with any sharing and cycles (`Graph.binary_fixpoint`).
Unlike text, binary keeps the tag of a list reached again, so here no document is left out.

* The chunks of a flattened walk are the chunks of the walk (`Shape.Flattened.chunk_eq`): the
  UID of a structure is kept by the flattening exactly where the writer declares it.
-/
namespace GraphDoc

namespace Wire

variable (used : String → Bool)

/-- The chunks of pairs depend on their keys and the chunks of their values only. -/
theorem pairChunks_congr : ∀ {ps ps' : List (String × Shape)},
    ps'.map Prod.fst = ps.map Prod.fst →
    List.Forall₂ (fun s s' => chunk used s' = chunk used s) (ps.map Prod.snd) (ps'.map Prod.snd) →
    pairChunks used ps' = pairChunks used ps
  | [], [], _, _ => rfl
  | (k, s) :: ps, (k', s') :: ps', hk, h => by
    simp only [List.map_cons, List.cons.injEq] at hk
    obtain ⟨rfl, hk⟩ := hk
    cases h with
    | cons h₁ h₂ => simp only [pairChunks, h₁, pairChunks_congr hk h₂]
  | [], _ :: _, hk, _ | _ :: _, [], hk, _ => by simp at hk

/-- The chunks of items depend on the chunks of the items only. -/
theorem itemChunks_congr {ss ss' : List Shape}
    (h : List.Forall₂ (fun s s' => chunk used s' = chunk used s) ss ss') :
    itemChunks used ss' = itemChunks used ss := by
  induction h with
  | nil => rfl
  | cons h₁ _ ih => simp only [itemChunks, h₁, ih]

/-- A reference is written by its name alone, linked or not. -/
@[simp] theorem scalarChunk_unlinked (sc : Scalar) : scalarChunk sc.unlinked = scalarChunk sc := by
  cases sc <;> rfl

end Wire

namespace Shape

variable {used : String → Bool}

mutual
/-- **A flattened walk is written as the walk**, chunk for chunk: a structure reached again and
the reference it became are both a UID chunk of its UID, a list reached again and the empty list
it became are both a list chunk of its tag with no items, and a structure keeps its UID in the
flattening exactly where the writer declares it. -/
theorem Flattened.chunk_eq : ∀ {s s' : Shape}, Flattened used s s' →
    Wire.chunk used s' = Wire.chunk used s
  | _, _, .scalar sc _ => Wire.scalarChunk_unlinked sc
  | _, _, .struct _ _ tag uid _ ps ps' hk hl => by
    have hlen : ps'.length = ps.length := by simpa using congrArg List.length hk
    simp only [Wire.chunk, hlen, Wire.pairChunks_congr used hk (FlattenedList.chunk_eq hl)]
    -- the UID the flattening keeps is the UID the writer writes
    by_cases hu : (uid != nullUid && used uid) = true
    · simp only [hu, if_true]
    · simp only [hu, if_false, bne_self_eq_false, Bool.false_and, Bool.false_eq_true]
  | _, _, .list _ _ tag _ ss ss' hl => by
    have hitems := FlattenedList.chunk_eq hl
    simp only [Wire.chunk, hitems.length_eq, Wire.itemChunks_congr used hitems]
  | _, _, .leaf _ _ _ _ => rfl
  | _, _, .againStruct .. => rfl
  | _, _, .againOther _ _ ⟨tag, line, body⟩ hn => by
    cases body with
    | struct uid pairs => exact absurd rfl (hn uid pairs)
    | list | raw | ints | reals => simp [Wire.chunk, Wire.itemChunks]

theorem FlattenedList.chunk_eq : ∀ {ss ss' : List Shape}, FlattenedList used ss ss' →
    List.Forall₂ (fun s s' => Wire.chunk used s' = Wire.chunk used s) ss ss'
  | _, _, .nil => .nil
  | _, _, .cons h₁ h₂ => .cons (Flattened.chunk_eq h₁) (FlattenedList.chunk_eq h₂)
end

end Shape

namespace Graph

variable {g : Graph} {root : NodeId}

/-- The tree the walk of a document reads back as, planted afresh, is written in binary as the
document, by any writer that declares the same UIDs. -/
theorem binaryWith_plantRoot_written {usage usage' : Option Usage} {id : NodeId}
    {tag uid : String} {line : Nat} {ps : List (String × Shape)} {t : Tree}
    (hs : (g.walk {} root).1 = .struct id tag uid line ps)
    (hw : (g.walk {} root).1.written (Usage.declares usage) = some t)
    (hdecl : Usage.declares usage' = Usage.declares usage) :
    (plantRoot {} t).1.binaryWith usage' (plantRoot {} t).2 = g.binaryWith usage root := by
  rw [binaryWith_eq, binaryWith_eq, hdecl, (flattened_plantRoot_written hs hw).chunk_eq]

/-- The binary form of a sound document rooted at a structure reads back, as the tree its walk
is written as, and that tree planted afresh is written as the same bytes by any writer that
declares, on it, the UIDs the first writer declares on the document. -/
theorem binaryWith_reads_back {usage : Option Usage} {tag : String} {line : Nat} {uid : String}
    {pairs : List (String × Value)}
    (hroot : g.get? root = some ⟨tag, line, .struct uid pairs⟩)
    (hclosed : g.closed = true) (hfit : g.countsFit = true)
    (usage' : Tree → Option Usage)
    (hdecl : ∀ t, (g.walk {} root).1.written (Usage.declares usage) = some t →
      Usage.declares (usage' t) = Usage.declares usage) :
    ∃ t, Tree.ofBinary ⟨(g.binaryWith usage root).toArray⟩ = .ok t ∧
      (plantRoot {} t).1.binaryWith (usage' t) (plantRoot {} t).2 = g.binaryWith usage root := by
  obtain ⟨ps, hs⟩ := walk_struct hroot
  obtain ⟨t, hw, htf⟩ := (walks_walk (g := g) visitedOk_empty root).written_fits
    (Usage.declares usage) hclosed hfit ⟨rfl, fun id h => by cases h; exact lt_size_of_get? hroot⟩
  exact ⟨t, ofBinary_binaryWith_written usage hs hw htf,
    binaryWith_plantRoot_written hs hw (hdecl t hw)⟩

/-- **Binary export is a fixpoint after one round.** A document rooted at a structure, with any
sharing and cycles through structures and lists, whose containers hold only indices of
containers and whose strings and counts fit, reads back from its binary form; the tree read
back, planted afresh, is written as the same bytes, both declaring only the UIDs referenced and
declaring every UID. -/
theorem binary_fixpoint {tag : String} {line : Nat} {uid : String} {pairs : List (String × Value)}
    (hroot : g.get? root = some ⟨tag, line, .struct uid pairs⟩)
    (hclosed : g.closed = true) (hfit : g.countsFit = true) :
    (∃ t, Tree.ofBinary ⟨(g.binary root).toArray⟩ = .ok t ∧
      (plantRoot {} t).1.binary (plantRoot {} t).2 = g.binary root) ∧
    ∃ t, Tree.ofBinary ⟨(g.binaryWith none root).toArray⟩ = .ok t ∧
      (plantRoot {} t).1.binaryWith none (plantRoot {} t).2 = g.binaryWith none root := by
  constructor
  · -- the usage of the tree read back declares the UIDs the usage of the document declares
    obtain ⟨ps, hs⟩ := walk_struct hroot
    exact binaryWith_reads_back hroot hclosed hfit (fun t => some ((plantRoot {} t).1.usage
      (plantRoot {} t).2)) fun t hw => declares_usage_plantRoot_written hs hw
  · exact binaryWith_reads_back hroot hclosed hfit (fun _ => none) fun _ _ => rfl

/-- A root that holds a structure twice, a reference to it, a key leading back to itself, and a
list tagged `<Loop>` holding itself and a real array. -/
def loopDocument : Graph where
  nodes := #[⟨"<Doc>", 1, .struct "#D" [("a", .node 1), ("b", .node 1), ("l", .node 2),
      ("self", .node 0), ("r", .scalar (.uid "#S" none) 6)]⟩,
    ⟨"<S>", 2, .struct "#S" [("x", .scalar (.int 1) 3)]⟩,
    ⟨"<Loop>", 4, .list [.node 2, .node 3, .node 1]⟩,
    ⟨"", 5, .reals [⟨0x8000000000000000⟩, ⟨0x3FB999999999999A⟩]⟩]

/-- The looping document is written in binary as the same bytes after one round. -/
theorem binary_fixpoint_loop :
    loopDocument.get? 0 = some ⟨"<Doc>", 1, .struct "#D" [("a", .node 1), ("b", .node 1),
      ("l", .node 2), ("self", .node 0), ("r", .scalar (.uid "#S" none) 6)]⟩ ∧
    loopDocument.closed = true ∧ loopDocument.countsFit = true ∧
    (∃ t, Tree.ofBinary ⟨(loopDocument.binary 0).toArray⟩ = .ok t ∧
      (plantRoot {} t).1.binary (plantRoot {} t).2 = loopDocument.binary 0) ∧
    ∃ t, Tree.ofBinary ⟨(loopDocument.binaryWith none 0).toArray⟩ = .ok t ∧
      (plantRoot {} t).1.binaryWith none (plantRoot {} t).2 = loopDocument.binaryWith none 0 :=
  ⟨rfl, by decide +kernel, by decide +kernel,
    binary_fixpoint rfl (by decide +kernel) (by decide +kernel)⟩

end Graph

end GraphDoc
