import GraphDoc.Proofs.Places
/-! # Round trips of shared and cyclic documents

A document whose walk reaches only structures again, and those with a UID, is written with a
reference for each structure reached again, in binary as in text. Read back, planted afresh and
linked, the tree rebuilds the document (`Graph.Rebuilds`): a structure for each structure of the
document, the root for the root, each reference and each structure reached again linked to the
structure declaring its UID.

The binary form always reads back (`Graph.ofBinary_rebuilds`). The text reads back when the
document is writable as text (`Graph.TextWritable`): tags, UIDs, keys and scalars the grammar
spells, finite reals, no empty real array (`Graph.ofString_rebuilds`). -/
namespace GraphDoc

namespace Shape

mutual
theorem repeatTags_eq_nil : ∀ {s : Shape},
    (∀ r ∈ s.repeats, ∃ uid pairs, r.2.body = .struct uid pairs) → s.repeatTags = []
  | .struct _ _ _ _ ps, h => repeatTagsPairs_eq_nil h
  | .list _ _ _ ss, h => repeatTagsItems_eq_nil h
  | .again id n, h => by
    obtain ⟨uid, pairs, hb⟩ := h (id, n) (List.mem_singleton_self _)
    simp only [repeatTags]
    rw [show n.body = .struct uid pairs from hb]
  | .scalar .., _ | .leaf .., _ | .missing, _ => rfl

theorem repeatTagsPairs_eq_nil : ∀ {ps : List (String × Shape)},
    (∀ r ∈ repeatsPairs ps, ∃ uid pairs, r.2.body = .struct uid pairs) → repeatTagsPairs ps = []
  | [], _ => rfl
  | (_, s) :: rest, h => by
    simp only [repeatTagsPairs, repeatTags_eq_nil fun r hr => h r (List.mem_append_left _ hr),
      repeatTagsPairs_eq_nil fun r hr => h r (List.mem_append_right _ hr), List.append_nil]

theorem repeatTagsItems_eq_nil : ∀ {ss : List Shape},
    (∀ r ∈ repeatsItems ss, ∃ uid pairs, r.2.body = .struct uid pairs) → repeatTagsItems ss = []
  | [], _ => rfl
  | s :: rest, h => by
    simp only [repeatTagsItems, repeatTags_eq_nil fun r hr => h r (List.mem_append_left _ hr),
      repeatTagsItems_eq_nil fun r hr => h r (List.mem_append_right _ hr), List.append_nil]
end

end Shape

/-! ## Documents text can write -/

/-- Whether text writes the value so that it reads back: a container is written where it is
walked, a scalar must be writable. -/
def Value.writable : Value → Bool
  | .scalar s _ => s.writable
  | .node _ => true

/-- Whether text writes the container so that it reads back: a tag that is absent or a tag
header; for a structure a UID that is `#NULL` or spelled as one, and keys; scalars the grammar
spells; and a real array that is not empty, of finite reals. -/
def Node.writable (n : Node) : Bool :=
  Tree.tagWritable n.tag &&
    match n.body with
    | .struct uid pairs =>
      (uid == nullUid || Scan.isUid uid) && pairs.all fun p => Scan.isKey p.1 && p.2.writable
    | .list items => items.all Value.writable
    | .reals xs => !xs.isEmpty && xs.all Binary64.isFinite
    | .raw _ | .ints _ => true

namespace Graph

/-- The document rooted at `root` is writable as text: its root carries a tag, and every
container it reaches is writable. -/
def TextWritable (g : Graph) (root : NodeId) : Prop :=
  (∃ n, g.get? root = some n ∧ Scan.isTag n.tag = true) ∧
    ∀ x n, g.Reaches [root] x → g.get? x = some n → n.writable = true

end Graph

namespace Tree

theorem writableItems_iff (ts : List Tree) :
    writableItems ts = true ↔ ∀ t ∈ ts, t.writable = true := by
  induction ts with
  | nil => simp [writableItems]
  | cons t ts ih => simp [writableItems, ih]

theorem writablePairs_iff (ps : List (String × Tree)) :
    writablePairs ps = true ↔ ∀ p ∈ ps, Scan.isKey p.1 = true ∧ p.2.writable = true := by
  induction ps with
  | nil => simp [writablePairs]
  | cons p ps ih =>
    obtain ⟨k, t⟩ := p
    simp [writablePairs, ih, and_assoc]

end Tree

theorem Scalar.writable_unlinked (sc : Scalar) : sc.unlinked.writable = sc.writable := by
  cases sc <;> rfl

namespace Shape

theorem writtenItems_of_writtenPairs {used : String → Bool} {ps : List (String × Shape)}
    {ts : List (String × Tree)} (h : writtenPairs used ps = some ts) :
    writtenItems used (ps.map Prod.snd) = some (ts.map Prod.snd) := by
  induction ps generalizing ts with
  | nil =>
    simp only [writtenPairs, Option.some.injEq] at h
    subst h
    rfl
  | cons p ps ih =>
    obtain ⟨k, s⟩ := p
    simp only [writtenPairs, Option.bind_eq_bind, Option.bind_eq_some_iff, Option.pure_def,
      Option.some.injEq] at h
    obtain ⟨t, hs, ts', hrest, rfl⟩ := h
    simp [writtenItems, hs, ih hrest]

end Shape

namespace Graph

variable {g : Graph} {roots : List NodeId} {used : String → Bool}

mutual
/-- **A writable document is written as a writable tree**: what the chunks of its walk read
back as is writable, when each structure reached again, written as a reference to its UID, has
one. -/
theorem Walks.written_writable
    (hwr : ∀ x n, g.Reaches roots x → g.get? x = some n → n.writable = true) :
    ∀ {vis vis' v s}, g.Walks vis v s vis' → g.ValueReaches roots v → v.writable = true →
      (∀ r ∈ s.repeats, ∀ uid pairs, r.2.body = .struct uid pairs → uid ≠ nullUid) →
      ∀ {t}, s.written used = some t → t.writable = true
  | _, _, _, _, .scalar _ sc line, _, hv, _, t, hw => by
    simp only [Shape.written, Option.some.injEq] at hw
    subst hw
    simpa [Tree.writable, Scalar.writable_unlinked, Value.writable] using hv
  | _, _, _, _, .missing .., _, _, _, t, hw => by simp [Shape.written] at hw
  | _, _, _, _, .again _ id ⟨tag, line, body⟩ hn _ _, hr, _, hrep, t, hw => by
    have hnw := hwr id _ (hr id rfl) hn
    cases body with
    | struct uid pairs =>
      -- a structure reached again is written as a reference to its UID, which it has
      have hu := hrep (id, _) (List.mem_singleton_self _) uid pairs rfl
      simp only [Shape.written, Option.some.injEq] at hw
      subst hw
      simp [Node.writable, hu] at hnw
      simp [Tree.writable, Scalar.writable, hnw.2.1]
    | list | raw | ints | reals =>
      simp only [Shape.written, Option.some.injEq] at hw
      subst hw
      simp only [Node.writable, Bool.and_eq_true] at hnw
      simp [Tree.writable, Tree.writableItems, hnw.1]
  | _, _, _, _, .leaf _ id ⟨tag, line, body⟩ hn _, hr, _, _, t, hw => by
    have hnw := hwr id _ (hr id rfl) hn
    cases body <;> simp only [Shape.written, Node.leafTree?, Option.some.injEq, reduceCtorEq] at hw
    all_goals
      subst hw
      simpa [Node.writable, Tree.writable, and_assoc] using hnw
  | _, _, _, _, .struct _ _ id n uid pairs ps hn hb _ hk hl, hr, _, hrep, t, hw => by
    have hnw := hwr id n (hr id rfl) hn
    simp only [Node.writable, hb, Bool.and_eq_true, Bool.or_eq_true, beq_iff_eq,
      List.all_eq_true] at hnw
    obtain ⟨htag, huid, hpairs⟩ := hnw
    simp only [Shape.written] at hw
    obtain ⟨ts, hts, rfl⟩ := Option.map_eq_some_iff.1 hw
    -- the values of the structure are writable, and so is what they are written as
    have hitems := WalksList.written_writable hwr hl
      (fun v hv => valueReaches_values (hr id rfl) hn (by simp [Node.values, hb, hv]))
      (fun v hv => by
        obtain ⟨q, hq, rfl⟩ := List.mem_map.mp hv
        exact (hpairs q hq).2)
      (fun r h => hrep r (by rwa [Shape.repeats, Shape.repeatsPairs_eq]))
      (Shape.writtenItems_of_writtenPairs hts)
    rw [Tree.writableItems_iff] at hitems
    have hkeys : ts.map Prod.fst = pairs.map Prod.fst := by
      rw [Shape.writtenPairs_keys used hts, hk]
    simp only [Tree.writable, Bool.and_eq_true, Bool.or_eq_true, beq_iff_eq]
    refine ⟨⟨htag, ?_⟩, (Tree.writablePairs_iff ts).mpr fun p hp =>
      ⟨?_, hitems _ (List.mem_map_of_mem hp)⟩⟩
    · split
      · exact huid
      · exact .inl rfl
    · obtain ⟨q, hq, hqk⟩ := List.mem_map.mp (hkeys ▸ List.mem_map_of_mem (f := Prod.fst) hp)
      rw [← hqk]
      exact (hpairs q hq).1
  | _, _, _, _, .list _ _ id n items ss hn hb _ hl, hr, _, hrep, t, hw => by
    have hnw := hwr id n (hr id rfl) hn
    simp only [Node.writable, hb, Bool.and_eq_true, List.all_eq_true] at hnw
    simp only [Shape.written] at hw
    obtain ⟨ts, hts, rfl⟩ := Option.map_eq_some_iff.1 hw
    have hitems := WalksList.written_writable hwr hl
      (fun v hv => valueReaches_values (hr id rfl) hn (by simp [Node.values, hb, hv]))
      hnw.2 hrep hts
    simp [Tree.writable, hnw.1, hitems]

theorem WalksList.written_writable
    (hwr : ∀ x n, g.Reaches roots x → g.get? x = some n → n.writable = true) :
    ∀ {vis vis' vs ss}, g.WalksList vis vs ss vis' → (∀ v ∈ vs, g.ValueReaches roots v) →
      (∀ v ∈ vs, v.writable = true) →
      (∀ r ∈ Shape.repeatsItems ss, ∀ uid pairs, r.2.body = .struct uid pairs → uid ≠ nullUid) →
      ∀ {ts}, Shape.writtenItems used ss = some ts → Tree.writableItems ts = true
  | _, _, _, _, .nil _, _, _, _, ts, hw => by
    simp only [Shape.writtenItems, Option.some.injEq] at hw
    subst hw
    rfl
  | _, _, _, _, .cons h₁ h₂, hr, hv, hrep, ts, hw => by
    simp only [Shape.writtenItems, Option.bind_eq_bind, Option.bind_eq_some_iff, Option.pure_def,
      Option.some.injEq] at hw
    obtain ⟨t, hs, ts', hrest, rfl⟩ := hw
    simp only [Tree.writableItems, Bool.and_eq_true]
    exact ⟨Walks.written_writable hwr h₁ (hr _ List.mem_cons_self) (hv _ List.mem_cons_self)
        (fun r h => hrep r (List.mem_append_left _ h)) hs,
      WalksList.written_writable hwr h₂ (fun v h => hr v (List.mem_cons_of_mem _ h))
        (fun v h => hv v (List.mem_cons_of_mem _ h)) (fun r h => hrep r (List.mem_append_right _ h))
        hrest⟩
end

/-! ## Reading back, planting and linking -/

/-- The tree `E`, planted afresh and linked from its root, rebuilds the document rooted at
`root`: linking succeeds, and the linked graph rebuilds the document. -/
def RebuiltBy (g : Graph) (root : NodeId) (E : Tree) : Prop :=
  ((plantRoot {} E).1.link (plantRoot {} E).2).2 = .ok () ∧
    ∃ φ, g.Rebuilds root ((plantRoot {} E).1.link (plantRoot {} E).2).1 (plantRoot {} E).2 φ

/-- What the walk of a document rooted at a structure reads back as is a structure of its tag. -/
theorem written_walk_struct {used : String → Bool} {root : NodeId} {tag : String} {line : Nat}
    {uid : String} {pairs : List (String × Value)} {W : Tree}
    (hroot : g.get? root = some ⟨tag, line, .struct uid pairs⟩)
    (hW : (g.walk {} root).1.written used = some W) : ∃ u ts, W = .struct tag u 0 ts := by
  obtain ⟨ps, hs⟩ := walk_struct hroot
  rw [hs] at hW
  simp only [Shape.written] at hW
  obtain ⟨ts, -, rfl⟩ := Option.map_eq_some_iff.1 hW
  exact ⟨_, ts, rfl⟩

section Rebuilt

variable {root : NodeId} {tag : String} {line : Nat} {uid : String} {pairs : List (String × Value)}
  (hroot : g.get? root = some ⟨tag, line, .struct uid pairs⟩)
  (hrep : ∀ r ∈ (g.walk {} root).1.repeats,
    ∃ uid pairs, r.2.body = .struct uid pairs ∧ uid ≠ nullUid)
  (hdis : g.UidsDistinct [root]) (hres : g.UidsResolved [root])
include hroot hrep hdis hres

/-- **A tree read back rebuilds the document** when, without its lines and links, it is what
the walk of the document reads back as. -/
theorem rebuiltBy_of_written {W E : Tree}
    (hW : (g.walk {} root).1.written (Usage.declares (some (g.usage root))) = some W)
    (hE : E.bare = W) : g.RebuiltBy root E := by
  -- the tree read back is a structure, as the document's root is
  obtain ⟨u, ts, rfl⟩ := written_walk_struct hroot hW
  obtain ⟨line', qs, rfl, -⟩ := Tree.bare_eq_struct hE
  have hcopy := Shape.copy_of_written _ _ (Shape.repeats_struct hrep) (hE ▸ hW)
    (mirrors_walk_plantRoot {} _ _ line' qs)
  exact Copy.rebuilds hcopy ⟨_, uid, pairs, hroot, rfl⟩ hrep hdis hres

/-- **The binary form of a shared or cyclic document reads back as a tree that rebuilds it.** -/
theorem ofBinary_rebuilds (hclosed : g.closed = true) (hfit : g.countsFit = true) :
    ∃ E, Tree.ofBinary ⟨(g.binary root).toArray⟩ = .ok E ∧ g.RebuiltBy root E := by
  obtain ⟨ps, hs⟩ := walk_struct hroot
  obtain ⟨W, hW, hWfit⟩ := (walks_walk (g := g) visitedOk_empty root).written_fits
    (Usage.declares (some (g.usage root))) hclosed hfit
    ⟨rfl, fun id h => by cases h; exact lt_size_of_get? hroot⟩
  exact ⟨W, ofBinary_binaryWith_written (some (g.usage root)) hs hW hWfit,
    rebuiltBy_of_written hroot hrep hdis hres hW (Shape.bare_of_written _ hW)⟩

/-- **The text of a shared or cyclic document writable as text reads back as a tree that
rebuilds it.** -/
theorem ofString_rebuilds (hclosed : g.closed = true) (hfit : g.countsFit = true)
    (hwr : g.TextWritable root) :
    ∃ p, Parsed.ofString (g.text root) = .ok p ∧ g.RebuiltBy root p.root := by
  obtain ⟨ps, hs⟩ := walk_struct hroot
  obtain ⟨W, hW, -⟩ := (walks_walk (g := g) visitedOk_empty root).written_fits
    (Usage.declares (some (g.usage root))) hclosed hfit
    ⟨rfl, fun id h => by cases h; exact lt_size_of_get? hroot⟩
  -- planted afresh, what the walk reads back as is written as the text of the document
  have htext := text_plantRoot_written hs hW (by
    rw [Shape.repeatTags_eq_nil (Shape.repeats_struct hrep)]
    simp)
  have hwW : W.writable = true :=
    (walks_walk visitedOk_empty root).written_writable hwr.2
      (fun id h => by cases h; exact .root (List.mem_singleton_self _)) rfl
      (Shape.repeats_uid_ne_null hrep) hW
  obtain ⟨u, ts, rfl⟩ := written_walk_struct hroot hW
  obtain ⟨n, hn, htag⟩ := hwr.1
  rw [hroot] at hn
  cases hn
  -- and that text reads back as it, up to lines and links
  obtain ⟨p, hp, -, hbare⟩ := ofString_textWith_usage (o := {})
    (some ((plantRoot {} _).1.usage (plantRoot {} _).2)) (mirrors_walk_plantRoot {} tag _ 0 ts)
    htag hwW (by decide)
  rw [declares_usage_plantRoot_written hs hW, Shape.bare_of_written _ hW,
    Shape.dropUids_of_written _ hW] at hbare
  refine ⟨p, ?_, rebuiltBy_of_written hroot hrep hdis hres hW hbare⟩
  rw [← htext]
  exact hp

end Rebuilt

/-- **Export, import and link rebuild the sharing and cycles of a document.** Take a document
rooted at a structure, whose containers hold only indices of containers and whose strings and
counts fit, that holds no list at two places, gives a UID to each structure it holds at two
places, and whose UIDs are distinct and resolved. Its binary form reads back as a tree which,
planted afresh and linked, rebuilds it: linking succeeds, each structure of the document has one
copy, the root's is the root, and each reference and each structure reached again is linked to
the copy of the structure declaring its UID. When the document is writable as text, its text
reads back as such a tree too. -/
theorem export_import_link_rebuilds {root : NodeId} {tag : String} {line : Nat} {uid : String}
    {pairs : List (String × Value)} (hroot : g.get? root = some ⟨tag, line, .struct uid pairs⟩)
    (hclosed : g.closed = true) (hfit : g.countsFit = true)
    (hlists : ∀ x n items, g.get? x = some n → n.body = .list items → ¬ g.HeldTwice root x)
    (hshared : ∀ x n u ps, g.get? x = some n → n.body = .struct u ps → g.HeldTwice root x →
      u ≠ nullUid)
    (hdis : g.UidsDistinct [root]) (hres : g.UidsResolved [root]) :
    (∃ E, Tree.ofBinary ⟨(g.binary root).toArray⟩ = .ok E ∧ g.RebuiltBy root E) ∧
    (g.TextWritable root →
      ∃ p, Parsed.ofString (g.text root) = .ok p ∧ g.RebuiltBy root p.root) := by
  -- the walk reaches again only structures, each with a UID: it holds them at two places
  have hrep : ∀ r ∈ (g.walk {} root).1.repeats,
      ∃ uid pairs, r.2.body = .struct uid pairs ∧ uid ≠ nullUid := by
    intro r hr
    have htwice := heldTwice_of_repeats hr
    obtain ⟨hget, hbr, -⟩ := (walks_walk visitedOk_empty root).repeats_entered r hr
    obtain ⟨x, ⟨t, l, body⟩⟩ := r
    cases body with
    | struct u ps => exact ⟨u, ps, rfl, hshared x _ u ps hget rfl htwice⟩
    | list items => exact absurd htwice (hlists x _ items hget rfl)
    | raw | ints | reals => simp [Node.isBranch] at hbr
  exact ⟨ofBinary_rebuilds hroot hrep hdis hres hclosed hfit,
    ofString_rebuilds hroot hrep hdis hres hclosed hfit⟩

/-- A document that shares a structure between two keys, refers to it by its UID, and closes a
cycle through a key that leads back to its root. -/
def sharedCycle : Graph where
  nodes := #[⟨"<Doc>", 1, .struct "#D" [("a", .node 1), ("b", .node 1), ("up", .node 0),
      ("r", .scalar (.uid "#S" none) 5)]⟩,
    ⟨"<S>", 2, .struct "#S" [("x", .scalar (.int 1) 3)]⟩]

theorem sharedCycle_get? {x : NodeId} {n : Node} (h : sharedCycle.get? x = some n) :
    (x = 0 ∧ n = ⟨"<Doc>", 1, .struct "#D" [("a", .node 1), ("b", .node 1), ("up", .node 0),
      ("r", .scalar (.uid "#S" none) 5)]⟩) ∨
    (x = 1 ∧ n = ⟨"<S>", 2, .struct "#S" [("x", .scalar (.int 1) 3)]⟩) := by
  rcases x with _ | _ | x <;> simp [sharedCycle, get?] at h <;> simp [h]

/-- The shared and cyclic document meets every condition, and is rebuilt from its binary form
and from its text. -/
theorem export_import_link_rebuilds_sharedCycle :
    sharedCycle.closed = true ∧ sharedCycle.countsFit = true ∧
    (∀ x n items, sharedCycle.get? x = some n → n.body = .list items →
      ¬ sharedCycle.HeldTwice 0 x) ∧
    (∀ x n u ps, sharedCycle.get? x = some n → n.body = .struct u ps →
      sharedCycle.HeldTwice 0 x → u ≠ nullUid) ∧
    sharedCycle.UidsDistinct [0] ∧ sharedCycle.UidsResolved [0] ∧ sharedCycle.TextWritable 0 ∧
    (∃ E, Tree.ofBinary ⟨(sharedCycle.binary 0).toArray⟩ = .ok E ∧ sharedCycle.RebuiltBy 0 E) ∧
    (sharedCycle.TextWritable 0 → ∃ p, Parsed.ofString (sharedCycle.text 0) = .ok p ∧
      sharedCycle.RebuiltBy 0 p.root) := by
  have hclosed : sharedCycle.closed = true := by decide +kernel
  have hfit : sharedCycle.countsFit = true := by decide +kernel
  have hlists : ∀ x n items, sharedCycle.get? x = some n → n.body = .list items →
      ¬ sharedCycle.HeldTwice 0 x := by
    intro x n items hn hb
    rcases sharedCycle_get? hn with ⟨-, rfl⟩ | ⟨-, rfl⟩ <;> cases hb
  have hshared : ∀ x n u ps, sharedCycle.get? x = some n → n.body = .struct u ps →
      sharedCycle.HeldTwice 0 x → u ≠ nullUid := by
    intro x n u ps hn hb _
    rcases sharedCycle_get? hn with ⟨-, rfl⟩ | ⟨-, rfl⟩ <;> cases hb <;> decide
  have hdis : sharedCycle.UidsDistinct [0] := by
    rintro s s' u ⟨-, -, n, ps, hn, hb⟩ ⟨-, -, n', ps', hn', hb'⟩
    rcases sharedCycle_get? hn with ⟨rfl, rfl⟩ | ⟨rfl, rfl⟩ <;>
      rcases sharedCycle_get? hn' with ⟨rfl, rfl⟩ | ⟨rfl, rfl⟩ <;>
      simp only [Body.struct.injEq] at hb hb'
    · rfl
    · exact absurd (hb.1.trans hb'.1.symm) (by decide)
    · exact absurd (hb.1.trans hb'.1.symm) (by decide)
    · rfl
  have hres : sharedCycle.UidsResolved [0] := by
    rintro u ⟨id, n, t, l, -, hn, hv, hu⟩
    -- the one reference names `#S`, the UID of the shared structure
    have hS : u = "#S" := by
      rcases sharedCycle_get? hn with ⟨-, rfl⟩ | ⟨-, rfl⟩ <;> simp [Node.values] at hv
      exact hv.1.1
    subst hS
    exact ⟨1, .child (.root (List.mem_singleton_self _)) rfl (by decide), by decide, _, _, rfl, rfl⟩
  have hwr : sharedCycle.TextWritable 0 := by
    refine ⟨⟨_, rfl, by decide +kernel⟩, fun x n _ hn => ?_⟩
    rcases sharedCycle_get? hn with ⟨-, rfl⟩ | ⟨-, rfl⟩ <;> decide +kernel
  exact ⟨hclosed, hfit, hlists, hshared, hdis, hres, hwr,
    export_import_link_rebuilds rfl hclosed hfit hlists hshared hdis hres⟩

end Graph

end GraphDoc
