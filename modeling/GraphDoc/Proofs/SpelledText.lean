import GraphDoc.Proofs.TextFixpoint
/-! # The text of any spelled document reads

Text writes a document with any sharing and cycles so that it stays inside the grammar: a
structure reached again is written as its bare UID, any other container reached again as `[ ]`,
a real that is not finite as `0.0` and an empty real array as `( )`. So the text of a document
rooted at a tagged structure reads, whatever UIDs it declares, as long as every container the
root reaches is there and spells its tag, UID, keys and scalars as the grammar does
(`Graph.Spellable`): `Graph.textWith_reads`.

What it reads is the tree the walk spells (`Shape.spelled`). That tree, planted afresh, is
walked as a tree written with the text of the document (`Shape.shape_eq_of_spelled`), so the
round trip of trees applies to it.
-/
namespace GraphDoc

/-! ## Documents the grammar spells -/

namespace Scalar

/-- Whether the grammar spells the scalar: an identifier that is a word, a UID reference
`#X`. Every real is spelled, as `0.0` when it is not finite. -/
def spellable : Scalar → Bool
  | .ident s => Scan.isWord s
  | .uid name _ => Scan.isUid name
  | _ => true

theorem writable_finiteOrZero {sc : Scalar} (h : sc.spellable = true) :
    sc.finiteOrZero.writable = true := by
  cases sc with
  | real x => exact Binary64.isFinite_finiteOrZero x
  | bool | int | str => rfl
  | ident | uid => exact h

end Scalar

namespace Value

/-- A scalar the grammar spells; a container is checked on its own. -/
def spellable : Value → Bool
  | .scalar s _ => s.spellable
  | .node _ => true

end Value

namespace Node

/-- Whether the grammar spells what text writes of the container itself: its tag, its UID
when it is not `#NULL`, its keys and its scalars. -/
def spellable (n : Node) : Bool :=
  Tree.tagWritable n.tag &&
    match n.body with
    | .struct uid pairs =>
      (uid == nullUid || Scan.isUid uid) && pairs.all fun p => Scan.isKey p.1 && p.2.spellable
    | .list items => items.all Value.spellable
    | _ => true

/-- The values of a spelled container are spelled. -/
theorem spellable_of_mem_values {n : Node} (hn : n.spellable = true) {v : Value}
    (hv : v ∈ n.values) : v.spellable = true := by
  obtain ⟨tag, line, body⟩ := n
  cases body with
  | struct uid pairs =>
    simp only [spellable, Bool.and_eq_true, List.all_eq_true] at hn
    obtain ⟨k, hk⟩ : ∃ k, (k, v) ∈ pairs := by simpa [values] using hv
    exact (hn.2.2 (k, v) hk).2
  | list items =>
    simp only [spellable, Bool.and_eq_true, List.all_eq_true] at hn
    exact hn.2 v (by simpa [values] using hv)
  | raw | ints | reals => simp [values] at hv

end Node

namespace Graph

/-- Every container reachable from `roots` is there, and spelled by the grammar. -/
def Spellable (g : Graph) (roots : List NodeId) : Prop :=
  ∀ id, g.Reaches roots id → ∃ n, g.get? id = some n ∧ n.spellable = true

section Spellable

variable {g : Graph} {roots : List NodeId} (hg : g.Spellable roots) {id : NodeId}
include hg

theorem Spellable.get?_ne_none (hid : g.Reaches roots id) : g.get? id ≠ none := by
  obtain ⟨n, hn, -⟩ := hg id hid
  simp [hn]

theorem Spellable.spellable {n : Node} (hid : g.Reaches roots id) (hn : g.get? id = some n) :
    n.spellable = true := by
  obtain ⟨n', hn', hsp⟩ := hg id hid
  rw [hn] at hn'
  cases hn'
  exact hsp

/-- The values of a reachable container of a spellable graph are reachable and spelled. -/
theorem Spellable.values {n : Node} (hid : g.Reaches roots id) (hn : g.get? id = some n)
    {v : Value} (hv : v ∈ n.values) : g.ValueReaches roots v ∧ v.spellable = true :=
  ⟨valueReaches_values hid hn hv, Node.spellable_of_mem_values (hg.spellable hid hn) hv⟩

end Spellable

/-- A graph whose containers hold only indices of containers, and all spelled, is spellable
from any containers. -/
theorem spellable_of_closed {g : Graph} {roots : List NodeId} (hcl : g.closed = true)
    (hs : g.nodes.all Node.spellable = true) (hr : ∀ id ∈ roots, id < g.size) :
    g.Spellable roots := by
  intro id hid
  have hlt : id < g.size := by
    induction hid with
    | root h => exact hr _ h
    | child _ hn hc =>
      have hcs := Array.all_eq_true_iff_forall_mem.1 hcl _ (mem_nodes_of_get? hn)
      simpa using List.all_eq_true.1 hcs _ hc
  refine ⟨g.nodes[id], Array.getElem?_eq_getElem hlt, ?_⟩
  exact Array.all_eq_true_iff_forall_mem.1 hs _ (Array.getElem_mem hlt)

end Graph

/-! ## The tree the text of a walk spells -/

namespace Shape

mutual
/-- The tree the text of a walk spells: a real that is not finite as positive zero, which is
how it is written; an empty real array as an empty integer array, both written `( )`; a
structure reached again as a reference to its UID, and any other container reached again as an
empty untagged list, as the writer writes them. `none` when the walk met a missing container,
of which the writer writes nothing. -/
def spelled : Shape → Option Tree
  | .scalar s line => some (.scalar s.finiteOrZero line)
  | .struct _ tag uid line pairs => (spelledPairs pairs).map (.struct tag uid line)
  | .list _ tag line items => (spelledItems items).map (.list tag line)
  | .leaf _ n =>
    match n.body with
    | .raw text => some (.raw n.tag n.line text)
    | .ints vs => some (.ints n.tag n.line vs)
    | .reals [] => some (.ints n.tag n.line [])
    | .reals xs => some (.reals n.tag n.line (xs.map Binary64.finiteOrZero))
    | _ => none
  | .again _ n =>
    match n.body with
    | .struct uid _ => some (.scalar (.uid uid none) 0)
    | _ => some (.list "" 0 [])
  | .missing => none

/-- The pairs the text of pairs spells. -/
def spelledPairs : List (String × Shape) → Option (List (String × Tree))
  | [] => some []
  | (k, s) :: rest => do
    let t ← spelled s
    let ts ← spelledPairs rest
    return (k, t) :: ts

/-- The items the text of items spells. -/
def spelledItems : List Shape → Option (List Tree)
  | [] => some []
  | s :: rest => do
    let t ← spelled s
    let ts ← spelledItems rest
    return t :: ts
end

theorem spelledPairs_keys : ∀ {ps : List (String × Shape)} {ts : List (String × Tree)},
    spelledPairs ps = some ts → ts.map Prod.fst = ps.map Prod.fst
  | [], ts, h => by simp only [spelledPairs, Option.some.injEq] at h; simp [← h]
  | (k, s) :: rest, ts, h => by
    simp only [spelledPairs, Option.bind_eq_bind, Option.bind_eq_some_iff, Option.pure_def,
      Option.some.injEq] at h
    obtain ⟨t, -, ts', hrest, rfl⟩ := h
    simp [spelledPairs_keys hrest]

/-- A structure entered spells a structure with the same tag, UID and line. -/
theorem spelled_struct {id : NodeId} {tag uid : String} {line : Nat} {ps : List (String × Shape)}
    {t : Tree} (h : (Shape.struct id tag uid line ps).spelled = some t) :
    ∃ ts, spelledPairs ps = some ts ∧ t = .struct tag uid line ts := by
  simp only [spelled] at h
  obtain ⟨ts, hts, rfl⟩ := Option.map_eq_some_iff.1 h
  exact ⟨ts, hts, rfl⟩

/-- Pairs whose keys are keys and whose values spell writable trees spell writable pairs. -/
theorem spelledPairs_writable : ∀ (ps : List (String × Shape)),
    (∀ p ∈ ps, Scan.isKey p.1 = true ∧ ∃ t, p.2.spelled = some t ∧ t.writable = true) →
    ∃ ts, spelledPairs ps = some ts ∧ Tree.writablePairs ts = true
  | [], _ => ⟨[], rfl, rfl⟩
  | (k, s) :: rest, h => by
    obtain ⟨hk, t, ht, htw⟩ := h (k, s) List.mem_cons_self
    obtain ⟨ts, hts, htsw⟩ := spelledPairs_writable rest fun p hp => h p (List.mem_cons_of_mem _ hp)
    exact ⟨(k, t) :: ts, by simp [spelledPairs, ht, hts], by simp [Tree.writablePairs, hk, htw, htsw]⟩

/-- Items that each spell a writable tree spell writable items. -/
theorem spelledItems_writable : ∀ (ss : List Shape),
    (∀ s ∈ ss, ∃ t, s.spelled = some t ∧ t.writable = true) →
    ∃ ts, spelledItems ss = some ts ∧ Tree.writableItems ts = true
  | [], _ => ⟨[], rfl, rfl⟩
  | s :: rest, h => by
    obtain ⟨t, ht, htw⟩ := h s List.mem_cons_self
    obtain ⟨ts, hts, htsw⟩ := spelledItems_writable rest fun x hx => h x (List.mem_cons_of_mem _ hx)
    exact ⟨t :: ts, by simp [spelledItems, ht, hts], by simp [Tree.writableItems, htw, htsw]⟩

variable (o : TextOptions) (used : String → Bool)

mutual
/-- **A walk is written as the tree it spells**: any walk of that tree, as a tree, is written
with the same text. -/
theorem shape_eq_of_spelled : ∀ (s : Shape) {t : Tree} {s' : Shape}, s.spelled = some t →
    s'.Mirrors t → ∀ d, TextWrite.shape o used d s' = TextWrite.shape o used d s
  | .scalar sc line, t, s', ht, hm, d => by
    simp only [spelled, Option.some.injEq] at ht
    subst ht
    cases hm
    exact TextWrite.scalar_finiteOrZero sc
  | .struct id tag uid line ps, t, s', ht, hm, d => by
    obtain ⟨ts, hts, rfl⟩ := spelled_struct ht
    cases hm with
    | struct id' _ _ _ ps' _ hkeys hl =>
      have htext := forall₂_shape_of_spelledPairs ps hts hl
      simp only [TextWrite.shape, TextWrite.pairsText_congr o used d
        (hkeys.trans (spelledPairs_keys hts)) (htext.imp fun _ _ h => h (d + 1))]
  | .list id tag line ss, t, s', ht, hm, d => by
    simp only [spelled] at ht
    obtain ⟨ts, hts, rfl⟩ := Option.map_eq_some_iff.1 ht
    cases hm with
    | list id' _ _ ss' _ hl =>
      have htext := forall₂_shape_of_spelledItems ss hts hl
      have hempty : ss'.isEmpty = ss.isEmpty := by cases htext <;> rfl
      simp only [TextWrite.shape, hempty,
        TextWrite.itemsText_congr o used d (htext.imp fun _ _ h => h (d + 1))]
  | .leaf id ⟨tag, line, body⟩, t, s', ht, hm, d => by
    cases body with
    | struct | list => simp [spelled] at ht
    | raw text | ints vs =>
      simp only [spelled, Option.some.injEq] at ht
      subst ht
      cases hm
      rfl
    | reals xs =>
      -- an empty real array is spelled as the empty integer array, also written `( )`
      cases xs with
      | nil =>
        simp only [spelled, Option.some.injEq] at ht
        subst ht
        cases hm
        rfl
      | cons x xs =>
        simp only [spelled, Option.some.injEq] at ht
        subst ht
        cases hm
        simp [TextWrite.shape, Function.comp_def]
  | .again id ⟨tag, line, body⟩, t, s', ht, hm, d => by
    cases body with
    | struct uid pairs =>
      simp only [spelled, Option.some.injEq] at ht
      subst ht
      cases hm
      rfl
    | list | raw | ints | reals =>
      simp only [spelled, Option.some.injEq] at ht
      subst ht
      cases hm with
      | list id' _ _ ss' _ hl =>
        cases hl
        rfl
  | .missing, t, s', ht, _, _ => by simp [spelled] at ht

theorem forall₂_shape_of_spelledPairs : ∀ (ps : List (String × Shape))
    {ts : List (String × Tree)} {ss' : List Shape}, spelledPairs ps = some ts →
    MirrorsList ss' (ts.map Prod.snd) →
    List.Forall₂ (fun s s' => ∀ d, TextWrite.shape o used d s' = TextWrite.shape o used d s)
      (ps.map Prod.snd) ss'
  | [], ts, ss', ht, hm => by
    simp only [spelledPairs, Option.some.injEq] at ht
    subst ht
    cases hm
    exact .nil
  | (k, s) :: rest, ts, ss', ht, hm => by
    simp only [spelledPairs, Option.bind_eq_bind, Option.bind_eq_some_iff, Option.pure_def,
      Option.some.injEq] at ht
    obtain ⟨t, hs, ts', hrest, rfl⟩ := ht
    cases hm with
    | cons h₁ h₂ =>
      exact .cons (shape_eq_of_spelled s hs h₁) (forall₂_shape_of_spelledPairs rest hrest h₂)

theorem forall₂_shape_of_spelledItems : ∀ (ss : List Shape) {ts : List Tree} {ss' : List Shape},
    spelledItems ss = some ts → MirrorsList ss' ts →
    List.Forall₂ (fun s s' => ∀ d, TextWrite.shape o used d s' = TextWrite.shape o used d s) ss ss'
  | [], ts, ss', ht, hm => by
    simp only [spelledItems, Option.some.injEq] at ht
    subst ht
    cases hm
    exact .nil
  | s :: rest, ts, ss', ht, hm => by
    simp only [spelledItems, Option.bind_eq_bind, Option.bind_eq_some_iff, Option.pure_def,
      Option.some.injEq] at ht
    obtain ⟨t, hs, ts', hrest, rfl⟩ := ht
    cases hm with
    | cons h₁ h₂ =>
      exact .cons (shape_eq_of_spelled s hs h₁) (forall₂_shape_of_spelledItems rest hrest h₂)
end

end Shape

/-! ## Spelled documents spell writable trees -/

namespace Graph

variable {g : Graph} {roots : List NodeId}

mutual
/-- **The walk of a spelled document spells a writable tree**: no container is missing, and
every tag, UID, key and scalar it writes is spelled by the grammar. -/
theorem Walks.spelled_writable (hg : g.Spellable roots) :
    ∀ {vis vis' v s}, g.Walks vis v s vis' → g.ValueReaches roots v → v.spellable = true →
      ∃ t, s.spelled = some t ∧ t.writable = true
  | _, _, _, _, .scalar _ sc line, _, hv => ⟨_, rfl, Scalar.writable_finiteOrZero hv⟩
  | _, _, _, _, .missing _ id hn, hr, _ => absurd hn (hg.get?_ne_none (hr id rfl))
  | _, _, _, _, .again _ id ⟨tag, line, body⟩ hn _ _, hr, _ => by
    have hsp := hg.spellable (hr id rfl) hn
    cases body with
    | struct uid pairs =>
      -- the bare UID is `#NULL` or a UID the grammar spells, and `#NULL` is one
      simp only [Node.spellable, Bool.and_eq_true] at hsp
      refine ⟨_, rfl, ?_⟩
      simp only [Tree.writable, Scalar.writable]
      rcases Bool.or_eq_true_iff.1 hsp.2.1 with h | h
      · rw [beq_iff_eq.1 h]
        decide
      · exact h
    | list | raw | ints | reals => exact ⟨_, rfl, rfl⟩
  | _, _, _, _, .leaf _ id ⟨tag, line, body⟩ hn hb, hr, _ => by
    have hsp := hg.spellable (hr id rfl) hn
    simp only [Node.spellable, Bool.and_eq_true] at hsp
    cases body with
    | struct | list => simp [Node.isBranch] at hb
    | raw | ints => exact ⟨_, rfl, by simp only [Tree.writable, hsp.1]⟩
    | reals xs =>
      cases xs with
      | nil => exact ⟨_, rfl, by simp only [Tree.writable, hsp.1]⟩
      | cons x xs =>
        refine ⟨_, rfl, ?_⟩
        simp [Tree.writable, hsp.1, Binary64.isFinite_finiteOrZero]
  | _, _, _, _, .struct _ _ id n uid pairs ps hn hb _ hkeys hl, hr, _ => by
    have hid := hr id rfl
    have hvals := WalksList.spelled_writable hg hl fun v hv =>
      hg.values hid hn (by simpa [Node.values, hb] using hv)
    have hsp := hg.spellable hid hn
    obtain ⟨tag, line, body⟩ := n
    simp only at hb
    subst hb
    simp only [Node.spellable, Bool.and_eq_true, List.all_eq_true] at hsp
    obtain ⟨htag, huid, hps⟩ := hsp
    -- a key of the walk is a key of the structure, so the parser takes it as a key
    have hkey : ∀ p ∈ ps, Scan.isKey p.1 = true := fun p hp => by
      obtain ⟨q, hq, hqk⟩ := List.mem_map.1 (hkeys ▸ List.mem_map_of_mem hp : p.1 ∈ pairs.map Prod.fst)
      exact hqk ▸ (hps q hq).1
    obtain ⟨ts, hts, htsw⟩ := Shape.spelledPairs_writable ps fun p hp =>
      ⟨hkey p hp, hvals p.2 (List.mem_map_of_mem hp)⟩
    refine ⟨.struct tag uid line ts, by simp only [Shape.spelled, hts, Option.map_some], ?_⟩
    simp only [Tree.writable, htag, huid, htsw, Bool.and_self]
  | _, _, _, _, .list _ _ id n items ss hn hb _ hl, hr, _ => by
    have hid := hr id rfl
    have hitems := WalksList.spelled_writable hg hl fun v hv =>
      hg.values hid hn (by simpa [Node.values, hb] using hv)
    obtain ⟨ts, hts, htsw⟩ := Shape.spelledItems_writable ss hitems
    refine ⟨.list n.tag n.line ts, by simp only [Shape.spelled, hts, Option.map_some], ?_⟩
    have hsp := hg.spellable hid hn
    simp only [Node.spellable, Bool.and_eq_true] at hsp
    simp only [Tree.writable, hsp.1, htsw, Bool.and_self]

theorem WalksList.spelled_writable (hg : g.Spellable roots) :
    ∀ {vis vis' vs ss}, g.WalksList vis vs ss vis' →
      (∀ v ∈ vs, g.ValueReaches roots v ∧ v.spellable = true) →
      ∀ s ∈ ss, ∃ t, s.spelled = some t ∧ t.writable = true
  | _, _, _, _, .nil _, _ => by simp
  | _, _, _, _, .cons h₁ hl, hv => by
    have hhead := Walks.spelled_writable hg h₁ (hv _ List.mem_cons_self).1
      (hv _ List.mem_cons_self).2
    have hrest := WalksList.spelled_writable hg hl fun v hv' => hv v (List.mem_cons_of_mem _ hv')
    intro s hs
    rcases List.mem_cons.1 hs with rfl | hs
    · exact hhead
    · exact hrest s hs
end

/-! ## The text of a spelled document -/

theorem textWith_eq (g : Graph) (o : TextOptions) (usage : Option Usage) (root : NodeId) :
    g.textWith o usage root = TextWrite.header o ++
      TextWrite.shape o (Usage.declares usage) 0 (g.walk {} root).1 ++ "\n" := by
  simp [textWith, TextWriter.writeHeader, TextWriter.writeRoot]

/-- The tree the walk of a document spells, planted afresh, is written as the same text as the
document, with any options and usage. -/
theorem textWith_plantRoot_spelled {root id : NodeId} {tag uid : String} {line : Nat}
    {ps : List (String × Shape)} {t : Tree} (o : TextOptions) (usage : Option Usage)
    (hs : (g.walk {} root).1 = .struct id tag uid line ps)
    (ht : (g.walk {} root).1.spelled = some t) :
    (plantRoot {} t).1.textWith o usage (plantRoot {} t).2 = g.textWith o usage root := by
  obtain ⟨ts, -, rfl⟩ := Shape.spelled_struct (hs ▸ ht)
  rw [textWith_eq, textWith_eq,
    Shape.shape_eq_of_spelled o _ _ ht (mirrors_walk_plantRoot {} tag uid line ts)]

/-- **The text of a spelled document reads**, with any sharing and cycles, reals that are not
finite and empty real arrays: written from a tagged structure with an indent of blanks and a
header name that is a word, declaring any UIDs, it reads back as the tree its walk spells,
without lines and links and with `#NULL` for the UIDs it does not declare. -/
theorem textWith_reads {root : NodeId} {tag uid : String} {line : Nat}
    {pairs : List (String × Value)} (hroot : g.get? root = some ⟨tag, line, .struct uid pairs⟩)
    (htag : Scan.isTag tag = true) (hg : g.Spellable [root]) {o : TextOptions}
    (ho : o.writable = true) (usage : Option Usage) :
    ∃ t, (g.walk {} root).1.spelled = some t ∧
      ∃ p, Parsed.ofString (g.textWith o usage root) = .ok p ∧ p.formatName = o.formatName ∧
        p.root.bare = t.bare.dropUids fun u => !Usage.declares usage u := by
  obtain ⟨ps, hs⟩ := walk_struct hroot
  obtain ⟨t, ht, htw⟩ := (walks_walk (g := g) visitedOk_empty root).spelled_writable hg
    (fun id h => by cases h; exact .root (List.mem_singleton_self root)) rfl
  obtain ⟨ts, -, rfl⟩ := Shape.spelled_struct (hs ▸ ht)
  refine ⟨_, ht, ?_⟩
  rw [← textWith_plantRoot_spelled o usage hs ht]
  exact ofString_textWith_usage usage (mirrors_walk_plantRoot {} tag uid line ts) htag htw ho

/-- A document with a key that leads back to its root, a structure under two keys, a tagged list
that holds itself and that structure, an infinite real and an empty real array. -/
def cyclicDocument : Graph where
  nodes := #[⟨"<Doc>", 1, .struct "#D" [("self", .node 0), ("a", .node 1), ("b", .node 1),
      ("loop", .node 2), ("inf", .scalar (.real ⟨0x7FF0000000000000⟩) 5), ("none", .node 3)]⟩,
    ⟨"<S>", 2, .struct nullUid [("x", .scalar (.int 1) 3)]⟩,
    ⟨"<Loop>", 4, .list [.node 2, .node 1]⟩,
    ⟨"", 6, .reals []⟩]

/-- The cyclic document is spelled, and its text reads. -/
theorem textWith_reads_cyclic :
    cyclicDocument.Spellable [0] ∧
    ∃ t, (cyclicDocument.walk {} 0).1.spelled = some t ∧
      ∃ p, Parsed.ofString (cyclicDocument.text 0) = .ok p ∧ p.formatName = "VLX" ∧
        p.root.bare = t.bare.dropUids fun u => !Usage.declares (some (cyclicDocument.usage 0)) u := by
  have hg : cyclicDocument.Spellable [0] :=
    spellable_of_closed (by decide +kernel) (by decide +kernel) (by simp [cyclicDocument, size])
  exact ⟨hg, textWith_reads rfl (by decide) hg (show ({} : TextOptions).writable = true by decide)
    (some (cyclicDocument.usage 0))⟩

end Graph

end GraphDoc
