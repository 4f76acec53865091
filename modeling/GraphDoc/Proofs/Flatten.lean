import GraphDoc.Proofs.Declared
/-! # A walk flattens a document into a tree

The binary form of a document, read back, is the tree of its walk (`Shape.written`): every
structure and list entered is a container of the tree, a structure reached again is a
reference to its UID, and a list reached again is an empty list of its tag. This holds of any
document, with any sharing and cycles, whose containers hold only indices of containers
(`Graph.closed`) and whose strings and counts fit (`Graph.countsFit`): such a walk is written
as a tree whose counts fit (`Graph.Walks.written_fits`), which the binary reader reads back.

Planted afresh, that tree is walked as the flattening of the first walk (`Shape.Flattened`):
the same keys, scalars and tags, fresh indices, lines zero. The text writer treats repeats as the
binary writer does, with one difference: a list reached again is written `[ ]` without its tag.
So the text of the tree read back is the text of the document when no list the walk reaches
again carries a tag (`Graph.text_binary_round_trip`); a tagged one parts them
(`Graph.text_binary_round_trip_tagged_repeat`).

* The usage of the flattened walk counts the same references (`Flattened.referenced_eq`), so
  the same UIDs are declared, and the text of a flattened walk is the text of the walk
  (`Flattened.shape_eq`).
-/
namespace GraphDoc

/-! ## Documents whose handles and counts are sound -/

namespace Value

/-- The strings of a value fit their counts; a container is checked on its own. -/
def countsFit : Value → Bool
  | .scalar s line => (Tree.scalar s line).countsFit
  | .node _ => true

end Value

namespace Node

/-- Every string and count of a container fits: its tag, its UID, its keys, the strings of
its values, its number of values and the counts of a rawtext block or an array. -/
def countsFit (n : Node) : Bool :=
  CountFits n.tag.utf8ByteSize &&
    match n.body with
    | .struct uid pairs =>
      CountFits uid.utf8ByteSize && CountFits pairs.length &&
        pairs.all fun p => CountFits p.1.utf8ByteSize && p.2.countsFit
    | .list items => CountFits items.length && items.all Value.countsFit
    | .raw text => CountFits text.utf8ByteSize
    | .ints vs => CountFits vs.length && CountFits (vs.flatMap Varint.encode).length
    | .reals xs => CountFits xs.length

end Node

namespace Graph

/-- Every index a container holds names a container of the graph, as every handle does. -/
def closed (g : Graph) : Bool := g.nodes.all fun n => n.children.all (· < g.size)

/-- Every string and count of every container fits, as for anything held in memory. -/
def countsFit (g : Graph) : Bool := g.nodes.all Node.countsFit

/-- A value as a container of the graph may hold it: its strings fit, and an index names a
container. -/
def ValueOk (g : Graph) (v : Value) : Prop := v.countsFit = true ∧ ∀ id, v = .node id → id < g.size

variable {g : Graph}

theorem mem_nodes_of_get? {id : NodeId} {n : Node} (h : g.get? id = some n) : n ∈ g.nodes :=
  Array.mem_of_getElem? h

theorem countsFit_of_get? (hf : g.countsFit = true) {id : NodeId} {n : Node}
    (hn : g.get? id = some n) : n.countsFit = true :=
  Array.all_eq_true_iff_forall_mem.1 hf n (mem_nodes_of_get? hn)

/-- The values of a container of a sound graph are sound. -/
theorem valueOk_of_mem_values (hc : g.closed = true) (hf : g.countsFit = true) {id : NodeId}
    {n : Node} (hn : g.get? id = some n) {v : Value} (hv : v ∈ n.values) : g.ValueOk v := by
  have hcl : ∀ c ∈ n.children, c < g.size := by
    simpa using Array.all_eq_true_iff_forall_mem.1 hc n (mem_nodes_of_get? hn)
  have hnf := countsFit_of_get? hf hn
  refine ⟨?_, fun c hvc => hcl c (Node.mem_children.mpr (hvc ▸ hv))⟩
  obtain ⟨tag, line, body⟩ := n
  cases body with
  | struct uid pairs =>
    simp only [Node.countsFit, Bool.and_eq_true, List.all_eq_true] at hnf
    obtain ⟨k, hk⟩ : ∃ k, (k, v) ∈ pairs := by simpa [Node.values] using hv
    exact (hnf.2.2 (k, v) hk).2
  | list items =>
    simp only [Node.countsFit, Bool.and_eq_true, List.all_eq_true] at hnf
    exact hnf.2.2 v (by simpa [Node.values] using hv)
  | raw | ints | reals => simp [Node.values] at hv

end Graph

/-! ## What the walk of a sound document reads back as -/

namespace Shape

variable (used : String → Bool)

/-- Pairs whose keys fit and whose values read back as trees whose counts fit read back. -/
theorem writtenPairs_fits : ∀ (ps : List (String × Shape)),
    (∀ p ∈ ps, CountFits p.1.utf8ByteSize ∧ ∃ t, p.2.written used = some t ∧ t.countsFit = true) →
    ∃ ts, writtenPairs used ps = some ts ∧ Tree.countsFitPairs ts = true
  | [], _ => ⟨[], rfl, rfl⟩
  | (k, s) :: rest, h => by
    obtain ⟨hk, t, ht, htf⟩ := h (k, s) List.mem_cons_self
    obtain ⟨ts, hts, htsf⟩ := writtenPairs_fits rest fun p hp => h p (List.mem_cons_of_mem _ hp)
    refine ⟨(k, t) :: ts, by simp [writtenPairs, ht, hts], ?_⟩
    simp [Tree.countsFitPairs, hk, htf, htsf]

/-- Items that each read back as trees whose counts fit read back. -/
theorem writtenItems_fits : ∀ (ss : List Shape),
    (∀ s ∈ ss, ∃ t, s.written used = some t ∧ t.countsFit = true) →
    ∃ ts, writtenItems used ss = some ts ∧ Tree.countsFitItems ts = true
  | [], _ => ⟨[], rfl, rfl⟩
  | s :: rest, h => by
    obtain ⟨t, ht, htf⟩ := h s List.mem_cons_self
    obtain ⟨ts, hts, htsf⟩ := writtenItems_fits rest fun x hx => h x (List.mem_cons_of_mem _ hx)
    exact ⟨t :: ts, by simp [writtenItems, ht, hts], by simp [Tree.countsFitItems, htf, htsf]⟩

end Shape

namespace Graph

variable {g : Graph} (used : String → Bool)

theorem WalksList.length_eq {vis vis' vs ss} (h : g.WalksList vis vs ss vis') :
    ss.length = vs.length := by
  induction vs generalizing vis ss with
  | nil => cases h; rfl
  | cons v vs ih => cases h with | cons _ hl => simp [ih hl]

theorem countFits_kept {uid : String} (h : CountFits uid.utf8ByteSize) :
    CountFits (if (uid != nullUid && used uid) = true then uid else nullUid).utf8ByteSize := by
  split
  · exact h
  · decide

mutual
/-- **The walk of a sound document reads back**, as a tree whose counts fit: no container is
missing, and every string and count comes from a container of the graph. -/
theorem Walks.written_fits (hc : g.closed = true) (hf : g.countsFit = true) :
    ∀ {vis vis' v s}, g.Walks vis v s vis' → g.ValueOk v →
      ∃ t, s.written used = some t ∧ t.countsFit = true
  | _, _, _, _, .scalar _ sc line, hv => by
    refine ⟨_, rfl, ?_⟩
    cases sc <;> exact hv.1
  | _, _, _, _, .missing _ id hn, hv => by
    have hlt : id < g.nodes.size := hv.2 id rfl
    rw [get?, Array.getElem?_eq_none_iff] at hn
    exact absurd hlt (Nat.not_lt.2 hn)
  | _, _, _, _, .again _ id ⟨tag, line, body⟩ hn _ _, _ => by
    have hnf := countsFit_of_get? hf hn
    cases body with
    | struct uid pairs =>
      simp only [Node.countsFit, Bool.and_eq_true] at hnf
      exact ⟨_, rfl, hnf.2.1.1⟩
    | list | raw | ints | reals =>
      simp only [Node.countsFit, Bool.and_eq_true] at hnf
      exact ⟨_, rfl, by
        simp only [Tree.countsFit, Tree.countsFitItems, List.length_nil, hnf.1,
          show CountFits 0 = true from rfl, Bool.and_self]⟩
  | _, _, _, _, .leaf _ id ⟨tag, line, body⟩ hn hb, _ => by
    have hnf := countsFit_of_get? hf hn
    cases body with
    | struct | list => simp [Node.isBranch] at hb
    | raw | ints | reals =>
      simp only [Node.countsFit, Bool.and_eq_true] at hnf
      exact ⟨_, rfl, by simp only [Tree.countsFit, hnf, Bool.and_self]⟩
  | _, _, _, _, .struct _ _ id n uid pairs ps hn hb _ hkeys hl, _ => by
    have hnf := countsFit_of_get? hf hn
    obtain ⟨tag, line, body⟩ := n
    simp only at hb
    subst hb
    simp only [Node.countsFit, Bool.and_eq_true, List.all_eq_true] at hnf
    obtain ⟨htag, ⟨huid, hlen⟩, hps⟩ := hnf
    have hvals := WalksList.written_fits hc hf hl fun v hv =>
      valueOk_of_mem_values hc hf hn (by simpa [Node.values] using hv)
    -- a key of the walk is a key of the structure, so it fits
    have hkey : ∀ p ∈ ps, CountFits p.1.utf8ByteSize := fun p hp => by
      obtain ⟨q, hq, hqk⟩ := List.mem_map.1 (hkeys ▸ List.mem_map_of_mem hp : p.1 ∈ pairs.map Prod.fst)
      exact hqk ▸ (hps q hq).1
    obtain ⟨ts, hts, htsf⟩ := Shape.writtenPairs_fits used ps fun p hp =>
      ⟨hkey p hp, hvals p.2 (List.mem_map_of_mem hp)⟩
    have hlen' : ts.length = pairs.length := by
      rw [Shape.writtenPairs_length used hts, ← List.length_map (f := Prod.fst), hkeys,
        List.length_map]
    refine ⟨.struct tag (if (uid != nullUid && used uid) = true then uid else nullUid) 0 ts,
      by simp only [Shape.written, hts, Option.map_some], ?_⟩
    simp only [Tree.countsFit, htag, countFits_kept used huid, hlen', hlen, htsf, Bool.and_self]
  | _, _, _, _, .list _ _ id n items ss hn hb _ hl, _ => by
    have hnf := countsFit_of_get? hf hn
    obtain ⟨tag, line, body⟩ := n
    simp only at hb
    subst hb
    simp only [Node.countsFit, Bool.and_eq_true] at hnf
    obtain ⟨htag, hlen, -⟩ := hnf
    have hitems := WalksList.written_fits hc hf hl fun v hv =>
      valueOk_of_mem_values hc hf hn (by simpa [Node.values] using hv)
    obtain ⟨ts, hts, htsf⟩ := Shape.writtenItems_fits used ss hitems
    have hlen' : ts.length = items.length := by
      rw [Shape.writtenItems_length used hts, hl.length_eq]
    refine ⟨.list tag 0 ts, by simp only [Shape.written, hts, Option.map_some], ?_⟩
    simp only [Tree.countsFit, Bool.and_eq_true]
    exact ⟨⟨htag, hlen' ▸ hlen⟩, htsf⟩

theorem WalksList.written_fits (hc : g.closed = true) (hf : g.countsFit = true) :
    ∀ {vis vis' vs ss}, g.WalksList vis vs ss vis' → (∀ v ∈ vs, g.ValueOk v) →
      ∀ s ∈ ss, ∃ t, s.written used = some t ∧ t.countsFit = true
  | _, _, _, _, .nil _, _ => by simp
  | _, _, _, _, .cons h₁ hl, hv => by
    have hhead := Walks.written_fits hc hf h₁ (hv _ List.mem_cons_self)
    have hrest := WalksList.written_fits hc hf hl fun v hv' => hv v (List.mem_cons_of_mem _ hv')
    intro s hs
    rcases List.mem_cons.1 hs with rfl | hs
    · exact hhead
    · exact hrest s hs
end

end Graph

/-! ## The flattened walk -/

namespace Shape

mutual
/-- The tags of the containers other than structures that a walk reaches again, in walk
order. -/
def repeatTags : Shape → List String
  | .struct _ _ _ _ pairs => repeatTagsPairs pairs
  | .list _ _ _ items => repeatTagsItems items
  | .again _ n =>
    match n.body with
    | .struct _ _ => []
    | _ => [n.tag]
  | _ => []

/-- The repeat tags met from the values of pairs. -/
def repeatTagsPairs : List (String × Shape) → List String
  | [] => []
  | (_, s) :: rest => repeatTags s ++ repeatTagsPairs rest

/-- The repeat tags met from items. -/
def repeatTagsItems : List Shape → List String
  | [] => []
  | s :: rest => repeatTags s ++ repeatTagsItems rest
end

theorem repeatTagsPairs_eq (ps : List (String × Shape)) :
    repeatTagsPairs ps = repeatTagsItems (ps.map Prod.snd) := by
  induction ps with
  | nil => rfl
  | cons p ps ih => simp [repeatTagsPairs, repeatTagsItems, ih]

theorem referencedPairs_eq (ps : List (String × Shape)) :
    referencedPairs ps = referencedItems (ps.map Prod.snd) := by
  induction ps with
  | nil => rfl
  | cons p ps ih => simp [referencedPairs, referencedItems, ih]

variable (used : String → Bool)

mutual
/-- `Flattened used s s'`: `s'` is the walk of what the chunks of the walk `s` read back as,
planted afresh. Keys, scalars and tags stay, indices are fresh and lines zero; references lose
their links; a structure reached again becomes a reference to its UID and any other container
reached again an empty list of its tag; and a UID the writer does not declare becomes
`#NULL`. -/
inductive Flattened : Shape → Shape → Prop
  | scalar (sc : Scalar) (line : Nat) : Flattened (.scalar sc line) (.scalar sc.unlinked 0)
  | struct (id id' : NodeId) (tag uid : String) (line : Nat) (ps ps' : List (String × Shape)) :
      ps'.map Prod.fst = ps.map Prod.fst → FlattenedList (ps.map Prod.snd) (ps'.map Prod.snd) →
      Flattened (.struct id tag uid line ps)
        (.struct id' tag (if (uid != nullUid && used uid) = true then uid else nullUid) 0 ps')
  | list (id id' : NodeId) (tag : String) (line : Nat) (ss ss' : List Shape) :
      FlattenedList ss ss' → Flattened (.list id tag line ss) (.list id' tag 0 ss')
  | leaf (id id' : NodeId) (n : Node) : n.isBranch = false →
      Flattened (.leaf id n) (.leaf id' ⟨n.tag, 0, n.body⟩)
  | againStruct (id : NodeId) (tag : String) (line : Nat) (uid : String)
      (pairs : List (String × Value)) :
      Flattened (.again id ⟨tag, line, .struct uid pairs⟩) (.scalar (.uid uid none) 0)
  | againOther (id id' : NodeId) (n : Node) : (∀ uid pairs, n.body ≠ .struct uid pairs) →
      Flattened (.again id n) (.list id' n.tag 0 [])

/-- Walks flattened item by item. -/
inductive FlattenedList : List Shape → List Shape → Prop
  | nil : FlattenedList [] []
  | cons {s s' : Shape} {ss ss' : List Shape} :
      Flattened s s' → FlattenedList ss ss' → FlattenedList (s :: ss) (s' :: ss')
end

theorem writtenPairs_keys : ∀ {ps : List (String × Shape)} {ts : List (String × Tree)},
    writtenPairs used ps = some ts → ts.map Prod.fst = ps.map Prod.fst
  | [], ts, h => by simp only [writtenPairs, Option.some.injEq] at h; simp [← h]
  | (k, s) :: rest, ts, h => by
    simp only [writtenPairs, Option.bind_eq_bind, Option.bind_eq_some_iff, Option.pure_def,
      Option.some.injEq] at h
    obtain ⟨t, -, ts', hrest, rfl⟩ := h
    simp [writtenPairs_keys hrest]

mutual
/-- **The walk of what a walk reads back as is its flattening.** -/
theorem flattened_of_written : ∀ (s : Shape) {t : Tree} {s' : Shape},
    s.written used = some t → s'.Mirrors t → Flattened used s s'
  | .scalar sc line, t, s', hw, hm => by
    simp only [written, Option.some.injEq] at hw
    subst hw
    cases hm
    exact .scalar sc line
  | .struct id tag uid line ps, t, s', hw, hm => by
    simp only [written] at hw
    obtain ⟨ts, hts, rfl⟩ := Option.map_eq_some_iff.1 hw
    cases hm with
    | struct id' _ _ _ ps' _ hkeys hl =>
      exact .struct id id' tag uid line ps ps' (hkeys.trans (writtenPairs_keys used hts))
        (flattenedList_of_writtenPairs ps hts hl)
  | .list id tag line ss, t, s', hw, hm => by
    simp only [written] at hw
    obtain ⟨ts, hts, rfl⟩ := Option.map_eq_some_iff.1 hw
    cases hm with
    | list id' _ _ ss' _ hl => exact .list id id' tag line ss ss' (flattenedList_of_writtenItems ss hts hl)
  | .leaf id ⟨tag, line, body⟩, t, s', hw, hm => by
    simp only [written] at hw
    cases body with
    | struct | list => simp [Node.leafTree?] at hw
    | raw text =>
      simp only [Node.leafTree?, Option.some.injEq] at hw
      subst hw
      cases hm with
      | raw id' => exact .leaf id id' _ rfl
    | ints vs =>
      simp only [Node.leafTree?, Option.some.injEq] at hw
      subst hw
      cases hm with
      | ints id' => exact .leaf id id' _ rfl
    | reals xs =>
      simp only [Node.leafTree?, Option.some.injEq] at hw
      subst hw
      cases hm with
      | reals id' => exact .leaf id id' _ rfl
  | .again id ⟨tag, line, body⟩, t, s', hw, hm => by
    -- a structure reached again reads back as its UID, any other container as an empty list
    cases body with
    | struct uid pairs =>
      simp only [written, Option.some.injEq] at hw
      subst hw
      cases hm
      exact .againStruct id tag line uid pairs
    | list | raw | ints | reals =>
      simp only [written, Option.some.injEq] at hw
      subst hw
      cases hm with
      | list id' _ _ ss' _ hl =>
        cases hl
        exact .againOther id id' _ (by simp)
  | .missing, t, s', hw, _ => by simp [written] at hw

theorem flattenedList_of_writtenPairs : ∀ (ps : List (String × Shape)) {ts : List (String × Tree)}
    {ss' : List Shape}, writtenPairs used ps = some ts → MirrorsList ss' (ts.map Prod.snd) →
    FlattenedList used (ps.map Prod.snd) ss'
  | [], ts, ss', hw, hm => by
    simp only [writtenPairs, Option.some.injEq] at hw
    subst hw
    cases hm
    exact .nil
  | (k, s) :: rest, ts, ss', hw, hm => by
    simp only [writtenPairs, Option.bind_eq_bind, Option.bind_eq_some_iff, Option.pure_def,
      Option.some.injEq] at hw
    obtain ⟨t, hs, ts', hrest, rfl⟩ := hw
    cases hm with
    | cons h₁ h₂ =>
      exact .cons (flattened_of_written s hs h₁) (flattenedList_of_writtenPairs rest hrest h₂)

theorem flattenedList_of_writtenItems : ∀ (ss : List Shape) {ts : List Tree} {ss' : List Shape},
    writtenItems used ss = some ts → MirrorsList ss' ts → FlattenedList used ss ss'
  | [], ts, ss', hw, hm => by
    simp only [writtenItems, Option.some.injEq] at hw
    subst hw
    cases hm
    exact .nil
  | s :: rest, ts, ss', hw, hm => by
    simp only [writtenItems, Option.bind_eq_bind, Option.bind_eq_some_iff, Option.pure_def,
      Option.some.injEq] at hw
    obtain ⟨t, hs, ts', hrest, rfl⟩ := hw
    cases hm with
    | cons h₁ h₂ =>
      exact .cons (flattened_of_written s hs h₁) (flattenedList_of_writtenItems rest hrest h₂)
end

mutual
/-- **A flattened walk is written with the same references**, in the same order: a structure
reached again becomes a UID reference to the same UID. -/
theorem Flattened.referenced_eq : ∀ {s s' : Shape}, Flattened used s s' →
    s'.referenced = s.referenced
  | _, _, .scalar sc _ => by cases sc <;> rfl
  | _, _, .struct _ _ _ _ _ ps ps' _ hl => by
    simp only [referenced, referencedPairs_eq]
    exact FlattenedList.referenced_eq hl
  | _, _, .list _ _ _ _ _ _ hl => by
    simp only [referenced]
    exact FlattenedList.referenced_eq hl
  | _, _, .leaf _ _ _ hb => rfl
  | _, _, .againStruct .. => rfl
  | _, _, .againOther _ _ ⟨tag, line, body⟩ hn => by
    cases body with
    | struct uid pairs => exact absurd rfl (hn uid pairs)
    | _ => rfl

theorem FlattenedList.referenced_eq : ∀ {ss ss' : List Shape}, FlattenedList used ss ss' →
    referencedItems ss' = referencedItems ss
  | _, _, .nil => rfl
  | _, _, .cons h₁ h₂ => by
    simp only [referencedItems, Flattened.referenced_eq h₁, FlattenedList.referenced_eq h₂]
end

end Shape

/-! ## The text of a flattened walk -/

namespace TextWrite

variable (o : TextOptions) (used : String → Bool)

/-- The lines of pairs depend on their keys and the texts of their values only. -/
theorem pairsText_congr (d : Nat) : ∀ {ps ps' : List (String × Shape)},
    ps'.map Prod.fst = ps.map Prod.fst →
    List.Forall₂ (fun s s' => shape o used (d + 1) s' = shape o used (d + 1) s)
      (ps.map Prod.snd) (ps'.map Prod.snd) →
    pairsText o used d ps' = pairsText o used d ps
  | [], [], _, _ => rfl
  | (k, s) :: ps, (k', s') :: ps', hk, h => by
    simp only [List.map_cons, List.cons.injEq] at hk
    obtain ⟨rfl, hk⟩ := hk
    cases h with
    | cons h₁ h₂ => simp only [pairsText, h₁, pairsText_congr d hk h₂]
  | [], _ :: _, hk, _ | _ :: _, [], hk, _ => by simp at hk

/-- The lines of items depend on the texts of the items only. -/
theorem itemsText_congr (d : Nat) {ss ss' : List Shape}
    (h : List.Forall₂ (fun s s' => shape o used (d + 1) s' = shape o used (d + 1) s) ss ss') :
    itemsText o used d ss' = itemsText o used d ss := by
  induction h with
  | nil => rfl
  | cons h₁ _ ih => simp only [itemsText, h₁, ih]

end TextWrite

namespace Shape

variable (o : TextOptions) {used : String → Bool}

theorem FlattenedList.isEmpty_eq {ss ss' : List Shape} (h : FlattenedList used ss ss') :
    ss'.isEmpty = ss.isEmpty := by
  cases h <;> rfl

mutual
/-- **A flattened walk is written as the walk**, when no container other than a structure that
the walk reaches again carries a tag: the text writer writes a structure reached again as its
bare UID, which is how the reference it became is written, and writes any other container
reached again as `[ ]`, which is how an untagged empty list is written. -/
theorem Flattened.shape_eq : ∀ {s s' : Shape}, Flattened used s s' →
    (∀ tag ∈ s.repeatTags, tag = "") →
    ∀ d, TextWrite.shape o used d s' = TextWrite.shape o used d s
  | _, _, .scalar sc _, _, d => by cases sc <;> rfl
  | _, _, .struct _ _ tag uid _ ps ps' hk hl, hr, d => by
    have hitems := FlattenedList.shape_eq hl (by simpa [repeatTags, repeatTagsPairs_eq] using hr)
    simp only [TextWrite.shape]
    rw [TextWrite.pairsText_congr o used d hk (hitems.imp fun _ _ h => h (d + 1))]
    -- the flattened structure keeps its UID exactly where the writer declares it
    by_cases hu : (uid != nullUid && used uid) = true
    · simp only [hu, if_true]
    · simp only [hu, if_false, bne_self_eq_false, Bool.false_and, Bool.false_eq_true]
  | _, _, .list _ _ tag _ ss ss' hl, hr, d => by
    have hitems := FlattenedList.shape_eq hl (by simpa [repeatTags] using hr)
    simp only [TextWrite.shape, hl.isEmpty_eq,
      TextWrite.itemsText_congr o used d (hitems.imp fun _ _ h => h (d + 1))]
  | _, _, .leaf _ _ ⟨tag, line, body⟩ hb, _, d => by
    cases body with
    | struct | list => simp [Node.isBranch] at hb
    | raw | ints | reals => rfl
  | _, _, .againStruct .., _, d => rfl
  | _, _, .againOther _ _ ⟨tag, line, body⟩ hn, hr, d => by
    cases body with
    | struct uid pairs => exact absurd rfl (hn uid pairs)
    | list | raw | ints | reals =>
      -- the container reached again is untagged, so its empty list is written `[ ]`
      have htag : tag = "" := hr tag (by simp [repeatTags])
      subst htag
      rfl

theorem FlattenedList.shape_eq : ∀ {ss ss' : List Shape}, FlattenedList used ss ss' →
    (∀ tag ∈ repeatTagsItems ss, tag = "") →
    List.Forall₂ (fun s s' => ∀ d, TextWrite.shape o used d s' = TextWrite.shape o used d s) ss ss'
  | _, _, .nil, _ => .nil
  | _, _, .cons h₁ h₂, hr =>
    .cons (Flattened.shape_eq h₁ fun t ht => hr t (by simp [repeatTagsItems, ht]))
      (FlattenedList.shape_eq h₂ fun t ht => hr t (by simp [repeatTagsItems, ht]))
end

end Shape

/-! ## The two encodings of a document -/

namespace Graph

/-- The walk of a document from a structure enters that structure first. -/
theorem walk_struct {g : Graph} {root : NodeId} {tag : String} {line : Nat} {uid : String}
    {pairs : List (String × Value)} (hroot : g.get? root = some ⟨tag, line, .struct uid pairs⟩) :
    ∃ ps, (g.walk {} root).1 = .struct root tag uid line ps := by
  have hw := walks_walk (g := g) visitedOk_empty root
  generalize (g.walk {} root).1 = s at hw ⊢
  generalize (g.walk {} root).2 = vis' at hw
  cases hw with
  | missing _ _ h => simp [hroot] at h
  | again _ _ _ _ _ hc => simp [Visited.contains] at hc
  | leaf _ _ n h hb => rw [hroot] at h; cases h; simp [Node.isBranch] at hb
  | list _ _ _ n _ _ h hb => rw [hroot] at h; cases h; simp at hb
  | struct _ _ _ n uid' pairs' ps h hb =>
    rw [hroot] at h
    cases h
    simp only [Body.struct.injEq] at hb
    obtain ⟨rfl, rfl⟩ := hb
    exact ⟨ps, rfl⟩

/-- The tree the walk of a document from a structure reads back as, planted afresh, is walked as
the flattening of that walk. -/
theorem flattened_plantRoot_written {g : Graph} {root id : NodeId} {tag uid : String} {line : Nat}
    {ps : List (String × Shape)} {used : String → Bool} {t : Tree}
    (hs : (g.walk {} root).1 = .struct id tag uid line ps)
    (hw : (g.walk {} root).1.written used = some t) :
    Shape.Flattened used (g.walk {} root).1 ((plantRoot {} t).1.walk {} (plantRoot {} t).2).1 := by
  have hw' := hw
  rw [hs] at hw'
  simp only [Shape.written] at hw'
  obtain ⟨ts, -, hts⟩ := Option.map_eq_some_iff.1 hw'
  exact Shape.flattened_of_written _ _ hw (hts ▸ mirrors_walk_plantRoot {} tag _ 0 ts)

/-- The tree the walk of a document reads back as, planted afresh, declares the same UIDs, since
its walk is written with the same references. -/
theorem declares_usage_plantRoot_written {g : Graph} {root id : NodeId} {tag uid : String}
    {line : Nat} {ps : List (String × Shape)} {t : Tree}
    (hs : (g.walk {} root).1 = .struct id tag uid line ps)
    (hw : (g.walk {} root).1.written (Usage.declares (some (g.usage root))) = some t) :
    Usage.declares (some ((plantRoot {} t).1.usage (plantRoot {} t).2)) =
      Usage.declares (some (g.usage root)) := by
  rw [declares_usage, declares_usage, (flattened_plantRoot_written hs hw).referenced_eq]

/-- The tree the walk of a document reads back as, planted afresh, is written as the same text
as the document, when no container other than a structure that the walk reaches again carries a
tag. -/
theorem text_plantRoot_written {g : Graph} {root id : NodeId} {tag uid : String} {line : Nat}
    {ps : List (String × Shape)} {t : Tree}
    (hs : (g.walk {} root).1 = .struct id tag uid line ps)
    (hw : (g.walk {} root).1.written (Usage.declares (some (g.usage root))) = some t)
    (hlists : ∀ t ∈ (g.walk {} root).1.repeatTags, t = "") :
    (plantRoot {} t).1.text (plantRoot {} t).2 = g.text root := by
  rw [text_eq, text_eq, declares_usage_plantRoot_written hs hw,
    (flattened_plantRoot_written hs hw).shape_eq {} hlists 0]

/-- **The text of the binary round trip.** A document rooted at a structure, with any sharing
and cycles, whose containers hold only indices of containers and whose strings and counts fit,
is read back from its binary form; and the tree read back, planted afresh, is written as the
same text as the document, provided no container other than a structure that the walk of the
document reaches again carries a tag. -/
theorem text_binary_round_trip {g : Graph} {root : NodeId} {tag : String} {line : Nat}
    {uid : String} {pairs : List (String × Value)}
    (hroot : g.get? root = some ⟨tag, line, .struct uid pairs⟩)
    (hclosed : g.closed = true) (hfit : g.countsFit = true)
    (hlists : ∀ t ∈ (g.walk {} root).1.repeatTags, t = "") :
    ∃ t, Tree.ofBinary ⟨(g.binary root).toArray⟩ = .ok t ∧
      (plantRoot {} t).1.text (plantRoot {} t).2 = g.text root := by
  obtain ⟨ps, hs⟩ := walk_struct hroot
  obtain ⟨t, hw, htf⟩ := (walks_walk (g := g) visitedOk_empty root).written_fits
    (Usage.declares (some (g.usage root))) hclosed hfit
    ⟨rfl, fun id h => by cases h; exact lt_size_of_get? hroot⟩
  exact ⟨t, ofBinary_binaryWith_written (some (g.usage root)) hs hw htf,
    text_plantRoot_written hs hw hlists⟩

/-- A document that shares a structure among two keys and a list, holds a reference to it, and
has two cycles: an untagged list that holds itself and a key that leads back to the root. -/
def sharedDocument : Graph where
  nodes := #[⟨"<Doc>", 1, .struct "#D" [("a", .node 1), ("b", .node 1), ("l", .node 2),
      ("self", .node 0), ("r", .scalar (.uid "#S" none) 6)]⟩,
    ⟨"<S>", 2, .struct "#S" [("x", .scalar (.int 1) 3)]⟩,
    ⟨"", 4, .list [.node 2, .node 1, .node 3]⟩,
    ⟨"<A>", 5, .reals [⟨0x3FF8000000000000⟩]⟩]

/-- The shared document comes back from its binary form written as the same text. -/
theorem text_binary_round_trip_shared :
    sharedDocument.get? 0 = some ⟨"<Doc>", 1, .struct "#D" [("a", .node 1), ("b", .node 1),
      ("l", .node 2), ("self", .node 0), ("r", .scalar (.uid "#S" none) 6)]⟩ ∧
    sharedDocument.closed = true ∧ sharedDocument.countsFit = true ∧
    (∀ t ∈ (sharedDocument.walk {} 0).1.repeatTags, t = "") ∧
    ∃ t, Tree.ofBinary ⟨(sharedDocument.binary 0).toArray⟩ = .ok t ∧
      (plantRoot {} t).1.text (plantRoot {} t).2 = sharedDocument.text 0 := by
  have hlists : ∀ t ∈ (sharedDocument.walk {} 0).1.repeatTags, t = "" := by
    simp [sharedDocument, walk, unfold, unfoldPairs, unfoldItems, get?, Visited.contains,
      Visited.insert, Node.isBranch, size, Shape.repeatTags, Shape.repeatTagsPairs,
      Shape.repeatTagsItems]
  exact ⟨rfl, by decide +kernel, by decide +kernel, hlists,
    text_binary_round_trip rfl (by decide +kernel) (by decide +kernel) hlists⟩

/-- A root holding a list tagged `<Loop>` that holds itself. -/
def taggedSelfList : Graph where
  nodes := #[⟨"<Root>", 1, .struct "#NULL" [("l", .node 1)]⟩, ⟨"<Loop>", 2, .list [.node 1]⟩]

/-- **A tagged list reached again parts the two texts.** The text of `taggedSelfList` writes
the list's visit to itself as `[ ]`; its binary form writes that visit as an empty list tagged
`<Loop>`, which the text of the tree read back writes as `<Loop> [ ]`. -/
theorem text_binary_round_trip_tagged_repeat :
    Tree.ofBinary ⟨(taggedSelfList.binary 0).toArray⟩ =
      .ok (.struct "<Root>" "#NULL" 0 [("l", .list "<Loop>" 0 [.list "<Loop>" 0 []])]) ∧
    (plantRoot {} (.struct "<Root>" "#NULL" 0 [("l", .list "<Loop>" 0 [.list "<Loop>" 0 []])])).1.text
      (plantRoot {} (.struct "<Root>" "#NULL" 0 [("l", .list "<Loop>" 0 [.list "<Loop>" 0 []])])).2 ≠
      taggedSelfList.text 0 := by
  have hwalk : (taggedSelfList.walk {} 0).1 = .struct 0 "<Root>" "#NULL" 1
      [("l", .list 1 "<Loop>" 2 [.again 1 ⟨"<Loop>", 2, .list [.node 1]⟩])] := by
    simp [taggedSelfList, walk, unfold, unfoldPairs, unfoldItems, get?, Visited.contains,
      Visited.insert, Node.isBranch, size]
  have hplant : plantRoot {}
      (.struct "<Root>" "#NULL" 0 [("l", .list "<Loop>" 0 [.list "<Loop>" 0 []])]) =
      (⟨#[⟨"<Loop>", 0, .list []⟩, ⟨"<Loop>", 0, .list [.node 0]⟩,
        ⟨"<Root>", 0, .struct "#NULL" [("l", .node 1)]⟩]⟩, 2) := rfl
  have hback : taggedSelfList.text 0 =
      "VLX version=100 encoding=ascii\n\n<Root>\n\x7b\n\tl = <Loop>\n\t[\n\t\t[ ]\n\t]\n\x7d\n" := by
    rw [text_eq, hwalk]
    simp [TextWrite.shape, TextWrite.pairsText, TextWrite.itemsText, TextWrite.header,
      TextWrite.blockTag, TextWrite.indentOf, nullUid]
  have hread : (plantRoot {}
      (.struct "<Root>" "#NULL" 0 [("l", .list "<Loop>" 0 [.list "<Loop>" 0 []])])).1.text 2 =
      "VLX version=100 encoding=ascii\n\n<Root>\n\x7b\n\tl = <Loop>\n\t[\n\t\t<Loop> [ ]\n\t]\n\x7d\n" := by
    rw [hplant, text_eq]
    simp [walk, unfold, unfoldPairs, unfoldItems, get?, Visited.contains, Visited.insert,
      Node.isBranch, size, TextWrite.shape, TextWrite.pairsText, TextWrite.itemsText,
      TextWrite.header, TextWrite.blockTag, TextWrite.indentOf, TextWrite.inlineTag, nullUid]
  refine ⟨ofBinary_binaryWith_written _ hwalk (by rw [hwalk]; rfl) (by decide), ?_⟩
  rw [hback, show (plantRoot {} _).2 = 2 by rw [hplant], hread]
  decide

end Graph

end GraphDoc
