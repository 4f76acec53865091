import GraphDoc.Proofs.Walk
/-! # Walking a planted tree

`Graph.plant` puts a `Tree` into a graph as fresh containers, appended after the ones already
there, children before their parent. A walk from the planted tree meets every container of it
for the first time and nothing else, so its shape is the tree again: `Shape.Mirrors s t` says
that the shape `s` has the tags, UIDs, lines, keys and scalars of the tree `t`, with no
container reached again and none missing.

* Planting only appends: the containers there before are kept (`isPrefix_plant`).
* The containers of a planted tree take the indices from the old size of the graph to the new
  one, so a visited set that holds none of these indices (`Avoids`) lets a walk enter all of
  them (`mirrors_of_walks_plant`); the walk of each subtree stays inside its own range
  (`OpensWithin`), which is what keeps the later siblings unvisited.
-/
namespace GraphDoc

/-! ## Graphs that only grow -/

namespace Graph

/-- The containers of `g` are the first containers of `G`, unchanged. -/
def IsPrefix (g G : Graph) : Prop := ∀ i < g.size, G.get? i = g.get? i

variable {g G H : Graph}

theorem IsPrefix.refl (g : Graph) : g.IsPrefix g := fun _ _ => rfl

theorem IsPrefix.size_le (h : g.IsPrefix G) : g.size ≤ G.size := by
  by_cases hz : g.size = 0
  · omega
  · have hi : g.size - 1 < g.nodes.size := by simp only [size] at hz ⊢; omega
    have hlast := h (g.size - 1) (by omega)
    rw [show g.get? (g.size - 1) = some g.nodes[g.size - 1] from Array.getElem?_eq_getElem hi]
      at hlast
    have : g.size - 1 < G.size := lt_size_of_get? hlast
    omega

theorem IsPrefix.trans (h₁ : g.IsPrefix G) (h₂ : G.IsPrefix H) : g.IsPrefix H := fun i hi =>
  (h₂ i (Nat.lt_of_lt_of_le hi h₁.size_le)).trans (h₁ i hi)

theorem IsPrefix.get?_eq {i : NodeId} {n : Node} (h : g.IsPrefix G) (hn : g.get? i = some n) :
    G.get? i = some n :=
  (h i (lt_size_of_get? hn)).trans hn

@[simp] theorem size_add (g : Graph) (n : Node) : (g.add n).1.size = g.size + 1 := by
  simp [add, size]

theorem get?_add_self (g : Graph) (n : Node) : (g.add n).1.get? g.size = some n := by
  simp [add, get?, size]

theorem isPrefix_add (g : Graph) (n : Node) : g.IsPrefix (g.add n).1 := by
  intro i hi
  simp only [add, get?, size] at hi ⊢
  rw [Array.getElem?_push, if_neg (by omega)]

mutual
theorem isPrefix_plant : ∀ (g : Graph) (t : Tree), g.IsPrefix (g.plant t).1
  | _, .scalar .. => IsPrefix.refl _
  | g, .struct _ _ _ pairs =>
    (isPrefix_plantPairs g pairs).trans (isPrefix_add _ _)
  | g, .list _ _ items => (isPrefix_plantItems g items).trans (isPrefix_add _ _)
  | g, .raw .. | g, .ints .. | g, .reals .. => isPrefix_add g _

theorem isPrefix_plantPairs : ∀ (g : Graph) (ps : List (String × Tree)),
    g.IsPrefix (g.plantPairs ps).1
  | _, [] => IsPrefix.refl _
  | g, (_, t) :: rest => (isPrefix_plant g t).trans (isPrefix_plantPairs _ rest)

theorem isPrefix_plantItems : ∀ (g : Graph) (ts : List Tree), g.IsPrefix (g.plantItems ts).1
  | _, [] => IsPrefix.refl _
  | g, t :: rest => (isPrefix_plant g t).trans (isPrefix_plantItems _ rest)
end

/-! ## Planting, one constructor at a time -/

section Plant

variable (g : Graph) (tag uid : String) (line : Nat)

theorem plant_struct (pairs : List (String × Tree)) :
    g.plant (.struct tag uid line pairs) =
      (((g.plantPairs pairs).1.add ⟨tag, line, .struct uid (g.plantPairs pairs).2⟩).1,
        .node (g.plantPairs pairs).1.size) := rfl

theorem plant_list (items : List Tree) :
    g.plant (.list tag line items) =
      (((g.plantItems items).1.add ⟨tag, line, .list (g.plantItems items).2⟩).1,
        .node (g.plantItems items).1.size) := rfl

theorem plantPairs_cons (k : String) (t : Tree) (rest : List (String × Tree)) :
    g.plantPairs ((k, t) :: rest) =
      (((g.plant t).1.plantPairs rest).1, (k, (g.plant t).2) :: ((g.plant t).1.plantPairs rest).2) :=
  rfl

theorem plantItems_cons (t : Tree) (rest : List Tree) :
    g.plantItems (t :: rest) =
      (((g.plant t).1.plantItems rest).1, (g.plant t).2 :: ((g.plant t).1.plantItems rest).2) :=
  rfl

end Plant

theorem plantPairs_keys : ∀ (g : Graph) (ps : List (String × Tree)),
    (g.plantPairs ps).2.map Prod.fst = ps.map Prod.fst
  | _, [] => rfl
  | g, (k, t) :: rest => by simp [plantPairs_cons, plantPairs_keys _ rest]

/-- A walk from a rawtext block or an array is that container, and enters nothing. -/
theorem Walks.eq_leaf {vis vis' : Visited} {id : NodeId} {n : Node} {s : Shape}
    (hn : G.get? id = some n) (hb : n.isBranch = false) (hw : G.Walks vis (.node id) s vis') :
    s = .leaf id n ∧ vis' = vis := by
  cases hw with
  | missing _ _ h => simp [hn] at h
  | again _ _ m h hm => rw [hn] at h; cases h; simp [hb] at hm
  | leaf _ _ m h => rw [hn] at h; cases h; exact ⟨rfl, rfl⟩
  | struct _ _ _ m _ _ _ h hbody => rw [hn] at h; cases h; simp [Node.isBranch, hbody] at hb
  | list _ _ _ m _ _ h hbody => rw [hn] at h; cases h; simp [Node.isBranch, hbody] at hb

end Graph

/-! ## Shapes that are trees -/

namespace Shape

mutual
/-- The shape `s` is the tree `t`: the same tags, UIDs, lines, keys and scalars, every
structure and list entered for the first time, and no container missing. -/
inductive Mirrors : Shape → Tree → Prop
  | scalar (s : Scalar) (line : Nat) : Mirrors (.scalar s line) (.scalar s line)
  | struct (id : NodeId) (tag uid : String) (line : Nat) (ps : List (String × Shape))
      (qs : List (String × Tree)) : ps.map Prod.fst = qs.map Prod.fst →
      MirrorsList (ps.map Prod.snd) (qs.map Prod.snd) →
      Mirrors (.struct id tag uid line ps) (.struct tag uid line qs)
  | list (id : NodeId) (tag : String) (line : Nat) (ss : List Shape) (ts : List Tree) :
      MirrorsList ss ts → Mirrors (.list id tag line ss) (.list tag line ts)
  | raw (id : NodeId) (tag : String) (line : Nat) (text : String) :
      Mirrors (.leaf id ⟨tag, line, .raw text⟩) (.raw tag line text)
  | ints (id : NodeId) (tag : String) (line : Nat) (vs : List Int64) :
      Mirrors (.leaf id ⟨tag, line, .ints vs⟩) (.ints tag line vs)
  | reals (id : NodeId) (tag : String) (line : Nat) (xs : List Binary64) :
      Mirrors (.leaf id ⟨tag, line, .reals xs⟩) (.reals tag line xs)

/-- Shapes that are trees, item by item. -/
inductive MirrorsList : List Shape → List Tree → Prop
  | nil : MirrorsList [] []
  | cons {s : Shape} {ss : List Shape} {t : Tree} {ts : List Tree} :
      Mirrors s t → MirrorsList ss ts → MirrorsList (s :: ss) (t :: ts)
end

end Shape

namespace Graph

variable {G : Graph}

/-- What a walk from part of a planted tree enters lies in the range of indices planted for
that part. -/
def OpensWithin (s : List NodeId) (lo hi : Nat) : Prop := ∀ i : Nat, i ∈ s → lo ≤ i ∧ i < hi

/-- The visited set holds no index of the range `[lo, hi)`, where a part of a tree was
planted. -/
def Avoids (vis : Visited) (lo hi : Nat) : Prop := ∀ i : Nat, i ∈ vis.ids → i < lo ∨ hi ≤ i

namespace OpensWithin

variable {lo mid hi : Nat}

theorem nil : OpensWithin [] lo hi := by simp [OpensWithin]

/-- A container planted after its contents is entered before them. -/
theorem cons_fresh {s : List NodeId} (h : OpensWithin s lo mid) (hle : lo ≤ mid) :
    OpensWithin (mid :: s) lo (mid + 1) := by
  intro i hi
  rcases List.mem_cons.1 hi with rfl | hi
  · omega
  · have := h i hi
    omega

theorem append {s t : List NodeId} (h₁ : OpensWithin s lo mid) (h₂ : OpensWithin t mid hi)
    (hlo : lo ≤ mid) (hhi : mid ≤ hi) : OpensWithin (s ++ t) lo hi := by
  intro i hi
  rcases List.mem_append.1 hi with hi | hi
  · have := h₁ i hi
    omega
  · have := h₂ i hi
    omega

end OpensWithin

namespace Avoids

variable {vis : Visited} {lo mid hi : Nat}

theorem empty : Avoids {} lo hi := by simp [Avoids]

theorem of_le (h : Avoids vis lo hi) (hle : mid ≤ hi) : Avoids vis lo mid :=
  fun i hi' => (h i hi').imp id (by omega)

/-- The index a container was planted at is not visited yet. -/
theorem not_mem (h : Avoids vis lo (mid + 1)) (hle : lo ≤ mid) : mid ∉ vis.ids := by
  intro hm
  have := h mid hm
  omega

/-- Entering the container planted at `mid`, after its contents in `[lo, mid)`. -/
theorem insert (h : Avoids vis lo (mid + 1)) (hle : lo ≤ mid) : Avoids (vis.insert mid) lo mid := by
  intro i hi'
  rcases List.mem_cons.1 hi' with rfl | hi'
  · exact .inr (Nat.le_refl _)
  · exact (h i hi').imp id (by omega)

/-- A walk that entered only indices of `[lo, mid)` leaves the rest of the range unvisited. -/
theorem of_walks {vis' : Visited} {v : Value} {s : Shape} (h : Avoids vis lo hi)
    (hw : G.Walks vis v s vis') (hs : OpensWithin s.opened lo mid) (hle : lo ≤ mid) :
    Avoids vis' mid hi := by
  intro i hi'
  rw [hw.ids_eq, List.mem_append, List.mem_reverse] at hi'
  rcases hi' with hi' | hi'
  · exact .inl (hs i hi').2
  · exact (h i hi').imp (by omega) id

end Avoids

mutual
/-- **A walk from a planted tree mirrors it**, when none of the tree's fresh indices was
visited before. -/
theorem mirrors_of_walks_plant : ∀ (t : Tree) (g : Graph) {vis vis' : Visited} {s : Shape},
    (g.plant t).1.IsPrefix G → Avoids vis g.size (g.plant t).1.size →
    G.Walks vis (g.plant t).2 s vis' →
    s.Mirrors t ∧ OpensWithin s.opened g.size (g.plant t).1.size
  | .scalar sc line, g, vis, vis', s, _, _, hw => by
    cases hw
    exact ⟨.scalar sc line, .nil⟩
  | .struct tag uid line pairs, g, vis, vis', s, hG, hvis, hw => by
    rw [plant_struct] at hG hvis hw ⊢
    dsimp only at hG hvis hw ⊢
    -- the structure is planted last, at the index right after those of its values
    have hnode := hG.get?_eq (get?_add_self _ _)
    have hle : g.size ≤ (g.plantPairs pairs).1.size := (isPrefix_plantPairs g pairs).size_le
    simp only [size_add] at hvis ⊢
    cases hw with
    | missing _ _ h => simp [hnode] at h
    | again _ _ n h _ hc => exact (hvis.not_mem hle (by simpa [Visited.contains] using hc)).elim
    | leaf _ _ n h hb => rw [hnode] at h; cases h; simp [Node.isBranch] at hb
    | list _ _ _ n _ _ h hbody => rw [hnode] at h; cases h; simp at hbody
    | struct _ _ _ n uid' pairs' ps h hbody _ hkeys hl =>
      rw [hnode] at h; cases h
      simp only [Body.struct.injEq] at hbody
      obtain ⟨rfl, rfl⟩ := hbody
      have ih := mirrorsList_of_walksList_plantPairs pairs g ((isPrefix_add _ _).trans hG)
        (hvis.insert hle) hl
      refine ⟨.struct _ _ _ _ _ _ (hkeys.trans (plantPairs_keys g pairs)) ih.1, ?_⟩
      rw [Shape.opened, Shape.openedPairs_eq]
      exact ih.2.cons_fresh hle
  | .list tag line items, g, vis, vis', s, hG, hvis, hw => by
    rw [plant_list] at hG hvis hw ⊢
    dsimp only at hG hvis hw ⊢
    have hnode := hG.get?_eq (get?_add_self _ _)
    have hle : g.size ≤ (g.plantItems items).1.size := (isPrefix_plantItems g items).size_le
    simp only [size_add] at hvis ⊢
    cases hw with
    | missing _ _ h => simp [hnode] at h
    | again _ _ n h _ hc => exact (hvis.not_mem hle (by simpa [Visited.contains] using hc)).elim
    | leaf _ _ n h hb => rw [hnode] at h; cases h; simp [Node.isBranch] at hb
    | struct _ _ _ n _ _ _ h hbody => rw [hnode] at h; cases h; simp at hbody
    | list _ _ _ n items' ss h hbody _ hl =>
      rw [hnode] at h; cases h
      simp only [Body.list.injEq] at hbody
      subst hbody
      have ih := mirrorsList_of_walksList_plantItems items g ((isPrefix_add _ _).trans hG)
        (hvis.insert hle) hl
      exact ⟨.list _ _ _ _ _ ih.1, ih.2.cons_fresh hle⟩
  | .raw tag line text, g, vis, vis', s, hG, _, hw => by
    obtain ⟨rfl, -⟩ := hw.eq_leaf (hG.get?_eq (get?_add_self g _)) rfl
    exact ⟨.raw _ _ _ _, .nil⟩
  | .ints tag line vs, g, vis, vis', s, hG, _, hw => by
    obtain ⟨rfl, -⟩ := hw.eq_leaf (hG.get?_eq (get?_add_self g _)) rfl
    exact ⟨.ints _ _ _ _, .nil⟩
  | .reals tag line xs, g, vis, vis', s, hG, _, hw => by
    obtain ⟨rfl, -⟩ := hw.eq_leaf (hG.get?_eq (get?_add_self g _)) rfl
    exact ⟨.reals _ _ _ _, .nil⟩

theorem mirrorsList_of_walksList_plantPairs : ∀ (ps : List (String × Tree)) (g : Graph)
    {vis vis' : Visited} {ss : List Shape},
    (g.plantPairs ps).1.IsPrefix G → Avoids vis g.size (g.plantPairs ps).1.size →
    G.WalksList vis ((g.plantPairs ps).2.map Prod.snd) ss vis' →
    Shape.MirrorsList ss (ps.map Prod.snd) ∧
      OpensWithin (Shape.openedItems ss) g.size (g.plantPairs ps).1.size
  | [], g, vis, vis', ss, _, _, hw => by
    cases hw
    exact ⟨.nil, .nil⟩
  | (k, t) :: rest, g, vis, vis', ss, hG, hvis, hw => by
    rw [plantPairs_cons] at hG hvis hw ⊢
    dsimp only at hG hvis hw ⊢
    cases hw with
    | @cons _ vis₁ _ _ _ s ss' hw₁ hw₂ =>
      -- the first value's subtree takes the lowest indices, the rest those after it
      have hle₀ : g.size ≤ (g.plant t).1.size := (isPrefix_plant g t).size_le
      have hle₁ : (g.plant t).1.size ≤ ((g.plant t).1.plantPairs rest).1.size :=
        (isPrefix_plantPairs _ rest).size_le
      have h₁ := mirrors_of_walks_plant t g ((isPrefix_plantPairs _ rest).trans hG)
        (hvis.of_le hle₁) hw₁
      have h₂ := mirrorsList_of_walksList_plantPairs rest (g.plant t).1 hG
        (hvis.of_walks hw₁ h₁.2 hle₀) hw₂
      exact ⟨.cons h₁.1 h₂.1, h₁.2.append h₂.2 hle₀ hle₁⟩

theorem mirrorsList_of_walksList_plantItems : ∀ (ts : List Tree) (g : Graph)
    {vis vis' : Visited} {ss : List Shape},
    (g.plantItems ts).1.IsPrefix G → Avoids vis g.size (g.plantItems ts).1.size →
    G.WalksList vis (g.plantItems ts).2 ss vis' →
    Shape.MirrorsList ss ts ∧ OpensWithin (Shape.openedItems ss) g.size (g.plantItems ts).1.size
  | [], g, vis, vis', ss, _, _, hw => by
    cases hw
    exact ⟨.nil, .nil⟩
  | t :: rest, g, vis, vis', ss, hG, hvis, hw => by
    rw [plantItems_cons] at hG hvis hw ⊢
    dsimp only at hG hvis hw ⊢
    cases hw with
    | @cons _ vis₁ _ _ _ s ss' hw₁ hw₂ =>
      -- the first item's subtree takes the lowest indices, the rest those after it
      have hle₀ : g.size ≤ (g.plant t).1.size := (isPrefix_plant g t).size_le
      have hle₁ : (g.plant t).1.size ≤ ((g.plant t).1.plantItems rest).1.size :=
        (isPrefix_plantItems _ rest).size_le
      have h₁ := mirrors_of_walks_plant t g ((isPrefix_plantItems _ rest).trans hG)
        (hvis.of_le hle₁) hw₁
      have h₂ := mirrorsList_of_walksList_plantItems rest (g.plant t).1 hG
        (hvis.of_walks hw₁ h₁.2 hle₀) hw₂
      exact ⟨.cons h₁.1 h₂.1, h₁.2.append h₂.2 hle₀ hle₁⟩
end

theorem plantRoot_struct (g : Graph) (tag uid : String) (line : Nat)
    (pairs : List (String × Tree)) :
    g.plantRoot (.struct tag uid line pairs) =
      ((g.plant (.struct tag uid line pairs)).1, (g.plantPairs pairs).1.size) := rfl

/-- **The document rooted at a planted structure is walked as the tree it came from.** -/
theorem mirrors_walk_plantRoot (g : Graph) (tag uid : String) (line : Nat)
    (pairs : List (String × Tree)) :
    ((g.plantRoot (.struct tag uid line pairs)).1.walk {}
      (g.plantRoot (.struct tag uid line pairs)).2).1.Mirrors (.struct tag uid line pairs) := by
  rw [plantRoot_struct]
  exact (mirrors_of_walks_plant _ g (IsPrefix.refl _) Avoids.empty
    (walks_walk visitedOk_empty _)).1

end Graph

end GraphDoc
