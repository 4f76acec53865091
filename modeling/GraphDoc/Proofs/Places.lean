import GraphDoc.Proofs.Rebuild
/-! # The places a document holds a container at

A document rooted at a container holds that container at its root, and each container at every
position, among the values of a container it reaches, that points at it. A container held at two
places is reachable along two paths, which is how a document shares it or closes a cycle
through it.

The walk of a document meets each place once (`Graph.Walks.entries_nodup`): it enters a
container at one place and names it at each other place it reaches it from. So a container the
walk reaches again is held at two places (`Graph.heldTwice_of_repeats`). -/
namespace GraphDoc

namespace Graph

/-- `g.HoldsAt root p x`: the document rooted at `root` holds the container `x` at the place
`p`: its root at `none`, and at `some (y, i)` the value at position `i` of a container `y` it
reaches. -/
inductive HoldsAt (g : Graph) (root : NodeId) : Option (NodeId × Nat) → NodeId → Prop
  | root : HoldsAt g root none root
  | slot {y : NodeId} {n : Node} {i : Nat} {x : NodeId} : g.Reaches [root] y → g.get? y = some n →
      n.values[i]? = some (.node x) → HoldsAt g root (some (y, i)) x

/-- The document rooted at `root` reaches the container `x` along two paths: it holds `x` at two
places. -/
def HeldTwice (g : Graph) (root x : NodeId) : Prop :=
  ∃ p q, p ≠ q ∧ g.HoldsAt root p x ∧ g.HoldsAt root q x

theorem HoldsAt.reaches {g : Graph} {root x : NodeId} {p : Option (NodeId × Nat)}
    (h : g.HoldsAt root p x) : g.Reaches [root] x := by
  cases h with
  | root => exact .root (List.mem_singleton_self _)
  | slot hr hn hv => exact .child hr hn (Node.mem_children.mpr (List.mem_of_getElem? hv))

end Graph

namespace Shape

mutual
/-- The structures and lists a walk enters and the containers it reaches again, each with the
place it is held at, `p` for the walk itself, and whether the walk enters it there. -/
def entries (p : Option (NodeId × Nat)) : Shape → List (Option (NodeId × Nat) × NodeId × Bool)
  | .struct id _ _ _ ps => (p, id, true) :: entriesPairs id 0 ps
  | .list id _ _ ss => (p, id, true) :: entriesItems id 0 ss
  | .again id _ => [(p, id, false)]
  | _ => []

/-- The entries met from the values of pairs of container `y`, from position `i` on. -/
def entriesPairs (y : NodeId) (i : Nat) :
    List (String × Shape) → List (Option (NodeId × Nat) × NodeId × Bool)
  | [] => []
  | (_, s) :: rest => entries (some (y, i)) s ++ entriesPairs y (i + 1) rest

/-- The entries met from the items of container `y`, from position `i` on. -/
def entriesItems (y : NodeId) (i : Nat) : List Shape → List (Option (NodeId × Nat) × NodeId × Bool)
  | [] => []
  | s :: rest => entries (some (y, i)) s ++ entriesItems y (i + 1) rest
end

theorem entriesPairs_eq (y : NodeId) (ps : List (String × Shape)) (i : Nat) :
    entriesPairs y i ps = entriesItems y i (ps.map Prod.snd) := by
  induction ps generalizing i with
  | nil => rfl
  | cons p ps ih =>
    obtain ⟨k, s⟩ := p
    simp [entriesPairs, entriesItems, ih]

end Shape

namespace Graph

variable {g : Graph} {root : NodeId}

mutual
/-- **Every entry of the walk of a document is a place the document holds a container at.** -/
theorem Walks.holdsAt_entries : ∀ {vis vis' v s}, g.Walks vis v s vis' →
    ∀ {p}, (∀ x, v = .node x → g.HoldsAt root p x) → ∀ e ∈ s.entries p, g.HoldsAt root e.1 e.2.1
  | _, _, _, _, .scalar .., _, _, e, he | _, _, _, _, .missing .., _, _, e, he
  | _, _, _, _, .leaf .., _, _, e, he => by simp [Shape.entries] at he
  | _, _, _, _, .again _ id _ _ _ _, _, hold, e, he => by
    simp only [Shape.entries, List.mem_singleton] at he
    subst he
    exact hold id rfl
  | _, _, _, _, .struct _ _ id n uid pairs ps hn hb _ _ hl, _, hold, e, he => by
    have hid := hold id rfl
    simp only [Shape.entries, Shape.entriesPairs_eq, List.mem_cons] at he
    rcases he with rfl | he
    · exact hid
    · refine WalksList.holdsAt_entries hl (fun k v c hk hc => ?_) e he
      subst hc
      exact .slot hid.reaches hn (by simpa [Node.values, hb] using hk)
  | _, _, _, _, .list _ _ id n items ss hn hb _ hl, _, hold, e, he => by
    have hid := hold id rfl
    simp only [Shape.entries, List.mem_cons] at he
    rcases he with rfl | he
    · exact hid
    · refine WalksList.holdsAt_entries hl (fun k v c hk hc => ?_) e he
      subst hc
      exact .slot hid.reaches hn (by simpa [Node.values, hb] using hk)

theorem WalksList.holdsAt_entries : ∀ {vis vis' vs ss}, g.WalksList vis vs ss vis' →
    ∀ {y i}, (∀ k v c, vs[k]? = some v → v = .node c → g.HoldsAt root (some (y, i + k)) c) →
      ∀ e ∈ Shape.entriesItems y i ss, g.HoldsAt root e.1 e.2.1
  | _, _, _, _, .nil _, _, _, _, e, he => by simp [Shape.entriesItems] at he
  | _, _, _, _, .cons h₁ h₂, y, i, hold, e, he => by
    simp only [Shape.entriesItems, List.mem_append] at he
    rcases he with he | he
    · exact Walks.holdsAt_entries h₁ (fun c hc => hold 0 _ c rfl hc) e he
    · refine WalksList.holdsAt_entries h₂ (fun k v c hk hc => ?_) e he
      have h := hold (k + 1) v c (by simpa using hk) hc
      rwa [show i + (k + 1) = i + 1 + k by omega] at h
end

theorem Walks.mem_ids_of_mem {vis vis' : Visited} {v : Value} {s : Shape} {x : NodeId}
    (h : g.Walks vis v s vis') (hx : x ∈ vis.ids) : x ∈ vis'.ids := by
  rw [h.ids_eq]
  exact List.mem_append_right _ hx

theorem Walks.mem_ids_of_opened {vis vis' : Visited} {v : Value} {s : Shape} {x : NodeId}
    (h : g.Walks vis v s vis') (hx : x ∈ s.opened) : x ∈ vis'.ids := by
  rw [h.ids_eq]
  exact List.mem_append_left _ (List.mem_reverse.mpr hx)

/-- The containers a walk enters were not entered before it. -/
theorem Walks.opened_fresh {vis vis' : Visited} {v : Value} {s : Shape}
    (h : g.Walks vis v s vis') (hv : g.VisitedOk vis) : ∀ z ∈ s.opened, z ∉ vis.ids := by
  have hnodup := (h.visitedOk hv).1
  rw [h.ids_eq] at hnodup
  intro z hz hzv
  exact List.disjoint_of_nodup_append hnodup (List.mem_reverse.mpr hz) hzv

theorem WalksList.opened_fresh {vis vis' : Visited} {vs : List Value} {ss : List Shape}
    (h : g.WalksList vis vs ss vis') (hv : g.VisitedOk vis) :
    ∀ z ∈ Shape.openedItems ss, z ∉ vis.ids := by
  have hnodup := (h.visitedOk hv).1
  rw [h.ids_eq] at hnodup
  intro z hz hzv
  exact List.disjoint_of_nodup_append hnodup (List.mem_reverse.mpr hz) hzv

/-- The entries of a container entered at place `p`: its own, then those of its values. Its
place is none of theirs when the container holding it was entered before it and the containers
entered from its values were not. -/
theorem entries_enter {vis : Visited} {id : NodeId} {p : Option (NodeId × Nat)}
    {es : List (Option (NodeId × Nat) × NodeId × Bool)} {opened : List NodeId}
    (hid : id ∉ vis.ids) (hp : ∀ y j, p = some (y, j) → y ∈ vis.ids)
    (hfresh : ∀ z ∈ opened, z ∉ (vis.insert id).ids) (hnodup : (es.map Prod.fst).Nodup)
    (hloc : ∀ e ∈ es, (∃ k, 0 ≤ k ∧ e.1 = some (id, k)) ∨ ∃ z j, e.1 = some (z, j) ∧ z ∈ opened) :
    (((p, id, true) :: es).map Prod.fst).Nodup ∧
      ∀ e ∈ (p, id, true) :: es, e.1 = p ∨ ∃ z j, e.1 = some (z, j) ∧ z ∈ id :: opened := by
  simp only [List.map_cons, List.nodup_cons]
  refine ⟨⟨fun hmem => ?_, hnodup⟩, ?_⟩
  · obtain ⟨e, he, hep⟩ := List.mem_map.mp hmem
    rcases hloc e he with ⟨k, -, hek⟩ | ⟨z, j, hez, hz⟩
    · exact hid (hp id k (hep.symm.trans hek))
    · exact hfresh z hz (List.mem_cons_of_mem _ (hp z j (hep.symm.trans hez)))
  · intro e he
    rcases List.mem_cons.mp he with rfl | he
    · exact .inl rfl
    · rcases hloc e he with ⟨k, -, hek⟩ | ⟨z, j, hez, hz⟩
      · exact .inr ⟨id, k, hek, List.mem_cons_self⟩
      · exact .inr ⟨z, j, hez, List.mem_cons_of_mem _ hz⟩

mutual
/-- **The walk of a document meets each place once**: the places of its entries are distinct,
and each is the place of the walk or one among the values of a container it enters. -/
theorem Walks.entries_nodup : ∀ {vis vis' v s}, g.Walks vis v s vis' → g.VisitedOk vis →
    ∀ {p}, (∀ y j, p = some (y, j) → y ∈ vis.ids) →
      ((s.entries p).map Prod.fst).Nodup ∧
        ∀ e ∈ s.entries p, e.1 = p ∨ ∃ z j, e.1 = some (z, j) ∧ z ∈ s.opened
  | _, _, _, _, .scalar .., _, _, _ | _, _, _, _, .missing .., _, _, _
  | _, _, _, _, .leaf .., _, _, _ => by simp [Shape.entries]
  | _, _, _, _, .again .., _, _, _ => by simp [Shape.entries]
  | _, _, _, _, .struct vis _ id n uid pairs ps hn hb hc _ hl, hv, p, hp => by
    have hv' := hv.insert hn (by simp [Node.isBranch, hb]) hc
    obtain ⟨hnodup, hloc⟩ := WalksList.entries_nodup hl hv' (y := id) (i := 0) List.mem_cons_self
    simp only [Shape.entries, Shape.entriesPairs_eq, Shape.opened, Shape.openedPairs_eq]
    exact entries_enter (by simpa [Visited.contains] using hc) hp (hl.opened_fresh hv') hnodup hloc
  | _, _, _, _, .list vis _ id n items ss hn hb hc hl, hv, p, hp => by
    have hv' := hv.insert hn (by simp [Node.isBranch, hb]) hc
    obtain ⟨hnodup, hloc⟩ := WalksList.entries_nodup hl hv' (y := id) (i := 0) List.mem_cons_self
    simp only [Shape.entries, Shape.opened]
    exact entries_enter (by simpa [Visited.contains] using hc) hp (hl.opened_fresh hv') hnodup hloc

theorem WalksList.entries_nodup : ∀ {vis vis' vs ss}, g.WalksList vis vs ss vis' →
    g.VisitedOk vis → ∀ {y i}, y ∈ vis.ids →
      ((Shape.entriesItems y i ss).map Prod.fst).Nodup ∧
        ∀ e ∈ Shape.entriesItems y i ss, (∃ k, i ≤ k ∧ e.1 = some (y, k)) ∨
          ∃ z j, e.1 = some (z, j) ∧ z ∈ Shape.openedItems ss
  | _, _, _, _, .nil _, _, _, _, _ => by simp [Shape.entriesItems]
  | _, _, _, _, .cons h₁ h₂, hv, y, i, hy => by
    have hv₁ := h₁.visitedOk hv
    have hy₁ := h₁.mem_ids_of_mem hy
    obtain ⟨hnodup₁, hloc₁⟩ := Walks.entries_nodup h₁ hv (p := some (y, i))
      (fun y' j h => by cases h; exact hy)
    obtain ⟨hnodup₂, hloc₂⟩ := WalksList.entries_nodup h₂ hv₁ (i := i + 1) hy₁
    have hfresh₁ := h₁.opened_fresh hv
    have hfresh₂ := h₂.opened_fresh hv₁
    simp only [Shape.entriesItems, List.map_append]
    refine ⟨List.nodup_append.mpr ⟨hnodup₁, hnodup₂, ?_⟩, ?_⟩
    · intro a ha b hb hab
      obtain ⟨e, he, rfl⟩ := List.mem_map.mp ha
      obtain ⟨e', he', rfl⟩ := List.mem_map.mp hb
      rcases hloc₁ e he with h₁e | ⟨z, j, hez, hz⟩ <;>
        rcases hloc₂ e' he' with ⟨k, hk, hek⟩ | ⟨z', j', hez', hz'⟩
      · rw [h₁e, hek] at hab
        cases hab
        omega
      · rw [h₁e, hez'] at hab
        cases hab
        exact hfresh₂ _ hz' hy₁
      · rw [hez, hek] at hab
        cases hab
        exact hfresh₁ _ hz hy
      · rw [hez, hez'] at hab
        cases hab
        -- what the first value enters was entered before the rest is walked
        exact hfresh₂ _ hz' (h₁.mem_ids_of_opened hz)
    · intro e he
      rcases List.mem_append.mp he with he | he
      · rcases hloc₁ e he with h₁e | ⟨z, j, hez, hz⟩
        · exact .inl ⟨i, le_refl i, h₁e⟩
        · exact .inr ⟨z, j, hez, by simp [Shape.openedItems, hz]⟩
      · rcases hloc₂ e he with ⟨k, hk, hek⟩ | ⟨z, j, hez, hz⟩
        · exact .inl ⟨k, by omega, hek⟩
        · exact .inr ⟨z, j, hez, by simp [Shape.openedItems, hz]⟩
end

mutual
/-- A container a walk reaches again is a structure or a list of the graph, entered before the
walk or by it. -/
theorem Walks.repeats_entered : ∀ {vis vis' v s}, g.Walks vis v s vis' → ∀ r ∈ s.repeats,
    g.get? r.1 = some r.2 ∧ r.2.isBranch = true ∧ (r.1 ∈ vis.ids ∨ r.1 ∈ s.opened)
  | _, _, _, _, .scalar .., r, hr | _, _, _, _, .missing .., r, hr
  | _, _, _, _, .leaf .., r, hr => by simp [Shape.repeats] at hr
  | _, _, _, _, .again _ id n hn hb hc, r, hr => by
    simp only [Shape.repeats, List.mem_singleton] at hr
    subst hr
    exact ⟨hn, hb, .inl (by simpa [Visited.contains] using hc)⟩
  | _, _, _, _, .struct vis _ id n uid pairs ps hn hb hc _ hl, r, hr => by
    rw [Shape.repeats, Shape.repeatsPairs_eq] at hr
    obtain ⟨hget, hbr, hin⟩ := WalksList.repeats_entered hl r hr
    refine ⟨hget, hbr, ?_⟩
    simp only [Visited.insert, List.mem_cons, Shape.opened, Shape.openedPairs_eq] at hin ⊢
    tauto
  | _, _, _, _, .list vis _ id n items ss hn hb hc hl, r, hr => by
    rw [Shape.repeats] at hr
    obtain ⟨hget, hbr, hin⟩ := WalksList.repeats_entered hl r hr
    refine ⟨hget, hbr, ?_⟩
    simp only [Visited.insert, List.mem_cons, Shape.opened] at hin ⊢
    tauto

theorem WalksList.repeats_entered : ∀ {vis vis' vs ss}, g.WalksList vis vs ss vis' →
    ∀ r ∈ Shape.repeatsItems ss, g.get? r.1 = some r.2 ∧ r.2.isBranch = true ∧
      (r.1 ∈ vis.ids ∨ r.1 ∈ Shape.openedItems ss)
  | _, _, _, _, .nil _, r, hr => by simp [Shape.repeatsItems] at hr
  | _, _, _, _, .cons h₁ h₂, r, hr => by
    simp only [Shape.repeatsItems, List.mem_append] at hr
    rcases hr with hr | hr
    · obtain ⟨hget, hbr, hin⟩ := Walks.repeats_entered h₁ r hr
      refine ⟨hget, hbr, ?_⟩
      simp only [Shape.openedItems, List.mem_append]
      tauto
    · obtain ⟨hget, hbr, hin⟩ := WalksList.repeats_entered h₂ r hr
      refine ⟨hget, hbr, ?_⟩
      rw [h₁.ids_eq] at hin
      simp only [Shape.openedItems, List.mem_append, List.mem_reverse] at hin ⊢
      tauto
end

mutual
/-- A structure or a list a walk enters is an entry of the walk, entered. -/
theorem Walks.mem_entries_of_opened : ∀ {vis vis' v s}, g.Walks vis v s vis' →
    ∀ {p}, ∀ x ∈ s.opened, ∃ q, (q, x, true) ∈ s.entries p
  | _, _, _, _, .scalar .., _, x, hx | _, _, _, _, .missing .., _, x, hx
  | _, _, _, _, .leaf .., _, x, hx | _, _, _, _, .again .., _, x, hx => by
    simp [Shape.opened] at hx
  | _, _, _, _, .struct _ _ id n uid pairs ps hn hb hc _ hl, p, x, hx => by
    simp only [Shape.opened, Shape.openedPairs_eq, List.mem_cons] at hx
    simp only [Shape.entries, Shape.entriesPairs_eq, List.mem_cons]
    rcases hx with rfl | hx
    · exact ⟨p, .inl rfl⟩
    · obtain ⟨q, hq⟩ := WalksList.mem_entries_of_opened hl (y := id) (i := 0) x hx
      exact ⟨q, .inr hq⟩
  | _, _, _, _, .list _ _ id n items ss hn hb hc hl, p, x, hx => by
    simp only [Shape.opened, List.mem_cons] at hx
    simp only [Shape.entries, List.mem_cons]
    rcases hx with rfl | hx
    · exact ⟨p, .inl rfl⟩
    · obtain ⟨q, hq⟩ := WalksList.mem_entries_of_opened hl (y := id) (i := 0) x hx
      exact ⟨q, .inr hq⟩

theorem WalksList.mem_entries_of_opened : ∀ {vis vis' vs ss}, g.WalksList vis vs ss vis' →
    ∀ {y i}, ∀ x ∈ Shape.openedItems ss, ∃ q, (q, x, true) ∈ Shape.entriesItems y i ss
  | _, _, _, _, .nil _, _, _, x, hx => by simp [Shape.openedItems] at hx
  | _, _, _, _, .cons h₁ h₂, y, i, x, hx => by
    simp only [Shape.openedItems, List.mem_append] at hx
    simp only [Shape.entriesItems, List.mem_append]
    rcases hx with hx | hx
    · obtain ⟨q, hq⟩ := Walks.mem_entries_of_opened h₁ (p := some (y, i)) x hx
      exact ⟨q, .inl hq⟩
    · obtain ⟨q, hq⟩ := WalksList.mem_entries_of_opened h₂ (y := y) (i := i + 1) x hx
      exact ⟨q, .inr hq⟩
end

mutual
/-- A container a walk reaches again is an entry of the walk, not entered. -/
theorem Walks.mem_entries_of_repeats : ∀ {vis vis' v s}, g.Walks vis v s vis' →
    ∀ {p}, ∀ r ∈ s.repeats, ∃ q, (q, r.1, false) ∈ s.entries p
  | _, _, _, _, .scalar .., _, r, hr | _, _, _, _, .missing .., _, r, hr
  | _, _, _, _, .leaf .., _, r, hr => by simp [Shape.repeats] at hr
  | _, _, _, _, .again .., p, r, hr => by
    simp only [Shape.repeats, List.mem_singleton] at hr
    subst hr
    exact ⟨p, by simp [Shape.entries]⟩
  | _, _, _, _, .struct _ _ id n uid pairs ps hn hb hc _ hl, p, r, hr => by
    rw [Shape.repeats, Shape.repeatsPairs_eq] at hr
    obtain ⟨q, hq⟩ := WalksList.mem_entries_of_repeats hl (y := id) (i := 0) r hr
    exact ⟨q, by simp [Shape.entries, Shape.entriesPairs_eq, hq]⟩
  | _, _, _, _, .list _ _ id n items ss hn hb hc hl, p, r, hr => by
    rw [Shape.repeats] at hr
    obtain ⟨q, hq⟩ := WalksList.mem_entries_of_repeats hl (y := id) (i := 0) r hr
    exact ⟨q, by simp [Shape.entries, hq]⟩

theorem WalksList.mem_entries_of_repeats : ∀ {vis vis' vs ss}, g.WalksList vis vs ss vis' →
    ∀ {y i}, ∀ r ∈ Shape.repeatsItems ss, ∃ q, (q, r.1, false) ∈ Shape.entriesItems y i ss
  | _, _, _, _, .nil _, _, _, r, hr => by simp [Shape.repeatsItems] at hr
  | _, _, _, _, .cons h₁ h₂, y, i, r, hr => by
    simp only [Shape.repeatsItems, List.mem_append] at hr
    simp only [Shape.entriesItems, List.mem_append]
    rcases hr with hr | hr
    · obtain ⟨q, hq⟩ := Walks.mem_entries_of_repeats h₁ (p := some (y, i)) r hr
      exact ⟨q, .inl hq⟩
    · obtain ⟨q, hq⟩ := WalksList.mem_entries_of_repeats h₂ (y := y) (i := i + 1) r hr
      exact ⟨q, .inr hq⟩
end

/-- **A container the walk of a document reaches again is reachable along two paths**: the
walk entered it at one place and reached it again at another. -/
theorem heldTwice_of_repeats {r : NodeId × Node} (h : r ∈ (g.walk {} root).1.repeats) :
    g.HeldTwice root r.1 := by
  have hw := walks_walk (g := g) visitedOk_empty root
  have hhold : ∀ e ∈ (g.walk {} root).1.entries none, g.HoldsAt root e.1 e.2.1 :=
    hw.holdsAt_entries fun x hx => by
      cases hx
      exact .root
  obtain ⟨hnodup, -⟩ := hw.entries_nodup visitedOk_empty (p := none) (by simp)
  -- nothing was entered before the walk, so it entered the container itself
  have hx : r.1 ∈ (g.walk {} root).1.opened := by
    obtain ⟨-, -, hin⟩ := hw.repeats_entered r h
    simpa using hin
  obtain ⟨p, hp⟩ := hw.mem_entries_of_opened (p := none) r.1 hx
  obtain ⟨q, hq⟩ := hw.mem_entries_of_repeats (p := none) r h
  refine ⟨p, q, fun hpq => ?_, hhold _ hp, hhold _ hq⟩
  -- two entries at one place are one entry, entered or not
  have heq := List.inj_on_of_nodup_map hnodup hp hq hpq
  simp at heq

end Graph

end GraphDoc
