import GraphDoc.Proofs.Walk
import GraphDoc.Graph.Live
/-! # Which containers survive freeing

`Graph.survivors` frees, one at a time, a container of the pool that no handle and no container
left in the pool owns. What it leaves is the largest part of the pool that sustains itself: in
which every container is held by a handle or owned by another container of that part
(`Graph.Sustains`).

* Every part of the pool that sustains itself survives (`Graph.subset_survivors`): the container
  freed at each step has no owner, so it lies outside such a part.
* The survivors sustain themselves (`Graph.survivors_sustains`): the freeing stops only when
  every container left has an owner.

So liveness only grows with the handles (`Graph.live_of_subset`), and a container that a handle
reaches through the values of structures and lists is alive (`Graph.live_of_reaches`). A UID link
is not followed: it owns nothing.
-/
namespace GraphDoc

namespace Graph

variable (g : Graph)

/-- Every container of `S` is held by a handle in `held` or owned by a container of `S`. -/
def Sustains (held : List NodeId) (S : NodeId → Prop) : Prop :=
  ∀ id, S id → id ∈ held ∨ ∃ p n, S p ∧ g.get? p = some n ∧ id ∈ n.children

variable {g}

/-- More handles sustain what fewer do. -/
theorem Sustains.mono {held held' : List NodeId} {S : NodeId → Prop} (hsub : held ⊆ held')
    (h : g.Sustains held S) : g.Sustains held' S := by
  intro id hid
  rcases h id hid with hheld | howned
  · exact .inl (hsub hheld)
  · exact .inr howned

variable (g)

theorem owned_iff {held pool : List NodeId} {id : NodeId} :
    g.owned held pool id = true ↔ id ∈ held ∨ ∃ p ∈ pool, ∃ n, g.get? p = some n ∧ id ∈ n.children := by
  simp only [owned, Bool.or_eq_true, List.contains_iff_mem, List.any_eq_true]
  refine or_congr_right (exists_congr fun p => and_congr_right fun _ => ?_)
  cases g.get? p <;> simp

theorem survivors_subset (held : List NodeId) : ∀ pool : List NodeId, g.survivors held pool ⊆ pool := by
  intro pool
  fun_induction g.survivors held pool with
  | case1 pool _ => exact List.Subset.refl pool
  | case2 pool x _ ih => exact List.Subset.trans ih List.erase_subset

/-- **Every part of the pool that sustains itself survives the freeing.** -/
theorem subset_survivors {held : List NodeId} {S : NodeId → Prop} (hS : g.Sustains held S) :
    ∀ {pool : List NodeId}, (∀ id, S id → id ∈ pool) → ∀ id, S id → id ∈ g.survivors held pool := by
  intro pool hpool
  fun_induction g.survivors held pool with
  | case1 pool _ => exact hpool
  | case2 pool x hfound ih =>
    -- the container freed has no owner, so it lies outside `S`
    have hx : g.owned held pool x = false := by simpa using List.find?_some hfound
    have hxS : ¬ S x := by
      intro hSx
      have howned : g.owned held pool x = true := by
        rcases hS x hSx with hheld | ⟨p, n, hp, hn, hc⟩
        · exact (g.owned_iff).2 (.inl hheld)
        · exact (g.owned_iff).2 (.inr ⟨p, hpool p hp, n, hn, hc⟩)
      rw [hx] at howned
      cases howned
    exact ih fun id hid => (List.mem_erase_of_ne fun e : id = x => hxS (e ▸ hid)).2 (hpool id hid)

/-- **The survivors sustain themselves**: each is held, or owned by another survivor. -/
theorem survivors_sustains (held : List NodeId) :
    ∀ pool : List NodeId, g.Sustains held (· ∈ g.survivors held pool) := by
  intro pool
  fun_induction g.survivors held pool with
  | case1 pool hnone =>
    -- the freeing stopped: every container of the pool has an owner in it
    intro id hid
    have howned : g.owned held pool id = true := by
      simpa using List.find?_eq_none.1 hnone id hid
    rcases (g.owned_iff).1 howned with hheld | ⟨p, hp, n, hn, hc⟩
    · exact .inl hheld
    · exact .inr ⟨p, n, hp, hn, hc⟩
  | case2 pool x _ ih => exact ih

/-- **Liveness grows with the handles.** -/
theorem live_of_subset {held held' : List NodeId} (hsub : held ⊆ held') {id : NodeId}
    (h : g.live held id = true) : g.live held' id = true := by
  simp only [live, List.contains_iff_mem] at h ⊢
  exact g.subset_survivors ((g.survivors_sustains held _).mono hsub)
    (fun c hc => g.survivors_subset held _ hc) id h

/-- **A container that a handle reaches through structures and lists is alive.** -/
theorem live_of_reaches {held roots : List NodeId} (hroots : roots ⊆ held) {id : NodeId}
    (hr : g.Reaches roots id) (hlt : id < g.size) : g.live held id = true := by
  simp only [live, List.contains_iff_mem]
  -- the containers the roots reach own one another, from the roots down
  have hS : g.Sustains held fun c => g.Reaches roots c ∧ c < g.size := by
    rintro c ⟨hc, -⟩
    cases hc with
    | root hc => exact .inl (hroots hc)
    | child hp hn hmem => exact .inr ⟨_, _, ⟨hp, lt_size_of_get? hn⟩, hn, hmem⟩
  exact g.subset_survivors hS (fun c hc => List.mem_range.2 hc.2) id ⟨hr, hlt⟩

/-- **A container that a handle holds is alive.** -/
theorem live_of_held {held : List NodeId} {id : NodeId} (hid : id ∈ held)
    (hlt : id < g.size) : g.live held id = true :=
  g.live_of_reaches (List.cons_subset.2 ⟨hid, List.nil_subset _⟩) (.root (List.mem_singleton_self id)) hlt

end Graph

end GraphDoc
