import GraphDoc.Graph.Outline
import Mathlib.Data.List.Nodup

/-! # Walks as a relation

`Graph.unfold` walks a graph with fuel, which bounds its depth. This module says what a walk
does without fuel: `Graph.Walks g vis v s vis'` holds when the walk from the value `v`, with the
containers of `vis` entered before, gives the shape `s` and leaves `vis'` entered. A structure
or a list is entered at most once and only named when it is reached again; rawtext blocks and
arrays are visited every time.

The fuel that `Graph.walk` and `Graph.walkAll` give is always enough (`fuelWalks`): each level
of a walk enters a container not entered before, and a visited set of distinct containers of
the graph has at most `g.size` of them. Everything else is proved on the relation:

* a walk adds what it enters to the visited set, most recent first (`Walks.ids_eq`), and keeps
  that set a set of distinct structures and lists (`Walks.visitedOk`);
* it enters only containers reachable from its start (`Walks.reaches`), and every structure
  or list held by a container it enters is entered by the time it stops (`Walks.closed`);
* so the walks from a list of roots enter each reachable structure and list exactly once, in
  the order `Graph.preorder` (`preorder_nodup`, `mem_preorder`).
-/
namespace GraphDoc

namespace Shape

mutual
/-- The structures and lists a walk opens, in the order it opens them: those of
`Shape.entered` without the blocks and arrays, which a walk never marks as visited. -/
def opened : Shape → List NodeId
  | .struct id _ _ _ pairs => id :: openedPairs pairs
  | .list id _ _ items => id :: openedItems items
  | _ => []

/-- The structures and lists opened from the values of pairs. -/
def openedPairs : List (String × Shape) → List NodeId
  | [] => []
  | (_, s) :: rest => opened s ++ openedPairs rest

/-- The structures and lists opened from items. -/
def openedItems : List Shape → List NodeId
  | [] => []
  | s :: rest => opened s ++ openedItems rest
end

theorem openedPairs_eq (ps : List (String × Shape)) :
    openedPairs ps = openedItems (ps.map Prod.snd) := by
  induction ps with
  | nil => simp [openedPairs, openedItems]
  | cons p ps ih =>
    obtain ⟨k, s⟩ := p
    simp [openedPairs, openedItems, ih]

theorem openedItems_eq (ss : List Shape) : openedItems ss = ss.flatMap opened := by
  induction ss with
  | nil => rfl
  | cons s ss ih => simp [openedItems, ih]

end Shape

namespace Node

/-- The values of a structure (those of its pairs) or of a list, in order; other containers
hold none. -/
def values (n : Node) : List Value :=
  match n.body with
  | .struct _ pairs => pairs.map Prod.snd
  | .list items => items
  | _ => []

theorem mem_children {n : Node} {c : NodeId} : c ∈ n.children ↔ Value.node c ∈ n.values := by
  obtain ⟨tag, line, body⟩ := n
  cases body with
  | struct uid pairs =>
    simp only [children, values, List.mem_flatMap, List.mem_map]
    constructor
    · rintro ⟨⟨k, v⟩, hp, hc⟩
      cases v with
      | scalar s l => simp at hc
      | node id => simp at hc; exact ⟨(k, .node id), hp, by simp [hc]⟩
    · rintro ⟨⟨k, v⟩, hp, rfl⟩
      exact ⟨(k, .node c), hp, by simp⟩
  | list items =>
    simp only [children, values, List.mem_flatMap]
    constructor
    · rintro ⟨v, hv, hc⟩
      cases v with
      | scalar s l => simp at hc
      | node id => simp at hc; exact hc ▸ hv
    · intro h
      exact ⟨.node c, h, by simp⟩
  | raw _ | ints _ | reals _ => simp [children, values]

theorem isBranch_of_mem_children {n : Node} {c : NodeId} (h : c ∈ n.children) :
    n.isBranch = true := by
  obtain ⟨tag, line, body⟩ := n
  cases body <;> simp_all [children, isBranch]

end Node

namespace Graph

variable (g : Graph)

/-- The index of a structure or a list of the graph. -/
def IsBranch (id : NodeId) : Prop := ∃ n, g.get? id = some n ∧ n.isBranch = true

/-- A visited set of distinct structures and lists of the graph. -/
def VisitedOk (vis : Visited) : Prop := vis.ids.Nodup ∧ ∀ id ∈ vis.ids, g.IsBranch id

mutual
/-- The walk from a value, with `vis` entered before, gives a shape and leaves `vis'`
entered. -/
inductive Walks : Visited → Value → Shape → Visited → Prop
  | scalar (vis : Visited) (s : Scalar) (line : Nat) :
      Walks vis (.scalar s line) (.scalar s line) vis
  /-- an index with no container -/
  | missing (vis : Visited) (id : NodeId) : g.get? id = none → Walks vis (.node id) .missing vis
  /-- a structure or a list entered before is only named -/
  | again (vis : Visited) (id : NodeId) (n : Node) : g.get? id = some n → n.isBranch = true →
      vis.contains id = true → Walks vis (.node id) (.again id n) vis
  /-- a rawtext block or an array is visited every time it is reached -/
  | leaf (vis : Visited) (id : NodeId) (n : Node) : g.get? id = some n → n.isBranch = false →
      Walks vis (.node id) (.leaf id n) vis
  /-- a structure entered for the first time: its values are walked in order -/
  | struct (vis vis' : Visited) (id : NodeId) (n : Node) (uid : String)
      (pairs : List (String × Value)) (ps : List (String × Shape)) :
      g.get? id = some n → n.body = .struct uid pairs → vis.contains id = false →
      ps.map Prod.fst = pairs.map Prod.fst →
      WalksList (vis.insert id) (pairs.map Prod.snd) (ps.map Prod.snd) vis' →
      Walks vis (.node id) (.struct id n.tag uid n.line ps) vis'
  /-- a list entered for the first time: its items are walked in order -/
  | list (vis vis' : Visited) (id : NodeId) (n : Node) (items : List Value) (ss : List Shape) :
      g.get? id = some n → n.body = .list items → vis.contains id = false →
      WalksList (vis.insert id) items ss vis' → Walks vis (.node id) (.list id n.tag n.line ss) vis'

/-- The walks from values in order, each starting where the one before stopped. -/
inductive WalksList : Visited → List Value → List Shape → Visited → Prop
  | nil (vis : Visited) : WalksList vis [] [] vis
  | cons {vis vis₁ vis₂ : Visited} {v : Value} {vs : List Value} {s : Shape} {ss : List Shape} :
      Walks vis v s vis₁ → WalksList vis₁ vs ss vis₂ → WalksList vis (v :: vs) (s :: ss) vis₂
end

/-- The containers reachable from `roots` through the values of structures and lists. A UID
reference is not followed. -/
inductive Reaches (g : Graph) (roots : List NodeId) : NodeId → Prop
  | root {id : NodeId} : id ∈ roots → Reaches g roots id
  | child {id c : NodeId} {n : Node} : Reaches g roots id → g.get? id = some n → c ∈ n.children →
      Reaches g roots c

variable {g} {roots : List NodeId}

/-! ## What a walk enters -/

mutual
/-- A walk adds what it enters to the visited set, most recent first. -/
theorem Walks.ids_eq : ∀ {vis vis' v s}, g.Walks vis v s vis' →
    vis'.ids = s.opened.reverse ++ vis.ids
  | _, _, _, _, .scalar .. | _, _, _, _, .missing .. | _, _, _, _, .again ..
  | _, _, _, _, .leaf .. => by simp [Shape.opened]
  | _, _, _, _, .struct _ _ _ _ _ _ _ _ _ _ _ hl => by
    rw [WalksList.ids_eq hl]
    simp [Shape.opened, Shape.openedPairs_eq, Visited.insert]
  | _, _, _, _, .list _ _ _ _ _ _ _ _ _ hl => by
    rw [WalksList.ids_eq hl]
    simp [Shape.opened, Visited.insert]

theorem WalksList.ids_eq : ∀ {vis vis' vs ss}, g.WalksList vis vs ss vis' →
    vis'.ids = (Shape.openedItems ss).reverse ++ vis.ids
  | _, _, _, _, .nil _ => by simp [Shape.openedItems]
  | _, _, _, _, .cons h hl => by
    rw [WalksList.ids_eq hl, Walks.ids_eq h]
    simp [Shape.openedItems]
end

theorem lt_size_of_get? {id : NodeId} {n : Node} (h : g.get? id = some n) : id < g.size := by
  simp only [get?, Array.getElem?_eq_some_iff] at h
  obtain ⟨hlt, -⟩ := h
  exact hlt

theorem IsBranch.lt_size {id : NodeId} (h : g.IsBranch id) : id < g.size := by
  obtain ⟨n, hn, -⟩ := h
  exact lt_size_of_get? hn

/-- A visited set of distinct containers of the graph has at most `g.size` entries. -/
theorem VisitedOk.size_le {vis : Visited} (h : g.VisitedOk vis) : vis.size ≤ g.size := by
  have hsub : vis.ids ⊆ List.range g.size := fun id hid => by
    simpa using (h.2 id hid).lt_size
  simpa [Visited.size] using h.1.length_le_of_subset hsub

theorem VisitedOk.insert {vis : Visited} {id : NodeId} {n : Node} (h : g.VisitedOk vis)
    (hn : g.get? id = some n) (hb : n.isBranch = true) (hc : vis.contains id = false) :
    g.VisitedOk (vis.insert id) := by
  have hid : id ∉ vis.ids := by simpa [Visited.contains] using hc
  refine ⟨List.nodup_cons.mpr ⟨hid, h.1⟩, fun x hx => ?_⟩
  rcases List.mem_cons.mp hx with rfl | hx
  · exact ⟨n, hn, hb⟩
  · exact h.2 x hx

mutual
/-- A walk keeps the visited set a set of distinct structures and lists. -/
theorem Walks.visitedOk : ∀ {vis vis' v s}, g.Walks vis v s vis' → g.VisitedOk vis →
    g.VisitedOk vis'
  | _, _, _, _, .scalar .., h | _, _, _, _, .missing .., h | _, _, _, _, .again .., h
  | _, _, _, _, .leaf .., h => h
  | _, _, _, _, .struct _ _ _ _ _ _ _ hn hb hc _ hl, h =>
    WalksList.visitedOk hl (h.insert hn (by simp [Node.isBranch, hb]) hc)
  | _, _, _, _, .list _ _ _ _ _ _ hn hb hc hl, h =>
    WalksList.visitedOk hl (h.insert hn (by simp [Node.isBranch, hb]) hc)

theorem WalksList.visitedOk : ∀ {vis vis' vs ss}, g.WalksList vis vs ss vis' → g.VisitedOk vis →
    g.VisitedOk vis'
  | _, _, _, _, .nil _, h => h
  | _, _, _, _, .cons h₁ hl, h => WalksList.visitedOk hl (Walks.visitedOk h₁ h)
end

theorem Walks.size_le {vis vis' : Visited} {v : Value} {s : Shape} (h : g.Walks vis v s vis') :
    vis.size ≤ vis'.size := by
  simp [Visited.size, h.ids_eq]

/-! ## The fuel of a walk is enough -/


variable (g) in
theorem unfoldItems_cons (b : Bool) (fuel : Nat) (vis : Visited) (v : Value) (vs : List Value) :
    g.unfoldItems b fuel vis (v :: vs) =
      ((g.unfold b fuel vis v).1 :: (g.unfoldItems b fuel (g.unfold b fuel vis v).2 vs).1,
        (g.unfoldItems b fuel (g.unfold b fuel vis v).2 vs).2) := by
  rw [unfoldItems]

variable (g) in
theorem unfoldPairs_cons (b : Bool) (fuel : Nat) (vis : Visited) (k : String) (v : Value)
    (ps : List (String × Value)) :
    g.unfoldPairs b fuel vis ((k, v) :: ps) =
      ((k, (g.unfold b fuel vis v).1) :: (g.unfoldPairs b fuel (g.unfold b fuel vis v).2 ps).1,
        (g.unfoldPairs b fuel (g.unfold b fuel vis v).2 ps).2) := by
  rw [unfoldPairs]

/-- What fuel `fuel` can do from `vis`: walk from any value as the relation says. -/
def FuelWalks (g : Graph) (fuel : Nat) : Prop :=
  ∀ vis v, g.VisitedOk vis → g.size < fuel + vis.size →
    g.Walks vis v (g.unfold false fuel vis v).1 (g.unfold false fuel vis v).2

theorem FuelWalks.items {fuel : Nat} (H : g.FuelWalks fuel) :
    ∀ vis vs, g.VisitedOk vis → g.size < fuel + vis.size →
      g.WalksList vis vs (g.unfoldItems false fuel vis vs).1 (g.unfoldItems false fuel vis vs).2
  | vis, [], _, _ => by rw [unfoldItems]; exact .nil vis
  | vis, v :: vs, hv, hf => by
    have h₁ := H vis v hv hf
    rw [unfoldItems_cons]
    exact .cons h₁ (H.items _ vs (h₁.visitedOk hv) (by have := h₁.size_le; omega))

theorem FuelWalks.pairs {fuel : Nat} (H : g.FuelWalks fuel) :
    ∀ vis ps, g.VisitedOk vis → g.size < fuel + vis.size →
      (g.unfoldPairs false fuel vis ps).1.map Prod.fst = ps.map Prod.fst ∧
      g.WalksList vis (ps.map Prod.snd) ((g.unfoldPairs false fuel vis ps).1.map Prod.snd)
        (g.unfoldPairs false fuel vis ps).2
  | vis, [], _, _ => by rw [unfoldPairs]; exact ⟨rfl, .nil vis⟩
  | vis, (k, v) :: ps, hv, hf => by
    have h₁ := H vis v hv hf
    obtain ⟨hk, hl⟩ := H.pairs _ ps (h₁.visitedOk hv) (by have := h₁.size_le; omega)
    rw [unfoldPairs_cons]
    exact ⟨by simp [hk], .cons h₁ hl⟩

/-- **Every amount of fuel walks as the relation says**, from a visited set of distinct
containers, when it exceeds the containers not yet entered: each level of the walk enters
one of them, and there are at most `g.size`. -/
theorem fuelWalks (fuel : Nat) : g.FuelWalks fuel := by
  induction fuel with
  | zero =>
    intro vis v hv hf
    have := hv.size_le
    omega
  | succ fuel ih =>
    intro vis v hv hf
    cases v with
    | scalar s line => rw [unfold.eq_1]; exact .scalar vis s line
    | node id =>
      cases hn : g.get? id with
      | none => rw [unfold.eq_3 g false vis id _ (by omega) hn]; exact .missing vis id hn
      | some n =>
        rw [unfold.eq_4 g false vis id fuel n hn]
        obtain ⟨tag, line, body⟩ := n
        cases body with
        | struct uid pairs =>
          cases hc : vis.contains id
          · have hv' := hv.insert hn rfl hc
            obtain ⟨hk, hl⟩ := ih.pairs (vis.insert id) pairs hv'
              (by simp [Visited.size, Visited.insert] at hf ⊢; omega)
            simp only [Node.isBranch, Bool.or_false, Bool.and_false, if_true]
            exact .struct vis _ id _ uid pairs _ hn rfl hc hk hl
          · simp only [Node.isBranch, Bool.or_false, Bool.and_self, if_true]
            exact .again vis id _ hn rfl hc
        | list items =>
          cases hc : vis.contains id
          · have hv' := hv.insert hn rfl hc
            have hl := ih.items (vis.insert id) items hv'
              (by simp [Visited.size, Visited.insert] at hf ⊢; omega)
            simp only [Node.isBranch, Bool.or_false, Bool.and_false, if_true]
            exact .list vis _ id _ items _ hn rfl hc hl
          · simp only [Node.isBranch, Bool.or_false, Bool.and_self, if_true]
            exact .again vis id _ hn rfl hc
        | raw text => exact .leaf vis id _ hn rfl
        | ints xs => exact .leaf vis id _ hn rfl
        | reals xs => exact .leaf vis id _ hn rfl

theorem walkAll_eq (b : Bool) (vis : Visited) (ids : List NodeId) :
    g.walkAll b vis ids = g.unfoldItems b (g.size + 1) vis (ids.map .node) := by
  induction ids generalizing vis with
  | nil => rw [walkAll, List.map_nil, unfoldItems]
  | cons id ids ih => rw [walkAll, List.map_cons, unfoldItems_cons, ← ih]

/-- **The walks from several containers follow the relation**, from any visited set of
distinct containers. -/
theorem walksList_walkAll {vis : Visited} (hv : g.VisitedOk vis) (ids : List NodeId) :
    g.WalksList vis (ids.map .node) (g.walkAll false vis ids).1 (g.walkAll false vis ids).2 := by
  rw [walkAll_eq]
  exact (fuelWalks _).items vis _ hv (by omega)

/-- The walk from one container follows the relation. -/
theorem walks_walk {vis : Visited} (hv : g.VisitedOk vis) (id : NodeId) :
    g.Walks vis (.node id) (g.walk vis id).1 (g.walk vis id).2 :=
  fuelWalks _ vis _ hv (by omega)

theorem visitedOk_empty : g.VisitedOk {} := ⟨List.nodup_nil, by simp⟩

/-! ## Reachability -/


/-- A value that, if it is a container, is reachable from `roots`. -/
def ValueReaches (g : Graph) (roots : List NodeId) (v : Value) : Prop :=
  ∀ id, v = .node id → g.Reaches roots id

theorem valueReaches_values {id : NodeId} {n : Node} (h : g.Reaches roots id)
    (hn : g.get? id = some n) {v : Value} (hv : v ∈ n.values) : g.ValueReaches roots v := by
  rintro c rfl
  exact .child h hn (Node.mem_children.mpr hv)

mutual
/-- **A walk enters only containers reachable from where it starts.** -/
theorem Walks.reaches : ∀ {vis vis' v s}, g.Walks vis v s vis' → g.ValueReaches roots v →
    ∀ id ∈ s.opened, g.Reaches roots id
  | _, _, _, _, .scalar .., _ | _, _, _, _, .missing .., _ | _, _, _, _, .again .., _
  | _, _, _, _, .leaf .., _ => by simp [Shape.opened]
  | _, _, _, _, .struct _ _ id _ _ _ _ hn hb _ _ hl, hr => by
    have hid := hr id rfl
    simp only [Shape.opened, Shape.openedPairs_eq, List.mem_cons]
    rintro x (rfl | hx)
    · exact hid
    · exact WalksList.reaches hl (fun v hv => valueReaches_values hid hn (by simp [Node.values, hb, hv])) x hx
  | _, _, _, _, .list _ _ id _ _ _ hn hb _ hl, hr => by
    have hid := hr id rfl
    simp only [Shape.opened, List.mem_cons]
    rintro x (rfl | hx)
    · exact hid
    · exact WalksList.reaches hl (fun v hv => valueReaches_values hid hn (by simp [Node.values, hb, hv])) x hx

theorem WalksList.reaches : ∀ {vis vis' vs ss}, g.WalksList vis vs ss vis' →
    (∀ v ∈ vs, g.ValueReaches roots v) → ∀ id ∈ Shape.openedItems ss, g.Reaches roots id
  | _, _, _, _, .nil _, _ => by simp [Shape.openedItems]
  | _, _, _, _, .cons h₁ hl, hr => by
    simp only [Shape.openedItems, List.mem_append]
    rintro x (hx | hx)
    · exact Walks.reaches h₁ (hr _ List.mem_cons_self) x hx
    · exact WalksList.reaches hl (fun v hv => hr v (List.mem_cons_of_mem _ hv)) x hx
end

theorem WalksList.subset {vis vis' : Visited} {vs : List Value} {ss : List Shape}
    (h : g.WalksList vis vs ss vis') : vis.ids ⊆ vis'.ids := by
  rw [h.ids_eq]
  exact List.subset_append_right _ _

/-- A walk from a structure or a list leaves it entered, whether it entered it now or before. -/
theorem Walks.mem_of_branch {vis vis' : Visited} {c : NodeId} {s : Shape}
    (h : g.Walks vis (.node c) s vis') (hc : g.IsBranch c) : c ∈ vis'.ids := by
  obtain ⟨m, hm, hb⟩ := hc
  cases h with
  | missing _ _ hn => simp [hn] at hm
  | again _ _ _ _ _ hcon => simpa [Visited.contains] using hcon
  | leaf _ _ n hn hb' =>
    rw [hn] at hm
    cases hm
    simp [hb] at hb'
  | struct _ _ _ _ _ _ _ _ _ _ _ hl =>
    rw [hl.ids_eq]
    simp [Visited.insert]
  | list _ _ _ _ _ _ _ _ _ hl =>
    rw [hl.ids_eq]
    simp [Visited.insert]

theorem WalksList.mem_of_branch : ∀ {vis vis' vs ss}, g.WalksList vis vs ss vis' →
    ∀ {c : NodeId}, Value.node c ∈ vs → g.IsBranch c → c ∈ vis'.ids
  | _, _, _, _, .nil _, _, hc, _ => by simp at hc
  | _, _, _, _, .cons h₁ hl, _, hc, hb => by
    rcases List.mem_cons.mp hc with heq | hc
    · rw [← heq] at h₁
      exact hl.subset (h₁.mem_of_branch hb)
    · exact WalksList.mem_of_branch hl hc hb

mutual
/-- **A walk is closed**: every structure or list held by a container it enters is entered by
the time it stops. -/
theorem Walks.closed : ∀ {vis vis' v s}, g.Walks vis v s vis' → ∀ id ∈ s.opened, ∀ n,
    g.get? id = some n → ∀ c ∈ n.children, g.IsBranch c → c ∈ vis'.ids
  | _, _, _, _, .scalar .. | _, _, _, _, .missing .. | _, _, _, _, .again ..
  | _, _, _, _, .leaf .. => by simp [Shape.opened]
  | _, _, _, _, .struct _ _ _ _ _ _ _ hn hb _ _ hl => by
    simp only [Shape.opened, Shape.openedPairs_eq, List.mem_cons]
    rintro x (rfl | hx) m hm c hc hcb
    · rw [hn] at hm
      cases hm
      exact hl.mem_of_branch (by simpa [Node.values, hb] using Node.mem_children.mp hc) hcb
    · exact WalksList.closed hl x hx m hm c hc hcb
  | _, _, _, _, .list _ _ _ _ _ _ hn hb _ hl => by
    simp only [Shape.opened, List.mem_cons]
    rintro x (rfl | hx) m hm c hc hcb
    · rw [hn] at hm
      cases hm
      exact hl.mem_of_branch (by simpa [Node.values, hb] using Node.mem_children.mp hc) hcb
    · exact WalksList.closed hl x hx m hm c hc hcb

theorem WalksList.closed : ∀ {vis vis' vs ss}, g.WalksList vis vs ss vis' →
    ∀ id ∈ Shape.openedItems ss, ∀ n, g.get? id = some n → ∀ c ∈ n.children, g.IsBranch c →
      c ∈ vis'.ids
  | _, _, _, _, .nil _ => by simp [Shape.openedItems]
  | _, _, _, _, .cons h₁ hl => by
    simp only [Shape.openedItems, List.mem_append]
    rintro x (hx | hx) m hm c hc hcb
    · exact hl.subset (Walks.closed h₁ x hx m hm c hc hcb)
    · exact WalksList.closed hl x hx m hm c hc hcb
end

/-! ## The order of the walks -/

/-- The structures and lists that the walks from `roots` enter, in the order they enter them:
roots in order, values in order, each container once. Both passes of the linker and every
writer walk in this order. -/
def preorder (g : Graph) (roots : List NodeId) : List NodeId :=
  (g.walkAll false {} roots).1.flatMap Shape.opened

theorem walkAll_ids : (g.walkAll false {} roots).2.ids = (g.preorder roots).reverse := by
  rw [(walksList_walkAll visitedOk_empty roots).ids_eq, preorder, Shape.openedItems_eq]
  exact List.append_nil _

theorem visitedOk_walkAll : g.VisitedOk (g.walkAll false {} roots).2 :=
  (walksList_walkAll visitedOk_empty roots).visitedOk visitedOk_empty

/-- No container is entered twice. -/
theorem preorder_nodup : (g.preorder roots).Nodup := by
  have h : (g.walkAll false {} roots).2.ids.Nodup := visitedOk_walkAll.1
  rw [walkAll_ids] at h
  exact List.nodup_reverse.mp h

theorem isBranch_of_mem_preorder {id : NodeId} (h : id ∈ g.preorder roots) : g.IsBranch id :=
  visitedOk_walkAll.2 id (by rw [walkAll_ids]; exact List.mem_reverse.mpr h)

theorem reaches_of_mem_preorder {id : NodeId} (h : id ∈ g.preorder roots) :
    g.Reaches roots id := by
  rw [preorder, ← Shape.openedItems_eq] at h
  refine (walksList_walkAll visitedOk_empty roots).reaches (fun v hv => ?_) id h
  rintro r rfl
  exact .root (by simpa using hv)

theorem mem_preorder_of_reaches {id : NodeId} (h : g.Reaches roots id) (hb : g.IsBranch id) :
    id ∈ g.preorder roots := by
  have hw := walksList_walkAll (g := g) visitedOk_empty roots
  suffices id ∈ (g.walkAll false {} roots).2.ids by
    rw [walkAll_ids] at this
    exact List.mem_reverse.mp this
  induction h with
  | root hr => exact hw.mem_of_branch (List.mem_map_of_mem hr) hb
  | @child p c n hp hn hc ih =>
    have hpb : g.IsBranch p := ⟨n, hn, Node.isBranch_of_mem_children hc⟩
    have hp' : p ∈ Shape.openedItems (g.walkAll false {} roots).1 := by
      have := ih hpb
      rw [walkAll_ids] at this
      rw [Shape.openedItems_eq]
      exact List.mem_reverse.mp this
    exact hw.closed p hp' n hn c hc hb

/-- **The walks enter exactly the reachable structures and lists.** -/
theorem mem_preorder {id : NodeId} : id ∈ g.preorder roots ↔ g.Reaches roots id ∧ g.IsBranch id :=
  ⟨fun h => ⟨reaches_of_mem_preorder h, isBranch_of_mem_preorder h⟩,
    fun ⟨h, hb⟩ => mem_preorder_of_reaches h hb⟩

end Graph

end GraphDoc
