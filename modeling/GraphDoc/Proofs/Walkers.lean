import GraphDoc.Graph.Borrow
import GraphDoc.Proofs.SavedDocument
/-! # The walkers of documents

Every walker of documents is a function of the walks from its roots, taken one after another
with one visited set: the usage count, the two writers, the statistics and the JSON view walk
from one root, the two passes of the linker from every module. On every graph of containers,
shared and cyclic ones included, those walks

* end, and are the walks the fuel-free relation gives (`WalksList`), which a finite derivation
  builds: the fuel a walk is given is never what stops it;
* enter each structure and each list at most once (`preorder_nodup`);
* ask the visited set whether a container was entered exactly as `Visited.visit` answers, and it
  answers that it was exactly when the container was visited earlier in the same walks
  (`Visited.replays_iff_mem`);
* take, for each of the seven walkers, only borrows that no borrow held further up the walk
  excludes (`Walks.borrowsOk`): a walker holds borrows only of the containers it is inside, and
  those were entered, so a container it enters again or a block or array it visits is never
  one it holds a borrow it would conflict with.

The main result is `Graph.walkers_terminate_once`.
-/
namespace GraphDoc

namespace Visited

/-- Replay `Visited.visit` along a sequence of visits, each a container with whether the walk
found it entered before: whether `visit` answers each one as the walk did. -/
def replays (v : Visited) : List (NodeId × Bool) → Bool
  | [] => true
  | (id, again) :: rest => (v.visit id).1 == again && (v.visit id).2.replays rest

theorem mem_visit_ids {v : Visited} {id x : NodeId} :
    x ∈ (v.visit id).2.ids ↔ x = id ∨ x ∈ v.ids := by
  unfold visit
  split
  case isTrue h =>
    have hid : id ∈ v.ids := by simpa [contains] using h
    constructor
    · exact Or.inr
    · rintro (rfl | hx)
      · exact hid
      · exact hx
  case isFalse => simp [insert]

theorem visit_fst (v : Visited) (id : NodeId) : (v.visit id).1 = true ↔ id ∈ v.ids := by
  unfold visit
  split <;> simp_all [contains]

/-- **`visit` answers that a container was entered exactly when it was visited before**: where
it gives every answer of a sequence of visits, the answer is yes exactly for a container of `v`
or one visited earlier in the sequence. -/
theorem replays_iff_mem : ∀ {v : Visited} {xs : List (NodeId × Bool)}, v.replays xs = true →
    ∀ i (hi : i < xs.length),
      (xs[i].2 = true ↔ xs[i].1 ∈ v.ids ∨ xs[i].1 ∈ (xs.take i).map Prod.fst)
  | _, [], _, i, hi => absurd hi (Nat.not_lt_zero i)
  | v, (id, again) :: rest, h, i, hi => by
    simp only [replays, Bool.and_eq_true, beq_iff_eq] at h
    obtain ⟨hanswer, hrest⟩ := h
    cases i with
    | zero =>
      simp only [List.getElem_cons_zero, List.take_zero, List.map_nil, List.not_mem_nil,
        or_false]
      rw [← hanswer, visit_fst]
    | succ i =>
      have hi' : i < rest.length := by simpa using hi
      have ih := replays_iff_mem hrest i hi'
      simp only [List.getElem_cons_succ, List.take_succ_cons, List.map_cons, List.mem_cons]
      rw [ih, mem_visit_ids]
      tauto

end Visited

namespace Shape

mutual
/-- The visits a walk makes to structures and lists, in order, each with whether the walk found
the container entered before: those it enters, and those it only names. -/
def visits : Shape → List (NodeId × Bool)
  | .struct id _ _ _ pairs => (id, false) :: visitsPairs pairs
  | .list id _ _ items => (id, false) :: visitsItems items
  | .again id _ => [(id, true)]
  | _ => []

/-- The visits made from the values of pairs. -/
def visitsPairs : List (String × Shape) → List (NodeId × Bool)
  | [] => []
  | (_, s) :: rest => visits s ++ visitsPairs rest

/-- The visits made from items. -/
def visitsItems : List Shape → List (NodeId × Bool)
  | [] => []
  | s :: rest => visits s ++ visitsItems rest
end

theorem visitsPairs_eq (ps : List (String × Shape)) :
    visitsPairs ps = visitsItems (ps.map Prod.snd) := by
  induction ps with
  | nil => simp [visitsPairs, visitsItems]
  | cons p ps ih =>
    obtain ⟨k, s⟩ := p
    simp [visitsPairs, visitsItems, ih]

theorem visitsItems_eq (ss : List Shape) : visitsItems ss = ss.flatMap visits := by
  induction ss with
  | nil => rfl
  | cons s ss ih => simp [visitsItems, ih]

theorem borrowsOkPairs_eq (w : Walker) (held : List (NodeId × Borrow))
    (ps : List (String × Shape)) :
    borrowsOkPairs w held ps = borrowsOkItems w held (ps.map Prod.snd) := by
  induction ps with
  | nil => simp [borrowsOkPairs, borrowsOkItems]
  | cons p ps ih =>
    obtain ⟨k, s⟩ := p
    simp [borrowsOkPairs, borrowsOkItems, ih]

theorem borrowsOkItems_iff {w : Walker} {held : List (NodeId × Borrow)} {ss : List Shape} :
    borrowsOkItems w held ss = true ↔ ∀ s ∈ ss, borrowsOk w held s = true := by
  induction ss with
  | nil => simp [borrowsOkItems]
  | cons s ss ih => simp [borrowsOkItems, ih]

end Shape

namespace Borrow

/-- A borrow of a container no borrow is held of is always taken. -/
theorem allowed_of_not_mem {held : List (NodeId × Borrow)} {id : NodeId}
    (h : id ∉ held.map Prod.fst) (b : Borrow) : allowed held id b = true := by
  have hne : ∀ x ∈ held, x.1 ≠ id := fun x hx hx' => h (List.mem_map.mpr ⟨x, hx, hx'⟩)
  cases b with
  | shared => simpa [allowed, List.all_eq_true] using fun x y hxy => Or.inl (hne (x, y) hxy)
  | exclusive => simpa [allowed, List.all_eq_true] using fun x y hxy => hne (x, y) hxy

/-- A shared borrow is always taken while only shared borrows are held. -/
theorem allowed_shared {held : List (NodeId × Borrow)} (h : ∀ x ∈ held, x.2 = .shared)
    (id : NodeId) : allowed held id .shared = true := by
  simpa [allowed, List.all_eq_true] using fun x y hxy => Or.inr (h (x, y) hxy)

end Borrow

namespace Walker

/-- What keeps a walker's borrows apart: it borrows a container reached again only shared, and
only if it holds its containers shared, and it borrows another structure on entering one only
if it holds its containers shared. -/
structure Sound (w : Walker) : Prop where
  again_shared : ∀ n b, w.again n = some b → b = .shared ∧ w.enter = .shared
  elsewhere_shared : w.elsewhere = true → w.enter = .shared

/-- A walker that holds its containers shared and borrows only shared is sound. -/
theorem Sound.of_shared {w : Walker} (he : w.enter = .shared)
    (ha : ∀ n b, w.again n = some b → b = .shared) : w.Sound :=
  ⟨fun n b h => ⟨ha n b h, he⟩, fun _ => he⟩

theorem byKind_shared {s o : Option Borrow} (hs : ∀ b, s = some b → b = .shared)
    (ho : ∀ b, o = some b → b = .shared) : ∀ n b, byKind s o n = some b → b = .shared := by
  intro n b h
  unfold byKind at h
  split at h
  · exact hs b h
  · exact ho b h

/-- **The seven walkers are sound.** In particular the second pass of the linker, the one
walker that holds its containers exclusively, borrows nothing it reaches again. -/
theorem sound_all : ∀ w ∈ all, w.Sound := by
  have some_shared : ∀ b, some Borrow.shared = some b → b = .shared := fun b h =>
    (Option.some.inj h).symm
  have none_shared : ∀ b, (none : Option Borrow) = some b → b = .shared := fun _ h => by cases h
  simp only [all, List.forall_mem_cons, List.not_mem_nil, false_implies, implies_true, and_true]
  refine ⟨.of_shared rfl (byKind_shared some_shared none_shared),
    .of_shared rfl fun _ => some_shared, .of_shared rfl fun _ => some_shared,
    .of_shared rfl (byKind_shared none_shared some_shared), ?resolver,
    .of_shared rfl fun _ => none_shared, .of_shared rfl (byKind_shared some_shared none_shared)⟩
  -- the resolver holds exclusively, and borrows neither what it reaches again nor elsewhere
  exact ⟨fun _ _ h => (by cases h), fun h => absurd h Bool.false_ne_true⟩

end Walker

namespace Graph

variable {g : Graph}

theorem Walks.subset {vis vis' : Visited} {v : Value} {s : Shape} (h : g.Walks vis v s vis') :
    vis.ids ⊆ vis'.ids := by
  rw [h.ids_eq]
  exact List.subset_append_right _ _

/-! ## Visits -/

mutual
/-- **A walk asks the visited set as `visit` answers**: replaying `visit` along the visits of
the walk, from the containers entered before it, gives every answer the walk took and ends with
the containers entered after it. -/
theorem Walks.replays : ∀ {vis vis' v s}, g.Walks vis v s vis' →
    ∀ rest, vis.replays (s.visits ++ rest) = vis'.replays rest
  | _, _, _, _, .scalar .., _ | _, _, _, _, .missing .., _ | _, _, _, _, .leaf .., _ => by
    simp [Shape.visits]
  | vis, _, _, _, .again _ id _ _ _ hc, rest => by
    have hv : vis.visit id = (true, vis) := by simp [Visited.visit, hc]
    simp [Shape.visits, Visited.replays, hv]
  | vis, _, _, _, .struct _ _ id _ _ _ _ _ _ hc _ hl, rest => by
    have hv : vis.visit id = (false, vis.insert id) := by simp [Visited.visit, hc]
    simp only [Shape.visits, Shape.visitsPairs_eq, List.cons_append, Visited.replays, hv,
      BEq.rfl, Bool.true_and]
    exact WalksList.replays hl rest
  | vis, _, _, _, .list _ _ id _ _ _ _ _ hc hl, rest => by
    have hv : vis.visit id = (false, vis.insert id) := by simp [Visited.visit, hc]
    simp only [Shape.visits, List.cons_append, Visited.replays, hv, BEq.rfl, Bool.true_and]
    exact WalksList.replays hl rest

theorem WalksList.replays : ∀ {vis vis' vs ss}, g.WalksList vis vs ss vis' →
    ∀ rest, vis.replays (Shape.visitsItems ss ++ rest) = vis'.replays rest
  | _, _, _, _, .nil _, _ => by simp [Shape.visitsItems]
  | _, _, _, _, .cons h hl, rest => by
    rw [Shape.visitsItems, List.append_assoc, Walks.replays h, WalksList.replays hl]
end

/-- The visits the walks from `roots` make to structures and lists, in order, each with
whether the walk found the container entered before. -/
def visitOrder (g : Graph) (roots : List NodeId) : List (NodeId × Bool) :=
  (g.walkAll false {} roots).1.flatMap Shape.visits

theorem replays_visitOrder (roots : List NodeId) :
    Visited.replays {} (g.visitOrder roots) = true := by
  have h := (walksList_walkAll (g := g) visitedOk_empty roots).replays []
  rw [List.append_nil, Shape.visitsItems_eq] at h
  rw [visitOrder, h, Visited.replays]

/-! ## Borrows -/

section Borrows

variable {w : Walker}

/-- The borrows a walker holds inside the containers it entered: each of a container entered,
in the walker's mode. -/
def HeldBy (w : Walker) (vis : Visited) (held : List (NodeId × Borrow)) : Prop :=
  ∀ x ∈ held, x.1 ∈ vis.ids ∧ x.2 = w.enter

theorem HeldBy.mono {vis vis' : Visited} {held : List (NodeId × Borrow)} (h : HeldBy w vis held)
    (hsub : vis.ids ⊆ vis'.ids) : HeldBy w vis' held :=
  fun x hx => ⟨hsub (h x hx).1, (h x hx).2⟩

theorem HeldBy.enter {vis : Visited} {held : List (NodeId × Borrow)} (h : HeldBy w vis held)
    (id : NodeId) : HeldBy w (vis.insert id) ((id, w.enter) :: held) := by
  intro x hx
  rcases List.mem_cons.mp hx with rfl | hx
  · exact ⟨List.mem_cons_self, rfl⟩
  · exact ⟨List.mem_cons_of_mem _ (h x hx).1, (h x hx).2⟩

theorem HeldBy.not_mem {vis : Visited} {held : List (NodeId × Borrow)} (h : HeldBy w vis held)
    {id : NodeId} (hid : id ∉ vis.ids) : id ∉ held.map Prod.fst := by
  intro hmem
  obtain ⟨x, hx, rfl⟩ := List.mem_map.mp hmem
  exact hid (h x hx).1

theorem HeldBy.shared {vis : Visited} {held : List (NodeId × Borrow)} (h : HeldBy w vis held)
    (he : w.enter = .shared) : ∀ x ∈ held, x.2 = .shared :=
  fun x hx => (h x hx).2.trans he

mutual
/-- **A sound walker takes every borrow it asks for**, along any walk, while it holds borrows
only of containers entered before in its mode. A container it enters was not entered, so it
holds no borrow of it; a block or an array is no structure or list, so it was not entered
either; a container reached again is borrowed only shared, and only by a walker that holds
shared. -/
theorem Walks.borrowsOk (hw : w.Sound) : ∀ {vis vis' v s}, g.Walks vis v s vis' →
    g.VisitedOk vis → ∀ held, HeldBy w vis held → s.borrowsOk w held = true
  | _, _, _, _, .scalar .., _, _, _ | _, _, _, _, .missing .., _, _, _ => by
    simp [Shape.borrowsOk]
  | _, _, _, _, .again _ id n _ _ _, _, held, hheld => by
    simp only [Shape.borrowsOk]
    cases hb : w.again n with
    | none => rfl
    | some b =>
      obtain ⟨rfl, he⟩ := hw.again_shared n b hb
      exact Borrow.allowed_shared (hheld.shared he) id
  | vis, _, _, _, .leaf _ id n hn hb, hv, held, hheld => by
    -- a block or an array was never entered, for only structures and lists are
    have hid : id ∉ vis.ids := by
      intro hmem
      obtain ⟨m, hm, hmb⟩ := hv.2 id hmem
      rw [hn] at hm
      cases hm
      rw [hb] at hmb
      cases hmb
    simp only [Shape.borrowsOk]
    cases w.leaf n with
    | none => rfl
    | some b => exact Borrow.allowed_of_not_mem (hheld.not_mem hid) b
  | vis, _, _, _, .struct _ _ id n _ _ _ hn hb hc _ hl, hv, held, hheld => by
    have hid : id ∉ vis.ids := by simpa [Visited.contains] using hc
    have hv' := hv.insert hn (by simp [Node.isBranch, hb]) hc
    simp only [Shape.borrowsOk, Shape.borrowsOkPairs_eq, Bool.and_eq_true, Bool.or_eq_true,
      Bool.not_eq_true', List.all_eq_true, beq_iff_eq]
    refine ⟨⟨Borrow.allowed_of_not_mem (hheld.not_mem hid) _, ?_⟩,
      WalksList.borrowsOk hw hl hv' _ (hheld.enter id)⟩
    -- the first pass of the linker may look at another structure, shared
    cases he : w.elsewhere
    · exact Or.inl rfl
    · exact Or.inr ((hheld.enter id).shared (hw.elsewhere_shared he))
  | vis, _, _, _, .list _ _ id n _ _ hn hb hc hl, hv, held, hheld => by
    have hid : id ∉ vis.ids := by simpa [Visited.contains] using hc
    have hv' := hv.insert hn (by simp [Node.isBranch, hb]) hc
    simp only [Shape.borrowsOk, Bool.and_eq_true]
    exact ⟨Borrow.allowed_of_not_mem (hheld.not_mem hid) _,
      WalksList.borrowsOk hw hl hv' _ (hheld.enter id)⟩

theorem WalksList.borrowsOk (hw : w.Sound) : ∀ {vis vis' vs ss}, g.WalksList vis vs ss vis' →
    g.VisitedOk vis → ∀ held, HeldBy w vis held → Shape.borrowsOkItems w held ss = true
  | _, _, _, _, .nil _, _, _, _ => rfl
  | _, _, _, _, .cons h hl, hv, held, hheld => by
    simp only [Shape.borrowsOkItems, Bool.and_eq_true]
    exact ⟨Walks.borrowsOk hw h hv held hheld,
      WalksList.borrowsOk hw hl (h.visitedOk hv) held (hheld.mono h.subset)⟩
end

theorem borrowsOk_walkAll (hw : w.Sound) (roots : List NodeId) :
    ∀ s ∈ (g.walkAll false {} roots).1, s.borrowsOk w [] = true := by
  have hall := (walksList_walkAll (g := g) visitedOk_empty roots).borrowsOk hw visitedOk_empty []
    (fun x hx => absurd hx List.not_mem_nil)
  exact Shape.borrowsOkItems_iff.mp hall

end Borrows

/-- **Every walker ends, enters each container once and takes only the borrows it can.** On
every graph, with any sharing and cycles through structures and lists, the walks from a list of
roots with one visited set, from which every walker computes,

* are the only walks the relation gives from there, so they end with the fuel they are given;
* enter no structure or list twice;
* ask the visited set exactly as `Visited.visit` answers, and find a container entered before
  exactly when it was visited earlier in the walks;
* take, for each walker of documents, no borrow that a borrow held further up excludes. -/
theorem walkers_terminate_once (g : Graph) (roots : List NodeId) :
    (∀ ss vis, g.WalksList {} (roots.map .node) ss vis ↔ g.walkAll false {} roots = (ss, vis)) ∧
    (g.preorder roots).Nodup ∧
    (Visited.replays {} (g.visitOrder roots) = true ∧
      ∀ i (hi : i < (g.visitOrder roots).length),
        ((g.visitOrder roots)[i].2 = false ↔
          (g.visitOrder roots)[i].1 ∉ ((g.visitOrder roots).take i).map Prod.fst)) ∧
    ∀ w ∈ Walker.all, ∀ s ∈ (g.walkAll false {} roots).1, s.borrowsOk w [] = true := by
  have hwalks := walksList_walkAll (g := g) visitedOk_empty roots
  refine ⟨fun ss vis => ⟨fun h => ?_, fun h => ?_⟩, preorder_nodup,
    ⟨replays_visitOrder roots, fun i hi => ?_⟩,
    fun w hw => borrowsOk_walkAll (Walker.sound_all w hw) roots⟩
  · -- the relation gives one walk, the one computed
    obtain ⟨hss, hvis⟩ := WalksList.det hwalks h
    rw [← hss, ← hvis]
  · rw [h] at hwalks
    exact hwalks
  · -- nothing is entered before the walks start
    have hmem := Visited.replays_iff_mem (replays_visitOrder roots) i hi
    simp only [List.not_mem_nil, false_or] at hmem
    rw [← hmem]
    simp

end Graph

end GraphDoc
