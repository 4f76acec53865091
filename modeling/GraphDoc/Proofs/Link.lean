import GraphDoc.Link
import GraphDoc.Proofs.Walk
import Mathlib.Data.List.Perm.Basic

/-! # Linking is correct

The linker walks its modules twice with `Graph.walkAll`, each time from an empty visited set:
`mapUids` folds `Linker.declare` over the declarations the walks meet, and `resolveUids` folds
`Linker.resolveSite` over the references they meet. Both walks are the same, so both passes
meet the containers in `Graph.preorder`, each reachable structure and list exactly once.

This module says what the two folds compute, in terms that do not mention the walks:

* the declarations met are those of the reachable structures, in walk order
  (`mem_declarations`), and the record gives each UID its first declaring structure
  (`Linker.link_linker`);
* the references met are those of the reachable containers, each once
  (`Graph.references_perm`);
* the second pass links each of them to the recorded structure and changes nothing else
  (`Linker.link_graph`), whatever order it meets them in, since each position is relinked
  once by a step that depends only on its UID;
* the faults are the duplicates in walk order, then the unresolved references, and there are
  none exactly when reachable structures declare distinct UIDs and every reachable reference
  names one of them (`Graph.linkFaults_eq_nil`).

`link_correct` puts these together.
-/
namespace GraphDoc

namespace Shape

@[simp] theorem sites_scalar (sc : Scalar) (line : Nat) : (Shape.scalar sc line).sites = [] := rfl

theorem declarationsPairs_eq (ps : List (String × Shape)) :
    declarationsPairs ps = declarationsItems (ps.map Prod.snd) := by
  induction ps with
  | nil => simp [declarationsPairs, declarationsItems]
  | cons p ps ih =>
    obtain ⟨k, s⟩ := p
    simp [declarationsPairs, declarationsItems, ih]

theorem sitesPairs_eq (id : NodeId) (ps : List (String × Shape)) (i : Nat) :
    sitesPairs id i ps = sitesItems id i (ps.map Prod.snd) := by
  induction ps generalizing i with
  | nil => simp [sitesPairs, sitesItems]
  | cons p ps ih =>
    obtain ⟨k, s⟩ := p
    cases s with
    | scalar sc line =>
      cases sc <;> simp [sitesPairs, sitesItems, ih]
    | _ => simp [sitesPairs, sitesItems, ih]

end Shape

namespace Shape.Site

/-- A reference of the graph: the container at `s.node` holds, at position `s.slot`, a UID
reference to `s.uid`, which is not `#NULL`, on line `s.line`. -/
def In (s : Site) (g : Graph) : Prop :=
  ∃ n t, g.get? s.node = some n ∧ n.values[s.slot]? = some (.scalar (.uid s.uid t) s.line) ∧
    s.uid ≠ nullUid

end Shape.Site

namespace Value

/-- A UID reference pointed at `t`; every other value stays. -/
def retarget (t : Option NodeId) : Value → Value
  | .scalar (.uid name _) line => .scalar (.uid name t) line
  | v => v

/-- A UID reference other than `#NULL` linked to the structure `f` gives for its UID, when it
gives one; every other value stays. -/
def relink (f : String → Option NodeId) : Value → Value
  | .scalar (.uid name t) line =>
    if name == nullUid then .scalar (.uid name t) line else .scalar (.uid name ((f name).or t)) line
  | v => v

theorem relink_eq_uid {f : String → Option NodeId} {v : Value} {uid : String}
    {t : Option NodeId} {line : Nat} (h : v.relink f = .scalar (.uid uid t) line)
    (hu : uid ≠ nullUid) : ∃ t₀, v = .scalar (.uid uid t₀) line ∧ t = (f uid).or t₀ := by
  rcases v with ⟨_ | _ | _ | _ | _ | ⟨name, t₀⟩, line₀⟩ | c <;> simp [relink] at h
  by_cases hn : name = nullUid
  · simp [hn] at h
    exact absurd h.1.1.symm hu
  · simp only [hn, if_false] at h
    obtain ⟨⟨rfl, rfl⟩, rfl⟩ := h
    exact ⟨t₀, rfl, rfl⟩

end Value

namespace Node

/-- The container with `h i` applied to its value at position `i`; rawtext blocks and arrays
hold no values and stay. -/
def mapValues (h : Nat → Value → Value) (n : Node) : Node :=
  match n.body with
  | .struct uid pairs => { n with body := .struct uid (pairs.mapIdx fun i p => (p.1, h i p.2)) }
  | .list items => { n with body := .list (items.mapIdx h) }
  | _ => n

theorem values_mapValues (h : Nat → Value → Value) (n : Node) :
    (n.mapValues h).values = n.values.mapIdx h := by
  obtain ⟨tag, line, body⟩ := n
  cases body <;> simp only [mapValues, values]
  all_goals first | rfl | exact List.ext_getElem? fun i => by simp [Function.comp_def]

theorem values_mapValues_const (h : Value → Value) (n : Node) :
    (n.mapValues fun _ => h).values = n.values.map h := by
  rw [values_mapValues]
  exact List.ext_getElem? fun i => by simp

theorem mapValues_mapValues (h₁ h₂ : Nat → Value → Value) (n : Node) :
    (n.mapValues h₂).mapValues h₁ = n.mapValues fun i v => h₁ i (h₂ i v) := by
  obtain ⟨tag, line, body⟩ := n
  cases body <;> simp [mapValues, Function.comp_def]

theorem mapValues_congr {h₁ h₂ : Nat → Value → Value} {n : Node}
    (h : ∀ i v, n.values[i]? = some v → h₁ i v = h₂ i v) : n.mapValues h₁ = n.mapValues h₂ := by
  obtain ⟨tag, line, body⟩ := n
  cases body with
  | struct uid pairs =>
    simp only [mapValues, Node.mk.injEq, Body.struct.injEq, true_and, List.mapIdx_eq_mapIdx_iff]
    intro i hi
    simp [h i pairs[i].2 (by simp [values, hi])]
  | list items =>
    simp only [mapValues, Node.mk.injEq, Body.list.injEq, true_and, List.mapIdx_eq_mapIdx_iff]
    intro i hi
    exact h i items[i] (by simp [values, hi])
  | _ => rfl

theorem mapValues_id {h : Nat → Value → Value} {n : Node}
    (hid : ∀ i v, n.values[i]? = some v → h i v = v) : n.mapValues h = n := by
  rw [mapValues_congr hid]
  obtain ⟨tag, line, body⟩ := n
  cases body <;> simp only [mapValues]
  all_goals first | rfl | simp only [Node.mk.injEq, Body.struct.injEq, Body.list.injEq, true_and]
  all_goals exact List.ext_getElem? fun i => by simp

end Node

namespace Graph

variable (g : Graph)

/-- The declaration of a container: its index and UID when it is a structure whose UID is
not `#NULL`. -/
def declared (id : NodeId) : Option (NodeId × String) :=
  match g.get? id with
  | some ⟨_, _, .struct uid _⟩ => if uid = nullUid then none else some (id, uid)
  | _ => none

/-- The UID references (other than `#NULL`) among values held by container `id`, with their
positions counted from `i`. -/
def valueSites (id : NodeId) : Nat → List Value → List Shape.Site
  | _, [] => []
  | i, .scalar (.uid name _) line :: rest =>
    (if name == nullUid then [] else [⟨id, i, name, line⟩]) ++ valueSites id (i + 1) rest
  | i, _ :: rest => valueSites id (i + 1) rest

/-- The UID references (other than `#NULL`) held by a container, in the order of its
values. -/
def sitesAt (id : NodeId) : List Shape.Site :=
  match g.get? id with
  | some n => valueSites id 0 n.values
  | none => []

variable {g}

mutual
/-- A walk declares, in the order it enters them, the UIDs of the structures it enters. -/
theorem Walks.declarations : ∀ {vis vis' v s}, g.Walks vis v s vis' →
    s.declarations = s.opened.filterMap g.declared
  | _, _, _, _, .scalar .. | _, _, _, _, .missing .. | _, _, _, _, .again ..
  | _, _, _, _, .leaf .. => by simp [Shape.declarations, Shape.opened]
  | _, _, _, _, .struct _ _ id n uid _ _ hn hb _ _ hl => by
    rw [Shape.declarations, Shape.declarationsPairs_eq, WalksList.declarations hl,
      Shape.opened, Shape.openedPairs_eq, List.filterMap_cons]
    obtain ⟨tag, line, body⟩ := n
    cases hb
    by_cases hu : uid = nullUid <;> simp [declared, hn, hu]
  | _, _, _, _, .list _ _ id n _ _ hn hb _ hl => by
    rw [Shape.declarations, WalksList.declarations hl, Shape.opened, List.filterMap_cons]
    obtain ⟨tag, line, body⟩ := n
    cases hb
    simp [declared, hn]

theorem WalksList.declarations : ∀ {vis vis' vs ss}, g.WalksList vis vs ss vis' →
    Shape.declarationsItems ss = (Shape.openedItems ss).filterMap g.declared
  | _, _, _, _, .nil _ => by simp [Shape.declarationsItems, Shape.openedItems]
  | _, _, _, _, .cons h₁ hl => by
    rw [Shape.declarationsItems, Shape.openedItems, List.filterMap_append,
      Walks.declarations h₁, WalksList.declarations hl]
end

theorem sitesAt_of_values {id : NodeId} {n : Node} (hn : g.get? id = some n) :
    g.sitesAt id = valueSites id 0 n.values := by
  simp [sitesAt, hn]

mutual
/-- **A walk meets each reference of the containers it enters once**: its references are
those of the containers it enters, in another order. -/
theorem Walks.sites : ∀ {vis vis' v s}, g.Walks vis v s vis' →
    s.sites.Perm (s.opened.flatMap g.sitesAt)
  | _, _, _, _, .scalar .. | _, _, _, _, .missing .. | _, _, _, _, .again ..
  | _, _, _, _, .leaf .. => by simp [Shape.sites, Shape.opened]
  | _, _, _, _, .struct _ _ id _ _ pairs _ hn hb _ _ hl => by
    rw [Shape.sites, Shape.sitesPairs_eq, Shape.opened, Shape.openedPairs_eq, List.flatMap_cons,
      sitesAt_of_values hn]
    simpa [Node.values, hb] using WalksList.sites hl id 0
  | _, _, _, _, .list _ _ id _ _ _ hn hb _ hl => by
    rw [Shape.sites, Shape.opened, List.flatMap_cons, sitesAt_of_values hn]
    simpa [Node.values, hb] using WalksList.sites hl id 0

theorem WalksList.sites : ∀ {vis vis' vs ss}, g.WalksList vis vs ss vis' → ∀ x i,
    (Shape.sitesItems x i ss).Perm
      (valueSites x i vs ++ (Shape.openedItems ss).flatMap g.sitesAt)
  | _, _, _, _, .nil _, _, _ => by simp [Shape.sitesItems, valueSites, Shape.openedItems]
  | _, _, _, _, .cons h₁ hl, x, i => by
    have ih₁ := Walks.sites h₁
    have ihl := WalksList.sites hl x (i + 1)
    -- a reference among the values is the container's own; any other value is walked
    cases h₁ with
    | scalar _ sc line =>
      cases sc with
      | uid name t =>
        simp only [Shape.sitesItems, valueSites, Shape.openedItems, Shape.opened, List.nil_append,
          List.append_assoc]
        exact ihl.append_left _
      | _ => simpa [Shape.sitesItems, valueSites, Shape.openedItems, Shape.opened] using ihl
    | missing | again | leaf =>
      simpa [Shape.sitesItems, valueSites, Shape.openedItems, Shape.sites, Shape.opened]
        using ihl
    | struct | list =>
      simp only [Shape.sitesItems, valueSites, Shape.openedItems, List.flatMap_append]
      refine (ih₁.append ihl).trans ?_
      simpa using List.perm_append_comm_assoc _ _ _
end


theorem modify_eq_mapIdx {α : Type} (l : List α) (slot : Nat) (f : α → α) :
    l.modify slot f = l.mapIdx fun j a => if j = slot then f a else a := by
  refine List.ext_getElem? fun i => ?_
  rw [List.getElem?_modify, List.getElem?_mapIdx]
  cases l[i]? <;> by_cases hi : slot = i <;> simp [hi, eq_comm]

theorem get?_modify (g : Graph) (id : NodeId) (f : Node → Node) (x : NodeId) :
    (g.modify id f).get? x = (g.get? x).map fun n => if x = id then f n else n := by
  unfold modify
  cases hn : g.get? id with
  | none =>
    by_cases hx : x = id
    · subst hx; simp [hn]
    · simp [hx]
  | some n =>
    have hlt : id < g.nodes.size := lt_size_of_get? hn
    simp only [set, hlt, dite_true, get?, Array.getElem?_set]
    by_cases hx : id = x
    · subst hx
      simp only [get?] at hn
      simp [hn]
    · simp [hx, Ne.symm hx]

theorem setTarget_eq (g : Graph) (id slot : Nat) (t : Option NodeId) :
    g.setTarget id slot t =
      g.modify id (Node.mapValues fun i v => if i = slot then v.retarget t else v) := by
  unfold setTarget
  dsimp only
  congr 1
  funext n
  obtain ⟨tag, line, body⟩ := n
  cases body with
  | struct uid pairs =>
    simp only [Node.mapValues, modify_eq_mapIdx, Node.mk.injEq, Body.struct.injEq, true_and,
      List.mapIdx_eq_mapIdx_iff]
    intro i hi
    by_cases h : i = slot <;> simp [h]
    rfl
  | list items =>
    simp only [Node.mapValues, modify_eq_mapIdx, Node.mk.injEq, Body.list.injEq, true_and,
      List.mapIdx_eq_mapIdx_iff]
    intro i hi
    by_cases h : i = slot <;> simp [h]
    rfl
  | _ => rfl


theorem of_mem_valueSites {id : NodeId} {s : Shape.Site} :
    ∀ {i : Nat} {vs : List Value}, s ∈ valueSites id i vs →
      s.node = id ∧ s.uid ≠ nullUid ∧ ∃ k t, s.slot = i + k ∧
        vs[k]? = some (.scalar (.uid s.uid t) s.line)
  | _, [], h => by simp [valueSites] at h
  | i, v :: vs, h => by
    have tail : s ∈ valueSites id (i + 1) vs → s.node = id ∧ s.uid ≠ nullUid ∧ ∃ k t,
        s.slot = i + k ∧ (v :: vs)[k]? = some (.scalar (.uid s.uid t) s.line) := by
      intro hs
      obtain ⟨hn, hu, k, t, hk, hv⟩ := of_mem_valueSites hs
      exact ⟨hn, hu, k + 1, t, by omega, by simpa using hv⟩
    rcases v with ⟨_ | _ | _ | _ | _ | ⟨name, t⟩, line⟩ | c <;> simp only [valueSites] at h
    all_goals try exact tail h
    rcases List.mem_append.mp h with h | h
    · by_cases hu : name = nullUid
      · simp [hu] at h
      · simp only [beq_iff_eq, hu, if_false, List.mem_singleton] at h
        subst h
        exact ⟨rfl, hu, 0, t, rfl, rfl⟩
    · exact tail h

theorem mem_valueSites (id : NodeId) {name : String} {t : Option NodeId} {line : Nat}
    (hu : name ≠ nullUid) :
    ∀ {i k : Nat} {vs : List Value}, vs[k]? = some (.scalar (.uid name t) line) →
      (⟨id, i + k, name, line⟩ : Shape.Site) ∈ valueSites id i vs
  | _, _, [], h => by simp at h
  | i, 0, v :: vs, h => by
    simp only [List.getElem?_cons_zero, Option.some.injEq] at h
    subst h
    simp [valueSites, hu]
  | i, k + 1, v :: vs, h => by
    have := mem_valueSites id hu (i := i + 1) (k := k) (by simpa using h)
    rw [show i + (k + 1) = i + 1 + k by omega]
    rcases v with ⟨_ | _ | _ | _ | _ | ⟨name', t'⟩, line'⟩ | c <;> simp [valueSites, this]


theorem sitesAt_in {x : NodeId} {s : Shape.Site} (h : s ∈ g.sitesAt x) : s.In g ∧ s.node = x := by
  unfold sitesAt at h
  cases hx : g.get? x with
  | none => simp [hx] at h
  | some n =>
    rw [hx] at h
    obtain ⟨hn, hu, k, t, hk, hv⟩ := of_mem_valueSites h
    subst hn
    exact ⟨⟨n, t, hx, by simpa [hk] using hv, hu⟩, rfl⟩

theorem WalksList.sites_flatMap : ∀ {vis vis' vs ss}, g.WalksList vis vs ss vis' →
    (ss.flatMap Shape.sites).Perm ((Shape.openedItems ss).flatMap g.sitesAt)
  | _, _, _, _, .nil _ => by simp [Shape.openedItems]
  | _, _, _, _, .cons h₁ hl => by
    simp only [List.flatMap_cons, Shape.openedItems, List.flatMap_append]
    exact (Walks.sites h₁).append (WalksList.sites_flatMap hl)

theorem declarationsItems_eq (ss : List Shape) :
    Shape.declarationsItems ss = ss.flatMap Shape.declarations := by
  induction ss with
  | nil => rfl
  | cons s ss ih => simp [Shape.declarationsItems, ih]

end Graph

namespace Linker

variable (g : Graph)

/-- The structure of the first declaration of `uid` among `ds`. -/
def firstIn (ds : List (NodeId × String)) (uid : String) : Option NodeId :=
  (ds.find? (·.2 == uid)).map (·.1)

@[simp] theorem firstIn_nil (uid : String) : firstIn [] uid = none := rfl

theorem firstIn_cons (d : NodeId × String) (ds : List (NodeId × String)) (uid : String) :
    firstIn (d :: ds) uid = (if d.2 = uid then some d.1 else none).or (firstIn ds uid) := by
  by_cases h : d.2 = uid <;> simp [firstIn, h]

theorem declare_of_none {l : Linker} {d : NodeId × String} (h : l.lookup d.2 = none) :
    l.declare g d = { l with uidMap := l.uidMap ++ [(d.2, d.1)] } := by
  simp [declare, h]

theorem declare_of_some {l : Linker} {d : NodeId × String} {first : NodeId}
    (h : l.lookup d.2 = some first) :
    l.declare g d = if first = d.1 then l else
      { l with faults := l.faults ++ [.duplicateUid d.2 (g.tagOf first) (g.tagOf d.1)] } := by
  simp [declare, h]

theorem lookup_record (l : Linker) (u x : String) (id : NodeId) :
    ({ l with uidMap := l.uidMap ++ [(u, id)] } : Linker).lookup x =
      (l.lookup x).or (if u = x then some id else none) := by
  by_cases hu : u = x
  · subst hu
    cases h : l.uidMap.find? (·.1 == u) <;> simp [lookup, List.find?_append, h]
  · simp [lookup, List.find?_append, hu]

theorem lookup_declare (l : Linker) (d : NodeId × String) (uid : String) :
    (l.declare g d).lookup uid = (l.lookup uid).or (if d.2 = uid then some d.1 else none) := by
  cases h : l.lookup d.2 with
  | none => rw [declare_of_none g h, lookup_record]
  | some first =>
    have hkeep : (l.lookup uid).or (if d.2 = uid then some d.1 else none) = l.lookup uid := by
      by_cases hu : d.2 = uid
      · subst hu; simp [h]
      · simp [hu]
    rw [declare_of_some g h, hkeep]
    split <;> rfl

/-- The fault a declaration adds, given the structure recorded first for its UID. -/
def duplicateOf (first : Option NodeId) (d : NodeId × String) : Option LinkFault :=
  match first with
  | some f => if f = d.1 then none else some (.duplicateUid d.2 (g.tagOf f) (g.tagOf d.1))
  | none => none

theorem faults_declare (l : Linker) (d : NodeId × String) :
    (l.declare g d).faults = l.faults ++ (duplicateOf g (l.lookup d.2) d).toList := by
  cases h : l.lookup d.2 with
  | none => simp [declare_of_none g h, duplicateOf]
  | some first =>
    rw [declare_of_some g h]
    by_cases hf : first = d.1 <;> simp [duplicateOf, hf]

/-- **The first pass, declaration by declaration**: the record gives for each UID the first
structure declaring it, and a declaration whose UID another structure was recorded for first
adds a duplicate fault. -/
theorem foldl_declare (ds : List (NodeId × String)) (l : Linker) :
    (∀ uid, (ds.foldl (declare g) l).lookup uid = (l.lookup uid).or (firstIn ds uid)) ∧
    (ds.foldl (declare g) l).faults =
      l.faults ++ ds.filterMap fun d => duplicateOf g ((l.lookup d.2).or (firstIn ds d.2)) d := by
  induction ds generalizing l with
  | nil => simp
  | cons d ds ih =>
    obtain ⟨ihl, ihf⟩ := ih (l.declare g d)
    have hl : ∀ uid, ((l.declare g d).lookup uid).or (firstIn ds uid) =
        (l.lookup uid).or (firstIn (d :: ds) uid) := by
      intro uid
      rw [lookup_declare, firstIn_cons, Option.or_assoc]
    refine ⟨fun uid => by rw [List.foldl_cons, ihl, hl], ?_⟩
    rw [List.foldl_cons, ihf, faults_declare, List.filterMap_cons, List.append_assoc]
    congr 1
    have hd : (l.lookup d.2).or (firstIn (d :: ds) d.2) = (l.lookup d.2).or (some d.1) := by
      simp [firstIn_cons]
    have hdup : duplicateOf g ((l.lookup d.2).or (some d.1)) d = duplicateOf g (l.lookup d.2) d := by
      cases l.lookup d.2 <;> simp [duplicateOf]
    rw [hd, hdup]
    cases duplicateOf g (l.lookup d.2) d <;>
      simp [hl]

/-- The fault a reference adds: an unresolved UID when no structure is recorded for it. -/
def unresolvedOf (target : Option NodeId) (s : Shape.Site) : Option LinkFault :=
  if target = none then some (.unresolvedUid s.uid s.line) else none

theorem resolveSite_faults (l : Linker) (acc : Graph × List LinkFault) (s : Shape.Site) :
    (l.resolveSite acc s).2 = acc.2 ++ (unresolvedOf (l.lookup s.uid) s).toList := by
  unfold resolveSite
  cases l.lookup s.uid <;> simp [unresolvedOf]

theorem foldl_resolveSite_faults (l : Linker) (sites : List Shape.Site)
    (acc : Graph × List LinkFault) :
    (sites.foldl l.resolveSite acc).2 =
      acc.2 ++ sites.filterMap fun s => unresolvedOf (l.lookup s.uid) s := by
  induction sites generalizing acc with
  | nil => simp
  | cons s sites ih =>
    rw [List.foldl_cons, ih, resolveSite_faults, List.filterMap_cons, List.append_assoc]
    cases unresolvedOf (l.lookup s.uid) s <;> simp


/-- The values at the positions of `done` in container `x` relinked by `f`. -/
def relinkAt (f : String → Option NodeId) (done : List Shape.Site) (x : NodeId) :
    Node → Node :=
  Node.mapValues fun i v => if done.any (fun s => s.node == x && s.slot == i) then v.relink f else v

theorem relink_uid (f : String → Option NodeId) {name : String} (t : Option NodeId) (line : Nat)
    (h : name ≠ nullUid) :
    (Value.scalar (.uid name t) line).relink f = .scalar (.uid name ((f name).or t)) line := by
  simp [Value.relink, h]

/-- One step of the second pass relinks the reference at one more position. -/
theorem resolveSite_get? (l : Linker) (g₀ g : Graph) (fs : List LinkFault) (done : List Shape.Site)
    (s : Shape.Site) (hs : s.In g₀)
    (hg : ∀ x, g.get? x = (g₀.get? x).map (relinkAt l.lookup done x)) (x : NodeId) :
    (l.resolveSite (g, fs) s).1.get? x = (g₀.get? x).map (relinkAt l.lookup (done ++ [s]) x) := by
  obtain ⟨n, t₀, hn, hv, hu⟩ := hs
  unfold resolveSite
  by_cases hx : x = s.node
  · subst hx
    rw [hn, Option.map_some]
    cases hl : l.lookup s.uid with
    | none =>
      simp only [hg, hn, Option.map_some, relinkAt]
      congr 1
      refine Node.mapValues_congr fun i v hi => ?_
      by_cases hi' : i = s.slot
      · subst hi'
        rw [hv] at hi
        cases hi
        simp [relink_uid _ _ _ hu, hl]
      · simp [Ne.symm hi']
    | some t =>
      simp only [Graph.setTarget_eq, Graph.get?_modify, hg, hn, Option.map_some, if_true, relinkAt,
        Node.mapValues_mapValues]
      congr 1
      refine Node.mapValues_congr fun i v hi => ?_
      by_cases hi' : i = s.slot
      · subst hi'
        rw [hv] at hi
        cases hi
        by_cases hd : done.any (fun s' => s'.node == s.node && s'.slot == s.slot) <;>
          simp [hd, relink_uid _ _ _ hu, hl, Value.retarget]
      · simp [hi', Ne.symm hi']
  · have hother : relinkAt l.lookup (done ++ [s]) x = relinkAt l.lookup done x := by
      unfold relinkAt
      congr 1
      funext i v
      simp [Ne.symm hx]
    cases hl : l.lookup s.uid with
    | none => simp [hg, hother]
    | some t => simp [Graph.setTarget_eq, Graph.get?_modify, hx, hg, hother, Function.comp_def]

/-- **The second pass relinks the reference at every position it meets**, whatever the
order, as long as each position holds a reference of the graph. -/
theorem foldl_resolveSite_get? (l : Linker) (g₀ : Graph) :
    ∀ (sites done : List Shape.Site) (g : Graph) (fs : List LinkFault), (∀ s ∈ sites, s.In g₀) →
      (∀ x, g.get? x = (g₀.get? x).map (relinkAt l.lookup done x)) →
      ∀ x, (sites.foldl l.resolveSite (g, fs)).1.get? x =
        (g₀.get? x).map (relinkAt l.lookup (done ++ sites) x)
  | [], done, g, _, _, hg, x => by simpa using hg x
  | s :: sites, done, g, fs, hs, hg, x => by
    have h₁ := resolveSite_get? l g₀ g fs done s (hs s List.mem_cons_self) hg
    have := foldl_resolveSite_get? l g₀ sites (done ++ [s]) (l.resolveSite (g, fs) s).1
      (l.resolveSite (g, fs) s).2 (fun s' hs' => hs s' (List.mem_cons_of_mem _ hs')) h₁ x
    simpa using this

theorem relinkAt_nil (f : String → Option NodeId) (x : NodeId) : relinkAt f [] x = id :=
  funext fun _ => Node.mapValues_id fun _ _ _ => by simp

end Linker

namespace Graph

variable (g : Graph) (roots : List NodeId)

/-- The declarations met by the walks from `roots`: each structure entered whose UID is not
`#NULL`, with that UID, in the order entered. -/
def declarations : List (NodeId × String) := (g.preorder roots).filterMap g.declared

/-- The structure that declares `uid` first in walk order, if any does. -/
def firstDeclarer (uid : String) : Option NodeId := Linker.firstIn (g.declarations roots) uid

/-- The UID references met by the walks from `roots`, in the order met: the containers in
walk order, and within each its values in order, with the references of a container entered
from one of its values met in between. -/
def references : List Shape.Site := (g.walkAll false {} roots).1.flatMap Shape.sites

/-- One duplicate fault for each declaration of a UID that an earlier structure declared
first, naming the tags of both structures. -/
def duplicateFaults : List LinkFault :=
  (g.declarations roots).filterMap fun d => Linker.duplicateOf g (g.firstDeclarer roots d.2) d

/-- One unresolved fault for each reference to a UID that no structure declares. -/
def unresolvedFaults : List LinkFault :=
  (g.references roots).filterMap fun s => Linker.unresolvedOf (g.firstDeclarer roots s.uid) s

variable {g roots}

theorem walkAll_declarations :
    (g.walkAll false {} roots).1.flatMap Shape.declarations = g.declarations roots := by
  rw [← declarationsItems_eq, (walksList_walkAll visitedOk_empty roots).declarations,
    Shape.openedItems_eq]
  rfl

/-- **The references met are those of the containers entered, each once.** -/
theorem references_perm : (g.references roots).Perm ((g.preorder roots).flatMap g.sitesAt) := by
  have := (walksList_walkAll (g := g) visitedOk_empty roots).sites_flatMap
  rwa [Shape.openedItems_eq] at this

theorem in_of_mem_references {s : Shape.Site} (h : s ∈ g.references roots) :
    s.In g ∧ s.node ∈ g.preorder roots := by
  obtain ⟨x, hx, hs⟩ := List.mem_flatMap.mp (references_perm.subset h)
  obtain ⟨hin, rfl⟩ := sitesAt_in hs
  exact ⟨hin, hx⟩

section Declarative

variable (g roots)

/-- A structure reachable from `roots` that declares `uid`, which is not `#NULL`. -/
def Declares (s : NodeId) (uid : String) : Prop :=
  g.Reaches roots s ∧ uid ≠ nullUid ∧ ∃ n pairs, g.get? s = some n ∧ n.body = .struct uid pairs

/-- A container reachable from `roots` holds a reference to `uid`, which is not `#NULL`. -/
def Refers (uid : String) : Prop :=
  ∃ id n t line, g.Reaches roots id ∧ g.get? id = some n ∧
    Value.scalar (.uid uid t) line ∈ n.values ∧ uid ≠ nullUid

/-- No two different reachable structures declare the same UID. -/
def UidsDistinct : Prop := ∀ s s' uid, g.Declares roots s uid → g.Declares roots s' uid → s = s'

/-- Every UID referred to from a reachable container is declared by a reachable structure. -/
def UidsResolved : Prop := ∀ uid, g.Refers roots uid → ∃ s, g.Declares roots s uid

/-- The faults linking reports: the duplicates, then the unresolved references. -/
def linkFaults : List LinkFault := g.duplicateFaults roots ++ g.unresolvedFaults roots

variable {g roots}

theorem declared_eq_some {x s : NodeId} {uid : String} :
    g.declared x = some (s, uid) ↔
      x = s ∧ uid ≠ nullUid ∧ ∃ n pairs, g.get? s = some n ∧ n.body = .struct uid pairs := by
  unfold declared
  cases hx : g.get? x with
  | none =>
    simp only [reduceCtorEq, false_iff]
    rintro ⟨rfl, -, n, ps, hs, -⟩
    rw [hx] at hs
    cases hs
  | some n =>
    obtain ⟨tag, line, body⟩ := n
    cases body with
    | struct u pairs =>
      by_cases hu : u = nullUid
      · simp only [hu, if_true, reduceCtorEq, false_iff]
        rintro ⟨rfl, hne, n, ps, hs, hb⟩
        rw [hx] at hs
        cases hs
        cases hb
        exact hne hu
      · simp only [hu, if_false, Option.some.injEq, Prod.mk.injEq]
        constructor
        · rintro ⟨rfl, rfl⟩
          exact ⟨rfl, hu, _, pairs, hx, rfl⟩
        · rintro ⟨rfl, -, n, ps, hs, hb⟩
          rw [hx] at hs
          cases hs
          cases hb
          exact ⟨rfl, rfl⟩
    | _ =>
      simp only [reduceCtorEq, false_iff]
      rintro ⟨rfl, -, n, ps, hs, hb⟩
      rw [hx] at hs
      cases hs
      cases hb

/-- **The declarations met are those of the reachable structures.** -/
theorem mem_declarations {s : NodeId} {uid : String} :
    (s, uid) ∈ g.declarations roots ↔ g.Declares roots s uid := by
  simp only [declarations, List.mem_filterMap, declared_eq_some]
  constructor
  · rintro ⟨x, hx, rfl, hu, n, pairs, hn, hb⟩
    exact ⟨(mem_preorder.mp hx).1, hu, n, pairs, hn, hb⟩
  · rintro ⟨hr, hu, n, pairs, hn, hb⟩
    refine ⟨s, mem_preorder.mpr ⟨hr, n, hn, by simp [Node.isBranch, hb]⟩, rfl, hu, n, pairs, hn, hb⟩

theorem declares_of_firstDeclarer {uid : String} {s : NodeId}
    (h : g.firstDeclarer roots uid = some s) : g.Declares roots s uid := by
  obtain ⟨d, hd, rfl⟩ := Option.map_eq_some_iff.mp h
  have hmem := List.mem_of_find?_eq_some hd
  have huid : d.2 = uid := by simpa using List.find?_some hd
  obtain ⟨s, u⟩ := d
  subst huid
  exact mem_declarations.mp hmem

theorem firstDeclarer_isSome {uid : String} {s : NodeId} (h : g.Declares roots s uid) :
    ∃ f, g.firstDeclarer roots uid = some f := by
  have hmem := mem_declarations.mpr h
  cases hf : (g.declarations roots).find? (·.2 == uid) with
  | none => exact absurd (List.find?_eq_none.mp hf _ hmem) (by simp)
  | some d => exact ⟨d.1, by simp [firstDeclarer, Linker.firstIn, hf]⟩

theorem refers_iff {uid : String} :
    g.Refers roots uid ↔ ∃ r ∈ g.references roots, r.uid = uid := by
  constructor
  · rintro ⟨id, n, t, line, hr, hn, hv, hu⟩
    obtain ⟨k, hk⟩ := List.mem_iff_getElem?.mp hv
    have hb : g.IsBranch id := ⟨n, hn, by
      obtain ⟨tag, l, body⟩ := n
      cases body <;> simp_all [Node.values, Node.isBranch]⟩
    refine ⟨⟨id, k, uid, line⟩, references_perm.symm.subset
      (List.mem_flatMap.mpr ⟨id, mem_preorder.mpr ⟨hr, hb⟩, ?_⟩), rfl⟩
    simpa [sitesAt, hn] using mem_valueSites id hu (i := 0) hk
  · rintro ⟨r, hr, rfl⟩
    obtain ⟨⟨n, t, hn, hv, hu⟩, hp⟩ := in_of_mem_references hr
    exact ⟨r.node, n, t, r.line, (mem_preorder.mp hp).1, hn, List.mem_of_getElem? hv, hu⟩

theorem duplicateFaults_eq_nil : g.duplicateFaults roots = [] ↔ g.UidsDistinct roots := by
  have hnone : ∀ d : NodeId × String, d ∈ g.declarations roots →
      (Linker.duplicateOf g (g.firstDeclarer roots d.2) d = none ↔
        g.firstDeclarer roots d.2 = some d.1) := by
    intro d hd
    obtain ⟨f, hf⟩ := firstDeclarer_isSome (mem_declarations.mp hd)
    rw [hf]
    by_cases h : f = d.1 <;> simp [Linker.duplicateOf, h]
  simp only [duplicateFaults, List.filterMap_eq_nil_iff]
  constructor
  · intro h s s' uid hs hs'
    have h₁ := (hnone _ (mem_declarations.mpr hs)).mp (h _ (mem_declarations.mpr hs))
    have h₂ := (hnone _ (mem_declarations.mpr hs')).mp (h _ (mem_declarations.mpr hs'))
    exact Option.some.inj (h₁.symm.trans h₂)
  · intro h d hd
    refine (hnone d hd).mpr ?_
    obtain ⟨f, hf⟩ := firstDeclarer_isSome (mem_declarations.mp hd)
    rw [hf, h f d.1 d.2 (declares_of_firstDeclarer hf) (mem_declarations.mp hd)]

theorem unresolvedFaults_eq_nil : g.unresolvedFaults roots = [] ↔ g.UidsResolved roots := by
  simp only [unresolvedFaults, List.filterMap_eq_nil_iff, Linker.unresolvedOf]
  constructor
  · intro h uid hu
    obtain ⟨r, hr, rfl⟩ := refers_iff.mp hu
    cases hf : g.firstDeclarer roots r.uid with
    | none => simpa [hf] using h r hr
    | some f => exact ⟨f, declares_of_firstDeclarer hf⟩
  · intro h r hr
    obtain ⟨s, hs⟩ := h r.uid (refers_iff.mpr ⟨r, hr, rfl⟩)
    obtain ⟨f, hf⟩ := firstDeclarer_isSome hs
    simp [hf]

/-- **Linking reports no fault exactly when the reachable structures declare distinct UIDs
and every reachable reference names one of them.** -/
theorem linkFaults_eq_nil :
    g.linkFaults roots = [] ↔ g.UidsDistinct roots ∧ g.UidsResolved roots := by
  rw [linkFaults, List.append_eq_nil_iff, duplicateFaults_eq_nil, unresolvedFaults_eq_nil]

end Declarative

end Graph

namespace Linker

variable (g : Graph) (l : Linker)

theorem modules_foldl_declare (ds : List (NodeId × String)) (l : Linker) :
    (ds.foldl (declare g) l).modules = l.modules := by
  induction ds generalizing l with
  | nil => rfl
  | cons d ds ih =>
    rw [List.foldl_cons, ih]
    cases h : l.lookup d.2 with
    | none => rw [declare_of_none g h]
    | some first =>
      rw [declare_of_some g h]
      split <;> rfl

/-- The first pass from a clean record. -/
def mapped : Linker :=
  (g.declarations l.modules).foldl (declare g) { l with uidMap := [], faults := [] }

/-- Linking, pass by pass. -/
theorem link_eq : l.link g =
    (((g.references l.modules).foldl (l.mapped g).resolveSite (g, (l.mapped g).faults)).1,
      { l.mapped g with
        faults := ((g.references l.modules).foldl (l.mapped g).resolveSite (g, (l.mapped g).faults)).2 },
      if ((g.references l.modules).foldl (l.mapped g).resolveSite (g, (l.mapped g).faults)).2.isEmpty
      then .ok () else
        .error (.link ((g.references l.modules).foldl (l.mapped g).resolveSite
          (g, (l.mapped g).faults)).2)) := by
  have hm : (l.mapped g).modules = l.modules := modules_foldl_declare g _ _
  simp only [link, mapUids, resolveUids, Graph.walkAll_declarations, mapped] at hm ⊢
  rw [hm]
  rfl

theorem mapped_lookup (uid : String) : (l.mapped g).lookup uid = g.firstDeclarer l.modules uid := by
  rw [mapped, (foldl_declare g _ _).1]
  rfl

theorem mapped_faults : (l.mapped g).faults = g.duplicateFaults l.modules := by
  rw [mapped, (foldl_declare g _ _).2]
  rfl

/-- **What linking records and reports**: the record gives each UID its first declaring
structure in walk order, and the faults are the duplicates, then the unresolved references. -/
theorem link_linker :
    (∀ uid, (l.link g).2.1.lookup uid = g.firstDeclarer l.modules uid) ∧
    (l.link g).2.1.faults = g.duplicateFaults l.modules ++ g.unresolvedFaults l.modules := by
  rw [link_eq]
  refine ⟨fun uid => mapped_lookup g l uid, ?_⟩
  rw [foldl_resolveSite_faults, mapped_faults]
  simp only [mapped_lookup]
  rfl

theorem relinkAt_references {roots : List NodeId} (f : String → Option NodeId) {x : NodeId}
    {n : Node} (hn : g.get? x = some n) :
    relinkAt f (g.references roots) x n =
      if x ∈ g.preorder roots then n.mapValues (fun _ v => v.relink f) else n := by
  split
  · rename_i hx
    refine Node.mapValues_congr fun i v hv => ?_
    split
    · rfl
    · rename_i hnot
      rcases v with ⟨_ | _ | _ | _ | _ | ⟨name, t⟩, line⟩ | c <;> try rfl
      by_cases hu : name = nullUid
      · simp [Value.relink, hu]
      · have hsite : (⟨x, i, name, line⟩ : Shape.Site) ∈ g.references roots := by
          refine Graph.references_perm.symm.subset (List.mem_flatMap.mpr ⟨x, hx, ?_⟩)
          simpa [Graph.sitesAt, hn] using Graph.mem_valueSites x hu (i := 0) hv
        exact absurd (List.any_eq_true.mpr ⟨_, hsite, by simp⟩) hnot
  · rename_i hx
    refine Node.mapValues_id fun i v _ => ?_
    have hnone : (g.references roots).any (fun s => s.node == x && s.slot == i) = false := by
      refine List.any_eq_false.mpr fun s hs h => hx ?_
      have hnode : s.node = x := by simpa using (Bool.and_eq_true _ _).mp h |>.1
      exact hnode ▸ (Graph.in_of_mem_references hs).2
    simp [hnone]

/-- **What linking does to the graph**: every reference other than `#NULL` in a container the
walks enter is linked to the first structure declaring its UID, when one does, and keeps its
link otherwise; nothing else changes. -/
theorem link_graph (x : NodeId) :
    (l.link g).1.get? x = (g.get? x).map fun n =>
      if x ∈ g.preorder l.modules then n.mapValues (fun _ v => v.relink (g.firstDeclarer l.modules))
      else n := by
  have hf : (l.mapped g).lookup = g.firstDeclarer l.modules := funext (mapped_lookup g l)
  rw [link_eq]
  rw [foldl_resolveSite_get? (l.mapped g) g _ [] g _
    (fun s hs => (Graph.in_of_mem_references hs).1) (fun x => by simp [relinkAt_nil]) x]
  cases hx : g.get? x with
  | none => rfl
  | some n => simp only [Option.map_some, List.nil_append, hf, relinkAt_references g _ hx]

/-- After linking without faults, every reference in a reachable container is linked to the
structure declaring its UID. -/
theorem link_targets (hres : g.UidsResolved l.modules) {id : NodeId} {n : Node} {uid : String}
    {t : Option NodeId} {line : Nat} (hr : g.Reaches l.modules id) (hn : (l.link g).1.get? id = some n)
    (hv : Value.scalar (.uid uid t) line ∈ n.values) (hu : uid ≠ nullUid) :
    ∃ s, t = some s ∧ g.Declares l.modules s uid := by
  rw [link_graph] at hn
  obtain ⟨n₀, hn₀, rfl⟩ := Option.map_eq_some_iff.mp hn
  have hx : id ∈ g.preorder l.modules := by
    refine Graph.mem_preorder.mpr ⟨hr, n₀, hn₀, ?_⟩
    split at hv
    · obtain ⟨tag, ln, body⟩ := n₀
      cases body <;> simp_all [Node.mapValues, Node.values, Node.isBranch]
    · obtain ⟨tag, ln, body⟩ := n₀
      cases body <;> simp_all [Node.values, Node.isBranch]
  simp only [hx, if_true, Node.values_mapValues_const, List.mem_map] at hv
  obtain ⟨v, hv, hrel⟩ := hv
  obtain ⟨t₀, rfl, rfl⟩ := Value.relink_eq_uid hrel hu
  obtain ⟨s, hs⟩ := hres uid ⟨id, n₀, t₀, line, hr, hn₀, hv, hu⟩
  obtain ⟨f, hf⟩ := Graph.firstDeclarer_isSome hs
  exact ⟨f, by simp [hf], Graph.declares_of_firstDeclarer hf⟩

/-- Linking succeeds exactly when it finds no fault, and otherwise reports them all. -/
theorem link_status : (l.link g).2.2 =
    if g.linkFaults l.modules = [] then .ok () else .error (.link (g.linkFaults l.modules)) := by
  rw [Graph.linkFaults, ← (link_linker g l).2, link_eq]
  simp only [List.isEmpty_iff]

end Linker

/-- **Linking is correct over any graph and any list of modules**, shared and cyclic
containers included. The walks of both passes enter each reachable structure and list exactly
once, in `Graph.preorder`, and meet each reference of those containers exactly once, in
`Graph.references`. Linking succeeds exactly when the reachable structures declare distinct
UIDs and every reachable reference names one of them; otherwise it fails with the duplicate
faults in walk order, then the unresolved ones. The record gives each UID its first declaring
structure; on success every reachable reference is linked to the structure declaring its UID,
and linking changes nothing but the links of the references it meets. -/
theorem link_correct (g : Graph) (l : Linker) :
    (l.link g).2.2 = (if g.linkFaults l.modules = [] then .ok ()
      else .error (.link (g.linkFaults l.modules))) ∧
    (g.linkFaults l.modules = [] ↔ g.UidsDistinct l.modules ∧ g.UidsResolved l.modules) ∧
    (∀ uid, (l.link g).2.1.lookup uid = g.firstDeclarer l.modules uid) ∧
    ((l.link g).2.2 = .ok () → ∀ uid s, (l.link g).2.1.lookup uid = some s ↔
      g.Declares l.modules s uid) ∧
    ((l.link g).2.2 = .ok () → ∀ id n uid t line, g.Reaches l.modules id →
      (l.link g).1.get? id = some n → Value.scalar (.uid uid t) line ∈ n.values →
      uid ≠ nullUid → ∃ s, t = some s ∧ g.Declares l.modules s uid) ∧
    (∀ x, (l.link g).1.get? x = (g.get? x).map fun n =>
      if x ∈ g.preorder l.modules then
        n.mapValues (fun _ v => v.relink (g.firstDeclarer l.modules))
      else n) ∧
    (g.preorder l.modules).Nodup ∧
    (∀ id, id ∈ g.preorder l.modules ↔ g.Reaches l.modules id ∧ g.IsBranch id) ∧
    (g.references l.modules).Perm ((g.preorder l.modules).flatMap g.sitesAt) := by
  have hlookup := (Linker.link_linker g l).1
  have hres : (l.link g).2.2 = (if g.linkFaults l.modules = [] then .ok ()
      else .error (.link (g.linkFaults l.modules))) := Linker.link_status g l
  have hok : (l.link g).2.2 = .ok () → g.UidsDistinct l.modules ∧ g.UidsResolved l.modules := by
    intro h
    rw [hres] at h
    split at h
    · exact Graph.linkFaults_eq_nil.mp ‹_›
    · cases h
  refine ⟨hres, Graph.linkFaults_eq_nil, hlookup, fun h uid s => ?_,
    fun h id n uid t line hr hn hv hu => Linker.link_targets g l (hok h).2 hr hn hv hu,
    Linker.link_graph g l, Graph.preorder_nodup, fun _ => Graph.mem_preorder,
    Graph.references_perm⟩
  rw [hlookup]
  constructor
  · exact Graph.declares_of_firstDeclarer
  · intro hs
    obtain ⟨f, hf⟩ := Graph.firstDeclarer_isSome hs
    rw [hf, (hok h).1 f s uid (Graph.declares_of_firstDeclarer hf) hs]

end GraphDoc
