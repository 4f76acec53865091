import GraphDoc.Proofs.LoadedDocument
/-! # Documents rebuilt by a round trip and a link

A document graph may share structures and hold cycles through them. Its writers walk it once
(`Graph.walk`): a structure reached again is written as a reference to its UID, which the
usage count then declares. Reading the document back gives a tree, and planting and linking
that tree turns each such reference back into an edge.

This module proves that the three steps rebuild the graph. The walk of the tree read back,
planted afresh, copies the walk of the document (`Shape.Copy`, from `Shape.copy_of_written`).
A copy gives each structure and list entered by the walk of the document a container of the
planted graph (`Graph.Copied`, `Graph.copied_of_copy`); its references and declarations are
those of the document, restricted to the UIDs the writer declares, so linking succeeds when the
document's UIDs are distinct and resolved, and links each reference to the copy of the
structure that declares its UID (`Graph.Copied.relink`). -/
namespace GraphDoc

namespace Shape

mutual
/-- The containers a walk reaches again, with their nodes, in walk order. -/
def repeats : Shape → List (NodeId × Node)
  | .struct _ _ _ _ pairs => repeatsPairs pairs
  | .list _ _ _ items => repeatsItems items
  | .again id n => [(id, n)]
  | _ => []

/-- The containers reached again from the values of pairs. -/
def repeatsPairs : List (String × Shape) → List (NodeId × Node)
  | [] => []
  | (_, s) :: rest => repeats s ++ repeatsPairs rest

/-- The containers reached again from items. -/
def repeatsItems : List Shape → List (NodeId × Node)
  | [] => []
  | s :: rest => repeats s ++ repeatsItems rest
end

theorem repeatsPairs_eq (ps : List (String × Shape)) :
    repeatsPairs ps = repeatsItems (ps.map Prod.snd) := by
  induction ps with
  | nil => rfl
  | cons p ps ih => simp [repeatsPairs, repeatsItems, ih]

section Repeats

variable {s : Shape}
  (h : ∀ r ∈ s.repeats, ∃ uid pairs, r.2.body = .struct uid pairs ∧ uid ≠ nullUid)
include h

theorem repeats_struct : ∀ r ∈ s.repeats, ∃ uid pairs, r.2.body = .struct uid pairs := by
  intro r hr
  obtain ⟨uid, pairs, hb, -⟩ := h r hr
  exact ⟨uid, pairs, hb⟩

theorem repeats_uid_ne_null :
    ∀ r ∈ s.repeats, ∀ uid pairs, r.2.body = .struct uid pairs → uid ≠ nullUid := by
  intro r hr uid pairs hb
  obtain ⟨uid', pairs', hb', hn⟩ := h r hr
  rw [hb] at hb'
  cases hb'
  exact hn

end Repeats

variable (used : String → Bool)

mutual
/-- `Copy used s s'`: `s'` is the walk of a tree that, without its lines and links, is what the
chunks of the walk `s`, which reaches no list again, read back as. It is `Flattened used s s'`
with any lines, and with any links on the references. -/
inductive Copy : Shape → Shape → Prop
  | scalar (sc sc' : Scalar) (line line' : Nat) : sc'.unlinked = sc.unlinked →
      Copy (.scalar sc line) (.scalar sc' line')
  | struct (id id' : NodeId) (tag uid : String) (line line' : Nat)
      (ps ps' : List (String × Shape)) :
      ps'.map Prod.fst = ps.map Prod.fst → CopyList (ps.map Prod.snd) (ps'.map Prod.snd) →
      Copy (.struct id tag uid line ps)
        (.struct id' tag (if (uid != nullUid && used uid) = true then uid else nullUid) line' ps')
  | list (id id' : NodeId) (tag : String) (line line' : Nat) (ss ss' : List Shape) :
      CopyList ss ss' → Copy (.list id tag line ss) (.list id' tag line' ss')
  | leaf (id id' : NodeId) (n : Node) (line' : Nat) : n.isBranch = false →
      Copy (.leaf id n) (.leaf id' ⟨n.tag, line', n.body⟩)
  | againStruct (id : NodeId) (tag : String) (line : Nat) (uid : String)
      (pairs : List (String × Value)) (t : Option NodeId) (line' : Nat) :
      Copy (.again id ⟨tag, line, .struct uid pairs⟩) (.scalar (.uid uid t) line')

/-- Walks copied item by item. -/
inductive CopyList : List Shape → List Shape → Prop
  | nil : CopyList [] []
  | cons {s s' : Shape} {ss ss' : List Shape} :
      Copy s s' → CopyList ss ss' → CopyList (s :: ss) (s' :: ss')
end

theorem barePairs_keys (qs : List (String × Tree)) :
    (Tree.barePairs qs).map Prod.fst = qs.map Prod.fst := by
  induction qs with
  | nil => rfl
  | cons q qs ih =>
    obtain ⟨k, t⟩ := q
    simp [Tree.barePairs, ih]

/-- A rawtext block or an array that reads back as the bare form of a tree is, planted, that
container with the line of the tree. -/
theorem Mirrors.leaf_of_leafTree {n : Node} {t : Tree} {s' : Shape}
    (h : n.leafTree? = some t.bare) (hm : s'.Mirrors t) :
    ∃ id' line', s' = .leaf id' ⟨n.tag, line', n.body⟩ := by
  obtain ⟨tag, line, body⟩ := n
  cases body with
  | struct | list => simp [Node.leafTree?] at h
  | raw text =>
    cases t <;> simp [Node.leafTree?, Tree.bare] at h
    obtain ⟨rfl, rfl⟩ := h
    cases hm
    exact ⟨_, _, rfl⟩
  | ints vs =>
    cases t <;> simp [Node.leafTree?, Tree.bare] at h
    obtain ⟨rfl, rfl⟩ := h
    cases hm
    exact ⟨_, _, rfl⟩
  | reals xs =>
    cases t <;> simp [Node.leafTree?, Tree.bare] at h
    obtain ⟨rfl, rfl⟩ := h
    cases hm
    exact ⟨_, _, rfl⟩

mutual
/-- **The walk of a tree read back copies the walk written**, when that walk reaches no list
again: whatever lines and links the reader gives the tree, as long as its bare form is what the
chunks of the walk read back as. -/
theorem copy_of_written : ∀ (s : Shape) {t : Tree} {s' : Shape},
    (∀ r ∈ s.repeats, ∃ uid pairs, r.2.body = .struct uid pairs) →
    s.written used = some t.bare → s'.Mirrors t → Copy used s s'
  | .scalar sc line, t, s', _, hw, hm => by
    simp only [written, Option.some.injEq] at hw
    obtain ⟨sc', line', rfl, hsc⟩ := Tree.bare_eq_scalar hw.symm
    cases hm
    exact .scalar sc sc' line line' hsc
  | .struct id tag uid line ps, t, s', hr, hw, hm => by
    simp only [written] at hw
    obtain ⟨ts, hts, hbare⟩ := Option.map_eq_some_iff.1 hw
    obtain ⟨line', qs, rfl, hqs⟩ := Tree.bare_eq_struct hbare.symm
    rw [← hqs] at hts
    cases hm with
    | struct id' _ _ _ ps' _ hkeys hl =>
      refine .struct id id' tag uid line line' ps ps' ?_ (copyList_of_writtenPairs ps hr hts hl)
      rw [hkeys, ← barePairs_keys, writtenPairs_keys used hts]
  | .list id tag line ss, t, s', hr, hw, hm => by
    simp only [written] at hw
    obtain ⟨ts, hts, hbare⟩ := Option.map_eq_some_iff.1 hw
    obtain ⟨line', qs, rfl, hqs⟩ := Tree.bare_eq_list hbare.symm
    rw [← hqs] at hts
    cases hm with
    | list id' _ _ ss' _ hl =>
      exact .list id id' tag line line' ss ss' (copyList_of_writtenItems ss hr hts hl)
  | .leaf id n, t, s', _, hw, hm => by
    simp only [written] at hw
    obtain ⟨id', line', rfl⟩ := Mirrors.leaf_of_leafTree hw hm
    refine .leaf id id' n line' ?_
    obtain ⟨tag, line, body⟩ := n
    cases body <;> simp_all [Node.leafTree?, Node.isBranch]
  | .again id ⟨tag, line, body⟩, t, s', hr, hw, hm => by
    -- a structure reached again reads back as its UID; no other container is reached again
    obtain ⟨uid, pairs, hb⟩ := hr (id, ⟨tag, line, body⟩) (List.mem_singleton_self _)
    subst hb
    simp only [written, Option.some.injEq] at hw
    obtain ⟨sc', line', rfl, hsc⟩ := Tree.bare_eq_scalar hw.symm
    obtain ⟨t', rfl⟩ : ∃ t', sc' = .uid uid t' := by
      cases sc' <;> simp_all [Scalar.unlinked]
    cases hm
    exact .againStruct id tag line uid pairs t' line'
  | .missing, t, s', _, hw, _ => by simp [written] at hw

theorem copyList_of_writtenPairs : ∀ (ps : List (String × Shape)) {qs : List (String × Tree)}
    {ss' : List Shape}, (∀ r ∈ repeatsPairs ps, ∃ uid pairs, r.2.body = .struct uid pairs) →
    writtenPairs used ps = some (Tree.barePairs qs) →
    MirrorsList ss' (qs.map Prod.snd) → CopyList used (ps.map Prod.snd) ss'
  | [], qs, ss', _, hw, hm => by
    simp only [writtenPairs, Option.some.injEq] at hw
    cases Tree.barePairs_eq_nil hw.symm
    cases hm
    exact .nil
  | (k, s) :: rest, qs, ss', hr, hw, hm => by
    simp only [writtenPairs, Option.bind_eq_bind, Option.bind_eq_some_iff, Option.pure_def,
      Option.some.injEq] at hw
    obtain ⟨t, hs, ts', hrest, hcons⟩ := hw
    obtain ⟨q, qs', rfl, hq, hqs'⟩ := Tree.barePairs_eq_cons hcons.symm
    rw [← hq] at hs
    rw [← hqs'] at hrest
    cases hm with
    | cons h₁ h₂ =>
      exact .cons (copy_of_written s (fun r h => hr r (List.mem_append_left _ h)) hs h₁)
        (copyList_of_writtenPairs rest (fun r h => hr r (List.mem_append_right _ h)) hrest h₂)

theorem copyList_of_writtenItems : ∀ (ss : List Shape) {qs : List Tree} {ss' : List Shape},
    (∀ r ∈ repeatsItems ss, ∃ uid pairs, r.2.body = .struct uid pairs) →
    writtenItems used ss = some (Tree.bareItems qs) → MirrorsList ss' qs → CopyList used ss ss'
  | [], qs, ss', _, hw, hm => by
    simp only [writtenItems, Option.some.injEq] at hw
    cases Tree.bareItems_eq_nil hw.symm
    cases hm
    exact .nil
  | s :: rest, qs, ss', hr, hw, hm => by
    simp only [writtenItems, Option.bind_eq_bind, Option.bind_eq_some_iff, Option.pure_def,
      Option.some.injEq] at hw
    obtain ⟨t, hs, ts', hrest, hcons⟩ := hw
    obtain ⟨q, qs', rfl, hq, hqs'⟩ := Tree.bareItems_eq_cons hcons.symm
    rw [← hq] at hs
    rw [← hqs'] at hrest
    cases hm with
    | cons h₁ h₂ =>
      exact .cons (copy_of_written s (fun r h => hr r (List.mem_append_left _ h)) hs h₁)
        (copyList_of_writtenItems rest (fun r h => hr r (List.mem_append_right _ h)) hrest h₂)
end


section Copies

variable {used}

/-- A scalar's references depend on it only through its form without links. -/
theorem referenced_scalar_unlinked (sc : Scalar) (line : Nat) :
    (Shape.scalar sc line).referenced = (Shape.scalar sc.unlinked 0).referenced := by
  cases sc <;> rfl

mutual
theorem Copy.opened_length : ∀ {s s' : Shape}, Copy used s s' → s'.opened.length = s.opened.length
  | _, _, .scalar .. | _, _, .leaf .. | _, _, .againStruct .. => rfl
  | _, _, .struct _ _ _ _ _ _ _ _ _ hl => by
    simp only [opened, openedPairs_eq, List.length_cons, CopyList.opened_length hl]
  | _, _, .list _ _ _ _ _ _ _ hl => by
    simp only [opened, List.length_cons, CopyList.opened_length hl]

theorem CopyList.opened_length : ∀ {ss ss' : List Shape}, CopyList used ss ss' →
    (openedItems ss').length = (openedItems ss).length
  | _, _, .nil => rfl
  | _, _, .cons h₁ h₂ => by
    simp only [openedItems, List.length_append, Copy.opened_length h₁, CopyList.opened_length h₂]
end

mutual
/-- **A copy is written with the same references**, in the same order. -/
theorem Copy.referenced_eq : ∀ {s s' : Shape}, Copy used s s' → s'.referenced = s.referenced
  | _, _, .scalar sc sc' line line' h => by
    rw [referenced_scalar_unlinked sc', h, ← referenced_scalar_unlinked]
  | _, _, .struct _ _ _ _ _ _ _ _ _ hl => by
    simp only [referenced, referencedPairs_eq]
    exact CopyList.referenced_eq hl
  | _, _, .list _ _ _ _ _ _ _ hl => by
    simp only [referenced]
    exact CopyList.referenced_eq hl
  | _, _, .leaf .. | _, _, .againStruct .. => rfl

theorem CopyList.referenced_eq : ∀ {ss ss' : List Shape}, CopyList used ss ss' →
    referencedItems ss' = referencedItems ss
  | _, _, .nil => rfl
  | _, _, .cons h₁ h₂ => by
    simp only [referencedItems, Copy.referenced_eq h₁, CopyList.referenced_eq h₂]
end

/-- Containers entered by two walks of the same length, one after the other, correspond in
order when all of them do. -/
theorem map_append_split {φ : NodeId → NodeId} {a b a' b' : List NodeId}
    (h : (a ++ b).map φ = a' ++ b') (hl : a'.length = a.length) : a.map φ = a' ∧ b.map φ = b' :=
  List.append_inj (by rwa [List.map_append] at h) (by simp [hl])

mutual
/-- **A copy declares what the walk copied declares and the writer keeps**: each UID the writer
declares, at the copy of its structure, in walk order. -/
theorem Copy.declarations_eq {φ : NodeId → NodeId} : ∀ {s s' : Shape}, Copy used s s' →
    s.opened.map φ = s'.opened →
    s'.declarations = (s.declarations.filter fun d => used d.2).map fun d => (φ d.1, d.2)
  | _, _, .scalar .., _ | _, _, .leaf .., _ | _, _, .againStruct .., _ => rfl
  | _, _, .struct id _ _ uid _ _ _ _ _ hl, hφ => by
    simp only [opened, List.map_cons, List.cons.injEq, openedPairs_eq] at hφ
    obtain ⟨rfl, hφ⟩ := hφ
    simp only [declarations, declarationsPairs_eq, CopyList.declarations_eq hl hφ,
      List.filter_append, List.map_append]
    congr 1
    by_cases hu : uid = nullUid <;> by_cases hused : used uid = true <;> simp [hu, hused]
  | _, _, .list _ _ _ _ _ _ _ hl, hφ => by
    simp only [opened, List.map_cons, List.cons.injEq] at hφ
    simp only [declarations]
    exact CopyList.declarations_eq hl hφ.2

theorem CopyList.declarations_eq {φ : NodeId → NodeId} : ∀ {ss ss' : List Shape},
    CopyList used ss ss' → (openedItems ss).map φ = openedItems ss' →
    declarationsItems ss' =
      ((declarationsItems ss).filter fun d => used d.2).map fun d => (φ d.1, d.2)
  | _, _, .nil, _ => rfl
  | _, _, .cons h₁ h₂, hφ => by
    simp only [openedItems] at hφ
    obtain ⟨hφ₁, hφ₂⟩ := map_append_split hφ (Copy.opened_length h₁)
    simp only [declarationsItems, Copy.declarations_eq h₁ hφ₁, CopyList.declarations_eq h₂ hφ₂,
      List.filter_append, List.map_append]
end

end Copies

section Written

variable {used}

mutual
/-- What the chunks of a walk read back as has no lines and no links. -/
theorem bare_of_written : ∀ (s : Shape) {t : Tree}, s.written used = some t → t.bare = t
  | .scalar sc line, t, hw => by
    simp only [written, Option.some.injEq] at hw
    subst hw
    cases sc <;> rfl
  | .struct id tag uid line ps, t, hw => by
    simp only [written] at hw
    obtain ⟨ts, hts, rfl⟩ := Option.map_eq_some_iff.1 hw
    simp only [Tree.bare, barePairs_of_writtenPairs ps hts]
  | .list id tag line ss, t, hw => by
    simp only [written] at hw
    obtain ⟨ts, hts, rfl⟩ := Option.map_eq_some_iff.1 hw
    simp only [Tree.bare, bareItems_of_writtenItems ss hts]
  | .leaf id ⟨tag, line, body⟩, t, hw => by
    cases body <;> simp only [written, Node.leafTree?, Option.some.injEq, reduceCtorEq] at hw <;>
      (subst hw; rfl)
  | .again id ⟨tag, line, body⟩, t, hw => by
    cases body <;> simp only [written, Option.some.injEq] at hw <;> (subst hw; rfl)
  | .missing, t, hw => by simp [written] at hw

theorem barePairs_of_writtenPairs : ∀ (ps : List (String × Shape)) {ts : List (String × Tree)},
    writtenPairs used ps = some ts → Tree.barePairs ts = ts
  | [], ts, hw => by
    simp only [writtenPairs, Option.some.injEq] at hw
    subst hw
    rfl
  | (k, s) :: rest, ts, hw => by
    simp only [writtenPairs, Option.bind_eq_bind, Option.bind_eq_some_iff, Option.pure_def,
      Option.some.injEq] at hw
    obtain ⟨t, hs, ts', hrest, rfl⟩ := hw
    simp only [Tree.barePairs, bare_of_written s hs, barePairs_of_writtenPairs rest hrest]

theorem bareItems_of_writtenItems : ∀ (ss : List Shape) {ts : List Tree},
    writtenItems used ss = some ts → Tree.bareItems ts = ts
  | [], ts, hw => by
    simp only [writtenItems, Option.some.injEq] at hw
    subst hw
    rfl
  | s :: rest, ts, hw => by
    simp only [writtenItems, Option.bind_eq_bind, Option.bind_eq_some_iff, Option.pure_def,
      Option.some.injEq] at hw
    obtain ⟨t, hs, ts', hrest, rfl⟩ := hw
    simp only [Tree.bareItems, bare_of_written s hs, bareItems_of_writtenItems rest hrest]
end

mutual
/-- What the chunks of a walk read back as keeps only UIDs the writer declares. -/
theorem dropUids_of_written : ∀ (s : Shape) {t : Tree}, s.written used = some t →
    t.dropUids (fun u => !used u) = t
  | .scalar sc line, t, hw => by
    simp only [written, Option.some.injEq] at hw
    subst hw
    rfl
  | .struct id tag uid line ps, t, hw => by
    simp only [written] at hw
    obtain ⟨ts, hts, rfl⟩ := Option.map_eq_some_iff.1 hw
    simp only [Tree.dropUids, dropUidsPairs_of_writtenPairs ps hts, Tree.struct.injEq, and_true,
      true_and]
    by_cases hu : uid = nullUid <;> by_cases hused : used uid = true <;> simp [hu, hused]
  | .list id tag line ss, t, hw => by
    simp only [written] at hw
    obtain ⟨ts, hts, rfl⟩ := Option.map_eq_some_iff.1 hw
    simp only [Tree.dropUids, dropUidsItems_of_writtenItems ss hts]
  | .leaf id ⟨tag, line, body⟩, t, hw => by
    cases body <;> simp only [written, Node.leafTree?, Option.some.injEq, reduceCtorEq] at hw <;>
      (subst hw; rfl)
  | .again id ⟨tag, line, body⟩, t, hw => by
    cases body <;> simp only [written, Option.some.injEq] at hw <;> (subst hw; rfl)
  | .missing, t, hw => by simp [written] at hw

theorem dropUidsPairs_of_writtenPairs : ∀ (ps : List (String × Shape)) {ts : List (String × Tree)},
    writtenPairs used ps = some ts → Tree.dropUidsPairs (fun u => !used u) ts = ts
  | [], ts, hw => by
    simp only [writtenPairs, Option.some.injEq] at hw
    subst hw
    rfl
  | (k, s) :: rest, ts, hw => by
    simp only [writtenPairs, Option.bind_eq_bind, Option.bind_eq_some_iff, Option.pure_def,
      Option.some.injEq] at hw
    obtain ⟨t, hs, ts', hrest, rfl⟩ := hw
    simp only [Tree.dropUidsPairs, dropUids_of_written s hs,
      dropUidsPairs_of_writtenPairs rest hrest]

theorem dropUidsItems_of_writtenItems : ∀ (ss : List Shape) {ts : List Tree},
    writtenItems used ss = some ts → Tree.dropUidsItems (fun u => !used u) ts = ts
  | [], ts, hw => by
    simp only [writtenItems, Option.some.injEq] at hw
    subst hw
    rfl
  | s :: rest, ts, hw => by
    simp only [writtenItems, Option.bind_eq_bind, Option.bind_eq_some_iff, Option.pure_def,
      Option.some.injEq] at hw
    obtain ⟨t, hs, ts', hrest, rfl⟩ := hw
    simp only [Tree.dropUidsItems, dropUids_of_written s hs,
      dropUidsItems_of_writtenItems rest hrest]
end

end Written

mutual
/-- A reference a walk meets is one it is written with. -/
theorem uid_mem_referenced : ∀ {s : Shape} {r : Site}, r ∈ s.sites → r.uid ∈ s.referenced
  | .struct id _ _ _ ps, r, h => by
    rw [sites] at h
    rw [referenced]
    exact uid_mem_referencedPairs h
  | .list id _ _ ss, r, h => by
    rw [sites] at h
    rw [referenced]
    exact uid_mem_referencedItems h
  | .scalar .., r, h | .leaf .., r, h | .again .., r, h | .missing, r, h => by simp [sites] at h

theorem uid_mem_referencedPairs : ∀ {ps : List (String × Shape)} {id i : Nat} {r : Site},
    r ∈ sitesPairs id i ps → r.uid ∈ referencedPairs ps
  | [], _, _, r, h => by simp [sitesPairs] at h
  | (k, s) :: rest, id, i, r, h => by
    have hrest : r ∈ sitesPairs id (i + 1) rest → r.uid ∈ referencedPairs ((k, s) :: rest) :=
      fun h' => List.mem_append_right _ (uid_mem_referencedPairs h')
    cases s with
    | scalar sc line =>
      cases sc with
      | uid name t =>
        simp only [sitesPairs, List.mem_append] at h
        rcases h with h | h
        · split at h
          · simp at h
          · simp only [List.mem_singleton] at h
            subst h
            simp [referencedPairs, referenced]
        · exact hrest h
      | _ => exact hrest (by simpa [sitesPairs, sites] using h)
    | _ =>
      simp only [sitesPairs, List.mem_append] at h
      rcases h with h | h
      · exact List.mem_append_left _ (uid_mem_referenced h)
      · exact hrest h

theorem uid_mem_referencedItems : ∀ {ss : List Shape} {id i : Nat} {r : Site},
    r ∈ sitesItems id i ss → r.uid ∈ referencedItems ss
  | [], _, _, r, h => by simp [sitesItems] at h
  | s :: rest, id, i, r, h => by
    have hrest : r ∈ sitesItems id (i + 1) rest → r.uid ∈ referencedItems (s :: rest) :=
      fun h' => List.mem_append_right _ (uid_mem_referencedItems h')
    cases s with
    | scalar sc line =>
      cases sc with
      | uid name t =>
        simp only [sitesItems, List.mem_append] at h
        rcases h with h | h
        · split at h
          · simp at h
          · simp only [List.mem_singleton] at h
            subst h
            simp [referencedItems, referenced]
        · exact hrest h
      | _ => exact hrest (by simpa [sitesItems, sites] using h)
    | _ =>
      simp only [sitesItems, List.mem_append] at h
      rcases h with h | h
      · exact List.mem_append_left _ (uid_mem_referenced h)
      · exact hrest h
end

end Shape

namespace Node

theorem mapValues_struct (h : Value → Value) (tag : String) (line : Nat) (uid : String)
    (pairs : List (String × Value)) :
    (⟨tag, line, .struct uid pairs⟩ : Node).mapValues (fun _ => h) =
      ⟨tag, line, .struct uid (pairs.map fun p => (p.1, h p.2))⟩ := by
  simp only [mapValues, Node.mk.injEq, Body.struct.injEq, true_and]
  exact List.ext_getElem? fun i => by simp

end Node

namespace Graph

variable {G : Graph} {vis vis' : Visited} {v : Value}

/-! ## Walks of given shapes -/

theorem Walks.scalar_inv {sc : Scalar} {line : Nat} (h : G.Walks vis v (.scalar sc line) vis') :
    v = .scalar sc line := by
  cases h
  rfl

theorem Walks.struct_inv {id : NodeId} {tag uid : String} {line : Nat} {ps : List (String × Shape)}
    (h : G.Walks vis v (.struct id tag uid line ps) vis') :
    ∃ n pairs, v = .node id ∧ G.get? id = some n ∧ n.tag = tag ∧ n.body = .struct uid pairs ∧
      ps.map Prod.fst = pairs.map Prod.fst ∧
      G.WalksList (vis.insert id) (pairs.map Prod.snd) (ps.map Prod.snd) vis' := by
  cases h with
  | struct _ _ _ n _ pairs _ hn hb _ hk hl => exact ⟨n, pairs, rfl, hn, rfl, hb, hk, hl⟩

theorem Walks.list_inv {id : NodeId} {tag : String} {line : Nat} {ss : List Shape}
    (h : G.Walks vis v (.list id tag line ss) vis') :
    ∃ n items, v = .node id ∧ G.get? id = some n ∧ n.tag = tag ∧ n.body = .list items ∧
      G.WalksList (vis.insert id) items ss vis' := by
  cases h with
  | list _ _ _ n items _ hn hb _ hl => exact ⟨n, items, rfl, hn, rfl, hb, hl⟩

theorem Walks.leaf_inv {id : NodeId} {n : Node} (h : G.Walks vis v (.leaf id n) vis') :
    v = .node id ∧ G.get? id = some n := by
  cases h with
  | leaf _ _ _ hn _ => exact ⟨rfl, hn⟩

/-! ## Copies of a walk in a graph -/

section Copied

variable (G : Graph) (φ : NodeId → NodeId) (linked : String → Option NodeId → Prop)

mutual
/-- `Copied G φ linked s v`: the value `v` of the graph `G` copies the walk `s` of a document,
each structure and list `x` the walk enters being copied at `φ x`. A copy has the tag of the
container and, for a structure, its keys and its UID or `#NULL`. Scalars stay, but for the links
of the references to UIDs other than `#NULL`, which `linked` says; a structure reached again
becomes a reference to its UID, linked as `linked` says; and a rawtext block or an array is
copied anywhere. -/
inductive Copied : Shape → Value → Prop
  | scalar (sc sc' : Scalar) (line line' : Nat) : sc'.unlinked = sc.unlinked →
      (∀ name t, sc = .uid name t → name = nullUid) → Copied (.scalar sc line) (.scalar sc' line')
  | ref (name : String) (t t' : Option NodeId) (line line' : Nat) : name ≠ nullUid →
      linked name t' → Copied (.scalar (.uid name t) line) (.scalar (.uid name t') line')
  | struct (id : NodeId) (tag uid : String) (line : Nat) (ps : List (String × Shape)) (n : Node)
      (uid' : String) (pairs : List (String × Value)) : G.get? (φ id) = some n → n.tag = tag →
      n.body = .struct uid' pairs → (uid' = uid ∨ uid' = nullUid) →
      pairs.map Prod.fst = ps.map Prod.fst → CopiedList (ps.map Prod.snd) (pairs.map Prod.snd) →
      Copied (.struct id tag uid line ps) (.node (φ id))
  | list (id : NodeId) (tag : String) (line : Nat) (ss : List Shape) (n : Node)
      (items : List Value) : G.get? (φ id) = some n → n.tag = tag → n.body = .list items →
      CopiedList ss items → Copied (.list id tag line ss) (.node (φ id))
  | leaf (id y : NodeId) (n n' : Node) : n.isBranch = false → G.get? y = some n' →
      n'.tag = n.tag → n'.body = n.body → Copied (.leaf id n) (.node y)
  | again (id : NodeId) (n : Node) (uid : String) (pairs : List (String × Value))
      (t' : Option NodeId) (line' : Nat) : n.body = .struct uid pairs → linked uid t' →
      Copied (.again id n) (.scalar (.uid uid t') line')

/-- Walks copied item by item. -/
inductive CopiedList : List Shape → List Value → Prop
  | nil : CopiedList [] []
  | cons {s : Shape} {ss : List Shape} {v : Value} {vs : List Value} :
      Copied s v → CopiedList ss vs → CopiedList (s :: ss) (v :: vs)
end

end Copied

variable {used : String → Bool} {φ : NodeId → NodeId}

mutual
/-- **A copied walk is a copy in the planted graph**: walked from where it is planted, the copy
of the walk of a document holds each structure and list at the index its walk enters it at. -/
theorem copied_of_copy : ∀ {s s' : Shape}, Shape.Copy used s s' → ∀ {vis vis' : Visited}
    {v : Value}, G.Walks vis v s' vis' → s.opened.map φ = s'.opened →
    Copied G φ (fun _ _ => True) s v
  | _, _, .scalar sc sc' line line' h, _, _, _, hw, _ => by
    rw [hw.scalar_inv]
    cases sc with
    | uid name t =>
      by_cases hn : name = nullUid
      · exact .scalar _ sc' line line' h fun _ _ he => by cases he; exact hn
      · obtain ⟨t', rfl⟩ : ∃ t', sc' = .uid name t' := by
          cases sc' <;> simp_all [Scalar.unlinked]
        exact .ref name t t' line line' hn trivial
    | _ => exact .scalar _ sc' line line' h fun _ _ he => by cases he
  | _, _, .struct id id' tag uid line line' ps ps' hk hl, _, _, _, hw, hφ => by
    obtain ⟨n, pairs, rfl, hn, htag, hb, hkeys, hws⟩ := hw.struct_inv
    simp only [Shape.opened, List.map_cons, List.cons.injEq, Shape.openedPairs_eq] at hφ
    obtain ⟨rfl, hφ⟩ := hφ
    refine .struct id tag uid line ps n _ pairs hn htag hb ?_ (by rw [← hkeys, hk])
      (copiedList_of_copyList hl hws hφ)
    split <;> simp
  | _, _, .list id id' tag line line' ss ss' hl, _, _, _, hw, hφ => by
    obtain ⟨n, items, rfl, hn, htag, hb, hws⟩ := hw.list_inv
    simp only [Shape.opened, List.map_cons, List.cons.injEq] at hφ
    obtain ⟨rfl, hφ⟩ := hφ
    exact .list id tag line ss n items hn htag hb (copiedList_of_copyList hl hws hφ)
  | _, _, .leaf id id' n line' hb, _, _, _, hw, _ => by
    obtain ⟨rfl, hn⟩ := hw.leaf_inv
    exact .leaf id id' n _ hb hn rfl rfl
  | _, _, .againStruct id tag line uid pairs t line', _, _, _, hw, _ => by
    rw [hw.scalar_inv]
    exact .again id _ uid pairs t line' rfl trivial

theorem copiedList_of_copyList : ∀ {ss ss' : List Shape}, Shape.CopyList used ss ss' →
    ∀ {vis vis' : Visited} {vs : List Value}, G.WalksList vis vs ss' vis' →
    (Shape.openedItems ss).map φ = Shape.openedItems ss' → CopiedList G φ (fun _ _ => True) ss vs
  | _, _, .nil, _, _, _, hw, _ => by
    cases hw
    exact .nil
  | _, _, .cons h₁ h₂, _, _, _, hw, hφ => by
    cases hw with
    | cons hw₁ hw₂ =>
      simp only [Shape.openedItems] at hφ
      obtain ⟨hφ₁, hφ₂⟩ := Shape.map_append_split hφ (Shape.Copy.opened_length h₁)
      exact .cons (copied_of_copy h₁ hw₁ hφ₁) (copiedList_of_copyList h₂ hw₂ hφ₂)
end

/-! ## Linking a copy -/

section Relink

variable {g : Graph} {f : String → Option NodeId} {Q : List NodeId}
  {L L' : String → Option NodeId → Prop}

/-- A scalar that is no reference to a UID other than `#NULL` stays when relinked. -/
theorem relink_scalar_of_unlinked {sc sc' : Scalar} (line : Nat) (h : sc'.unlinked = sc.unlinked)
    (hnull : ∀ name t, sc = .uid name t → name = nullUid) :
    (Value.scalar sc' line).relink f = .scalar sc' line := by
  cases sc' with
  | uid name t =>
    obtain ⟨t₀, rfl⟩ : ∃ t₀, sc = .uid name t₀ := by
      cases sc <;> simp_all [Scalar.unlinked]
    simp [Value.relink, hnull name t₀ rfl]
  | _ => rfl

mutual
/-- **Linking a copy links its references as the graph it is planted in says**: relinking the
structures and lists a copy holds, by a map that links each UID the walk copied is written
with, keeps the copy and links its references as that map does. -/
theorem Copied.relink
    (hG : ∀ x, G.get? x = (g.get? x).map fun n =>
      if x ∈ Q then n.mapValues (fun _ v => v.relink f) else n) :
    ∀ {s : Shape} {v : Value}, Copied g φ L s v → (∀ x ∈ s.opened, φ x ∈ Q) →
      (∀ u ∈ s.referenced, u ≠ nullUid → ∀ t, L' u ((f u).or t)) →
      (∀ r ∈ s.repeats, ∀ uid pairs, r.2.body = .struct uid pairs → uid ≠ nullUid) →
      Copied G φ L' s (v.relink f)
  | _, _, .scalar sc sc' line line' h hnull, _, _, _ => by
    rw [relink_scalar_of_unlinked line' h hnull]
    exact .scalar sc sc' line line' h hnull
  | _, _, .ref name t t' line line' hn _, _, hf, _ => by
    rw [Linker.relink_uid f t' line' hn]
    exact .ref name t _ line line' hn (hf name (by simp [Shape.referenced]) hn t')
  | _, _, .struct id tag uid line ps ⟨tag', line₀, body⟩ uid' pairs hn htag hb huid hk hl, hQ, hf, hrep => by
    subst hb
    have hx : φ id ∈ Q := hQ id (by simp [Shape.opened])
    have hn' := hG (φ id)
    rw [hn, Option.map_some, if_pos hx, Node.mapValues_struct] at hn'
    refine .struct id tag uid line ps _ uid' (pairs.map fun p => (p.1, p.2.relink f)) hn' htag
      rfl huid (by rw [List.map_map]; exact hk) ?_
    have hvals : (pairs.map fun p => (p.1, p.2.relink f)).map Prod.snd =
        (pairs.map Prod.snd).map (Value.relink f) := by simp
    rw [hvals]
    refine CopiedList.relink hG hl ?_ ?_ ?_
    · intro x hx
      exact hQ x (by simp [Shape.opened, Shape.openedPairs_eq, hx])
    · intro u hu
      exact hf u (by rwa [Shape.referenced, Shape.referencedPairs_eq])
    · intro r hr
      exact hrep r (by rwa [Shape.repeats, Shape.repeatsPairs_eq])
  | _, _, .list id tag line ss ⟨tag', line₀, body⟩ items hn htag hb hl, hQ, hf, hrep => by
    subst hb
    have hx : φ id ∈ Q := hQ id (by simp [Shape.opened])
    have hn' := hG (φ id)
    rw [hn, Option.map_some, if_pos hx, Node.mapValues_list] at hn'
    refine .list id tag line ss _ (items.map (Value.relink f)) hn' htag rfl ?_
    refine CopiedList.relink hG hl ?_ hf hrep
    intro x hx
    exact hQ x (by simp [Shape.opened, hx])
  | _, _, .leaf id y n n' hb hn htag hbody, _, _, _ => by
    have hleaf : n'.isBranch = false := by
      rw [← hb]
      simp [Node.isBranch, hbody]
    have hn' := hG y
    rw [hn, Option.map_some] at hn'
    refine .leaf id y n n' hb ?_ htag hbody
    rw [hn']
    split
    · obtain ⟨tag', line', body'⟩ := n'
      cases body' <;> simp_all [Node.isBranch, Node.mapValues]
    · rfl
  | _, _, .again id n uid pairs t' line' hb _, _, hf, hrep => by
    have hn : uid ≠ nullUid := hrep (id, n) (by simp [Shape.repeats]) uid pairs hb
    rw [Linker.relink_uid f t' line' hn]
    exact .again id n uid pairs _ line' hb (hf uid (by simp [Shape.referenced, hb]) hn t')

theorem CopiedList.relink
    (hG : ∀ x, G.get? x = (g.get? x).map fun n =>
      if x ∈ Q then n.mapValues (fun _ v => v.relink f) else n) :
    ∀ {ss : List Shape} {vs : List Value}, CopiedList g φ L ss vs →
      (∀ x ∈ Shape.openedItems ss, φ x ∈ Q) →
      (∀ u ∈ Shape.referencedItems ss, u ≠ nullUid → ∀ t, L' u ((f u).or t)) →
      (∀ r ∈ Shape.repeatsItems ss, ∀ uid pairs, r.2.body = .struct uid pairs → uid ≠ nullUid) →
      CopiedList G φ L' ss (vs.map (Value.relink f))
  | _, _, .nil, _, _, _ => .nil
  | _, _, .cons h₁ h₂, hQ, hf, hrep =>
    .cons (Copied.relink hG h₁ (fun x hx => hQ x (List.mem_append_left _ hx))
        (fun u hu => hf u (List.mem_append_left _ hu))
        (fun r hr => hrep r (List.mem_append_left _ hr)))
      (CopiedList.relink hG h₂ (fun x hx => hQ x (List.mem_append_right _ hx))
        (fun u hu => hf u (List.mem_append_right _ hu))
        (fun r hr => hrep r (List.mem_append_right _ hr)))
end

end Relink

/-! ## The document copied -/

section Document

variable {g : Graph} {roots : List NodeId}

theorem walkAll_singleton (g : Graph) (root : NodeId) :
    (g.walkAll false {} [root]).1 = [(g.walk {} root).1] := rfl

theorem preorder_singleton (g : Graph) (root : NodeId) :
    g.preorder [root] = (g.walk {} root).1.opened := by
  simp [preorder, walkAll_singleton]

/-- The walk from `root` enters exactly the structures and lists reachable from it. -/
theorem mem_opened_walk {root x : NodeId} :
    x ∈ (g.walk {} root).1.opened ↔ g.Reaches [root] x ∧ g.IsBranch x := by
  rw [← preorder_singleton]
  exact mem_preorder

theorem opened_walk_nodup {root : NodeId} : (g.walk {} root).1.opened.Nodup := by
  rw [← preorder_singleton]
  exact preorder_nodup

theorem declarations_singleton (g : Graph) (root : NodeId) :
    g.declarations [root] = (g.walk {} root).1.declarations := by
  rw [← walkAll_declarations, walkAll_singleton]
  simp

theorem references_singleton (g : Graph) (root : NodeId) :
    g.references [root] = (g.walk {} root).1.sites := by
  simp [references, walkAll_singleton]

/-- A value the document rooted at `roots` holds: a root, or a value of a reachable
container. -/
def HeldFrom (g : Graph) (roots : List NodeId) (v : Value) : Prop :=
  (∃ id ∈ roots, v = .node id) ∨ ∃ id n, g.Reaches roots id ∧ g.get? id = some n ∧ v ∈ n.values

theorem HeldFrom.reaches {v : Value} (h : g.HeldFrom roots v) : g.ValueReaches roots v := by
  rintro c rfl
  rcases h with ⟨id, hid, hv⟩ | ⟨id, n, hr, hn, hv⟩
  · cases hv
    exact .root hid
  · exact .child hr hn (Node.mem_children.mpr hv)

theorem HeldFrom.declares (hres : g.UidsResolved roots) {name : String} {t : Option NodeId}
    {line : Nat} (h : g.HeldFrom roots (.scalar (.uid name t) line)) (hn : name ≠ nullUid) :
    ∃ S, g.Declares roots S name := by
  rcases h with ⟨id, -, hv⟩ | ⟨id, n, hr, hn', hv⟩
  · cases hv
  · exact hres name ⟨id, n, t, line, hr, hn', hv, hn⟩

mutual
/-- **Every UID the walk of a resolved document is written with is declared**: a reference
names the UID of a reachable structure, and a structure reached again is one. -/
theorem Walks.declares_of_referenced (hres : g.UidsResolved roots) :
    ∀ {vis vis' v s}, g.Walks vis v s vis' → g.HeldFrom roots v →
      ∀ u ∈ s.referenced, u ≠ nullUid → ∃ S, g.Declares roots S u
  | _, _, _, _, .scalar _ sc line, hv, u, hu, hnull => by
    cases sc with
    | uid name t =>
      simp only [Shape.referenced, List.mem_singleton] at hu
      subst hu
      exact hv.declares hres hnull
    | _ => simp [Shape.referenced] at hu
  | _, _, _, _, .missing .., _, u, hu, _ | _, _, _, _, .leaf .., _, u, hu, _ => by
    simp [Shape.referenced] at hu
  | _, _, _, _, .again _ id n hn _ _, hv, u, hu, hnull => by
    obtain ⟨tag, line, body⟩ := n
    cases body with
    | struct uid pairs =>
      simp only [Shape.referenced, List.mem_singleton] at hu
      subst hu
      exact ⟨id, hv.reaches id rfl, hnull, _, pairs, hn, rfl⟩
    | _ => simp [Shape.referenced] at hu
  | _, _, _, _, .struct _ _ id n uid pairs ps hn hb _ _ hl, hv, u, hu, hnull => by
    rw [Shape.referenced, Shape.referencedPairs_eq] at hu
    refine WalksList.declares_of_referenced hres hl (fun w hw => .inr ?_) u hu hnull
    exact ⟨id, n, hv.reaches id rfl, hn, by simp [Node.values, hb, hw]⟩
  | _, _, _, _, .list _ _ id n items ss hn hb _ hl, hv, u, hu, hnull => by
    rw [Shape.referenced] at hu
    refine WalksList.declares_of_referenced hres hl (fun w hw => .inr ?_) u hu hnull
    exact ⟨id, n, hv.reaches id rfl, hn, by simp [Node.values, hb, hw]⟩

theorem WalksList.declares_of_referenced (hres : g.UidsResolved roots) :
    ∀ {vis vis' vs ss}, g.WalksList vis vs ss vis' → (∀ v ∈ vs, g.HeldFrom roots v) →
      ∀ u ∈ Shape.referencedItems ss, u ≠ nullUid → ∃ S, g.Declares roots S u
  | _, _, _, _, .nil _, _, u, hu, _ => by simp [Shape.referencedItems] at hu
  | _, _, _, _, .cons h₁ h₂, hv, u, hu, hnull => by
    simp only [Shape.referencedItems, List.mem_append] at hu
    rcases hu with hu | hu
    · exact Walks.declares_of_referenced hres h₁ (hv _ List.mem_cons_self) u hu hnull
    · exact WalksList.declares_of_referenced hres h₂ (fun w hw => hv w (List.mem_cons_of_mem _ hw))
        u hu hnull
end

/-- Distinct indices can be sent to as many indices, in order. -/
theorem exists_map_eq : ∀ {l l' : List NodeId}, l.Nodup → l.length = l'.length →
    ∃ φ : NodeId → NodeId, l.map φ = l'
  | [], [], _, _ => ⟨id, rfl⟩
  | a :: l, b :: l', hl, hlen => by
    obtain ⟨ha, hl⟩ := List.nodup_cons.mp hl
    obtain ⟨φ, hφ⟩ := exists_map_eq hl (by simpa using hlen)
    refine ⟨fun x => if x = a then b else φ x, ?_⟩
    simp only [List.map_cons, if_pos, List.cons.injEq, true_and]
    rw [← hφ]
    exact List.map_congr_left fun x hx => if_neg fun (h : x = a) => ha (h ▸ hx)
  | [], _ :: _, _, h | _ :: _, [], _, h => by simp at h

/-- The first declaration of a UID among the declarations kept, each moved by `φ`: the first
declaration of the UID moved, if the UID is kept. -/
theorem firstIn_filter_map (φ : NodeId → NodeId) (p : String → Bool) (u : String) :
    ∀ ds : List (NodeId × String),
      Linker.firstIn ((ds.filter fun d => p d.2).map fun d => (φ d.1, d.2)) u =
        if p u then (Linker.firstIn ds u).map φ else none
  | [] => by split <;> rfl
  | d :: ds => by
    have ih := firstIn_filter_map φ p u ds
    by_cases hd : p d.2 = true <;> by_cases hu : d.2 = u
    · subst hu
      simp [hd, Linker.firstIn_cons]
    · simp [hd, Linker.firstIn_cons, hu, ih]
    · subst hu
      simp [hd, ih]
    · simp [hd, Linker.firstIn_cons, hu, ih]

end Document

/-! ## Structures rebuilt -/

/-- A structure of the graph. -/
def IsStruct (g : Graph) (x : NodeId) : Prop :=
  ∃ n uid pairs, g.get? x = some n ∧ n.body = .struct uid pairs

/-- A structure the document rooted at `root` reaches. -/
def StructAt (g : Graph) (root x : NodeId) : Prop := g.Reaches [root] x ∧ g.IsStruct x

/-- `Rebuilds g root G r φ`: the graph `G` from `r` rebuilds the document `g` from `root`, with
the structure `φ S` of `G` for each structure `S` of the document. `φ` sends the structures the
document reaches one to one onto those `G` reaches from `r`, and `root` to `r`; and `G` holds a
copy of the walk of the document at `r`, in which each reference, and each structure reached
again, is linked to `φ S` for a structure `S` that declares its UID. -/
structure Rebuilds (g : Graph) (root : NodeId) (G : Graph) (r : NodeId) (φ : NodeId → NodeId) :
    Prop where
  root_eq : φ root = r
  maps : ∀ x, g.StructAt root x → G.StructAt r (φ x)
  injective : ∀ x y, g.StructAt root x → g.StructAt root y → φ x = φ y → x = y
  onto : ∀ y, G.StructAt r y → ∃ x, g.StructAt root x ∧ φ x = y
  copies : Copied G φ (fun uid t => ∃ S, g.Declares [root] S uid ∧ t = some (φ S))
    (g.walk {} root).1 (.node r)

section Relinked

variable {g : Graph} {f : String → Option NodeId} {Q : List NodeId}

theorem relink_eq_node {v : Value} {c : NodeId} : v.relink f = .node c ↔ v = .node c := by
  cases v with
  | node c' => simp [Value.relink]
  | scalar sc line =>
    cases sc with
    | uid name t => by_cases hn : name = nullUid <;> simp [Value.relink, hn]
    | _ => simp [Value.relink]

/-- Relinking a container keeps the containers it holds. -/
theorem mem_children_relinked (n : Node) (p : Prop) [Decidable p] {c : NodeId} :
    c ∈ (if p then n.mapValues (fun _ v => v.relink f) else n).children ↔ c ∈ n.children := by
  split
  · simp only [Node.mem_children, Node.values_mapValues_const, List.mem_map, relink_eq_node,
      exists_eq_right]
  · rfl

/-- Relinking a container keeps its kind. -/
theorem body_relinked (n : Node) (p : Prop) [Decidable p] {uid : String} :
    (∃ pairs, (if p then n.mapValues (fun _ v => v.relink f) else n).body = .struct uid pairs) ↔
      ∃ pairs, n.body = .struct uid pairs := by
  obtain ⟨tag, line, body⟩ := n
  split <;> cases body <;> simp [Node.mapValues]

variable (hG : ∀ x, G.get? x = (g.get? x).map fun n =>
  if x ∈ Q then n.mapValues (fun _ v => v.relink f) else n)
include hG

/-- **Relinking keeps what a document reaches**: references are no edges. -/
theorem reaches_relinked {roots : List NodeId} {x : NodeId} :
    G.Reaches roots x ↔ g.Reaches roots x := by
  constructor
  · intro h
    induction h with
    | root hr => exact .root hr
    | @child id c n _ hn hc ih =>
      rw [hG] at hn
      obtain ⟨n₀, hn₀, rfl⟩ := Option.map_eq_some_iff.mp hn
      exact .child ih hn₀ ((mem_children_relinked n₀ _).mp hc)
  · intro h
    induction h with
    | root hr => exact .root hr
    | @child id c n _ hn hc ih =>
      have hn' : G.get? id = some (if id ∈ Q then n.mapValues (fun _ v => v.relink f) else n) := by
        rw [hG, hn]
        rfl
      exact .child ih hn' ((mem_children_relinked n _).mpr hc)

theorem isStruct_relinked {x : NodeId} : G.IsStruct x ↔ g.IsStruct x := by
  rw [IsStruct, IsStruct, hG]
  constructor
  · rintro ⟨n, uid, pairs, hn, hb⟩
    obtain ⟨n₀, hn₀, rfl⟩ := Option.map_eq_some_iff.mp hn
    obtain ⟨pairs₀, hb₀⟩ := (body_relinked n₀ _).mp ⟨pairs, hb⟩
    exact ⟨n₀, uid, pairs₀, hn₀, hb₀⟩
  · rintro ⟨n, uid, pairs, hn, hb⟩
    obtain ⟨pairs', hb'⟩ := (body_relinked n (x ∈ Q)).mpr ⟨pairs, hb⟩
    exact ⟨_, uid, pairs', by rw [hn]; rfl, hb'⟩

end Relinked

variable {g : Graph} {L : String → Option NodeId → Prop}

mutual
/-- The copy of a structure is a structure and the copy of a list a list. -/
theorem Copied.isStruct_iff : ∀ {s : Shape} {v : Value}, Copied G φ L s v →
    ∀ {vis vis' : Visited} {w : Value}, g.Walks vis w s vis' →
      ∀ x ∈ s.opened, (g.IsStruct x ↔ G.IsStruct (φ x))
  | _, _, .struct id tag uid line ps n uid' pairs hn _ hb _ _ hl, _, _, _, hw, x, hx => by
    obtain ⟨n₀, pairs₀, -, hn₀, -, hb₀, -, hws⟩ := hw.struct_inv
    simp only [Shape.opened, Shape.openedPairs_eq, List.mem_cons] at hx
    rcases hx with rfl | hx
    · exact iff_of_true ⟨n₀, uid, pairs₀, hn₀, hb₀⟩ ⟨n, uid', pairs, hn, hb⟩
    · exact CopiedList.isStruct_iff hl hws x hx
  | _, _, .list id tag line ss n items hn _ hb hl, _, _, _, hw, x, hx => by
    obtain ⟨n₀, items₀, -, hn₀, -, hb₀, hws⟩ := hw.list_inv
    simp only [Shape.opened, List.mem_cons] at hx
    rcases hx with rfl | hx
    · refine iff_of_false ?_ ?_
      · rintro ⟨n', u, ps, hn', hb'⟩
        rw [hn₀] at hn'
        cases hn'
        rw [hb₀] at hb'
        cases hb'
      · rintro ⟨n', u, ps, hn', hb'⟩
        rw [hn] at hn'
        cases hn'
        rw [hb] at hb'
        cases hb'
    · exact CopiedList.isStruct_iff hl hws x hx
  | _, _, .scalar .., _, _, _, _, x, hx | _, _, .ref .., _, _, _, _, x, hx
  | _, _, .leaf .., _, _, _, _, x, hx | _, _, .again .., _, _, _, _, x, hx => by
    simp [Shape.opened] at hx

theorem CopiedList.isStruct_iff : ∀ {ss : List Shape} {vs : List Value}, CopiedList G φ L ss vs →
    ∀ {vis vis' : Visited} {ws : List Value}, g.WalksList vis ws ss vis' →
      ∀ x ∈ Shape.openedItems ss, (g.IsStruct x ↔ G.IsStruct (φ x))
  | _, _, .nil, _, _, _, _, x, hx => by simp [Shape.openedItems] at hx
  | _, _, .cons h₁ h₂, _, _, _, hw, x, hx => by
    cases hw with
    | cons hw₁ hw₂ =>
      simp only [Shape.openedItems, List.mem_append] at hx
      rcases hx with hx | hx
      · exact Copied.isStruct_iff h₁ hw₁ x hx
      · exact CopiedList.isStruct_iff h₂ hw₂ x hx
end

/-- A walk from a container opens that container first, if any. -/
theorem Walks.head_opened {r : NodeId} {s : Shape} (h : G.Walks vis (.node r) s vis') :
    ∀ x ∈ s.opened.head?, x = r := by
  cases h <;> simp [Shape.opened]

/-- The walk from a structure or a list enters it first. -/
theorem opened_walk_head? {root : NodeId} (h : g.IsBranch root) :
    (g.walk {} root).1.opened.head? = some root := by
  obtain ⟨x, hx⟩ : ∃ x, (g.walk {} root).1.opened.head? = some x :=
    Option.isSome_iff_exists.mp (List.isSome_head?.mpr
      (List.ne_nil_of_mem (mem_opened_walk.mpr ⟨.root (List.mem_singleton_self _), h⟩)))
  rw [hx, (walks_walk visitedOk_empty root).head_opened x hx]

theorem IsStruct.isBranch {x : NodeId} (h : g.IsStruct x) : g.IsBranch x := by
  obtain ⟨n, uid, pairs, hn, hb⟩ := h
  exact ⟨n, hn, by simp [Node.isBranch, hb]⟩

/-! ## Linking a copy of a document -/

section Rebuilt

variable {g' : Graph} {root r' : NodeId}
  (hcopy : Shape.Copy (Usage.declares (some (g.usage root))) (g.walk {} root).1 (g'.walk {} r').1)
  (hφ : (g.walk {} root).1.opened.map φ = (g'.walk {} r').1.opened)
include hcopy hφ

/-- A copy declares the UIDs of the document that its writer declares, each at the copy of its
structure. -/
theorem copy_declarations :
    g'.declarations [r'] = ((g.declarations [root]).filter fun d =>
      Usage.declares (some (g.usage root)) d.2).map fun d => (φ d.1, d.2) := by
  rw [declarations_singleton, declarations_singleton, hcopy.declarations_eq hφ]

theorem copy_firstDeclarer (u : String) :
    g'.firstDeclarer [r'] u =
      if Usage.declares (some (g.usage root)) u then (g.firstDeclarer [root] u).map φ else none := by
  rw [firstDeclarer, copy_declarations hcopy hφ, firstIn_filter_map]
  rfl

/-- A copy of a document whose UIDs are distinct declares distinct UIDs. -/
theorem copy_uidsDistinct (hdis : g.UidsDistinct [root]) : g'.UidsDistinct [r'] := by
  -- a structure of the copy declaring `u` is the copy of one of the document declaring `u`
  have hcopied : ∀ {a u}, g'.Declares [r'] a u → ∃ x, g.Declares [root] x u ∧ a = φ x := by
    intro a u ha
    have hmem := mem_declarations.mpr ha
    rw [copy_declarations hcopy hφ] at hmem
    obtain ⟨⟨x, u'⟩, hx, heq⟩ := List.mem_map.mp hmem
    simp only [Prod.mk.injEq] at heq
    obtain ⟨rfl, rfl⟩ := heq
    exact ⟨x, mem_declarations.mp (List.mem_filter.mp hx).1, rfl⟩
  intro a b u ha hb
  obtain ⟨x, hx, rfl⟩ := hcopied ha
  obtain ⟨y, hy, rfl⟩ := hcopied hb
  rw [hdis x y u hx hy]

/-- In a copy of a resolved document, the first structure declaring a UID the document is
written with is the copy of a structure of the document declaring it. -/
theorem copy_firstDeclarer_of_referenced (hres : g.UidsResolved [root]) {u : String}
    (hu : u ∈ (g.walk {} root).1.referenced) (hn : u ≠ nullUid) :
    ∃ S, g.Declares [root] S u ∧ g'.firstDeclarer [r'] u = some (φ S) := by
  obtain ⟨S₀, hS₀⟩ := (walks_walk visitedOk_empty root).declares_of_referenced hres
    (.inl ⟨root, List.mem_singleton_self _, rfl⟩) u hu hn
  obtain ⟨S, hS⟩ := firstDeclarer_isSome hS₀
  have hused : Usage.declares (some (g.usage root)) u = true := by
    simp [declares_usage, hn, hu]
  refine ⟨S, declares_of_firstDeclarer hS, ?_⟩
  rw [copy_firstDeclarer hcopy hφ, if_pos hused, hS, Option.map_some]

/-- A copy of a resolved document is resolved: it is written with the same references. -/
theorem copy_uidsResolved (hres : g.UidsResolved [root]) : g'.UidsResolved [r'] := by
  intro u hu
  have hn : u ≠ nullUid := by
    obtain ⟨-, -, -, -, -, -, -, hn⟩ := hu
    exact hn
  obtain ⟨r, hr, rfl⟩ := refers_iff.mp hu
  rw [references_singleton] at hr
  have hmem : r.uid ∈ (g.walk {} root).1.referenced := by
    rw [← hcopy.referenced_eq]
    exact Shape.uid_mem_referenced hr
  obtain ⟨S, -, hS⟩ := copy_firstDeclarer_of_referenced hcopy hφ hres hmem hn
  exact ⟨φ S, declares_of_firstDeclarer hS⟩

end Rebuilt

variable {g' : Graph} {root r' : NodeId}

/-- **Linking a copy of a document rebuilds the document.** When the walk of a graph from `r'`
copies the walk of a document rooted at a structure, which reaches only structures again and
those with a UID, and whose UIDs are distinct and resolved, linking the graph from `r'`
succeeds and rebuilds the document. -/
theorem Copy.rebuilds
    (hcopy : Shape.Copy (Usage.declares (some (g.usage root))) (g.walk {} root).1 (g'.walk {} r').1)
    (hroot : g.IsStruct root)
    (hrep : ∀ r ∈ (g.walk {} root).1.repeats,
      ∃ uid pairs, r.2.body = .struct uid pairs ∧ uid ≠ nullUid)
    (hdis : g.UidsDistinct [root]) (hres : g.UidsResolved [root]) :
    (g'.link r').2 = .ok () ∧ ∃ φ, g.Rebuilds root (g'.link r').1 r' φ := by
  have hw := walks_walk (g := g) visitedOk_empty root
  have hw' := walks_walk (g := g') visitedOk_empty r'
  -- the structures and lists the two walks enter correspond in order
  obtain ⟨φ, hφ⟩ := exists_map_eq opened_walk_nodup hcopy.opened_length.symm
  have hok : (g'.link r').2 = .ok () := by
    rw [link_status_root, if_pos (linkFaults_eq_nil.mpr
      ⟨copy_uidsDistinct hcopy hφ hdis, copy_uidsResolved hcopy hφ hres⟩)]
  -- linking relinks the copy: each reference to the copy of a structure declaring its UID
  have hG := Linker.link_graph g' { modules := [r'] }
  have hC : Copied (g'.link r').1 φ (fun uid t => ∃ S, g.Declares [root] S uid ∧ t = some (φ S))
      (g.walk {} root).1 (.node r') := by
    refine (copied_of_copy hcopy hw' hφ).relink hG ?_ ?_ (Shape.repeats_uid_ne_null hrep)
    · intro x hx
      rw [preorder_singleton, ← hφ]
      exact List.mem_map_of_mem hx
    · intro u hu hn t
      obtain ⟨S, hS, hf⟩ := copy_firstDeclarer_of_referenced hcopy hφ hres hu hn
      exact ⟨S, hS, by simp [hf]⟩
  have hstruct := hC.isStruct_iff hw
  have hinj : ∀ x ∈ (g.walk {} root).1.opened, ∀ y ∈ (g.walk {} root).1.opened, φ x = φ y →
      x = y := by
    have hnodup : ((g.walk {} root).1.opened.map φ).Nodup := by
      rw [hφ]
      exact opened_walk_nodup
    exact fun x hx y hy => List.inj_on_of_nodup_map hnodup hx hy
  refine ⟨hok, φ, ⟨?root_eq, ?maps, ?injective, ?onto, hC⟩⟩
  case root_eq =>
    -- both walks enter their roots first
    have hhead := congrArg List.head? hφ
    rw [List.head?_map, opened_walk_head? hroot.isBranch, Option.map_some] at hhead
    exact hw'.head_opened (φ root) hhead.symm
  case maps =>
    rintro x ⟨hr, hs⟩
    have hx := mem_opened_walk.mpr ⟨hr, hs.isBranch⟩
    refine ⟨(reaches_relinked hG).mpr (mem_opened_walk.mp ?_).1, (hstruct x hx).mp hs⟩
    rw [← hφ]
    exact List.mem_map_of_mem hx
  case injective =>
    rintro x y ⟨hrx, hsx⟩ ⟨hry, hsy⟩
    exact hinj x (mem_opened_walk.mpr ⟨hrx, hsx.isBranch⟩) y
      (mem_opened_walk.mpr ⟨hry, hsy.isBranch⟩)
  case onto =>
    rintro y ⟨hr, hs⟩
    have hr' := (reaches_relinked hG).mp hr
    have hs' := (isStruct_relinked hG).mp hs
    have hy : y ∈ (g.walk {} root).1.opened.map φ := by
      rw [hφ]
      exact mem_opened_walk.mpr ⟨hr', hs'.isBranch⟩
    obtain ⟨x, hx, rfl⟩ := List.mem_map.mp hy
    exact ⟨x, ⟨(mem_opened_walk.mp hx).1, (hstruct x hx).mpr hs⟩, rfl⟩

end Graph

end GraphDoc
