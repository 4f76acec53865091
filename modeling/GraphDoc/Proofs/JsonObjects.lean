import GraphDoc.Json.View
import GraphDoc.Proofs.Walk
/-! # Objects of the JSON view

The JSON view turns a structure rendered in full into an object whose fields come from its pairs
in one pass: a key the structure has once is set, a key it has more often starts an array at its
first occurrence and extends it at each later one. This module says what that pass gives, as a
layout stated without the pass (`Json.collapse`): each distinct key once, in the order of its
first occurrence, with its one value or with the array of all its values in order.

* `Shape.fieldsAfter` is what the fields hold after any prefix of the pairs, and
  `Shape.addField_fieldsAfter` is the step that adds one pair; `Shape.foldl_addField` runs it
  over all pairs, and `Shape.view_struct` gives the object of a structure.
* `Graph.Walks.shows_parts` ties each part of a walk to the container it stands for.
* Main statement: `Graph.jsonView_objects`, for every structure the view renders in full, with
  what structures and lists reached again and reals that are not finite become. -/
namespace GraphDoc
namespace Json

/-- The values under key `k` among pairs, in order. -/
def valuesAt (ps : List (String × Value)) (k : String) : List Value :=
  (ps.filter (·.1 == k)).map Prod.snd

/-- The fields that an object's pairs collapse to: each distinct key once, in the order of its
first occurrence; a key with one value maps to it, a key with more to the array of its values in
order. -/
def collapse (ps : List (String × Value)) : List (String × Value) :=
  (ps.map Prod.fst).eraseDups.map fun k =>
    match valuesAt ps k with
    | [v] => (k, v)
    | vs => (k, .arr vs)

theorem valuesAt_append_single (ps : List (String × Value)) (k k' : String) (v : Value) :
    valuesAt (ps ++ [(k, v)]) k' = valuesAt ps k' ++ (if k = k' then [v] else []) := by
  by_cases h : k = k' <;> simp [valuesAt, h]

theorem eraseDups_append_single (l : List String) (k : String) :
    (l ++ [k]).eraseDups = if k ∈ l then l.eraseDups else l.eraseDups ++ [k] := by
  rw [List.eraseDups_append]
  by_cases h : k ∈ l <;> simp [h, List.removeAll, List.eraseDups_cons]

end Json

namespace Json.Value

theorem setField_of_forall_ne {fields : List (String × Value)} {k : String} (v : Value)
    (h : ∀ p ∈ fields, p.1 ≠ k) : setField fields k v = fields ++ [(k, v)] := by
  have hany : fields.any (·.1 == k) = false := by
    simpa using h
  simp [setField, hany]

theorem setField_of_mem {fields : List (String × Value)} {k : String} (v : Value)
    (h : ∃ p ∈ fields, p.1 = k) :
    setField fields k v = fields.map fun p => if p.1 = k then (k, v) else p := by
  have hany : fields.any (·.1 == k) = true := by
    simpa using h
  simp only [setField, hany, if_true]
  refine List.map_congr_left fun p _ => ?_
  by_cases hp : p.1 = k <;> simp [hp]

end Json.Value

namespace Shape

/-- The value under key `k` after adding the pairs `pre` of a structure whose keys are `keys`:
the value, if the structure has the key once, and the array of its values so far if more
often. -/
def fieldValue (keys : List String) (pre : List (String × Json.Value)) (k : String) : Json.Value :=
  if keys.count k ≤ 1 then (Json.valuesAt pre k).headD .null else .arr (Json.valuesAt pre k)

/-- The fields after adding the pairs `pre` of a structure whose keys are `keys` to fields that
hold none of them: each key of `pre` once, in the order of its first occurrence. -/
def fieldsAfter (keys : List String) (pre : List (String × Json.Value)) :
    List (String × Json.Value) :=
  (pre.map Prod.fst).eraseDups.map fun k => (k, fieldValue keys pre k)

theorem fieldsAfter_nil (keys : List String) : fieldsAfter keys [] = [] := rfl

theorem fst_mem_of_mem_fieldsAfter {keys : List String} {pre : List (String × Json.Value)}
    {p : String × Json.Value} (h : p ∈ fieldsAfter keys pre) : p.1 ∈ pre.map Prod.fst := by
  simp only [fieldsAfter, List.mem_map] at h
  obtain ⟨k, hk, rfl⟩ := h
  exact List.mem_eraseDups.mp hk

theorem valuesAt_eq_nil {pre : List (String × Json.Value)} {k : String}
    (h : k ∉ pre.map Prod.fst) : Json.valuesAt pre k = [] := by
  simp only [Json.valuesAt, List.map_eq_nil_iff, List.filter_eq_nil_iff, beq_iff_eq]
  intro p hp hpk
  exact h (List.mem_map.mpr ⟨p, hp, hpk⟩)

/-- A pair leaves the values of the other keys as they were. -/
theorem fieldValue_append_ne {keys : List String} {pre : List (String × Json.Value)}
    {k k' : String} (v : Json.Value) (h : k' ≠ k) :
    fieldValue keys (pre ++ [(k, v)]) k' = fieldValue keys pre k' := by
  simp [fieldValue, Json.valuesAt_append_single, Ne.symm h]

/-- A pair with a new key adds the key last. -/
theorem fieldsAfter_append_new {keys : List String} {pre : List (String × Json.Value)}
    {k : String} (v : Json.Value) (hk : k ∉ pre.map Prod.fst) :
    fieldsAfter keys (pre ++ [(k, v)]) =
      fieldsAfter keys pre ++ [(k, if keys.count k ≤ 1 then v else .arr [v])] := by
  rw [fieldsAfter, List.map_append, List.map_singleton, Json.eraseDups_append_single, if_neg hk,
    List.map_append, List.map_singleton, fieldsAfter]
  congr 1
  · refine List.map_congr_left fun k' hk' => ?_
    have hne : k' ≠ k := by
      rintro rfl
      exact hk (List.mem_eraseDups.mp hk')
    rw [fieldValue_append_ne v hne]
  · simp [fieldValue, Json.valuesAt_append_single, valuesAt_eq_nil hk]

/-- A pair with a key met before changes the value of that key in place. -/
theorem fieldsAfter_append_old {keys : List String} {pre : List (String × Json.Value)}
    {k : String} (v : Json.Value) (hk : k ∈ pre.map Prod.fst) :
    fieldsAfter keys (pre ++ [(k, v)]) = (fieldsAfter keys pre).map fun p =>
      if p.1 = k then (k, fieldValue keys (pre ++ [(k, v)]) k) else p := by
  rw [fieldsAfter, List.map_append, List.map_singleton, Json.eraseDups_append_single, if_pos hk,
    fieldsAfter, List.map_map]
  refine List.map_congr_left fun k' _ => ?_
  by_cases h : k' = k
  · subst h
    simp
  · simp [h, fieldValue_append_ne v h]

theorem find?_fieldsAfter (keys : List String) (pre : List (String × Json.Value)) (k : String) :
    (fieldsAfter keys pre).find? (·.1 == k) =
      if k ∈ pre.map Prod.fst then some (k, fieldValue keys pre k) else none := by
  rw [fieldsAfter, List.find?_map]
  split
  · next hk =>
    have hsome : ((pre.map Prod.fst).eraseDups.find? (· == k)) = some k := by
      have hs : ((pre.map Prod.fst).eraseDups.find? (· == k)).isSome :=
        List.find?_isSome.mpr ⟨k, List.mem_eraseDups.mpr hk, beq_self_eq_true k⟩
      obtain ⟨x, hx⟩ := Option.isSome_iff_exists.mp hs
      have hxk : (x == k) = true := List.find?_some (p := fun y => y == k) hx
      rw [hx, beq_iff_eq.mp hxk]
    simp only [Function.comp_def]
    simp [hsome]
  · next hk =>
    simp only [Function.comp_def, Option.map_eq_none_iff, List.find?_eq_none]
    intro x hx hxk
    simp only [beq_iff_eq] at hxk
    exact hk (hxk ▸ List.mem_eraseDups.mp hx)

/-- **One pair added to the fields.** A key the structure has once is new and goes last; a key
it has more often starts an array at its first occurrence and extends it at the later ones. -/
theorem addField_fieldsAfter {keys : List String} {head pre : List (String × Json.Value)}
    {k : String} (v : Json.Value) (hhead : ∀ p ∈ head, p.1 ≠ k)
    (hpre : k ∈ pre.map Prod.fst → 2 ≤ keys.count k) :
    addField keys (head ++ fieldsAfter keys pre) k v = head ++ fieldsAfter keys (pre ++ [(k, v)]) := by
  have hnone : head.find? (·.1 == k) = none :=
    List.find?_eq_none.mpr fun p hp hpk => hhead p hp (beq_iff_eq.mp hpk)
  by_cases hc : keys.count k ≤ 1
  · -- a key the structure has once: it is new here, and set
    have hk : k ∉ pre.map Prod.fst := fun h => by have := hpre h; omega
    have hfresh : ∀ p ∈ head ++ fieldsAfter keys pre, p.1 ≠ k := by
      intro p hp
      rcases List.mem_append.mp hp with hp | hp
      · exact hhead p hp
      · exact fun h => hk (h ▸ fst_mem_of_mem_fieldsAfter hp)
    rw [addField, if_pos hc, Json.Value.setField_of_forall_ne v hfresh,
      fieldsAfter_append_new v hk, if_pos hc, List.append_assoc]
  · rw [addField, if_neg hc, List.find?_append, hnone, Option.none_or, find?_fieldsAfter]
    by_cases hk : k ∈ pre.map Prod.fst
    · -- a later occurrence: the array found under the key is extended in place
      have hmem : (k, fieldValue keys pre k) ∈ head ++ fieldsAfter keys pre :=
        List.mem_append_right _ (List.mem_map.mpr ⟨k, List.mem_eraseDups.mpr hk, rfl⟩)
      simp only [hk, if_true, fieldValue, if_neg hc]
      rw [Json.Value.setField_of_mem _ ⟨_, hmem, rfl⟩, fieldsAfter_append_old v hk,
        List.map_append]
      congr 1
      · exact (List.map_congr_left (g := id) fun p hp => by simp [hhead p hp]).trans (List.map_id _)
      · simp [fieldValue, Json.valuesAt_append_single, hc]
    · -- the first occurrence of a repeated key starts its array
      simp only [hk, if_false]
      rw [fieldsAfter_append_new v hk, if_neg hc, List.append_assoc]

/-- **All pairs added to the fields**, from fields that hold none of the structure's keys. -/
theorem foldl_addField {keys : List String} {head : List (String × Json.Value)}
    (hhead : ∀ p ∈ head, p.1 ∉ keys) : ∀ (rest pre : List (String × Json.Value)),
      (pre ++ rest).map Prod.fst = keys →
      rest.foldl (fun f p => addField keys f p.1 p.2) (head ++ fieldsAfter keys pre) =
        head ++ fieldsAfter keys (pre ++ rest)
  | [], pre, _ => by simp
  | q :: rest, pre, hkeys => by
    have hq : q.1 ∈ keys := by simp [← hkeys]
    -- a key already met occurs again here, so the structure has it at least twice
    have hpre : q.1 ∈ pre.map Prod.fst → 2 ≤ keys.count q.1 := by
      intro h
      have h1 : 0 < (pre.map Prod.fst).count q.1 := List.count_pos_iff.mpr h
      rw [← hkeys, List.map_append, List.count_append, List.map_cons, List.count_cons_self]
      omega
    rw [List.foldl_cons, addField_fieldsAfter _ (fun p hp h => hhead p hp (h ▸ hq)) hpre,
      foldl_addField hhead rest (pre ++ [q]) (by simpa using hkeys)]
    simp

theorem length_valuesAt (ps : List (String × Json.Value)) (k : String) :
    (Json.valuesAt ps k).length = (ps.map Prod.fst).count k := by
  simp [Json.valuesAt, List.count, List.countP_eq_length_filter, List.filter_map, Function.comp_def]

/-- Once all pairs are added, each key holds what `Json.collapse` gives it. -/
theorem fieldsAfter_self (ps : List (String × Json.Value)) :
    fieldsAfter (ps.map Prod.fst) ps = Json.collapse ps := by
  refine List.map_congr_left fun k hk => ?_
  have hpos : 0 < (ps.map Prod.fst).count k := List.count_pos_iff.mpr (List.mem_eraseDups.mp hk)
  have hlen := length_valuesAt ps k
  -- the number of values under a key decides between the value and the array
  rcases hv : Json.valuesAt ps k with _ | ⟨x, _ | ⟨y, r⟩⟩ <;> rw [hv] at hlen
  · simp at hlen
    omega
  · simp at hlen
    simp [fieldValue, hv, ← hlen]
  · simp at hlen
    simp [fieldValue, hv, ← hlen]

theorem viewPairs_eq_foldl (keys : List String) :
    ∀ (fields : List (String × Json.Value)) (ps : List (String × Shape)),
      viewPairs keys fields ps =
        (ps.map fun p => (p.1, p.2.view)).foldl (fun f p => addField keys f p.1 p.2) fields
  | fields, [] => by simp [viewPairs]
  | fields, (k, s) :: rest => by
    rw [viewPairs, viewPairs_eq_foldl keys _ rest]
    simp

/-- **The object of a structure rendered in full.** `@tag` comes first if the tag is not empty,
then `@uid` if the UID is not `#NULL`, then the keys of the pairs as `Json.collapse` lays them
out; this needs only that no key of the pairs is `@tag` or `@uid`. -/
theorem view_struct (id : NodeId) (tag uid : String) (line : Nat) (ps : List (String × Shape))
    (hkeys : ∀ p ∈ ps, p.1 ≠ "@tag" ∧ p.1 ≠ "@uid") :
    (Shape.struct id tag uid line ps).view =
      .obj ((if tag.isEmpty then [] else [("@tag", .str tag)]) ++
        (if uid == nullUid then [] else [("@uid", .str uid)]) ++
        Json.collapse (ps.map fun p => (p.1, p.2.view))) := by
  have hhead : ∀ p ∈ (if tag.isEmpty then [] else [("@tag", Json.Value.str tag)]) ++
      (if uid == nullUid then [] else [("@uid", Json.Value.str uid)]), p.1 ∉ ps.map Prod.fst := by
    intro p hp hmem
    have hp' : p.1 = "@tag" ∨ p.1 = "@uid" := by
      rcases List.mem_append.mp hp with hp | hp <;> split at hp <;> simp_all
    obtain ⟨q, hq, hqp⟩ := List.mem_map.mp hmem
    rcases hp' with h | h
    · exact (hkeys q hq).1 (hqp.trans h)
    · exact (hkeys q hq).2 (hqp.trans h)
  have hfold := foldl_addField hhead (ps.map fun p => (p.1, p.2.view)) [] (by simp)
  have hcollapse : fieldsAfter (ps.map Prod.fst) (ps.map fun p => (p.1, p.2.view)) =
      Json.collapse (ps.map fun p => (p.1, p.2.view)) := by
    simpa [Function.comp_def] using fieldsAfter_self (ps.map fun p => (p.1, p.2.view))
  rw [List.nil_append, fieldsAfter_nil, List.append_nil, hcollapse] at hfold
  rw [view, viewPairs_eq_foldl]
  exact congrArg Json.Value.obj hfold

mutual
/-- The shapes within a walk: the walk itself, then those within its values in order. -/
def parts : Shape → List Shape
  | .struct id tag uid line pairs => .struct id tag uid line pairs :: partsPairs pairs
  | .list id tag line items => .list id tag line items :: partsItems items
  | s => [s]

/-- The shapes within the values of pairs. -/
def partsPairs : List (String × Shape) → List Shape
  | [] => []
  | (_, s) :: rest => parts s ++ partsPairs rest

/-- The shapes within items. -/
def partsItems : List Shape → List Shape
  | [] => []
  | s :: rest => parts s ++ partsItems rest
end

theorem partsPairs_eq (ps : List (String × Shape)) : partsPairs ps = partsItems (ps.map Prod.snd) := by
  induction ps with
  | nil => simp [partsPairs, partsItems]
  | cons p ps ih =>
    obtain ⟨k, s⟩ := p
    simp [partsPairs, partsItems, ih]

theorem mem_parts_self (s : Shape) : s ∈ s.parts := by
  cases s <;> simp [parts]

end Shape

namespace Graph

/-- What a part of a walk shows of the graph: a structure entered is the container at its index,
with its tag, its UID and its keys in order; a container reached again is the one at its index. -/
def Shows (g : Graph) : Shape → Prop
  | .struct id tag uid _ ps => ∃ n pairs, g.get? id = some n ∧ n.tag = tag ∧
      n.body = .struct uid pairs ∧ ps.map Prod.fst = pairs.map Prod.fst
  | .again id n => g.get? id = some n
  | _ => True

variable {g : Graph}

mutual
/-- Every part of a walk shows the graph. -/
theorem Walks.shows_parts : ∀ {vis vis' v s}, g.Walks vis v s vis' → ∀ t ∈ s.parts, g.Shows t
  | _, _, _, _, .scalar .. => by simp [Shape.parts, Shows]
  | _, _, _, _, .missing .. => by simp [Shape.parts, Shows]
  | _, _, _, _, .again _ _ _ hn _ _ => by simpa [Shape.parts, Shows] using hn
  | _, _, _, _, .leaf .. => by simp [Shape.parts, Shows]
  | _, _, _, _, .struct _ _ _ n uid pairs _ hn hb _ hk hl => by
    simp only [Shape.parts, Shape.partsPairs_eq, List.mem_cons]
    rintro t (rfl | ht)
    · exact ⟨n, pairs, hn, rfl, hb, hk⟩
    · exact WalksList.shows_parts hl t ht
  | _, _, _, _, .list _ _ _ _ _ _ _ _ _ hl => by
    simp only [Shape.parts, List.mem_cons]
    rintro t (rfl | ht)
    · simp [Shows]
    · exact WalksList.shows_parts hl t ht

theorem WalksList.shows_parts : ∀ {vis vis' vs ss}, g.WalksList vis vs ss vis' →
    ∀ t ∈ Shape.partsItems ss, g.Shows t
  | _, _, _, _, .nil _ => by simp [Shape.partsItems]
  | _, _, _, _, .cons h hl => by
    simp only [Shape.partsItems, List.mem_append]
    rintro t (ht | ht)
    · exact Walks.shows_parts h t ht
    · exact WalksList.shows_parts hl t ht
end

/-- **The JSON view lays structures out as objects with collapsed keys.** In the view of the
document rooted at `root`, every structure rendered in full is the container at its index, with
its tag, UID and keys, and, when none of its keys is `@tag` or `@uid`, its object holds `@tag` if
the tag is not empty, then `@uid` if the UID is not `#NULL`, then each distinct key once in the
order of first occurrence, with its one rendering or with the array of all its renderings in
order (`Json.collapse`). A structure reached again is its UID, a list reached again an empty
array, and a real that is not finite is `null`, alone or in an array. -/
theorem jsonView_objects (g : Graph) (root : NodeId) :
    (∀ id tag uid line ps, Shape.struct id tag uid line ps ∈ (g.walk {} root).1.parts →
      ∃ n pairs, g.get? id = some n ∧ n.tag = tag ∧ n.body = .struct uid pairs ∧
        ps.map Prod.fst = pairs.map Prod.fst ∧
        ((∀ k ∈ pairs.map Prod.fst, k ≠ "@tag" ∧ k ≠ "@uid") →
          (Shape.struct id tag uid line ps).view =
            .obj ((if tag.isEmpty then [] else [("@tag", .str tag)]) ++
              (if uid == nullUid then [] else [("@uid", .str uid)]) ++
              Json.collapse (ps.map fun p => (p.1, p.2.view))))) ∧
    (∀ id n, Shape.again id n ∈ (g.walk {} root).1.parts → g.get? id = some n ∧
      (∀ uid pairs, n.body = .struct uid pairs → (Shape.again id n).view = .str uid) ∧
      (∀ items, n.body = .list items → (Shape.again id n).view = .arr [])) ∧
    (∀ x line, x.isFinite = false → (Shape.scalar (.real x) line).view = .null) ∧
    (∀ id n xs, n.body = .reals xs →
      (Shape.leaf id n).view = .arr (xs.map fun x => if x.isFinite then .num x else .null)) := by
  have hw := walks_walk (g := g) visitedOk_empty root
  refine ⟨fun id tag uid line ps hs => ?_, fun id n hs => ?_, fun x line hx => ?_,
    fun id n xs hxs => ?_⟩
  · obtain ⟨n, pairs, hn, htag, hb, hk⟩ := hw.shows_parts _ hs
    refine ⟨n, pairs, hn, htag, hb, hk, fun hkeys => Shape.view_struct id tag uid line ps ?_⟩
    intro p hp
    exact hkeys p.1 (hk ▸ List.mem_map_of_mem hp)
  · refine ⟨hw.shows_parts _ hs, fun uid pairs hb => ?_, fun items hb => ?_⟩
    · simp [Shape.view, hb]
    · simp [Shape.view, hb]
  · simp [Shape.view, Shape.scalarView, Json.Value.ofReal, hx]
  · simp [Shape.view, hxs, Json.Value.ofReal]

/-- A document whose root has a key three times, with a structure shared under two keys and a
NaN under the last occurrence. -/
def repeatedKeys : Graph where
  nodes := #[⟨"<R>", 1, .struct nullUid [("k", .scalar (.int 1) 1), ("k", .node 1), ("a", .node 1),
      ("k", .scalar (.real ⟨0x7FF8000000000000⟩) 2)]⟩,
    ⟨"<A>", 1, .struct "#a" []⟩]

theorem jsonView_objects_repeated :
    repeatedKeys.json 0 = .obj [("@tag", .str "<R>"),
      ("k", .arr [.int 1, .obj [("@tag", .str "<A>"), ("@uid", .str "#a")], .null]),
      ("a", .str "#a")] := by
  have hwalk : (repeatedKeys.walk {} 0).1 = .struct 0 "<R>" nullUid 1 [("k", .scalar (.int 1) 1),
      ("k", .struct 1 "<A>" "#a" 1 []), ("a", .again 1 ⟨"<A>", 1, .struct "#a" []⟩),
      ("k", .scalar (.real ⟨0x7FF8000000000000⟩) 2)] := by
    simp [walk, unfold, unfoldPairs, get?, repeatedKeys, Node.isBranch, Visited.contains,
      Visited.insert, size]
  obtain ⟨n, pairs, hn, -, hb, -, hview⟩ := (jsonView_objects repeatedKeys 0).1 0 "<R>" nullUid 1 _
    (by rw [hwalk]; exact Shape.mem_parts_self _)
  have hpairs : pairs.map Prod.fst = ["k", "k", "a", "k"] := by
    simp only [get?, repeatedKeys] at hn
    cases hn
    cases hb
    rfl
  rw [json, hwalk, hview (by rw [hpairs]; decide)]
  rfl

end Graph
end GraphDoc
