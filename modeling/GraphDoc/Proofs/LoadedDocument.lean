import GraphDoc.Proofs.SavedDocument
/-! # The document a load reads

Loading puts the tree it reads into the session graph, links it and imports its root. When the
tree is the tree of an object walk (`ObjGraph.Visit.tree`), up to lines and links, the graph
then holds that walk (`ObjGraph.Holds`, `ObjGraph.holds_plant`): a structure for each object
entered, with its tag, name and list of children, and a UID reference for each object reached
again.

From the structure of the root, such a graph reaches the structures and lists of the objects
entered and nothing else (`ObjGraph.reaches_held`). So linking it succeeds when the objects
entered have distinct UIDs and each object reached again has its UID declared, and the linked
graph holds the walk with each reference linked to the structure of its object
(`ObjGraph.Holds.link`).
-/
namespace GraphDoc

/-! ## Trees without lines -/

namespace Tree

theorem bare_eq_scalar {t : Tree} {sc : Scalar} (h : t.bare = .scalar sc 0) :
    ∃ sc' line, t = .scalar sc' line ∧ sc'.unlinked = sc := by
  cases t <;> simp_all [bare]

theorem bare_eq_struct {t : Tree} {tag uid : String} {ps : List (String × Tree)}
    (h : t.bare = .struct tag uid 0 ps) : ∃ line qs, t = .struct tag uid line qs ∧ barePairs qs = ps := by
  cases t <;> simp_all [bare]

theorem bare_eq_list {t : Tree} {tag : String} {ts : List Tree} (h : t.bare = .list tag 0 ts) :
    ∃ line qs, t = .list tag line qs ∧ bareItems qs = ts := by
  cases t <;> simp_all [bare]

theorem barePairs_eq_cons {qs : List (String × Tree)} {k : String} {t : Tree}
    {ps : List (String × Tree)} (h : barePairs qs = (k, t) :: ps) :
    ∃ q qs', qs = (k, q) :: qs' ∧ q.bare = t ∧ barePairs qs' = ps := by
  cases qs with
  | nil => simp [barePairs] at h
  | cons q qs' =>
    obtain ⟨k', q⟩ := q
    simp only [barePairs, List.cons.injEq, Prod.mk.injEq] at h
    obtain ⟨⟨rfl, rfl⟩, rfl⟩ := h
    exact ⟨q, qs', rfl, rfl, rfl⟩

theorem barePairs_eq_nil {qs : List (String × Tree)} (h : barePairs qs = []) : qs = [] := by
  cases qs with
  | nil => rfl
  | cons q qs' => simp [barePairs] at h

theorem bareItems_eq_cons {qs : List Tree} {t : Tree} {ts : List Tree}
    (h : bareItems qs = t :: ts) : ∃ q qs', qs = q :: qs' ∧ q.bare = t ∧ bareItems qs' = ts := by
  cases qs with
  | nil => simp [bareItems] at h
  | cons q qs' =>
    simp only [bareItems, List.cons.injEq] at h
    exact ⟨q, qs', rfl, h.1, h.2⟩

theorem bareItems_eq_nil {qs : List Tree} (h : bareItems qs = []) : qs = [] := by
  cases qs with
  | nil => rfl
  | cons q qs' => simp [bareItems] at h

end Tree

/-! ## Graphs that hold an object walk -/

namespace ObjGraph

section Holds

variable (objs : Array Obj) (g : Graph) (target list : ObjId → NodeId) (decl ref : ObjId → String)
  (linked : ObjId → Option NodeId → Prop)

mutual
/-- `Holds … v val`: from the value `val`, the graph holds the object walk `v`. An object entered
is a structure at `target`, with the object's tag, the UID `decl`, its name and then its list of
children at `list`; an object reached again is a reference to the UID `ref`, whose link
`linked` accepts. Lines are free. -/
inductive Holds : Visit → Value → Prop
  | enter {x : ObjId} {vs : List Visit} {o : Obj} {line line₁ line₂ : Nat} {items : List Value} :
      objs[x]? = some o →
      g.get? (target x) = some ⟨o.tag, line, .struct (decl x)
        [("name", .scalar (.str o.name) line₁), ("children", .node (list x))]⟩ →
      g.get? (list x) = some ⟨"", line₂, .list items⟩ → HoldsList vs items →
      Holds (.enter x vs) (.node (target x))
  | again {x : ObjId} {t : Option NodeId} {line : Nat} :
      linked x t → Holds (.again x) (.scalar (.uid (ref x) t) line)

/-- The graph holds the walks from children, item by item. -/
inductive HoldsList : List Visit → List Value → Prop
  | nil : HoldsList [] []
  | cons {v : Visit} {vs : List Visit} {val : Value} {vals : List Value} :
      Holds v val → HoldsList vs vals → HoldsList (v :: vs) (val :: vals)
end

variable {objs g target list decl ref linked}

mutual
/-- What a graph holds, a graph it is a prefix of holds too. -/
theorem Holds.mono {G : Graph} (hG : g.IsPrefix G) : ∀ {v : Visit} {val : Value},
    Holds objs g target list decl ref linked v val → Holds objs G target list decl ref linked v val
  | _, _, .enter ho hs hl hkids => .enter ho (hG.get?_eq hs) (hG.get?_eq hl) (HoldsList.mono hG hkids)
  | _, _, .again hlink => .again hlink

theorem HoldsList.mono {G : Graph} (hG : g.IsPrefix G) : ∀ {vs : List Visit} {vals : List Value},
    HoldsList objs g target list decl ref linked vs vals →
      HoldsList objs G target list decl ref linked vs vals
  | _, _, .nil => .nil
  | _, _, .cons h₁ h₂ => .cons (Holds.mono hG h₁) (HoldsList.mono hG h₂)
end

mutual
/-- Only the containers of the objects a walk enters matter to what the graph holds. -/
theorem Holds.congr {target' list' : ObjId → NodeId} : ∀ {v : Visit} {val : Value},
    Holds objs g target list decl ref linked v val →
    (∀ y ∈ v.entered, target' y = target y ∧ list' y = list y) →
    Holds objs g target' list' decl ref linked v val
  | _, _, .enter (x := x) ho hs hl hkids, he => by
    obtain ⟨ht, hl'⟩ := he x (by simp [Visit.entered])
    rw [← ht]
    exact .enter ho (by rw [ht, hl']; exact hs) (by rw [hl']; exact hl)
      (HoldsList.congr hkids fun y hy => he y (by simp [Visit.entered, hy]))
  | _, _, .again hlink, _ => .again hlink

theorem HoldsList.congr {target' list' : ObjId → NodeId} : ∀ {vs : List Visit} {vals : List Value},
    HoldsList objs g target list decl ref linked vs vals →
    (∀ y ∈ Visit.enteredList vs, target' y = target y ∧ list' y = list y) →
    HoldsList objs g target' list' decl ref linked vs vals
  | _, _, .nil, _ => .nil
  | _, _, .cons h₁ h₂, he =>
    .cons (Holds.congr h₁ fun y hy => he y (by simp [Visit.enteredList, hy]))
      (HoldsList.congr h₂ fun y hy => he y (by simp [Visit.enteredList, hy]))
end

end Holds

end ObjGraph

/-! ## Planting the tree of an object walk -/

namespace Graph

/-- Planting the structure of an object: its children first, then their list, then the
structure. -/
theorem plant_objectStruct (g : Graph) (tag uid name : String) (line line₁ line₂ : Nat)
    (ts : List Tree) :
    g.plant (.struct tag uid line [("name", .scalar (.str name) line₁), ("children", .list "" line₂ ts)]) =
      (((((g.plantItems ts).1.add ⟨"", line₂, .list (g.plantItems ts).2⟩).1).add
        ⟨tag, line, .struct uid [("name", .scalar (.str name) line₁),
          ("children", .node (g.plantItems ts).1.size)]⟩).1,
       .node ((g.plantItems ts).1.size + 1)) := by
  simp [plant, plantPairs, add, size]

end Graph

namespace ObjGraph

variable {objs : Array Obj} {uid : ObjId → String} {used : String → Bool}

mutual
/-- **A planted tree of an object walk holds the walk.** Planting a tree whose bare form is the
tree of the walk `v` gives a value from which the graph holds `v`, with a fresh structure for
each object the walk enters, and no other object's containers moved. -/
theorem holds_plant : ∀ (v : Visit) (t : Tree) (g : Graph) (target list : ObjId → NodeId),
    t.bare = v.tree objs uid used → v.entered.Nodup → (∀ y ∈ v.entered, ∃ o, objs[y]? = some o) →
    ∃ target' list', Holds objs (g.plant t).1 target' list' (Visit.declaredUid uid used) uid
        (fun _ _ => True) v (g.plant t).2 ∧
      (∀ y, y ∉ v.entered → target' y = target y ∧ list' y = list y) ∧
      (∀ y ∈ v.entered, g.size ≤ target' y ∧ target' y < (g.plant t).1.size) ∧
      (∀ y ∈ v.entered, ∀ z ∈ v.entered, target' y = target' z → y = z)
  | .enter x vs, t, g, target, list, hb, hnd, hval => by
    obtain ⟨o, ho⟩ := hval x (by simp [Visit.entered])
    -- the tree is the structure of `x`: its name, then the list of its children
    have hb' : t.bare = .struct o.tag (Visit.declaredUid uid used x) 0
        [("name", .scalar (.str o.name) 0), ("children", .list "" 0 (Visit.trees objs uid used vs))] := by
      rw [hb]
      simp [Visit.tree, ho]
    obtain ⟨line, qs, rfl, hqs⟩ := Tree.bare_eq_struct hb'
    obtain ⟨q₁, qs₁, rfl, hq₁, hqs₁⟩ := Tree.barePairs_eq_cons hqs
    obtain ⟨q₂, qs₂, rfl, hq₂, hqs₂⟩ := Tree.barePairs_eq_cons hqs₁
    obtain rfl := Tree.barePairs_eq_nil hqs₂
    obtain ⟨sc, line₁, rfl, hsc⟩ := Tree.bare_eq_scalar hq₁
    obtain ⟨line₂, ts, rfl, hts⟩ := Tree.bare_eq_list hq₂
    obtain rfl : sc = .str o.name := by cases sc <;> simp_all [Scalar.unlinked]
    have hnd' : x ∉ Visit.enteredList vs ∧ (Visit.enteredList vs).Nodup := by
      simpa [Visit.entered] using hnd
    obtain ⟨target₁, list₁, hkids, hout, hrange, hinj⟩ := holdsList_plantItems vs ts g target list hts
      hnd'.2 fun y hy => hval y (by simp [Visit.entered, hy])
    have hle : g.size ≤ (g.plantItems ts).1.size := (Graph.isPrefix_plantItems g ts).size_le
    have hpre : (g.plantItems ts).1.IsPrefix ((((g.plantItems ts).1.add ⟨"", line₂,
        .list (g.plantItems ts).2⟩).1).add ⟨o.tag, line, .struct (Visit.declaredUid uid used x)
          [("name", .scalar (.str o.name) line₁), ("children", .node (g.plantItems ts).1.size)]⟩).1 :=
      (Graph.isPrefix_add _ _).trans (Graph.isPrefix_add _ _)
    have hne : ∀ y ∈ Visit.enteredList vs, y ≠ x := fun y hy e => hnd'.1 (e ▸ hy)
    rw [Graph.plant_objectStruct]
    refine ⟨Function.update target₁ x ((g.plantItems ts).1.size + 1),
      Function.update list₁ x (g.plantItems ts).1.size, ?_, ?_, ?_, ?_⟩
    · -- the structure is last, its list just before it
      have hs := Graph.get?_add_self (((g.plantItems ts).1.add ⟨"", line₂,
        .list (g.plantItems ts).2⟩).1) ⟨o.tag, line, .struct (Visit.declaredUid uid used x)
          [("name", .scalar (.str o.name) line₁), ("children", .node (g.plantItems ts).1.size)]⟩
      rw [Graph.size_add] at hs
      have hl := (Graph.isPrefix_add _ ⟨o.tag, line, .struct (Visit.declaredUid uid used x)
          [("name", .scalar (.str o.name) line₁), ("children", .node (g.plantItems ts).1.size)]⟩).get?_eq
        (Graph.get?_add_self (g.plantItems ts).1 ⟨"", line₂, .list (g.plantItems ts).2⟩)
      have hv : Value.node ((g.plantItems ts).1.size + 1) =
          .node (Function.update target₁ x ((g.plantItems ts).1.size + 1) x) := by
        rw [Function.update_self]
      rw [hv]
      refine .enter ho (by simp only [Function.update_self]; exact hs)
        (by simp only [Function.update_self]; exact hl) ?_
      refine (hkids.mono hpre).congr fun y hy => ?_
      rw [Function.update_of_ne (hne y hy), Function.update_of_ne (hne y hy)]
      exact ⟨rfl, rfl⟩
    · intro y hy
      have hyx : y ≠ x := fun e => hy (e ▸ by simp [Visit.entered])
      rw [Function.update_of_ne hyx, Function.update_of_ne hyx]
      exact hout y fun h => hy (by simp [Visit.entered, h])
    · intro y hy
      simp only [Graph.size_add]
      by_cases hyx : y = x
      · rw [hyx, Function.update_self]
        exact ⟨Nat.le_succ_of_le hle, Nat.lt_succ_self _⟩
      · rw [Function.update_of_ne hyx]
        have hy' : y ∈ Visit.enteredList vs := by simpa [Visit.entered, hyx] using hy
        exact ⟨(hrange y hy').1, Nat.lt_succ_of_lt (Nat.lt_succ_of_lt (hrange y hy').2)⟩
    · -- the new structure is past every container planted for the children
      intro y hy z hz
      have hkid : ∀ w ∈ (Visit.enter x vs).entered, w ≠ x → w ∈ Visit.enteredList vs :=
        fun w hw hwx => by simpa [Visit.entered, hwx] using hw
      have hfresh : ∀ w ∈ (Visit.enter x vs).entered, w ≠ x →
          target₁ w ≠ (g.plantItems ts).1.size + 1 :=
        fun w hw hwx => Nat.ne_of_lt (Nat.lt_succ_of_lt (hrange w (hkid w hw hwx)).2)
      exact eq_of_update_eq (hfresh y hy) (hfresh z hz) fun hyx hzx =>
        hinj y (hkid y hy hyx) z (hkid z hz hzx)
  | .again x, t, g, target, list, hb, _, _ => by
    obtain ⟨sc, line, rfl, hsc⟩ := Tree.bare_eq_scalar (show t.bare = .scalar (.uid (uid x) none) 0 from hb)
    obtain ⟨link, rfl⟩ : ∃ link, sc = .uid (uid x) link := by
      cases sc <;> simp_all [Scalar.unlinked]
    exact ⟨target, list, .again trivial, fun _ _ => ⟨rfl, rfl⟩, by simp [Visit.entered],
      by simp [Visit.entered]⟩

/-- A planted list of trees of object walks holds the walks, item by item. -/
theorem holdsList_plantItems : ∀ (vs : List Visit) (ts : List Tree) (g : Graph)
    (target list : ObjId → NodeId), Tree.bareItems ts = Visit.trees objs uid used vs →
    (Visit.enteredList vs).Nodup → (∀ y ∈ Visit.enteredList vs, ∃ o, objs[y]? = some o) →
    ∃ target' list', HoldsList objs (g.plantItems ts).1 target' list' (Visit.declaredUid uid used) uid
        (fun _ _ => True) vs (g.plantItems ts).2 ∧
      (∀ y, y ∉ Visit.enteredList vs → target' y = target y ∧ list' y = list y) ∧
      (∀ y ∈ Visit.enteredList vs, g.size ≤ target' y ∧ target' y < (g.plantItems ts).1.size) ∧
      (∀ y ∈ Visit.enteredList vs, ∀ z ∈ Visit.enteredList vs, target' y = target' z → y = z)
  | [], ts, g, target, list, hb, _, _ => by
    obtain rfl := Tree.bareItems_eq_nil (by simpa [Visit.trees] using hb)
    exact ⟨target, list, .nil, fun _ _ => ⟨rfl, rfl⟩, by simp [Visit.enteredList],
      by simp [Visit.enteredList]⟩
  | v :: vs, ts, g, target, list, hb, hnd, hval => by
    obtain ⟨q, qs, rfl, hq, hqs⟩ := Tree.bareItems_eq_cons (by simpa [Visit.trees] using hb)
    obtain ⟨hnd₁, hnd₂, hdisj⟩ := List.nodup_append.1 (by simpa [Visit.enteredList] using hnd)
    obtain ⟨target₁, list₁, h₁, hout₁, hr₁, hi₁⟩ := holds_plant v q g target list hq hnd₁
      fun y hy => hval y (by simp [Visit.enteredList, hy])
    obtain ⟨target₂, list₂, h₂, hout₂, hr₂, hi₂⟩ := holdsList_plantItems vs qs (g.plant q).1
      target₁ list₁ hqs hnd₂ fun y hy => hval y (by simp [Visit.enteredList, hy])
    have hle₁ : g.size ≤ (g.plant q).1.size := (Graph.isPrefix_plant g q).size_le
    have hle₂ : (g.plant q).1.size ≤ ((g.plant q).1.plantItems qs).1.size :=
      (Graph.isPrefix_plantItems _ qs).size_le
    have hfirst : ∀ y ∈ v.entered, target₂ y = target₁ y ∧ list₂ y = list₁ y :=
      fun y hy => hout₂ y fun h => hdisj y hy y h rfl
    rw [Graph.plantItems_cons]
    refine ⟨target₂, list₂, .cons ((h₁.mono (Graph.isPrefix_plantItems _ qs)).congr hfirst) h₂, ?_, ?_, ?_⟩
    · intro y hy
      have hy₁ : y ∉ v.entered := fun h => hy (by simp [Visit.enteredList, h])
      have hy₂ : y ∉ Visit.enteredList vs := fun h => hy (by simp [Visit.enteredList, h])
      rw [(hout₂ y hy₂).1, (hout₂ y hy₂).2]
      exact hout₁ y hy₁
    · intro y hy
      rcases List.mem_append.1 (by simpa [Visit.enteredList] using hy) with hy | hy
      · rw [(hfirst y hy).1]
        exact ⟨(hr₁ y hy).1, Nat.lt_of_lt_of_le (hr₁ y hy).2 hle₂⟩
      · exact ⟨hle₁.trans (hr₂ y hy).1, (hr₂ y hy).2⟩
    · -- the two parts are planted in disjoint ranges
      intro y hy z hz hyz
      rcases List.mem_append.1 (by simpa [Visit.enteredList] using hy) with hy | hy <;>
        rcases List.mem_append.1 (by simpa [Visit.enteredList] using hz) with hz | hz
      · rw [(hfirst y hy).1, (hfirst z hz).1] at hyz
        exact hi₁ y hy z hz hyz
      · rw [(hfirst y hy).1] at hyz
        exact absurd hyz (Nat.ne_of_lt (Nat.lt_of_lt_of_le (hr₁ y hy).2 (hr₂ z hz).1))
      · rw [(hfirst z hz).1] at hyz
        exact absurd hyz (Nat.ne_of_gt (Nat.lt_of_lt_of_le (hr₁ z hz).2 (hr₂ y hy).1))
      · exact hi₂ y hy z hz hyz
end

end ObjGraph

/-! ## Linking a graph that holds an object walk -/

namespace Node

theorem mapValues_list (h : Value → Value) (tag : String) (line : Nat) (items : List Value) :
    (⟨tag, line, .list items⟩ : Node).mapValues (fun _ => h) = ⟨tag, line, .list (items.map h)⟩ := by
  simp only [mapValues, Node.mk.injEq, Body.list.injEq, true_and]
  exact List.ext_getElem? fun i => by simp

/-- The structure of an object holds no reference for linking to change. -/
theorem relink_objectStruct (f : String → Option NodeId) (tag : String) (line : Nat) (uid name : String)
    (line₁ : Nat) (list : NodeId) :
    (⟨tag, line, .struct uid [("name", .scalar (.str name) line₁), ("children", .node list)]⟩ :
      Node).mapValues (fun _ w => w.relink f) =
      ⟨tag, line, .struct uid [("name", .scalar (.str name) line₁), ("children", .node list)]⟩ := by
  simp [mapValues, Value.relink]

end Node

namespace ObjGraph

section Linking

variable (objs : Array Obj) (g : Graph) (target list : ObjId → NodeId) (decl ref : ObjId → String)
  (linked : ObjId → Option NodeId → Prop)

/-- An item of a list of children: the structure of an object of `E`, or a reference to the UID
of an object of `R`, whose link `linked` accepts. -/
def HeldItem (E R : List ObjId) (w : Value) : Prop :=
  (∃ z ∈ E, w = .node (target z)) ∨ ∃ c ∈ R, ∃ t line, w = .scalar (.uid (ref c) t) line ∧ linked c t

/-- What the graph holds for an object: its structure, with its tag, the UID `decl`, its name and
its list of children, and that list, whose items are structures of objects of `E` and references
to objects of `R`. -/
def Held (E R : List ObjId) (y : ObjId) : Prop :=
  ∃ o line line₁ line₂ items, objs[y]? = some o ∧
    g.get? (target y) = some ⟨o.tag, line, .struct (decl y)
      [("name", .scalar (.str o.name) line₁), ("children", .node (list y))]⟩ ∧
    g.get? (list y) = some ⟨"", line₂, .list items⟩ ∧ ∀ w ∈ items, HeldItem target ref linked E R w

variable {objs g target list decl ref linked}

theorem HeldItem.mono {E R E' R' : List ObjId} {w : Value} (h : HeldItem target ref linked E R w)
    (hE : E ⊆ E') (hR : R ⊆ R') : HeldItem target ref linked E' R' w := by
  rcases h with ⟨z, hz, rfl⟩ | ⟨c, hc, t, line, rfl, hl⟩
  · exact .inl ⟨z, hE hz, rfl⟩
  · exact .inr ⟨c, hR hc, t, line, rfl, hl⟩

theorem Holds.heldItem {v : Visit} {w : Value} (h : Holds objs g target list decl ref linked v w) :
    HeldItem target ref linked v.entered v.repeats w := by
  cases h with
  | enter => exact .inl ⟨_, by simp [Visit.entered], rfl⟩
  | again hl => exact .inr ⟨_, by simp [Visit.repeats], _, _, rfl, hl⟩

theorem HoldsList.heldItem {vs : List Visit} {items : List Value}
    (h : HoldsList objs g target list decl ref linked vs items) :
    ∀ w ∈ items, HeldItem target ref linked (Visit.enteredList vs) (Visit.repeatsList vs) w := by
  induction vs generalizing items with
  | nil =>
    cases h
    simp
  | cons v vs ih =>
    cases h with
    | cons h₁ h₂ =>
      intro w hw
      rcases List.mem_cons.1 hw with rfl | hw
      · exact h₁.heldItem.mono (fun z hz => by simp [Visit.enteredList, hz])
          (fun c hc => by simp [Visit.repeatsList, hc])
      · exact (ih h₂ w hw).mono (fun z hz => by simp [Visit.enteredList, hz])
          (fun c hc => by simp [Visit.repeatsList, hc])

mutual
/-- The graph holds the structure and the list of every object a walk enters. -/
theorem Holds.held {E R : List ObjId} : ∀ {v : Visit} {w : Value},
    Holds objs g target list decl ref linked v w → v.entered ⊆ E → v.repeats ⊆ R →
    ∀ y ∈ v.entered, Held objs g target list decl ref linked E R y
  | _, _, .enter ho hs hl hkids, hE, hR, y, hy => by
    simp only [Visit.entered, List.mem_cons] at hy
    rcases hy with rfl | hy
    · exact ⟨_, _, _, _, _, ho, hs, hl, fun w hw => (hkids.heldItem w hw).mono
        (fun z hz => hE (by simp [Visit.entered, hz])) (fun c hc => hR (by simpa [Visit.repeats] using hc))⟩
    · exact HoldsList.held hkids (fun z hz => hE (by simp [Visit.entered, hz]))
        (fun c hc => hR (by simpa [Visit.repeats] using hc)) y hy
  | _, _, .again _, _, _, y, hy => by simp [Visit.entered] at hy

theorem HoldsList.held {E R : List ObjId} : ∀ {vs : List Visit} {items : List Value},
    HoldsList objs g target list decl ref linked vs items → Visit.enteredList vs ⊆ E →
    Visit.repeatsList vs ⊆ R → ∀ y ∈ Visit.enteredList vs, Held objs g target list decl ref linked E R y
  | _, _, .nil, _, _, y, hy => by simp [Visit.enteredList] at hy
  | _, _, .cons h₁ h₂, hE, hR, y, hy => by
    simp only [Visit.enteredList, List.mem_append] at hy
    rcases hy with hy | hy
    · exact Holds.held h₁ (fun z hz => hE (by simp [Visit.enteredList, hz]))
        (fun c hc => hR (by simp [Visit.repeatsList, hc])) y hy
    · exact HoldsList.held h₂ (fun z hz => hE (by simp [Visit.enteredList, hz]))
        (fun c hc => hR (by simp [Visit.repeatsList, hc])) y hy
end

mutual
/-- The containers of the objects a walk enters are reachable from where the walk is held. -/
theorem Holds.reaches {roots : List NodeId} : ∀ {v : Visit} {w : Value},
    Holds objs g target list decl ref linked v w → (∀ id, w = .node id → g.Reaches roots id) →
    ∀ y ∈ v.entered, g.Reaches roots (target y) ∧ g.Reaches roots (list y)
  | _, _, .enter (x := x) _ hs hl hkids, hw, y, hy => by
    have hT : g.Reaches roots (target x) := hw _ rfl
    have hL : g.Reaches roots (list x) := .child hT hs (Node.mem_children.2 (by simp [Node.values]))
    simp only [Visit.entered, List.mem_cons] at hy
    rcases hy with rfl | hy
    · exact ⟨hT, hL⟩
    · exact HoldsList.reaches hkids
        (fun id hid => .child hL hl (Node.mem_children.2 (by simpa [Node.values] using hid))) y hy
  | _, _, .again _, _, y, hy => by simp [Visit.entered] at hy

theorem HoldsList.reaches {roots : List NodeId} : ∀ {vs : List Visit} {items : List Value},
    HoldsList objs g target list decl ref linked vs items →
    (∀ id, Value.node id ∈ items → g.Reaches roots id) →
    ∀ y ∈ Visit.enteredList vs, g.Reaches roots (target y) ∧ g.Reaches roots (list y)
  | _, _, .nil, _, y, hy => by simp [Visit.enteredList] at hy
  | _, _, .cons h₁ h₂, hw, y, hy => by
    simp only [Visit.enteredList, List.mem_append] at hy
    rcases hy with hy | hy
    · exact Holds.reaches h₁ (fun id hid => hw id (hid ▸ List.mem_cons_self)) y hy
    · exact HoldsList.reaches h₂ (fun id hid => hw id (List.mem_cons_of_mem _ hid)) y hy
end

section Closed

variable {roots : List NodeId} {E R : List ObjId}
  (hheld : ∀ y ∈ E, Held objs g target list decl ref linked E R y)
  (hroots : ∀ r ∈ roots, ∃ y ∈ E, r = target y)
include hheld hroots

/-- **Nothing else is reachable.** When the roots are structures of objects of `E` and the graph
holds every object of `E`, every reachable container is the structure or the list of one. -/
theorem reaches_held {i : NodeId} (hi : g.Reaches roots i) : ∃ y ∈ E, i = target y ∨ i = list y := by
  induction hi with
  | root hr =>
    obtain ⟨y, hy, rfl⟩ := hroots _ hr
    exact ⟨y, hy, .inl rfl⟩
  | child _ hn hc ih =>
    obtain ⟨y, hy, rfl | rfl⟩ := ih
    · -- a structure of an object holds its list of children and a name
      obtain ⟨o, line, line₁, line₂, items, -, hs, -, -⟩ := hheld y hy
      rw [hs] at hn
      cases hn
      simp [Node.mem_children, Node.values] at hc
      exact ⟨y, hy, .inr hc⟩
    · obtain ⟨o, line, line₁, line₂, items, -, -, hl, hitems⟩ := hheld y hy
      rw [hl] at hn
      cases hn
      rcases hitems _ (by simpa [Node.values] using Node.mem_children.1 hc) with
        ⟨z, hz, he⟩ | ⟨c, -, t, line, he, -⟩
      · exact ⟨z, hz, .inl (by simpa using he)⟩
      · cases he

/-- The reachable structures are the structures of the objects of `E`, declaring `decl`. -/
theorem eq_of_declares {s : NodeId} {u : String} (h : g.Declares roots s u) :
    ∃ y ∈ E, s = target y ∧ u = decl y := by
  obtain ⟨hr, -, n, pairs, hn, hb⟩ := h
  obtain ⟨y, hy, rfl | rfl⟩ := reaches_held hheld hroots hr
  · obtain ⟨o, line, line₁, line₂, items, -, hs, -, -⟩ := hheld y hy
    rw [hs] at hn
    cases hn
    cases hb
    exact ⟨y, hy, rfl, rfl⟩
  · obtain ⟨o, line, line₁, line₂, items, -, -, hl, -⟩ := hheld y hy
    rw [hl] at hn
    cases hn
    cases hb

/-- Distinct objects with UIDs other than `#NULL` give distinct UIDs. -/
theorem uidsDistinct_of_held
    (hdecl : ∀ y ∈ E, ∀ z ∈ E, decl y = decl z → decl y ≠ nullUid → y = z) :
    g.UidsDistinct roots := by
  intro s s' u hs hs'
  obtain ⟨y, hy, rfl, rfl⟩ := eq_of_declares hheld hroots hs
  obtain ⟨z, hz, rfl, hyz⟩ := eq_of_declares hheld hroots hs'
  rw [hdecl y hy z hz hyz hs.2.1]

omit hroots in
/-- The structure of an object declares its UID when it is reachable and not `#NULL`. -/
theorem declares_held {c : ObjId} (hc : c ∈ E) (hr : g.Reaches roots (target c))
    (hdc : decl c = ref c) (hnull : ref c ≠ nullUid) : g.Declares roots (target c) (ref c) := by
  obtain ⟨o, line, line₁, line₂, items, -, hs, -, -⟩ := hheld c hc
  exact ⟨hr, hnull, _, _, hs, by rw [hdc]⟩

/-- The references, to the objects of `R`, name UIDs their structures declare. -/
theorem uidsResolved_of_held (hreach : ∀ y ∈ E, g.Reaches roots (target y))
    (hrep : ∀ c ∈ R, c ∈ E ∧ decl c = ref c ∧ ref c ≠ nullUid) : g.UidsResolved roots := by
  rintro u ⟨i, n, t, line, hr, hn, hv, hu⟩
  obtain ⟨y, hy, rfl | rfl⟩ := reaches_held hheld hroots hr
  · -- a structure of an object holds no reference
    obtain ⟨o, line₀, line₁, line₂, items, -, hs, -, -⟩ := hheld y hy
    rw [hs] at hn
    cases hn
    simp [Node.values] at hv
  · obtain ⟨o, line₀, line₁, line₂, items, -, -, hl, hitems⟩ := hheld y hy
    rw [hl] at hn
    cases hn
    rcases hitems _ (by simpa [Node.values] using hv) with ⟨z, -, he⟩ | ⟨c, hc, t', line', he, -⟩
    · cases he
    · cases he
      obtain ⟨hcE, hdc, hnull⟩ := hrep c hc
      exact ⟨target c, declares_held hheld hcE (hreach c hcE) hdc hnull⟩

/-- An object reached again is linked to the structure of the object. -/
theorem firstDeclarer_held (hreach : ∀ y ∈ E, g.Reaches roots (target y))
    (hdecl : ∀ y ∈ E, ∀ z ∈ E, decl y = decl z → decl y ≠ nullUid → y = z)
    (hrep : ∀ c ∈ R, c ∈ E ∧ decl c = ref c ∧ ref c ≠ nullUid) {c : ObjId} (hc : c ∈ R) :
    g.firstDeclarer roots (ref c) = some (target c) := by
  obtain ⟨hcE, hdc, hnull⟩ := hrep c hc
  have hd := declares_held hheld hcE (hreach c hcE) hdc hnull
  obtain ⟨f, hf⟩ := Graph.firstDeclarer_isSome hd
  rw [hf, uidsDistinct_of_held hheld hroots hdecl f (target c) (ref c)
    (Graph.declares_of_firstDeclarer hf) hd]

end Closed

section Relink

variable {E R : List ObjId} {G : Graph} {f : String → Option NodeId}

mutual
/-- Relinking the containers of the objects a walk enters, by a map that gives the UID of each
object reached again its structure, links every reference of the walk to that structure. -/
theorem Holds.relink
    (hG : ∀ y ∈ E, ∀ i, (i = target y ∨ i = list y) →
      G.get? i = (g.get? i).map (Node.mapValues fun _ w => w.relink f))
    (hf : ∀ c ∈ R, f (ref c) = some (target c) ∧ ref c ≠ nullUid) :
    ∀ {v : Visit} {w : Value}, Holds objs g target list decl ref linked v w →
      v.entered ⊆ E → v.repeats ⊆ R →
      Holds objs G target list decl ref (fun c t => t = some (target c)) v (w.relink f)
  | _, _, .enter (x := x) ho hs hl hkids, hE, hR => by
    have hx : x ∈ E := hE (by simp [Visit.entered])
    have hs' := hG x hx _ (.inl rfl)
    have hl' := hG x hx _ (.inr rfl)
    rw [hs, Option.map_some, Node.relink_objectStruct] at hs'
    rw [hl, Option.map_some, Node.mapValues_list] at hl'
    refine .enter ho hs' hl' (HoldsList.relink hG hf hkids ?_ ?_)
    · exact fun z hz => hE (by simp [Visit.entered, hz])
    · exact fun c hc => hR (by simpa [Visit.repeats] using hc)
  | _, _, .again (x := c) _, _, hR => by
    obtain ⟨hfc, hnull⟩ := hf c (hR (by simp [Visit.repeats]))
    -- the reference, to a UID other than `#NULL`, is linked to the structure of `c`
    simp only [Value.relink, beq_iff_eq, hnull, if_false, hfc, Option.some_or]
    exact .again rfl

theorem HoldsList.relink
    (hG : ∀ y ∈ E, ∀ i, (i = target y ∨ i = list y) →
      G.get? i = (g.get? i).map (Node.mapValues fun _ w => w.relink f))
    (hf : ∀ c ∈ R, f (ref c) = some (target c) ∧ ref c ≠ nullUid) :
    ∀ {vs : List Visit} {items : List Value},
      HoldsList objs g target list decl ref linked vs items → Visit.enteredList vs ⊆ E →
      Visit.repeatsList vs ⊆ R →
      HoldsList objs G target list decl ref (fun c t => t = some (target c)) vs
        (items.map (Value.relink f))
  | _, _, .nil, _, _ => .nil
  | _, _, .cons h₁ h₂, hE, hR =>
    .cons (Holds.relink hG hf h₁ (fun z hz => hE (by simp [Visit.enteredList, hz]))
        (fun c hc => hR (by simp [Visit.repeatsList, hc])))
      (HoldsList.relink hG hf h₂ (fun z hz => hE (by simp [Visit.enteredList, hz]))
        (fun c hc => hR (by simp [Visit.repeatsList, hc])))
end

end Relink

end Linking

end ObjGraph

namespace Graph

/-- Linking a document relinks each structure and list reachable from its root. -/
theorem link_get?_of_reaches {g : Graph} {root i : NodeId} (hr : g.Reaches [root] i)
    (hb : g.IsBranch i) :
    (g.link root).1.get? i =
      (g.get? i).map (Node.mapValues fun _ w => w.relink (g.firstDeclarer [root])) := by
  have hp : i ∈ g.preorder [root] := mem_preorder.2 ⟨hr, hb⟩
  show (({ modules := [root] } : Linker).link g).1.get? i = _
  rw [Linker.link_graph]
  simp only [hp, if_true]

theorem link_status_root (g : Graph) (root : NodeId) :
    (g.link root).2 =
      if g.linkFaults [root] = [] then .ok () else .error (.link (g.linkFaults [root])) :=
  Linker.link_status g _

end Graph

namespace ObjGraph

variable {objs : Array Obj} {g : Graph} {target list : ObjId → NodeId} {decl ref : ObjId → String}
  {linked : ObjId → Option NodeId → Prop}

/-- **Linking a graph that holds an object walk from its root.** When the objects entered with a
UID other than `#NULL` have distinct UIDs, and each object reached again was entered with the UID
its references name, which is not `#NULL`, linking succeeds, and the linked graph holds the walk
with each reference linked to the structure of its object. -/
theorem Holds.link {x : ObjId} {v : Visit}
    (h : Holds objs g target list decl ref linked v (.node (target x))) (hx : x ∈ v.entered)
    (hdecl : ∀ y ∈ v.entered, ∀ z ∈ v.entered, decl y = decl z → decl y ≠ nullUid → y = z)
    (hrep : ∀ c ∈ v.repeats, c ∈ v.entered ∧ decl c = ref c ∧ ref c ≠ nullUid) :
    (g.link (target x)).2 = .ok () ∧
      Holds objs (g.link (target x)).1 target list decl ref (fun c t => t = some (target c)) v
        (.node (target x)) := by
  have hreach : ∀ y ∈ v.entered, g.Reaches [target x] (target y) ∧ g.Reaches [target x] (list y) :=
    h.reaches fun id hid => by
      cases hid
      exact .root (List.mem_singleton_self _)
  have hheld := h.held (List.Subset.refl _) (List.Subset.refl _)
  have hroots : ∀ r ∈ [target x], ∃ y ∈ v.entered, r = target y := by
    simp only [List.mem_singleton, forall_eq]
    exact ⟨x, hx, rfl⟩
  have hdis := uidsDistinct_of_held hheld hroots hdecl
  have hres := uidsResolved_of_held hheld hroots (fun y hy => (hreach y hy).1) hrep
  refine ⟨?_, ?_⟩
  · rw [Graph.link_status_root, if_pos (Graph.linkFaults_eq_nil.2 ⟨hdis, hres⟩)]
  · -- the containers of the walk are reachable structures and lists, so linking relinks them
    have hG : ∀ y ∈ v.entered, ∀ i, (i = target y ∨ i = list y) →
        (g.link (target x)).1.get? i =
          (g.get? i).map (Node.mapValues fun _ w => w.relink (g.firstDeclarer [target x])) := by
      rintro y hy i (rfl | rfl)
      · obtain ⟨o, line, line₁, line₂, items, -, hs, -, -⟩ := hheld y hy
        exact Graph.link_get?_of_reaches (hreach y hy).1 ⟨_, hs, rfl⟩
      · obtain ⟨o, line, line₁, line₂, items, -, -, hl, -⟩ := hheld y hy
        exact Graph.link_get?_of_reaches (hreach y hy).2 ⟨_, hl, rfl⟩
    exact Holds.relink hG
      (fun c hc => ⟨firstDeclarer_held hheld hroots (fun y hy => (hreach y hy).1) hdecl hrep hc,
        (hrep c hc).2.2⟩) h (List.Subset.refl _) (List.Subset.refl _)

end ObjGraph

end GraphDoc
