import GraphDoc.Session.Basic
import GraphDoc.Proofs.WrittenTokens
/-! # Walking the objects of a session

The objects of a session form a graph through their children, with any sharing and cycles.
The exporter, the writers and readers of both formats, and the importer all go through it in
one order: depth first from a root, children in order, each object entered the first time it
is reached and only named when it is reached again. `ObjGraph.Walks objs vis x v vis'` says
that this walk from `x`, with the objects `vis` entered before, is `v` and leaves `vis'`
entered.

* A walk adds what it enters to the visited list, most recent first (`Walks.vis_eq`), and
  enters each object at most once (`Walks.nodup`).
* From a root whose reachable objects are all objects of the session there is a walk
  (`walks_exists`), and it enters exactly the reachable objects (`Walks.mem_iff_reaches`).
* `ObjGraph.Iso` is what saving and loading should keep: a one-to-one map from the objects
  reachable from one root onto those reachable from another, keeping tags and names and
  mapping children in order.
-/
namespace GraphDoc

namespace ObjGraph

variable (objs : Array Obj)

/-- The objects reachable from `root` through children. -/
inductive Reaches (root : ObjId) : ObjId → Prop
  | root : Reaches root root
  | child {x c : ObjId} {o : Obj} : Reaches root x → objs[x]? = some o → c ∈ o.children →
      Reaches root c

/-- A walk through objects: an object entered, with the walks from its children in order, or
an object reached again. -/
inductive Visit where
  | enter (x : ObjId) (children : List Visit)
  | again (x : ObjId)
deriving Repr, Inhabited

mutual
/-- `Walks vis x v vis'`: the walk from `x`, with the objects `vis` entered before, is `v` and
leaves `vis'` entered. -/
inductive Walks : List ObjId → ObjId → Visit → List ObjId → Prop
  | again {vis : List ObjId} {x : ObjId} : x ∈ vis → Walks vis x (.again x) vis
  | enter {vis vis' : List ObjId} {x : ObjId} {o : Obj} {vs : List Visit} : x ∉ vis →
      objs[x]? = some o → WalksList (x :: vis) o.children vs vis' → Walks vis x (.enter x vs) vis'

/-- The walks from objects in order, each starting where the one before stopped. -/
inductive WalksList : List ObjId → List ObjId → List Visit → List ObjId → Prop
  | nil {vis : List ObjId} : WalksList vis [] [] vis
  | cons {vis vis₁ vis₂ : List ObjId} {x : ObjId} {xs : List ObjId} {v : Visit} {vs : List Visit} :
      Walks vis x v vis₁ → WalksList vis₁ xs vs vis₂ → WalksList vis (x :: xs) (v :: vs) vis₂
end

/-- What saving needs of the objects reachable from `root`: each is an object of the session,
whose tag the text format spells and has the plain writer in the registry. -/
def Savable (reg : Registry) (root : ObjId) : Prop :=
  ∀ x, Reaches objs root x →
    ∃ o, objs[x]? = some o ∧ reg.get? o.tag = some .plain ∧ Scan.isTag o.tag = true

/-- `f` maps the objects reachable from `root` in `objs` one to one onto those reachable from
`root'` in `objs'`, keeping each object's tag and name and mapping its children in order. -/
structure Iso (root : ObjId) (objs' : Array Obj) (root' : ObjId) (f : ObjId → ObjId) : Prop where
  map_root : f root = root'
  injective : ∀ x y, Reaches objs root x → Reaches objs root y → f x = f y → x = y
  map_obj : ∀ x o, Reaches objs root x → objs[x]? = some o →
    objs'[f x]? = some { o with children := o.children.map f }
  onto : ∀ y, Reaches objs' root' y → ∃ x, Reaches objs root x ∧ f x = y

namespace Visit

mutual
/-- The objects a walk enters, in the order it enters them. -/
def entered : Visit → List ObjId
  | .enter x vs => x :: enteredList vs
  | .again _ => []

/-- The objects the walks in a list enter, in order. -/
def enteredList : List Visit → List ObjId
  | [] => []
  | v :: vs => entered v ++ enteredList vs
end

mutual
/-- The objects a walk reaches again, in the order it reaches them. -/
def repeats : Visit → List ObjId
  | .enter _ vs => repeatsList vs
  | .again x => [x]

/-- The objects the walks in a list reach again, in order. -/
def repeatsList : List Visit → List ObjId
  | [] => []
  | v :: vs => repeats v ++ repeatsList vs
end

end Visit

variable {objs}

/-! ## What a walk enters -/

mutual
/-- A walk adds what it enters to the visited list, most recent first. -/
theorem Walks.vis_eq : ∀ {vis vis' x v}, Walks objs vis x v vis' →
    vis' = v.entered.reverse ++ vis
  | _, _, _, _, .again _ => by simp [Visit.entered]
  | _, _, _, _, .enter _ _ hl => by
    rw [WalksList.vis_eq hl]
    simp [Visit.entered]

theorem WalksList.vis_eq : ∀ {vis vis' xs vs}, WalksList objs vis xs vs vis' →
    vis' = (Visit.enteredList vs).reverse ++ vis
  | _, _, _, _, .nil => by simp [Visit.enteredList]
  | _, _, _, _, .cons h₁ h₂ => by
    rw [WalksList.vis_eq h₂, Walks.vis_eq h₁]
    simp [Visit.enteredList]
end

theorem Walks.subset {vis vis' : List ObjId} {x : ObjId} {v : Visit}
    (h : Walks objs vis x v vis') : vis ⊆ vis' := by
  rw [h.vis_eq]
  exact List.subset_append_right _ _

theorem WalksList.subset {vis vis' xs : List ObjId} {vs : List Visit}
    (h : WalksList objs vis xs vs vis') : vis ⊆ vis' := by
  rw [h.vis_eq]
  exact List.subset_append_right _ _

theorem Walks.length_le {vis vis' : List ObjId} {x : ObjId} {v : Visit}
    (h : Walks objs vis x v vis') : vis.length ≤ vis'.length := by
  rw [h.vis_eq, List.length_append]
  exact Nat.le_add_left _ _

/-- A walk from nothing visited visits exactly what it enters. -/
theorem Walks.mem_vis_iff {vis' : List ObjId} {x : ObjId} {v : Visit} (h : Walks objs [] x v vis')
    (y : ObjId) : y ∈ vis' ↔ y ∈ v.entered := by
  simp [h.vis_eq]

/-- The object a walk starts from is visited when it stops. -/
theorem Walks.mem {vis vis' : List ObjId} {x : ObjId} {v : Visit}
    (h : Walks objs vis x v vis') : x ∈ vis' := by
  cases h with
  | again hx => exact hx
  | enter _ _ hl => exact hl.subset List.mem_cons_self

theorem WalksList.mem {vis vis' xs : List ObjId} {vs : List Visit}
    (h : WalksList objs vis xs vs vis') : ∀ x ∈ xs, x ∈ vis' := by
  induction xs generalizing vis vs with
  | nil => simp
  | cons x xs ih =>
    cases h with
    | cons h₁ h₂ =>
      intro y hy
      rcases List.mem_cons.1 hy with rfl | hy
      · exact h₂.subset h₁.mem
      · exact ih h₂ y hy

/-- A walk from nothing visited enters the object it starts from. -/
theorem Walks.eq_enter_of_nil {vis' : List ObjId} {x : ObjId} {v : Visit}
    (h : Walks objs [] x v vis') : ∃ vs, v = .enter x vs := by
  cases h with
  | again hx => cases hx
  | enter _ _ _ => exact ⟨_, rfl⟩

/-- The walks from objects in order are as many as the objects. -/
theorem WalksList.length_eq {vis vis' xs : List ObjId} {vs : List Visit}
    (h : WalksList objs vis xs vs vis') : vs.length = xs.length := by
  induction xs generalizing vis vs with
  | nil => cases h; rfl
  | cons x xs ih =>
    cases h with
    | cons _ h₂ => simp [ih h₂]

mutual
/-- A walk enters each object at most once. -/
theorem Walks.nodup : ∀ {vis vis' x v}, Walks objs vis x v vis' → vis.Nodup → vis'.Nodup
  | _, _, _, _, .again _, h => h
  | _, _, _, _, .enter hx _ hl, h => WalksList.nodup hl (List.nodup_cons.2 ⟨hx, h⟩)

theorem WalksList.nodup : ∀ {vis vis' xs vs}, WalksList objs vis xs vs vis' → vis.Nodup →
    vis'.Nodup
  | _, _, _, _, .nil, h => h
  | _, _, _, _, .cons h₁ h₂, h => WalksList.nodup h₂ (Walks.nodup h₁ h)
end

mutual
/-- A walk enters only objects of the session. -/
theorem Walks.valid : ∀ {vis vis' x v}, Walks objs vis x v vis' →
    ∀ y ∈ v.entered, ∃ o, objs[y]? = some o
  | _, _, _, _, .again _ => by simp [Visit.entered]
  | _, _, _, _, .enter (o := o) _ ho hl => by
    intro y hy
    rcases List.mem_cons.1 hy with rfl | hy
    · exact ⟨o, ho⟩
    · exact WalksList.valid hl y hy

theorem WalksList.valid : ∀ {vis vis' xs vs}, WalksList objs vis xs vs vis' →
    ∀ y ∈ Visit.enteredList vs, ∃ o, objs[y]? = some o
  | _, _, _, _, .nil => by simp [Visit.enteredList]
  | _, _, _, _, .cons h₁ h₂ => by
    intro y hy
    rcases List.mem_append.1 hy with hy | hy
    · exact Walks.valid h₁ y hy
    · exact WalksList.valid h₂ y hy
end

mutual
/-- Every child of an object a walk enters is visited when the walk stops. -/
theorem Walks.closed : ∀ {vis vis' x v}, Walks objs vis x v vis' →
    ∀ y ∈ v.entered, ∀ o, objs[y]? = some o → ∀ c ∈ o.children, c ∈ vis'
  | _, _, _, _, .again _ => by simp [Visit.entered]
  | _, _, _, _, .enter _ ho hl => by
    intro y hy o' ho' c hc
    rcases List.mem_cons.1 hy with rfl | hy
    · rw [ho] at ho'
      cases ho'
      exact hl.mem c hc
    · exact WalksList.closed hl y hy o' ho' c hc

theorem WalksList.closed : ∀ {vis vis' xs vs}, WalksList objs vis xs vs vis' →
    ∀ y ∈ Visit.enteredList vs, ∀ o, objs[y]? = some o → ∀ c ∈ o.children, c ∈ vis'
  | _, _, _, _, .nil => by simp [Visit.enteredList]
  | _, _, _, _, .cons h₁ h₂ => by
    intro y hy o ho c hc
    rcases List.mem_append.1 hy with hy | hy
    · exact h₂.subset (Walks.closed h₁ y hy o ho c hc)
    · exact WalksList.closed h₂ y hy o ho c hc
end

mutual
/-- An object a walk reaches again was visited before it. -/
theorem Walks.repeats_subset : ∀ {vis vis' x v}, Walks objs vis x v vis' → ∀ y ∈ v.repeats, y ∈ vis'
  | _, _, _, _, .again hx => by simpa [Visit.repeats] using hx
  | _, _, _, _, .enter _ _ hl => WalksList.repeats_subset hl

theorem WalksList.repeats_subset : ∀ {vis vis' xs vs}, WalksList objs vis xs vs vis' →
    ∀ y ∈ Visit.repeatsList vs, y ∈ vis'
  | _, _, _, _, .nil => by simp [Visit.repeatsList]
  | _, _, _, _, .cons h₁ h₂ => by
    intro y hy
    rcases List.mem_append.1 hy with hy | hy
    · exact h₂.subset (Walks.repeats_subset h₁ y hy)
    · exact WalksList.repeats_subset h₂ y hy
end

mutual
/-- A walk from a reachable object enters only reachable objects. -/
theorem Walks.reaches {root : ObjId} : ∀ {vis vis' x v}, Walks objs vis x v vis' →
    Reaches objs root x → ∀ y ∈ v.entered, Reaches objs root y
  | _, _, _, _, .again _, _ => by simp [Visit.entered]
  | _, _, _, _, .enter _ ho hl, hx => by
    intro y hy
    rcases List.mem_cons.1 hy with rfl | hy
    · exact hx
    · exact WalksList.reaches hl (fun c hc => .child hx ho hc) y hy

theorem WalksList.reaches {root : ObjId} : ∀ {vis vis' xs vs}, WalksList objs vis xs vs vis' →
    (∀ x ∈ xs, Reaches objs root x) → ∀ y ∈ Visit.enteredList vs, Reaches objs root y
  | _, _, _, _, .nil, _ => by simp [Visit.enteredList]
  | _, _, _, _, .cons h₁ h₂, hxs => by
    intro y hy
    rcases List.mem_append.1 hy with hy | hy
    · exact Walks.reaches h₁ (hxs _ List.mem_cons_self) y hy
    · exact WalksList.reaches h₂ (fun x hx => hxs x (List.mem_cons_of_mem _ hx)) y hy
end

/-- **The walk from a root enters exactly the objects reachable from it.** -/
theorem Walks.mem_iff_reaches {root : ObjId} {v : Visit} {vis' : List ObjId}
    (h : Walks objs [] root v vis') (y : ObjId) : y ∈ vis' ↔ Reaches objs root y := by
  have hvis : vis' = v.entered.reverse := by simpa using h.vis_eq
  constructor
  · intro hy
    exact h.reaches .root y (by simpa [hvis] using hy)
  · -- the visited objects hold the root and every child of each of them
    intro hr
    induction hr with
    | root => exact h.mem
    | child _ ho hc ih => exact h.closed _ (by simpa [hvis] using ih) _ ho _ hc

/-! ## A walk exists -/

/-- Distinct objects of a session are at most as many as the session has. -/
theorem length_le_of_lt {vis : List ObjId} (hn : vis.Nodup) (hlt : ∀ y ∈ vis, y < objs.size) :
    vis.length ≤ objs.size := by
  have hsub : vis.Subperm (List.range objs.size) :=
    hn.subperm fun y hy => List.mem_range.2 (hlt y hy)
  simpa using hsub.length_le

/-- The walk from a reachable object exists whenever every reachable object is an object of the
session: each level of the walk enters one more of them, so `n` levels suffice once `n` and the
objects visited make up the session. -/
theorem walks_exists_of {root : ObjId} (hvalid : ∀ x, Reaches objs root x → ∃ o, objs[x]? = some o) :
    ∀ n (vis : List ObjId), vis.Nodup → (∀ y ∈ vis, y < objs.size) → objs.size ≤ n + vis.length →
      ∀ x, Reaches objs root x → ∃ v vis', Walks objs vis x v vis' := by
  intro n
  induction n with
  | zero =>
    intro vis hn hlt hle x hx
    by_cases hmem : x ∈ vis
    · exact ⟨_, _, .again hmem⟩
    · -- no room for one more object
      obtain ⟨o, ho⟩ := hvalid x hx
      have hlen : (x :: vis).length ≤ objs.size := length_le_of_lt (List.nodup_cons.2 ⟨hmem, hn⟩)
        (fun y hy => by
          rcases List.mem_cons.1 hy with rfl | hy
          · exact (Array.getElem?_eq_some_iff.1 ho).1
          · exact hlt y hy)
      simp at hlen
      omega
  | succ m ih =>
    intro vis hn hlt hle x hx
    by_cases hmem : x ∈ vis
    · exact ⟨_, _, .again hmem⟩
    obtain ⟨o, ho⟩ := hvalid x hx
    have hxlt : x < objs.size := (Array.getElem?_eq_some_iff.1 ho).1
    -- the children are walked in order from the visited list with `x` added
    suffices hkids : ∀ (cs : List ObjId) (vis₀ : List ObjId), vis₀.Nodup →
        (∀ y ∈ vis₀, y < objs.size) → objs.size ≤ m + vis₀.length →
        (∀ c ∈ cs, Reaches objs root c) → ∃ vs vis', WalksList objs vis₀ cs vs vis' by
      obtain ⟨vs, vis', hl⟩ := hkids o.children (x :: vis) (List.nodup_cons.2 ⟨hmem, hn⟩)
        (fun y hy => by
          rcases List.mem_cons.1 hy with rfl | hy
          · exact hxlt
          · exact hlt y hy)
        (by simp; omega) (fun c hc => .child hx ho hc)
      exact ⟨_, _, .enter hmem ho hl⟩
    intro cs
    induction cs with
    | nil => exact fun vis₀ _ _ _ _ => ⟨[], vis₀, .nil⟩
    | cons c cs ihc =>
      intro vis₀ hn₀ hlt₀ hle₀ hcs
      obtain ⟨v, vis₁, hv⟩ := ih vis₀ hn₀ hlt₀ hle₀ c (hcs c List.mem_cons_self)
      have hlt₁ : ∀ y ∈ vis₁, y < objs.size := by
        intro y hy
        rw [hv.vis_eq] at hy
        rcases List.mem_append.1 hy with hy | hy
        · obtain ⟨o', ho'⟩ := hv.valid y (List.mem_reverse.1 hy)
          exact (Array.getElem?_eq_some_iff.1 ho').1
        · exact hlt₀ y hy
      have hlen : vis₀.length ≤ vis₁.length := by rw [hv.vis_eq]; simp
      obtain ⟨vs, vis₂, hl⟩ := ihc vis₁ (hv.nodup hn₀) hlt₁ (by omega)
        (fun c' hc' => hcs c' (List.mem_cons_of_mem _ hc'))
      exact ⟨v :: vs, vis₂, .cons hv hl⟩

/-- **The walk from a root exists** when every object reachable from it is an object of the
session. -/
theorem walks_exists {root : ObjId} (hvalid : ∀ x, Reaches objs root x → ∃ o, objs[x]? = some o) :
    ∃ v vis', Walks objs [] root v vis' :=
  walks_exists_of hvalid objs.size [] List.nodup_nil (by simp) (by simp) root .root

/-! ## Isomorphisms -/

/-- A map that keeps the objects reachable from a root and maps children in order maps them
onto the objects reachable from the image of the root. -/
theorem onto_of_map_obj {root : ObjId} {objs' : Array Obj} {f : ObjId → ObjId}
    (hmap : ∀ x o, Reaches objs root x → objs[x]? = some o →
      objs'[f x]? = some { o with children := o.children.map f })
    (hvalid : ∀ x, Reaches objs root x → ∃ o, objs[x]? = some o) :
    ∀ y, Reaches objs' (f root) y → ∃ x, Reaches objs root x ∧ f x = y := by
  intro y hy
  induction hy with
  | root => exact ⟨root, .root, rfl⟩
  | child _ ho' hc ih =>
    obtain ⟨x, hx, rfl⟩ := ih
    obtain ⟨o, ho⟩ := hvalid x hx
    rw [hmap x o hx ho] at ho'
    cases ho'
    obtain ⟨c₀, hc₀, rfl⟩ := List.mem_map.1 hc
    exact ⟨c₀, .child hx ho hc₀, rfl⟩

end ObjGraph

end GraphDoc
