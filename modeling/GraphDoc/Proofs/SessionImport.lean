import GraphDoc.Proofs.LoadedDocument
import GraphDoc.Proofs.Survivors
/-! # Importing follows the object walk a document holds

An import reads a structure into a fresh object, registers it, and imports the items of its
list of children in order: a structure is imported in turn, and a UID reference gets the object
of the structure it is linked to, read before. When the linked graph holds an object walk
(`ObjGraph.Holds`), the import therefore follows that walk: it makes one object for each object
the walk enters, with its tag and name, and gives each child slot the object made for the
child, whether the walk enters the child there or reaches it again.

A UID reference is followed only to a live structure (`SessionM.run_importValue_freed`). The
structures the walk enters hang from the structure of its first object through the values of
structures and lists (`ObjGraph.Holds.reaches`), so they stay alive while a handle holds that
one.

`SessionM.ImportInv` is what holds between the steps, and `SessionM.runs_importObject` the
specification of the import of one object, by induction over the walk.
-/
namespace GraphDoc

/-! ## The steps of an import -/

namespace Graph

/-- What the import reads from the structure of an object: its tag, its name and its list of
children. -/
theorem reads_objectStruct {g : Graph} {st : NodeId} {tag uid name : String} {line line₁ : Nat}
    {list : NodeId}
    (hs : g.get? st = some ⟨tag, line, .struct uid
      [("name", .scalar (.str name) line₁), ("children", .node list)]⟩) :
    g.tagOf st = tag ∧ (g.valuesUnder st "name").head? = some (.scalar (.str name) line₁) ∧
      (g.valuesUnder st "children").head? = some (.node list) := by
  simp [tagOf, valuesUnder, pairsOf, hs]

end Graph

namespace SessionM

variable {reg : Registry} {fuel : Nat}

theorem runs_registerImported (st : NodeId) (o : ObjId) (s : Session) :
    Runs (registerImported st o) s () { s with imported := (st, o) :: s.imported.filter (·.1 != st) } :=
  runs_modify _ s

theorem runs_newObject (o : Obj) (s : Session) :
    Runs (newObject o) s s.objects.size { s with objects := s.objects.push o } :=
  (runs_get s).bind ((runs_set _ _).bind (runs_pure _ _))

theorem runs_appendChild (o c : ObjId) (s : Session) :
    Runs (appendChild o c) s ()
      { s with objects := s.objects.modify o fun x => { x with children := x.children ++ [c] } } :=
  runs_modify _ s

theorem listItems_of_get? {g : Graph} {id : NodeId} {tag : String} {line : Nat}
    {items : List Value} (h : g.get? id = some ⟨tag, line, .list items⟩) :
    listItems g (some (.node id)) = items := by
  simp [listItems, h]

theorem runs_importChildren_nil (o : ObjId) (s : Session) :
    Runs (importChildren reg fuel o []) s () s := by
  rw [importChildren]
  exact runs_pure _ s

theorem Runs.importChildren_cons {o c : ObjId} {v : Value} {vs : List Value} {s s₁ s₂ : Session}
    (h₁ : Runs (importValue reg fuel v) s c s₁)
    (h₂ : Runs (importChildren reg fuel o vs)
      { s₁ with objects := s₁.objects.modify o fun x => { x with children := x.children ++ [c] } }
      () s₂) :
    Runs (importChildren reg fuel o (v :: vs)) s () s₂ := by
  rw [importChildren]
  exact h₁.bind ((runs_appendChild o c s₁).bind h₂)

/-- A value standing for a live structure is imported as that structure, held while it is
imported. -/
theorem Runs.importValue_of {v : Value} {st : NodeId} {o : ObjId} {s s' : Session}
    (hv : s.graph.resolvedStructure s.alive v = some st)
    (h : Runs (importObject reg fuel st) { s with held := st :: s.held } o s') :
    Runs (importValue reg fuel v) s o { s' with held := s'.held.erase st } := by
  rw [importValue]
  refine (runs_get s).bind ?_
  simp only [hv]
  exact h.withHandle

/-- **A reference whose target has been freed is not followed.** In a session that has not
failed, importing a UID reference linked to a structure that is no longer alive fails, and the
failure it records names the line of the reference and its kind. -/
theorem run_importValue_freed {uid : String} {t : NodeId} {line : Nat} {s : Session}
    (hst : s.status = .noError) (hdead : s.alive t = false) :
    (importValue reg fuel (.scalar (.uid uid (some t)) line)).run.run s =
      (.error (.importFailed ("line " ++ toString line ++
        ": expected a structure or a linked UID, found " ++ ValueType.uid.name)),
        s.signal .importError ("line " ++ toString line ++
          ": expected a structure or a linked UID, found " ++ ValueType.uid.name)) := by
  rw [importValue, run_get_bind]
  simp only [Graph.resolvedStructure, hdead, Bool.false_eq_true, ↓reduceIte]
  rw [run_failImport]
  simp [Session.signal, hst, Session.stickyError, lineOf, Graph.valueType, Scalar.type]

/-- A structure imported before gives its object again. -/
theorem Runs.importObject_again {st : NodeId} {o : ObjId} {s : Session}
    (hst : s.status = .noError) (hl : s.imported.lookup st = some o) :
    Runs (importObject reg fuel st) s o s := by
  rw [importObject]
  refine (runs_checkSticky hst).bind ((runs_get s).bind ?_)
  simp only [hl]
  exact runs_pure o s

/-- A new structure whose tag has an importer is read, and its object registered. -/
theorem Runs.importObject_read {st : NodeId} {o : ObjId} {w : Writer} {s s₁ : Session}
    (hst : s.status = .noError) (hl : s.imported.lookup st = none)
    (hreg : reg.get? (s.graph.tagOf st) = some w) (h : Runs (read reg fuel st) s o s₁)
    (hst₁ : s₁.status = .noError) :
    Runs (importObject reg (fuel + 1) st) s o
      { s₁ with imported := (st, o) :: s₁.imported.filter (·.1 != st) } := by
  rw [importObject]
  refine (runs_checkSticky hst).bind ((runs_get s).bind ?_)
  simp only [hl]
  refine (runs_get s).bind ?_
  simp only [hreg]
  exact h.tryCatch.bind ((runs_checkSticky hst₁).bind ((runs_registerImported st o s₁).bind
    (runs_pure _ _)))

/-- Reading a structure with a name makes its object, registers it, and imports the items of its
list of children into it. -/
theorem Runs.read {st : NodeId} {name : String} {line : Nat} {s s₂ : Session}
    (hname : (s.graph.valuesUnder st "name").head? = some (.scalar (.str name) line))
    (h : Runs (importChildren reg fuel s.objects.size
        (listItems s.graph (s.graph.valuesUnder st "children").head?))
      { s with objects := s.objects.push { tag := s.graph.tagOf st, name := name },
               imported := (st, s.objects.size) :: s.imported.filter (·.1 != st) } () s₂) :
    Runs (read reg fuel st) s s.objects.size s₂ := by
  rw [SessionM.read]
  refine (runs_get s).bind ?_
  simp only [hname]
  exact (runs_pure name s).bind ((runs_newObject _ s).bind ((runs_registerImported _ _ _).bind
    (h.bind (runs_pure _ _))))

/-! ## What holds between the steps of an import -/

/-- What holds between the steps of an import that follows an object walk held by the graph `G`,
where `target y` is the structure of the object `y` and `all` holds the objects the walk enters.
The objects `vis` have been entered, and those in `opn` are still being read. The session works
on `G` and has not failed; each object entered is registered with its new object `φ y`, distinct
for distinct objects; and once read, a new object has the tag and the name of its object and the
new objects of its children, in order. The handles the program holds keep the structure of every object of the walk
alive. -/
structure ImportInv (objs : Array Obj) (G : Graph) (target : ObjId → NodeId)
    (all vis opn : List ObjId) (φ : ObjId → ObjId) (s : Session) : Prop where
  graph : s.graph = G
  status : s.status = .noError
  nodup : vis.Nodup
  vis_sub : vis ⊆ all
  open_sub : opn ⊆ vis
  imported : ∀ y ∈ all, s.imported.lookup (target y) = if y ∈ vis then some (φ y) else none
  obj_lt : ∀ y ∈ vis, φ y < s.objects.size
  obj_inj : ∀ y ∈ vis, ∀ z ∈ vis, φ y = φ z → y = z
  closed_at : ∀ y ∈ vis, y ∉ opn → ∃ o, objs[y]? = some o ∧
    s.objects[φ y]? = some { o with children := o.children.map φ }
  children_mem : ∀ y ∈ vis, y ∉ opn → ∀ o, objs[y]? = some o → ∀ c ∈ o.children, c ∈ vis
  alive : ∀ y ∈ all, G.live s.held (target y) = true

namespace ImportInv

variable {objs : Array Obj} {G : Graph} {target : ObjId → NodeId} {all vis opn : List ObjId}
  {φ : ObjId → ObjId} {s : Session}

/-- Reading a new object adds its new object last and registers it with its structure. -/
theorem enter (h : ImportInv objs G target all vis opn φ s)
    (hT : ∀ y ∈ all, ∀ z ∈ all, target y = target z → y = z) {x : ObjId} (hx : x ∉ vis)
    (hxa : x ∈ all) (o : Obj) :
    ImportInv objs G target all (x :: vis) (x :: opn) (Function.update φ x s.objects.size)
      { s with objects := s.objects.push o,
               imported := (target x, s.objects.size) :: s.imported.filter (·.1 != target x) } := by
  have hne : ∀ y ∈ vis, y ≠ x := fun y hy e => hx (e ▸ hy)
  refine ⟨h.graph, h.status, List.nodup_cons.2 ⟨hx, h.nodup⟩, List.cons_subset.2 ⟨hxa, h.vis_sub⟩,
    List.cons_subset_cons x h.open_sub, fun y hy => ?_, fun y hy => ?_, fun y hy z hz hyz => ?_,
    fun y hy hyo => ?_, fun y hy hyo => ?_, h.alive⟩
  · rw [lookup_registered]
    by_cases hyx : y = x
    · simp [hyx]
    · have hT' : target y ≠ target x := fun e => hyx (hT y hy x hxa e)
      rw [if_neg hT', h.imported y hy, Function.update_of_ne hyx]
      simp [hyx]
  · rw [Array.size_push]
    by_cases hyx : y = x
    · rw [hyx, Function.update_self]
      exact Nat.lt_succ_self _
    · rw [Function.update_of_ne hyx]
      exact Nat.lt_succ_of_lt (h.obj_lt y (List.mem_of_ne_of_mem hyx hy))
  · -- the new object is the only one past the old objects
    have hfresh : ∀ w ∈ x :: vis, w ≠ x → φ w ≠ s.objects.size :=
      fun w hw hwx => Nat.ne_of_lt (h.obj_lt w (List.mem_of_ne_of_mem hwx hw))
    exact eq_of_update_eq (hfresh y hy) (hfresh z hz) (fun hyx hzx =>
      h.obj_inj y (List.mem_of_ne_of_mem hyx hy) z (List.mem_of_ne_of_mem hzx hz)) hyz
  · obtain ⟨hyx, hy', hyo'⟩ := closed_before hy hyo
    obtain ⟨o', ho', hobj⟩ := h.closed_at y hy' hyo'
    refine ⟨o', ho', ?_⟩
    -- its children were entered before `x`, so their new objects stay
    have hkids : o'.children.map (Function.update φ x s.objects.size) = o'.children.map φ :=
      List.map_congr_left fun c hc => Function.update_of_ne (hne c (h.children_mem y hy' hyo' o' ho' c hc)) _ _
    rw [Function.update_of_ne hyx, hkids]
    show (s.objects.push o)[φ y]? = _
    rw [Array.getElem?_push, if_neg (Nat.ne_of_lt (h.obj_lt y hy')), hobj]
  · obtain ⟨-, hy', hyo'⟩ := closed_before hy hyo
    intro o' ho' c hc
    exact List.mem_cons_of_mem _ (h.children_mem y hy' hyo' o' ho' c hc)

/-- Appending a child to an object being read keeps the objects read. -/
theorem append (h : ImportInv objs G target all vis opn φ s) {p : ObjId} (hp : p ∈ opn) (c : ObjId) :
    ImportInv objs G target all vis opn φ
      { s with objects := s.objects.modify (φ p) fun x => { x with children := x.children ++ [c] } } := by
  refine ⟨h.graph, h.status, h.nodup, h.vis_sub, h.open_sub, h.imported, fun y hy => ?_, h.obj_inj,
    fun y hy hyo => ?_, h.children_mem, h.alive⟩
  · rw [Array.size_modify]
    exact h.obj_lt y hy
  · obtain ⟨o, ho, hobj⟩ := h.closed_at y hy hyo
    have hyp : φ p ≠ φ y := fun e => hyo (h.obj_inj p (h.open_sub hp) y hy e ▸ hp)
    refine ⟨o, ho, ?_⟩
    show (s.objects.modify (φ p) _)[φ y]? = _
    rw [Array.getElem?_modify, if_neg hyp, hobj]

/-- An object whose children have all been read is closed. -/
theorem close {x : ObjId} (h : ImportInv objs G target all vis (x :: opn) φ s) {o : Obj} (ho : objs[x]? = some o)
    (hobj : s.objects[φ x]? = some { o with children := o.children.map φ })
    (hmem : ∀ c ∈ o.children, c ∈ vis) : ImportInv objs G target all vis opn φ s := by
  refine ⟨h.graph, h.status, h.nodup, h.vis_sub, fun y hy => h.open_sub (List.mem_cons_of_mem _ hy),
    h.imported, h.obj_lt, h.obj_inj, fun y hy hyo => ?_, fun y hy hyo => ?_, h.alive⟩
  · by_cases hyx : y = x
    · rw [hyx]
      exact ⟨o, ho, hobj⟩
    · exact h.closed_at y hy (by simp [hyx, hyo])
  · by_cases hyx : y = x
    · intro o' ho'
      rw [hyx, ho] at ho'
      cases ho'
      exact hmem
    · exact h.children_mem y hy (by simp [hyx, hyo])

/-- Registering an object entered with its new object again changes nothing. -/
theorem reregister (h : ImportInv objs G target all vis opn φ s)
    (hT : ∀ y ∈ all, ∀ z ∈ all, target y = target z → y = z) {x : ObjId} (hx : x ∈ vis) :
    ImportInv objs G target all vis opn φ
      { s with imported := (target x, φ x) :: s.imported.filter (·.1 != target x) } := by
  refine ⟨h.graph, h.status, h.nodup, h.vis_sub, h.open_sub, fun y hy => ?_, h.obj_lt, h.obj_inj,
    h.closed_at, h.children_mem, h.alive⟩
  rw [lookup_registered]
  by_cases hyx : y = x
  · simp [hyx, hx]
  · have hT' : target y ≠ target x := fun e => hyx (hT y hy x (h.vis_sub hx) e)
    rw [if_neg hT', h.imported y hy]

/-- Other handles that keep the structures of the walk alive keep the invariant. -/
theorem withHeld (h : ImportInv objs G target all vis opn φ s) (held : List NodeId)
    (halive : ∀ y ∈ all, G.live held (target y) = true) :
    ImportInv objs G target all vis opn φ { s with held := held } :=
  ⟨h.graph, h.status, h.nodup, h.vis_sub, h.open_sub, h.imported, h.obj_lt, h.obj_inj, h.closed_at,
    h.children_mem, halive⟩

/-- Holding one more handle keeps the invariant. -/
theorem hold (h : ImportInv objs G target all vis opn φ s) (id : NodeId) :
    ImportInv objs G target all vis opn φ { s with held := id :: s.held } :=
  h.withHeld _ fun y hy => G.live_of_subset (List.subset_cons_self _ _) (h.alive y hy)

/-- The structure of an object of the walk is alive in the session. -/
theorem session_alive (h : ImportInv objs G target all vis opn φ s) {y : ObjId} (hy : y ∈ all) :
    s.alive (target y) = true := by
  unfold Session.alive Session.handles
  rw [h.graph]
  exact G.live_of_subset (fun c hc => List.mem_append_left _ (List.mem_append_left _ hc)) (h.alive y hy)

end ImportInv

end SessionM

/-! ## The import of a held walk -/

namespace ObjGraph

variable {objs : Array Obj} {G : Graph} {target list : ObjId → NodeId} {decl ref : ObjId → String}

/-- Each value from which a linked graph holds the walk from an object stands for the structure
of that object, when that structure is alive. -/
theorem Holds.resolvedStructure {vis vis' : List ObjId} {x : ObjId} {v : Visit} {w : Value}
    {alive : NodeId → Bool} (hw : Walks objs vis x v vis')
    (h : Holds objs G target list decl ref (fun c t => t = some (target c)) v w)
    (hx : alive (target x) = true) :
    G.resolvedStructure alive w = some (target x) := by
  cases hw with
  | again _ =>
    cases h with
    | again hl =>
      subst hl
      simp [Graph.resolvedStructure, hx]
  | enter _ _ _ =>
    cases h with
    | enter _ hs _ _ => simp [Graph.resolvedStructure, Graph.valueType, hs, Body.type]

end ObjGraph

namespace SessionM

open ObjGraph

variable {objs : Array Obj} {G : Graph} {target list : ObjId → NodeId} {decl ref : ObjId → String}
  {all : List ObjId} {reg : Registry}

mutual
/-- **The import of an object follows the walk the linked graph holds.** From a state where the
objects `vis` have been entered, importing the structure of an object whose walk is `v` succeeds
with enough fuel, when the tag of every object has an importer: it gives the new object of the
object, keeps the new objects of everything entered before, and leaves the objects still being
read as they are. -/
theorem runs_importObject
    (hT : ∀ y ∈ all, ∀ z ∈ all, target y = target z → y = z)
    (hreg : ∀ y ∈ all, ∀ o, objs[y]? = some o → ∃ w, reg.get? o.tag = some w) :
    ∀ {vis vis' : List ObjId} {x : ObjId} {v : Visit} {w : Value}, Walks objs vis x v vis' →
      Holds objs G target list decl ref (fun c t => t = some (target c)) v w → vis' ⊆ all →
      ∀ {opn : List ObjId} {φ : ObjId → ObjId} {s : Session} {fuel : Nat},
      ImportInv objs G target all vis opn φ s → all.length + 1 ≤ vis.length + fuel →
      ∃ s' φ', Runs (importObject reg fuel (target x)) s (φ' x) s' ∧ s'.held = s.held ∧
        ImportInv objs G target all vis' opn φ' s' ∧ (∀ y ∈ vis, φ' y = φ y) ∧
        ∀ y ∈ opn, s'.objects[φ y]? = s.objects[φ y]?
  | _, _, x, _, _, .again hx, _, _, opn, φ, s, fuel, h, _ => by
    have hl : s.imported.lookup (target x) = some (φ x) := by
      rw [h.imported x (h.vis_sub hx), if_pos hx]
    exact ⟨s, φ, Runs.importObject_again h.status hl, rfl, h, fun _ _ => rfl, fun _ _ => rfl⟩
  | vis, vis', x, _, _, .enter (o := o) hx ho hwl, hh, hall, opn, φ, s, fuel, h, hfuel => by
    cases hh with
    | enter ho' hs hlist hkids =>
    rw [ho] at ho'
    cases ho'
    have hxa : x ∈ all := hall (hwl.subset List.mem_cons_self)
    -- the objects entered and `x` are distinct objects of the walk, so fuel is left
    obtain ⟨f, rfl⟩ : ∃ f, fuel = f + 1 := by
      have hlen : (x :: vis).length ≤ all.length :=
        ((List.nodup_cons.2 ⟨hx, h.nodup⟩).subperm (List.cons_subset.2 ⟨hxa, h.vis_sub⟩)).length_le
      simp only [List.length_cons] at hlen
      exact Nat.exists_eq_succ_of_ne_zero (by omega)
    have hnone : s.imported.lookup (target x) = none := by rw [h.imported x hxa, if_neg hx]
    rw [← h.graph] at hs hlist
    obtain ⟨htag, hname, hchildren⟩ := Graph.reads_objectStruct hs
    have hitems := listItems_of_get? hlist
    obtain ⟨wr, hwr⟩ := hreg x hxa o ho
    -- the new object is made and registered, and the children are read into it
    obtain ⟨s₂, φ₂, hrun₂, hheld₂, h₂, hagree₂, hkeep₂, hobj₂⟩ := runs_importChildren hT hreg hwl hkids hall
      (h.enter hT hx hxa { tag := o.tag, name := o.name })
      (show all.length + 1 ≤ (x :: vis).length + f by simp only [List.length_cons]; omega)
      List.mem_cons_self (by rw [Function.update_self]; exact Array.getElem?_push_size)
    rw [Function.update_self] at hrun₂ hobj₂
    have hφx : φ₂ x = s.objects.size := by
      rw [hagree₂ x List.mem_cons_self, Function.update_self]
    have hread : Runs (read reg f (target x)) s s.objects.size s₂ :=
      Runs.read hname (by rw [htag, hchildren, hitems]; exact hrun₂)
    have hrun := Runs.importObject_read h.status hnone (htag ▸ hwr) hread h₂.status
    have hobj : s₂.objects[φ₂ x]? = some { o with children := o.children.map φ₂ } := by
      rw [hφx]
      exact hobj₂
    have h₃ := (h₂.close ho hobj (hwl.mem)).reregister hT (hwl.subset List.mem_cons_self)
    rw [hφx] at h₃
    refine ⟨_, φ₂, hφx ▸ hrun, ?_, h₃, fun y hy => ?_, fun y hy => ?_⟩
    · exact hheld₂
    · have hyx : y ≠ x := fun e => hx (e ▸ hy)
      rw [hagree₂ y (List.mem_cons_of_mem _ hy), Function.update_of_ne hyx]
    · -- the objects still being read were made before `x`
      have hyv := h.open_sub hy
      have hyx : y ≠ x := fun e => hx (e ▸ hyv)
      have hkeep := hkeep₂ y (List.mem_cons_of_mem _ hy) hyx
      rw [Function.update_of_ne hyx] at hkeep
      show s₂.objects[φ y]? = _
      rw [hkeep]
      show (s.objects.push _)[φ y]? = _
      rw [Array.getElem?_push, if_neg (Nat.ne_of_lt (h.obj_lt y hyv))]

/-- **The import of children follows their walks**, appending their new objects in order to the
object being read. -/
theorem runs_importChildren
    (hT : ∀ y ∈ all, ∀ z ∈ all, target y = target z → y = z)
    (hreg : ∀ y ∈ all, ∀ o, objs[y]? = some o → ∃ w, reg.get? o.tag = some w) :
    ∀ {vis vis' xs : List ObjId} {vs : List Visit} {items : List Value},
      WalksList objs vis xs vs vis' →
      HoldsList objs G target list decl ref (fun c t => t = some (target c)) vs items → vis' ⊆ all →
      ∀ {opn : List ObjId} {φ : ObjId → ObjId} {s : Session} {fuel : Nat} {p : ObjId} {ob : Obj},
      ImportInv objs G target all vis opn φ s → all.length + 1 ≤ vis.length + fuel → p ∈ opn →
      s.objects[φ p]? = some ob →
      ∃ s' φ', Runs (importChildren reg fuel (φ p) items) s () s' ∧ s'.held = s.held ∧
        ImportInv objs G target all vis' opn φ' s' ∧ (∀ y ∈ vis, φ' y = φ y) ∧
        (∀ y ∈ opn, y ≠ p → s'.objects[φ y]? = s.objects[φ y]?) ∧
        s'.objects[φ p]? = some { ob with children := ob.children ++ xs.map φ' }
  | _, _, _, _, _, .nil, .nil, _, opn, φ, s, fuel, p, ob, h, _, _, hob =>
    ⟨s, φ, runs_importChildren_nil _ s, rfl, h, fun _ _ => rfl, fun _ _ _ => rfl, by simpa using hob⟩
  | vis, vis', x :: xs, _, w :: _, .cons h₁ h₂, .cons hv hvs, hall, opn, φ, s, fuel, p, ob,
      h, hfuel, hp, hob => by
    have hpv : p ∈ vis := h.open_sub hp
    have hxa : x ∈ all := hall (h₂.subset h₁.mem)
    -- the structure of the child is alive, and a handle holds it while it is imported
    have hres : s.graph.resolvedStructure s.alive w = some (target x) := by
      rw [h.graph]
      exact hv.resolvedStructure h₁ (h.session_alive hxa)
    obtain ⟨s₁, φ₁, hrun₁, hheld₁, hinv₁, hagree₁, hkeep₁⟩ :=
      runs_importObject hT hreg h₁ hv (fun y hy => hall (h₂.subset hy)) (h.hold (target x)) hfuel
    -- dropping the handle again leaves the handles of before
    have hdrop : s₁.held.erase (target x) = s.held := by rw [hheld₁, List.erase_cons_head]
    have hinv₁' := hinv₁.withHeld (s₁.held.erase (target x)) (by rw [hdrop]; exact h.alive)
    have hφp : φ₁ p = φ p := hagree₁ p hpv
    -- the new object of the child is appended to `p`
    have hob₁ : (s₁.objects.modify (φ₁ p) fun o => { o with children := o.children ++ [φ₁ x] })[φ₁ p]? =
        some { ob with children := ob.children ++ [φ₁ x] } := by
      rw [Array.getElem?_modify, if_pos rfl, hφp, hkeep₁ p hp, hob]
      rfl
    obtain ⟨s₂, φ₂, hrun₂, hheld₂, hinv₂, hagree₂, hkeep₂, hobj₂⟩ := runs_importChildren hT hreg h₂ hvs hall
      (hinv₁'.append hp (φ₁ x)) (Nat.le_trans hfuel (Nat.add_le_add_right h₁.length_le fuel)) hp hob₁
    rw [hφp] at hrun₂ hobj₂
    have hφx : φ₂ x = φ₁ x := hagree₂ x h₁.mem
    refine ⟨s₂, φ₂, Runs.importChildren_cons (Runs.importValue_of hres hrun₁) hrun₂,
      hheld₂.trans hdrop, hinv₂, fun y hy => ?_, fun y hy hyp => ?_, ?_⟩
    · rw [hagree₂ y (h₁.subset hy), hagree₁ y hy]
    · -- the other objects being read were made before, with other new objects than `p`
      have hyv := h.open_sub hy
      have hφy : φ₁ y = φ y := hagree₁ y hyv
      have hne : φ p ≠ φ y := fun e => hyp (h.obj_inj p hpv y hyv e).symm
      have hkeep := hkeep₂ y hy hyp
      rw [hφy] at hkeep
      rw [hkeep]
      show (s₁.objects.modify (φ₁ p) _)[φ y]? = _
      rw [Array.getElem?_modify, hφp, if_neg hne, hkeep₁ y hy]
    · rw [hobj₂, List.map_cons, hφx]
      simp
end

end SessionM

end GraphDoc
