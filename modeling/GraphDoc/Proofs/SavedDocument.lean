import GraphDoc.Proofs.SessionExport
import GraphDoc.Proofs.Flatten
import GraphDoc.Proofs.TextRoundTrip
/-! # The document an export saves

After the export of an object (`SessionM.runs_exportObject`), the document rooted at its
structure is the walk of the objects drawn as containers: the walk of the document graph from
that structure enters, for each object the object walk enters, its structure and then the list
of its children, and names the structure of each object the object walk reaches again
(`SessionM.ExportInv.walk_eq_shape`). That walk is `ObjGraph.Visit.shape`.

Written in either format, it reads back as one tree, `ObjGraph.Visit.tree`: a structure for each
object entered, with its tag, name and list of children, and a UID reference for each object
reached again. The binary reader reads it directly (`SessionM.ExportInv.ofBinary_binary`); the
text reader reads it because its text is the text of that tree planted afresh
(`SessionM.ExportInv.ofString_text`).
-/
namespace GraphDoc

namespace Graph

variable {g : Graph}

theorem eq_of_map_fst_snd {α β : Type} : ∀ {l₁ l₂ : List (α × β)},
    l₁.map Prod.fst = l₂.map Prod.fst → l₁.map Prod.snd = l₂.map Prod.snd → l₁ = l₂
  | [], [], _, _ => rfl
  | (a, b) :: l₁, (a', b') :: l₂, h₁, h₂ => by
    simp only [List.map_cons, List.cons.injEq] at h₁ h₂
    rw [h₁.1, h₂.1, eq_of_map_fst_snd h₁.2 h₂.2]
  | [], _ :: _, h, _ | _ :: _, [], h, _ => by simp at h

mutual
/-- **A walk is determined by where it starts.** -/
theorem Walks.det : ∀ {vis vis₁ vis₂ : Visited} {v : Value} {s₁ s₂ : Shape},
    g.Walks vis v s₁ vis₁ → g.Walks vis v s₂ vis₂ → s₁ = s₂ ∧ vis₁ = vis₂
  | _, _, _, _, _, _, .scalar .., .scalar .. => ⟨rfl, rfl⟩
  | _, _, _, _, _, _, .missing _ _ h, h₂ => by
    cases h₂ <;> simp_all
  | _, _, _, _, _, _, .again _ _ _ h hb hc, h₂ => by
    cases h₂ <;> simp_all
  | _, _, _, _, _, _, .leaf _ _ _ h hb, h₂ => by
    cases h₂ <;> simp_all [Node.isBranch]
  | _, _, _, _, _, _, .struct _ _ _ _ _ _ _ h hb hc hk hl, h₂ => by
    cases h₂ with
    | missing _ _ h' | again _ _ _ h' _ _ | leaf _ _ _ h' _ | list _ _ _ _ _ _ h' _ _ _ =>
      simp_all [Node.isBranch]
    | struct _ _ _ n' _ _ _ h' hb' hc' hk' hl' =>
      rw [h] at h'
      cases h'
      rw [hb] at hb'
      cases hb'
      obtain ⟨hs, rfl⟩ := WalksList.det hl hl'
      exact ⟨by rw [eq_of_map_fst_snd (hk.trans hk'.symm) hs], rfl⟩
  | _, _, _, _, _, _, .list _ _ _ _ _ _ h hb hc hl, h₂ => by
    cases h₂ with
    | missing _ _ h' | again _ _ _ h' _ _ | leaf _ _ _ h' _ | struct _ _ _ _ _ _ _ h' _ _ _ _ =>
      simp_all [Node.isBranch]
    | list _ _ _ n' _ _ h' hb' hc' hl' =>
      rw [h] at h'
      cases h'
      rw [hb] at hb'
      cases hb'
      obtain ⟨rfl, rfl⟩ := WalksList.det hl hl'
      exact ⟨rfl, rfl⟩

theorem WalksList.det : ∀ {vis vis₁ vis₂ : Visited} {vs : List Value} {ss₁ ss₂ : List Shape},
    g.WalksList vis vs ss₁ vis₁ → g.WalksList vis vs ss₂ vis₂ → ss₁ = ss₂ ∧ vis₁ = vis₂
  | _, _, _, _, _, _, .nil _, .nil _ => ⟨rfl, rfl⟩
  | _, _, _, _, _, _, .cons h₁ h₂, .cons h₁' h₂' => by
    obtain ⟨rfl, rfl⟩ := Walks.det h₁ h₁'
    obtain ⟨rfl, rfl⟩ := WalksList.det h₂ h₂'
    exact ⟨rfl, rfl⟩
end

/-- The walk from a structure is the walk that the relation gives. -/
theorem walk_eq_of_walks {id : NodeId} {s : Shape} {vis' : Visited}
    (h : g.Walks {} (.node id) s vis') : (g.walk {} id).1 = s :=
  (Walks.det (walks_walk visitedOk_empty id) h).1

end Graph

/-! ## The walk of an exported document -/

namespace ObjGraph

namespace Visit

variable (objs : Array Obj) (target list : ObjId → NodeId) (uid : ObjId → String)

mutual
/-- The walk of the exported document from the structure of an object whose object walk is
`v`: an object entered is its structure, entered, with its name and its list of children
entered; an object reached again is its structure, named. -/
def shape : Visit → Shape
  | .enter x vs =>
    .struct (target x) (objs[x]?.getD default).tag (uid x) 0
      [("name", .scalar (.str (objs[x]?.getD default).name) 0),
        ("children", .list (list x) "" 0 (shapes vs))]
  | .again x => .again (target x) ((objs[x]?.getD default).structNode (uid x) (list x))

/-- The walks from the structures of children, in order. -/
def shapes : List Visit → List Shape
  | [] => []
  | v :: vs => shape v :: shapes vs
end

/-- The UID the structure of an object is written with, `used` saying which UIDs the writer
declares: its own if declared, `#NULL` otherwise. -/
def declaredUid (used : String → Bool) (x : ObjId) : String :=
  if (uid x != nullUid && used (uid x)) = true then uid x else nullUid

mutual
/-- The tree the exported document reads back as, `used` saying which UIDs its writer declares:
each object entered is a structure with its tag, its UID if declared, its name and the list of
its children; each object reached again is a reference to its UID. -/
def tree (used : String → Bool) : Visit → Tree
  | .enter x vs =>
    .struct (objs[x]?.getD default).tag (declaredUid uid used x) 0
      [("name", .scalar (.str (objs[x]?.getD default).name) 0), ("children", .list "" 0 (trees used vs))]
  | .again x => .scalar (.uid (uid x) none) 0

/-- The trees of children, in order. -/
def trees (used : String → Bool) : List Visit → List Tree
  | [] => []
  | v :: vs => tree used v :: trees used vs
end

theorem isKey_name : Scan.isKey "name" = true := by decide +kernel

theorem isKey_children : Scan.isKey "children" = true := by decide +kernel

mutual
/-- The tree is writable as text when the tags of the objects entered are tags and the UIDs
given are spelled as UIDs. -/
theorem writable_tree (used : String → Bool) : ∀ v : Visit,
    (∀ y ∈ v.entered, Scan.isTag (objs[y]?.getD default).tag = true ∧ Scan.isUid (uid y) = true) →
    (∀ y ∈ v.repeats, Scan.isUid (uid y) = true) → (v.tree objs uid used).writable = true
  | .enter x vs, he, hr => by
    obtain ⟨htag, hu⟩ := he x (by simp [entered])
    have hkids := writableItems_trees used vs (fun y hy => he y (by simp [entered, hy]))
      (fun y hy => hr y (by simpa [repeats] using hy))
    have huid : (declaredUid uid used x == nullUid || Scan.isUid (declaredUid uid used x)) = true := by
      unfold declaredUid
      split <;> simp [hu]
    simp only [tree, Tree.writable, Tree.writablePairs, Tree.tagWritable, htag, Bool.or_true, huid,
      isKey_name, isKey_children, Scalar.writable, hkids, Bool.and_self]
    decide
  | .again x, _, hr => by
    simpa [tree, Tree.writable, Scalar.writable, repeats] using hr x

theorem writableItems_trees (used : String → Bool) : ∀ vs : List Visit,
    (∀ y ∈ enteredList vs, Scan.isTag (objs[y]?.getD default).tag = true ∧ Scan.isUid (uid y) = true) →
    (∀ y ∈ repeatsList vs, Scan.isUid (uid y) = true) →
    Tree.writableItems (trees objs uid used vs) = true
  | [], _, _ => rfl
  | v :: vs, he, hr => by
    simp only [trees, Tree.writableItems, Bool.and_eq_true]
    exact ⟨writable_tree used v (fun y hy => he y (by simp [enteredList, hy]))
        (fun y hy => hr y (by simp [repeatsList, hy])),
      writableItems_trees used vs (fun y hy => he y (by simp [enteredList, hy]))
        (fun y hy => hr y (by simp [repeatsList, hy]))⟩
end

theorem length_trees (used : String → Bool) (vs : List Visit) :
    (trees objs uid used vs).length = vs.length := by
  induction vs with
  | nil => rfl
  | cons v vs ih => simp [trees, ih]

/-- What the binary format needs of each object entered: its tag, UID and name fit a count, and
so does the number of its children. -/
def Fits (objs : Array Obj) (uid : ObjId → String) (y : ObjId) : Prop :=
  ∀ o, objs[y]? = some o → CountFits o.tag.utf8ByteSize = true ∧
    CountFits (uid y).utf8ByteSize = true ∧ CountFits o.name.utf8ByteSize = true ∧
    CountFits o.children.length = true

mutual
/-- The counts of the tree fit when those of the objects entered and of the UIDs of the objects
reached again do. -/
theorem countsFit_tree (used : String → Bool) : ∀ {vis vis' : List ObjId} {x : ObjId} {v : Visit},
    Walks objs vis x v vis' → (∀ y ∈ v.entered, Fits objs uid y) →
    (∀ y ∈ v.repeats, CountFits (uid y).utf8ByteSize = true) → (v.tree objs uid used).countsFit = true
  | _, _, _, _, .again _, _, hr => by simpa [tree, Tree.countsFit, repeats] using hr
  | _, _, x, _, .enter (o := o) _ ho hl, he, hr => by
    obtain ⟨ht, hu, hn, hc⟩ := he x (by simp [entered]) o ho
    have hkids := countsFitItems_trees used hl (fun y hy => he y (by simp [entered, hy]))
      (fun y hy => hr y (by simpa [repeats] using hy))
    have hW : CountFits (declaredUid uid used x).utf8ByteSize = true := by
      unfold declaredUid
      split
      · exact hu
      · decide
    simp only [tree, ho, Option.getD_some, Tree.countsFit, Tree.countsFitPairs, ht, hW, hn, hkids,
      length_trees, hl.length_eq, hc, Bool.and_true, Bool.true_and, List.length_cons,
      List.length_nil]
    decide

theorem countsFitItems_trees (used : String → Bool) :
    ∀ {vis vis' xs : List ObjId} {vs : List Visit}, WalksList objs vis xs vs vis' →
      (∀ y ∈ enteredList vs, Fits objs uid y) →
      (∀ y ∈ repeatsList vs, CountFits (uid y).utf8ByteSize = true) →
      Tree.countsFitItems (trees objs uid used vs) = true
  | _, _, _, _, .nil, _, _ => rfl
  | _, _, _, _, .cons h₁ h₂, he, hr => by
    simp only [trees, Tree.countsFitItems, Bool.and_eq_true]
    exact ⟨countsFit_tree used h₁ (fun y hy => he y (by simp [enteredList, hy]))
        (fun y hy => hr y (by simp [repeatsList, hy])),
      countsFitItems_trees used h₂ (fun y hy => he y (by simp [enteredList, hy]))
        (fun y hy => hr y (by simp [repeatsList, hy]))⟩
end

end Visit

/-- The containers the walk of an exported document has entered once the object walk has
entered `vis`: the list and the structure of each object, most recent first. -/
def containers (target list : ObjId → NodeId) (vis : List ObjId) : Visited :=
  ⟨vis.flatMap fun y => [list y, target y]⟩

namespace Visit

variable {objs : Array Obj} {target list : ObjId → NodeId} {uid : ObjId → String}

mutual
/-- **The exported document reads back as its tree**: the chunks of its walk read back as
`tree`, whatever UIDs the writer declares. -/
theorem written_shape (used : String → Bool) :
    ∀ v : Visit, (v.shape objs target list uid).written used = some (v.tree objs uid used)
  | .enter x vs => by
    simp [shape, tree, declaredUid, Shape.written, Shape.writtenPairs, Scalar.unlinked,
      writtenItems_shapes used vs]
  | .again x => by simp [shape, tree, Shape.written, Obj.structNode]

theorem writtenItems_shapes (used : String → Bool) :
    ∀ vs : List Visit, Shape.writtenItems used (shapes objs target list uid vs) = some (trees objs uid used vs)
  | [] => rfl
  | v :: vs => by
    simp [shapes, trees, Shape.writtenItems, written_shape used v, writtenItems_shapes used vs]
end

mutual
/-- The exported document is written with a reference to the UID of each object the walk
reaches again, in walk order, and no other. -/
theorem referenced_shape : ∀ v : Visit, (v.shape objs target list uid).referenced = v.repeats.map uid
  | .enter x vs => by
    simp [shape, Shape.referenced, Shape.referencedPairs, repeats, referencedItems_shapes vs]
  | .again x => by simp [shape, Shape.referenced, Obj.structNode, repeats]

theorem referencedItems_shapes :
    ∀ vs : List Visit, Shape.referencedItems (shapes objs target list uid vs) = (repeatsList vs).map uid
  | [] => rfl
  | v :: vs => by
    simp [shapes, Shape.referencedItems, repeatsList, referenced_shape v, referencedItems_shapes vs]
end

mutual
/-- Only structures are reached again in the exported document. -/
theorem repeatTags_shape : ∀ v : Visit, (v.shape objs target list uid).repeatTags = []
  | .enter x vs => by
    simp [shape, Shape.repeatTags, Shape.repeatTagsPairs, repeatTagsItems_shapes vs]
  | .again x => by simp [shape, Shape.repeatTags, Obj.structNode]

theorem repeatTagsItems_shapes :
    ∀ vs : List Visit, Shape.repeatTagsItems (shapes objs target list uid vs) = []
  | [] => rfl
  | v :: vs => by simp [shapes, Shape.repeatTagsItems, repeatTags_shape v, repeatTagsItems_shapes vs]
end

mutual
/-- The tree has no lines and no links. -/
theorem bare_tree (used : String → Bool) : ∀ v : Visit, (v.tree objs uid used).bare = v.tree objs uid used
  | .enter x vs => by
    simp [tree, Tree.bare, Tree.barePairs, Scalar.unlinked, bareItems_trees used vs]
  | .again x => by simp [tree, Tree.bare, Scalar.unlinked]

theorem bareItems_trees (used : String → Bool) :
    ∀ vs : List Visit, Tree.bareItems (trees objs uid used vs) = trees objs uid used vs
  | [] => rfl
  | v :: vs => by simp [trees, Tree.bareItems, bare_tree used v, bareItems_trees used vs]
end

mutual
/-- The tree keeps only UIDs that its writer declares, so dropping the others changes nothing. -/
theorem dropUids_tree (used : String → Bool) :
    ∀ v : Visit, (v.tree objs uid used).dropUids (fun u => !used u) = v.tree objs uid used
  | .enter x vs => by
    have hkeep : (if (!used (declaredUid uid used x)) = true then nullUid
        else declaredUid uid used x) = declaredUid uid used x := by
      unfold declaredUid
      by_cases hu : (uid x != nullUid && used (uid x)) = true
      · obtain ⟨hne, hused⟩ : uid x ≠ nullUid ∧ used (uid x) = true := by simpa using hu
        simp [hne, hused]
      · simp [hu]
    simp only [tree, Tree.dropUids, Tree.dropUidsPairs, dropUidsItems_trees used vs, hkeep]
  | .again x => rfl

theorem dropUidsItems_trees (used : String → Bool) :
    ∀ vs : List Visit, Tree.dropUidsItems (fun u => !used u) (trees objs uid used vs) = trees objs uid used vs
  | [] => rfl
  | v :: vs => by simp only [trees, Tree.dropUidsItems, dropUids_tree used v, dropUidsItems_trees used vs]
end

end Visit

end ObjGraph

namespace SessionM.ExportInv

open ObjGraph

variable {objs : Array Obj} {all : List ObjId} {target list : ObjId → NodeId}
  {uid : ObjId → String} {s : Session}

theorem contains_containers_iff {vis : List ObjId} {i : NodeId} :
    (containers target list vis).contains i = true ↔ ∃ y ∈ vis, i = list y ∨ i = target y := by
  simp [containers, Visited.contains, eq_comm]

/-- The structure of an object entered is among the containers exactly when the object is. -/
theorem contains_target (h : ExportInv objs all [] target list uid s) {vis : List ObjId}
    (hvis : vis ⊆ all) {x : ObjId} (hx : x ∈ all) :
    (containers target list vis).contains (target x) = true ↔ x ∈ vis := by
  rw [contains_containers_iff]
  constructor
  · rintro ⟨y, hy, hl | ht⟩
    · exact absurd hl (h.target_ne_list x hx y (hvis hy) List.not_mem_nil)
    · rwa [h.target_inj x hx y (hvis hy) ht]
  · exact fun hxv => ⟨x, hxv, .inr rfl⟩

/-- The list of an object entered is among the containers exactly when the object is. -/
theorem contains_list (h : ExportInv objs all [] target list uid s) {vis : List ObjId}
    (hvis : vis ⊆ all) {x : ObjId} (hx : x ∈ all) :
    (containers target list vis).contains (list x) = true ↔ x ∈ vis := by
  rw [contains_containers_iff]
  constructor
  · rintro ⟨y, hy, hl | ht⟩
    · rwa [h.list_inj x hx y (hvis hy) List.not_mem_nil List.not_mem_nil hl]
    · exact absurd ht.symm (h.target_ne_list y (hvis hy) x hx List.not_mem_nil)
  · exact fun hxv => ⟨x, hxv, .inl rfl⟩

mutual
/-- **The walk of the exported document follows the walk of the objects**: from the structure of
an object, with the containers of the objects entered before, it is the object walk drawn as
containers. -/
theorem walks_shape (h : ExportInv objs all [] target list uid s) :
    ∀ {vis vis' : List ObjId} {x : ObjId} {v : Visit}, Walks objs vis x v vis' → vis' ⊆ all →
      s.graph.Walks (containers target list vis) (.node (target x))
        (v.shape objs target list uid) (containers target list vis')
  | vis, _, x, _, .again hx, hall => by
    obtain ⟨o, ho, hn⟩ := h.struct_at x (hall hx) List.not_mem_nil
    have hshape : (Visit.again x).shape objs target list uid =
        .again (target x) (o.structNode (uid x) (list x)) := by
      simp [Visit.shape, ho]
    rw [hshape]
    exact .again _ _ _ hn rfl ((h.contains_target hall (hall hx)).2 hx)
  | vis, vis', x, .enter _ vs, .enter (o := o) hx ho hl, hall => by
    have hxa : x ∈ all := hall (hl.subset List.mem_cons_self)
    have hvis : vis ⊆ all := fun y hy => hall (hl.subset (List.mem_cons_of_mem _ hy))
    obtain ⟨o₁, ho₁, hn⟩ := h.struct_at x hxa List.not_mem_nil
    obtain ⟨o₂, ho₂, hlist⟩ := h.list_at x hxa List.not_mem_nil
    rw [ho] at ho₁ ho₂
    cases ho₁
    cases ho₂
    have hshape : (Visit.enter x vs).shape objs target list uid =
        .struct (target x) o.tag (uid x) 0 [("name", .scalar (.str o.name) 0),
          ("children", .list (list x) "" 0 (Visit.shapes objs target list uid vs))] := by
      simp [Visit.shape, ho]
    rw [hshape]
    -- the structure is entered, then its name, then its list with the children's walks
    have hnot : (containers target list vis).contains (target x) = false :=
      Bool.eq_false_iff.2 fun e => hx ((h.contains_target hvis hxa).1 e)
    have hnot' : ((containers target list vis).insert (target x)).contains (list x) = false := by
      have hne : list x ≠ target x := fun e => h.target_ne_list x hxa x hxa List.not_mem_nil e.symm
      rw [Visited.insert, Visited.contains, List.contains_cons, beq_false_of_ne hne, Bool.false_or]
      exact Bool.eq_false_iff.2 fun e => hx ((h.contains_list hvis hxa).1 e)
    have hkids := walksList_shapes h hl hall
    refine .struct _ _ _ (o.structNode (uid x) (list x)) (uid x) _ _ hn rfl hnot rfl ?_
    refine .cons (.scalar _ _ _) (.cons ?_ (.nil _))
    exact .list _ _ _ (o.listNode target) _ _ hlist rfl hnot' hkids

/-- The walks from the structures of children follow their object walks. -/
theorem walksList_shapes (h : ExportInv objs all [] target list uid s) :
    ∀ {vis vis' xs : List ObjId} {vs : List Visit}, WalksList objs vis xs vs vis' → vis' ⊆ all →
      s.graph.WalksList (containers target list vis) (xs.map fun c => .node (target c))
        (Visit.shapes objs target list uid vs) (containers target list vis')
  | _, _, _, _, .nil, _ => .nil _
  | _, _, _, _, .cons h₁ h₂, hall =>
    .cons (walks_shape h h₁ fun _ hy => hall (h₂.subset hy)) (walksList_shapes h h₂ hall)
end

/-- **The walk of the document an export leaves** from the structure of the root is the object
walk drawn as containers. -/
theorem walk_eq_shape (h : ExportInv objs all [] target list uid s) {x : ObjId} {v : Visit}
    (hw : Walks objs [] x v all) :
    (s.graph.walk {} (target x)).1 = v.shape objs target list uid :=
  Graph.walk_eq_of_walks (walks_shape h hw fun _ hy => hy)

/-- The walk of the document an export leaves is written as the tree of the object walk. -/
theorem written_walk (h : ExportInv objs all [] target list uid s) {x : ObjId} {v : Visit}
    (hw : Walks objs [] x v all) (used : String → Bool) :
    (s.graph.walk {} (target x)).1.written used = some (v.tree objs uid used) := by
  rw [h.walk_eq_shape hw]
  exact Visit.written_shape _ _

/-- **The binary form of an exported document reads back as its tree**, when its counts fit. -/
theorem ofBinary_binary (h : ExportInv objs all [] target list uid s) {x : ObjId} {v : Visit}
    (hw : Walks objs [] x v all)
    (hfit : (v.tree objs uid (Usage.declares (some (s.graph.usage (target x))))).countsFit = true) :
    Tree.ofBinary ⟨(s.graph.binary (target x)).toArray⟩ =
      .ok (v.tree objs uid (Usage.declares (some (s.graph.usage (target x))))) := by
  obtain ⟨vs, rfl⟩ := hw.eq_enter_of_nil
  have hs := h.walk_eq_shape hw
  have hwritten := h.written_walk hw (Usage.declares (some (s.graph.usage (target x))))
  exact Graph.ofBinary_binaryWith_written _ hs hwritten hfit

/-- **The text of an exported document reads back as its tree**, lines and links aside, when the
tree is writable: its text is the text of the tree planted afresh. -/
theorem ofString_text (h : ExportInv objs all [] target list uid s) {x : ObjId} {v : Visit}
    (hw : Walks objs [] x v all) (htag : Scan.isTag (objs[x]?.getD default).tag = true)
    (hwr : (v.tree objs uid (Usage.declares (some (s.graph.usage (target x))))).writable = true) :
    ∃ p, Parsed.ofString (s.graph.text (target x)) = .ok p ∧
      p.root.bare = v.tree objs uid (Usage.declares (some (s.graph.usage (target x)))) := by
  obtain ⟨vs, rfl⟩ := hw.eq_enter_of_nil
  have hs := h.walk_eq_shape hw
  have hwritten := h.written_walk hw (Usage.declares (some (s.graph.usage (target x))))
  have hlists : ∀ t ∈ (s.graph.walk {} (target x)).1.repeatTags, t = "" := by
    simp [hs, Visit.repeatTags_shape]
  rw [← Graph.text_plantRoot_written hs hwritten hlists]
  obtain ⟨p, hp, -, hroot⟩ := Graph.ofString_textWith_usage _ (Graph.mirrors_walk_plantRoot {} _ _ _ _)
    htag hwr (o := {}) (by decide)
  rw [Graph.declares_usage_plantRoot_written hs hwritten] at hroot
  -- the tree read back keeps exactly the UIDs it declares
  have hkeep : ((Visit.enter x vs).tree objs uid (Usage.declares (some (s.graph.usage (target x))))).bare.dropUids
      (fun u => !Usage.declares (some (s.graph.usage (target x))) u) =
      (Visit.enter x vs).tree objs uid (Usage.declares (some (s.graph.usage (target x)))) := by
    rw [Visit.bare_tree, Visit.dropUids_tree]
  exact ⟨p, hp, hroot.trans hkeep⟩

end SessionM.ExportInv

/-! ## Saving -/

namespace SessionM

open ObjGraph

variable {reg : Registry}

theorem runs_reset (s : Session) : Runs reset s () s.reset := runs_modify _ s

/-- **Exporting a document follows the walk of the objects from its root.** When every object
reachable from the root has the plain writer, the export succeeds from any session and leaves the
invariant of a finished export over every object the walk enters, each object the walk reaches
again with a UID. -/
theorem runs_exportDocument {s : Session} {x : ObjId} {v : Visit} {all : List ObjId}
    (hw : Walks s.objects [] x v all)
    (hreg : ∀ y o, Reaches s.objects x y → s.objects[y]? = some o → reg.get? o.tag = some .plain) :
    ∃ s' target list uid, Runs (exportDocument reg x) s (target x) s' ∧
      ExportInv s.objects all [] target list uid s' ∧ ∀ y ∈ v.repeats, uid y ≠ nullUid := by
  -- a reset session has exported nothing
  have h₀ : ExportInv s.objects [] [] (fun _ => 0) (fun _ => 0) (fun _ => nullUid) s.reset := by
    refine ⟨rfl, rfl, rfl, List.nodup_nil, fun _ h => h, fun y => ?_, ?_, ?_, ?_, ?_, ?_, ?_, ?_,
      ?_, ?_, ?_, ?_, rfl⟩ <;> simp [Session.reset]
  obtain ⟨s', target, list, uid, hrun, hinv, -, hrep⟩ := runs_exportObject hreg hw .root h₀
    (show s.objects.size + 1 ≤ [].length + (s.reset.objects.size + 1) by simp [Session.reset])
  exact ⟨s', target, list, uid, (runs_reset s).bind ((runs_get _).bind hrun), hinv, hrep⟩

theorem Runs.saveText {s s' : Session} {x : ObjId} {root : NodeId}
    (h : Runs (exportDocument reg x) s root s') : Runs (saveText reg x) s (s'.graph.text root) s' :=
  h.bind ((runs_get s').bind (runs_pure _ _))

theorem Runs.saveBinary {s s' : Session} {x : ObjId} {root : NodeId}
    (h : Runs (exportDocument reg x) s root s') :
    Runs (saveBinary reg x) s ⟨(s'.graph.binary root).toArray⟩ s' :=
  h.bind ((runs_get s').bind (runs_pure _ _))

end SessionM

end GraphDoc
