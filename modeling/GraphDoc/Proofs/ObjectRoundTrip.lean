import GraphDoc.Proofs.SessionImport
/-! # Saving and loading keep the object graph

Saving an object exports the objects reachable from it into a document, one structure for each
object, and writes the document as text or in the binary format; loading reads the document
back, links its UID references, and imports its root afresh. The two follow the same walk of the
objects: the export leaves a document whose tree is the walk's (`ExportInv.ofString_text`,
`ExportInv.ofBinary_binary`), the graph that reading plants holds the walk
(`ObjGraph.holds_plant`), linking ties every reference to the structure of its object
(`ObjGraph.Holds.link`), and the import follows the walk held (`SessionM.runs_importObject`).
So the objects loaded copy the objects saved, with their sharing and cycles: `ObjGraph.Iso`.

The binary format counts bytes and items with 63 bits; a generated UID is a few bytes longer than
its tag and the number of objects exported before it (`utf8ByteSize_uidText_le`).
-/
namespace GraphDoc

/-! ## The size of a generated UID -/

/-- Name characters are ASCII, one byte each. -/
theorem utf8Size_of_isNameChar {c : Char} (h : Scan.isNameChar c = true) : c.utf8Size = 1 := by
  rw [Char.utf8Size_eq_one_iff]
  simp only [Scan.isNameChar, Char.isAlphanum, Char.isAlpha, Char.isUpper, Char.isLower,
    Char.isDigit, Bool.or_eq_true, Bool.and_eq_true, decide_eq_true_eq, beq_iff_eq] at h
  rcases h with ((⟨-, h⟩ | ⟨-, h⟩) | ⟨-, h⟩) | rfl
  all_goals first
    | decide
    | exact UInt32.le_iff_toNat_le.2 (Nat.le_trans (UInt32.le_iff_toNat_le.1 h) (by decide))

theorem utf8Len_of_utf8Size_one {l : List Char} (h : ∀ c ∈ l, c.utf8Size = 1) :
    String.utf8Len l = l.length := by
  induction l with
  | nil => rfl
  | cons c l ih =>
    rw [String.utf8Len_cons, h c List.mem_cons_self, ih fun d hd => h d (List.mem_cons_of_mem _ hd)]
    rfl

theorem length_le_utf8Len (l : List Char) : l.length ≤ String.utf8Len l := by
  induction l with
  | nil => exact Nat.le_refl 0
  | cons c l ih =>
    rw [String.utf8Len_cons, List.length_cons]
    exact Nat.add_le_add ih (Char.utf8Size_pos c)

theorem utf8ByteSize_eq_utf8Len (s : String) : s.utf8ByteSize = String.utf8Len s.toList := by
  conv_lhs => rw [← String.ofList_toList (s := s)]
  exact String.utf8ByteSize_ofList _

/-- **A generated UID is at most its counter and three bytes longer than its tag**: `#`, the
name of the tag in lower case and `_`, `id`, and the decimal digits of the counter. -/
theorem utf8ByteSize_uidText_le {tag : String} (htag : Scan.isTag tag = true) (k : Nat) :
    (uidText tag k).utf8ByteSize ≤ tag.utf8ByteSize + k + 3 := by
  obtain ⟨name, hne, hn, htl⟩ := Scan.isTag_spec htag
  have hdigits : (Nat.toDigits 10 k).length ≤ k + 1 :=
    Nat.toDigits_length 10 k (k + 1) (Nat.succ_pos k)
      ((Nat.lt_succ_self k).trans (Nat.lt_pow_self (by decide : 1 < 10)))
  -- the name in lower case and the digits are ASCII
  have hlow : String.utf8Len (name.map Char.toLower) = name.length := by
    rw [utf8Len_of_utf8Size_one fun c hc => ?_, List.length_map]
    obtain ⟨d, hd, rfl⟩ := List.mem_map.1 hc
    exact utf8Size_of_isNameChar (isNameChar_toLower (hn d hd))
  have hdig : String.utf8Len (Nat.toDigits 10 k) = (Nat.toDigits 10 k).length :=
    utf8Len_of_utf8Size_one fun c hc => by
      have hc' := Ieee.Literal.isDigit_of_mem_toDigits hc
      exact utf8Size_of_isNameChar (by simp [Scan.isNameChar, Char.isAlphanum, hc'])
  have htag' : tag.utf8ByteSize = String.utf8Len name + 2 := by
    rw [utf8ByteSize_eq_utf8Len, htl, String.utf8Len_cons, String.utf8Len_append,
      String.utf8Len_cons, String.utf8Len_nil, show ('<' : Char).utf8Size = 1 by decide,
      show ('>' : Char).utf8Size = 1 by decide]
  have hunder : String.utf8Len "_".toList = 1 := by decide
  rw [utf8ByteSize_eq_utf8Len, toList_uidText, uidPrefix_of_toList hne hn htl]
  simp only [String.utf8Len_cons, String.utf8Len_append, String.toList_append, String.toList_ofList,
    hlow, hdig, hunder, String.utf8Len_nil, show ('#' : Char).utf8Size = 1 by decide,
    show ('i' : Char).utf8Size = 1 by decide, show ('d' : Char).utf8Size = 1 by decide]
  have := length_le_utf8Len name
  omega

/-! ## The steps of a load -/

namespace SessionM

variable {reg : Registry}

theorem runs_liftError_ok {α : Type} (a : α) (s : Session) : Runs (liftError (.ok a)) s a s := rfl

theorem runs_plant {t : Tree} {s : Session} {g : Graph} {root : NodeId}
    (h : s.graph.plantRoot t = (g, root)) : Runs (plant t) s root { s with graph := g } := by
  unfold plant
  refine (runs_get s).bind ?_
  simp only [h]
  exact (runs_set _ _).bind (runs_pure _ _)

theorem runs_linkRoot {root : NodeId} {s : Session} {g : Graph}
    (h : s.graph.link root = (g, .ok ())) : Runs (linkRoot root) s () { s with graph := g } := by
  unfold linkRoot
  refine (runs_get s).bind ?_
  simp only [h]
  exact (runs_set _ _).bind (runs_liftError_ok () _)

/-- A load starts the session afresh and imports the root with one more unit of fuel than the
graph has containers. -/
theorem Runs.importDocument {st : NodeId} {o : ObjId} {s s' : Session}
    (h : Runs (importObject reg (s.graph.size + 1) st) s.reset o s') :
    Runs (importDocument reg st) s o s' :=
  (runs_reset s).bind ((runs_get _).bind h)

/-- Bytes that start with the signature are loaded as the binary format. -/
theorem Runs.loadBytes_binary {bytes : ByteArray} {o : ObjId} {s s' : Session}
    (hb : Wire.isBinary bytes = true) (h : Runs (loadBinary reg bytes) s o s') :
    Runs (loadBytes reg bytes) s o s' := by
  rw [loadBytes, if_pos hb]
  exact h

end SessionM

/-- The binary form of a document starts with the signature. -/
theorem Graph.isBinary_binary (g : Graph) (root : NodeId) :
    Wire.isBinary ⟨(g.binary root).toArray⟩ = true := by
  rw [Wire.isBinary, byteArray_toList]
  show Wire.magic.isPrefixOf (g.binary root).toArray.toList = true
  rw [List.toList_toArray, Graph.binary, binaryWith_eq, List.isPrefixOf_iff_prefix, Wire.header]
  exact List.prefix_append_of_prefix (List.prefix_append_of_prefix
    (List.prefix_append_of_prefix (List.prefix_append_of_prefix (List.prefix_append _ _))))

/-! ## Loading a document that holds an object walk -/

namespace ObjGraph.Visit

variable {uid : ObjId → String} {used : String → Bool}

/-- A UID written with the structure of an object is its own. -/
theorem declaredUid_eq {y : ObjId} (h : declaredUid uid used y ≠ nullUid) :
    declaredUid uid used y = uid y := by
  unfold declaredUid at h ⊢
  split
  · rfl
  · exact absurd (by rw [if_neg ‹_›]) h

end ObjGraph.Visit

/-- The walk from an object entered is held from the structure of the object. -/
theorem ObjGraph.Holds.eq_node {objs : Array Obj} {g : Graph} {target list : ObjId → NodeId}
    {decl ref : ObjId → String} {linked : ObjId → Option NodeId → Prop} {x : ObjId}
    {vs : List ObjGraph.Visit} {w : Value}
    (h : ObjGraph.Holds objs g target list decl ref linked (.enter x vs) w) : w = .node (target x) := by
  cases h
  rfl

namespace SessionM

open ObjGraph

variable {reg : Registry} {objs : Array Obj}

/-- **Importing a linked document that holds an object walk from its root copies the objects
walked.** The import of the root succeeds from any session on that graph that holds the root,
when the structures of distinct objects are distinct and every tag has an importer, and the new
objects are isomorphic to the objects reachable from the root. -/
theorem runs_importDocument {G : Graph} {target list : ObjId → NodeId} {decl ref : ObjId → String}
    {x : ObjId} {v : Visit} {all : List ObjId} (hw : Walks objs [] x v all)
    (hh : Holds objs G target list decl ref (fun c t => t = some (target c)) v (.node (target x)))
    (hT : ∀ y ∈ all, ∀ z ∈ all, target y = target z → y = z)
    (hreg : ∀ y ∈ all, ∀ o, objs[y]? = some o → ∃ w, reg.get? o.tag = some w)
    {s : Session} (hg : s.graph = G) (hroot : target x ∈ s.held) :
    ∃ s' f, Runs (importDocument reg (target x)) s (f x) s' ∧ Iso objs x s'.objects (f x) f := by
  have hmem := hw.mem_vis_iff
  have hreach : ∀ y, Reaches objs x y ↔ y ∈ all := fun y => (hw.mem_iff_reaches y).symm
  have hlt : ∀ y ∈ all, target y < G.size := by
    intro y hy
    obtain ⟨o, line, line₁, line₂, items, -, hs, -, -⟩ :=
      hh.held (List.Subset.refl _) (List.Subset.refl _) y ((hmem y).1 hy)
    exact Graph.lt_size_of_get? hs
  -- the structures of the objects are distinct containers of the graph, so the fuel suffices
  have hlen : all.length ≤ G.size := by
    have hnd : (all.map target).Nodup := List.Nodup.map_on hT (hw.nodup List.nodup_nil)
    have hsub : (all.map target).Subperm (List.range G.size) := hnd.subperm fun i hi => by
      obtain ⟨y, hy, rfl⟩ := List.mem_map.1 hi
      exact List.mem_range.2 (hlt y hy)
    simpa using hsub.length_le
  -- the structures hang from the root, which the session holds
  have halive : ∀ y ∈ all, G.live s.held (target y) = true := by
    intro y hy
    have hr : G.Reaches [target x] (target y) :=
      (hh.reaches (fun id hid => by cases hid; exact .root List.mem_cons_self) y ((hmem y).1 hy)).1
    exact G.live_of_reaches (List.cons_subset.2 ⟨hroot, List.nil_subset _⟩) hr (hlt y hy)
  have h₀ : ImportInv objs G target all [] [] (fun _ => 0) s.reset :=
    ⟨hg, rfl, List.nodup_nil, List.nil_subset _, List.nil_subset _,
      fun y _ => by simp [Session.reset], by simp, by simp, by simp, by simp, halive⟩
  obtain ⟨s', f, hrun, -, hinv, -, -⟩ := runs_importObject hT hreg hw hh (List.Subset.refl _) h₀
    (show all.length + 1 ≤ [].length + (s.graph.size + 1) by rw [hg]; simp only [List.length_nil]; omega)
  refine ⟨s', f, Runs.importDocument hrun, ?_⟩
  -- every object reachable from the root was entered, and its new object is closed
  have hmap : ∀ y o, Reaches objs x y → objs[y]? = some o →
      s'.objects[f y]? = some { o with children := o.children.map f } := by
    intro y o hy ho
    obtain ⟨o', ho', hobj⟩ := hinv.closed_at y ((hreach y).1 hy) List.not_mem_nil
    rw [ho] at ho'
    cases ho'
    exact hobj
  have hvalid : ∀ y, Reaches objs x y → ∃ o, objs[y]? = some o :=
    fun y hy => hw.valid y ((hmem y).1 ((hreach y).1 hy))
  exact ⟨rfl, fun y z hy hz hyz => hinv.obj_inj y ((hreach y).1 hy) z ((hreach z).1 hz) hyz, hmap,
    onto_of_map_obj hmap hvalid⟩

/-- **Loading the tree of an object walk rebuilds the objects walked.** Planting a tree whose
bare form is the tree of the walk from `x` into any session, linking it and importing its root
while holding it succeed, and the new objects are isomorphic to the objects reachable from `x`,
when the objects walked with a UID have distinct UIDs, each object reached again has a UID that
its structure declares, and every tag has an importer. -/
theorem loads_tree {x : ObjId} {v : Visit} {all : List ObjId} {uid : ObjId → String}
    {used : String → Bool} (hw : Walks objs [] x v all) {t : Tree} (hb : t.bare = v.tree objs uid used)
    (huid : ∀ y ∈ all, ∀ z ∈ all, uid y = uid z → uid y ≠ nullUid → y = z)
    (hrep : ∀ c ∈ v.repeats, used (uid c) = true ∧ uid c ≠ nullUid)
    (hreg : ∀ y ∈ all, ∀ o, objs[y]? = some o → ∃ w, reg.get? o.tag = some w) (s : Session) :
    ∃ root g G s' f, Runs (plant t) s root { s with graph := g } ∧
      Runs (linkRoot root) { s with graph := g } () { s with graph := G } ∧
      Runs (withHandle root (importDocument reg root)) { s with graph := G } (f x) s' ∧
      Iso objs x s'.objects (f x) f := by
  have hmem := hw.mem_vis_iff
  have hnd : v.entered.Nodup := by
    have hall := hw.nodup List.nodup_nil
    rw [hw.vis_eq, List.append_nil, List.nodup_reverse] at hall
    exact hall
  obtain ⟨vs, rfl⟩ := hw.eq_enter_of_nil
  obtain ⟨target, list, hh, -, -, hinj⟩ :=
    holds_plant (.enter x vs) t s.graph (fun _ => 0) (fun _ => 0) hb hnd hw.valid
  -- the planted value is the structure of the root
  have hroot := hh.eq_node
  rw [hroot] at hh
  have hplant : s.graph.plantRoot t = ((s.graph.plant t).1, target x) := by
    unfold Graph.plantRoot
    rw [show s.graph.plant t = ((s.graph.plant t).1, .node (target x)) from Prod.ext rfl hroot]
  -- the UIDs written are those of the objects, and those referred to are declared
  have hdecl : ∀ y ∈ (Visit.enter x vs).entered, ∀ z ∈ (Visit.enter x vs).entered,
      Visit.declaredUid uid used y = Visit.declaredUid uid used z →
      Visit.declaredUid uid used y ≠ nullUid → y = z := by
    intro y hy z hz hyz hne
    have hy' := Visit.declaredUid_eq hne
    have hz' := Visit.declaredUid_eq (hyz ▸ hne)
    exact huid y ((hmem y).2 hy) z ((hmem z).2 hz) (hy'.symm.trans (hyz.trans hz')) (hy' ▸ hne)
  have hrep' : ∀ c ∈ (Visit.enter x vs).repeats, c ∈ (Visit.enter x vs).entered ∧
      Visit.declaredUid uid used c = uid c ∧ uid c ≠ nullUid := by
    intro c hc
    obtain ⟨hused, hnull⟩ := hrep c hc
    refine ⟨(hmem c).1 (hw.repeats_subset c hc), ?_, hnull⟩
    unfold Visit.declaredUid
    rw [if_pos (by simp [hnull, hused])]
  obtain ⟨hok, hlinked⟩ := hh.link (by simp [Visit.entered]) hdecl hrep'
  obtain ⟨s', f, hrun, hiso⟩ := runs_importDocument hw hlinked
    (fun y hy z hz => hinj y ((hmem y).1 hy) z ((hmem z).1 hz)) hreg
    (s := { s with graph := ((s.graph.plant t).1.link (target x)).1, held := target x :: s.held }) rfl
    List.mem_cons_self
  exact ⟨target x, _, _, _, f, runs_plant hplant, runs_linkRoot (Prod.ext rfl hok), hrun.withHandle,
    hiso⟩

end SessionM

/-! ## What an export gives the load -/

namespace ObjGraph

/-- What the binary format needs of the objects reachable from `root`: their names and numbers
of children fit its 63-bit counts, and their tags and the number of objects of the session are
below `2 ^ 60`, which leaves room in a count for the UIDs generated from the tags. -/
def BinaryFits (objs : Array Obj) (root : ObjId) : Prop :=
  objs.size < 2 ^ 60 ∧ ∀ y o, Reaches objs root y → objs[y]? = some o →
    o.tag.utf8ByteSize < 2 ^ 60 ∧ o.name.utf8ByteSize < 2 ^ 63 ∧ o.children.length < 2 ^ 63

end ObjGraph

namespace SessionM.ExportInv

open ObjGraph

variable {objs : Array Obj} {all : List ObjId} {target list : ObjId → NodeId}
  {uid : ObjId → String} {s : Session}

/-- The exported document refers to the UID of each object reached again, so its writers declare
it. -/
theorem declares_repeat (h : ExportInv objs all [] target list uid s) {x : ObjId} {v : Visit}
    (hw : Walks objs [] x v all) {c : ObjId} (hc : c ∈ v.repeats) (hnull : uid c ≠ nullUid) :
    Usage.declares (some (s.graph.usage (target x))) (uid c) = true := by
  rw [Graph.declares_usage, h.walk_eq_shape hw, Visit.referenced_shape]
  simp [hnull]
  exact ⟨c, hc, rfl⟩

/-- The UIDs given are spelled as UIDs when the tags are spelled as tags. -/
theorem isUid_uid (h : ExportInv objs all [] target list uid s)
    (htag : ∀ y ∈ all, ∀ o, objs[y]? = some o → Scan.isTag o.tag = true) {y : ObjId}
    (hy : y ∈ all) : Scan.isUid (uid y) = true := by
  rcases h.uid_gen y hy with hnull | ⟨o, k, ho, -, hk⟩
  · rw [hnull]
    decide
  · rw [hk]
    exact isUid_uidText (htag y hy o ho) k

/-- The UIDs given fit a count of the binary format when the tags and the number of objects are
below `2 ^ 60`: the counter is at most the number of objects entered. -/
theorem countFits_uid (h : ExportInv objs all [] target list uid s) (hlen : all.length ≤ objs.size)
    (hsize : objs.size < 2 ^ 60)
    (htag : ∀ y ∈ all, ∀ o, objs[y]? = some o → Scan.isTag o.tag = true ∧ o.tag.utf8ByteSize < 2 ^ 60)
    {y : ObjId} (hy : y ∈ all) : CountFits (uid y).utf8ByteSize = true := by
  rcases h.uid_gen y hy with hnull | ⟨o, k, ho, hk, hu⟩
  · rw [hnull]
    decide
  · have hcount : s.uidCounter ≤ objs.size := h.uid_count ▸ List.countP_le_length.trans hlen
    obtain ⟨htg, hts⟩ := htag y hy o ho
    have hle := utf8ByteSize_uidText_le htg k
    rw [hu]
    unfold CountFits
    exact decide_eq_true (by omega)

end SessionM.ExportInv

/-! ## Saving and loading -/

namespace ObjGraph

section Savable

variable {reg : Registry} {objs : Array Obj} {x : ObjId}

/-- Each object reachable from a savable root has a tag spelled as a tag, with the plain
writer. -/
theorem Savable.of_reaches (hsav : Savable objs reg x) {y : ObjId} {o : Obj} (hy : Reaches objs x y)
    (ho : objs[y]? = some o) : reg.get? o.tag = some .plain ∧ Scan.isTag o.tag = true := by
  obtain ⟨o', ho', hp, ht⟩ := hsav y hy
  rw [ho] at ho'
  cases ho'
  exact ⟨hp, ht⟩

/-- What a savable root gives about the objects a walk from it enters: their tags are spelled as
tags and have the plain writer, and they are at most as many as the objects of the session. -/
theorem Savable.facts (hsav : Savable objs reg x) {v : Visit} {all : List ObjId}
    (hw : Walks objs [] x v all) :
    (∀ y ∈ all, ∀ o, objs[y]? = some o → reg.get? o.tag = some .plain ∧ Scan.isTag o.tag = true) ∧
      all.length ≤ objs.size := by
  refine ⟨fun y hy o ho => Savable.of_reaches hsav ((hw.mem_iff_reaches y).1 hy) ho,
    length_le_of_lt (hw.nodup List.nodup_nil) fun y hy => ?_⟩
  obtain ⟨o, ho, -⟩ := hsav y ((hw.mem_iff_reaches y).1 hy)
  exact (Array.getElem?_eq_some_iff.1 ho).1

end Savable

end ObjGraph

namespace SessionM

open ObjGraph

variable {reg : Registry} {objs : Array Obj} {x : ObjId}

variable {all : List ObjId} {target list : ObjId → NodeId} {uid : ObjId → String} {s : Session}

/-- Loading a tree that reads as the tree of an exported walk, into any session, rebuilds the
objects exported. -/
theorem loads_exported (hsav : Savable objs reg x) {v : Visit} (hw : Walks objs [] x v all)
    (h : ExportInv objs all [] target list uid s) (hrep : ∀ y ∈ v.repeats, uid y ≠ nullUid)
    {t : Tree} (hb : t.bare = v.tree objs uid (Usage.declares (some (s.graph.usage (target x)))))
    (t₀ : Session) :
    ∃ root g G t' f, Runs (plant t) t₀ root { t₀ with graph := g } ∧
      Runs (linkRoot root) { t₀ with graph := g } () { t₀ with graph := G } ∧
      Runs (withHandle root (importDocument reg root)) { t₀ with graph := G } (f x) t' ∧
      Iso objs x t'.objects (f x) f :=
  loads_tree hw hb h.uid_inj (fun c hc => ⟨h.declares_repeat hw hc (hrep c hc), hrep c hc⟩)
    (fun y hy o ho => ⟨_, ((Savable.facts hsav hw).1 y hy o ho).1⟩) t₀

/-- **Loading the text an export leaves rebuilds the objects exported**, into any session. -/
theorem loads_text (hsav : Savable objs reg x) {v : Visit} (hw : Walks objs [] x v all)
    (h : ExportInv objs all [] target list uid s) (hrep : ∀ y ∈ v.repeats, uid y ≠ nullUid)
    (t : Session) :
    ∃ x' t' f, Runs (loadText reg (s.graph.text (target x))) t x' t' ∧ Iso objs x t'.objects x' f := by
  obtain ⟨hobjs, -⟩ := Savable.facts hsav hw
  have hmem : ∀ y, y ∈ v.entered ↔ y ∈ all := fun y => (hw.mem_vis_iff y).symm
  have huid : ∀ y ∈ all, Scan.isUid (uid y) = true :=
    fun y hy => h.isUid_uid (fun y hy o ho => (hobjs y hy o ho).2) hy
  have htag : ∀ y ∈ all, Scan.isTag (objs[y]?.getD default).tag = true := by
    intro y hy
    obtain ⟨o, ho⟩ := hw.valid y ((hmem y).2 hy)
    rw [ho]
    exact (hobjs y hy o ho).2
  have hx : x ∈ all := hw.mem
  -- the text reads back as the tree of the walk
  obtain ⟨p, hp, hroot⟩ := h.ofString_text hw (htag x hx)
    (Visit.writable_tree objs uid _ v (fun y hy => ⟨htag y ((hmem y).1 hy), huid y ((hmem y).1 hy)⟩)
      fun y hy => huid y (hw.repeats_subset y hy))
  obtain ⟨root, g, G, t', f, hplant, hlink, himport, hiso⟩ := loads_exported hsav hw h hrep hroot t
  have hparse : Runs (parseText (s.graph.text (target x))) t root { t with graph := g } := by
    unfold parseText
    rw [hp]
    exact (runs_liftError_ok p t).bind hplant
  have hread : Runs (readLinked (s.graph.text (target x))) t root { t with graph := G } := by
    unfold readLinked
    exact hparse.bind (hlink.bind (runs_pure _ _))
  exact ⟨f x, t', f, hread.bind himport, hiso⟩

/-- **Loading the bytes of the binary form an export leaves rebuilds the objects exported**, into
any session, when the objects fit the counts of the format. -/
theorem loads_bytes (hsav : Savable objs reg x) (hfits : BinaryFits objs x) {v : Visit}
    (hw : Walks objs [] x v all) (h : ExportInv objs all [] target list uid s)
    (hrep : ∀ y ∈ v.repeats, uid y ≠ nullUid) (t : Session) :
    ∃ x' t' f, Runs (loadBytes reg ⟨(s.graph.binary (target x)).toArray⟩) t x' t' ∧
      Iso objs x t'.objects x' f := by
  obtain ⟨hobjs, hlen⟩ := Savable.facts hsav hw
  obtain ⟨hsize, hcounts⟩ := hfits
  have hmem : ∀ y, y ∈ v.entered ↔ y ∈ all := fun y => (hw.mem_vis_iff y).symm
  have hcount : ∀ y ∈ all, ∀ o, objs[y]? = some o → o.tag.utf8ByteSize < 2 ^ 60 ∧
      o.name.utf8ByteSize < 2 ^ 63 ∧ o.children.length < 2 ^ 63 :=
    fun y hy o ho => hcounts y o ((hw.mem_iff_reaches y).1 hy) ho
  have huid : ∀ y ∈ all, CountFits (uid y).utf8ByteSize = true :=
    fun y hy => h.countFits_uid hlen hsize
      (fun y hy o ho => ⟨(hobjs y hy o ho).2, (hcount y hy o ho).1⟩) hy
  -- the bytes read back as the tree of the walk
  have hfit : (v.tree objs uid (Usage.declares (some (s.graph.usage (target x))))).countsFit = true := by
    refine Visit.countsFit_tree objs uid _ hw (fun y hy o ho => ?_) fun y hy => huid y (hw.repeats_subset y hy)
    obtain ⟨ht, hn, hc⟩ := hcount y ((hmem y).1 hy) o ho
    exact ⟨decide_eq_true (by omega), huid y ((hmem y).1 hy), decide_eq_true hn, decide_eq_true hc⟩
  obtain ⟨root, g, G, t', f, hplant, hlink, himport, hiso⟩ :=
    loads_exported hsav hw h hrep (Visit.bare_tree _ v) t
  have hload : Runs (loadBinary reg ⟨(s.graph.binary (target x)).toArray⟩) t (f x) t' := by
    unfold loadBinary
    rw [h.ofBinary_binary hw hfit]
    exact (runs_liftError_ok _ t).bind (hplant.bind (hlink.bind himport))
  exact ⟨f x, t', f, Runs.loadBytes_binary (Graph.isBinary_binary _ _) hload, hiso⟩

end SessionM

namespace ObjGraph

/-- An object reachable from a root is an object of the session when the root is and every
object's children are. -/
theorem Reaches.lt_size {objs : Array Obj} {root y : ObjId} (hroot : root < objs.size)
    (hkids : ∀ i (hi : i < objs.size), ∀ c ∈ objs[i].children, c < objs.size)
    (h : Reaches objs root y) : y < objs.size := by
  induction h with
  | root => exact hroot
  | child _ ho hc _ =>
    obtain ⟨hx, rfl⟩ := Array.getElem?_eq_some_iff.1 ho
    exact hkids _ hx _ hc

/-- A root is savable when every object of the session has its children among the objects and
a tag spelled as a tag, with the plain writer. -/
theorem savable_of_forall {reg : Registry} {objs : Array Obj} {root : ObjId}
    (hroot : root < objs.size)
    (h : ∀ i (hi : i < objs.size), reg.get? objs[i].tag = some .plain ∧
      Scan.isTag objs[i].tag = true ∧ ∀ c ∈ objs[i].children, c < objs.size) :
    Savable objs reg root := by
  intro y hy
  have hlt := hy.lt_size hroot fun i hi => (h i hi).2.2
  exact ⟨objs[y], Array.getElem?_eq_getElem hlt, (h y hlt).1, (h y hlt).2.1⟩

/-- The objects reachable from a root fit the binary format when all objects of the session do. -/
theorem binaryFits_of_forall {objs : Array Obj} {root : ObjId} (hsize : objs.size < 2 ^ 60)
    (h : ∀ i (hi : i < objs.size), (∀ c ∈ objs[i].children, c < objs.size) ∧
      objs[i].tag.utf8ByteSize < 2 ^ 60 ∧ objs[i].name.utf8ByteSize < 2 ^ 63 ∧
      objs[i].children.length < 2 ^ 63) :
    BinaryFits objs root := by
  refine ⟨hsize, fun y o hy ho => ?_⟩
  obtain ⟨hlt, rfl⟩ := Array.getElem?_eq_some_iff.1 ho
  exact (h y hlt).2

end ObjGraph

namespace SessionM

open ObjGraph

/-- **Saving and loading keep the object graph**, sharing and cycles included. Take any session
and an object `x` whose reachable objects have tags spelled as tags, with the plain writer in the
registry. Saving `x` as text succeeds, and loading that text with the same registry into any
session succeeds with objects isomorphic to those reachable from `x`: each of them has one new
object, with its tag and name and the new objects of its children in order, distinct objects
have distinct new objects, and each object reachable from the loaded root is one of them. The
same holds for saving in the binary format and loading the bytes, when the objects fit the
counts of the format. -/
theorem object_round_trip {reg : Registry} {s : Session} {x : ObjId}
    (hsav : Savable s.objects reg x) :
    (∃ text s₁, Runs (saveText reg x) s text s₁ ∧
      ∀ t : Session, ∃ x' t' f, Runs (loadText reg text) t x' t' ∧ Iso s.objects x t'.objects x' f) ∧
    (BinaryFits s.objects x → ∃ bytes s₁, Runs (saveBinary reg x) s bytes s₁ ∧
      ∀ t : Session, ∃ x' t' f, Runs (loadBytes reg bytes) t x' t' ∧
        Iso s.objects x t'.objects x' f) := by
  -- the walk from `x` exists, and exporting follows it
  obtain ⟨v, all, hw⟩ := walks_exists fun y hy => by
    obtain ⟨o, ho, -⟩ := hsav y hy
    exact ⟨o, ho⟩
  obtain ⟨s₁, target, list, uid, hrun, hinv, hrep⟩ :=
    runs_exportDocument hw fun y o hy ho => (Savable.of_reaches hsav hy ho).1
  exact ⟨⟨_, s₁, Runs.saveText hrun, loads_text hsav hw hinv hrep⟩,
    fun hfits => ⟨_, s₁, Runs.saveBinary hrun, loads_bytes hsav hfits hw hinv hrep⟩⟩

/-- Three `<Node>` objects, shared and in a cycle: the root has the two others as children, the
second has the third, and the third leads back to the root and to the second. -/
def sharedCycle : Session :=
  { objects := #[⟨"<Node>", "root", [1, 2]⟩, ⟨"<Node>", "a", [2]⟩, ⟨"<Node>", "b", [0, 1]⟩] }

/-- The registry of `<Node>` objects, written by the plain writer. -/
def nodeRegistry : Registry := { writers := [("<Node>", .plain)] }

theorem object_round_trip_shared_cycle :
    Savable sharedCycle.objects nodeRegistry 0 ∧ BinaryFits sharedCycle.objects 0 ∧
    (∃ text s₁, Runs (saveText nodeRegistry 0) sharedCycle text s₁ ∧
      ∀ t : Session, ∃ x' t' f, Runs (loadText nodeRegistry text) t x' t' ∧
        Iso sharedCycle.objects 0 t'.objects x' f) ∧
    (∃ bytes s₁, Runs (saveBinary nodeRegistry 0) sharedCycle bytes s₁ ∧
      ∀ t : Session, ∃ x' t' f, Runs (loadBytes nodeRegistry bytes) t x' t' ∧
        Iso sharedCycle.objects 0 t'.objects x' f) := by
  have hsav : Savable sharedCycle.objects nodeRegistry 0 :=
    savable_of_forall (by decide) (by decide +kernel)
  have hfits : BinaryFits sharedCycle.objects 0 :=
    binaryFits_of_forall (by decide) (by decide +kernel)
  exact ⟨hsav, hfits, (object_round_trip hsav).1, (object_round_trip hsav).2 hfits⟩

end SessionM

end GraphDoc
