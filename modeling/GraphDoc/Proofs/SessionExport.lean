import Mathlib
import GraphDoc.Proofs.SessionRun
import GraphDoc.Proofs.ObjectWalk
import GraphDoc.Proofs.Numeral
/-! # What exporting objects builds

Exporting an object whose reachable objects all have the plain writer builds, in the document
graph of the session, one structure for each object reachable from it and one untagged list for
its children: the structure of an object carries its tag and the pairs `name` and `children`,
and the list holds the structures of the children in order. An object reached again keeps the
structure made for it first, which then gets a generated UID `#<prefix>id<n>`, the counter `n`
new each time, so the UIDs given are distinct.

The export follows the walk of the objects (`ObjGraph.Walks`): an object entered is written, an
object reached again is given a UID. `SessionM.ExportInv` is what holds between steps: every
object visited has its structure, written unless it is still open on the stack of the walk,
structures and lists are distinct, and the UIDs given are distinct. `SessionM.runs_exportObject`
proves that one export keeps it, by induction on the walk, and `SessionM.runs_exportDocument`
reads it off for the export of a whole document.
-/
namespace GraphDoc

/-! ## Generated UIDs -/

/-- The UID the exporter gives the structure of an object with tag `tag` when the counter is
`k`. -/
def uidText (tag : String) (k : Nat) : String := "#" ++ uidPrefix tag ++ "id" ++ toString k

theorem toList_uidText (tag : String) (k : Nat) :
    (uidText tag k).toList = '#' :: ((uidPrefix tag).toList ++ ['i', 'd'] ++ Nat.toDigits 10 k) := by
  simp [uidText]

/-- The text of a generated UID read backwards starts with the digits of its counter. -/
theorem reverse_toList_uidText (tag : String) (k : Nat) :
    (uidText tag k).toList.reverse =
      (Nat.toDigits 10 k).reverse ++ ('d' :: 'i' :: ((uidPrefix tag).toList.reverse ++ ['#'])) := by
  simp [toList_uidText]

theorem uidText_ne_nullUid (tag : String) (k : Nat) : uidText tag k ≠ nullUid := by
  intro h
  have hrev := congrArg (fun s : String => s.toList.reverse) h
  simp only [reverse_toList_uidText] at hrev
  obtain ⟨c, r, hcr⟩ := List.exists_cons_of_ne_nil
    (List.reverse_ne_nil_iff.2 (Nat.toDigits_ne_nil (b := 10) (n := k)))
  have hc : c.isDigit = true :=
    Ieee.Literal.isDigit_of_mem_toDigits (List.mem_reverse.1 (hcr ▸ List.mem_cons_self))
  rw [hcr] at hrev
  -- the last character of `#NULL` is no digit
  have hL : c = 'L' := by simpa [nullUid] using congrArg List.head? hrev
  subst hL
  exact absurd hc (by decide)

/-- A UID spelled `#<prefix>id<n>` determines its counter `n`, whatever the prefixes. -/
theorem counter_eq_of_spelled {p p' : String} {k k' : Nat}
    (h : "#" ++ p ++ "id" ++ toString k = "#" ++ p' ++ "id" ++ toString k') : k = k' := by
  -- read backwards, such a UID is the digits of its counter up to the `d` of `id`
  have hdigits : ∀ (q : String) (n : Nat),
      ("#" ++ q ++ "id" ++ toString n).toList.reverse.takeWhile Char.isDigit =
        (Nat.toDigits 10 n).reverse := by
    intro q n
    have hrev : ("#" ++ q ++ "id" ++ toString n).toList.reverse =
        (Nat.toDigits 10 n).reverse ++ ('d' :: 'i' :: (q.toList.reverse ++ ['#'])) := by
      simp
    rw [hrev, takeWhile_append_stop
      (fun c hc => Ieee.Literal.isDigit_of_mem_toDigits (List.mem_reverse.1 hc)) rfl]
  have hrev := hdigits p k
  rw [h, hdigits p' k', List.reverse_inj] at hrev
  rw [← Ieee.Literal.digitsValue_toDigits k, ← Ieee.Literal.digitsValue_toDigits k', hrev]

/-- **Generated UIDs with different counters differ**, whatever the tags. -/
theorem uidText_inj {tag tag' : String} {k k' : Nat} (h : uidText tag k = uidText tag' k') :
    k = k' :=
  counter_eq_of_spelled h

theorem isNameChar_toLower {c : Char} (h : Scan.isNameChar c = true) :
    Scan.isNameChar c.toLower = true := by
  by_cases hu : c.isUpper = true
  · -- an upper-case letter is lowered to a letter
    have ha : c.isAlpha = true := by simp [Char.isAlpha, hu]
    simp [Scan.isNameChar, Char.isAlphanum, ha]
  · rwa [Char.toLower_eq_of_not_isUpper hu]

/-- The prefix of a tag `<name>` is its name in lower case and `_`. -/
theorem uidPrefix_of_toList {tag : String} {name : List Char} (hne : name ≠ [])
    (hn : ∀ c ∈ name, Scan.isNameChar c = true) (h : tag.toList = '<' :: (name ++ ['>'])) :
    uidPrefix tag = String.ofList (name.map Char.toLower) ++ "_" := by
  have hlt : ∀ c ∈ name, (c == '<') = false := fun c hc => by
    have := hn c hc
    by_contra hlt
    simp only [Bool.not_eq_false, beq_iff_eq] at hlt
    subst hlt
    exact absurd this (by decide)
  have hgt : ∀ c ∈ name, (c == '>') = false := fun c hc => by
    have := hn c hc
    by_contra hgt
    simp only [Bool.not_eq_false, beq_iff_eq] at hgt
    subst hgt
    exact absurd this (by decide)
  obtain ⟨c, r, rfl⟩ := List.exists_cons_of_ne_nil hne
  -- one `<` comes off the front and one `>` off the back
  have hfront : ((c :: r) ++ ['>']).head?.any (· == '<') = false := by
    simpa using hlt c List.mem_cons_self
  have hdrop : (tag.toList.dropWhile (· == '<')) = (c :: r) ++ ['>'] := by
    rw [h, show '<' :: (c :: r ++ ['>']) = ['<'] ++ (c :: r ++ ['>']) from rfl,
      dropWhile_append_stop (by simp) hfront]
  have hback : ((c :: r).reverse).head?.any (· == '>') = false := by
    obtain ⟨d, t, hdt⟩ := List.exists_cons_of_ne_nil (List.reverse_ne_nil_iff.2 hne)
    rw [hdt]
    simpa using hgt d (List.mem_reverse.1 (hdt ▸ List.mem_cons_self))
  have hdrop' : ((c :: r) ++ ['>']).reverse.dropWhile (· == '>') = (c :: r).reverse := by
    rw [List.reverse_append, show ['>'].reverse = ['>'] from rfl,
      dropWhile_append_stop (by simp) hback]
  unfold uidPrefix
  simp only [hdrop, hdrop', List.reverse_reverse, List.isEmpty_cons, Bool.false_eq_true, if_false]

/-- **A generated UID is spelled as a UID** when the tag is spelled as a tag. -/
theorem isUid_uidText {tag : String} (htag : Scan.isTag tag = true) (k : Nat) :
    Scan.isUid (uidText tag k) = true := by
  obtain ⟨name, hne, hn, htl⟩ := Scan.isTag_spec htag
  have hpre := uidPrefix_of_toList hne hn htl
  have hchars : ∀ c ∈ (uidPrefix tag).toList ++ ['i', 'd'] ++ Nat.toDigits 10 k,
      Scan.isNameChar c = true := by
    intro c hc
    rw [hpre] at hc
    simp only [String.toList_append, String.toList_ofList, List.mem_append, List.mem_map] at hc
    rcases hc with ((⟨d, hd, rfl⟩ | hc) | hc) | hc
    · exact isNameChar_toLower (hn d hd)
    · simp at hc; subst hc; rfl
    · simp at hc; rcases hc with rfl | rfl <;> rfl
    · have := Ieee.Literal.isDigit_of_mem_toDigits hc
      simp [Scan.isNameChar, Char.isAlphanum, this]
  unfold Scan.isUid
  rw [toList_uidText]
  simp only [List.append_assoc, Bool.and_eq_true, Bool.not_eq_eq_eq_not, Bool.not_true,
    List.isEmpty_eq_false_iff, ne_eq, List.append_eq_nil_iff, List.all_eq_true]
  exact ⟨by simp, fun c hc => hchars c (by simpa using hc)⟩

/-! ## The containers an object is exported as -/

namespace Obj

/-- The structure an object is exported as once it is written: its tag, the UID it was given,
its name, and the list of its children at `list`. -/
def structNode (o : Obj) (uid : String) (list : NodeId) : Node :=
  ⟨o.tag, 0, .struct uid [("name", .scalar (.str o.name) 0), ("children", .node list)]⟩

/-- The list the children of an object are exported as, each child by its structure. -/
def listNode (o : Obj) (target : ObjId → NodeId) : Node :=
  ⟨"", 0, .list (o.children.map fun c => .node (target c))⟩

end Obj

/-- Two keys that an update sends to one value are one key, when the new value is none that
the map gave the other keys and the map is one-to-one on those. This is how each step of a walk
keeps its maps one-to-one: what it adds is new. -/
theorem eq_of_update_eq {α β : Type} [DecidableEq α] {f : α → β} {x y z : α} {b : β}
    (hy : y ≠ x → f y ≠ b) (hz : z ≠ x → f z ≠ b) (hf : y ≠ x → z ≠ x → f y = f z → y = z)
    (h : Function.update f x b y = Function.update f x b z) : y = z := by
  by_cases hyx : y = x <;> by_cases hzx : z = x
  · rw [hyx, hzx]
  · rw [hyx, Function.update_self, Function.update_of_ne hzx] at h
    exact absurd h.symm (hz hzx)
  · rw [hzx, Function.update_self, Function.update_of_ne hyx] at h
    exact absurd h (hy hyx)
  · rw [Function.update_of_ne hyx, Function.update_of_ne hzx] at h
    exact hf hyx hzx h

/-! ## The steps of an export -/

namespace SessionM

theorem runs_exportChildren_nil (reg : Registry) (fuel : Nat) (s : Session) :
    Runs (exportChildren reg fuel []) s [] s := by
  rw [exportChildren]
  exact runs_pure _ s

theorem Runs.exportChildren_cons {reg : Registry} {fuel : Nat} {c : ObjId} {cs : List ObjId}
    {s s₁ s₂ : Session} {st : NodeId} {rest : List Value}
    (h₁ : Runs (exportObject reg fuel c) s st s₁) (h₂ : Runs (exportChildren reg fuel cs) s₁ rest s₂) :
    Runs (exportChildren reg fuel (c :: cs)) s (.node st :: rest) s₂ := by
  rw [exportChildren]
  exact h₁.bind (h₂.bind (runs_pure _ _))

/-- An object exported before is exported as its structure, through `exportAgain`. -/
theorem Runs.exportObject_again {reg : Registry} {fuel : Nat} {x : ObjId} {st : NodeId}
    {s s' : Session} {a : NodeId} (hst : s.status = .noError) (hl : s.exported.lookup x = some st)
    (h : Runs (exportAgain x st) s a s') : Runs (exportObject reg fuel x) s a s' := by
  rw [exportObject]
  refine (runs_checkSticky hst).bind ((runs_get s).bind ?_)
  simpa only [hl] using h

/-- A new object is written by the writer of its tag into a fresh structure, and registered. -/
theorem Runs.exportObject_enter {reg : Registry} {fuel : Nat} {x : ObjId} {o : Obj} {w : Writer}
    {s s₁ : Session} {st : NodeId} (hst : s.status = .noError) (hl : s.exported.lookup x = none)
    (ho : s.object? x = some o) (hreg : reg.get? o.tag = some w)
    (h : Runs (write reg fuel w x) s st s₁) (hst₁ : s₁.status = .noError) :
    Runs (exportObject reg (fuel + 1) x) s st
      { s₁ with exported := (x, st) :: s₁.exported.filter (·.1 != x) } := by
  rw [exportObject]
  refine (runs_checkSticky hst).bind ((runs_get s).bind ?_)
  simp only [hl]
  refine (runs_tagOf x s).bind ?_
  simp only [ho, Option.map_some, Option.getD_some, hreg]
  exact h.tryCatch.bind ((runs_checkSticky hst₁).bind ((runs_registerExported x st s₁).bind
    (runs_pure _ _)))

/-- The plain writer adds the structure, registers it, exports the children, adds their list
and then fills in the name and the children. -/
theorem Runs.write_plain {reg : Registry} {fuel : Nat} {x : ObjId} {o : Obj} {s s₂ : Session}
    {items : List Value} (ho : s.object? x = some o)
    (hkids : Runs (exportChildren reg fuel o.children)
      { s with graph := (s.graph.add ⟨o.tag, 0, .struct nullUid []⟩).1,
               exported := (x, s.graph.size) :: s.exported.filter (·.1 != x) } items s₂) :
    Runs (write reg fuel .plain x) s s.graph.size
      { s₂ with graph := (((s₂.graph.add ⟨"", 0, .list items⟩).1.pushPair s.graph.size "name"
          (.scalar (.str o.name) 0)).pushPair s.graph.size "children" (.node s₂.graph.size)) } := by
  rw [write]
  refine (runs_get s).bind ?_
  simp only [ho, Option.getD_some]
  refine (runs_addNode _ s).bind ((runs_registerExported x _ _).bind ?_)
  exact hkids.bind ((runs_addNode _ _).bind ((runs_pushPair _ _ _ _).bind
    ((runs_pushPair _ _ _ _).bind (runs_pure _ _))))

/-- A structure reached again that is not being written and is not a structure without a UID
is left as it is. -/
theorem runs_exportAgain_kept {o : ObjId} {st : NodeId} {s : Session}
    (hw : s.writing.contains st = false)
    (hn : ∀ tag line pairs, s.graph.get? st ≠ some ⟨tag, line, .struct nullUid pairs⟩) :
    Runs (exportAgain o st) s st s := by
  rw [exportAgain]
  refine (runs_tagOf o s).bind ((runs_get s).bind ?_)
  simp only [hw, Bool.false_eq_true, if_false]
  refine (runs_get s).bind ?_
  -- the structure has a UID, or the container is no structure: nothing to give
  split
  · next tag line uid pairs hget =>
    have hu : uid ≠ nullUid := fun hu => hn tag line pairs (hu ▸ hget)
    simp only [bne_iff_ne.2 hu, Bool.not_true, Bool.false_eq_true, if_false]
    exact runs_pure st s
  · simp only [Bool.not_true, Bool.false_eq_true, if_false]
    exact runs_pure st s

/-- A structure without a UID reached again is given the next generated UID, made from the
tag of its object. -/
theorem runs_exportAgain_named {o : ObjId} {st : NodeId} {s : Session} {tag : String}
    {line : Nat} {pairs : List (String × Value)} (hw : s.writing.contains st = false)
    (hn : s.graph.get? st = some ⟨tag, line, .struct nullUid pairs⟩) :
    Runs (exportAgain o st) s st
      { s with uidCounter := s.uidCounter + 1,
               graph := s.graph.setUid st
                 (s.generateUid (uidPrefix (((s.object? o).map Obj.tag).getD ""))).1 } := by
  rw [exportAgain]
  refine (runs_tagOf o s).bind ((runs_get s).bind ?_)
  simp only [hw, Bool.false_eq_true, if_false]
  refine (runs_get s).bind ?_
  simp only [hn, bne_self_eq_false, Bool.not_false, if_true]
  exact (runs_get s).bind ((runs_set _ _).bind (runs_pure _ _))

/-- A structure reached again that has a UID is left as it is. -/
theorem Runs.exportAgain_of_uid {x : ObjId} {st : NodeId} {s : Session} {tag uid : String}
    {line : Nat} {pairs : List (String × Value)} (hw : s.writing = [])
    (hn : s.graph.get? st = some ⟨tag, line, .struct uid pairs⟩) (hu : uid ≠ nullUid) :
    Runs (exportAgain x st) s st s :=
  runs_exportAgain_kept (by simp [hw]) fun _ _ _ he => by
    rw [hn] at he
    cases he
    exact hu rfl

/-- A structure reached again without a UID is given the next generated one. -/
theorem Runs.exportAgain_of_null {x : ObjId} {o : Obj} {st : NodeId} {s : Session} {tag : String}
    {line : Nat} {pairs : List (String × Value)} (hw : s.writing = []) (ho : s.object? x = some o)
    (hn : s.graph.get? st = some ⟨tag, line, .struct nullUid pairs⟩) :
    Runs (exportAgain x st) s st
      { s with uidCounter := s.uidCounter + 1,
               graph := s.graph.setUid st (uidText o.tag s.uidCounter) } := by
  have h := runs_exportAgain_named (o := x) (by simp [hw]) hn
  simp only [ho, Option.map_some, Option.getD_some] at h
  exact h

/-! ## What holds between the steps of an export -/

theorem lookup_filter_ne (l : List (ObjId × NodeId)) {x y : ObjId} (hy : y ≠ x) :
    (l.filter (·.1 != x)).lookup y = l.lookup y := by
  induction l with
  | nil => rfl
  | cons p l ih =>
    obtain ⟨k, b⟩ := p
    by_cases hk : k = x
    · subst hk
      simp [List.lookup, beq_false_of_ne hy, ih]
    · simp [List.filter, bne_iff_ne.2 hk, List.lookup, ih]

/-- Registering the structure of an object puts it first and drops its earlier entry. -/
theorem lookup_registered (l : List (ObjId × NodeId)) (x y : ObjId) (st : NodeId) :
    ((x, st) :: l.filter (·.1 != x)).lookup y = if y = x then some st else l.lookup y := by
  by_cases hy : y = x
  · subst hy
    simp [List.lookup]
  · simp [List.lookup, beq_false_of_ne hy, hy, lookup_filter_ne l hy]

/-- An object entered and no longer open, once `x` is entered and open, was entered and closed
before `x`. -/
theorem closed_before {x y : ObjId} {vis opn : List ObjId} (hy : y ∈ x :: vis)
    (hyo : y ∉ x :: opn) : y ≠ x ∧ y ∈ vis ∧ y ∉ opn :=
  ⟨List.ne_of_not_mem_cons hyo, List.mem_of_ne_of_mem (List.ne_of_not_mem_cons hyo) hy,
    List.not_mem_of_not_mem_cons hyo⟩

/-- What holds of a session between the steps of an export that has entered the objects `vis`,
of which those in `opn` are still being written. Each object entered is registered with its
structure at `target`, empty while the object is being written and holding its name and the
list of its children at `list` once it is; structures and lists are distinct containers of the
graph; and each UID given is a generated one, different from the others, counted by the UID
counter. -/
structure ExportInv (objs : Array Obj) (vis opn : List ObjId) (target list : ObjId → NodeId)
    (uid : ObjId → String) (s : Session) : Prop where
  objects : s.objects = objs
  status : s.status = .noError
  writing : s.writing = []
  nodup : vis.Nodup
  open_sub : opn ⊆ vis
  exported : ∀ y, s.exported.lookup y = if y ∈ vis then some (target y) else none
  open_at : ∀ y ∈ opn, ∃ o, objs[y]? = some o ∧
    s.graph.get? (target y) = some ⟨o.tag, 0, .struct (uid y) []⟩
  struct_at : ∀ y ∈ vis, y ∉ opn → ∃ o, objs[y]? = some o ∧
    s.graph.get? (target y) = some (o.structNode (uid y) (list y))
  list_at : ∀ y ∈ vis, y ∉ opn → ∃ o, objs[y]? = some o ∧
    s.graph.get? (list y) = some (o.listNode target)
  children_mem : ∀ y ∈ vis, y ∉ opn → ∀ o, objs[y]? = some o → ∀ c ∈ o.children, c ∈ vis
  target_lt : ∀ y ∈ vis, target y < s.graph.size
  list_lt : ∀ y ∈ vis, y ∉ opn → list y < s.graph.size
  target_inj : ∀ y ∈ vis, ∀ z ∈ vis, target y = target z → y = z
  list_inj : ∀ y ∈ vis, ∀ z ∈ vis, y ∉ opn → z ∉ opn → list y = list z → y = z
  target_ne_list : ∀ y ∈ vis, ∀ z ∈ vis, z ∉ opn → target y ≠ list z
  uid_gen : ∀ y ∈ vis, uid y = nullUid ∨
    ∃ o k, objs[y]? = some o ∧ k < s.uidCounter ∧ uid y = uidText o.tag k
  uid_inj : ∀ y ∈ vis, ∀ z ∈ vis, uid y = uid z → uid y ≠ nullUid → y = z
  uid_count : s.uidCounter = vis.countP fun y => uid y != nullUid

namespace ExportInv

variable {objs : Array Obj} {vis opn : List ObjId} {target list : ObjId → NodeId}
  {uid : ObjId → String} {s : Session}

/-- Every object entered is an object of the session. -/
theorem valid (h : ExportInv objs vis opn target list uid s) {y : ObjId} (hy : y ∈ vis) :
    ∃ o, objs[y]? = some o := by
  by_cases hyo : y ∈ opn
  · obtain ⟨o, ho, -⟩ := h.open_at y hyo
    exact ⟨o, ho⟩
  · obtain ⟨o, ho, -⟩ := h.struct_at y hy hyo
    exact ⟨o, ho⟩

/-- The structure of an object entered, written or not, carries the UID it was given. -/
theorem struct_uid (h : ExportInv objs vis opn target list uid s) {y : ObjId} (hy : y ∈ vis) :
    ∃ o pairs, objs[y]? = some o ∧ s.graph.get? (target y) = some ⟨o.tag, 0, .struct (uid y) pairs⟩ := by
  by_cases hyo : y ∈ opn
  · obtain ⟨o, ho, hn⟩ := h.open_at y hyo
    exact ⟨o, [], ho, hn⟩
  · obtain ⟨o, ho, hn⟩ := h.struct_at y hy hyo
    exact ⟨o, _, ho, hn⟩

/-- Entering an object adds its empty structure and registers it. -/
theorem enter (h : ExportInv objs vis opn target list uid s) {x : ObjId} {o : Obj}
    (hx : x ∉ vis) (ho : objs[x]? = some o) :
    ExportInv objs (x :: vis) (x :: opn) (Function.update target x s.graph.size) list
      (Function.update uid x nullUid)
      { s with graph := (s.graph.add ⟨o.tag, 0, .struct nullUid []⟩).1,
               exported := (x, s.graph.size) :: s.exported.filter (·.1 != x) } := by
  -- what was entered before keeps its containers, all below the new structure
  have hne : ∀ y ∈ vis, y ≠ x := fun y hy hyx => hx (hyx ▸ hy)
  have hold : ∀ i < s.graph.size, (s.graph.add ⟨o.tag, 0, .struct nullUid []⟩).1.get? i =
      s.graph.get? i := fun i hi => by rw [Graph.get?_add, if_neg (Nat.ne_of_lt hi)]
  refine ⟨h.objects, h.status, h.writing, List.nodup_cons.2 ⟨hx, h.nodup⟩,
    List.cons_subset_cons x h.open_sub, ?_, ?_, ?_, ?_, ?_, ?_, ?_, ?_, ?_, ?_, ?_, ?_, ?_⟩
  · intro y
    simp only [lookup_registered, h.exported, List.mem_cons]
    by_cases hy : y = x
    · simp [hy]
    · simp [hy]
  · intro y hy
    rcases List.mem_cons.1 hy with rfl | hy
    · refine ⟨o, ho, ?_⟩
      simp [Graph.get?_add]
    · obtain ⟨o', ho', hn⟩ := h.open_at y hy
      have hyx := hne y (h.open_sub hy)
      refine ⟨o', ho', ?_⟩
      rw [Function.update_of_ne hyx, Function.update_of_ne hyx, hold _ (h.target_lt y (h.open_sub hy)), hn]
  · intro y hy hyo
    obtain ⟨hyx, hy', hyo'⟩ := closed_before hy hyo
    obtain ⟨o', ho', hn⟩ := h.struct_at y hy' hyo'
    refine ⟨o', ho', ?_⟩
    rw [Function.update_of_ne hyx, Function.update_of_ne hyx, hold _ (h.target_lt y hy'), hn]
  · intro y hy hyo
    obtain ⟨-, hy', hyo'⟩ := closed_before hy hyo
    obtain ⟨o', ho', hn⟩ := h.list_at y hy' hyo'
    refine ⟨o', ho', ?_⟩
    rw [hold _ (h.list_lt y hy' hyo'), hn]
    -- the children of a written object were all entered before `x`
    have hkids : ∀ c ∈ o'.children, Function.update target x s.graph.size c = target c :=
      fun c hc => Function.update_of_ne (hne c (h.children_mem y hy' hyo' o' ho' c hc)) _ _
    simp only [Obj.listNode, List.map_inj_left.2 fun c hc => congrArg Value.node (hkids c hc)]
  · intro y hy hyo o' ho' c hc
    obtain ⟨-, hy', hyo'⟩ := closed_before hy hyo
    exact List.mem_cons_of_mem _ (h.children_mem y hy' hyo' o' ho' c hc)
  · intro y hy
    simp only [Graph.size_add]
    rcases List.mem_cons.1 hy with rfl | hy
    · simp
    · rw [Function.update_of_ne (hne y hy)]
      exact Nat.lt_succ_of_lt (h.target_lt y hy)
  · intro y hy hyo
    obtain ⟨-, hy', hyo'⟩ := closed_before hy hyo
    simp only [Graph.size_add]
    exact Nat.lt_succ_of_lt (h.list_lt y hy' hyo')
  · -- the new structure is the only one at the old size
    intro y hy z hz
    have hfresh : ∀ w ∈ x :: vis, w ≠ x → target w ≠ s.graph.size :=
      fun w hw hwx => Nat.ne_of_lt (h.target_lt w (List.mem_of_ne_of_mem hwx hw))
    exact eq_of_update_eq (hfresh y hy) (hfresh z hz) fun hyx hzx =>
      h.target_inj y (List.mem_of_ne_of_mem hyx hy) z (List.mem_of_ne_of_mem hzx hz)
  · intro y hy z hz hyo hzo
    obtain ⟨-, hy', hyo'⟩ := closed_before hy hyo
    obtain ⟨-, hz', hzo'⟩ := closed_before hz hzo
    exact h.list_inj y hy' z hz' hyo' hzo'
  · intro y hy z hz hzo
    obtain ⟨-, hz', hzo'⟩ := closed_before hz hzo
    rcases List.mem_cons.1 hy with rfl | hy
    · rw [Function.update_self]
      exact Nat.ne_of_gt (h.list_lt z hz' hzo')
    · rw [Function.update_of_ne (hne y hy)]
      exact h.target_ne_list y hy z hz' hzo'
  · intro y hy
    rcases List.mem_cons.1 hy with rfl | hy
    · exact .inl (Function.update_self ..)
    · rw [Function.update_of_ne (hne y hy)]
      exact h.uid_gen y hy
  · -- the new structure has no UID, so it shares none
    intro y hy z hz hyz hnull
    by_cases hyx : y = x
    · rw [hyx, Function.update_self] at hnull
      exact absurd rfl hnull
    rw [Function.update_of_ne hyx] at hyz hnull
    by_cases hzx : z = x
    · rw [hzx, Function.update_self] at hyz
      exact absurd hyz hnull
    rw [Function.update_of_ne hzx] at hyz
    exact h.uid_inj y (List.mem_of_ne_of_mem hyx hy) z (List.mem_of_ne_of_mem hzx hz) hyz hnull
  · -- the new structure has no UID, and the others keep theirs
    simp only [List.countP_cons, Function.update_self, bne_self_eq_false, Bool.false_eq_true,
      if_false, Nat.add_zero, h.uid_count]
    exact List.countP_congr fun y hy => by rw [Function.update_of_ne (hne y hy)]

/-- Closing an object adds the list of its children and fills in its name and that list. -/
theorem close (h : ExportInv objs vis (x :: opn) target list uid s) {o : Obj} (hx : x ∉ opn)
    (ho : objs[x]? = some o) (hkids : ∀ c ∈ o.children, c ∈ vis) :
    ExportInv objs vis opn target (Function.update list x s.graph.size) uid
      { s with graph := (((s.graph.add (o.listNode target)).1.pushPair (target x) "name"
          (.scalar (.str o.name) 0)).pushPair (target x) "children" (.node s.graph.size)) } := by
  have hxv : x ∈ vis := h.open_sub List.mem_cons_self
  have hopn : ∀ y ∈ opn, y ∈ x :: opn := fun y hy => List.mem_cons_of_mem _ hy
  have hxt : target x < s.graph.size := h.target_lt x hxv
  -- the new list is last, the structure of `x` gets its two pairs, and nothing else changes
  have hold : ∀ i < s.graph.size, i ≠ target x →
      (((s.graph.add (o.listNode target)).1.pushPair (target x) "name"
        (.scalar (.str o.name) 0)).pushPair (target x) "children" (.node s.graph.size)).get? i =
        s.graph.get? i := fun i hi hit => by
    rw [Graph.get?_pushPair_ne _ _ _ hit, Graph.get?_pushPair_ne _ _ _ hit, Graph.get?_add,
      if_neg (Nat.ne_of_lt hi)]
  have hlist : (((s.graph.add (o.listNode target)).1.pushPair (target x) "name"
        (.scalar (.str o.name) 0)).pushPair (target x) "children" (.node s.graph.size)).get?
        s.graph.size = some (o.listNode target) := by
    rw [Graph.get?_pushPair_ne _ _ _ (Nat.ne_of_gt hxt), Graph.get?_pushPair_ne _ _ _
      (Nat.ne_of_gt hxt), Graph.get?_add, if_pos rfl]
  have hstruct : (((s.graph.add (o.listNode target)).1.pushPair (target x) "name"
        (.scalar (.str o.name) 0)).pushPair (target x) "children" (.node s.graph.size)).get?
        (target x) = some (o.structNode (uid x) s.graph.size) := by
    obtain ⟨o', ho', hn⟩ := h.open_at x List.mem_cons_self
    rw [ho] at ho'
    cases ho'
    have hn' : (s.graph.add (o.listNode target)).1.get? (target x) =
        some ⟨o.tag, 0, .struct (uid x) []⟩ := by rw [Graph.get?_add, if_neg (Nat.ne_of_lt hxt), hn]
    rw [Graph.get?_pushPair_self _ (Graph.get?_pushPair_self _ hn' _ _)]
    rfl
  refine ⟨h.objects, h.status, h.writing, h.nodup, fun y hy => h.open_sub (hopn y hy),
    h.exported, ?_, ?_, ?_, ?_, ?_, ?_, h.target_inj, ?_, ?_, h.uid_gen, h.uid_inj, h.uid_count⟩
  · intro y hy
    obtain ⟨o', ho', hn⟩ := h.open_at y (hopn y hy)
    have hyx : y ≠ x := fun e => hx (e ▸ hy)
    have hyv := h.open_sub (hopn y hy)
    refine ⟨o', ho', ?_⟩
    rw [hold _ (h.target_lt y hyv) fun e => hyx (h.target_inj y hyv x hxv e), hn]
  · intro y hy hyo
    by_cases hyx : y = x
    · rw [hyx, Function.update_self]
      exact ⟨o, ho, hstruct⟩
    · have hyo' : y ∉ x :: opn := by simp [hyx, hyo]
      obtain ⟨o', ho', hn⟩ := h.struct_at y hy hyo'
      refine ⟨o', ho', ?_⟩
      rw [Function.update_of_ne hyx, hold _ (h.target_lt y hy)
        fun e => hyx (h.target_inj y hy x hxv e), hn]
  · intro y hy hyo
    by_cases hyx : y = x
    · rw [hyx, Function.update_self]
      exact ⟨o, ho, hlist⟩
    · have hyo' : y ∉ x :: opn := by simp [hyx, hyo]
      obtain ⟨o', ho', hn⟩ := h.list_at y hy hyo'
      refine ⟨o', ho', ?_⟩
      rw [Function.update_of_ne hyx, hold _ (h.list_lt y hy hyo')
        fun e => h.target_ne_list x hxv y hy hyo' e.symm, hn]
  · intro y hy hyo o' ho' c hc
    by_cases hyx : y = x
    · rw [hyx, ho] at ho'
      cases ho'
      exact hkids c hc
    · exact h.children_mem y hy (by simp [hyx, hyo]) o' ho' c hc
  · intro y hy
    simp only [Graph.size_pushPair, Graph.size_add]
    exact Nat.lt_succ_of_lt (h.target_lt y hy)
  · intro y hy hyo
    simp only [Graph.size_pushPair, Graph.size_add]
    by_cases hyx : y = x
    · rw [hyx, Function.update_self]
      exact Nat.lt_succ_self _
    · rw [Function.update_of_ne hyx]
      exact Nat.lt_succ_of_lt (h.list_lt y hy (by simp [hyx, hyo]))
  · -- the new list is the only one at the old size
    intro y hy z hz hyo hzo
    have hfresh : ∀ w ∈ vis, w ∉ opn → w ≠ x → list w ≠ s.graph.size := fun w hw hwo hwx =>
      Nat.ne_of_lt (h.list_lt w hw (List.not_mem_cons_of_ne_of_not_mem hwx hwo))
    exact eq_of_update_eq (hfresh y hy hyo) (hfresh z hz hzo) fun hyx hzx =>
      h.list_inj y hy z hz (List.not_mem_cons_of_ne_of_not_mem hyx hyo)
        (List.not_mem_cons_of_ne_of_not_mem hzx hzo)
  · intro y hy z hz hzo
    by_cases hzx : z = x
    · rw [hzx, Function.update_self]
      exact Nat.ne_of_lt (h.target_lt y hy)
    · rw [Function.update_of_ne hzx]
      exact h.target_ne_list y hy z hz (by simp [hzx, hzo])

/-- Giving a UID to one object of a nodup list adds one to the count of objects with a UID. -/
theorem countP_update_uid {vis : List ObjId} (hn : vis.Nodup) {x : ObjId} (hx : x ∈ vis)
    {uid : ObjId → String} (hnull : uid x = nullUid) {u : String} (hu : u ≠ nullUid) :
    vis.countP (fun y => Function.update uid x u y != nullUid) =
      vis.countP (fun y => uid y != nullUid) + 1 := by
  have hperm := List.perm_cons_erase hx
  have hrest : ∀ y ∈ vis.erase x, y ≠ x := fun y hy e => hn.not_mem_erase (e ▸ hy)
  rw [hperm.countP_eq, hperm.countP_eq, List.countP_cons, List.countP_cons,
    List.countP_congr fun y hy => by rw [Function.update_of_ne (hrest y hy)]]
  simp [hnull, hu]

/-- Reaching a structure again without a UID gives it the next generated one. -/
theorem again (h : ExportInv objs vis opn target list uid s) {x : ObjId} {o : Obj} (hx : x ∈ vis)
    (ho : objs[x]? = some o) (hnull : uid x = nullUid) :
    ExportInv objs vis opn target list (Function.update uid x (uidText o.tag s.uidCounter))
      { s with uidCounter := s.uidCounter + 1,
               graph := s.graph.setUid (target x) (uidText o.tag s.uidCounter) } := by
  have hold : ∀ i, i ≠ target x →
      (s.graph.setUid (target x) (uidText o.tag s.uidCounter)).get? i = s.graph.get? i :=
    fun i hi => Graph.get?_setUid_ne _ _ hi
  have hne : ∀ y ∈ vis, y ≠ x → target y ≠ target x := fun y hy hyx e =>
    hyx (h.target_inj y hy x hx e)
  -- the new UID differs from every UID given before, whose counters are all smaller
  have hfresh : ∀ z ∈ vis, uid z ≠ uidText o.tag s.uidCounter := by
    intro z hz e
    rcases h.uid_gen z hz with hz0 | ⟨o', k, -, hk, hzk⟩
    · exact uidText_ne_nullUid _ _ (e ▸ hz0)
    · rw [hzk] at e
      exact absurd (uidText_inj e) (Nat.ne_of_lt hk)
  refine ⟨h.objects, h.status, h.writing, h.nodup, h.open_sub, h.exported, ?_, ?_, ?_,
    h.children_mem, ?_, ?_, h.target_inj, h.list_inj, h.target_ne_list, ?_, ?_, ?_⟩
  · intro y hy
    obtain ⟨o', ho', hn⟩ := h.open_at y hy
    refine ⟨o', ho', ?_⟩
    by_cases hyx : y = x
    · rw [hyx] at hn ⊢
      rw [Function.update_self, Graph.get?_setUid_self _ hn]
    · rw [Function.update_of_ne hyx, hold _ (hne y (h.open_sub hy) hyx), hn]
  · intro y hy hyo
    obtain ⟨o', ho', hn⟩ := h.struct_at y hy hyo
    refine ⟨o', ho', ?_⟩
    by_cases hyx : y = x
    · rw [hyx] at hn ⊢
      rw [Function.update_self, Graph.get?_setUid_self _ hn]
      rfl
    · rw [Function.update_of_ne hyx, hold _ (hne y hy hyx), hn]
  · intro y hy hyo
    obtain ⟨o', ho', hn⟩ := h.list_at y hy hyo
    exact ⟨o', ho', by rw [hold _ fun e => h.target_ne_list x hx y hy hyo e.symm, hn]⟩
  · intro y hy
    rw [Graph.size_setUid]
    exact h.target_lt y hy
  · intro y hy hyo
    rw [Graph.size_setUid]
    exact h.list_lt y hy hyo
  · intro y hy
    by_cases hyx : y = x
    · rw [hyx, Function.update_self]
      exact .inr ⟨o, s.uidCounter, ho, Nat.lt_succ_self _, rfl⟩
    · rw [Function.update_of_ne hyx]
      rcases h.uid_gen y hy with hy0 | ⟨o', k, ho', hk, hyk⟩
      · exact .inl hy0
      · exact .inr ⟨o', k, ho', Nat.lt_succ_of_lt hk, hyk⟩
  · intro y hy z hz hyz hnull'
    exact eq_of_update_eq (fun _ => hfresh y hy) (fun _ => hfresh z hz)
      (fun hyx _ e => h.uid_inj y hy z hz e (by rwa [Function.update_of_ne hyx] at hnull')) hyz
  · rw [countP_update_uid h.nodup hx hnull (uidText_ne_nullUid _ _), h.uid_count]

/-- Registering an entered object again changes nothing that is looked up. -/
theorem reregister (h : ExportInv objs vis opn target list uid s) {x : ObjId} (hx : x ∈ vis) :
    ExportInv objs vis opn target list uid
      { s with exported := (x, target x) :: s.exported.filter (·.1 != x) } :=
  { h with
    exported := fun y => by
      rw [lookup_registered, h.exported]
      by_cases hyx : y = x
      · simp [hyx, hx]
      · simp [hyx] }

end ExportInv

/-- The maps of an export after some steps agree with those before on what was entered
before: structures stay, the lists of objects written stay, and UIDs given stay. -/
structure Extends (vis opn : List ObjId) (target list : ObjId → NodeId) (uid : ObjId → String)
    (target' list' : ObjId → NodeId) (uid' : ObjId → String) : Prop where
  target_eq : ∀ y ∈ vis, target' y = target y
  list_eq : ∀ y ∈ vis, y ∉ opn → list' y = list y
  uid_eq : ∀ y ∈ vis, uid y ≠ nullUid → uid' y = uid y

namespace Extends

variable {vis vis₁ opn : List ObjId} {target list target₁ list₁ target₂ list₂ : ObjId → NodeId}
  {uid uid₁ uid₂ : ObjId → String}

theorem refl : Extends vis opn target list uid target list uid :=
  ⟨fun _ _ => rfl, fun _ _ _ => rfl, fun _ _ _ => rfl⟩

theorem trans (h₁ : Extends vis opn target list uid target₁ list₁ uid₁)
    (h₂ : Extends vis₁ opn target₁ list₁ uid₁ target₂ list₂ uid₂) (hsub : vis ⊆ vis₁) :
    Extends vis opn target list uid target₂ list₂ uid₂ where
  target_eq y hy := (h₂.target_eq y (hsub hy)).trans (h₁.target_eq y hy)
  list_eq y hy hyo := (h₂.list_eq y (hsub hy) hyo).trans (h₁.list_eq y hy hyo)
  uid_eq y hy hu := by
    have h₁y := h₁.uid_eq y hy hu
    rw [h₂.uid_eq y (hsub hy) (by rw [h₁y]; exact hu), h₁y]

end Extends

variable {objs : Array Obj} {reg : Registry} {root : ObjId}

mutual
/-- **The export of an object follows the walk of the objects.** From a state where the
objects `vis` have been entered, the export of an object whose walk is `v` succeeds, with
enough fuel, when every object reachable from `root` has the plain writer: it gives the
structure of the object, keeps everything entered before, and leaves every object the walk
reaches again with a UID. -/
theorem runs_exportObject
    (hreg : ∀ y o, ObjGraph.Reaches objs root y → objs[y]? = some o → reg.get? o.tag = some .plain) :
    ∀ {vis vis' : List ObjId} {x : ObjId} {v : ObjGraph.Visit}, ObjGraph.Walks objs vis x v vis' →
      ObjGraph.Reaches objs root x → ∀ {opn : List ObjId} {target list : ObjId → NodeId}
      {uid : ObjId → String} {s : Session} {fuel : Nat},
      ExportInv objs vis opn target list uid s → objs.size + 1 ≤ vis.length + fuel →
      ∃ s' target' list' uid', Runs (exportObject reg fuel x) s (target' x) s' ∧
        ExportInv objs vis' opn target' list' uid' s' ∧
        Extends vis opn target list uid target' list' uid' ∧ ∀ y ∈ v.repeats, uid' y ≠ nullUid
  | _, _, x, _, .again hx, _, opn, target, list, uid, s, fuel, h, _ => by
    obtain ⟨o, pairs, ho, hn⟩ := h.struct_uid hx
    have hl : s.exported.lookup x = some (target x) := by rw [h.exported, if_pos hx]
    by_cases hnull : uid x = nullUid
    · -- the structure has no UID yet: it is given the next one
      have hobj : s.object? x = some o := by rw [Session.object?, h.objects]; exact ho
      refine ⟨_, target, list, Function.update uid x (uidText o.tag s.uidCounter),
        Runs.exportObject_again h.status hl (Runs.exportAgain_of_null h.writing hobj (hnull ▸ hn)),
        h.again hx ho hnull, ⟨fun _ _ => rfl, fun _ _ _ => rfl, fun y _ hy0 => ?_⟩, ?_⟩
      · exact Function.update_of_ne (fun e : y = x => hy0 (by rw [e]; exact hnull)) _ _
      · simp [ObjGraph.Visit.repeats, uidText_ne_nullUid]
    · exact ⟨s, target, list, uid, Runs.exportObject_again h.status hl
        (Runs.exportAgain_of_uid h.writing hn hnull), h, Extends.refl,
        by simpa [ObjGraph.Visit.repeats] using hnull⟩
  | vis, vis', x, _, .enter (o := o) hx ho hl, hrx, opn, target, list, uid, s, fuel, h, hfuel => by
    -- the objects entered and `x` are distinct objects of the session, so fuel is left
    obtain ⟨f, rfl⟩ : ∃ f, fuel = f + 1 := by
      have hlen : (x :: vis).length ≤ objs.size :=
        ObjGraph.length_le_of_lt (List.nodup_cons.2 ⟨hx, h.nodup⟩) fun y hy => by
          rcases List.mem_cons.1 hy with rfl | hy
          · exact (Array.getElem?_eq_some_iff.1 ho).1
          · obtain ⟨o', ho'⟩ := h.valid hy
            exact (Array.getElem?_eq_some_iff.1 ho').1
      simp only [List.length_cons] at hlen
      exact Nat.exists_eq_succ_of_ne_zero (by omega)
    have hobj : s.object? x = some o := by rw [Session.object?, h.objects]; exact ho
    have hnone : s.exported.lookup x = none := by rw [h.exported, if_neg hx]
    -- the structure is added, the children exported, and the structure filled in
    obtain ⟨s₂, target₂, list₂, uid₂, hrun₂, h₂, hext₂, hrep₂⟩ :=
      runs_exportChildren hreg hl (fun c hc => .child hrx ho hc) (h.enter hx ho)
        (show objs.size + 1 ≤ (x :: vis).length + f by simp only [List.length_cons]; omega)
    have htx : target₂ x = s.graph.size := by
      rw [hext₂.target_eq x List.mem_cons_self, Function.update_self]
    have hwrite := Runs.write_plain hobj hrun₂
    rw [← htx] at hwrite
    have h₃ := (h₂.close (fun e => hx (h.open_sub e)) ho hl.mem).reregister
      (hl.subset List.mem_cons_self)
    refine ⟨_, target₂, Function.update list₂ x s₂.graph.size, uid₂,
      Runs.exportObject_enter h.status hnone hobj (hreg x o hrx ho) hwrite h₂.status, h₃, ⟨?_, ?_, ?_⟩,
      hrep₂⟩
    · intro y hy
      have hyx : y ≠ x := fun e => hx (e ▸ hy)
      rw [hext₂.target_eq y (List.mem_cons_of_mem _ hy), Function.update_of_ne hyx]
    · intro y hy hyo
      have hyx : y ≠ x := fun e => hx (e ▸ hy)
      rw [Function.update_of_ne hyx, hext₂.list_eq y (List.mem_cons_of_mem _ hy) (by simp [hyx, hyo])]
    · intro y hy hu
      have hyx : y ≠ x := fun e => hx (e ▸ hy)
      have hu₁ : Function.update uid x nullUid y = uid y := Function.update_of_ne hyx _ _
      rw [hext₂.uid_eq y (List.mem_cons_of_mem _ hy) (hu₁ ▸ hu), hu₁]

/-- **The export of children follows their walks**, giving their structures in order. -/
theorem runs_exportChildren
    (hreg : ∀ y o, ObjGraph.Reaches objs root y → objs[y]? = some o → reg.get? o.tag = some .plain) :
    ∀ {vis vis' xs : List ObjId} {vs : List ObjGraph.Visit}, ObjGraph.WalksList objs vis xs vs vis' →
      (∀ c ∈ xs, ObjGraph.Reaches objs root c) → ∀ {opn : List ObjId} {target list : ObjId → NodeId}
      {uid : ObjId → String} {s : Session} {fuel : Nat},
      ExportInv objs vis opn target list uid s → objs.size + 1 ≤ vis.length + fuel →
      ∃ s' target' list' uid', Runs (exportChildren reg fuel xs) s (xs.map fun c => .node (target' c)) s' ∧
        ExportInv objs vis' opn target' list' uid' s' ∧
        Extends vis opn target list uid target' list' uid' ∧
        ∀ y ∈ ObjGraph.Visit.repeatsList vs, uid' y ≠ nullUid
  | _, _, _, _, .nil, _, opn, target, list, uid, s, fuel, h, _ =>
    ⟨s, target, list, uid, runs_exportChildren_nil reg fuel s, h, Extends.refl,
      by simp [ObjGraph.Visit.repeatsList]⟩
  | vis, _, c :: cs, _, .cons h₁ h₂, hxs, opn, target, list, uid, s, fuel, h, hfuel => by
    obtain ⟨s₁, target₁, list₁, uid₁, hrun₁, hinv₁, hext₁, hrep₁⟩ :=
      runs_exportObject hreg h₁ (hxs c List.mem_cons_self) h hfuel
    obtain ⟨s₂, target₂, list₂, uid₂, hrun₂, hinv₂, hext₂, hrep₂⟩ :=
      runs_exportChildren hreg h₂ (fun c' hc' => hxs c' (List.mem_cons_of_mem _ hc')) hinv₁
        (Nat.le_trans hfuel (Nat.add_le_add_right h₁.length_le fuel))
    refine ⟨s₂, target₂, list₂, uid₂, ?_, hinv₂, hext₁.trans hext₂ h₁.subset, ?_⟩
    · rw [List.map_cons, hext₂.target_eq c h₁.mem]
      exact hrun₁.exportChildren_cons hrun₂
    · -- a UID given by the first child stays through the others
      intro y hy
      rcases List.mem_append.1 hy with hy | hy
      · rw [hext₂.uid_eq y (h₁.repeats_subset y hy) (hrep₁ y hy)]
        exact hrep₁ y hy
      · exact hrep₂ y hy
end

end SessionM

end GraphDoc
