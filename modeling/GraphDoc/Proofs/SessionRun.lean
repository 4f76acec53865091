import GraphDoc.Session.Load
import GraphDoc.Proofs.Link
/-! # Running the steps of a session

A computation of a session (`SessionM`) is run from a session and either fails or succeeds
with a result and the session it leaves. `SessionM.Runs m s a s'` says that it succeeds with
`a` and leaves `s'`. A run, failed or not, is taken apart at a `bind`, a `tryCatch` or a handle
held around a step by `run_bind`, `run_tryCatch` and `run_withHandle`. Successful runs compose
through `bind` (`Runs.bind`), and each step the exporter and the importer are built from has a
lemma saying what it leaves, so their specifications are proved one step after another without
opening the monad again.

The edits those steps make to the document graph change one container and keep the others
(`Graph.get?_add`, `Graph.get?_pushPair_ne`, `Graph.get?_setUid_ne`).
-/
namespace GraphDoc

namespace Graph

theorem size_modify (g : Graph) (id : NodeId) (f : Node → Node) : (g.modify id f).size = g.size := by
  unfold modify
  split
  · unfold set size
    split <;> simp
  · rfl

theorem get?_add (g : Graph) (n : Node) (x : NodeId) :
    (g.add n).1.get? x = if x = g.size then some n else g.get? x := by
  simp only [add, get?, size, Array.getElem?_push]
  by_cases hx : x = g.nodes.size <;> simp [hx]

theorem get?_modify_ne (g : Graph) {id x : NodeId} (f : Node → Node) (hx : x ≠ id) :
    (g.modify id f).get? x = g.get? x := by
  rw [get?_modify]
  cases g.get? x <;> simp [hx]

theorem get?_modify_self (g : Graph) {id : NodeId} {n : Node} (f : Node → Node)
    (hn : g.get? id = some n) : (g.modify id f).get? id = some (f n) := by
  rw [get?_modify, hn]
  simp

/-- Appending a pair to a structure changes that structure only. -/
theorem get?_pushPair_self (g : Graph) {id : NodeId} {tag : String} {line : Nat} {uid : String}
    {pairs : List (String × Value)} (hn : g.get? id = some ⟨tag, line, .struct uid pairs⟩)
    (key : String) (v : Value) :
    (g.pushPair id key v).get? id = some ⟨tag, line, .struct uid (pairs ++ [(key, v)])⟩ := by
  rw [pushPair, get?_modify_self _ _ hn]

theorem get?_pushPair_ne (g : Graph) {id x : NodeId} (key : String) (v : Value) (hx : x ≠ id) :
    (g.pushPair id key v).get? x = g.get? x :=
  get?_modify_ne _ _ hx

/-- Giving a structure a UID changes that structure only. -/
theorem get?_setUid_self (g : Graph) {id : NodeId} {tag : String} {line : Nat} {uid : String}
    {pairs : List (String × Value)} (hn : g.get? id = some ⟨tag, line, .struct uid pairs⟩)
    (uid' : String) : (g.setUid id uid').get? id = some ⟨tag, line, .struct uid' pairs⟩ := by
  rw [setUid, get?_modify_self _ _ hn]

theorem get?_setUid_ne (g : Graph) {id x : NodeId} (uid : String) (hx : x ≠ id) :
    (g.setUid id uid).get? x = g.get? x :=
  get?_modify_ne _ _ hx

theorem size_pushPair (g : Graph) (id : NodeId) (key : String) (v : Value) :
    (g.pushPair id key v).size = g.size :=
  size_modify _ _ _

theorem size_setUid (g : Graph) (id : NodeId) (uid : String) : (g.setUid id uid).size = g.size :=
  size_modify _ _ _

end Graph

namespace SessionM

variable {α β : Type}

theorem run_bind (m : SessionM α) (f : α → SessionM β) (s : Session) :
    (m >>= f).run.run s = match m.run.run s with
      | (.ok a, s') => (f a).run.run s'
      | (.error e, s') => (.error e, s') := by
  rw [ExceptT.run_bind, StateT.run_bind]
  rcases m.run.run s with ⟨_ | a, s'⟩ <;> rfl

theorem run_tryCatch (m : SessionM α) (H : Error → SessionM α) (s : Session) :
    (tryCatch m H).run.run s = match m.run.run s with
      | (.ok a, s') => (.ok a, s')
      | (.error e, s') => (H e).run.run s' := by
  change (ExceptT.tryCatch m H).run.run s = _
  simp only [ExceptT.tryCatch, ExceptT.run_mk, StateT.run_bind]
  rcases h : m.run.run s with ⟨_ | a, s'⟩ <;> rw [show StateT.run m s = _ from h] <;> rfl

/-- A step run with a handle on a container ends as it would with the handle taken, and the
handle is dropped after it, whether it succeeds or fails. -/
theorem run_withHandle {id : NodeId} {m : SessionM α} {s s' : Session} {r : Except Error α}
    (h : m.run.run { s with held := id :: s.held } = (r, s')) :
    (withHandle id m).run.run s = (r, { s' with held := s'.held.erase id }) := by
  unfold withHandle
  rw [run_bind]
  show (tryCatch _ _ : SessionM α).run.run { s with held := id :: s.held } = _
  rw [run_tryCatch, run_bind, h]
  cases r <;> rfl

/-- `m`, run from the session `s`, succeeds with `a` and leaves `s'`. -/
def Runs (m : SessionM α) (s : Session) (a : α) (s' : Session) : Prop :=
  m.run.run s = (.ok a, s')

theorem Runs.bind {m : SessionM α} {f : α → SessionM β} {s s₁ s₂ : Session} {a : α} {b : β}
    (h₁ : Runs m s a s₁) (h₂ : Runs (f a) s₁ b s₂) : Runs (m >>= f) s b s₂ := by
  unfold Runs at *
  rw [run_bind, h₁]
  exact h₂

theorem runs_pure (a : α) (s : Session) : Runs (pure a) s a s := rfl

theorem runs_get (s : Session) : Runs get s s s := rfl

theorem runs_set (s s' : Session) : Runs (set s') s () s' := rfl

theorem runs_modify (f : Session → Session) (s : Session) : Runs (modify f) s () (f s) := rfl

theorem run_get_bind (f : Session → SessionM α) (s : Session) :
    (get >>= f).run.run s = (f s).run.run s := rfl

/-- An import failure is recorded, unless one is kept already, and the kept one is thrown. -/
theorem run_failImport (m : String) (s : Session) :
    (failImport m : SessionM α).run.run s =
      (.error (((s.signal .importError m).stickyError).getD (.importFailed "import failed")),
        s.signal .importError m) := rfl

/-- A handler is not called when the computation it guards succeeds. -/
theorem Runs.tryCatch {m : SessionM α} {h : Error → SessionM α} {s s' : Session} {a : α}
    (hm : Runs m s a s') : Runs (tryCatch m h) s a s' := by
  unfold Runs at *
  rw [run_tryCatch]
  simp only [hm]

/-- A step run with a handle on a container: the handle is there while it runs, and gone
after. -/
theorem Runs.withHandle {id : NodeId} {m : SessionM α} {a : α} {s s' : Session}
    (h : Runs m { s with held := id :: s.held } a s') :
    Runs (withHandle id m) s a { s' with held := s'.held.erase id } :=
  run_withHandle h

/-- A session with no failure kept passes the check for one. -/
theorem runs_checkSticky {s : Session} (h : s.status = .noError) : Runs checkSticky s () s := by
  unfold checkSticky
  refine (runs_get s).bind ?_
  simp only [Session.stickyError, h]
  exact runs_pure () s

theorem runs_tagOf (o : ObjId) (s : Session) :
    Runs (tagOf o) s (((s.object? o).map Obj.tag).getD "") s :=
  (runs_get s).bind (runs_pure _ s)

theorem runs_addNode (n : Node) (s : Session) :
    Runs (addNode n) s s.graph.size { s with graph := (s.graph.add n).1 } :=
  (runs_get s).bind ((runs_set _ _).bind (runs_pure _ _))

theorem runs_pushPair (id : NodeId) (key : String) (v : Value) (s : Session) :
    Runs (pushPair id key v) s () { s with graph := s.graph.pushPair id key v } :=
  runs_modify _ s

theorem runs_registerExported (o : ObjId) (st : NodeId) (s : Session) :
    Runs (registerExported o st) s () { s with exported := (o, st) :: s.exported.filter (·.1 != o) } :=
  runs_modify _ s

end SessionM

end GraphDoc
