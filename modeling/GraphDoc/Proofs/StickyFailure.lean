import GraphDoc.Proofs.HandlerScripts
import GraphDoc.Proofs.SessionRun
/-! # The first failure of a session is kept

A session records its first failure, an import or an export failure with a message, and keeps
it until it is reset. This holds whatever the handlers of the registry do, since a script can
only change the failure by recording one (`Session.signal`), which does nothing once a failure
is kept. Between two sessions `s` and `s'` of one run, `s.Follows s'` says that `s'` keeps the
failure of `s`, or records the first one where `s` had none; it is reflexive and transitive,
and every step of a script and of the calls moves the session along it (`SessionM.Moves`,
`SessionM.KeepsFailure`). The calls
satisfy more (`SessionM.Guarded`): each of their failures is the one kept by the session they
leave, since a handler's failure is caught and turned into the kept one.

From these, for every registry of handlers and every nesting level (`first_failure_kept`):

* every run of a script leaves a failed session's failure as it is, and a session whose status
  and message agree (`Session.Consistent`, as after a reset) stays so;
* on a failed session, the import and export calls fail at once with the kept failure and
  leave the session as it is, so no handler runs and neither the pairs made nor the UID counter
  change;
* every failure of an import or export call is the kept one: an import failure or an export
  failure, as the status says, carrying the kept message.
-/
namespace GraphDoc

namespace Session

/-- The status and the kept message agree: a message is kept exactly when the session has
failed. -/
def Consistent (s : Session) : Prop := s.status = .noError ↔ s.firstError = none

/-- `s'` keeps the failure of `s`, or records one where `s` had none. -/
def Follows (s s' : Session) : Prop :=
  (s'.status = s.status ∧ s'.firstError = s.firstError) ∨
    (s.status = .noError ∧ s'.status ≠ .noError ∧ s'.firstError.isSome)

theorem Follows.refl (s : Session) : s.Follows s := .inl ⟨rfl, rfl⟩

theorem Follows.trans {s₁ s₂ s₃ : Session} (h₁ : s₁.Follows s₂) (h₂ : s₂.Follows s₃) :
    s₁.Follows s₃ := by
  rcases h₁ with ⟨hs, hm⟩ | ⟨h0, hs, hm⟩ <;> rcases h₂ with ⟨hs', hm'⟩ | ⟨h0', hs', hm'⟩
  · exact .inl ⟨hs'.trans hs, hm'.trans hm⟩
  · exact .inr ⟨hs ▸ h0', hs', hm'⟩
  · exact .inr ⟨h0, hs' ▸ hs, hm' ▸ hm⟩
  · exact absurd h0' hs

instance : Std.Refl Follows := ⟨Follows.refl⟩

instance : Trans Follows Follows Follows := ⟨Follows.trans⟩

/-- A failed session keeps its failure. -/
theorem Follows.of_failed {s s' : Session} (h : s.Follows s') (hf : s.status ≠ .noError) :
    s'.status = s.status ∧ s'.firstError = s.firstError :=
  h.resolve_right fun ⟨h0, _⟩ => hf h0

/-- Status and message keep agreeing. -/
theorem Follows.consistent {s s' : Session} (h : s.Follows s') (hc : s.Consistent) :
    s'.Consistent := by
  unfold Consistent at *
  rcases h with ⟨hs, hm⟩ | ⟨_, hs, hm⟩
  · rw [hs, hm]
    exact hc
  · simp [hs, Option.isSome_iff_ne_none.1 hm]

theorem consistent_reset (s : Session) : s.reset.Consistent := by
  simp [Consistent, reset]

/-- Recording an import or an export failure records the first one only. -/
theorem follows_signal (s : Session) {st : Status} (hst : st ≠ .noError) (m : String) :
    s.Follows (s.signal st m) := by
  unfold signal
  by_cases h : s.status = .noError
  · simp [h, Follows, hst]
  · simp [h, Follows.refl]

/-- After recording an import or an export failure, the session has failed. -/
theorem status_signal (s : Session) {st : Status} (hst : st ≠ .noError) (m : String) :
    (s.signal st m).status ≠ .noError := by
  unfold signal
  by_cases h : s.status = .noError <;> simp [h, hst]

theorem signal_of_failed {s : Session} (h : s.status ≠ .noError) (st : Status) (m : String) :
    s.signal st m = s := by
  simp [signal, h]

theorem stickyError_isSome_iff (s : Session) : s.stickyError.isSome ↔ s.status ≠ .noError := by
  unfold stickyError
  cases s.status <;> simp

/-- A session that keeps a failure has failed. -/
theorem status_ne_of_stickyError {s : Session} {e : Error} (he : s.stickyError = some e) :
    s.status ≠ .noError :=
  (stickyError_isSome_iff s).1 (by simp [he])

/-- The kept failure of a consistent session carries its message, with the kind its status
says. -/
theorem Consistent.stickyError {s : Session} (hc : s.Consistent) {e : Error}
    (he : s.stickyError = some e) : ∃ m, s.firstError = some m ∧
      (s.status = .importError ∧ e = .importFailed m ∨ s.status = .exportError ∧ e = .exportFailed m) := by
  have hf : s.status ≠ .noError := status_ne_of_stickyError he
  obtain ⟨m, hm⟩ := Option.ne_none_iff_exists'.1 fun h => hf (hc.2 h)
  refine ⟨m, hm, ?_⟩
  unfold Session.stickyError at he
  rw [hm] at he
  cases hs : s.status <;> simp_all

end Session

namespace SessionM

variable {α β : Type}

/-- Every run of `m`, whatever its outcome, leaves a session related by `R` to the one it
started from. -/
def Moves (R : Session → Session → Prop) (m : SessionM α) : Prop := ∀ s, R s (m.run.run s).2

section Moves

variable {R : Session → Session → Prop} {m : SessionM α} {f : α → SessionM β}

theorem Moves.mono {R' : Session → Session → Prop} (hR : ∀ s s', R s s' → R' s s')
    (hm : Moves R m) : Moves R' m := fun s => hR _ _ (hm s)

theorem Moves.bind [Trans R R R] (hm : Moves R m) (hf : ∀ a, Moves R (f a)) :
    Moves R (m >>= f) := by
  intro s
  have h := hm s
  rw [run_bind]
  rcases hr : m.run.run s with ⟨_ | a, s'⟩ <;> rw [hr] at h
  · exact h
  · exact Trans.trans h (hf a s')

theorem Moves.tryCatch [Trans R R R] {H : Error → SessionM α} (hm : Moves R m)
    (hH : ∀ e, Moves R (H e)) : Moves R (tryCatch m H) := by
  intro s
  have h := hm s
  rw [run_tryCatch]
  rcases hr : m.run.run s with ⟨e | a, s'⟩ <;> rw [hr] at h
  · exact Trans.trans h (hH e s')
  · exact h

theorem Moves.attempt (hm : Moves R m) : Moves R (attempt m) := hm

/-- A step run with a handle moves along `R` when the step does and `R` does not look at the
handles the program holds. -/
theorem Moves.withHandle (hR : ∀ s s' H H', R s s' → R { s with held := H } { s' with held := H' })
    (hm : Moves R m) (id : NodeId) : Moves R (withHandle id m) := by
  intro s
  rcases hr : m.run.run { s with held := id :: s.held } with ⟨r, s'⟩
  rw [run_withHandle hr]
  have h := hm { s with held := id :: s.held }
  rw [hr] at h
  exact hR { s with held := id :: s.held } s' s.held _ h

/-- A step that reads the session moves along `R` when what follows does from that session. -/
theorem Moves.get_bind {f : Session → SessionM α} (hf : ∀ s, R s ((f s).run.run s).2) :
    Moves R (get >>= f) := hf

theorem moves_pure [Std.Refl R] (a : α) : Moves R (pure a : SessionM α) :=
  fun s => Std.Refl.refl s

theorem moves_throw [Std.Refl R] (e : Error) : Moves R (throw e : SessionM α) :=
  fun s => Std.Refl.refl s

theorem moves_get [Std.Refl R] : Moves R (get : SessionM Session) := fun s => Std.Refl.refl s

theorem moves_modify {g : Session → Session} (hg : ∀ s, R s (g s)) :
    Moves R (modify g : SessionM Unit) := hg

end Moves

/-- Every run of `m` keeps the failure of the session it starts from, or records the first. -/
abbrev KeepsFailure (m : SessionM α) : Prop := ∀ s : Session, s.Follows (m.run.run s).2

/-- `m` keeps the failure, and fails only with the failure kept by the session it leaves. -/
abbrev Guarded (m : SessionM α) : Prop :=
  KeepsFailure m ∧ ∀ (s : Session) (e : Error), (m.run.run s).1 = .error e →
    (m.run.run s).2.stickyError = some e

section KeepsFailure

variable {m : SessionM α} {f : α → SessionM β}

theorem KeepsFailure.bind (hm : KeepsFailure m) (hf : ∀ a, KeepsFailure (f a)) :
    KeepsFailure (m >>= f) :=
  Moves.bind hm hf

theorem KeepsFailure.tryCatch {H : Error → SessionM α} (hm : KeepsFailure m)
    (hH : ∀ e, KeepsFailure (H e)) : KeepsFailure (tryCatch m H) :=
  Moves.tryCatch hm hH

theorem KeepsFailure.attempt (hm : KeepsFailure m) : KeepsFailure (attempt m) := hm

theorem keepsFailure_pure (a : α) : KeepsFailure (pure a : SessionM α) := moves_pure a

theorem keepsFailure_throw (e : Error) : KeepsFailure (throw e : SessionM α) := moves_throw e

theorem keepsFailure_get : KeepsFailure (get : SessionM Session) := moves_get

theorem keepsFailure_modify {g : Session → Session} (hg : ∀ s : Session, s.Follows (g s)) :
    KeepsFailure (modify g : SessionM Unit) := hg

/-- A step that edits the session's other fields keeps its failure. -/
theorem keepsFailure_modify_of {g : Session → Session}
    (hg : ∀ s, (g s).status = s.status ∧ (g s).firstError = s.firstError) :
    KeepsFailure (modify g : SessionM Unit) := fun s => .inl (hg s)

end KeepsFailure

section Guarded

variable {m : SessionM α} {f : α → SessionM β}

theorem Guarded.bind (hm : Guarded m) (hf : ∀ a, Guarded (f a)) : Guarded (m >>= f) := by
  refine ⟨hm.1.bind fun a => (hf a).1, fun s e he => ?_⟩
  have h := hm.2 s
  rw [run_bind] at he ⊢
  rcases hr : m.run.run s with ⟨e' | a, s'⟩ <;> rw [hr] at h he
  · -- the first step failed, with the error the whole fails with
    obtain rfl : e' = e := by simpa using he
    exact h e' rfl
  · exact (hf a).2 s' e he

/-- A handler's failure does not escape a catch whose handler is guarded. -/
theorem Guarded.tryCatch {H : Error → SessionM α} (hm : KeepsFailure m) (hH : ∀ e, Guarded (H e)) :
    Guarded (tryCatch m H) := by
  refine ⟨hm.tryCatch fun e => (hH e).1, fun s e he => ?_⟩
  rw [run_tryCatch] at he ⊢
  rcases hr : m.run.run s with ⟨e' | a, s'⟩ <;> rw [hr] at he
  · exact (hH e').2 s' e he
  · cases he

/-- Holding a handle while a guarded step runs keeps it guarded. -/
theorem Guarded.withHandle (hm : Guarded m) (id : NodeId) : Guarded (withHandle id m) := by
  refine ⟨Moves.withHandle (fun _ _ _ _ h => h) hm.1 id, fun s e he => ?_⟩
  rcases hr : m.run.run { s with held := id :: s.held } with ⟨r, s'⟩
  rw [run_withHandle hr] at he ⊢
  have h := hm.2 { s with held := id :: s.held } e
  rw [hr] at h
  exact h he

/-- A step that cannot fail is guarded when it keeps the failure. -/
theorem guarded_of_ok (hm : KeepsFailure m) (hok : ∀ s, ∃ a, (m.run.run s).1 = .ok a) :
    Guarded m := by
  refine ⟨hm, fun s e he => ?_⟩
  obtain ⟨a, ha⟩ := hok s
  rw [ha] at he
  cases he

theorem guarded_pure (a : α) : Guarded (pure a : SessionM α) :=
  guarded_of_ok (keepsFailure_pure a) fun _ => ⟨a, rfl⟩

theorem guarded_get : Guarded (get : SessionM Session) :=
  guarded_of_ok keepsFailure_get fun s => ⟨s, rfl⟩

theorem guarded_modify_of {g : Session → Session}
    (hg : ∀ s, (g s).status = s.status ∧ (g s).firstError = s.firstError) :
    Guarded (modify g : SessionM Unit) :=
  guarded_of_ok (keepsFailure_modify_of hg) fun _ => ⟨(), rfl⟩

theorem run_checkSticky (s : Session) : checkSticky.run.run s =
    ((match s.stickyError with
      | some e => .error e
      | none => .ok ()), s) := by
  unfold checkSticky
  rw [run_get_bind]
  cases s.stickyError <;> rfl

theorem moves_checkSticky {R : Session → Session → Prop} [Std.Refl R] : Moves R checkSticky := by
  intro s
  rw [run_checkSticky]
  exact Std.Refl.refl s

theorem moves_ite {c : Prop} [Decidable c] {R : Session → Session → Prop} {x y : SessionM α}
    (hx : Moves R x) (hy : Moves R y) : Moves R (if c then x else y) := by
  split
  · exact hx
  · exact hy

/-- A failure of a guarded computation is the kept failure of the session it leaves. -/
theorem Guarded.kept (hm : Guarded m) {s s' : Session} {e : Error} (h : m.run.run s = (.error e, s')) :
    s.Follows s' ∧ s'.stickyError = some e := by
  have h₁ := hm.1 s
  have h₂ := hm.2 s e
  rw [h] at h₁ h₂
  exact ⟨h₁, h₂ rfl⟩

theorem guarded_ite {c : Prop} [Decidable c] {x y : SessionM α} (hx : Guarded x) (hy : Guarded y) :
    Guarded (if c then x else y) := by
  split
  · exact hx
  · exact hy

theorem guarded_checkSticky : Guarded checkSticky := by
  refine ⟨fun s => ?_, fun s e he => ?_⟩
  · rw [run_checkSticky]
    exact Session.Follows.refl s
  · rw [run_checkSticky] at he ⊢
    revert he
    cases s.stickyError <;> simp

/-- Recording a failure and failing with the kept one. -/
theorem guarded_fail {st : Status} (hst : st ≠ .noError) (m : String) (d : Error) :
    Guarded (do modify (·.signal st m); throw (((← get).stickyError).getD d) : SessionM α) := by
  refine ⟨fun s => Session.follows_signal s hst m, fun s e he => ?_⟩
  obtain ⟨e', he'⟩ := Option.isSome_iff_exists.1
    ((Session.stickyError_isSome_iff _).2 (s.status_signal hst m))
  change ((throw ((s.signal st m).stickyError.getD d) : SessionM α).run.run (s.signal st m)).1 = _ at he
  rw [he'] at he
  cases he
  exact he'

theorem guarded_failImport (m : String) : Guarded (failImport m : SessionM α) :=
  guarded_fail (by decide) m _

theorem guarded_failExport (m : String) : Guarded (failExport m : SessionM α) :=
  guarded_fail (by decide) m _

theorem guarded_tagOf (o : ObjId) : Guarded (tagOf o) := guarded_get.bind fun _ => guarded_pure _

theorem guarded_registerImported (st : NodeId) (o : ObjId) : Guarded (registerImported st o) :=
  guarded_modify_of fun _ => ⟨rfl, rfl⟩

theorem guarded_registerExported (o : ObjId) (st : NodeId) : Guarded (registerExported o st) :=
  guarded_modify_of fun _ => ⟨rfl, rfl⟩

/-- **Running a handler is guarded.** Its failure, of whatever kind, is caught and recorded
(`fail`), and a failure it recorded before returning is found by the check after it, so the
pair it made is registered only in a session that has not failed. -/
theorem guarded_runHandler {h : SessionM α} (hh : KeepsFailure h) {fail : String → SessionM α}
    (hfail : ∀ m, Guarded (fail m)) {register : α → SessionM Unit}
    (hregister : ∀ a, Guarded (register a)) :
    Guarded (do
      let a ← tryCatch h fun e => fail e.bareMessage
      checkSticky
      register a
      return a) :=
  (Guarded.tryCatch hh fun _ => hfail _).bind fun a =>
    guarded_checkSticky.bind fun _ => (hregister a).bind fun _ => guarded_pure a

/-- Reaching an exported object again fails, if it does, with the kept failure; giving its
structure a UID only counts UIDs. -/
theorem guarded_exportAgain (o : ObjId) (st : NodeId) : Guarded (exportAgain o st) := by
  unfold exportAgain
  refine (guarded_tagOf o).bind fun tag => guarded_get.bind fun s => ?_
  dsimp only
  refine guarded_ite ((guarded_failExport _).bind fun _ => ?_) ?_
  -- both branches of the check for a structure being written go on with the UID step
  all_goals
    refine guarded_get.bind fun s => guarded_ite ?_ (guarded_pure st)
    simp only [Session.generateUid, get_bind_set]
    exact guarded_get.bind fun _ =>
      Guarded.bind (guarded_modify_of fun _ => by exact ⟨rfl, rfl⟩) fun _ => guarded_pure st

end Guarded

theorem run_checkSticky_bind {s : Session} {e : Error} (he : s.stickyError = some e)
    (f : Unit → SessionM α) : (checkSticky >>= f).run.run s = (.error e, s) := by
  rw [run_bind, run_checkSticky, he]

/-- A failed session fails again at once, unchanged. -/
theorem run_failImport_of_failed {s : Session} {e : Error} (he : s.stickyError = some e)
    (m : String) : (failImport m : SessionM α).run.run s = (.error e, s) := by
  have hf : s.status ≠ .noError := Session.status_ne_of_stickyError he
  rw [run_failImport, Session.signal_of_failed hf, he]
  rfl

end SessionM

open SessionM

namespace Calls

/-- Every call of `c` keeps the failure. -/
def Keeps (c : Calls) : Prop :=
  (∀ st, KeepsFailure (c.importObject st)) ∧ (∀ v, KeepsFailure (c.importValue v)) ∧
    ∀ o, KeepsFailure (c.exportObject o)

/-- **Every run of a script keeps the failure**, when the calls it makes do: a script changes
the failure only by recording one. -/
theorem keepsFailure_run {c : Calls} (hc : c.Keeps) {α : Type} (p : Script α) :
    KeepsFailure (c.run p) := by
  have hedit : ∀ {g : Session → Session}, (∀ s, (g s).status = s.status ∧
      (g s).firstError = s.firstError) → ∀ {β : Type} {k : Unit → SessionM β},
      (∀ u, KeepsFailure (k u)) → KeepsFailure (modify g >>= k) :=
    fun hg _ _ hk => (keepsFailure_modify_of hg).bind hk
  induction p with
  | done a => exact keepsFailure_pure a
  | fail e => exact keepsFailure_throw e
  | importObject st k ih => exact (hc.1 st).attempt.bind ih
  | importValue v k ih => exact (hc.2.1 v).attempt.bind ih
  | exportObject o k ih => exact (hc.2.2 o).attempt.bind ih
  | signalImport m k ih =>
    exact (keepsFailure_modify fun s => s.follows_signal (by decide) m).bind fun _ => ih
  | signalExport m k ih =>
    exact (keepsFailure_modify fun s => s.follows_signal (by decide) m).bind fun _ => ih
  | registerImported st o k ih => exact hedit (fun _ => by exact ⟨rfl, rfl⟩) fun _ => ih
  | registerExported o st k ih => exact hedit (fun _ => by exact ⟨rfl, rfl⟩) fun _ => ih
  | generateUid pfx k ih =>
    simp only [Calls.run, Session.generateUid, get_bind_set]
    exact keepsFailure_get.bind fun _ => hedit (fun _ => by exact ⟨rfl, rfl⟩) fun _ => ih _
  | look k ih => exact keepsFailure_get.bind ih
  | edit f k ih => exact hedit (fun _ => by exact ⟨rfl, rfl⟩) fun _ => ih

/-- Every call of `c` is guarded. -/
def Guarded (c : Calls) : Prop :=
  (∀ st, SessionM.Guarded (c.importObject st)) ∧ (∀ v, SessionM.Guarded (c.importValue v)) ∧
    ∀ o, SessionM.Guarded (c.exportObject o)

theorem Guarded.keeps {c : Calls} (hc : c.Guarded) : c.Keeps :=
  ⟨fun st => (hc.1 st).1, fun v => (hc.2.1 v).1, fun o => (hc.2.2 o).1⟩

theorem run_exportValue (c : Calls) (o : ObjId) (s : Session) :
    (c.exportValue o).run.run s = match (c.exportObject o).run.run s with
      | (.ok st, s') => (.ok (.node st), s')
      | (.error e, s') => (.error e, s') := by
  rw [exportValue, run_bind]
  rcases (c.exportObject o).run.run s with ⟨_ | _, _⟩ <;> rfl

/-- An export as a value fails exactly as the export. -/
theorem exportValue_error_iff (c : Calls) (o : ObjId) (s : Session) (e : Error) (s' : Session) :
    (c.exportValue o).run.run s = (.error e, s') ↔ (c.exportObject o).run.run s = (.error e, s') := by
  rw [run_exportValue]
  rcases (c.exportObject o).run.run s with ⟨_ | _, _⟩ <;> constructor <;> intro h <;> cases h <;> rfl

end Calls

namespace Handlers

variable (h : Handlers) {deeper : Option Calls}

/-- An import fails only with the kept failure: the handler's own failure is caught and turned
into it, and a failure the handler recorded is found after it returns. -/
theorem guarded_importObject (hd : ∀ c ∈ deeper, c.Keeps) (st : NodeId) :
    Guarded (h.importObject deeper st) := by
  unfold importObject
  refine guarded_checkSticky.bind fun _ => guarded_get.bind fun s => ?_
  split
  · exact guarded_pure _
  · refine guarded_get.bind fun s' => ?_
    dsimp only
    split
    · exact guarded_failImport _
    · exact guarded_failImport _
    · next c _ _ =>
      exact guarded_runHandler (Calls.keepsFailure_run (hd c rfl) _) guarded_failImport
        (guarded_registerImported st)

theorem guarded_importValue (hd : ∀ c ∈ deeper, c.Keeps) (v : Value) :
    Guarded (h.importValue deeper v) := by
  unfold importValue
  refine guarded_get.bind fun s => ?_
  dsimp only
  split
  · exact (h.guarded_importObject hd _).withHandle _
  · exact guarded_failImport _

/-- An export fails only with the kept failure, also when its object is reached while its
structure is being written. -/
theorem guarded_exportObject (hd : ∀ c ∈ deeper, c.Keeps) (o : ObjId) :
    Guarded (h.exportObject deeper o) := by
  unfold exportObject
  refine guarded_checkSticky.bind fun _ => guarded_get.bind fun s => ?_
  split
  · exact guarded_exportAgain o _
  · refine (guarded_tagOf o).bind fun tag => ?_
    split
    · exact guarded_failExport _
    · exact guarded_failExport _
    · next c _ _ =>
      exact guarded_runHandler (Calls.keepsFailure_run (hd c rfl) _) guarded_failExport
        (guarded_registerExported o)

/-- The calls of a level are guarded when the calls below keep the failure. -/
theorem guarded_level (hd : ∀ c ∈ deeper, c.Keeps) : (h.level deeper).Guarded :=
  ⟨h.guarded_importObject hd, h.guarded_importValue hd, h.guarded_exportObject hd⟩

/-- **The calls at every level are guarded**; the handlers they run call the level below, whose
calls keep the failure by induction. -/
theorem guarded_serve : ∀ n, (h.serve n).Guarded
  | 0 => h.guarded_level (by simp)
  | n + 1 => h.guarded_level fun c hc => by
    cases hc
    exact (guarded_serve n).keeps

/-- The calls served at any depth are the calls of one level. -/
theorem serve_eq_level : ∀ n, ∃ deeper, h.serve n = h.level deeper
  | 0 => ⟨none, rfl⟩
  | n + 1 => ⟨some (h.serve n), rfl⟩

section Failed

variable (deeper) {s : Session} {e : Error} (he : s.stickyError = some e)
include he

theorem run_importObject_of_failed (st : NodeId) :
    (h.importObject deeper st).run.run s = (.error e, s) := by
  unfold importObject
  exact run_checkSticky_bind he _

theorem run_importValue_of_failed (v : Value) :
    (h.importValue deeper v).run.run s = (.error e, s) := by
  unfold importValue
  rw [run_get_bind]
  dsimp only
  split
  · next st _ =>
    -- the handle taken on the structure is dropped again as the import fails
    have hfail := h.run_importObject_of_failed deeper (s := { s with held := st :: s.held }) he st
    rw [run_withHandle hfail]
    simp only [List.erase_cons_head]
  · exact run_failImport_of_failed he _

theorem run_exportObject_of_failed (o : ObjId) :
    (h.exportObject deeper o).run.run s = (.error e, s) := by
  unfold exportObject
  exact run_checkSticky_bind he _

end Failed

end Handlers

/-- **The first failure of a session is kept**, whatever the registry's handlers do and at every
nesting level of the calls:
* a session starts with its status and message agreeing, and every run of a script keeps them so;
* every run of a script leaves the failure of a failed session as it is;
* on a failed session, each import and export call fails at once with the kept failure and leaves
  the session as it is: no handler runs, and the pairs made and the UID counter stay;
* every failure of an import or export call is the kept failure of the session it leaves, of
  the kind its status says and carrying its message. -/
theorem first_failure_kept (h : Handlers) (fuel : Nat) :
    (∀ s : Session, s.reset.Consistent) ∧
    (∀ {α : Type} (p : Script α) (s : Session), s.Consistent →
      (((h.serve fuel).run p).run.run s).2.Consistent) ∧
    (∀ {α : Type} (p : Script α) (s : Session), s.status ≠ .noError →
      (((h.serve fuel).run p).run.run s).2.status = s.status ∧
        (((h.serve fuel).run p).run.run s).2.firstError = s.firstError) ∧
    (∀ s : Session, s.status ≠ .noError → ∃ e, s.stickyError = some e ∧
      (∀ st, ((h.serve fuel).importObject st).run.run s = (.error e, s)) ∧
      (∀ v, ((h.serve fuel).importValue v).run.run s = (.error e, s)) ∧
      (∀ o, ((h.serve fuel).exportObject o).run.run s = (.error e, s)) ∧
      (∀ o, ((h.serve fuel).exportValue o).run.run s = (.error e, s))) ∧
    (∀ (s : Session) (e : Error) (s' : Session), s.Consistent →
      ((∃ st, ((h.serve fuel).importObject st).run.run s = (.error e, s')) ∨
        (∃ v, ((h.serve fuel).importValue v).run.run s = (.error e, s')) ∨
        (∃ o, ((h.serve fuel).exportObject o).run.run s = (.error e, s')) ∨
        (∃ o, ((h.serve fuel).exportValue o).run.run s = (.error e, s'))) →
      ∃ m, s'.firstError = some m ∧
        (s'.status = .importError ∧ e = .importFailed m ∨ s'.status = .exportError ∧ e = .exportFailed m)) := by
  have hg := h.guarded_serve fuel
  have hrun : ∀ {α : Type} (p : Script α), KeepsFailure ((h.serve fuel).run p) :=
    fun p => Calls.keepsFailure_run hg.keeps p
  refine ⟨Session.consistent_reset, fun p s hc => (hrun p s).consistent hc,
    fun p s hf => (hrun p s).of_failed hf, fun s hf => ?_, fun s e s' hc hcall => ?_⟩
  · obtain ⟨e, he⟩ := Option.isSome_iff_exists.1 ((Session.stickyError_isSome_iff s).2 hf)
    obtain ⟨deeper, hd⟩ := h.serve_eq_level fuel
    rw [hd]
    refine ⟨e, he, h.run_importObject_of_failed deeper he, h.run_importValue_of_failed deeper he,
      h.run_exportObject_of_failed deeper he, fun o => ?_⟩
    rw [Calls.exportValue_error_iff]
    exact h.run_exportObject_of_failed deeper he o
  · -- the call leaves a session that follows the consistent one and keeps the call's failure
    have hk : s.Follows s' ∧ s'.stickyError = some e := by
      rcases hcall with ⟨st, hr⟩ | ⟨v, hr⟩ | ⟨o, hr⟩ | ⟨o, hr⟩
      · exact (hg.1 st).kept hr
      · exact (hg.2.1 v).kept hr
      · exact (hg.2.2 o).kept hr
      · exact (hg.2.2 o).kept ((Calls.exportValue_error_iff _ _ _ _ _).1 hr)
    exact (hk.1.consistent hc).stickyError hk.2

/-- A fresh session holding one `<Mesh>` object. -/
def meshSession : Session := { objects := #[⟨"<Mesh>", "m", []⟩] }

/-- With no handlers, exporting the object of `meshSession` fails with an export failure that
carries the kept message, and an import then fails at once with it. -/
theorem first_failure_kept_unregistered :
    ((({} : Registry).handlers.serve 1).exportObject 0).run.run meshSession =
        (.error (.exportFailed ("no exporter registered for " ++ "<Mesh>")),
          { meshSession with
            status := .exportError
            firstError := some ("no exporter registered for " ++ "<Mesh>") }) ∧
      (∃ m, some ("no exporter registered for " ++ "<Mesh>") = some m ∧
        (Status.exportError = .importError ∧
            Error.exportFailed ("no exporter registered for " ++ "<Mesh>") = .importFailed m ∨
          Status.exportError = .exportError ∧
            Error.exportFailed ("no exporter registered for " ++ "<Mesh>") = .exportFailed m)) ∧
      ∀ st, ((({} : Registry).handlers.serve 1).importObject st).run.run
          { meshSession with
            status := .exportError
            firstError := some ("no exporter registered for " ++ "<Mesh>") } =
        (.error (.exportFailed ("no exporter registered for " ++ "<Mesh>")),
          { meshSession with
            status := .exportError
            firstError := some ("no exporter registered for " ++ "<Mesh>") }) := by
  obtain ⟨-, -, -, hfailed, hkind⟩ := first_failure_kept ({} : Registry).handlers 1
  have hrun : ((({} : Registry).handlers.serve 1).exportObject 0).run.run meshSession =
      (.error (.exportFailed ("no exporter registered for " ++ "<Mesh>")),
        { meshSession with
          status := .exportError
          firstError := some ("no exporter registered for " ++ "<Mesh>") }) := rfl
  refine ⟨hrun, hkind _ _ _ ⟨fun _ => rfl, fun _ => rfl⟩ (.inr (.inr (.inl ⟨0, hrun⟩))), ?_⟩
  obtain ⟨e, he, himport, -⟩ := hfailed { meshSession with
    status := .exportError
    firstError := some ("no exporter registered for " ++ "<Mesh>") } (by decide)
  obtain rfl := Option.some.inj (he.symm.trans rfl)
  exact himport

end GraphDoc
