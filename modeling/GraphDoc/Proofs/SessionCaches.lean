import GraphDoc.Proofs.StickyFailure
import GraphDoc.Proofs.SessionExport
/-! # A session's pairs and generated UIDs

A session remembers the structure it made for each object and the object it made for each
structure. An export that succeeds leaves its object registered with the structure it gave, and
an import that succeeds its structure with the object it gave; once registered, a pair stays for
the rest of the session, whatever calls follow, as long as the handlers register only their own
pair, as the registry's do (`Handlers.RegistersWithin`). So a second export of an object gives
the very structure of the first, now with a UID other than `#NULL`, and a second import of a
structure the very object of the first (`session_caches`).

Generated UIDs are `#`, a prefix, `id` and the counter. The counter never goes back along any
run of any handlers, and a generated UID determines the counter it was made with, whatever the
prefixes, since the `d` of `id` is no digit: so no two UIDs generated in a session are the same.

* `Session.KeepsPairs ex im`: the later session keeps every pair of the earlier one but those of
  the objects in `ex` and the structures in `im`, and a counter no lower. Every call moves the
  session along it (`SessionM.Moves`, `Handlers.keepsPairs_serve`), and so does every run of a
  script that registers only within `ex` and `im` (`Calls.keepsPairs_run`).
* The successes of a call are read off its steps by inversion (`SessionM.Runs.of_bind`).
-/
namespace GraphDoc

open SessionM

/-! ## Keeping the pairs made -/

namespace Session

/-- `s.KeepsPairs ex im s'`: `s'` keeps every pair that `s` has registered, but the structures
of the objects in `ex` and the objects of the structures in `im`, and a UID counter no lower. -/
structure KeepsPairs (ex : ObjId → Prop) (im : NodeId → Prop) (s s' : Session) : Prop where
  exported : ∀ o st, ¬ ex o → s.exported.lookup o = some st → s'.exported.lookup o = some st
  imported : ∀ st o, ¬ im st → s.imported.lookup st = some o → s'.imported.lookup st = some o
  counter : s.uidCounter ≤ s'.uidCounter

variable {ex : ObjId → Prop} {im : NodeId → Prop} {s s' : Session}

instance : Std.Refl (KeepsPairs ex im) :=
  ⟨fun _ => ⟨fun _ _ _ h => h, fun _ _ _ h => h, le_rfl⟩⟩

instance : Trans (KeepsPairs ex im) (KeepsPairs ex im) (KeepsPairs ex im) :=
  ⟨fun h₁ h₂ => ⟨fun o st hx h => h₂.exported o st hx (h₁.exported o st hx h),
    fun st o hx h => h₂.imported st o hx (h₁.imported st o hx h), h₁.counter.trans h₂.counter⟩⟩

/-- Excepting more pairs keeps less. -/
theorem KeepsPairs.mono {ex' : ObjId → Prop} {im' : NodeId → Prop} (hex : ∀ o, ex o → ex' o)
    (him : ∀ st, im st → im' st) (h : KeepsPairs ex im s s') : KeepsPairs ex' im' s s' :=
  ⟨fun o st hx => h.exported o st fun h' => hx (hex o h'),
    fun st o hx => h.imported st o fun h' => hx (him st h'), h.counter⟩

/-- A step that leaves the pairs and the counter as they are keeps them. -/
theorem keepsPairs_of_eq (he : s'.exported = s.exported) (hi : s'.imported = s.imported)
    (hc : s'.uidCounter = s.uidCounter) : KeepsPairs ex im s s' :=
  ⟨fun _ _ _ h => he ▸ h, fun _ _ _ h => hi ▸ h, hc.ge⟩

/-- Registering the structure of an object in `ex` keeps the other pairs. -/
theorem keepsPairs_registerExported {o : ObjId} (st : NodeId) (ho : ex o) :
    KeepsPairs ex im s { s with exported := (o, st) :: s.exported.filter (·.1 != o) } := by
  refine ⟨fun x st' hx h => ?_, fun _ _ _ h => h, le_rfl⟩
  have hxo : x ≠ o := fun he => hx (he ▸ ho)
  rw [lookup_registered, if_neg hxo]
  exact h

/-- Registering the object of a structure in `im` keeps the other pairs. -/
theorem keepsPairs_registerImported {st : NodeId} (o : ObjId) (hst : im st) :
    KeepsPairs ex im s { s with imported := (st, o) :: s.imported.filter (·.1 != st) } := by
  refine ⟨fun _ _ _ h => h, fun x o' hx h => ?_, le_rfl⟩
  have hxs : x ≠ st := fun he => hx (he ▸ hst)
  rw [lookup_registered, if_neg hxs]
  exact h

/-- An object with no structure yet has no pair to keep. -/
theorem KeepsPairs.of_unexported {o : ObjId} (h : KeepsPairs (fun x => ex x ∨ x = o) im s s')
    (hn : s.exported.lookup o = none) : KeepsPairs ex im s s' := by
  refine ⟨fun x st hx hl => h.exported x st ?_ hl, h.imported, h.counter⟩
  rintro (hx' | rfl)
  · exact hx hx'
  · rw [hn] at hl
    cases hl

/-- A structure with no object yet has no pair to keep. -/
theorem KeepsPairs.of_unimported {st : NodeId} (h : KeepsPairs ex (fun x => im x ∨ x = st) s s')
    (hn : s.imported.lookup st = none) : KeepsPairs ex im s s' := by
  refine ⟨h.exported, fun x o hx hl => h.imported x o ?_ hl, h.counter⟩
  rintro (hx' | rfl)
  · exact hx hx'
  · rw [hn] at hl
    cases hl

end Session

/-! ## The steps of a session keep the pairs -/

namespace SessionM

variable {α : Type} {ex : ObjId → Prop} {im : NodeId → Prop}

theorem keepsPairs_signal (s : Session) (st : Status) (m : String) :
    s.KeepsPairs ex im (s.signal st m) := by
  unfold Session.signal
  split
  · exact Std.Refl.refl s
  · exact Session.keepsPairs_of_eq rfl rfl rfl

/-- Recording a failure and failing with the kept one keeps the pairs. -/
theorem moves_fail (st : Status) (m : String) (d : Error) :
    Moves (Session.KeepsPairs ex im)
      (do modify (·.signal st m); throw (((← get).stickyError).getD d) : SessionM α) :=
  (moves_modify fun s => keepsPairs_signal s st m).bind fun _ =>
    moves_get.bind fun _ => moves_throw _

theorem moves_failImport (m : String) :
    Moves (Session.KeepsPairs ex im) (failImport m : SessionM α) :=
  moves_fail _ m _

theorem moves_failExport (m : String) :
    Moves (Session.KeepsPairs ex im) (failExport m : SessionM α) :=
  moves_fail _ m _

theorem moves_tagOf (o : ObjId) : Moves (Session.KeepsPairs ex im) (tagOf o) :=
  moves_get.bind fun _ => moves_pure _

/-- Reaching an exported object again changes neither pair: it fails, or gives the structure a
generated UID, which only counts the counter up. -/
theorem moves_exportAgain (o : ObjId) (st : NodeId) :
    Moves (Session.KeepsPairs ex im) (exportAgain o st) := by
  unfold exportAgain
  refine (moves_tagOf o).bind fun tag => moves_get.bind fun s => ?_
  dsimp only
  refine moves_ite ((moves_failExport _).bind fun _ => ?_) ?_
  all_goals
    refine moves_get.bind fun s => moves_ite ?_ (moves_pure st)
    simp only [Session.generateUid, get_bind_set]
    exact moves_get.bind fun _ => (moves_modify fun s =>
      ⟨fun _ _ _ h => h, fun _ _ _ h => h, Nat.le_succ _⟩).bind fun _ => moves_pure st

end SessionM

/-! ## Scripts that register only some pairs -/

namespace Script

variable {α : Type}

/-- `p.Registers ex im`: every pair the script registers is the structure of an object in `ex`
or the object of a structure in `im`, whatever its calls give. -/
inductive Registers (ex : ObjId → Prop) (im : NodeId → Prop) : Script α → Prop
  | done (a : α) : Registers ex im (.done a)
  | fail (e : Error) : Registers ex im (.fail e)
  | importObject (st : NodeId) (k : Except Error ObjId → Script α) :
      (∀ r, Registers ex im (k r)) → Registers ex im (.importObject st k)
  | importValue (v : Value) (k : Except Error ObjId → Script α) :
      (∀ r, Registers ex im (k r)) → Registers ex im (.importValue v k)
  | exportObject (o : ObjId) (k : Except Error NodeId → Script α) :
      (∀ r, Registers ex im (k r)) → Registers ex im (.exportObject o k)
  | signalImport (m : String) (k : Script α) :
      Registers ex im k → Registers ex im (.signalImport m k)
  | signalExport (m : String) (k : Script α) :
      Registers ex im k → Registers ex im (.signalExport m k)
  | registerImported (st : NodeId) (o : ObjId) (k : Script α) :
      im st → Registers ex im k → Registers ex im (.registerImported st o k)
  | registerExported (o : ObjId) (st : NodeId) (k : Script α) :
      ex o → Registers ex im k → Registers ex im (.registerExported o st k)
  | generateUid (pfx : String) (k : String → Script α) :
      (∀ uid, Registers ex im (k uid)) → Registers ex im (.generateUid pfx k)
  | look (k : Session → Script α) : (∀ s, Registers ex im (k s)) → Registers ex im (.look k)
  | edit (f : Domain → Domain) (k : Script α) : Registers ex im k → Registers ex im (.edit f k)

/-- Every script registers within all pairs. -/
theorem registers_all : ∀ p : Script α, p.Registers (fun _ => True) (fun _ => True)
  | .done a => .done a
  | .fail e => .fail e
  | .importObject st k => .importObject st k fun r => registers_all (k r)
  | .importValue v k => .importValue v k fun r => registers_all (k r)
  | .exportObject o k => .exportObject o k fun r => registers_all (k r)
  | .signalImport m k => .signalImport m k (registers_all k)
  | .signalExport m k => .signalExport m k (registers_all k)
  | .registerImported st o k => .registerImported st o k trivial (registers_all k)
  | .registerExported o st k => .registerExported o st k trivial (registers_all k)
  | .generateUid pfx k => .generateUid pfx k fun uid => registers_all (k uid)
  | .look k => .look k fun s => registers_all (k s)
  | .edit f k => .edit f k (registers_all k)

/-- Registering within fewer pairs registers within more. -/
theorem Registers.mono {ex ex' : ObjId → Prop} {im im' : NodeId → Prop} (hex : ∀ o, ex o → ex' o)
    (him : ∀ st, im st → im' st) {p : Script α} (hp : p.Registers ex im) : p.Registers ex' im' := by
  induction hp with
  | done a => exact .done a
  | fail e => exact .fail e
  | importObject st k _ ih => exact .importObject st k ih
  | importValue v k _ ih => exact .importValue v k ih
  | exportObject o k _ ih => exact .exportObject o k ih
  | signalImport m k _ ih => exact .signalImport m k ih
  | signalExport m k _ ih => exact .signalExport m k ih
  | registerImported st o k hst _ ih => exact .registerImported st o k (him st hst) ih
  | registerExported o st k ho _ ih => exact .registerExported o st k (hex o ho) ih
  | generateUid pfx k _ ih => exact .generateUid pfx k ih
  | look k _ ih => exact .look k ih
  | edit f k _ ih => exact .edit f k ih

end Script

namespace Calls

variable {ex : ObjId → Prop} {im : NodeId → Prop}

/-- Every call of `c` keeps the pairs but those of `ex` and `im`, and the counter. -/
def KeepsPairs (ex : ObjId → Prop) (im : NodeId → Prop) (c : Calls) : Prop :=
  (∀ st, Moves (Session.KeepsPairs ex im) (c.importObject st)) ∧
    (∀ v, Moves (Session.KeepsPairs ex im) (c.importValue v)) ∧
    ∀ o, Moves (Session.KeepsPairs ex im) (c.exportObject o)

theorem KeepsPairs.mono {c : Calls} {ex' : ObjId → Prop} {im' : NodeId → Prop}
    (hex : ∀ o, ex o → ex' o) (him : ∀ st, im st → im' st) (hc : c.KeepsPairs ex im) :
    c.KeepsPairs ex' im' :=
  have hR := fun s s' (h : Session.KeepsPairs ex im s s') => h.mono hex him
  ⟨fun st => (hc.1 st).mono hR, fun v => (hc.2.1 v).mono hR, fun o => (hc.2.2 o).mono hR⟩

/-- **A script that registers within `ex` and `im` keeps every other pair**, and the counter,
when its calls do. -/
theorem keepsPairs_run {c : Calls} (hc : c.KeepsPairs ex im) {α : Type} {p : Script α}
    (hp : p.Registers ex im) : Moves (Session.KeepsPairs ex im) (c.run p) := by
  induction hp with
  | done a => exact moves_pure a
  | fail e => exact moves_throw e
  | importObject st k _ ih => exact (hc.1 st).attempt.bind ih
  | importValue v k _ ih => exact (hc.2.1 v).attempt.bind ih
  | exportObject o k _ ih => exact (hc.2.2 o).attempt.bind ih
  | signalImport m k _ ih =>
    exact (moves_modify fun s => keepsPairs_signal s _ m).bind fun _ => ih
  | signalExport m k _ ih =>
    exact (moves_modify fun s => keepsPairs_signal s _ m).bind fun _ => ih
  | registerImported st o k hst _ ih =>
    exact (moves_modify fun s => Session.keepsPairs_registerImported o hst).bind fun _ => ih
  | registerExported o st k ho _ ih =>
    exact (moves_modify fun s => Session.keepsPairs_registerExported st ho).bind fun _ => ih
  | generateUid pfx k _ ih =>
    simp only [Calls.run, Session.generateUid, get_bind_set]
    exact moves_get.bind fun _ => (moves_modify fun s =>
      ⟨fun _ _ _ h => h, fun _ _ _ h => h, Nat.le_succ _⟩).bind fun _ => ih _
  | look k _ ih => exact moves_get.bind ih
  | edit f k _ ih =>
    refine Moves.bind ?_ fun _ => ih
    exact moves_modify fun _ => Session.keepsPairs_of_eq rfl rfl rfl

end Calls

namespace Handlers

variable {ex : ObjId → Prop} {im : NodeId → Prop}

/-- The handlers' code registers within `ex` and `im` and its own pair: the importer of a
structure may also register that structure's object, and the exporter of an object that
object's structure. With nothing in `ex` and `im`, each handler registers only its own pair. -/
def RegistersWithin (ex : ObjId → Prop) (im : NodeId → Prop) (h : Handlers) : Prop :=
  ∀ tag w, h.get? tag = some w →
    (∀ st, (w.importer st).Registers ex fun x => im x ∨ x = st) ∧
    ∀ o, (w.exporter o).Registers (fun x => ex x ∨ x = o) im

/-- Any handlers register within all pairs. -/
theorem registersWithin_all (h : Handlers) : h.RegistersWithin (fun _ => True) (fun _ => True) :=
  fun _ w _ => ⟨fun st => (Script.registers_all (w.importer st)).mono (fun _ h => h)
    fun _ _ => .inl trivial, fun o => (Script.registers_all (w.exporter o)).mono
      (fun _ _ => .inl trivial) fun _ h => h⟩

variable (h : Handlers) {deeper : Option Calls}

/-- An import keeps every pair: a structure with an object is not read again, and one without
is read by its importer, which registers only its object, as the import does after it. -/
theorem keepsPairs_importObject (hh : h.RegistersWithin ex im)
    (hd : ∀ c ∈ deeper, c.KeepsPairs ex im) (st : NodeId) :
    Moves (Session.KeepsPairs ex im) (h.importObject deeper st) := by
  unfold importObject
  refine moves_checkSticky.bind fun _ => Moves.get_bind fun s => ?_
  split
  · exact Std.Refl.refl s
  · next hnone =>
    refine Session.KeepsPairs.of_unimported ?_ hnone
    refine moves_get.bind (fun s' => ?_) s
    dsimp only
    split
    · exact moves_failImport _
    · exact moves_failImport _
    · next _ _ c w hw =>
      have hrun := Calls.keepsPairs_run ((hd c rfl).mono (fun _ h => h) fun _ h => .inl h)
        ((hh _ w hw).1 st)
      exact (hrun.tryCatch fun _ => moves_failImport _).bind fun o =>
        moves_checkSticky.bind fun _ =>
          (moves_modify fun _ => Session.keepsPairs_registerImported o (.inr rfl)).bind
            fun _ => moves_pure o

theorem keepsPairs_importValue (hh : h.RegistersWithin ex im)
    (hd : ∀ c ∈ deeper, c.KeepsPairs ex im) (v : Value) :
    Moves (Session.KeepsPairs ex im) (h.importValue deeper v) := by
  unfold importValue
  refine moves_get.bind fun s => ?_
  dsimp only
  split
  · -- the pairs and the counter do not depend on the handles the program holds
    exact (h.keepsPairs_importObject hh hd _).withHandle
      (fun _ _ _ _ hk => ⟨hk.exported, hk.imported, hk.counter⟩) _
  · exact moves_failImport _

/-- An export keeps every pair: an object with a structure is only reached again, and one
without is written by its exporter, which registers only its structure, as the export does
after it. -/
theorem keepsPairs_exportObject (hh : h.RegistersWithin ex im)
    (hd : ∀ c ∈ deeper, c.KeepsPairs ex im) (o : ObjId) :
    Moves (Session.KeepsPairs ex im) (h.exportObject deeper o) := by
  unfold exportObject
  refine moves_checkSticky.bind fun _ => Moves.get_bind fun s => ?_
  split
  · exact moves_exportAgain o _ s
  · next hnone =>
    refine Session.KeepsPairs.of_unexported ?_ hnone
    refine (moves_tagOf o).bind (fun tag => ?_) s
    split
    · exact moves_failExport _
    · exact moves_failExport _
    · next _ _ c w hw =>
      have hrun := Calls.keepsPairs_run ((hd c rfl).mono (fun _ h => .inl h) fun _ h => h)
        ((hh _ w hw).2 o)
      exact (hrun.tryCatch fun _ => moves_failExport _).bind fun st =>
        moves_checkSticky.bind fun _ =>
          (moves_modify fun _ => Session.keepsPairs_registerExported st (.inr rfl)).bind
            fun _ => moves_pure st

/-- **The calls at every level keep every pair and the counter**; the handlers they run call
the level below, whose calls keep them by induction. -/
theorem keepsPairs_serve (hh : h.RegistersWithin ex im) : ∀ n, (h.serve n).KeepsPairs ex im
  | 0 => ⟨h.keepsPairs_importObject hh (by simp), h.keepsPairs_importValue hh (by simp),
      h.keepsPairs_exportObject hh (by simp)⟩
  | n + 1 =>
    have hd : ∀ c ∈ some (h.serve n), c.KeepsPairs ex im := fun c hc => by
      cases hc
      exact keepsPairs_serve hh n
    ⟨h.keepsPairs_importObject hh hd, h.keepsPairs_importValue hh hd,
      h.keepsPairs_exportObject hh hd⟩

end Handlers

/-! ## What a successful call leaves -/

namespace SessionM

variable {α β : Type}

/-- A run has one outcome. -/
theorem Runs.det {m : SessionM α} {s s' s'' : Session} {a b : α} (h : Runs m s a s')
    (h' : Runs m s b s'') : a = b ∧ s' = s'' := by
  unfold Runs at h h'
  rw [h] at h'
  injection h' with h₁ h₂
  injection h₁ with h₁
  exact ⟨h₁, h₂⟩

/-- A sequence succeeds only when its first step does and the rest succeeds after it. -/
theorem Runs.of_bind {m : SessionM α} {f : α → SessionM β} {s s₂ : Session} {b : β}
    (h : Runs (m >>= f) s b s₂) : ∃ a s₁, Runs m s a s₁ ∧ Runs (f a) s₁ b s₂ := by
  unfold Runs at h
  rw [run_bind] at h
  rcases hr : m.run.run s with ⟨e | a, s₁⟩ <;> rw [hr] at h
  · cases h
  · exact ⟨a, s₁, hr, h⟩

theorem Runs.of_pure {a b : α} {s s' : Session} (h : Runs (pure a) s b s') : b = a ∧ s' = s := by
  obtain ⟨hab, hs⟩ := (runs_pure a s).det h
  exact ⟨hab.symm, hs.symm⟩

theorem not_runs_throw (e : Error) {s s' : Session} {a : α} : ¬ Runs (throw e) s a s' := by
  intro h
  cases h

theorem not_runs_fail (st : Status) (m : String) (d : Error) {s s' : Session} {a : α} :
    ¬ Runs (do modify (·.signal st m); throw (((← get).stickyError).getD d) : SessionM α) s a s' := by
  intro h
  obtain ⟨_, _, -, h⟩ := h.of_bind
  obtain ⟨_, _, -, h⟩ := h.of_bind
  exact not_runs_throw _ h

theorem Runs.of_checkSticky {s s' : Session} {u : Unit} (h : Runs checkSticky s u s') :
    s.stickyError = none ∧ s' = s := by
  unfold Runs at h
  rw [run_checkSticky] at h
  cases hs : s.stickyError with
  | none =>
    rw [hs] at h
    injection h with _ h₂
    exact ⟨rfl, h₂.symm⟩
  | some e =>
    rw [hs] at h
    injection h with h₁
    injection h₁

end SessionM

/-! ## Reaching an exported object again -/

namespace SessionM

/-- A structure reached again while it is being written fails the export. -/
theorem exportAgain_fails {o : ObjId} {st : NodeId} {s : Session}
    (hw : s.writing.contains st = true) : ∃ e s', (exportAgain o st).run.run s = (.error e, s') := by
  unfold exportAgain
  rw [run_bind, show (tagOf o).run.run s = (.ok (((s.object? o).map Obj.tag).getD ""), s) from rfl]
  dsimp only
  rw [run_get_bind, if_pos hw, run_bind]
  rcases hf : (failExport _ : SessionM Unit).run.run s with ⟨e | u, s'⟩
  · exact ⟨e, s', rfl⟩
  · exact absurd hf (not_runs_fail _ _ _)

/-- **Reaching a structure again gives it**: as it was, or, when it was a structure without a
UID, named with the next generated UID. -/
theorem Runs.exportAgain_cases {o : ObjId} {st x : NodeId} {s s' : Session}
    (h : Runs (exportAgain o st) s x s') : x = st ∧
      ((s' = s ∧ ∀ tag line pairs, s.graph.get? st ≠ some ⟨tag, line, .struct nullUid pairs⟩) ∨
      ∃ tag line pairs, s.graph.get? st = some ⟨tag, line, .struct nullUid pairs⟩ ∧
        s' = { s with uidCounter := s.uidCounter + 1,
                      graph := s.graph.setUid st
                        (s.generateUid (uidPrefix (((s.object? o).map Obj.tag).getD ""))).1 }) := by
  cases hw : s.writing.contains st with
  | true =>
    obtain ⟨e, s'', he⟩ := exportAgain_fails (o := o) hw
    unfold Runs at h
    rw [he] at h
    cases h
  | false =>
    by_cases hnull : ∃ tag line pairs, s.graph.get? st = some ⟨tag, line, .struct nullUid pairs⟩
    · obtain ⟨tag, line, pairs, hn⟩ := hnull
      obtain ⟨rfl, rfl⟩ := (runs_exportAgain_named hw hn).det h
      exact ⟨rfl, .inr ⟨tag, line, pairs, hn, rfl⟩⟩
    · have hn : ∀ tag line pairs, s.graph.get? st ≠ some ⟨tag, line, .struct nullUid pairs⟩ :=
        fun tag line pairs he => hnull ⟨tag, line, pairs, he⟩
      obtain ⟨rfl, rfl⟩ := (runs_exportAgain_kept hw hn).det h
      exact ⟨rfl, .inl ⟨rfl, hn⟩⟩

/-- Reaching an exported object again keeps the pairs. -/
theorem Runs.exportAgain_inv {o : ObjId} {st x : NodeId} {s s' : Session}
    (h : Runs (exportAgain o st) s x s') :
    x = st ∧ s'.exported = s.exported ∧ s'.imported = s.imported := by
  obtain ⟨rfl, ⟨rfl, -⟩ | ⟨_, _, _, -, rfl⟩⟩ := h.exportAgain_cases
  · exact ⟨rfl, rfl, rfl⟩
  · exact ⟨rfl, rfl, rfl⟩

end SessionM

/-! ## Calls that succeed, and calls made again -/

namespace Handlers

variable (h : Handlers) {deeper : Option Calls}

/-- **An export that succeeds leaves its object registered** with the structure it gave: the
structure it had, or the one its exporter made, registered after the exporter returned. -/
theorem exported_of_runs {o : ObjId} {st : NodeId} {s s' : Session}
    (hr : Runs (h.exportObject deeper o) s st s') : s'.exported.lookup o = some st := by
  unfold exportObject at hr
  obtain ⟨_, s₁, hc, hr₁⟩ := hr.of_bind
  obtain ⟨-, rfl⟩ := hc.of_checkSticky
  obtain ⟨_, s₂, hg, hr₂⟩ := hr₁.of_bind
  obtain ⟨rfl, rfl⟩ := (runs_get _).det hg
  split at hr₂
  · next st₀ hl =>
    obtain ⟨rfl, he, -⟩ := hr₂.exportAgain_inv
    rw [he]
    exact hl
  · obtain ⟨tag, s₃, -, hr₃⟩ := hr₂.of_bind
    split at hr₃
    · exact absurd hr₃ (not_runs_fail _ _ _)
    · exact absurd hr₃ (not_runs_fail _ _ _)
    · -- the exporter's structure is registered after the check for a failure
      obtain ⟨st', s₄, -, hr₄⟩ := hr₃.of_bind
      obtain ⟨_, s₅, -, hr₅⟩ := hr₄.of_bind
      obtain ⟨_, s₆, hreg, hr₆⟩ := hr₅.of_bind
      obtain ⟨rfl, rfl⟩ := hr₆.of_pure
      obtain ⟨-, rfl⟩ := (runs_registerExported o _ s₅).det hreg
      simp

/-- **An import that succeeds leaves its structure registered** with the object it gave. -/
theorem imported_of_runs {st : NodeId} {o : ObjId} {s s' : Session}
    (hr : Runs (h.importObject deeper st) s o s') : s'.imported.lookup st = some o := by
  unfold importObject at hr
  obtain ⟨_, s₁, hc, hr₁⟩ := hr.of_bind
  obtain ⟨-, rfl⟩ := hc.of_checkSticky
  obtain ⟨_, s₂, hg, hr₂⟩ := hr₁.of_bind
  obtain ⟨rfl, rfl⟩ := (runs_get _).det hg
  split at hr₂
  · next o₀ hl =>
    obtain ⟨rfl, rfl⟩ := hr₂.of_pure
    exact hl
  · obtain ⟨_, s₃, hg', hr₃⟩ := hr₂.of_bind
    obtain ⟨rfl, rfl⟩ := (runs_get _).det hg'
    dsimp only at hr₃
    split at hr₃
    · exact absurd hr₃ (not_runs_fail _ _ _)
    · exact absurd hr₃ (not_runs_fail _ _ _)
    · -- the importer's object is registered after the check for a failure
      obtain ⟨o', s₄, -, hr₄⟩ := hr₃.of_bind
      obtain ⟨_, s₅, -, hr₅⟩ := hr₄.of_bind
      obtain ⟨_, s₆, hreg, hr₆⟩ := hr₅.of_bind
      obtain ⟨rfl, rfl⟩ := hr₆.of_pure
      obtain ⟨-, rfl⟩ := (runs_modify _ s₅).det hreg
      simp

/-- An export of an object that has a structure, in a session that has not failed, reaches
that structure again. -/
theorem run_exportObject_of_exported {o : ObjId} {st : NodeId} {s : Session}
    (hs : s.stickyError = none) (hl : s.exported.lookup o = some st) :
    (h.exportObject deeper o).run.run s = (exportAgain o st).run.run s := by
  unfold exportObject
  rw [run_bind, run_checkSticky, hs]
  simp only [run_get_bind, hl]

/-- An import of a structure that has an object, in a session that has not failed, gives that
object and changes nothing. -/
theorem run_importObject_of_imported {st : NodeId} {o : ObjId} {s : Session}
    (hs : s.stickyError = none) (hl : s.imported.lookup st = some o) :
    (h.importObject deeper st).run.run s = (.ok o, s) := by
  unfold importObject
  rw [run_bind, run_checkSticky, hs]
  simp only [run_get_bind, hl]
  rfl

/-- **An export of an object that has a structure gives that structure**, now with a UID other
than `#NULL`: its own, or the next generated one. It fails only by recording a failure, when
the session had one or the structure is being written. -/
theorem exportObject_of_exported {o : ObjId} {st : NodeId} {s s' : Session}
    {r : Except Error NodeId} (hl : s.exported.lookup o = some st)
    (hrun : (h.exportObject deeper o).run.run s = (r, s')) (hok : s'.status = .noError) :
    r = .ok st ∧ ∀ tag line uid pairs, s.graph.get? st = some ⟨tag, line, .struct uid pairs⟩ →
      ∃ uid', s'.graph.get? st = some ⟨tag, line, .struct uid' pairs⟩ ∧ uid' ≠ nullUid ∧
        (uid ≠ nullUid → uid' = uid) ∧
        (uid = nullUid →
          uid' = (s.generateUid (uidPrefix (((s.object? o).map Obj.tag).getD ""))).1) := by
  -- a failed session fails the export at once and stays failed
  have hs : s.stickyError = none := by
    cases he : s.stickyError with
    | none => rfl
    | some e =>
      rw [h.run_exportObject_of_failed deeper he o] at hrun
      cases hrun
      exact absurd hok (Session.status_ne_of_stickyError he)
  rw [h.run_exportObject_of_exported hs hl] at hrun
  -- a failure of the export reached again would be kept
  obtain ⟨x, rfl⟩ : ∃ x, r = .ok x := by
    cases r with
    | ok x => exact ⟨x, rfl⟩
    | error e =>
      exact absurd hok (Session.status_ne_of_stickyError ((guarded_exportAgain o st).kept hrun).2)
  obtain ⟨rfl, ⟨rfl, hn⟩ | ⟨tag, line, pairs, hn, rfl⟩⟩ :=
    (show Runs (exportAgain o st) s x s' from hrun).exportAgain_cases
  · -- anything but a structure without a UID is left as it is
    refine ⟨rfl, fun tag line uid pairs hn' => ⟨uid, hn', fun hu => ?_, fun _ => rfl, fun hu => ?_⟩⟩
    · exact hn tag line pairs (hu ▸ hn')
    · exact absurd (hu ▸ hn') (hn tag line pairs)
  · -- a structure without a UID is given the next generated one
    refine ⟨rfl, fun tag' line' uid pairs' hn' => ?_⟩
    rw [hn] at hn'
    cases hn'
    refine ⟨_, Graph.get?_setUid_self _ hn _, ?_, fun hu => absurd rfl hu, fun _ => rfl⟩
    exact uidText_ne_nullUid _ _

/-- **An import of a structure that has an object gives that object**, and changes nothing; it
fails only in a session that had failed. -/
theorem importObject_of_imported {st : NodeId} {o : ObjId} {s s' : Session}
    {r : Except Error ObjId} (hl : s.imported.lookup st = some o)
    (hrun : (h.importObject deeper st).run.run s = (r, s')) (hok : s'.status = .noError) :
    r = .ok o ∧ s' = s := by
  cases he : s.stickyError with
  | none =>
    rw [h.run_importObject_of_imported he hl] at hrun
    cases hrun
    exact ⟨rfl, rfl⟩
  | some e =>
    rw [h.run_importObject_of_failed deeper he st] at hrun
    cases hrun
    exact absurd hok (Session.status_ne_of_stickyError he)

end Handlers

/-! ## Generated UIDs -/

/-- The prefix of generated UIDs is empty, or ends with `_`. -/
theorem uidPrefix_eq_empty_or (tag : String) :
    uidPrefix tag = "" ∨ ∃ name, uidPrefix tag = name ++ "_" := by
  unfold uidPrefix
  dsimp only
  split
  · exact .inl rfl
  · exact .inr ⟨_, rfl⟩

namespace Session

/-- **A generated UID determines the counter it was made with**, whatever the prefixes. -/
theorem counter_eq_of_generateUid {s s' : Session} {pfx pfx' : String}
    (h : (s.generateUid pfx).1 = (s'.generateUid pfx').1) : s.uidCounter = s'.uidCounter :=
  counter_eq_of_spelled h

end Session

namespace Handlers

/-- The UID counter never goes back along a run of a script, whatever the handlers do. -/
theorem counter_le_run (h : Handlers) (n : Nat) {α : Type} (p : Script α) (s : Session) :
    s.uidCounter ≤ (((h.serve n).run p).run.run s).2.uidCounter :=
  (Calls.keepsPairs_run (h.keepsPairs_serve h.registersWithin_all n) (Script.registers_all p) s).counter

/-- **No UID is generated twice in a session**: whatever any handlers' calls and scripts do
after a UID is generated, the next UID generated differs from it, whatever the prefixes. -/
theorem generateUid_fresh (h : Handlers) (n : Nat) {α : Type} (p : Script α) (s : Session)
    (pfx pfx' : String) :
    ((((h.serve n).run p).run.run (s.generateUid pfx).2).2.generateUid pfx').1 ≠
      (s.generateUid pfx).1 := by
  intro heq
  have hle := h.counter_le_run n p (s.generateUid pfx).2
  have hc := Session.counter_eq_of_generateUid heq
  simp only [Session.generateUid] at hle hc
  omega

variable (h : Handlers)

/-- **A second export gives the structure of the first**: after an export of an object that
succeeds, and any script that registers no pair, run with handlers that register only their own
pairs, an export of the object in a session that has not failed gives the same structure, now
with a UID other than `#NULL`: its own, or the next generated one. -/
theorem export_again_cached (hh : h.RegistersWithin (fun _ => False) (fun _ => False))
    {n m k : Nat} {α : Type} {p : Script α} (hp : p.Registers (fun _ => False) (fun _ => False))
    {o : ObjId} {st : NodeId} {s₀ s₁ s₂ s₃ : Session} {r₁ : Except Error α}
    {r : Except Error NodeId}
    (h₁ : ((h.serve n).exportObject o).run.run s₀ = (.ok st, s₁))
    (h₂ : ((h.serve m).run p).run.run s₁ = (r₁, s₂))
    (h₃ : ((h.serve k).exportObject o).run.run s₂ = (r, s₃)) (hok : s₃.status = .noError) :
    r = .ok st ∧ ∀ tag line uid pairs, s₂.graph.get? st = some ⟨tag, line, .struct uid pairs⟩ →
      ∃ uid', s₃.graph.get? st = some ⟨tag, line, .struct uid' pairs⟩ ∧ uid' ≠ nullUid ∧
        (uid ≠ nullUid → uid' = uid) ∧
        (uid = nullUid →
          uid' = (s₂.generateUid (uidPrefix (((s₂.object? o).map Obj.tag).getD ""))).1) := by
  obtain ⟨deeper₁, hd₁⟩ := h.serve_eq_level n
  obtain ⟨deeper₃, hd₃⟩ := h.serve_eq_level k
  rw [hd₁] at h₁
  rw [hd₃] at h₃
  -- the first export registered the pair, and the script kept it
  have hl₁ : s₁.exported.lookup o = some st := h.exported_of_runs h₁
  have hkeep := Calls.keepsPairs_run (h.keepsPairs_serve hh m) hp s₁
  rw [h₂] at hkeep
  exact h.exportObject_of_exported (hkeep.exported o st not_false hl₁) h₃ hok

/-- **A second import gives the object of the first**, and changes nothing: after an import of a
structure that succeeds, and any script that registers no pair, run with handlers that register
only their own pairs, an import of the structure in a session that has not failed gives the same
object. -/
theorem import_again_cached (hh : h.RegistersWithin (fun _ => False) (fun _ => False))
    {n m k : Nat} {α : Type} {p : Script α} (hp : p.Registers (fun _ => False) (fun _ => False))
    {st : NodeId} {o : ObjId} {s₀ s₁ s₂ s₃ : Session} {r₁ : Except Error α}
    {r : Except Error ObjId}
    (h₁ : ((h.serve n).importObject st).run.run s₀ = (.ok o, s₁))
    (h₂ : ((h.serve m).run p).run.run s₁ = (r₁, s₂))
    (h₃ : ((h.serve k).importObject st).run.run s₂ = (r, s₃)) (hok : s₃.status = .noError) :
    r = .ok o ∧ s₃ = s₂ := by
  obtain ⟨deeper₁, hd₁⟩ := h.serve_eq_level n
  obtain ⟨deeper₃, hd₃⟩ := h.serve_eq_level k
  rw [hd₁] at h₁
  rw [hd₃] at h₃
  -- the first import registered the pair, and the script kept it
  have hl₁ : s₁.imported.lookup st = some o := h.imported_of_runs h₁
  have hkeep := Calls.keepsPairs_run (h.keepsPairs_serve hh m) hp s₁
  rw [h₂] at hkeep
  exact h.importObject_of_imported (hkeep.imported st o not_false hl₁) h₃ hok

end Handlers

/-! ## The registry's handlers register only their own pairs -/

namespace Script

variable {α : Type} {ex : ObjId → Prop} {im : NodeId → Prop}

theorem registers_importChildren (o : ObjId) {k : Script α} (hk : k.Registers ex im) :
    ∀ vs, (importChildren o vs k).Registers ex im
  | [] => hk
  | v :: vs => .importValue v _ fun r => by
    cases r with
    | error e => exact .fail e
    | ok c => exact .edit _ _ (registers_importChildren o hk vs)

theorem registers_exportChildren {onError : Error → Script α}
    (hon : ∀ e, (onError e).Registers ex im) :
    ∀ (os : List ObjId) {k : List Value → Script α}, (∀ vs, (k vs).Registers ex im) →
      (exportChildren os onError k).Registers ex im
  | [], _, hk => hk []
  | c :: cs, _, hk => .exportObject c _ fun r => by
    cases r with
    | error e => exact hon e
    | ok st => exact registers_exportChildren hon cs fun _ => hk _

/-- The registry's importer registers only the object of its structure. -/
theorem registers_read (st : NodeId) :
    (read st).Registers (fun _ => False) fun x => False ∨ x = st := by
  refine .look _ fun s => ?_
  dsimp only
  split
  · exact .look _ fun _ => .edit _ _ (.registerImported _ _ _ (.inr rfl)
      (registers_importChildren _ (.done _) _))
  · exact .fail _

/-- The registry's exporter registers only the structure of its object. -/
theorem registers_write (w : Writer) (o : ObjId) :
    (write w o).Registers (fun x => False ∨ x = o) fun _ => False := by
  refine .look _ fun _ => .look _ fun _ => .edit _ _ (.registerExported _ _ _ (.inr rfl) ?_)
  cases w with
  | plain =>
    exact registers_exportChildren (fun e => .fail e) _ fun _ =>
      .look _ fun _ => .edit _ _ (.edit _ _ (.edit _ _ (.done _)))
  | holding =>
    exact .edit _ _ (.edit _ _ (registers_exportChildren (fun e => .edit _ _ (.fail e)) _ fun _ =>
      .look _ fun _ => .edit _ _ (.edit _ _ (.edit _ _ (.done _)))))

end Script

/-- The registry's handlers register only their own pairs. -/
theorem Registry.registersWithin_handlers (reg : Registry) :
    reg.handlers.RegistersWithin (fun _ => False) (fun _ => False) := by
  intro tag w hw
  simp only [Registry.handlers, Option.map_eq_some_iff] at hw
  obtain ⟨wr, -, rfl⟩ := hw
  exact ⟨Script.registers_read, Script.registers_write wr⟩

/-! ## The pairs and UIDs of a session -/

/-- What a session served by the handlers `h` keeps of its pairs, at any nesting levels of the
calls, and what its generated UIDs are. -/
structure Handlers.CachesPairs (h : Handlers) : Prop where
  /-- After an export of an object that succeeds and a script that registers no pair, an export
  of the object in a session that has not failed gives the same structure, with a UID other than
  `#NULL`: its own, or the next generated one. -/
  export_again : ∀ (n m k : Nat) {α : Type} (p : Script α),
    p.Registers (fun _ => False) (fun _ => False) →
    ∀ (o : ObjId) (st : NodeId) (s₀ s₁ s₂ s₃ : Session) (r₁ : Except Error α)
      (r : Except Error NodeId),
    ((h.serve n).exportObject o).run.run s₀ = (.ok st, s₁) →
    ((h.serve m).run p).run.run s₁ = (r₁, s₂) →
    ((h.serve k).exportObject o).run.run s₂ = (r, s₃) → s₃.status = .noError →
    r = .ok st ∧ ∀ tag line uid pairs, s₂.graph.get? st = some ⟨tag, line, .struct uid pairs⟩ →
      ∃ uid', s₃.graph.get? st = some ⟨tag, line, .struct uid' pairs⟩ ∧ uid' ≠ nullUid ∧
        (uid ≠ nullUid → uid' = uid) ∧
        (uid = nullUid →
          uid' = (s₂.generateUid (uidPrefix (((s₂.object? o).map Obj.tag).getD ""))).1)
  /-- After an import of a structure that succeeds and a script that registers no pair, a
  second import of the structure, in a session that has not failed, gives the same object and
  changes nothing. -/
  import_again : ∀ (n m k : Nat) {α : Type} (p : Script α),
    p.Registers (fun _ => False) (fun _ => False) →
    ∀ (st : NodeId) (o : ObjId) (s₀ s₁ s₂ s₃ : Session) (r₁ : Except Error α)
      (r : Except Error ObjId),
    ((h.serve n).importObject st).run.run s₀ = (.ok o, s₁) →
    ((h.serve m).run p).run.run s₁ = (r₁, s₂) →
    ((h.serve k).importObject st).run.run s₂ = (r, s₃) → s₃.status = .noError →
    r = .ok o ∧ s₃ = s₂
  /-- The prefix of the UIDs generated for a tag is empty, or ends with `_`. -/
  uidPrefix_shape : ∀ tag, uidPrefix tag = "" ∨ ∃ name, uidPrefix tag = name ++ "_"
  /-- A generated UID determines the counter it was made with, whatever the prefixes. -/
  counter_determined : ∀ (s s' : Session) (pfx pfx' : String),
    (s.generateUid pfx).1 = (s'.generateUid pfx').1 → s.uidCounter = s'.uidCounter
  /-- The counter never goes back along a run of a script. -/
  counter_monotone : ∀ (n : Nat) {α : Type} (p : Script α) (s : Session),
    s.uidCounter ≤ (((h.serve n).run p).run.run s).2.uidCounter
  /-- After a UID is generated, whatever runs, the next UID generated differs from it. -/
  generated_fresh : ∀ (n : Nat) {α : Type} (p : Script α) (s : Session) (pfx pfx' : String),
    ((((h.serve n).run p).run.run (s.generateUid pfx).2).2.generateUid pfx').1 ≠
      (s.generateUid pfx).1

/-- **A session keeps its pairs and generates distinct UIDs**, with handlers that register only
their own pairs, as the registry's do. -/
theorem session_caches (h : Handlers)
    (hh : h.RegistersWithin (fun _ => False) (fun _ => False)) : h.CachesPairs where
  export_again _ _ _ _ _ hp _ _ _ _ _ _ _ _ h₁ h₂ h₃ hok :=
    h.export_again_cached hh hp h₁ h₂ h₃ hok
  import_again _ _ _ _ _ hp _ _ _ _ _ _ _ _ h₁ h₂ h₃ hok :=
    h.import_again_cached hh hp h₁ h₂ h₃ hok
  uidPrefix_shape := uidPrefix_eq_empty_or
  counter_determined _ _ _ _ := Session.counter_eq_of_generateUid
  counter_monotone := h.counter_le_run
  generated_fresh := h.generateUid_fresh

/-- The registry of a domain of named nodes: `<Node>` objects written plainly, `<Eager>` ones
holding their structure open while their children are exported. -/
def nodeRegistry : Registry := { writers := [("<Node>", .plain), ("<Eager>", .holding)] }

/-- The registry of named nodes keeps its pairs. -/
theorem session_caches_nodeRegistry :
    nodeRegistry.handlers.RegistersWithin (fun _ => False) (fun _ => False) ∧
      nodeRegistry.handlers.CachesPairs :=
  ⟨nodeRegistry.registersWithin_handlers,
    session_caches _ nodeRegistry.registersWithin_handlers⟩

/-- A session holding a node `a` whose one child is a node `b`. -/
def parentSession : Session := { objects := #[⟨"<Node>", "a", [1]⟩, ⟨"<Node>", "b", []⟩] }

-- exporting `a` exports `b` inside it; exporting `b` again gives its structure the first UID
example :
    (((nodeRegistry.handlers.serve 2).exportObject 1).run.run
        (((nodeRegistry.handlers.serve 2).exportObject 0).run.run parentSession).2).1 = .ok 1 ∧
      (((nodeRegistry.handlers.serve 2).exportObject 1).run.run
        (((nodeRegistry.handlers.serve 2).exportObject 0).run.run parentSession).2).2.graph.get? 1 =
        some ⟨"<Node>", 0, .struct "#node_id0" [("name", .scalar (.str "b") 0), ("children", .node 2)]⟩ :=
  ⟨rfl, rfl⟩

end GraphDoc
