import GraphDoc.Session.Script
/-! # The registry's handlers as scripts

A session's calls with a registry's writers (`SessionM.importObject`, `SessionM.importValue`,
`SessionM.exportObject`) are the calls served for the registry's handlers, written as scripts:
`Registry.serve_handlers` says that at every fuel the two are the same computations. So what
is proved of `Handlers.serve` for any handlers holds of the session's calls.

The proof runs the scripts against the code step by step. A call step of a script gives its
outcome as a value (`SessionM.attempt`) and the script goes on or fails with it; the code binds
the call, or catches its failure (`bind_eq_attempt`, `tryCatch_bind`). A script reads the
session and then edits the program's data, where the code reads the session and sets it
(`get_bind_set`).
-/
namespace GraphDoc

namespace SessionM

variable {α β : Type}

theorem attempt_pure (a : α) : attempt (pure a : SessionM α) = pure (.ok a) := rfl

/-- The outcome of a sequence: a failure of the first step ends it. -/
theorem attempt_bind (m : SessionM α) (f : α → SessionM β) :
    attempt (m >>= f) = attempt m >>= fun r => match r with
      | .ok a => attempt (f a)
      | .error e => pure (.error e) := by
  apply ExceptT.ext; apply StateT.ext; intro s
  simp only [attempt, ExceptT.run_lift, ExceptT.run_bind, StateT.run_bind, StateT.run_map]
  rcases m.run.run s with ⟨_ | a, s'⟩ <;> rfl

/-- Binding a computation is looking at its outcome and failing again with a failure. -/
theorem bind_eq_attempt (m : SessionM α) (K : α → SessionM β) :
    m >>= K = attempt m >>= fun r => match r with
      | .ok a => K a
      | .error e => throw e := by
  apply ExceptT.ext; apply StateT.ext; intro s
  simp only [attempt, ExceptT.run_lift, ExceptT.run_bind, StateT.run_bind, StateT.run_map]
  rcases m.run.run s with ⟨_ | a, s'⟩ <;> rfl

/-- Catching a failure and going on is looking at the outcome and going on from the handler. -/
theorem tryCatch_bind (m : SessionM α) (H : Error → SessionM α) (K : α → SessionM β) :
    tryCatch m H >>= K = attempt m >>= fun r => match r with
      | .ok a => K a
      | .error e => H e >>= K := by
  apply ExceptT.ext; apply StateT.ext; intro s
  change (ExceptT.tryCatch m H >>= K).run.run s = _
  simp only [attempt, ExceptT.tryCatch, ExceptT.run_mk, ExceptT.run_lift, ExceptT.run_bind,
    StateT.run_bind, StateT.run_map]
  rcases h : m.run.run s with ⟨_ | a, s'⟩ <;> rw [show StateT.run m s = _ from h] <;> rfl

/-- Setting a session computed from the one just read is modifying it. -/
theorem get_bind_set (f : Session → Session) (K : Session → SessionM β) :
    (get >>= fun s => set (f s) >>= fun _ => K s) = get >>= fun s => modify f >>= fun _ => K s :=
  rfl

end SessionM

namespace Calls

open SessionM

variable {α β : Type} (c : Calls) {reg : Registry} {n : Nat}

/-- Importing children with calls whose value import is the session's: the session's import of
the children, then the rest of the script. -/
theorem run_importChildren (hv : c.importValue = SessionM.importValue reg n) (o : ObjId)
    (k : Script α) : ∀ vs, c.run (Script.importChildren o vs k) =
      SessionM.importChildren reg n o vs >>= fun _ => c.run k
  | [] => by rw [Script.importChildren, SessionM.importChildren, pure_bind]
  | v :: vs => by
    rw [Script.importChildren, Calls.run, SessionM.importChildren, hv,
      bind_eq_attempt (SessionM.importValue reg n v), bind_assoc]
    refine bind_congr fun r => ?_
    cases r with
    | error e => rfl
    | ok a =>
      show c.run (.edit _ _) = _
      rw [Calls.run, run_importChildren hv o k vs, bind_assoc]
      rfl

/-- Exporting children with calls whose export is the session's: the outcome of the session's
export of the children, handed to the script's success or failure. -/
theorem run_exportChildren (he : c.exportObject = SessionM.exportObject reg n)
    (onError : Error → Script β) : ∀ os (k : List Value → Script β),
      c.run (Script.exportChildren os onError k) =
        attempt (SessionM.exportChildren reg n os) >>= fun r => match r with
          | .ok items => c.run (k items)
          | .error e => c.run (onError e)
  | [], k => by rw [Script.exportChildren, SessionM.exportChildren, attempt_pure, pure_bind]
  | o :: os, k => by
    rw [Script.exportChildren, Calls.run, SessionM.exportChildren, he, attempt_bind, bind_assoc]
    refine bind_congr fun r => ?_
    cases r with
    | error e => rw [pure_bind]; rfl
    | ok st =>
      simp only [Script.handle]
      rw [run_exportChildren he onError os, attempt_bind, bind_assoc]
      refine bind_congr fun r => ?_
      cases r <;> simp [attempt_pure]

/-- The importer script is `SessionM.read`, one level down. -/
theorem run_read (hv : c.importValue = SessionM.importValue reg n) (st : NodeId) :
    c.run (Script.read st) = SessionM.read reg n st := by
  rw [Script.read, SessionM.read, Calls.run]
  refine bind_congr fun s => ?_
  dsimp only
  -- only a string under `name` makes an object; any other value fails alike on both sides
  cases (s.graph.valuesUnder st "name").head? with
  | none => rfl
  | some v =>
    cases v with
    | node _ => rfl
    | scalar sc _ =>
      cases sc with
      | str name =>
        simp only [pure_bind, Calls.run, SessionM.newObject, Session.addObject, bind_assoc,
          run_importChildren c hv]
        rfl
      | _ => rfl

/-- The exporter script is `SessionM.write`, one level down, for either writer. -/
theorem run_write (he : c.exportObject = SessionM.exportObject reg n) (w : Writer) (o : ObjId) :
    c.run (Script.write w o) = SessionM.write reg n w o := by
  rw [Script.write, SessionM.write, Calls.run]
  refine bind_congr fun s => ?_
  simp only [Calls.run, SessionM.addNode, Graph.add, bind_assoc, pure_bind, get_bind_set]
  refine bind_congr fun s' => bind_congr fun _ => bind_congr fun _ => ?_
  cases w with
  | plain =>
    simp only [run_exportChildren c he, bind_eq_attempt (SessionM.exportChildren reg n _)]
    refine bind_congr fun r => ?_
    cases r with
    | error e => rfl
    | ok items =>
      simp only [Calls.run, SessionM.pushPair]
      rfl
  | holding =>
    -- the code catches the children's failure to release the structure and fail again
    simp only [Calls.run, run_exportChildren c he, tryCatch_bind, bind_assoc]
    refine bind_congr fun _ => bind_congr fun _ => bind_congr fun r => ?_
    cases r <;> rfl

end Calls

namespace Registry

open SessionM

variable (reg : Registry)

/-- The calls one level below the session's calls with `fuel`; none when the fuel is out. -/
def below : Nat → Option Calls
  | 0 => none
  | n + 1 => some (reg.calls n)

theorem importObject_handlers (n : Nat) :
    reg.handlers.importObject (reg.below n) = SessionM.importObject reg n := by
  funext st
  rw [Handlers.importObject, SessionM.importObject]
  refine bind_congr fun _ => bind_congr fun s => ?_
  cases s.imported.lookup st with
  | some o => rfl
  | none =>
    refine bind_congr fun s' => ?_
    dsimp only
    cases hw : reg.get? (s'.graph.tagOf st) with
    | none => simp [handlers, hw]
    | some w =>
      cases n with
      | zero => simp [handlers, hw, below]
      | succ m => simp [handlers, hw, below, Calls.run_read (reg.calls m) rfl]

theorem importValue_handlers (n : Nat) :
    reg.handlers.importValue (reg.below n) = SessionM.importValue reg n := by
  funext v
  rw [Handlers.importValue, SessionM.importValue]
  refine bind_congr fun s => ?_
  dsimp only
  cases s.graph.resolvedStructure s.alive v with
  | some st => exact congrArg (withHandle st) (congrFun (importObject_handlers reg n) st)
  | none => rfl

theorem exportObject_handlers (n : Nat) :
    reg.handlers.exportObject (reg.below n) = SessionM.exportObject reg n := by
  funext o
  rw [Handlers.exportObject, SessionM.exportObject]
  refine bind_congr fun _ => bind_congr fun s => ?_
  cases s.exported.lookup o with
  | some st => rfl
  | none =>
    refine bind_congr fun tag => ?_
    cases hw : reg.get? tag with
    | none => simp [handlers, hw]
    | some w =>
      cases n with
      | zero => simp [handlers, hw, below]
      | succ m => simp [handlers, hw, below, Calls.run_write (reg.calls m) rfl]

/-- **The session's calls are the registry's handlers served.** At every fuel, the import and
export calls of a session with a registry's writers are the calls `Handlers.serve` builds for
the registry's handlers, whose scripts call the session one level down. -/
theorem serve_handlers : ∀ n, reg.handlers.serve n = reg.calls n
  | 0 => by
    show reg.handlers.level (reg.below 0) = _
    simp only [Handlers.level, calls, importObject_handlers, importValue_handlers,
      exportObject_handlers]
  | n + 1 => by
    rw [Handlers.serve, serve_handlers n]
    show reg.handlers.level (reg.below (n + 1)) = _
    simp only [Handlers.level, calls, importObject_handlers, importValue_handlers,
      exportObject_handlers]

end Registry

end GraphDoc
