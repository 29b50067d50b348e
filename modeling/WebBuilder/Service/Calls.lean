/-
  WebBuilder.Service.Calls — the worker as a system of tasks.

  One slot for every task: requests, runs, uploads and the reaper.  A run is
  started by its registration, and once; a task that is cancelled before its
  first instruction never starts (`drop`).  An `asyncio.timeout` interrupts
  only what it encloses; a cancellation may come at any await.
-/
import WebBuilder.Service.Frames

namespace WebBuilder.Service

open WebBuilder.Async WebBuilder.Store

/-! ## §1. Calls. -/

inductive ServiceCall where
  | admitRun (userId : Nat) (prompt : String) (chatId : Option Nat)
  /-- The task of a run. -/
  | execute (runId : Nat)
  /-- The task of a run that is cancelled before its first instruction. -/
  | drop (runId : Nat)
  | cancel (runId : Nat)
  | openPreview (userId chatId : Nat)
  | previewStatus (userId chatId : Nat)
  | reap
  | delete (userId chatId : Nat)
  /-- The task of an upload. -/
  | upload (upload : Upload)

def callBody (cfg : Config) (t : Nat) : ServiceCall → Act Unit
  | .admitRun userId prompt chatId => do
      let _ ← admitRun cfg t userId prompt chatId
  | .execute runId => execute cfg t runId
  | .drop _ => pure ()
  | .cancel runId => cancel t runId
  | .openPreview userId chatId => openProjectPreview cfg t userId chatId
  | .previewStatus userId chatId => getPreviewStatus t userId chatId
  | .reap => reapIdleSandboxes cfg t
  | .delete userId chatId => deleteProject t userId chatId
  | .upload u => uploadTask cfg u

/-- The task of a run that has not started, with what becomes of it. -/
def startRun (w : World) (runId : Nat) (cancelled : Bool) (task : TaskState) : Option World :=
  match w.live? runId with
  | some live =>
      if live.task = .created ∧ live.cancelRequested = cancelled then
        some (w.modifyLive runId fun live => { live with task })
      else none
  | none => none

/-- Which calls can start, and what their start changes. -/
def enter (t : Nat) (call : ServiceCall) (w : World) : Option World :=
  match call with
  | .execute runId => startRun w runId false (.running t)
  | .drop runId => startRun w runId true .done
  | .upload u =>
      if w.mem.uploads.get? u.id = some u ∧ u.task = .created then
        some (w.setUploads (w.mem.uploads.put { u with task := .running t }))
      else none
  | _ => some w

/-! ## §2. The system. -/

/-- A deadline is thrown in by a block around the await. -/
def deliverable (scopes : List Scope) : Exc → Bool
  | .deadline scope => decide (scope ∈ scopes)
  | _ => true

def deliver (l : Label) : Answer Exc Datum → Bool
  | .ok _ => true
  | .fail e | .lost e _ | .late e _ => deliverable l.scopes e

/-- The worker with its database, E2B and the object store. -/
def service (cfg : Config) : System Nat ServiceCall World Label Exc Datum where
  body := callBody cfg
  enter := enter
  deliver _ l a _ := deliver l a
  env d w := w.environment d
  crash _ _ := none

/-- No condition on the answers. -/
def Always (_ : ServiceCall) (_ : Label) (_ : Answer Exc Datum) (_ : World) : Prop := True

/-- A worker that has just started: nothing runs, and every id is older than
the next one. -/
structure Started (w : World) : Prop where
  mem : w.mem = Memory.initial
  chats : ∀ c, (w.db.chats.get? c).isSome → c < w.nextId
  runs : ∀ r, (w.db.runs.get? r).isSome → r < w.nextId
  revisions : ∀ v, (w.db.revisions.get? v).isSome → v < w.nextId

end WebBuilder.Service
