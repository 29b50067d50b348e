/-
  WebBuilder.Worker.Calls — the whole worker, with its restarts.

  Besides what `Service.Calls` serves: the history of runs (`snapshot`), the
  reads of saved files, logs and events of `main.py`, the housekeeping pass,
  an orderly shutdown, and a crash at any moment, after which a new process
  starts on the same database.

  `snapshot` reads a page of runs, looks for each of them in the memory of the
  worker and writes the ones it finds abandoned in the same transaction.  The
  flush of such an update locks the row until the commit; the lock only delays
  others, so the rows are written at the commit here.
-/
import WebBuilder.Service.Calls

namespace WebBuilder

open WebBuilder.Async WebBuilder.Store

/-! ## §1. The history of runs. -/

/-- What `snapshot` shows of a run. -/
structure RunView where
  id : Nat
  status : RunStatus
  reason : Option String
  createdAt : Nat
  events : List Event
  deriving DecidableEq

/-- A page of runs, newest first. -/
def Database.runPage (db : Database) (chatId offset limit : Nat) : List Run :=
  (((db.runs.rows.filter fun r => r.chatId = chatId).insertionSort fun a b =>
    b.createdAt < a.createdAt ∨ (b.createdAt = a.createdAt ∧ b.id ≤ a.id)).drop offset).take limit

def abandoned : String := "Run stopped before a final state was saved. Submit a new request to continue."

/-- A run that `snapshot` declares interrupted, and when. -/
structure Interruption where
  runId : Nat
  at_ : Nat
  deriving DecidableEq

def Run.view (row : Run) (events : List Event) : RunView := ⟨row.id, row.status, row.reason, row.createdAt, events⟩

/-- One round of the loop of `snapshot`. -/
def snapshotRow (row : Run) : Act (RunView × Option Interruption) := do
  let found ← Co.memory ⟨.snapshotCheck row, []⟩ fun w =>
    (if row.status = .running ∧ row.id ∉ w.mem.active then some (⟨row.id, w.now⟩ : Interruption) else none, w)
  let events ← query fun w => runEvents w.db row.id 0
  match found with
  | some i => pure ((row.close .interrupted abandoned i.at_).view events, some i)
  | none => pure (row.view events, none)

def snapshotRows : List Run → Act (List (RunView × Option Interruption))
  | [] => pure []
  | row :: rows => do
      let shown ← snapshotRow row
      let rest ← snapshotRows rows
      pure (shown :: rest)

def Database.interrupt (db : Database) (i : Interruption) : Database :=
  db.modifyRun i.runId fun r => r.close .interrupted abandoned i.at_

/-- The writes of `snapshot`: a row that is gone fails the flush. -/
def interruptRows (found : List Interruption) (w : World) : Except Exc (Unit × World) :=
  if found.any fun i => (w.db.runs.get? i.runId).isNone then .error .database
  else .ok ((), { w with db := found.foldl Database.interrupt w.db })

def snapshot (chatId offset limit : Nat) : Act (List RunView) := do
  let rows ← query fun w => w.db.runPage chatId offset limit
  let shown ← snapshotRows rows.reverse
  transaction .commit (interruptRows (shown.filterMap Prod.snd))
  pure (shown.map Prod.fst)

/-- `GET /chats/{id}/runs`. -/
def getRuns (userId chatId : Nat) (offset limit : Int) : Act (List RunView) := do
  let _ ← ownedChat userId chatId
  if offset < 0 ∨ ¬ (1 ≤ limit ∧ limit ≤ 50) then Co.raise (.http 422 "Invalid history page")
  else snapshot chatId offset.toNat limit.toNat

/-- `db.get(Run, run_id)`, or the answer 404. -/
def findRun (runId : Nat) : Act Run := do
  let run ← query fun w => w.db.runs.get? runId
  match run with
  | some run => pure run
  | none => Co.raise (.http 404 "Run not found")

/-- `POST /runs/{run_id}/cancel`. -/
def cancelRun (t userId runId : Nat) : Act (List RunView) := do
  let run ← findRun runId
  let _ ← ownedChat userId run.chatId
  cancel t runId
  snapshot run.chatId 0 10

/-! ## §2. Saved files. -/

/-- `GET /projects/{id}/files`. -/
structure Listing where
  files : List String
  revisionId : Option Nat
  sandboxActive : Bool
  deriving DecidableEq

def listing (revision : Option ProjectRevision) (active : Bool) : Listing where
  files := match revision with
    | some r => r.manifest.map Prod.fst
    | none => []
  revisionId := revision.map ProjectRevision.id
  sandboxActive := active

def getProjectFiles (cfg : Config) (userId chatId : Nat) : Act Listing := do
  let _ ← ownedChat userId chatId
  let revision ← ensureRevision cfg chatId
  let active ← memory fun w => ((w.mem.handle? chatId).isSome, w)
  pure (listing revision active)

/-- The revision of a request: the one it names, or the saved one. -/
def findRevision (cfg : Config) (chatId : Nat) : Option Nat → Act (Option ProjectRevision)
  | some id => query fun w => (w.db.revisions.get? id).filter fun r => r.chatId = chatId ∧ r.status = .ready
  | none => ensureRevision cfg chatId

def savedRevision (cfg : Config) (chatId : Nat) (revisionId : Option Nat) : Act ProjectRevision := do
  let revision ← findRevision cfg chatId revisionId
  match revision with
  | some r => pure r
  | none => Co.raise (.http 404 "No saved revision available")

/-- `GET /projects/{id}/download`. -/
def downloadAllFiles (cfg : Config) (userId chatId : Nat) (revisionId : Option Nat) : Act Bytes := do
  let _ ← ownedChat userId chatId
  let revision ← savedRevision cfg chatId revisionId
  archiveSlot
  revisionBytes cfg revision

/-! ## §3. Events and logs. -/

/-- A page of `GET /runs/{run_id}/events`. -/
structure EventPage where
  events : List Event
  status : RunStatus
  reason : Option String
  nextSequence : Nat
  deriving DecidableEq

/-- `events[-1].get('sequence', after_sequence) if events else after_sequence`. -/
def nextSequence (events : List Event) (afterSequence : Nat) : Nat :=
  match events.getLast? with
  | some e => e.sequence
  | none => afterSequence

def getRunEvents (userId runId : Nat) (afterSequence : Int) : Act EventPage := do
  let run ← findRun runId
  let _ ← ownedChat userId run.chatId
  if afterSequence < 0 then Co.raise (.http 422 "Invalid event cursor")
  else do
    let events ← query fun w => runEvents w.db runId afterSequence.toNat
    pure ⟨events, run.status, run.reason, nextSequence events afterSequence.toNat⟩

/-- `GET /runs/{run_id}/logs`. -/
def getRunLogs (cfg : Config) (userId runId : Nat) : Act Bytes := do
  let run ← findRun runId
  let _ ← ownedChat userId run.chatId
  match run.logKey with
  | none => Co.raise (.http (if run.logSha256.isSome then 410 else 404)
      "Detailed archive expired or is not available yet")
  | some key => do
      archiveSlot
      let data ← readObject cfg key (1024 * 1024)
      if some (cfg.sha256 data) ≠ run.logSha256 then
        Co.raise (.storage "Run log archive failed integrity checks")
      else pure data

/-! ## §4. The life of the process. -/

def serverRestarted : String := "Server restarted before this run finished. Submit a new request to continue."

/-- `update(Run).where(Run.status == 'running')`. -/
def Run.abandon (now : Nat) (r : Run) : Run :=
  if r.status = .running then r.close .interrupted serverRestarted now else r

theorem Run.key_abandon (now : Nat) (r : Run) : key (r.abandon now) = key r := by
  unfold Run.abandon
  split <;> rfl

/-- A new process, up to the transaction of `startup`: all that the old one
remembered is lost.  What its threads have sent may still arrive. -/
def World.restart (w : World) : World :=
  { w with
    mem := Memory.initial
    db := { w.db with
      runs := w.db.runs.update (Run.abandon w.now) (Run.key_abandon w.now)
      chats := w.db.chats.update (fun c => { c with appUrl := none }) (fun _ => rfl)
      runLocks := [] } }

/-- The rest of `startup`: unknown sandboxes stay reserved, clean ones sleep. -/
def reconcileAll (cfg : Config) : Act Unit := maintainRuntimes cfg [] true

/-- `for task in tasks: task.cancel()`. -/
def World.cancelAll (w : World) : List Nat → World
  | [] => w
  | id :: ids => (w.modifyLive id fun live => { live with cancelRequested := true }).cancelAll ids

def joinRuns : List Nat → Act Unit
  | [] => pure ()
  | id :: ids => do
      joinRun id
      joinRuns ids

/-- `shutdown()`.  The maintenance task is cancelled by an answer to it. -/
def shutdown (cfg : Config) (t : Nat) : Act Unit := do
  let active ← memory fun w =>
    (w.mem.active, ({ w with mem := { w.mem with stopping := true } } : World).cancelAll w.mem.active)
  joinRuns active
  withAdmission t (reconcileAll cfg)

/-! ## §5. The system. -/

inductive WorkerCall where
  /-- A request, the task of a run or of an upload, or the reaper. -/
  | serve (call : Service.ServiceCall)
  | maintain
  | reconcile
  | shutdown
  | getRuns (userId chatId : Nat) (offset limit : Int)
  | cancelRun (userId runId : Nat)
  /-- `send_snapshot` of a web socket. -/
  | sendSnapshot (chatId : Nat)
  | getProjectFiles (userId chatId : Nat)
  | downloadAllFiles (userId chatId : Nat) (revisionId : Option Nat)
  | getRunEvents (userId runId : Nat) (afterSequence : Int)
  | getRunLogs (userId runId : Nat)

/-- The answer of a request goes to its client. -/
def discard {α : Type} (p : Act α) : Act Unit := p.bind fun _ => pure ()

namespace Worker

def callBody (cfg : Config) (t : Nat) : WorkerCall → Act Unit
  | .serve call => Service.callBody cfg t call
  | .maintain => WebBuilder.maintain cfg
  | .reconcile => reconcileAll cfg
  | .shutdown => WebBuilder.shutdown cfg t
  | .getRuns userId chatId offset limit => discard (WebBuilder.getRuns userId chatId offset limit)
  | .cancelRun userId runId => discard (WebBuilder.cancelRun t userId runId)
  | .sendSnapshot chatId => discard (snapshot chatId 0 10)
  | .getProjectFiles userId chatId => discard (WebBuilder.getProjectFiles cfg userId chatId)
  | .downloadAllFiles userId chatId revisionId => discard (WebBuilder.downloadAllFiles cfg userId chatId revisionId)
  | .getRunEvents userId runId after => discard (WebBuilder.getRunEvents userId runId after)
  | .getRunLogs userId runId => discard (WebBuilder.getRunLogs cfg userId runId)

/-- `startup` reconciles before anything is served. -/
def enter (t : Nat) (call : WorkerCall) (w : World) : Option World :=
  match call with
  | .serve call => Service.enter t call w
  | .reconcile => if w.mem.active = [] ∧ w.mem.opening = [] then some w else none
  | _ => some w

/-- The worker, its database, E2B and the object store, over restarts. -/
def worker (cfg : Config) : System Nat WorkerCall World Label Exc Datum where
  body := callBody cfg
  enter := enter
  deliver _ l a _ := Service.deliver l a
  env d w := w.environment d
  crash _ w := some w.restart

/-- No condition on the answers. -/
def Always (_ : WorkerCall) (_ : Label) (_ : Answer Exc Datum) (_ : World) : Prop := True

/-- The first start: users have registered, and nothing else has been stored. -/
structure Deployed (w : World) : Prop where
  mem : w.mem = Memory.initial
  chats : w.db.chats = .empty
  runs : w.db.runs = .empty
  runEvents : w.db.runEvents = .empty
  messages : w.db.messages = .empty
  revisions : w.db.revisions = .empty
  usage : w.db.usage = .empty
  promotions : w.db.promotions = []

end Worker

end WebBuilder
