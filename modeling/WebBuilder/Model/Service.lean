/-
  WebBuilder.Model.Service — admission, runs, previews and deletion.

  `service.py`, and `delete_project` of `main.py`.  A run is admitted under
  the admission lock, executed by a task of its own and finished in one
  transaction; whatever does not succeed retires its sandbox first.

  Metrics, published copies of events and log lines are left out: no modelled
  function reads them.  The two cleanups of `delete_project` touch different
  state; they run one after the other here.
-/
import WebBuilder.Model.Maintenance
import WebBuilder.Model.Runner

namespace WebBuilder

open WebBuilder.Async WebBuilder.Store WebBuilder.Budget

/-! ## §1. Live runs. -/

def World.live? (w : World) (runId : Nat) : Option LiveRun := w.mem.runs.get? runId

def World.modifyLive (w : World) (runId : Nat) (f : LiveRun → LiveRun) : World :=
  { w with mem := { w.mem with runs := w.mem.runs.modify runId f } }

/-- `event(live, kind, …)`. -/
def LiveRun.event (live : LiveRun) (kind : EventKind) (message : String) : Event :=
  ⟨live.id, live.events.length + 1, kind, message⟩

def LiveRun.append (live : LiveRun) (e : Event) : LiveRun := { live with events := live.events ++ [e] }

/-- The event that `emit` writes, or its `RunLimitError`. -/
def World.nextEvent (w : World) (runId : Nat) (kind : EventKind) (message : String) : Except Exc Event :=
  match w.live? runId with
  | none => .error .other
  | some live =>
      if 200 ≤ live.events.length then .error (.runLimit "Activity budget reached")
      else .ok (live.event kind message)

/-- The result of a step on memory that may raise. -/
def orRaise {α : Type} (p : Act (Except Exc α)) : Act α := do
  let r ← p
  match r with
  | .ok a => pure a
  | .error e => Co.raise e

def addEvent (event : Event) : Act Unit :=
  transaction .commit fun w => (w.db.addEvent event).map fun db => ((), { w with db })

def appendEvent (runId : Nat) (event : Event) : Act Unit :=
  memory' fun w => w.modifyLive runId fun live => live.append event

def emit (runId : Nat) (kind : EventKind) (message : String) : Act Unit := do
  let event ← orRaise (memory fun w => (w.nextEvent runId kind message, w))
  addEvent event
  appendEvent runId event

/-! ## §2. Checkpoints. -/

/-- `async with archive_slots`: a slot is free sooner or later. -/
def archiveSlot : Act Unit := waitFor .lock fun w => some (.ok (), w)

/-- `sandbox_archive(sandbox, 'pack')`. -/
def packFiles (cfg : Config) (id : Nat) : Act Bytes :=
  .await ⟨.pack, []⟩
    (fun answer w =>
      match answer with
      | .ok (.archive data) =>
          match w.e2b.box? id with
          | some b =>
              if cfg.manifest data = some b.files then
                if MAX_ARCHIVE < data.length then
                  some (.error (.storage "Sandbox archive exceeds 10 MiB"), w)
                else some (.ok data, w)
              else none
          | none => none
      | .fail e => if knownFault e then some (.error e, w) else none
      | _ => none)
    .done

def packSandbox (cfg : Config) (id : Nat) : Act Bytes := (packFiles cfg id).onExit removeFile

/-- The event of a saved checkpoint. -/
def checkpointEvent (runId : Nat) (captured : LiveRun) (revisionId : Nat) (w : World) : Event :=
  ((w.live? runId).getD captured).event (.checkpointSaved revisionId) "Project files saved"

/-- `live.revision_id, event = …` and `if event: live.events.append(event)`. -/
def LiveRun.saved (revisionId : Nat) (event : Option Event) (live : LiveRun) : LiveRun :=
  { live with revisionId := some revisionId, events := live.events ++ event.toList }

def saveFiles (cfg : Config) (runId : Nat) : Act Unit := do
  let live ← memory fun w => (w.live? runId, w)
  match live with
  | none => pure ()
  | some live =>
      match live.sandbox with
      | none => pure ()
      | some sandbox =>
          if 200 ≤ live.events.length then
            Co.raise (.runLimit "Activity budget reached before checkpoint")
          else do
            let current ← latestRevision live.chatId
            archiveSlot
            let archive ← packSandbox cfg sandbox
            let (revisionId, event) ← saveRevision cfg live.chatId (some runId) archive
              (templateFor cfg current) (some (checkpointEvent runId live))
            memory' fun w => w.modifyLive runId (LiveRun.saved revisionId event)

/-- `if dirty: await self.save_files(live)`. -/
def saveDirty (cfg : Config) (runId : Nat) (dirty : Bool) : Act Unit :=
  if dirty then saveFiles cfg runId else pure ()

/-- `checkpoint(live, dirty)`. -/
def checkpoint (cfg : Config) (runId : Nat) (dirty : Bool) : Act Unit := do
  saveDirty cfg runId dirty
  transaction .checkpoint fun w => .ok ((), w)

/-! ## §3. Sandboxes. -/

/-- `sandbox.commands.run(…)` of the host: another exit status is an exception. -/
def hostCommand (id : Nat) : Act Unit := do
  let ok ← sandboxCommand id
  if ok then pure () else Co.raise .sandbox

/-- The part of `sandbox_archive(sandbox, 'restore', data)` that changes the files. -/
def restoreFiles (cfg : Config) (id : Nat) (data : Bytes) : Act Unit :=
  .await ⟨.provider, []⟩
    (fun answer w =>
      match answer with
      | .ok _ =>
          match w.e2b.box? id, cfg.manifest data with
          | some b, some files => some (.ok (), w.setBox { b with files })
          | _, _ => none
      | .fail e => if knownFault e then some (.error e, w.unsettle id) else none
      | _ => none)
    .done

def restoreSandbox (cfg : Config) (id : Nat) (data : Bytes) : Act Unit :=
  (restoreFiles cfg id data).onExit removeFile

/-- The source tree of a revision, on a stopped server. -/
def restoreRevision (cfg : Config) (id : Nat) (revision : ProjectRevision) : Act Unit := do
  -- Stop watchers before replacing their source tree or dependencies.
  controlPreview id .stop
  archiveSlot
  let data ← revisionBytes cfg revision
  restoreSandbox cfg id data
  if revision.manifest.all fun f => f.1 ≠ "package-lock.json" then
    Co.raise (.storage "Saved project needs package-lock.json before preview can be restored")
  else do
    hostCommand id
    controlPreview id .start

/-- `if revision: …` -/
def restoreSources (cfg : Config) (id : Nat) : Option ProjectRevision → Act Unit
  | some revision => restoreRevision cfg id revision
  | none => pure ()

/-- Python in the sandbox can unpack an archive. -/
def checkArchiveTools (id : Nat) : Act Unit :=
  catchException (hostCommand id) fun _ => Co.raise (.sandboxSetup
    ("Sandbox archive tools are unavailable. Rebuild sandbox/Dockerfile with Python 3.11 or later. "
      ++ "No model request was made."))

def getE2bSandbox (cfg : Config) (chatId : Nat) : Act Nat := do
  let revision ← ensureRevision cfg chatId
  let (id, restore) ← acquire cfg chatId revision
  if restore then do
    checkArchiveTools id
    restoreSources cfg id revision
    pure id
  else pure id

def previewReady (id : Nat) : Act Unit := do
  hostCommand id
  let ok ← checkBrowser id .smoke
  if ok then pure () else Co.raise (.preview "Saved preview did not pass browser checks")

/-- `retire_sandbox(chat_id)`, in the task `t`. -/
def retireSandbox (t chatId : Nat) : Act Bool :=
  withAdmission t (catchException (retire chatId) fun _ => pure false)

/-- `reap_idle_sandboxes()`. -/
def reapIdleSandboxes (cfg : Config) (t : Nat) : Act Unit :=
  withAdmission t do
    let busy ← memory fun w => (w.mem.busy, w)
    maintainRuntimes cfg busy false

/-- The projects that hold a sandbox slot, given the rows that `reserved` read. -/
def Memory.reserved (m : Memory) (rows : List Nat) : List Nat :=
  (rows ++ m.handles.rows.map Handle.chatId ++ m.busy).dedup

/-- `SandboxRuntimes.reserved()`. -/
def Database.reservedRows (db : Database) : List Nat :=
  (db.runtimes.rows.filter fun r => r.state ≠ .paused).map SandboxRuntime.chatId

/-- `await self.runtimes.get(chat_id) if chat_id else None`. -/
def runtimeOf : Option Nat → Act (Option SandboxRuntime)
  | some c => getRuntime c
  | none => pure none

def requireSandboxCapacity (cfg : Config) (chatId : Option Nat) : Act Unit := do
  let rows ← query fun w => w.db.reservedRows
  let reserved ← Co.memory ⟨.capacity rows, []⟩ fun w => (w.mem.reserved rows, w)
  let row ← runtimeOf chatId
  let unclean := row.any fun r => r.state = .creating ∨ r.state = .retiring
  let full := (chatId.all fun c => c ∉ reserved) && decide (cfg.maxLiveSandboxes ≤ reserved.length)
  if unclean || full then
    Co.raise (.http 429 "Live preview capacity reached or cleanup is pending; no credit was used.")
  else pure ()

/-! ## §4. Admission. -/

/-- Python's `str.isspace`, for one character. -/
def isSpace (c : Char) : Bool :=
  let n := c.toNat
  (9 ≤ n && n ≤ 13) || (28 ≤ n && n ≤ 32) || n = 0x85 || n = 0xa0 || n = 0x1680
    || (0x2000 ≤ n && n ≤ 0x200a) || n = 0x2028 || n = 0x2029 || n = 0x202f || n = 0x205f || n = 0x3000

/-- `prompt.strip()`. -/
def strip (s : String) : String :=
  String.ofList ((s.toList.dropWhile isSpace).reverse.dropWhile isSpace).reverse

/-- `User.use_token()`. -/
def useToken (u : User) (now : Nat) : Option User :=
  if u.creditsUnlimited then some u
  else
    let u := if u.tokensResetAt.all fun t => t ≤ now then
      { u with tokensRemaining := 2, tokensResetAt := some (now + DAY) } else u
    if 0 < u.tokensRemaining then
      some { u with tokensRemaining := u.tokensRemaining - 1, lastQueryAt := some now }
    else none

/-- What an admission answers with, and the message it has stored. -/
structure Admitted where
  chatId : Nat
  runId : Nat
  messageId : Nat
  tokensRemaining : Nat
  deriving DecidableEq

/-- The project of the request, written if it is new. -/
def admitChat (userId : Nat) (chatId : Option Nat) (busy : Bool) (w : World) : Except Exc (Nat × World) :=
  match chatId with
  | some c =>
      match (w.db.chats.get? c).filter fun chat => chat.userId = userId with
      | none => .error (.http 404 "Project not found")
      | some _ =>
          if busy then
            .error (.http 409 "This project already has a running request; no credit was used.")
          else .ok (c, w)
  | none => .ok (w.nextId, { w with
      nextId := w.nextId + 1
      db := { w.db with chats := w.db.chats.put ⟨w.nextId, userId, none, none, none⟩ } })

/-- The run and its message. -/
def insertRun (prompt : String) (user : User) (chatId : Nat) (w : World) : Admitted × World :=
  (⟨chatId, w.nextId, w.nextId + 1, user.tokensRemaining⟩,
    { w with
      nextId := w.nextId + 2
      db := { w.db with
        users := w.db.users.put user
        runs := w.db.runs.put ⟨w.nextId, chatId, prompt, .running, none, w.now, none, none, none⟩
        messages := w.db.messages.put ⟨w.nextId + 1, chatId, .user, prompt, false⟩ } })

/-- The transaction of `admit`.  `busy` was read before it. -/
def admitRows (cfg : Config) (userId : Nat) (prompt : String) (chatId : Option Nat) (busy : Bool)
    (w : World) : Except Exc (Admitted × World) :=
  match w.db.users.get? userId with
  | none => .error (.http 401 "User not found")
  | some user =>
      if !user.emailVerified then .error (.http 403 "Verify your email before continuing.")
      else
        match requireAllowance cfg.limits w.db.spend user w.now with
        | .error e => .error (.http 429 e.text)
        | .ok () =>
            if !cfg.storageConfigured then
              .error (.http 503 "Project storage is not configured; no credit was used.")
            else
              match admitChat userId chatId busy w with
              | .error e => .error e
              | .ok (c, w) =>
                  match useToken user w.now with
                  | none => .error (.http 403 "No credits remaining. Try after your daily reset.")
                  | some user => .ok (insertRun prompt user c w)

/-- `self.active[run_id] = live`, with its task. -/
def Memory.register (m : Memory) (a : Admitted) (userId : Nat) (prompt : String) : Memory :=
  { m with
    runs := m.runs.put ⟨a.runId, a.chatId, prompt, userId, a.messageId, [], .created, false, none, none, none⟩
    active := m.active ++ [a.runId] }

def Memory.isBusy (m : Memory) (chatId : Nat) : Bool := decide (chatId ∈ m.busy)

/-- The worker takes no more operations. -/
def Memory.full (m : Memory) (cfg : Config) : Bool :=
  m.stopping || decide (cfg.maxConcurrentRuns ≤ m.active.length + m.opening.length)

/-- The part of `admit` under the lock. -/
def admitLocked (cfg : Config) (userId : Nat) (prompt : String) (chatId : Option Nat) : Act Admitted := do
  let full ← memory fun w => (w.mem.full cfg, w)
  if full then Co.raise (.http 429 "The builder is busy. Try again shortly; no credit was used.")
  else do
    requireSandboxCapacity cfg chatId
    let busy ← memory fun w => (chatId.any w.mem.isBusy, w)
    let admitted ← transaction .commit (admitRows cfg userId prompt chatId busy)
    memory' fun w => { w with mem := w.mem.register admitted userId prompt }
    pure admitted

def admitRun (cfg : Config) (t userId : Nat) (prompt : String) (chatId : Option Nat) : Act Admitted :=
  let prompt := strip prompt
  if prompt = "" ∨ 12000 < prompt.length then
    Co.raise (.http 422 "Describe a change in 1–12000 characters")
  else withAdmission t (admitLocked cfg userId prompt chatId)

/-! ## §5. Previews. -/

/-- `owned_chat(id, user, db)`. -/
def ownedChat (userId chatId : Nat) : Act Chat := do
  let chat ← query fun w => (w.db.chats.get? chatId).filter fun chat => chat.userId = userId
  match chat with
  | some chat => pure chat
  | none => Co.raise (.http 404 "Project not found")

/-- `if chat_id in self.sandboxes: self.sandbox_last_used[chat_id] = time.monotonic()`. -/
def World.touch (w : World) (chatId : Nat) : World :=
  if (w.mem.handle? chatId).isSome then
    { w with mem := { w.mem with lastUsed := Function.update w.mem.lastUsed chatId (some w.now) } }
  else w

def World.startOpening (w : World) (t chatId : Nat) : World :=
  { w with mem := { w.mem with
    opening := w.mem.opening ++ [chatId]
    opener := Function.update w.mem.opener chatId (some t) } }

def World.endOpening (w : World) (chatId : Nat) : World :=
  { w.touch chatId with mem := { (w.touch chatId).mem with
    opening := w.mem.opening.filter fun c => c ≠ chatId } }

/-- The part of `open_preview` under the lock. -/
def reserveOpening (cfg : Config) (t chatId : Nat) : Act Unit := do
  let refused ← memory fun w => (w.mem.isBusy chatId || w.mem.full cfg, w)
  if refused then Co.raise (.http 409 "Wait for the current operation to finish")
  else do
    requireSandboxCapacity cfg (some chatId)
    memory' fun w => w.startOpening t chatId

/-- Check the server, and repair it once in the same sandbox. -/
def readyPreview (id chatId : Nat) : Act Unit :=
  (previewReady id).tryCatch fun e =>
    match e with
    | .commandState m => Co.raise (.commandState m)
    | e =>
        if e.isException then do
          let row ← getRuntime chatId
          if (row.filter fun r => r.reusable).isNone then
            -- A restored project has already received a fresh server.
            Co.raise e
          else do
            controlPreview id .restart
            previewReady id
        else Co.raise e

/-- The transaction that publishes an opened preview. -/
def publishPreview (chatId revisionId : Nat) (url : String) (w : World) : Except Exc (Unit × World) :=
  match w.db.chats.get? chatId with
  | none => .error (.storage "Saved project changed while opening its preview")
  | some chat =>
      if chat.latestSavedRevisionId ≠ some revisionId then
        .error (.storage "Saved project changed while opening its preview")
      else
        match markReusable chatId revisionId w with
        | .error e => .error e
        | .ok w => .ok ((), { w with db := { w.db with
            chats := w.db.chats.put { chat with appUrl := some url } } })

/-- The `try` block of `open_preview`. -/
def openReserved (cfg : Config) (chatId : Nat) : Act Unit := do
  let revision ← ensureRevision cfg chatId
  match revision with
  | none => Co.raise (.http 404 "No saved project yet")
  | some revision =>
      withTimeout .operation do
        let id ← getE2bSandbox cfg chatId
        readyPreview id chatId
        transaction .commit (publishPreview chatId revision.id ("https://" ++ cfg.getHost id))

/-- `except BaseException: await self.retire_sandbox(chat_id); raise`. -/
def retireOnError (t chatId : Nat) (p : Act Unit) : Act Unit :=
  p.tryCatch fun e => do
    let _ ← retireSandbox t chatId
    Co.raise e

def openPreview (cfg : Config) (t chatId : Nat) : Act Unit := do
  withAdmission t (reserveOpening cfg t chatId)
  (retireOnError t chatId (openReserved cfg chatId)).onExit (memory' fun w => w.endOpening chatId)

/-- `POST /projects/{id}/preview`. -/
def openProjectPreview (cfg : Config) (t userId chatId : Nat) : Act Unit := do
  let _ ← ownedChat userId chatId
  openPreview cfg t chatId

/-- `except Exception: raise HTTPException(503, …)`. -/
def pollPreview (row : SandboxRuntime) : Act Unit :=
  catchException (onProject row.chatId (do let _ ← state row none))
    fun _ => Co.raise (.http 503 "Preview status temporarily unavailable")

/-- `preview_status(chat)`: what it polls.  Its answer is left out. -/
def previewStatus (t : Nat) (chat : Chat) : Act Unit :=
  withAdmission t do
    let busy ← memory fun w => (w.mem.isBusy chat.id, w)
    if busy then pure ()
    else do
      let row ← getRuntime chat.id
      match row with
      | some row =>
          if row.reusable ∧ row.state ≠ .retiring ∧ row.revisionId = chat.latestSavedRevisionId then
            pollPreview row
          else pure ()
      | none => pure ()

/-- `GET /projects/{id}/preview`. -/
def getPreviewStatus (t userId chatId : Nat) : Act Unit := do
  let chat ← ownedChat userId chatId
  previewStatus t chat

/-! ## §6. The end of a run. -/

/-- `max(RunEvent.sequence)` of the run, or `0`. -/
def Database.lastSequence (db : Database) (runId : Nat) : Nat :=
  ((db.runEvents.rows.filter fun e => e.runId = runId).map Event.sequence).foldr max 0

def Run.close (r : Run) (status : RunStatus) (reason : String) (now : Nat) : Run :=
  { r with status, reason := some reason, finishedAt := some now }

/-- The changes to the project. -/
def Chat.finished (c : Chat) (url : Option String) (verified : Option Nat) : Chat :=
  { c with
    appUrl := url
    latestVerifiedRevisionId := match verified with
      | some v => some v
      | none => c.latestVerifiedRevisionId }

def Database.finishChat (db : Database) (chatId : Nat) (url : Option String) (verified : Option Nat) :
    Database :=
  { db with chats := db.chats.modify chatId fun c => c.finished url verified }

def Database.addMessage (db : Database) (m : Message) : Database :=
  { db with messages := db.messages.put m }

/-- `mark_reusable`, when there is a verified revision. -/
def markVerified (chatId : Nat) (verified : Option Nat) (w : World) : Except Exc World :=
  match verified with
  | some revisionId => markReusable chatId revisionId w
  | none => .ok w

/-- The transaction of `finish`: the terminal event, unless the run has ended. -/
def finishRun (live : LiveRun) (status : RunStatus) (reason : String) (url : Option String) (w : World) :
    Except Exc (Option Event × World) :=
  match w.db.runs.get? live.id with
  | none => .ok (none, w)
  | some run =>
      if run.status ≠ .running then .ok (none, w)
      else
        let verified := if status = .succeeded then live.revisionId else none
        -- A cancelled DB await may have committed an event before updating LiveRun.
        -- Allocate terminal sequence from durable state rather than the in-memory length.
        let event := { live.event (.runFinished status url live.revisionId) reason with
          sequence := w.db.lastSequence live.id + 1 }
        let closed := { w with db := w.db.modifyRun live.id fun r => r.close status reason w.now }
        match markVerified live.chatId verified closed with
        | .error e => .error e
        | .ok w =>
            match (w.db.finishChat live.chatId url verified).addEvent event with
            | .error e => .error e
            | .ok db =>
                let summary : Message := ⟨live.id, live.chatId, .assistant, reason, true⟩
                .ok (some event, { w with db := db.addMessage summary })

/-- `finish(live, status, reason, result)`; `op` is its transaction. -/
def finish (op : Op) (runId : Nat) (status : RunStatus) (reason : String) (url : Option String) :
    Act Unit := do
  let live ← memory fun w => (w.live? runId, w)
  match live with
  | none => pure ()
  | some live => do
      let event ← transaction op
        (finishRun live status reason (if status = .succeeded then url else none))
      match event with
      | none => pure ()
      | some event => appendEvent runId event

/-! ## §7. Runs. -/

/-- What the exception ladder of `execute` makes of the conversation. -/
structure Outcome where
  status : RunStatus
  reason : String
  url : Option String
  diagnose : Bool
  deriving DecidableEq

/-- `'interrupted' if self.stopping else 'cancelled'`. -/
def stopStatus (stopping : Bool) : RunStatus := if stopping then .interrupted else .cancelled

def Outcome.failed (reason : String) (diagnose : Bool) : Outcome := ⟨.failed, reason, none, diagnose⟩

def sandboxFailure : String :=
  "The build sandbox could not complete an operation. Retry the request; if it keeps failing, "
    ++ "check the E2B template and service availability."

/-- The exception ladder. -/
def outcomeOf (stopping : Bool) : Except Exc (String × String) → Outcome
  | .ok (summary, url) =>
      ⟨.succeeded, summary ++ "\n\nProduction build and desktop/mobile browser smoke checks passed.",
        some url, false⟩
  | .error e =>
      match e with
      | .timeout => ⟨.timedOut,
          "The run reached its time limit. Partial changes may remain; submit a smaller request.", none, true⟩
      | .cancelled | .deadline _ => ⟨stopStatus stopping,
          if stopping then "Server stopped; submit a new request to continue."
          else "Stopped at your request. The last acknowledged checkpoint remains available.", none, false⟩
      | .runLimit m | .verification m | .context m | .budgetLimit m => .failed m false
      | .sandboxSetup m | .preview m => .failed m true
      | .storage m =>
          .failed (m ++ ". The last acknowledged checkpoint is safe. No automatic AI retry was started.") false
      | .commandState m | .fileWrite m =>
          .failed (m ++ ". The last acknowledged checkpoint remains available.") true
      | .sandbox | .notFound | .rejected => .failed sandboxFailure true
      | _ => .failed "The run failed. Submit a new request to retry." false

/-- The `try` block of `execute`. -/
def executeBody (cfg : Config) (runId chatId : Nat) : Act (String × String) :=
  withTimeout .operation do
    emit runId .runStarted "Starting your request"
    let id ← getE2bSandbox cfg chatId
    memory' fun w => w.modifyLive runId fun live => { live with sandbox := some id }
    -- Commit unsafe state before the first possible mutation.
    invalidate chatId
    let result ← runEditor cfg (emit runId) (checkpoint cfg runId) id
    saveFiles cfg runId
    pure result

/-- `sandbox_diagnostics(…)`: it catches every `Exception` itself. -/
def sandboxDiagnostics : Act Unit := observe .provider interruption fun _ => some ()

/-- Diagnostics of a failed run; a cancellation of them changes its outcome. -/
def diagnose (o : Outcome) : Act Outcome :=
  (sandboxDiagnostics.bind fun _ => pure o).tryCatch fun e =>
    if interruption e then do
      let stopping ← memory fun w => (w.mem.stopping, w)
      pure { o with
        status := stopStatus stopping
        reason := "Stopped while collecting diagnostics. The last acknowledged checkpoint remains available." }
    else Co.raise e

/-- Keep the handle of a failed run, and diagnose its sandbox. -/
def inspectFailure (chatId : Nat) (sandbox : Option Nat) (o : Outcome) : Act Outcome :=
  match sandbox with
  | some id => do
      setHandle chatId id
      if o.diagnose then diagnose o else pure o
  | none => pure o

/-- The cleanup of a run that has not succeeded. -/
def cleanUpRun (t chatId : Nat) (sandbox : Option Nat) (o : Outcome) : Act Outcome := do
  let o ← inspectFailure chatId sandbox o
  let killed ← retireSandbox t chatId
  if killed then pure o
  else pure { o with reason := o.reason ++ " Sandbox cleanup is pending. Reopening is blocked until "
    ++ "ownership is resolved." }

/-- `live.sandbox = live.sandbox or self.sandboxes.get(live.chat_id)`. -/
def keepSandbox (runId chatId : Nat) : Act (Option Nat) :=
  memory fun w =>
    let sandbox := ((w.live? runId).bind LiveRun.sandbox).or (w.mem.handle? chatId)
    (sandbox, w.modifyLive runId fun live => { live with sandbox })

/-- `if status != 'succeeded': …`. -/
def cleanUpFailed (t chatId : Nat) (sandbox : Option Nat) (o : Outcome) : Act Outcome :=
  if o.status = .succeeded then pure o else cleanUpRun t chatId sandbox o

/-- The `finally` block of `execute`, up to its last await. -/
def conclude (t runId chatId : Nat) (o : Outcome) : Act Unit := do
  let sandbox ← keepSandbox runId chatId
  let o ← cleanUpFailed t chatId sandbox o
  catchException (finish (.finish runId) runId o.status o.reason o.url) fun _ => do
    let _ ← retireSandbox t chatId

/-- The task ends.  An exception that escapes the `finally` block skips its
last lines. -/
def World.endTask (w : World) (runId chatId : Nat) (completed : Bool) : World :=
  let w := if completed then
      { w.touch chatId with mem := { (w.touch chatId).mem with
        active := w.mem.active.filter fun r => r ≠ runId } }
    else w
  w.modifyLive runId fun live => { live with task := .done }

def execute (cfg : Config) (t runId : Nat) : Act Unit := do
  let live ← memory fun w => (w.live? runId, w)
  match live with
  | none => pure ()
  | some live => do
      let r ← (do
        let r ← (executeBody cfg runId live.chatId).attempt
        let stopping ← memory fun w => (w.mem.stopping, w)
        conclude t runId live.chatId (outcomeOf stopping r) : Act Unit).attempt
      memory' fun w => w.endTask runId live.chatId (match r with | .ok _ => true | .error _ => false)

/-- `live.cancelling = True; live.task.cancel()`: whether this call does it. -/
def requestCancel (t runId : Nat) : Act Bool :=
  memory fun w =>
    if runId ∈ w.mem.active ∧ (w.live? runId).any fun live => live.cancelling.isNone then
      (true, w.modifyLive runId fun live => { live with cancelling := some t, cancelRequested := true })
    else (false, w)

/-- `await asyncio.gather(live.task, return_exceptions=True)`. -/
def joinRun (runId : Nat) : Act Unit :=
  waitFor .join fun w =>
    if (w.live? runId).all fun live => live.task = .done then some (.ok (), w) else none

def World.deactivate (w : World) (runId : Nat) : World :=
  { w with mem := { w.mem with active := w.mem.active.filter fun r => r ≠ runId } }

def cancel (t runId : Nat) : Act Unit := do
  let first ← requestCancel t runId
  if first then do
    joinRun runId
    -- Cancellation before the coroutine's first instruction still gets a terminal record.
    let still ← memory fun w => (decide (runId ∈ w.mem.active), w)
    if still then do
      finish (.finishCancelled runId) runId .cancelled "Stopped before generation started." none
      memory' fun w => w.deactivate runId
    else pure ()
  else pure ()

/-! ## §8. Deletion. -/

/-- The storage keys of a project, with archives still being uploaded. -/
def Database.keysOf (db : Database) (chatId : Nat) : List ObjectKey :=
  let revisions := db.revisions.rows.filter fun r => r.chatId = chatId
  let runs := db.runs.rows.filter fun r => r.chatId = chatId
  (revisions.map ProjectRevision.objectKey
    ++ runs.flatMap (fun r => ObjectKey.log r.id :: r.logKey.toList) ++ [ObjectKey.legacy chatId]).dedup

def Database.queueDeletions (db : Database) (now : Nat) (keys : List ObjectKey) : Database :=
  { db with deletions := keys.foldl (fun t key => t.put ⟨key, now⟩) db.deletions }

/-- `delete(Chat)` and its cascade. -/
def Database.dropChat (db : Database) (chatId : Nat) : Database :=
  { db with
    chats := db.chats.erase chatId
    runs := db.runs.eraseIf fun r => r.chatId = chatId
    runEvents := db.runEvents.eraseIf fun e => (db.runs.get? e.runId).any fun r => r.chatId = chatId
    messages := db.messages.eraseIf fun m => m.chatId = chatId
    revisions := db.revisions.eraseIf fun r => r.chatId = chatId }

/-- The transaction of `delete_project`. -/
def deleteRows (chatId : Nat) (keys : List ObjectKey) (w : World) : Except Exc (Unit × World) :=
  if keys.any fun key => (w.db.deletions.get? key).isSome then .error .database
  else .ok ((), { w with db := (w.db.queueDeletions w.now keys).dropChat chatId })

/-- The part of `delete_project` under the lock. -/
def deleteLocked (userId chatId : Nat) : Act (List ObjectKey) := do
  -- Checkpoint creation locks this same row before inserting its object key.
  let _ ← ownedChat userId chatId
  let busy ← memory fun w => (w.mem.isBusy chatId, w)
  if busy then Co.raise (.http 409 "Stop the active operation before deleting this project")
  else do
    let keys ← query fun w => w.db.keysOf chatId
    transaction .commit (deleteRows chatId keys)
    pure keys

def deleteProject (t userId chatId : Nat) : Act Unit := do
  let keys ← withAdmission t (deleteLocked userId chatId)
  let _ ← attemptCleanup (cleanupProjectStorage keys)
  let _ ← attemptCleanup (retireSandbox t chatId)

end WebBuilder
