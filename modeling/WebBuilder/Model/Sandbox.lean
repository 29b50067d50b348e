/-
  WebBuilder.Model.Sandbox — ownership and leases of sandboxes.

  `sandbox_runtime.py` and `sandbox_budget.py`.  A project owns at most one
  sandbox through its `SandboxRuntime` row; the row is committed before the
  create request and removed only after the sandbox is confirmed absent.
  Every run of a sandbox is paid by a lease in the spend ledger that is
  reserved before the request and confirmed or settled after it.
-/
import WebBuilder.Model.Persistence

namespace WebBuilder

open WebBuilder.Async WebBuilder.Store WebBuilder.Budget

def RUNTIME_TIMEOUT : Nat := 1200

/-! ## §1. E2B requests. -/

/-- What `get_info` reports. -/
structure SandboxInfo where
  sandboxId : Nat
  running : Bool
  resources : Resources
  autoResume : Bool
  deriving DecidableEq

/-- The sandbox, unless it is gone. -/
def Provider.box? (e : Provider) (id : Nat) : Option Box :=
  (e.boxes.get? id).filter fun b => b.state ≠ .gone

def Provider.set (e : Provider) (b : Box) : Provider := { e with boxes := e.boxes.put b }

def World.missing (id : Nat) (w : World) : Bool := (w.e2b.box? id).isNone

def World.setBox (w : World) (b : Box) : World := { w with e2b := w.e2b.set b }

def World.defer (w : World) (p : Pending) : World :=
  { w with e2b := { w.e2b with pending := w.e2b.pending ++ [p] } }

def Box.info (b : Box) : SandboxInfo :=
  ⟨b.id, b.state = .running, ⟨b.cpuCount, b.memoryMb, b.deadline⟩, b.autoResume⟩

/-- `AsyncSandbox.get_info(id)`. -/
def getInfo (id : Nat) : Act SandboxInfo :=
  request .provider (World.missing id)
    (fun _ w => (w.e2b.box? id).map fun b => (b.info, w)) some

/-- Serving `connect`: it wakes a paused sandbox and only extends a running one. -/
def Box.connect (b : Box) (deadline : Nat) : Box :=
  { b with
    state := .running
    deadline := if b.state = .running then max b.deadline deadline else deadline }

/-- `AsyncSandbox.connect(id, timeout=…)`. -/
def connectSandbox (id spendId : Nat) : Act Nat :=
  request (.connect id spendId) (World.missing id)
    (fun d w =>
      match d, w.e2b.box? id with
      | .deadline t, some b => some (id, w.setBox (b.connect t))
      | _, _ => none)
    fun w => some (w.defer (.connect id spendId))

/-- Serving `create`. -/
def World.createBox (w : World) (operation chatId cpuCount memoryMb deadline : Nat)
    (files : Manifest) : World :=
  { w.setBox ⟨w.nextId, operation, chatId, .running, cpuCount, memoryMb, deadline, false, files, false⟩ with
    nextId := w.nextId + 1 }

/-- `AsyncSandbox.create(…, metadata={'webbuilder_operation': operation})`. -/
def createSandbox (operation chatId spendId : Nat) : Act Nat :=
  request (.create spendId) (fun _ => true)
    (fun d w =>
      match d with
      | .machine cpu mem deadline files =>
          some (w.nextId, w.createBox operation chatId cpu mem deadline files)
      | _ => none)
    fun w => some (w.defer (.create operation chatId spendId))

def World.kill (w : World) (id : Nat) : World :=
  match w.e2b.boxes.get? id with
  | some b => w.setBox { b with state := .gone }
  | none => w

/-- `AsyncSandbox.kill(id)`: both answers mean that the sandbox is absent. -/
def killSandbox (id : Nat) : Act Unit :=
  request .provider (fun _ => false) (fun _ w => some ((), w.kill id)) some

/-- `AsyncSandbox.pause(id)`. -/
def pauseSandbox (id : Nat) : Act Unit :=
  request .provider (World.missing id)
    (fun _ w => (w.e2b.box? id).map fun b => ((), w.setBox { b with state := .paused })) some

/-- `AsyncSandbox.list` by operation: it may miss sandboxes, but reports none
of another operation. -/
def listSandboxes (operation : Nat) : Act (List Nat) :=
  request .provider (fun _ => false)
    (fun d w =>
      match d with
      | .ids ids =>
          if ids.all fun id => (w.e2b.boxes.get? id).any fun b => b.operation = operation then
            some (ids, w)
          else none
      | _ => none)
    some

/-- A command in the sandbox that leaves saved files unchanged; the answer is
whether it exited with `0`. -/
def sandboxCommand (id : Nat) : Act Bool :=
  request .provider (World.missing id)
    (fun d w =>
      match d, w.e2b.box? id with
      | .check ok, some _ => some (ok, w)
      | _, _ => none)
    some

/-- E2B by itself: time passes, a pending request is served, a sandbox is
deleted or paused, a command that nobody waits for changes files. -/
def World.environment (w : World) : Datum → Option World
  | .tick time => if w.now ≤ time then some { w with now := time } else none
  | .serve i d =>
      let rest := { w with e2b := { w.e2b with pending := w.e2b.pending.eraseIdx i } }
      match w.e2b.pending[i]?, d with
      | some (.create operation chatId _), .machine cpu mem deadline files =>
          some (rest.createBox operation chatId cpu mem deadline files)
      | some (.connect id _), .deadline t =>
          match w.e2b.box? id with
          | some b => some (rest.setBox (b.connect t))
          | none => some rest
      | _, _ => none
  | .vanish id => some (w.kill id)
  | .sleep id => (w.e2b.box? id).map fun b => w.setBox { b with state := .paused }
  | .scribble id files =>
      match w.e2b.box? id with
      | some b => if b.unsettled then some (w.setBox { b with files }) else none
      | none => none
  | .transfer thread => (w.store.land thread).map fun store => { w with store }
  | _ => none

/-! ## §2. Leases. -/

/-- How long a lease lasts, in seconds: the timeout, or what is left of a
running deadline, and a minute. -/
def leaseDuration (timeout now : Nat) (info : Option SandboxInfo) : Nat :=
  let remaining := match info with
    | some i => if i.running then i.resources.endAt - now else 0
    | none => 0
  max timeout (remaining / SECOND + 1) + 60

/-- The rate of a lease: that of the configured ceiling, or of the sandbox. -/
def leaseRate (cfg : Config) (info : Option SandboxInfo) : Except Exc Nat :=
  if cfg.costMaxCpu < 1 ∨ cfg.costMaxMemoryMb < 128 then
    .error (.value "E2B cost resource ceiling is invalid")
  else
    match sandboxRate cfg.rates cfg.costMaxCpu cfg.costMaxMemoryMb with
    | .error e => .error e
    | .ok rate =>
        match info with
        | none => .ok rate
        | some i =>
            if i.autoResume then
              .error (.budgetLimit "Automatic preview resume bypasses the usage allowance. Reopen after cleanup.")
            else
              match sandboxRate cfg.rates i.resources.cpuCount i.resources.memoryMb with
              | .error e => .error e
              | .ok actual =>
                  if rate < actual then
                    .error (.budgetLimit "This preview exceeds the configured compute allowance. Contact support.")
                  else .ok actual

/-- `reserve` as a transaction. -/
def reserveSpend (cfg : Config) (userId : Nat) (kind : SpendKind) (amount duration : Int)
    (details : Details) (runId replaceId : Option Nat) : Act SpendEntry :=
  transaction .commit fun w =>
    match reserve cfg.limits w.db.users w.db.spend w.now w.nextId userId kind amount duration
        details runId replaceId with
    | .ok (entry, spend) =>
        .ok (entry, { w with nextId := w.nextId + 1, db := { w.db with spend } })
    | .error e => .error e

def reserveRuntime (cfg : Config) (chatId : Nat) (previous : Option Nat) (info : Option SandboxInfo) :
    Act SpendEntry := do
  let userId ← query fun w => (w.db.chats.get? chatId).map Chat.userId
  match userId with
  | none => Co.raise (.budgetLimit "Project is unavailable for preview spending.")
  | some userId =>
      match leaseRate cfg info with
      | .error e => Co.raise e
      | .ok rate => do
          let duration ← memory fun w => (leaseDuration RUNTIME_TIMEOUT w.now info, w)
          if 86400 ≤ duration then
            Co.raise (.budgetLimit "Preview timeout exceeds the supported spending window.")
          else
            reserveSpend cfg userId .sandbox (rate * duration : Nat) duration
              { nanosPerSecond := some rate, resourceCeilingCpu := some cfg.costMaxCpu,
                resourceCeilingMemoryMb := some cfg.costMaxMemoryMb } none previous

def settleSpend (entryId : Nat) (amount : Option Int) : Act Unit :=
  transaction (.settle entryId) fun w =>
    match settle w.db.spend w.now entryId amount {} with
    | .ok spend => .ok ((), { w with db := { w.db with spend } })
    | .error e => .error e

def settleRuntime (spendId : Option Nat) (rejected : Bool) : Act Unit :=
  match spendId with
  | some id => settleSpend id (if rejected then some 0 else none)
  | none => pure ()

/-- `confirm_runtime`: an exceeded reservation is recorded before it is raised. -/
def confirmLease (cfg : Config) (spendId : Nat) (info : SandboxInfo) : Act Unit := do
  let exceeded ← transaction (.confirm spendId) fun w =>
    match confirmRuntime cfg.rates w.db.spend spendId info.resources with
    | .ok (exceeded, spend) => .ok (exceeded, { w with db := { w.db with spend } })
    | .error e => .error e
  if exceeded then
    Co.raise (.budgetLimit "Preview resource usage exceeded its reservation; contact support.")
  else pure ()

/-! ## §3. Rows and handles. -/

def getRuntime (chatId : Nat) : Act (Option SandboxRuntime) :=
  query fun w => w.db.runtimes.get? chatId

def Database.setRuntime (db : Database) (row : SandboxRuntime) : Database :=
  { db with runtimes := db.runtimes.put row }

/-- The row, while it belongs to this operation. -/
def Database.runtime? (db : Database) (chatId operationId : Nat) : Option SandboxRuntime :=
  (db.runtimes.get? chatId).filter fun r => r.operationId = operationId

/-- `change(row, **values)`: the row as the caller sees it afterwards. -/
def change (row : SandboxRuntime) (values : SandboxRuntime → SandboxRuntime) : Act SandboxRuntime :=
  transaction .commit fun w =>
    match w.db.runtime? row.chatId row.operationId with
    | some r => .ok (values row, { w with db := w.db.setRuntime (values r) })
    | none => .error (.storage "Preview ownership changed; reopen the project")

def Memory.setHandle (m : Memory) (chatId sandboxId : Nat) : Memory :=
  { m with handles := m.handles.put ⟨chatId, sandboxId⟩ }

def Memory.forgetHandle (m : Memory) (chatId : Nat) : Memory :=
  { m with handles := m.handles.erase chatId, lastUsed := Function.update m.lastUsed chatId none }

/-- `handles.get(chat_id)`, as the sandbox id of the handle. -/
def Memory.handle? (m : Memory) (chatId : Nat) : Option Nat :=
  (m.handles.get? chatId).map Handle.sandboxId

def setHandle (chatId sandboxId : Nat) : Act Unit :=
  memory' fun w => { w with mem := w.mem.setHandle chatId sandboxId }

def forgetHandle (chatId : Nat) : Act Unit :=
  memory' fun w => { w with mem := w.mem.forgetHandle chatId }

/-- `delete(SandboxRuntime)` of this operation. -/
def deleteRuntime (row : SandboxRuntime) : Act Unit :=
  transaction .commit fun w => .ok ((), { w with db := { w.db with
    runtimes := w.db.runtimes.eraseIf fun r =>
      r.chatId = row.chatId ∧ r.operationId = row.operationId } })

def remove (row : SandboxRuntime) (rejected : Bool) : Act Unit := do
  settleRuntime row.spendId rejected
  deleteRuntime row
  forgetHandle row.chatId

/-! ## §4. Retirement. -/

/-- The sandbox ids that `retire` kills, when the row or a handle has one. -/
def retireIds (row : Option SandboxRuntime) (handle : Option Nat) : List Nat :=
  ((row.bind SandboxRuntime.sandboxId).toList ++ handle.toList).dedup

/-- The `try` block of `retire`: whether the sandboxes are confirmed absent. -/
def retireKill (row : Option SandboxRuntime) (handle : Option Nat) : Act Bool :=
  let ids := retireIds row handle
  match row, ids with
  | some r, [] => do
      -- The create response may have been lost: ask for the operation.
      let found ← withTimeout .request (listSandboxes r.operationId)
      if found.isEmpty then pure false
      else do
        Co.forEach found.dedup fun id => withTimeout .request (killSandbox id)
        pure true
  | _, ids => do
      Co.forEach ids fun id => withTimeout .request (killSandbox id)
      pure true

/-- `state='retiring', reusable=False`. -/
def SandboxRuntime.toRetire (r : SandboxRuntime) : SandboxRuntime :=
  { r with
    state := .retiring
    reusable := false
    fromPaused := r.state = .paused || (r.state = .retiring && r.fromPaused) }

def retire (chatId : Nat) : Act Bool := do
  let row ← getRuntime chatId
  let handle ← Co.memory ⟨.retire row, []⟩ fun w => (w.mem.handle? chatId, w)
  match row with
  | some row => do
      let row ← change row SandboxRuntime.toRetire
      let killed ← catchException (retireKill (some row) handle) fun _ => pure false
      if killed then do
        remove row false
        pure true
      else pure false
  | none => do
      let killed ← catchException (retireKill none handle) fun _ => pure false
      if killed then do
        forgetHandle chatId
        pure true
      else pure false

/-! ## §5. Polling. -/

inductive Polled where
  | unknown
  | missing
  | running
  | paused
  deriving DecidableEq

/-- `except NotFoundException: none`. -/
def orMissing {α : Type} (p : Act α) : Act (Option α) :=
  (p.bind fun a => pure (some a)).tryCatch fun e =>
    if e = .notFound then pure none else Co.raise e

/-- Close the lease of a paused sandbox. -/
def settlePaused (row : SandboxRuntime) : Act SandboxRuntime := do
  settleRuntime row.spendId false
  let row ← change row fun r => { r with spendId := none }
  forgetHandle row.chatId
  pure row

/-- The part of `state` after the control-plane query. -/
def recordState (row : SandboxRuntime) (info : Option SandboxInfo) : Act (Polled × SandboxRuntime) :=
  match info with
  | none => do
      remove row false
      pure (.missing, row)
  | some i => do
      let row ← change row fun r => { r with state := if i.running then .running else .paused }
      if i.running then pure (.running, row)
      else do
        let row ← settlePaused row
        pure (.paused, row)

/-- `state(row, info)`, with the row as the caller sees it afterwards. -/
def state (row : SandboxRuntime) (info : Option SandboxInfo) : Act (Polled × SandboxRuntime) :=
  match row.sandboxId with
  | none => pure (.unknown, row)
  | some id =>
      match info with
      | some i => recordState row (some i)
      | none => do
          let found ← orMissing (getInfo id)
          recordState row found

/-! ## §6. Acquisition. -/

/-- The row may serve this revision without a restore. -/
def SandboxRuntime.compatible (cfg : Config) (row : SandboxRuntime) (template : String)
    (revisionId : Option Nat) : Bool :=
  row.reusable && row.sandboxId.isSome && row.revisionId = revisionId && row.templateId = template
    && row.generation = cfg.generation && (row.state = .running || row.state = .paused)

/-- Poll a compatible runtime: `none` when it is gone. -/
def pollCompatible (row : SandboxRuntime) (sandboxId : Nat) :
    Act (Option (SandboxRuntime × SandboxInfo)) := do
  let info ← orMissing (getInfo sandboxId)
  match info with
  | none => do
      remove row false
      pure none
  | some i => do
      let (polled, row) ← state row (some i)
      if polled = .running ∨ polled = .paused then pure (some (row, i))
      else Co.raise (.storage "Preview state is unknown; retry after cleanup")

/-- Connect, register the handle and confirm the lease. -/
def connectLease (cfg : Config) (chatId sandboxId spendId : Nat) : Act Nat := do
  let handle ← withTimeout .request (connectSandbox sandboxId spendId)
  setHandle chatId handle
  let info ← getInfo handle
  confirmLease cfg spendId info
  pure handle

/-- Resume a compatible runtime: `none` when E2B does not know it. -/
def resume (cfg : Config) (row : SandboxRuntime) (sandboxId : Nat) (info : SandboxInfo) :
    Act (Option Nat) := do
  let spend ← reserveRuntime cfg row.chatId row.spendId (some info)
  let now ← memory fun w => (w.now, w)
  -- Reserve durably before connect: connect can wake a paused sandbox.
  let _ ← change row fun r =>
    { r with state := .running, spendId := some spend.id, lastUsedAt := now }
  ((connectLease cfg row.chatId sandboxId spend.id).bind fun h => pure (some h)).tryCatch fun e =>
    match e with
    | .notFound => pure none
    | .budgetLimit m => Co.raise (.budgetLimit m)
    | e =>
        if e.isException then
          Co.raise (.storage "Preview resume could not be confirmed; retry after cleanup")
        else Co.raise e

/-- Insert the row that owns a new operation. -/
def insertRuntime (chatId spendId : Nat) (template generation : String) (w : World) :
    Except Exc (SandboxRuntime × World) :=
  if (w.db.chats.get? chatId).isNone then .error (.storage "Project no longer exists")
  else if (w.db.runtimes.get? chatId).isSome then .error .database
  else
    let row : SandboxRuntime :=
      { chatId, operationId := w.nextId, sandboxId := none, templateId := template, generation,
        revisionId := none, reusable := false, state := .creating, lastUsedAt := w.now,
        spendId := some spendId, fromPaused := false }
    .ok (row, { w with nextId := w.nextId + 1, db := w.db.setRuntime row })

/-- Start a new sandbox under a new operation. -/
def startRuntime (cfg : Config) (chatId : Nat) (template : String) : Act (Nat × Bool) := do
  let spend ← reserveRuntime cfg chatId none none
  let row ← transaction .commit (insertRuntime chatId spend.id template cfg.generation)
  -- Ownership intent is committed before the provider request.
  let handle ← (withTimeout .request (createSandbox row.operationId chatId spend.id)).tryCatch fun e =>
    if e = .rejected ∨ e = .notFound then do
      -- Explicit request rejection is different from a lost creation response.
      remove row true
      Co.raise e
    else Co.raise e
  setHandle chatId handle
  let _ ← change row fun r => { r with sandboxId := some handle, state := .running }
  let info ← getInfo handle
  confirmLease cfg spend.id info
  pure (handle, true)

/-- Retire what the project has, then start a new sandbox. -/
def replaceRuntime (cfg : Config) (chatId : Nat) (template : String) : Act (Nat × Bool) := do
  let retired ← retire chatId
  if retired then startRuntime cfg chatId template
  else Co.raise (.storage "Previous preview cleanup is pending; no replacement was started")

/-- The template of the revision, or the configured one. -/
def templateFor (cfg : Config) (revision : Option ProjectRevision) : String :=
  match revision with
  | some r => r.templateId
  | none => cfg.templateId

/-- `acquire(chat_id, revision)`: the handle, and whether sources must be
restored into it. -/
def acquire (cfg : Config) (chatId : Nat) (revision : Option ProjectRevision) : Act (Nat × Bool) := do
  let template := templateFor cfg revision
  let row ← getRuntime chatId
  match row with
  | none => startRuntime cfg chatId template
  | some row =>
      match row.sandboxId, row.compatible cfg template (revision.map ProjectRevision.id) with
      | some sandboxId, true => do
          let polled ← pollCompatible row sandboxId
          match polled with
          | none => startRuntime cfg chatId template
          | some (row, info) => do
              let handle ← resume cfg row sandboxId info
              match handle with
              | some h => pure (h, false)
              -- Confirm termination before making a replacement.
              | none => replaceRuntime cfg chatId template
      | _, _ => replaceRuntime cfg chatId template

def invalidate (chatId : Nat) : Act Unit := do
  let row ← getRuntime chatId
  match row with
  | none => Co.raise (.storage "Preview ownership is missing")
  | some row => do
      let _ ← change row fun r => { r with reusable := false }
      pure ()

/-- `mark_reusable`, inside the caller's transaction. -/
def markReusable (chatId : Nat) (revisionId : Nat) (w : World) : Except Exc World :=
  match w.mem.handle? chatId with
  | none => .error (.storage "Saved preview ownership is missing")
  | some handle =>
      match (w.db.runtimes.get? chatId).filter fun r =>
          r.sandboxId = some handle ∧ r.state = .running with
      | some r =>
          let row := { r with reusable := true, revisionId := some revisionId, lastUsedAt := w.now }
          .ok { w with db := w.db.setRuntime row }
      | none => .error (.storage "Saved preview ownership changed")

/-! ## §7. Idle runtimes. -/

/-- The `try` block of `pause`. -/
def pauseRuntime (row : SandboxRuntime) (sandboxId : Nat) : Act Unit := do
  withTimeout .request (pauseSandbox sandboxId)
  let row ← change row fun r => { r with state := .paused }
  let _ ← settlePaused row
  pure ()

def pause (row : SandboxRuntime) : Act Bool :=
  if !row.reusable then retire row.chatId
  else
    match row.sandboxId with
    -- E2B answers a request without a sandbox id with an error
    | none => pure false
    | some id =>
        (((pauseRuntime row id).bind fun _ => pure true).tryCatch fun e =>
          if e = .notFound then do
            remove row false
            pure true
          -- A refused or timed-out pause may still be running. Keep its reservation.
          else if e.isException then pure false
          else Co.raise e)

/-- The rows that `maintain` looks at, with their projects. -/
def Database.reconcilable (db : Database) (cfg : Config) (now : Nat) :
    List (SandboxRuntime × Option Chat) :=
  (db.runtimes.rows.map fun r => (r, db.chats.get? r.chatId)).filter fun (r, chat) =>
    r.state ≠ .paused || r.lastUsedAt + cfg.pausedRetention < now || !r.reusable || chat.isNone
      || (r.revisionId.isSome && (chat.bind Chat.latestSavedRevisionId).isSome
          && r.revisionId ≠ chat.bind Chat.latestSavedRevisionId)
      || r.generation ≠ cfg.generation

/-- Whether `maintain` retires the row instead of polling it. -/
def SandboxRuntime.stale (cfg : Config) (now : Nat) (row : SandboxRuntime) (chat : Option Chat) : Bool :=
  match chat with
  | none => true
  | some chat => !row.reusable || row.state = .creating || row.state = .retiring
      || row.revisionId ≠ chat.latestSavedRevisionId || row.generation ≠ cfg.generation
      || row.lastUsedAt + cfg.pausedRetention < now

/-- One round of the loop of `SandboxRuntimes.maintain`. -/
def reconcile (cfg : Config) (now : Nat) (shutdown : Bool) (row : SandboxRuntime) (chat : Option Chat) :
    Act Unit :=
  catchException
    (if row.stale cfg now chat then do
      let _ ← retire row.chatId
      pure ()
    else if row.state = .paused then pure ()
    else do
      let (polled, row) ← state row none
      if polled ≠ .running then pure ()
      else do
        let idle ← memory fun w =>
          (decide (cfg.previewIdle ≤ w.now - (w.mem.lastUsed row.chatId).getD 0), w)
        if shutdown || idle then do
          let _ ← pause row
          pure ()
        else pure ())
    fun _ => pure ()

/-- `SandboxRuntimes.maintain(busy, shutdown)`. -/
def maintainRuntimes (cfg : Config) (busy : List Nat) (shutdown : Bool) : Act Unit := do
  let now ← memory fun w => (w.now, w)
  let rows ← query fun w => w.db.reconcilable cfg now
  Co.forEach rows fun (row, chat) =>
    if row.chatId ∈ busy then pure () else onProject row.chatId (reconcile cfg now shutdown row chat)

end WebBuilder
