/-
  WebBuilder.Model.Maintenance — housekeeping of revisions, logs and keys.

  `maintenance.py` and `events.archive_run`.  `maintain` retries queued key
  deletions, promotes or fails old pending revisions, archives run logs and
  prunes revisions: it marks them `deleting` under the project's row lock,
  deletes each object, then each row that is still `deleting`.
-/
import WebBuilder.Model.Persistence

namespace WebBuilder

open WebBuilder.Async WebBuilder.Store WebBuilder.Budget

abbrev HOUR : Nat := 3600000000

/-! ## §1. Queued deletions. -/

/-- `attempt_cleanup(action)`. -/
def attemptCleanup (action : Act Bool) : Act Bool :=
  catchException (withTimeout .operation action) fun _ => pure false

/-- Remove what is stored under a queued key. -/
def removeStored (key : ObjectKey) : Act Unit :=
  match key with
  | .legacy _ => toThread (.ok ())
  | _ => do
      waitForUploads key
      storageDelete key

/-- `delete(StorageDeletion)`. -/
def Database.purge (db : Database) (key : ObjectKey) : Database :=
  if (db.deletions.get? key).isSome then
    { db with deletions := db.deletions.erase key, purged := db.purged ++ [key] }
  else db

/-- One round of the loop of `cleanup_project_storage`. -/
def cleanupKey (key : ObjectKey) : Act Bool := do
  let removed ← ((removeStored key).bind fun _ => pure true).tryCatch fun e =>
    match e with
    | .storage _ | .value _ | .other => pure false
    | e => Co.raise e
  if removed then do
    transaction .commit fun w => .ok ((), { w with db := w.db.purge key })
    pure true
  else pure false

def cleanupProjectStorage : List ObjectKey → Act Bool
  | [] => pure true
  | key :: keys => do
      let done ← cleanupKey key
      let rest ← cleanupProjectStorage keys
      pure (done && rest)

/-! ## §2. Run logs. -/

/-- `run_events(db, run_id, after_sequence)`. -/
def runEvents (db : Database) (runId afterSequence : Nat) : List Event :=
  (((db.runEvents.rows.filter fun e => e.runId = runId ∧ afterSequence < e.sequence).insertionSort
    fun a b => a.sequence ≤ b.sequence).take 201)

def Database.modifyRun (db : Database) (runId : Nat) (f : Run → Run) : Database :=
  { db with runs := db.runs.modify runId f }

def archiveRun (cfg : Config) (runId : Nat) : Act Unit := do
  let run ← query fun w => w.db.runs.get? runId
  match run with
  | none => pure ()
  | some run =>
      if run.status = .running ∨ run.logSha256.isSome then pure ()
      else do
        let events ← query fun w => runEvents w.db runId 0
        if events.isEmpty then pure ()
        else
          match cfg.packLog events with
          | .error e => Co.raise e
          | .ok archive => do
              putObject (.log runId) archive run.chatId
              -- Confirm bytes before allowing expanded diagnostics to be pruned later.
              let stored ← readObject cfg (.log runId) archive.length
              if cfg.sha256 stored ≠ cfg.sha256 archive then
                Co.raise (.storage "Run log archive verification failed")
              else
                transaction .commit fun w => .ok ((), { w with db := w.db.modifyRun runId fun r =>
                  { r with logKey := some (.log runId), logSha256 := some (cfg.sha256 archive) } })

/-! ## §3. Revisions. -/

/-- `except StorageError`. -/
def catchStorage (p : Act Unit) (h : Act Unit) : Act Unit :=
  p.tryCatch fun e =>
    match e with
    | .storage _ => h
    | e => Co.raise e

/-- Fail a revision that is still pending. -/
def failRevision (revisionId : Nat) : Act Unit :=
  transaction .commit fun w =>
    match w.db.revisions.get? revisionId with
    | some row =>
        if row.status = .pending then
          .ok ((), { w with db := { w.db with
            revisions := w.db.revisions.put { row with status := .failed } } })
        else .ok ((), w)
    | none => .ok ((), w)

/-- One round of the recovery loop. -/
def recoverRevision (cfg : Config) (now : Nat) (revision : ProjectRevision) : Act Unit :=
  catchStorage
    (do
      let _ ← revisionBytes cfg revision
      promote revision.id none true)
    -- Never race an in-flight SDK upload; cancelled SDK calls may finish in their thread.
    (if revision.createdAt + DAY < now then failRevision revision.id else pure ())

/-- Revisions of a project, newest first. -/
def Database.revisionsOf (db : Database) (chatId : Nat) : List ProjectRevision :=
  (db.revisions.rows.filter fun r => r.chatId = chatId).insertionSort fun a b =>
    b.createdAt ≤ a.createdAt

/-- The revisions that a pass starting at `now` takes out. -/
def Database.expired (db : Database) (now : Nat) (chat : Chat) : List ProjectRevision :=
  let rows := db.revisionsOf chat.id
  let keep := (((rows.filter fun r => r.status = .ready).take 5).map ProjectRevision.id)
    ++ chat.latestSavedRevisionId.toList ++ chat.latestVerifiedRevisionId.toList
  rows.filter fun r =>
    !(decide (r.id ∈ keep) || decide (r.status = .pending) || decide (now < r.createdAt + HOUR))

def ProjectRevision.markDeleting (ids : List Nat) (r : ProjectRevision) : ProjectRevision :=
  if r.id ∈ ids then { r with status := .deleting } else r

theorem ProjectRevision.key_markDeleting (ids : List Nat) (r : ProjectRevision) :
    key (r.markDeleting ids) = key r := by
  unfold markDeleting
  split <;> rfl

def Database.markDeleting (db : Database) (ids : List Nat) : Database :=
  { db with
    revisions := db.revisions.update (ProjectRevision.markDeleting ids)
      (ProjectRevision.key_markDeleting ids) }

/-- The marking transaction of the pruning loop. -/
def pruneRevisions (now chatId : Nat) (w : World) : List (Nat × ObjectKey) × World :=
  match w.db.chats.get? chatId with
  | none => ([], w)
  | some chat =>
      if w.db.hasRunning chatId then ([], w)
      else
        let deleting := w.db.expired now chat
        (deleting.map fun r => (r.id, r.objectKey),
          { w with db := w.db.markDeleting (deleting.map ProjectRevision.id) })

/-- Delete the object, then the row if it is still `deleting`. -/
def deleteRevision (revision : Nat × ObjectKey) : Act Unit := do
  storageDelete revision.2
  transaction .commit fun w => .ok ((), { w with db := { w.db with
    revisions := w.db.revisions.eraseIf fun r => r.id = revision.1 ∧ r.status = .deleting } })

def pruneChat (now chatId : Nat) : Act Unit := do
  let deleting ← transaction .commit fun w => .ok (pruneRevisions now chatId w)
  Co.forEach deleting deleteRevision

/-! ## §4. Old logs. -/

/-- Strip details, delete the stored log, forget its key.  The details are
payload fields that are not modelled. -/
def expireLog (run : Run) : Act Unit := do
  let row ← query fun w => w.db.runs.get? run.id
  match row, run.logKey with
  | some _, some key => do
      storageDelete key
      transaction .commit fun w => .ok ((), { w with db := w.db.modifyRun run.id fun r =>
        { r with logKey := none } })
  | _, _ => pure ()

/-- The last transaction of `maintain`. -/
def Database.dropOld (db : Database) (now : Nat) : Database :=
  { db with
    runEvents := db.runEvents.eraseIf fun e =>
      (db.runs.get? e.runId).any fun r =>
        (r.finishedAt.any fun t => t + 30 * DAY < now) && r.logKey.isNone && r.logSha256.isSome
    usage := db.usage.eraseIf fun u => (u.day + 32) * DAY + DAY ≤ now }

/-! ## §5. The pass. -/

def Memory.busy (m : Memory) : List Nat :=
  (m.active.filterMap fun id => (m.runs.get? id).map LiveRun.chatId) ++ m.opening

/-- Projects with more than five revisions, or with one to take away. -/
def Database.pruneCandidates (db : Database) : List Nat :=
  (db.revisions.rows.map ProjectRevision.chatId).dedup.filter fun chatId =>
    decide (5 < (db.revisionsOf chatId).length) ||
      (db.revisionsOf chatId).any fun r => r.status = .failed ∨ r.status = .deleting

def maintain (cfg : Config) : Act Unit := do
  let now ← memory fun w => (w.now, w)
  let deletions ← query fun w =>
    ((w.db.deletions.rows.insertionSort fun a b => a.createdAt ≤ b.createdAt).take 100).map
      StorageDeletion.objectKey
  Co.forEach deletions fun key => do
    let _ ← attemptCleanup (cleanupProjectStorage [key])
    pure ()
  let busy ← memory fun w => (w.mem.busy, w)
  let pending ← query fun w =>
    ((w.db.revisions.rows.filter fun r => r.status = .pending).insertionSort
      fun a b => a.createdAt ≤ b.createdAt).take 100
  Co.forEach pending fun revision =>
    if revision.chatId ∈ busy then pure () else recoverRevision cfg now revision
  let runIds ← query fun w =>
    (((w.db.runs.rows.filter fun r => r.status ≠ .running ∧ r.logSha256 = none ∧
      (w.db.runEvents.rows.any fun e => e.runId = r.id)).insertionSort
        fun a b => a.finishedAt.getD 0 ≤ b.finishedAt.getD 0).take 20).map Run.id
  Co.forEach runIds fun runId => catchStorage (archiveRun cfg runId) (pure ())
  let chatIds ← query fun w => w.db.pruneCandidates
  Co.forEach chatIds fun chatId => if chatId ∈ busy then pure () else pruneChat now chatId
  let expired ← query fun w =>
    (w.db.runs.rows.filter fun r => (r.finishedAt.any fun t => t + 14 * DAY < now) ∧
      r.logKey.isSome).take 50
  Co.forEach expired expireLog
  transaction .commit fun w => .ok ((), { w with db := w.db.dropOld now })

end WebBuilder
