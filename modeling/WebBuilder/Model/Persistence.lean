/-
  WebBuilder.Model.Persistence — checkpoints and the object store.

  `storage.py` and `persistence.py`.  A storage call runs in an SDK thread
  that survives the cancellation of its caller; `put_object` runs in a task of
  its own that survives it too.  `save_revision` records a pending revision in
  one transaction, uploads outside any transaction, and `promote` makes the
  revision the saved one in another.
-/
import WebBuilder.Model.World

namespace WebBuilder

open WebBuilder.Async WebBuilder.Store WebBuilder.Budget

/-! ## §1. Storage threads. -/

def MAX_ARCHIVE : Nat := 10 * 1024 * 1024

def ObjectStore.start (s : ObjectStore) (thread : Nat) (t : Transfer) : ObjectStore :=
  { s with threads := s.threads ++ [(thread, t)] }

def ObjectStore.drop (s : ObjectStore) (thread : Nat) : ObjectStore :=
  { s with threads := s.threads.filter fun p => p.1 ≠ thread }

/-- `put` with `If-None-Match: *`; an equal object is as good. -/
def ObjectStore.put (s : ObjectStore) (o : StoredObject) : Except Exc ObjectStore :=
  if MAX_ARCHIVE < o.data.length then .error (.storage "Stored object exceeds its size limit")
  else
    match s.objects.get? o.objectKey with
    | none => .ok { s with objects := s.objects.put o }
    | some old =>
        if old.data = o.data then .ok s
        else .error (.storage "Immutable object checksum conflict")

def ObjectStore.delete (s : ObjectStore) (key : ObjectKey) : ObjectStore :=
  { s with objects := s.objects.erase key }

/-- The thread takes effect, if it can. -/
def ObjectStore.land (s : ObjectStore) (thread : Nat) : Option ObjectStore :=
  match s.threads.find? fun p => p.1 = thread with
  | some (_, .put o) =>
      match s.put o with
      | .ok s' => some (s'.drop thread)
      | .error _ => none
  | some (_, .delete key) => some ((s.delete key).drop thread)
  | none => none

/-- Start an SDK thread. -/
def startThread (t : Transfer) : Act Nat :=
  memory fun w => (w.nextId, { w with nextId := w.nextId + 1, store := w.store.start w.nextId t })

/-- Wait for an SDK thread: it ends well, or with a `StorageError`, or the
caller is interrupted and the thread goes on. -/
def joinThread (op : Op) (thread : Nat) (finish : ObjectStore → Except Exc ObjectStore) : Act Unit :=
  .await ⟨op, []⟩
    (fun answer w =>
      match answer with
      | .ok _ =>
          if w.store.threads.any fun p => p.1 = thread then
            match finish w.store with
            | .ok s => some (.ok (), { w with store := s.drop thread })
            | .error e => some (.error e, { w with store := w.store.drop thread })
          else some (.ok (), w)
      | .fail (.storage m) => some (.error (.storage m), { w with store := w.store.drop thread })
      | .fail e => if interruption e then some (.error e, w) else none
      | _ => none)
    .done

/-- `storage_call('put', key, data, …)`. -/
def storagePut (o : StoredObject) : Act Unit := do
  let thread ← startThread (.put o)
  joinThread (.put o) thread fun s => s.put o

/-- `storage_call('delete', key)`. -/
def storageDelete (key : ObjectKey) : Act Unit := do
  let thread ← startThread (.delete key)
  joinThread .storage thread fun s => .ok (s.delete key)

/-- `storage_call('read', key, size)`. -/
def storageRead (key : ObjectKey) (size : Nat) : Act Bytes :=
  .await ⟨.storage, []⟩
    (fun answer w =>
      match answer with
      | .ok _ =>
          match w.store.objects.get? key with
          | none => some (.error (.storage "Private storage read failed"), w)
          | some o =>
              if size < o.data.length then
                some (.error (.storage "Stored object exceeds its size limit"), w)
              else some (.ok o.data, w)
      | .fail (.storage m) => some (.error (.storage m), w)
      | .fail e => if interruption e then some (.error e, w) else none
      | _ => none)
    .done

/-! ## §2. Transfers. -/

inductive Direction where
  | uploaded
  | downloaded
  deriving DecidableEq

def StorageUsage.add (row : StorageUsage) (size : Nat) : Direction → StorageUsage
  | .uploaded => { row with uploaded := row.uploaded + size, uploadedOps := row.uploadedOps + 1 }
  | .downloaded => { row with downloaded := row.downloaded + size, downloadedOps := row.downloadedOps + 1 }

def StorageUsage.admits (cfg : Config) (row : StorageUsage) (size : Nat) : Direction → Bool
  | .uploaded => row.uploaded + size ≤ cfg.uploadLimit && row.uploadedOps < 1000
  | .downloaded => row.downloaded + size ≤ cfg.downloadLimit && row.downloadedOps < 10000

def reserveTransfer (cfg : Config) (direction : Direction) (size : Nat) : Act Unit :=
  transaction .commit fun w =>
    let today := w.now / DAY
    let row := (w.db.usage.get? today).getD ⟨today, 0, 0, 0, 0⟩
    if row.admits cfg size direction then
      .ok ((), { w with db := { w.db with usage := w.db.usage.put (row.add size direction) } })
    else .error (.storage "Daily storage transfer budget reached; retry after midnight UTC")

def readObject (cfg : Config) (key : ObjectKey) (size : Nat) : Act Bytes := do
  reserveTransfer cfg .downloaded size
  storageRead key size

/-- The inner `upload()` of `put_object`. -/
def upload (cfg : Config) (u : Upload) : Act Unit := do
  let owner ← query fun w => w.db.chats.get? u.chatId
  if owner.isNone then
    Co.raise (.storage "Project was deleted; upload cancelled")
  else do
    reserveTransfer cfg .uploaded u.data.length
    storagePut ⟨u.objectKey, u.data, u.chatId⟩

def World.setUploads (w : World) (t : Table Upload) : World :=
  { w with mem := { w.mem with uploads := t } }

/-- The task of an upload, with its `finished` callback. -/
def uploadTask (cfg : Config) (u : Upload) : Act Unit := do
  let r ← (upload cfg u).attempt
  memory' fun w => w.setUploads (w.mem.uploads.modify u.id fun u =>
    { u with task := .done, error := match r with | .ok _ => none | .error e => some e })

/-- Create the task of an upload and register it. -/
def registerUpload (key : ObjectKey) (data : Bytes) (chatId : Nat) : Act Nat :=
  memory fun w =>
    (w.nextId, { w.setUploads (w.mem.uploads.put ⟨w.nextId, key, data, chatId, .created, none⟩) with
      nextId := w.nextId + 1 })

/-- `await asyncio.shield(task)`. -/
def joinUpload (id : Nat) : Act Unit :=
  waitFor .join fun w =>
    match w.mem.uploads.get? id with
    | some u =>
        if u.task = .done then
          match u.error with
          | some e => some (.error e, w)
          | none => some (.ok (), w)
        else none
    | none => none

def putObject (key : ObjectKey) (data : Bytes) (chatId : Nat) : Act Unit := do
  let id ← registerUpload key data chatId
  joinUpload id

/-- `_uploads[key]`. -/
def Memory.pendingUploads (m : Memory) (key : ObjectKey) : List Nat :=
  (m.uploads.rows.filter fun u => u.objectKey = key ∧ u.task ≠ .done).map Upload.id

def waitForUploads (key : ObjectKey) : Act Unit := do
  let pending ← memory fun w => (w.mem.pendingUploads key, w)
  waitFor .join fun w =>
    if pending.all fun id => (w.mem.uploads.get? id).all fun u => u.task = .done then
      some (.ok (), w)
    else none

/-! ## §3. Revisions. -/

def latestRevision (chatId : Nat) : Act (Option ProjectRevision) := do
  let chat ← query fun w => w.db.chats.get? chatId
  match chat.bind Chat.latestSavedRevisionId with
  | none => pure none
  | some id => do
      let revision ← query fun w => w.db.revisions.get? id
      match revision with
      | some r =>
          if r.chatId ≠ chatId ∨ r.status ≠ .ready then
            Co.raise (.storage "Saved revision metadata is unavailable")
          else pure (some r)
      | none => Co.raise (.storage "Saved revision metadata is unavailable")

def revisionBytes (cfg : Config) (revision : ProjectRevision) : Act Bytes := do
  let data ← readObject cfg revision.objectKey revision.sizeBytes
  if data.length ≠ revision.sizeBytes ∨ cfg.sha256 data ≠ revision.archiveSha256 then
    Co.raise (.storage "Saved revision failed integrity checks; it was not restored")
  else do
    let files ← toThread (.ok (cfg.manifest data))
    if files ≠ some revision.manifest then
      Co.raise (.storage "Saved revision failed integrity checks; it was not restored")
    else pure data

/-- `db.add` of an event: the primary key is `(run_id, sequence)`, and `run_id`
refers to a run. -/
def Database.addEvent (db : Database) (e : Event) : Except Exc Database :=
  if (db.runs.get? e.runId).isNone ∨ (db.runEvents.get? (e.runId, e.sequence)).isSome then .error .database
  else .ok { db with runEvents := db.runEvents.put e }

def Database.addEvent? (db : Database) : Option Event → Except Exc Database
  | some e => db.addEvent e
  | none => .ok db

def Database.hasRunning (db : Database) (chatId : Nat) : Bool :=
  db.runs.rows.any fun r => r.chatId = chatId ∧ r.status = .running

/-- `revision` becomes `ready` and the saved revision of `chat`. -/
def Database.promoted (db : Database) (chat : Chat) (revision : ProjectRevision) : Database :=
  { db with
    revisions := db.revisions.put { revision with status := .ready }
    chats := db.chats.put { chat with latestSavedRevisionId := some revision.id }
    promotions := db.promotions ++
      [⟨chat.id, revision.id, revision.parentId, chat.latestSavedRevisionId⟩] }

/-- The part of `promote` after the row lock on the project.  `revision` is
what the session read before it: its attributes are not refreshed. -/
def promoteLocked (revision : ProjectRevision) (event : Option Event) (recovery : Bool) (w : World) :
    Except Exc (Unit × World) :=
  if revision.status = .ready then .ok ((), w)
  else
    match w.db.chats.get? revision.chatId with
    | none => .error (.storage "Checkpoint parent changed; previous files are preserved")
    | some chat =>
        if revision.status ≠ .pending ∨ chat.latestSavedRevisionId ≠ revision.parentId then
          .error (.storage "Checkpoint parent changed; previous files are preserved")
        else if recovery ∧ w.db.hasRunning chat.id then
          .error (.storage "Recovery deferred while a new run owns the workspace")
        else
          match w.db.revisions.get? revision.id with
          -- the UPDATE matches no row
          | none => .error .database
          | some row =>
              match (w.db.promoted chat row).addEvent? event with
              | .ok db => .ok ((), { w with db })
              | .error e => .error e

def promote (revisionId : Nat) (event : Option Event) (recovery : Bool) : Act Unit := do
  let revision ← query fun w => w.db.revisions.get? revisionId
  match revision with
  | none => Co.raise (.storage "Checkpoint was removed")
  | some revision => transaction (.promote revisionId) (promoteLocked revision event recovery)

/-- The transaction that records a checkpoint: an equal saved revision, or a
new pending one. -/
def recordRevision (cfg : Config) (chatId : Nat) (runId : Option Nat) (archive : Bytes)
    (files : Manifest) (template : String) (w : World) :
    Except Exc ((Nat ⊕ ProjectRevision) × World) :=
  let digest := contentHash cfg files template
  match w.db.chats.get? chatId with
  | none => .error (.storage "Project was removed")
  | some chat =>
      let previous := (chat.latestSavedRevisionId.bind w.db.revisions.get?).filter fun r =>
        r.status = .ready ∧ r.contentHash = digest
      match previous with
      | some r => .ok (.inl r.id, w)
      | none =>
          let size := archive.length
          let total := w.db.revisions.sumOf fun r =>
            if (w.db.chats.get? r.chatId).any fun c => c.userId = chat.userId then r.sizeBytes else 0
          let projectTotal := w.db.revisions.sumOf fun r => if r.chatId = chatId then r.sizeBytes else 0
          let allTotal := w.db.revisions.sumOf ProjectRevision.sizeBytes
          if total + size > 1024 ^ 3 ∨ projectTotal + size > 200 * 1024 ^ 2
              ∨ allTotal + size > 5 * 1024 ^ 3 then
            .error (.storage "Saved project storage limit reached")
          else
            let revision : ProjectRevision :=
              { id := w.nextId, chatId, runId, parentId := chat.latestSavedRevisionId,
                status := .pending, objectKey := .revision chatId w.nextId, contentHash := digest,
                archiveSha256 := cfg.sha256 archive, sizeBytes := size, manifest := files,
                templateId := template, createdAt := w.now }
            .ok (.inr revision, { w with
              nextId := w.nextId + 1
              db := { w.db with revisions := w.db.revisions.put revision } })

/-- `event_factory(revision_id) if event_factory else None`. -/
def makeEvent (eventFactory : Option (Nat → World → Event)) (revisionId : Nat) : Act (Option Event) :=
  match eventFactory with
  | some f => memory fun w => (some (f revisionId w), w)
  | none => pure none

def saveRevision (cfg : Config) (chatId : Nat) (runId : Option Nat) (archive : Bytes)
    (template : String) (eventFactory : Option (Nat → World → Event)) : Act (Nat × Option Event) := do
  let files ← toThread (match cfg.manifest archive with
    | some files => .ok files
    | none => .error (.value "Unsafe archive"))
  let recorded ← transaction .commit (recordRevision cfg chatId runId archive files template)
  match recorded with
  | .inl id => pure (id, none)
  | .inr revision => do
      -- A crash here leaves a pending row.  Recovery checks this exact object and hash.
      putObject revision.objectKey archive chatId
      let event ← makeEvent eventFactory revision.id
      promote revision.id event false
      pure (revision.id, event)

def ensureRevision (cfg : Config) (chatId : Nat) : Act (Option ProjectRevision) := do
  let revision ← latestRevision chatId
  match revision with
  | some r => pure (some r)
  | none => do
      let archive ← toThread (cfg.legacyArchive chatId)
      match archive with
      | some data => do
          let _ ← saveRevision cfg chatId none data cfg.templateId none
          latestRevision chatId
      | none => latestRevision chatId

end WebBuilder
