/-
  WebBuilder.Model.World — everything the service reads and writes.

  One `World` holds the database, the memory of the single worker process,
  the sandboxes as E2B knows them and the object store.  Coroutines of the
  service are `Act`s over it (`Async.Coroutine`); the combinators at the end
  are the kinds of await the source uses: a transaction, a query, a lock, the
  join of another task, an E2B request, a storage call run in a thread.

  `uuid4` is a counter: what matters of it is that no value comes twice.
  Rows keep the columns that the modelled functions read.
-/
import WebBuilder.Async.Pool
import WebBuilder.Budget.Ledger

namespace WebBuilder

open WebBuilder.Async WebBuilder.Store WebBuilder.Budget

/-! ## §1. Files and keys. -/

abbrev Bytes := List UInt8

structure FileInfo where
  size : Nat
  sha256 : String
  deriving DecidableEq

/-- `{path: {'size': …, 'sha256': …}}`, sorted by path. -/
abbrev Manifest := List (String × FileInfo)

/-- Storage keys: `projects/{chat}/revisions/{revision}.zip`,
`logs/{run}.jsonl.gz` and `legacy/{chat}`. -/
inductive ObjectKey where
  | revision (chatId revisionId : Nat)
  | log (runId : Nat)
  | legacy (chatId : Nat)
  deriving DecidableEq

/-! ## §2. Database rows. -/

structure Chat where
  id : Nat
  userId : Nat
  appUrl : Option String
  latestSavedRevisionId : Option Nat
  latestVerifiedRevisionId : Option Nat
  deriving DecidableEq

inductive RunStatus where
  | running
  | succeeded
  | failed
  | timedOut
  | cancelled
  | interrupted
  deriving DecidableEq

structure Run where
  id : Nat
  chatId : Nat
  prompt : String
  status : RunStatus
  reason : Option String
  createdAt : Nat
  finishedAt : Option Nat
  logKey : Option ObjectKey
  logSha256 : Option String
  deriving DecidableEq

inductive EventKind where
  | runStarted
  | stage
  | verification (ok : Bool)
  | toolStarted (callId : Nat)
  | toolCompleted (callId : Nat) (ok : Bool)
  | checkpointSaved (revisionId : Nat)
  | runFinished (status : RunStatus) (url : Option String) (revisionId : Option Nat)
  deriving DecidableEq

def EventKind.isFinish : EventKind → Bool
  | runFinished .. => true
  | _ => false

/-- A `RunEvent` row with its payload. -/
structure Event where
  runId : Nat
  sequence : Nat
  kind : EventKind
  message : String
  deriving DecidableEq

inductive Role where
  | user
  | assistant
  deriving DecidableEq

structure Message where
  id : Nat
  chatId : Nat
  role : Role
  content : String
  /-- `event_type == 'run_summary'`. -/
  runSummary : Bool
  deriving DecidableEq

inductive RevisionStatus where
  | pending
  | ready
  | failed
  | deleting
  deriving DecidableEq

structure ProjectRevision where
  id : Nat
  chatId : Nat
  runId : Option Nat
  parentId : Option Nat
  status : RevisionStatus
  objectKey : ObjectKey
  contentHash : String
  archiveSha256 : String
  sizeBytes : Nat
  manifest : Manifest
  templateId : String
  createdAt : Nat
  deriving DecidableEq

structure StorageDeletion where
  objectKey : ObjectKey
  createdAt : Nat
  deriving DecidableEq

structure StorageUsage where
  day : Nat
  uploaded : Nat
  downloaded : Nat
  uploadedOps : Nat
  downloadedOps : Nat
  deriving DecidableEq

inductive RuntimeState where
  | creating
  | running
  | paused
  | retiring
  deriving DecidableEq

structure SandboxRuntime where
  chatId : Nat
  operationId : Nat
  sandboxId : Option Nat
  templateId : String
  generation : String
  revisionId : Option Nat
  reusable : Bool
  state : RuntimeState
  lastUsedAt : Nat
  spendId : Option Nat
  /-- Whether it was paused when it turned `retiring`: history. -/
  fromPaused : Bool
  deriving DecidableEq

instance : Keyed Chat Nat := ⟨Chat.id⟩
instance : Keyed Run Nat := ⟨Run.id⟩
instance : Keyed Event (Nat × Nat) := ⟨fun e => (e.runId, e.sequence)⟩
instance : Keyed Message Nat := ⟨Message.id⟩
instance : Keyed ProjectRevision Nat := ⟨ProjectRevision.id⟩
instance : Keyed StorageDeletion ObjectKey := ⟨StorageDeletion.objectKey⟩
instance : Keyed StorageUsage Nat := ⟨StorageUsage.day⟩
instance : Keyed SandboxRuntime Nat := ⟨SandboxRuntime.chatId⟩

@[simp] theorem key_chat (r : Chat) : key r = r.id := rfl
@[simp] theorem key_run (r : Run) : key r = r.id := rfl
@[simp] theorem key_event (e : Event) : key e = (e.runId, e.sequence) := rfl
@[simp] theorem key_message (m : Message) : key m = m.id := rfl
@[simp] theorem key_revision (r : ProjectRevision) : key r = r.id := rfl
@[simp] theorem key_deletion (d : StorageDeletion) : key d = d.objectKey := rfl
@[simp] theorem key_runtime (r : SandboxRuntime) : key r = r.chatId := rfl

/-- One promotion of a revision to `ready`: history, read by no code. -/
structure Promotion where
  chatId : Nat
  revisionId : Nat
  /-- `parent_id` of the revision. -/
  parentId : Option Nat
  /-- `latest_saved_revision_id` immediately before. -/
  before : Option Nat
  deriving DecidableEq

structure Database where
  users : Table User
  chats : Table Chat
  runs : Table Run
  runEvents : Table Event
  messages : Table Message
  revisions : Table ProjectRevision
  deletions : Table StorageDeletion
  usage : Table StorageUsage
  runtimes : Table SandboxRuntime
  spend : Ledger
  /-- Run rows that an open session has updated, with the session: the row
  lock lasts until that session ends. -/
  runLocks : List (Nat × Nat)
  /-- History of promotions, oldest first. -/
  promotions : List Promotion
  /-- History of storage keys whose deletion was completed. -/
  purged : List ObjectKey

/-! ## §3. Configuration. -/

/-- Environment variables, and the functions of the standard library and of
`archive.py` that the service calls on bytes. -/
structure Config where
  limits : Limits
  rates : Rates
  costMaxCpu : Nat
  costMaxMemoryMb : Nat
  maxConcurrentRuns : Nat
  maxLiveSandboxes : Nat
  templateId : String
  generation : String
  storageConfigured : Bool
  uploadLimit : Nat
  downloadLimit : Nat
  pausedRetention : Nat
  previewIdle : Nat
  runMaxTurns : Nat
  runMaxToolCalls : Nat
  sha256 : Bytes → String
  /-- `archive.manifest`; `none` is a `ValueError` or `BadZipFile`. -/
  manifest : Bytes → Option Manifest
  /-- `json.dumps({'files': …, 'template': …}).encode()`. -/
  encodeContent : Manifest → String → Bytes
  /-- The gzip archive of a run's events, or its `StorageError`. -/
  packLog : List Event → Except Exc Bytes
  legacyArchive : Nat → Except Exc (Option Bytes)
  /-- `sandbox.get_host(5173)`. -/
  getHost : Nat → String

def contentHash (cfg : Config) (files : Manifest) (template : String) : String :=
  cfg.sha256 (cfg.encodeContent files template)

/-! ## §4. The memory of the worker. -/

/-- An `asyncio.Task`. -/
inductive TaskState where
  /-- Created; its first instruction has not run. -/
  | created
  | running (slot : Nat)
  | done
  deriving DecidableEq

/-- `LiveRun`.  The record outlives its entry in `Service.active`, as the
object does. -/
structure LiveRun where
  id : Nat
  chatId : Nat
  prompt : String
  userId : Nat
  messageId : Nat
  events : List Event
  task : TaskState
  /-- `task.cancel()` was called. -/
  cancelRequested : Bool
  sandbox : Option Nat
  /-- The `cancel` call that set `cancelling`. -/
  cancelling : Option Nat
  revisionId : Option Nat
  deriving DecidableEq

/-- A handle of `SandboxRuntimes.handles`. -/
structure Handle where
  chatId : Nat
  sandboxId : Nat
  deriving DecidableEq

/-- A task of `put_object`, with what it uploads.  It sits in
`_uploads[key]` until it is done. -/
structure Upload where
  id : Nat
  objectKey : ObjectKey
  data : Bytes
  chatId : Nat
  task : TaskState
  /-- The exception it ended with. -/
  error : Option Exc
  deriving DecidableEq

instance : Keyed LiveRun Nat := ⟨LiveRun.id⟩
instance : Keyed Handle Nat := ⟨Handle.chatId⟩
instance : Keyed Upload Nat := ⟨Upload.id⟩

@[simp] theorem key_liveRun (r : LiveRun) : key r = r.id := rfl
@[simp] theorem key_handle (h : Handle) : key h = h.chatId := rfl
@[simp] theorem key_upload (u : Upload) : key u = u.id := rfl

structure Memory where
  runs : Table LiveRun
  /-- Keys of `Service.active`. -/
  active : List Nat
  opening : List Nat
  /-- The task that put a project into `opening`: history. -/
  opener : Nat → Option Nat
  /-- The task that holds `Service.admission`. -/
  admission : Option Nat
  stopping : Bool
  handles : Table Handle
  lastUsed : Nat → Option Nat
  uploads : Table Upload

def Memory.initial : Memory where
  runs := .empty
  active := []
  opening := []
  opener := fun _ => none
  admission := none
  stopping := false
  handles := .empty
  lastUsed := fun _ => none
  uploads := .empty

/-! ## §5. E2B and the object store. -/

inductive BoxState where
  | running
  | paused
  | gone
  deriving DecidableEq

/-- A sandbox that E2B has created. -/
structure Box where
  id : Nat
  /-- Metadata `webbuilder_operation`. -/
  operation : Nat
  /-- The project it was created for: history. -/
  chatId : Nat
  state : BoxState
  cpuCount : Nat
  memoryMb : Nat
  deadline : Nat
  /-- `lifecycle['auto_resume']`. -/
  autoResume : Bool
  files : Manifest
  /-- A command or an upload of unknown outcome may still change the files. -/
  unsettled : Bool
  deriving DecidableEq

instance : Keyed Box Nat := ⟨Box.id⟩

@[simp] theorem key_box (b : Box) : key b = b.id := rfl

/-- A request whose answer was lost and that E2B may still serve. -/
inductive Pending where
  | create (operation chatId spendId : Nat)
  | connect (sandboxId spendId : Nat)
  deriving DecidableEq

structure Provider where
  boxes : Table Box
  pending : List Pending

structure StoredObject where
  objectKey : ObjectKey
  data : Bytes
  /-- The project it was uploaded for: history. -/
  chatId : Nat
  deriving DecidableEq

instance : Keyed StoredObject ObjectKey := ⟨StoredObject.objectKey⟩

@[simp] theorem key_object (o : StoredObject) : key o = o.objectKey := rfl

/-- An SDK call running in a thread. -/
inductive Transfer where
  | put (object : StoredObject)
  | delete (objectKey : ObjectKey)
  deriving DecidableEq

structure ObjectStore where
  objects : Table StoredObject
  /-- Calls that may still take effect, by thread. -/
  threads : List (Nat × Transfer)

structure World where
  now : Nat
  /-- The next `uuid4`. -/
  nextId : Nat
  db : Database
  mem : Memory
  e2b : Provider
  store : ObjectStore

/-! ## §6. Awaits. -/

inductive Tool where
  | readFiles
  | writeFiles
  | executeCommand
  | inspectPreview (screenshot : Bool)
  | readSkill
  | searchHistory
  | unknown
  deriving DecidableEq

/-- A tool call of the model. -/
structure ToolCall where
  id : Nat
  tool : Tool
  /-- Name and arguments, for the detection of repetitions. -/
  fingerprint : Nat
  /-- The arguments pass the checks that the tool makes before it acts. -/
  valid : Bool
  deriving DecidableEq

inductive Reply where
  /-- A budget of the conversation is used up. -/
  | limit (message : String)
  | invalid
  | message (calls : List ToolCall) (text : String)
  deriving DecidableEq

/-- The actions of `control_preview`. -/
inductive PreviewAction where
  | stop
  | start
  | restart
  deriving DecidableEq

/-- The modes of `check_browser`. -/
inductive BrowserCheck where
  | preflight
  | inspection
  | smoke
  deriving DecidableEq

/-- What `run_command` runs: a command of the model, or one of the host. -/
inductive Command where
  | tool
  | build
  | preview (action : PreviewAction)
  | browser (check : BrowserCheck)
  deriving DecidableEq

/-- What only the environment can choose. -/
inductive Datum where
  | none
  | machine (cpuCount memoryMb deadline : Nat) (files : Manifest)
  | deadline (at_ : Nat)
  | ids (ids : List Nat)
  | archive (data : Bytes)
  /-- A command or a batch of writes has ended; the project files now. -/
  | outcome (ok : Bool) (files : Manifest)
  | check (ok : Bool)
  | reply (reply : Reply)
  /-- Time passes. -/
  | tick (time : Nat)
  /-- A pending request, given by its position, is served after all. -/
  | serve (index : Nat) (result : Datum)
  /-- A storage thread takes effect. -/
  | transfer (thread : Nat)
  /-- E2B deletes or pauses a sandbox by itself. -/
  | vanish (sandboxId : Nat)
  | sleep (sandboxId : Nat)
  /-- An unsettled command changes files. -/
  | scribble (sandboxId : Nat) (files : Manifest)
  /-- Another part of the service writes or deletes a project. -/
  | project (chat : Chat)
  | unproject (chatId : Nat)
  deriving DecidableEq

/-- The awaited operations.  The ones with arguments are those that the
assumptions of a result speak about. -/
inductive Op where
  /-- No await: the code up to the next one. -/
  | memory
  | lock
  | join
  | thread
  | query
  | commit
  | provider
  | storage
  | create (spendId : Nat)
  | connect (sandboxId spendId : Nat)
  /-- `retire` looks up the handle, after it has read the row. -/
  | retire (row : Option SandboxRuntime)
  | settle (spendId : Nat)
  | confirm (spendId : Nat)
  /-- `snapshot` looks for the run in `Service.active`. -/
  | snapshotCheck (row : Run)
  /-- The autoflush of `snapshot`. -/
  | snapshotUpdate (runId : Nat)
  /-- The write of `promote`. -/
  | promote (revisionId : Nat)
  /-- The `finish` that `cancel` makes itself. -/
  | finishCancelled (runId : Nat)
  /-- The storage thread of an upload. -/
  | put (object : StoredObject)
  /-- `require_sandbox_capacity` decides, after it has read the rows. -/
  | capacity (rows : List Nat)
  /-- The `finish` of `execute`. -/
  | finish (runId : Nat)
  /-- A call of the model. -/
  | model
  /-- `run_command`. -/
  | command (command : Command)
  /-- The upload of `write_files`. -/
  | upload
  /-- Any other request of a tool. -/
  | tool
  /-- The metrics of `checkpoint`. -/
  | checkpoint
  /-- `sandbox_archive`: pack the project files. -/
  | pack
  deriving DecidableEq

/-- An operation and the `asyncio.timeout` blocks around it. -/
structure Label where
  op : Op
  scopes : List Scope
  deriving DecidableEq

abbrev Act (α : Type) := Co World Label Exc Datum α

/-- What an await on the database can raise besides its own errors. -/
def databaseFault : Exc → Bool
  | .database | .cancelled | .deadline _ => true
  | _ => false

def interruption : Exc → Bool
  | .cancelled | .deadline _ => true
  | _ => false

def transaction {α : Type} (op : Op) (body : World → Except Exc (α × World)) : Act α :=
  Co.transaction databaseFault ⟨op, []⟩ body

def query {α : Type} (f : World → α) : Act α :=
  Co.query databaseFault ⟨.query, []⟩ f

def memory {α : Type} (f : World → α × World) : Act α :=
  Co.memory ⟨.memory, []⟩ f

/-- A step on memory without a result. -/
def memory' (f : World → World) : Act Unit :=
  memory fun w => ((), f w)

/-- Wait until `ready` gives a result. -/
def waitFor {α : Type} (op : Op) (ready : World → Option (Except Exc α × World)) : Act α :=
  .await ⟨op, []⟩
    (fun answer w =>
      match answer with
      | .ok _ => ready w
      | .fail e => if interruption e then some (.error e, w) else none
      | _ => none)
    .done

/-- `await asyncio.to_thread(f)` for a function without effects. -/
def toThread {α : Type} (result : Except Exc α) : Act α :=
  waitFor .thread fun w => some (result, w)

/-- What an E2B request can raise without saying whether it was served. -/
def providerFault : Exc → Bool
  | .sandbox | .other | .cancelled | .deadline _ => true
  | _ => false

/-- One E2B request: `serve` is what it does and returns, `defer` records a
request that may be served later, `missing` says where `NotFound` is a truthful
answer. -/
def request {α : Type} (op : Op) (missing : World → Bool)
    (serve : Datum → World → Option (α × World)) (defer : World → Option World) : Act α :=
  .await ⟨op, []⟩
    (fun answer w =>
      match answer with
      | .ok d => (serve d w).map fun r => (.ok r.1, r.2)
      | .fail .notFound => if missing w then some (.error .notFound, w) else none
      | .fail e => if providerFault e || e = .rejected then some (.error e, w) else none
      | .lost e d => if providerFault e then (serve d w).map fun r => (.error e, r.2) else none
      | .late e _ => if providerFault e then (defer w).map fun w' => (.error e, w') else none)
    .done

/-- `async with asyncio.timeout(…)`. -/
def withTimeout {α : Type} (scope : Scope) (p : Act α) : Act α :=
  (p.relabel fun l => { l with scopes := scope :: l.scopes }).tryCatch fun e =>
    if e = .deadline scope then Co.raise .timeout else Co.raise e

/-- `try: p except Exception as exc: h(exc)`. -/
def catchException {α : Type} (p : Act α) (h : Exc → Act α) : Act α :=
  p.tryCatch fun e => if e.isException then h e else Co.raise e

def World.setAdmission (w : World) (holder : Option Nat) : World :=
  { w with mem := { w.mem with admission := holder } }

/-- `async with self.admission`, in the task `t`. -/
def withAdmission {α : Type} (t : Nat) (p : Act α) : Act α := do
  waitFor .lock fun w =>
    if w.mem.admission.isSome then none else some (.ok (), w.setAdmission (some t))
  p.onExit (memory' fun w => w.setAdmission none)

/-- The awaits of `p` are housekeeping on the sandbox of a project. -/
def onProject {α : Type} (chatId : Nat) (p : Act α) : Act α :=
  p.relabel fun l => { l with scopes := .project chatId :: l.scopes }

end WebBuilder
