/-
  WebBuilder.Runtime.Calls — the calls on sandboxes, one after the other.

  The callers of `SandboxRuntimes` serialise the calls on a project.  In this
  system one slot serves all of them: any call, with any arguments, in any
  order, while E2B moves by itself, other parts of the service write project
  rows, and the process crashes at any await.  Every await can be answered in
  every way that its operation knows.
-/
import WebBuilder.Model.Rules
import WebBuilder.Model.Sandbox

namespace WebBuilder.Runtime

open WebBuilder.Async WebBuilder.Store WebBuilder.Budget

inductive RuntimeCall where
  | acquire (chatId : Nat) (revision : Option ProjectRevision)
  | retire (chatId : Nat)
  | state (chatId : Nat)
  | pause (chatId : Nat)
  | maintain (busy : List Nat) (shutdown : Bool)
  | invalidate (chatId : Nat)
  | markReusable (chatId revisionId : Nat)
  deriving DecidableEq

/-- The callers of `state` and `pause` have just read the row. -/
def withRow (chatId : Nat) (f : SandboxRuntime → Act Unit) : Act Unit := do
  let row ← getRuntime chatId
  match row with
  | some row => f row
  | none => pure ()

def markReusableCall (chatId revisionId : Nat) : Act Unit :=
  transaction .commit fun w => (markReusable chatId revisionId w).map fun w' => ((), w')

def callBody (cfg : Config) : RuntimeCall → Act Unit
  | .acquire chatId revision => do let _ ← acquire cfg chatId revision
  | .retire chatId => do let _ ← retire chatId
  | .state chatId => withRow chatId fun row => do let _ ← state row none
  | .pause chatId => withRow chatId fun row => do let _ ← pause row
  | .maintain busy shutdown => maintainRuntimes cfg busy shutdown
  | .invalidate chatId => invalidate chatId
  | .markReusable chatId revisionId => markReusableCall chatId revisionId

/-- Project rows may come, go and change, but keep their owner, and a new
project has a new id. -/
def environment (d : Datum) (w : World) : Option World :=
  match d with
  | .project chat =>
      let written := { w with db := { w.db with chats := w.db.chats.put chat } }
      match w.db.chats.get? chat.id with
      | some c => if c.userId = chat.userId then some written else none
      | none => if chat.id = w.nextId then some { written with nextId := w.nextId + 1 } else none
  | .unproject chatId => some { w with db := { w.db with chats := w.db.chats.erase chatId } }
  | d => w.environment d

/-- A crash takes the memory of the process; requests stay in flight. -/
def crash (w : World) : World := { w with mem := Memory.initial }

/-- The calls as a system of one slot, where `deliver` says which answers can
come. -/
def calls (cfg : Config) (deliver : Label → Answer Exc Datum → World → Bool) :
    System Unit RuntimeCall World Label Exc Datum where
  body _ k := callBody cfg k
  enter _ _ w := some w
  deliver _ := deliver
  env := environment
  crash _ w := some (crash w)

/-! ## §2. One project on a fresh worker. -/

/-- A configuration with round numbers, for runs on fixed inputs. -/
def plainConfig : Config where
  limits := ⟨10000, 100000⟩
  rates := ⟨1, 1⟩
  costMaxCpu := 1
  costMaxMemoryMb := 1024
  maxConcurrentRuns := 2
  maxLiveSandboxes := 2
  templateId := "base"
  generation := "1"
  storageConfigured := true
  uploadLimit := 1000
  downloadLimit := 1000
  pausedRetention := 0
  previewIdle := 0
  runMaxTurns := 2
  runMaxToolCalls := 2
  sha256 := fun _ => ""
  manifest := fun _ => some []
  encodeContent := fun _ _ => []
  packLog := fun _ => .ok []
  legacyArchive := fun _ => .ok none
  getHost := fun _ => ""

/-- A database with the given users and projects and nothing else. -/
def Database.fresh (users : Table User) (chats : Table Chat) : Database where
  users := users
  chats := chats
  runs := .empty
  runEvents := .empty
  messages := .empty
  revisions := .empty
  deletions := .empty
  usage := .empty
  runtimes := .empty
  spend := .empty
  runLocks := []
  promotions := []
  purged := []

/-- User `1` has the project `2`; nothing has run yet. -/
def plainWorld : World where
  now := 0
  nextId := 3
  db := Database.fresh (Table.empty.put ⟨1, true, false, 2, none, none⟩)
    (Table.empty.put ⟨2, 1, none, none, none⟩)
  mem := .initial
  e2b := ⟨.empty, []⟩
  store := ⟨.empty, []⟩

end WebBuilder.Runtime
