/-
  WebBuilder.Worker.Changes — what one step of the worker can change.

  The records of projects, checkpoints, runs and transfers are written by a
  few transactions.  `Basic` lists all of them but admission, those that
  belong to one run and the promotion of a revision; everything else that the
  worker does is `Quiet`.  The rest of the module shows it of every part of
  the worker that is made of such steps only.
-/
import WebBuilder.Async.Closed
import WebBuilder.Worker.Calls

namespace WebBuilder.Worker

open WebBuilder.Async WebBuilder.Store WebBuilder.Budget WebBuilder.Run WebBuilder.Service

variable {α : Type} {cfg : Config} {c : Nat}

/-! ## §1. Kinds of changes. -/

/-- A step that leaves these records and the live runs alone. -/
structure Quiet (w w' : World) : Prop where
  now : w.now ≤ w'.now
  nextId : w.nextId ≤ w'.nextId
  db : w'.db = { w.db with
    runtimes := w'.db.runtimes, spend := w'.db.spend, deletions := w'.db.deletions, purged := w'.db.purged }
  runs : w'.mem.runs = w.mem.runs

/-- The counters of today. -/
def usageToday (w : World) : StorageUsage := (w.db.usage.get? (w.now / DAY)).getD ⟨w.now / DAY, 0, 0, 0, 0⟩

/-- What a live run has done and who may go on with it. -/
structure Progress where
  id : Nat
  chatId : Nat
  events : List Event
  revisionId : Option Nat
  task : TaskState
  cancelling : Option Nat
  deriving DecidableEq

def progress (live : LiveRun) : Progress :=
  ⟨live.id, live.chatId, live.events, live.revisionId, live.task, live.cancelling⟩

/-- A step that starts no run, makes no progress in one and promotes no revision. -/
inductive Basic (cfg : Config) (w : World) : World → Prop where
  | quiet {w' : World} (h : Quiet w w') : Basic cfg w w'
  | reserve (direction : Direction) (size : Nat) (h : (usageToday w).admits cfg size direction = true) :
      Basic cfg w { w with db := { w.db with usage := w.db.usage.put ((usageToday w).add size direction) } }
  | record (chatId : Nat) (runId : Option Nat) (archive : Bytes) (files : Manifest) (template : String)
      {v : Nat ⊕ ProjectRevision} {w' : World}
      (h : recordRevision cfg chatId runId archive files template w = .ok (v, w')) : Basic cfg w w'
  | publish (chatId revisionId : Nat) (url : String) {w' : World}
      (h : publishPreview chatId revisionId url w = .ok ((), w')) : Basic cfg w w'
  | live {w' : World} (hdb : w'.db = w.db) (hnow : w'.now = w.now) (hid : w'.nextId = w.nextId)
      (hlives : ∀ r, (w'.live? r).map progress = (w.live? r).map progress) : Basic cfg w w'
  | fail (revisionId : Nat) (row : ProjectRevision) (hrow : w.db.revisions.get? revisionId = some row)
      (hstatus : row.status = .pending) :
      Basic cfg w { w with db := { w.db with revisions := w.db.revisions.put { row with status := .failed } } }
  | prune (now chatId : Nat) : Basic cfg w (pruneRevisions now chatId w).2
  | erase (revisionId : Nat) : Basic cfg w { w with db := { w.db with
      revisions := w.db.revisions.eraseIf fun r => r.id = revisionId ∧ r.status = .deleting } }
  | archived (runId : Nat) (sha256 : String) : Basic cfg w { w with db := w.db.modifyRun runId fun r =>
      { r with logKey := some (.log runId), logSha256 := some sha256 } }
  | forgotten (runId : Nat) : Basic cfg w { w with db := w.db.modifyRun runId fun r => { r with logKey := none } }
  | dropOld (now : Nat) : Basic cfg w { w with db := w.db.dropOld now }
  | delete (chatId : Nat) (keys : List ObjectKey) {w' : World} (h : deleteRows chatId keys w = .ok ((), w')) :
      Basic cfg w w'
  | interrupt (found : List Interruption) {w' : World} (h : interruptRows found w = .ok ((), w')) : Basic cfg w w'

theorem Quiet.refl (w : World) : Quiet w w := ⟨Nat.le_refl _, Nat.le_refl _, rfl, rfl⟩

theorem Basic.refl (w : World) : Basic cfg w w := .quiet (.refl w)

/-- A step outside the database and the live runs. -/
theorem Quiet.of_eq {w w' : World} (hnow : w'.now = w.now) (hid : w.nextId ≤ w'.nextId) (hdb : w'.db = w.db)
    (hruns : w'.mem.runs = w.mem.runs) : Quiet w w' := by
  refine ⟨hnow.ge, hid, ?_, hruns⟩
  rw [hdb]

theorem progress_modify (runs : Table LiveRun) (runId : Nat) {f : LiveRun → LiveRun}
    (hf : ∀ x, progress (f x) = progress x) (r : Nat) :
    ((runs.modify runId f).get? r).map progress = (runs.get? r).map progress := by
  rw [Table.get?_modify _ _ _ fun x => congrArg Progress.id (hf x)]
  split
  · rename_i hr
    rw [hr, Option.map_map]
    exact congrArg (Option.map · _) (funext hf)
  · rfl

/-- One live run changes, but not what it has done. -/
theorem Basic.modify {w w' : World} (runId : Nat) (f : LiveRun → LiveRun) (hf : ∀ x, progress (f x) = progress x)
    (hdb : w'.db = w.db) (hnow : w'.now = w.now) (hid : w'.nextId = w.nextId)
    (hruns : w'.mem.runs = w.mem.runs.modify runId f) : Basic cfg w w' := by
  refine .live hdb hnow hid fun r => ?_
  unfold World.live?
  rw [hruns]
  exact progress_modify _ runId hf r

theorem touch_spec (w : World) (chatId : Nat) : (w.touch chatId).db = w.db ∧ (w.touch chatId).now = w.now ∧
    (w.touch chatId).nextId = w.nextId ∧ (w.touch chatId).mem.runs = w.mem.runs := by
  unfold World.touch
  split <;> exact ⟨rfl, rfl, rfl, rfl⟩

/-! ## §2. Quiet parts. -/

theorem within_quiet {p : Act α} (h : p.Within Quiet) : p.Within (Basic cfg) := h.mono fun _ _ => .quiet

theorem quiet_sandbox {p : Act α} (h : p.All (SandboxStep c)) : p.Within Quiet :=
  All.within (fun st hst => ⟨hst.now.ge, hst.nextId, by rw [hst.db], by rw [hst.mem]⟩) h

theorem quiet_tend {p : Act α} (h : p.All (TendStep c)) : p.Within Quiet :=
  All.within (fun st hst => ⟨hst.now.ge, hst.nextId, by rw [hst.db], by rw [hst.mem]⟩) h

theorem quiet_work {p : Act α} (h : p.All WorkStep) : p.Within Quiet :=
  All.within (fun st hst => .of_eq hst.now hst.nextId.ge hst.db (by rw [hst.mem])) h

theorem quiet_query {f : World → α} : (query f).Within Quiet := all_query fun _ _ w => .refl w

theorem quiet_read {op : Op} {f : World → α} :
    (Co.memory ⟨op, []⟩ fun w => (f w, w) : Act α).Within Quiet :=
  each_memory (fun _ w => .refl w) fun _ => trivial

theorem quiet_memory {f : World → α × World} (hnow : ∀ w, (f w).2.now = w.now)
    (hid : ∀ w, w.nextId ≤ (f w).2.nextId) (hdb : ∀ w, (f w).2.db = w.db)
    (hruns : ∀ w, (f w).2.mem.runs = w.mem.runs) : (memory f).Within Quiet :=
  all_memory fun _ w => .of_eq (hnow w) (hid w) (hdb w) (hruns w)

theorem quiet_waitFor {op : Op} {ready : World → Option (Except Exc α × World)}
    (h : ∀ w r w', ready w = some (r, w') → Quiet w w') : (waitFor op ready).Within Quiet :=
  all_waitFor (fun _ w r w' hready => h w r w' hready) fun _ _ w => .refl w

theorem quiet_toThread {r : Except Exc α} : (toThread r).Within Quiet := all_toThread fun _ _ w => .refl w

theorem quiet_archiveSlot : archiveSlot.Within Quiet :=
  quiet_waitFor fun w r w' h => by
    simp only [Option.some.injEq, Prod.mk.injEq] at h
    exact h.2 ▸ .refl w

theorem quiet_withAdmission {G : World → World → Prop} {t : Nat} {p : Act α}
    (hquiet : ∀ w w', Quiet w w' → G w w') (hp : p.Within G) : (withAdmission t p).Within G :=
  all_withAdmission (fun _ w => hquiet w _ (.of_eq rfl (Nat.le_refl _) rfl rfl))
    (fun _ _ w => hquiet w _ (.refl w)) (fun _ w => hquiet w _ (.of_eq rfl (Nat.le_refl _) rfl rfl)) hp

theorem quiet_startThread (t : Transfer) : (startThread t).Within Quiet :=
  quiet_memory (fun _ => rfl) (fun _ => Nat.le_succ _) (fun _ => rfl) fun _ => rfl

theorem quiet_joinThread (op : Op) (thread : Nat) (finish : ObjectStore → Except Exc ObjectStore) :
    (joinThread op thread finish).Within Quiet := by
  have hstore : ∀ (w : World) store, Quiet w { w with store } := fun w store => .of_eq rfl (Nat.le_refl _) rfl rfl
  intro an w r w' hact
  refine ⟨?_, trivial⟩
  cases an with
  | ok d =>
      dsimp only at hact
      split at hact
      · split at hact <;>
        · simp only [Option.some.injEq, Prod.mk.injEq] at hact
          exact hact.2 ▸ hstore w _
      · simp only [Option.some.injEq, Prod.mk.injEq] at hact
        exact hact.2 ▸ .refl w
  | fail e =>
      cases e
      case storage m =>
        simp only [Option.some.injEq, Prod.mk.injEq] at hact
        exact hact.2 ▸ hstore w _
      all_goals
        simp only [Option.ite_none_right_eq_some, Option.some.injEq, Prod.mk.injEq] at hact
        exact hact.2.2 ▸ .refl w
  | lost e d => simp at hact
  | late e d => simp at hact

theorem quiet_storagePut (o : StoredObject) : (storagePut o).Within Quiet :=
  All.bind (quiet_startThread _) fun _ => quiet_joinThread _ _ _

theorem quiet_storageDelete (key : ObjectKey) : (storageDelete key).Within Quiet :=
  All.bind (quiet_startThread _) fun _ => quiet_joinThread _ _ _

theorem quiet_storageRead (key : ObjectKey) (size : Nat) : (storageRead key size).Within Quiet := by
  intro an w r w' hact
  refine ⟨?_, trivial⟩
  have hw : w' = w := by
    cases an with
    | ok d =>
        dsimp only at hact
        split at hact
        · simp only [Option.some.injEq, Prod.mk.injEq] at hact
          exact hact.2.symm
        · split at hact <;>
          · simp only [Option.some.injEq, Prod.mk.injEq] at hact
            exact hact.2.symm
    | fail e =>
        cases e
        case storage m =>
          simp only [Option.some.injEq, Prod.mk.injEq] at hact
          exact hact.2.symm
        all_goals
          simp only [Option.ite_none_right_eq_some, Option.some.injEq, Prod.mk.injEq] at hact
          exact hact.2.2.symm
    | lost e d => simp at hact
    | late e d => simp at hact
  exact hw ▸ .refl w

theorem quiet_waitForUploads (key : ObjectKey) : (waitForUploads key).Within Quiet := by
  refine All.bind quiet_read fun pending => quiet_waitFor fun w r w' h => ?_
  simp only [Option.ite_none_right_eq_some, Option.some.injEq, Prod.mk.injEq] at h
  exact h.2.2 ▸ .refl w

theorem quiet_putObject (key : ObjectKey) (data : Bytes) (chatId : Nat) : (putObject key data chatId).Within Quiet := by
  refine All.bind (quiet_memory (fun _ => rfl) (fun _ => Nat.le_succ _) (fun _ => rfl) fun _ => rfl)
    fun id => quiet_waitFor fun w r w' h => ?_
  have hw : w' = w := by
    split at h
    · split at h
      · split at h <;>
        · simp only [Option.some.injEq, Prod.mk.injEq] at h
          exact h.2.symm
      · cases h
    · cases h
  exact hw ▸ .refl w

theorem quiet_latestRevision (chatId : Nat) : (latestRevision chatId).Within Quiet := by
  refine All.bind quiet_query fun chat => ?_
  split
  · trivial
  · refine All.bind quiet_query fun revision => ?_
    split
    · split <;> trivial
    · trivial

theorem quiet_ownedChat (userId chatId : Nat) : (ownedChat userId chatId).Within Quiet := by
  refine All.bind quiet_query fun chat => ?_
  split <;> trivial

theorem quiet_findRun (runId : Nat) : (findRun runId).Within Quiet := by
  refine All.bind quiet_query fun run => ?_
  split <;> trivial

theorem quiet_retireSandbox (t chatId : Nat) : (retireSandbox t chatId).Within Quiet :=
  quiet_withAdmission (fun _ _ h => h) (all_catchException (quiet_tend (all_retire chatId)) fun _ => trivial)

theorem quiet_maintainRuntimes (busy : List Nat) (shutdown : Bool) :
    (maintainRuntimes cfg busy shutdown).Within Quiet := by
  refine All.bind quiet_read fun now => All.bind quiet_query fun rows => All.forEach rows fun x _ => ?_
  dsimp only
  split
  · trivial
  · exact all_onProject (fun _ _ h => h) (quiet_sandbox (all_reconcile cfg now shutdown x.1 x.2))

theorem quiet_requireSandboxCapacity (chatId : Option Nat) : (requireSandboxCapacity cfg chatId).Within Quiet := by
  refine All.bind quiet_query fun rows => All.bind quiet_read fun reserved => All.bind ?_ fun row => ?_
  · unfold runtimeOf
    split
    · exact quiet_query
    · trivial
  · dsimp only
    split <;> trivial

theorem quiet_cleanupKey (key : ObjectKey) : (cleanupKey key).Within Quiet := by
  have hremove : (removeStored key).Within Quiet := by
    unfold removeStored
    split
    · exact quiet_toThread
    · exact All.bind (quiet_waitForUploads _) fun _ => quiet_storageDelete _
  refine All.bind (All.tryCatch (All.bind hremove fun _ => trivial) fun e => ?_) fun removed => ?_
  · split <;> trivial
  · split
    · refine All.bind (within_transaction (fun w => .refl w) fun w _ w' h => ?_) fun _ => trivial
      simp only [Except.ok.injEq, Prod.mk.injEq, true_and] at h
      subst h
      refine ⟨Nat.le_refl _, Nat.le_refl _, ?_, rfl⟩
      show w.db.purge key = _
      unfold Database.purge
      split <;> rfl
    · trivial

theorem quiet_cleanupProjectStorage : ∀ keys, (cleanupProjectStorage keys).Within Quiet
  | [] => trivial
  | key :: keys =>
      All.bind (quiet_cleanupKey key) fun _ => All.bind (quiet_cleanupProjectStorage keys) fun _ => trivial

theorem quiet_attemptCleanup {action : Act Bool} (h : action.Within Quiet) : (attemptCleanup action).Within Quiet :=
  all_catchException (all_withTimeout (fun _ _ h => h) h) fun _ => trivial

end WebBuilder.Worker
