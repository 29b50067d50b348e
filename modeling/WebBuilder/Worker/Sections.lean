/-
  WebBuilder.Worker.Sections — the admission lock of the whole worker.

  `Service.Lock` shows the discipline of the admission lock for the calls of
  the service.  Here the rest of the worker joins: housekeeping, the history
  of runs, saved files and logs, an orderly shutdown, and restarts.

  Main result: `lock_sound` — every task of the worker keeps the discipline.
-/
import WebBuilder.Worker.Pointers

namespace WebBuilder.Worker

open WebBuilder.Async WebBuilder.Store WebBuilder.Budget WebBuilder.Run WebBuilder.Service

variable {α : Type} {cfg : Config} {c : Nat}

/-! ## §1. Calm parts. -/

theorem calm_still {f : World → α} {op : Op} : (Co.memory ⟨op, []⟩ fun w => (f w, w) : Act α).All CalmStep :=
  each_memory (fun _ w => calm_refl w) fun _ => trivial

theorem calm_stored {p : Act α} (h : p.All StorageStep) : p.All CalmStep := All.mono (fun _ => calm_storage) h

theorem calm_sandboxes {p : Act α} (h : p.All (SandboxStep c)) : p.All CalmStep := All.mono (fun _ => calm_sandbox) h

/-- A transaction that leaves projects alone. -/
theorem calm_rows {op : Op} {body : World → Except Exc (α × World)}
    (h : ∀ w a w', body w = .ok (a, w') → w'.nextId = w.nextId ∧ w'.mem = w.mem ∧ w'.db.chats = w.db.chats) :
    (transaction op body).All CalmStep := by
  refine all_transaction (fun _ _ w => calm_refl w) fun _ _ w a w' hb => ?_
  obtain ⟨hid, hmem, hchats⟩ := h w a w' hb
  have hcalm : Calm w w' := calm_of_eq hid.ge (by rw [hmem]) (by rw [hmem]) (by rw [hmem]) (by rw [hmem]) hchats
  exact hcalm

theorem calm_promote (cfg : Config) (id : Nat) (recovery : Bool) : (promote id none recovery).All CalmStep := by
  refine All.mono (fun st h => ?_) all_promote
  have hsave : SaveStep cfg 0 none (fun _ => True) st := by
    rcases h with h | h
    · exact .inl h
    · exact .inr (.inr ⟨none, trivial, h⟩)
  exact calm_save hsave

theorem calm_ensureRevision : (ensureRevision cfg c).All CalmStep :=
  All.mono (fun _ => calm_save) (all_ensureRevision cfg c)

theorem calm_revisionBytes (revision : ProjectRevision) : (revisionBytes cfg revision).All CalmStep :=
  calm_stored (all_revisionBytes cfg revision)

theorem calm_ownedChat (userId c : Nat) : (ownedChat userId c).All CalmStep := by
  refine All.bind calm_query fun chat => ?_
  split <;> trivial

theorem calm_findRun (runId : Nat) : (findRun runId).All CalmStep := by
  refine All.bind calm_query fun run => ?_
  split <;> trivial

theorem calm_failRevision (revisionId : Nat) : (failRevision revisionId).All CalmStep := by
  refine calm_rows fun w _ w' h => ?_
  split at h
  · split at h
    · simp only [Except.ok.injEq, Prod.mk.injEq, true_and] at h
      exact h ▸ ⟨rfl, rfl, rfl⟩
    · simp only [Except.ok.injEq, Prod.mk.injEq, true_and] at h
      exact h ▸ ⟨rfl, rfl, rfl⟩
  · simp only [Except.ok.injEq, Prod.mk.injEq, true_and] at h
    exact h ▸ ⟨rfl, rfl, rfl⟩

theorem calm_recoverRevision (now : Nat) (revision : ProjectRevision) :
    (recoverRevision cfg now revision).All CalmStep := by
  refine All.tryCatch (All.bind (calm_revisionBytes revision) fun _ => calm_promote cfg _ _) fun e => ?_
  split
  · split
    · exact calm_failRevision _
    · trivial
  · trivial

theorem calm_archiveRun (runId : Nat) : (archiveRun cfg runId).All CalmStep := by
  refine All.bind calm_query fun run => ?_
  split
  · trivial
  · split
    · trivial
    · refine All.bind calm_query fun events => ?_
      split
      · trivial
      · split
        · trivial
        · refine All.bind (calm_stored (all_putObject _ _ _)) fun _ =>
            All.bind (calm_stored (all_readObject cfg _ _)) fun stored => ?_
          split
          · trivial
          · refine calm_rows fun w _ w' h => ?_
            simp only [Except.ok.injEq, Prod.mk.injEq, true_and] at h
            exact h ▸ ⟨rfl, rfl, rfl⟩

theorem calm_pruneChat (now chatId : Nat) : (pruneChat now chatId).All CalmStep := by
  refine All.bind (calm_rows fun w a w' h => ?_) fun deleting => All.forEach deleting fun x _ =>
    All.bind (calm_stored (all_storageDelete _)) fun _ => calm_rows fun w _ w' h => ?_
  · have hw : w' = (pruneRevisions now chatId w).2 := (congrArg Prod.snd (Except.ok.inj h)).symm
    subst hw
    unfold pruneRevisions
    split
    · exact ⟨rfl, rfl, rfl⟩
    · split
      · exact ⟨rfl, rfl, rfl⟩
      · exact ⟨rfl, rfl, rfl⟩
  · simp only [Except.ok.injEq, Prod.mk.injEq, true_and] at h
    exact h ▸ ⟨rfl, rfl, rfl⟩

theorem calm_expireLog (run : Run) : (expireLog run).All CalmStep := by
  refine All.bind calm_query fun row => ?_
  split
  · refine All.bind (calm_stored (all_storageDelete _)) fun _ => calm_rows fun w _ w' h => ?_
    simp only [Except.ok.injEq, Prod.mk.injEq, true_and] at h
    exact h ▸ ⟨rfl, rfl, rfl⟩
  · trivial

/-- **Housekeeping** leaves the operations alone. -/
theorem calm_maintain : (maintain cfg).All CalmStep := by
  refine All.bind calm_memoryRead fun now => All.bind calm_query fun deletions => ?_
  refine All.bind (All.forEach _ fun key _ => All.bind (all_catchException (all_withTimeout calm_scopeFree
    (calm_cleanupProjectStorage _)) fun _ => trivial) fun _ => trivial) fun _ => ?_
  refine All.bind calm_memoryRead fun busy => All.bind calm_query fun pending => ?_
  refine All.bind (All.forEach _ fun revision _ => ?_) fun _ => ?_
  · split
    · trivial
    · exact calm_recoverRevision now revision
  refine All.bind calm_query fun runIds => All.bind (All.forEach _ fun runId _ => ?_) fun _ => ?_
  · refine All.tryCatch (calm_archiveRun runId) fun e => ?_
    split <;> trivial
  refine All.bind calm_query fun chatIds => All.bind (All.forEach _ fun chatId _ => ?_) fun _ => ?_
  · split
    · trivial
    · exact calm_pruneChat now chatId
  refine All.bind calm_query fun expired => All.bind (All.forEach _ fun run _ => calm_expireLog run) fun _ => ?_
  refine calm_rows fun w _ w' h => ?_
  simp only [Except.ok.injEq, Prod.mk.injEq, true_and] at h
  exact h ▸ ⟨rfl, rfl, rfl⟩

theorem calm_maintainRuntimes (busy : List Nat) (shutdown : Bool) :
    (maintainRuntimes cfg busy shutdown).All CalmStep := by
  refine All.bind calm_memoryRead fun now => All.bind calm_query fun rows => All.forEach rows fun x _ => ?_
  dsimp only
  split
  · trivial
  · exact all_onProject calm_scopeFree (calm_sandboxes (all_reconcile cfg now shutdown x.1 x.2))

theorem calm_snapshotRows : ∀ rows, (snapshotRows rows).All CalmStep
  | [] => trivial
  | row :: rows => by
      refine All.bind (All.bind calm_still fun found => All.bind calm_query fun events => ?_) fun shown =>
        All.bind (calm_snapshotRows rows) fun _ => trivial
      split <;> trivial

theorem calm_snapshot (chatId offset limit : Nat) : (snapshot chatId offset limit).All CalmStep := by
  refine All.bind calm_query fun _ => All.bind (calm_snapshotRows _) fun shown =>
    All.bind (calm_rows fun w _ w' h => ?_) fun _ => trivial
  unfold interruptRows at h
  split at h
  · cases h
  · simp only [Except.ok.injEq, Prod.mk.injEq, true_and] at h
    subst h
    refine ⟨rfl, rfl, ?_⟩
    show (List.foldl Database.interrupt w.db _).chats = _
    rw [interrupt_tables]

theorem calm_discard {p : Act α} (h : p.All CalmStep) : (discard p).All CalmStep := All.bind h fun _ => trivial

theorem calm_archiveSlot : archiveSlot.All CalmStep := calm_stored all_archiveSlot

theorem calm_savedRevision (revisionId : Option Nat) : (savedRevision cfg c revisionId).All CalmStep := by
  refine All.bind ?_ fun revision => ?_
  · unfold findRevision
    split
    · exact calm_query
    · exact calm_ensureRevision
  · split <;> trivial

theorem calm_getRunLogs (userId runId : Nat) : (getRunLogs cfg userId runId).All CalmStep := by
  refine All.bind (calm_findRun _) fun run => All.bind (calm_ownedChat _ _) fun _ => ?_
  split
  · trivial
  · refine All.bind calm_archiveSlot fun _ => All.bind (calm_stored (all_readObject cfg _ _)) fun data => ?_
    split <;> trivial

/-! ## §2. Shutdown and cancellation. -/

theorem cancelAll_mem : ∀ (ids : List Nat) (w : World), (w.cancelAll ids).mem.admission = w.mem.admission ∧
    (w.cancelAll ids).mem.active = w.mem.active ∧ (w.cancelAll ids).mem.opening = w.mem.opening
  | [], _ => ⟨rfl, rfl, rfl⟩
  | r :: ids, w => cancelAll_mem ids (w.modifyLive r fun live => { live with cancelRequested := true })

theorem calm_cancelAll (ids : List Nat) (w : World) : Calm w (w.cancelAll ids) := by
  obtain ⟨hdb, _, hid, hlives⟩ := cancelAll_spec ids w
  obtain ⟨hadmission, hactive, hopening⟩ := cancelAll_mem ids w
  refine ⟨hid.ge, hadmission, hactive, hopening, fun r => ?_, fun c => by rw [hdb]⟩
  have hkept := congrArg (fun x : Option Progress => x.map Progress.chatId) (hlives r)
  rwa [Option.map_map, Option.map_map] at hkept

theorem calm_joinRuns : ∀ ids, (joinRuns ids).All CalmStep
  | [] => trivial
  | r :: ids => by
      refine All.bind (all_waitFor (fun _ w r w' h => ?_) fun _ _ w => calm_refl w) fun _ => calm_joinRuns ids
      simp only [Option.ite_none_right_eq_some, Option.some.injEq, Prod.mk.injEq] at h
      exact h.2.2 ▸ calm_refl w

section Calls

variable {t : Nat} {allow : Label → Answer Exc Datum → World → Prop} {need : Label → World → Prop}
  (hneed : ∀ l w, need l w)

include hneed

theorem safe_shutdown (w : World) : Safe (lockGuard cfg t allow need) (shutdown cfg t) Any w := by
  refine safe_seq (safe_calm_any hneed (all_memory fun _ w => ?_) w) fun active w =>
    safe_seq (safe_calm_any hneed (calm_joinRuns active) w) fun _ w =>
      safe_calmSection hneed (calm_maintainRuntimes _ _) w
  have hstopping : Calm w { w with mem := { w.mem with stopping := true } } :=
    calm_of_eq (Nat.le_refl _) rfl rfl rfl rfl rfl
  exact calm_trans hstopping (calm_cancelAll _ _)

theorem safe_cancelRun (userId runId : Nat) (w : World) :
    Safe (lockGuard cfg t allow need) (discard (cancelRun t userId runId)) Any w := by
  refine safe_seq (safe_seq (safe_calm_any hneed (calm_findRun _) w) fun run w => ?_) fun _ _ => trivial
  exact safe_seq (safe_calm_any hneed (calm_ownedChat _ _) w) fun _ w =>
    safe_seq (safe_cancel hneed w) fun _ w => safe_calm_any hneed (calm_snapshot _ _ _) w

end Calls

/-! ## §3. Soundness. -/

/-- The discipline of the admission lock, for every call of the worker. -/
def locking (cfg : Config) : Discipline Nat WorkerCall World Label where
  inv := Locked cfg
  guar := Moves
  need
    | .serve .reap | .serve (.previewStatus _ _) => NeedsIdle
    | _ => fun _ _ => True

theorem enter_calm {t : Nat} {k : WorkerCall} {w w' : World} (h : enter t k w = some w') : Calm w w' := by
  cases k
  case serve call => exact Service.enter_calm h
  case reconcile =>
    simp only [enter, Option.ite_none_right_eq_some, Option.some.injEq] at h
    exact h.2 ▸ calm_refl w
  all_goals exact Option.some.inj h ▸ calm_refl w

/-- A new process has no operations. -/
theorem locked_restart {w : World} (hw : Locked cfg w) : Locked cfg w.restart := by
  refine ⟨(fun _ hr => by cases hr), List.nodup_nil, Nat.zero_le _, (fun _ hc => by cases hc), fun c hc => ?_,
    fun _ hr => by cases hr⟩
  have hc : ((w.db.chats.update (fun c => { c with appUrl := none }) fun _ => rfl).get? c).isSome = true := hc
  rw [Table.get?_update, Option.isSome_map] at hc
  exact hw.chatIds c hc

/-- **The discipline of the lock**, over every interleaving of the whole worker
and its restarts. -/
theorem lock_sound (cfg : Config) : Sound (worker cfg) Always (locking cfg) fun _ _ => Any where
  env d w w' hinv h := by
    obtain ⟨hdb, hmem, hid⟩ := environment_frame h
    have hcalm : Calm w w' := calm_of_eq hid (by rw [hmem]) (by rw [hmem]) (by rw [hmem]) (by rw [hmem]) (by rw [hdb])
    exact ⟨hcalm.locked hinv, hcalm.moves none⟩
  enter t k w w' hinv h := by
    have hcalm : Calm w w' := enter_calm h
    refine ⟨hcalm.locked hinv, hcalm.moves _, ?_⟩
    cases k with
    | serve call =>
        have hserve := (Service.lock_sound cfg).enter t call w w' hinv h
        cases call <;> exact hserve.2.2
    | maintain => exact safe_calm_any (fun _ _ => trivial) calm_maintain w'
    | reconcile => exact safe_calm_any (fun _ _ => trivial) (calm_maintainRuntimes _ _) w'
    | shutdown => exact safe_shutdown (fun _ _ => trivial) w'
    | getRuns userId chatId offset limit =>
        refine safe_calm_any (fun _ _ => trivial) (calm_discard (All.bind (calm_ownedChat _ _) fun _ => ?_)) w'
        split
        · trivial
        · exact calm_snapshot _ _ _
    | cancelRun userId runId => exact safe_cancelRun (fun _ _ => trivial) userId runId w'
    | sendSnapshot chatId => exact safe_calm_any (fun _ _ => trivial) (calm_discard (calm_snapshot _ _ _)) w'
    | getProjectFiles userId chatId =>
        refine safe_calm_any (fun _ _ => trivial) (calm_discard (All.bind (calm_ownedChat _ _) fun _ => ?_)) w'
        exact All.bind calm_ensureRevision fun _ => All.bind calm_memoryRead fun _ => trivial
    | downloadAllFiles userId chatId revisionId =>
        exact safe_calm_any (fun _ _ => trivial) (calm_discard (All.bind (calm_ownedChat _ _) fun _ =>
          All.bind (calm_savedRevision revisionId) fun revision => All.bind calm_archiveSlot fun _ =>
            calm_revisionBytes revision)) w'
    | getRunEvents userId runId after =>
        refine safe_calm_any (fun _ _ => trivial) (calm_discard (All.bind (calm_findRun _) fun _ =>
          All.bind (calm_ownedChat _ _) fun _ => ?_)) w'
        split
        · trivial
        · exact All.bind calm_query fun _ => trivial
    | getRunLogs userId runId => exact safe_calm_any (fun _ _ => trivial) (calm_discard (calm_getRunLogs _ _)) w'
  crash d w w' hinv h := Option.some.inj h ▸ locked_restart hinv
  post t k r := Guard.stable_true

theorem Deployed.locked {w : World} (h : Deployed w) : Locked cfg w := by
  have hbusy : w.mem.busy = [] := by
    rw [h.mem]
    rfl
  refine ⟨fun r hr => ?_, by rw [hbusy]; exact List.nodup_nil, ?_, fun c hc => ?_, h.shelved.chatIds, fun r hr => ?_⟩
  · rw [h.mem] at hr
    cases hr
  · rw [h.mem]
    exact Nat.zero_le _
  · rw [hbusy] at hc
    cases hc
  · unfold World.live? at hr
    rw [h.mem] at hr
    cases hr

/-- What is known of every step of the worker: its lock, and its checkpoints. -/
def settled (cfg : Config) : Discipline Nat WorkerCall World Label :=
  (locking cfg).and ⟨Checkpointed, fun _ => Change cfg, fun _ _ _ => True⟩

theorem settled_sound (cfg : Config) : Sound (worker cfg) Always (settled cfg) fun _ _ _ _ => True ∧ True := by
  have hbase : Sound (worker cfg) Always (locking cfg) fun _ _ => Any := lock_sound cfg
  exact SoundOver.sound (Sound.over (checkpointed_sound cfg)) hbase

theorem Deployed.settled {w : World} (h : Deployed w) : (settled cfg).inv w := ⟨h.locked, h.checkpointed⟩

end WebBuilder.Worker
