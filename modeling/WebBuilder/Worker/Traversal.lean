/-
  WebBuilder.Worker.Traversal — what every part of the worker is made of.

  A closed class of coroutines contains the whole worker as soon as it
  contains its parts: the steps of `Basic`, the revisions that no run saves,
  admission, and for a run its events and checkpoints (`EventParts`), its end
  (`EndParts`) and what is left of it (`RunParts`).  The control flow around
  them is followed here once, for every class.

  Main result: `closed_callBody`.
-/
import WebBuilder.Worker.Changes

namespace WebBuilder.Worker

open WebBuilder.Async WebBuilder.Store WebBuilder.Budget WebBuilder.Run WebBuilder.Service

variable {α : Type} {cfg : Config} {c : Nat}

/-! ## §1. Basic parts. -/

theorem basic_reserveTransfer (direction : Direction) (size : Nat) :
    (reserveTransfer cfg direction size).Within (Basic cfg) := by
  refine within_transaction .refl fun w _ w' h => ?_
  dsimp only at h
  split at h
  · rename_i hadmits
    simp only [Except.ok.injEq, Prod.mk.injEq, true_and] at h
    exact h ▸ .reserve direction size hadmits
  · cases h

theorem basic_readObject (key : ObjectKey) (size : Nat) : (readObject cfg key size).Within (Basic cfg) :=
  All.bind (basic_reserveTransfer _ _) fun _ => within_quiet (quiet_storageRead _ _)

theorem basic_uploadTask (u : Upload) : (uploadTask cfg u).Within (Basic cfg) := by
  refine All.bind (All.attempt ?_) fun r => within_quiet
    (quiet_memory (fun _ => rfl) (fun _ => Nat.le_refl _) (fun _ => rfl) fun _ => rfl)
  refine All.bind (within_quiet quiet_query) fun owner => ?_
  split
  · trivial
  · exact All.bind (basic_reserveTransfer _ _) fun _ => within_quiet (quiet_storagePut _)

theorem basic_revisionBytes (revision : ProjectRevision) : (revisionBytes cfg revision).Within (Basic cfg) := by
  refine All.bind (basic_readObject _ _) fun data => ?_
  split
  · trivial
  · refine All.bind (within_quiet quiet_toThread) fun files => ?_
    split <;> trivial

theorem basic_failRevision (revisionId : Nat) : (failRevision revisionId).Within (Basic cfg) := by
  refine within_transaction .refl fun w _ w' h => ?_
  dsimp only at h
  split at h
  · rename_i row hrow
    split at h
    · rename_i hstatus
      simp only [Except.ok.injEq, Prod.mk.injEq, true_and] at h
      exact h ▸ .fail revisionId row hrow hstatus
    · simp only [Except.ok.injEq, Prod.mk.injEq, true_and] at h
      exact h ▸ .refl w
  · simp only [Except.ok.injEq, Prod.mk.injEq, true_and] at h
    exact h ▸ .refl w

theorem basic_pruneChat (now chatId : Nat) : (pruneChat now chatId).Within (Basic cfg) := by
  refine All.bind (within_transaction .refl fun w a w' h => ?_) fun deleting =>
    All.forEach deleting fun x _ => All.bind (within_quiet (quiet_storageDelete _)) fun _ =>
      within_transaction .refl fun w _ w' h => ?_
  · have hw : w' = (pruneRevisions now chatId w).2 := (congrArg Prod.snd (Except.ok.inj h)).symm
    exact hw ▸ .prune now chatId
  · simp only [Except.ok.injEq, Prod.mk.injEq, true_and] at h
    exact h ▸ .erase x.1

theorem basic_archiveRun (runId : Nat) : (archiveRun cfg runId).Within (Basic cfg) := by
  refine All.bind (within_quiet quiet_query) fun run => ?_
  split
  · trivial
  · split
    · trivial
    · refine All.bind (within_quiet quiet_query) fun events => ?_
      split
      · trivial
      · split
        · trivial
        · refine All.bind (within_quiet (quiet_putObject _ _ _)) fun _ => ?_
          refine All.bind (basic_readObject _ _) fun stored => ?_
          split
          · trivial
          · refine within_transaction .refl fun w _ w' h => ?_
            simp only [Except.ok.injEq, Prod.mk.injEq, true_and] at h
            exact h ▸ .archived runId _

theorem basic_expireLog (run : Run) : (expireLog run).Within (Basic cfg) := by
  refine All.bind (within_quiet quiet_query) fun row => ?_
  split
  · refine All.bind (within_quiet (quiet_storageDelete _)) fun _ => within_transaction .refl fun w _ w' h => ?_
    simp only [Except.ok.injEq, Prod.mk.injEq, true_and] at h
    exact h ▸ .forgotten run.id
  · trivial

theorem basic_publish (chatId revisionId : Nat) (url : String) :
    (transaction .commit (publishPreview chatId revisionId url)).Within (Basic cfg) :=
  within_transaction .refl fun _ _ _ h => .publish chatId revisionId url h

theorem quiet_joinRun (runId : Nat) : (joinRun runId).Within Quiet :=
  quiet_waitFor fun w r w' h => by
    simp only [Option.ite_none_right_eq_some, Option.some.injEq, Prod.mk.injEq] at h
    exact h.2.2 ▸ .refl w

theorem quiet_joinRuns : ∀ ids, (joinRuns ids).Within Quiet
  | [] => trivial
  | r :: ids => All.bind (quiet_joinRun r) fun _ => quiet_joinRuns ids

theorem basic_keepSandbox (runId : Nat) : (keepSandbox runId c).Within (Basic cfg) :=
  all_memory fun _ w => .modify runId
    (fun live => { live with sandbox := ((w.live? runId).bind LiveRun.sandbox).or (w.mem.handle? c) })
    (fun _ => rfl) rfl rfl rfl rfl

theorem basic_setSandbox (runId sandbox : Nat) :
    (memory' fun w => w.modifyLive runId fun live => { live with sandbox := some sandbox }).Within (Basic cfg) :=
  all_memory fun _ _ => .modify runId (fun live => { live with sandbox := some sandbox }) (fun _ => rfl) rfl rfl rfl rfl

/-- Asking runs to stop is no progress. -/
theorem cancelAll_spec : ∀ (ids : List Nat) (w : World), (w.cancelAll ids).db = w.db ∧ (w.cancelAll ids).now = w.now ∧
    (w.cancelAll ids).nextId = w.nextId ∧ ∀ r, ((w.cancelAll ids).live? r).map progress = (w.live? r).map progress
  | [], _ => ⟨rfl, rfl, rfl, fun _ => rfl⟩
  | r' :: ids, w => by
      obtain ⟨hdb, hnow, hid, hlives⟩ := cancelAll_spec ids (w.modifyLive r' fun live => { live with cancelRequested := true })
      refine ⟨hdb, hnow, hid, fun r => (hlives r).trans ?_⟩
      exact progress_modify w.mem.runs r' (f := fun live => { live with cancelRequested := true }) (fun _ => rfl) r

theorem quiet_snapshotRows : ∀ rows, (snapshotRows rows).Within Quiet
  | [] => trivial
  | row :: rows => by
      refine All.bind (All.bind quiet_read fun found => All.bind quiet_query fun events => ?_) fun shown =>
        All.bind (quiet_snapshotRows rows) fun _ => trivial
      split <;> trivial

theorem basic_snapshot (chatId offset limit : Nat) : (snapshot chatId offset limit).Within (Basic cfg) :=
  All.bind (within_quiet quiet_query) fun _ => All.bind (within_quiet (quiet_snapshotRows _)) fun _ =>
    All.bind (within_transaction .refl fun _ _ _ h => .interrupt _ h) fun _ => trivial

theorem basic_deleteProject (t userId chatId : Nat) : (deleteProject t userId chatId).Within (Basic cfg) := by
  refine All.bind (quiet_withAdmission (fun _ _ => .quiet) ?_) fun keys =>
    All.bind (within_quiet (quiet_attemptCleanup (quiet_cleanupProjectStorage _))) fun _ =>
      All.bind (within_quiet (quiet_attemptCleanup (quiet_retireSandbox t chatId))) fun _ => trivial
  refine All.bind (within_quiet (quiet_ownedChat _ _)) fun _ => All.bind (within_quiet quiet_read) fun busy => ?_
  split
  · trivial
  · exact All.bind (within_quiet quiet_query) fun keys =>
      All.bind (within_transaction .refl fun _ _ _ h => .delete chatId keys h) fun _ => trivial

/-! ## §2. Classes that contain the parts. -/

/-- A closed class that contains the parts of the worker. -/
structure Parts (cfg : Config) (Φ : ∀ {α : Type}, Act α → Prop) : Prop where
  closed : Closed Φ
  basic : ∀ {α : Type} {p : Act α}, p.Within (Basic cfg) → Φ p
  recover : ∀ id, Φ (promote id none true)
  saveLegacy : ∀ chatId archive template, Φ (saveRevision cfg chatId none archive template none)

/-- Besides, it contains what a run writes while it works. -/
structure EventParts (cfg : Config) (Φ : ∀ {α : Type}, Act α → Prop) (runId : Nat) : Prop extends Parts cfg Φ where
  emit : ∀ kind message, kind.isFinish = false → Φ (emit runId kind message)
  saveFiles : Φ (saveFiles cfg runId)

/-- Besides, it contains the end of a run. -/
structure EndParts (cfg : Config) (Φ : ∀ {α : Type}, Act α → Prop) (runId : Nat) : Prop extends Parts cfg Φ where
  finish : ∀ op status reason url, status ≠ .running → Φ (finish op runId status reason url)

/-- All the parts of a run. -/
structure RunParts (cfg : Config) (Φ : ∀ {α : Type}, Act α → Prop) (runId : Nat) : Prop
    extends EventParts cfg Φ runId, EndParts cfg Φ runId where
  requestCancel : ∀ t, Φ (requestCancel t runId)
  endTask : ∀ c completed, Φ (memory' fun w => w.endTask runId c completed)

section Traversal

variable {Φ : ∀ {α : Type}, Act α → Prop}

theorem Parts.quiet (h : Parts cfg Φ) {p : Act α} (hp : p.Within Quiet) : Φ p := h.basic (within_quiet hp)

theorem Parts.work (h : Parts cfg Φ) {p : Act α} (hp : p.All WorkStep) : Φ p := h.quiet (quiet_work hp)

theorem Parts.withTimeout (h : Parts cfg Φ) {scope : Scope} {p : Act α} (hp : Φ p) :
    Φ (withTimeout scope p) := by
  refine h.closed.tryCatch (h.closed.relabel _ hp) fun e => ?_
  split <;> exact h.closed.raise _

theorem Parts.catchException (h : Parts cfg Φ) {p : Act α} {handler : Exc → Act α} (hp : Φ p)
    (hh : ∀ e, Φ (handler e)) : Φ (catchException p handler) := by
  refine h.closed.tryCatch hp fun e => ?_
  split
  · exact hh e
  · exact h.closed.raise _

theorem Parts.withAdmission (h : Parts cfg Φ) {t : Nat} {p : Act α} (hp : Φ p) : Φ (withAdmission t p) := by
  refine h.closed.bind (h.quiet (quiet_waitFor fun w r w' hready => ?_)) fun _ =>
    h.closed.onExit hp (h.quiet (quiet_memory (fun _ => rfl) (fun _ => Nat.le_refl _) (fun _ => rfl) fun _ => rfl))
  split at hready
  · cases hready
  · simp only [Option.some.injEq, Prod.mk.injEq] at hready
    exact hready.2 ▸ .of_eq rfl (Nat.le_refl _) rfl rfl

/-! ## §3. Checkpoints and sandboxes. -/

theorem Parts.ensureRevision (h : Parts cfg Φ) : Φ (ensureRevision cfg c) := by
  have hlatest : Φ (latestRevision c) := h.quiet (quiet_latestRevision c)
  refine h.closed.bind hlatest fun revision => ?_
  split
  · exact h.closed.done _
  · refine h.closed.bind (h.quiet quiet_toThread) fun archive => ?_
    split
    · exact h.closed.bind (h.saveLegacy _ _ _) fun _ => hlatest
    · exact hlatest

theorem Parts.restoreRevision (h : Parts cfg Φ) (id : Nat) (revision : ProjectRevision) :
    Φ (restoreRevision cfg id revision) := by
  have hcontrol : ∀ action, Φ (controlPreview id action) := fun action =>
    h.work (all_controlPreview (fun _ hst => hst) id action)
  refine h.closed.bind (hcontrol _) fun _ => h.closed.bind (h.quiet quiet_archiveSlot) fun _ => ?_
  refine h.closed.bind (h.basic (basic_revisionBytes revision)) fun data => ?_
  refine h.closed.bind (h.work (All.onExit (all_restoreFiles id data) (all_removeFile fun _ hst => hst))) fun _ => ?_
  split
  · exact h.closed.raise _
  · exact h.closed.bind (h.quiet (quiet_tend (all_hostCommand (c := 0) id))) fun _ => hcontrol _

theorem Parts.getE2bSandbox (h : Parts cfg Φ) : Φ (getE2bSandbox cfg c) := by
  refine h.closed.bind h.ensureRevision fun revision =>
    h.closed.bind (h.quiet (quiet_sandbox (all_acquire cfg c revision))) fun x => ?_
  dsimp only
  split
  · refine h.closed.bind (h.catchException (h.quiet (quiet_tend (all_hostCommand (c := 0) _)))
      fun _ => h.closed.raise _) fun _ => h.closed.bind ?_ fun _ => h.closed.done _
    cases revision with
    | some revision => exact h.restoreRevision _ revision
    | none => exact h.closed.done _
  · exact h.closed.done _

theorem Parts.readyPreview (h : Parts cfg Φ) (id : Nat) : Φ (readyPreview id c) := by
  have hready : Φ (previewReady id) := by
    refine h.closed.bind (h.quiet (quiet_tend (all_hostCommand (c := 0) id))) fun _ =>
      h.closed.bind (h.work (all_runCommand id _)) fun ok => ?_
    split
    · exact h.closed.done _
    · exact h.closed.raise _
  refine h.closed.tryCatch hready fun e => ?_
  split
  · exact h.closed.raise _
  · split
    · refine h.closed.bind (h.quiet (quiet_tend (Each.all (each_getRuntime c)))) fun row => ?_
      split
      · exact h.closed.raise _
      · exact h.closed.bind (h.work (all_controlPreview (fun _ hst => hst) id _)) fun _ => hready
    · exact h.closed.raise _

theorem Parts.retireSandbox (h : Parts cfg Φ) (t : Nat) : Φ (retireSandbox t c) := h.quiet (quiet_retireSandbox t c)

theorem Parts.openPreview (h : Parts cfg Φ) (t : Nat) : Φ (openPreview cfg t c) := by
  refine h.closed.bind (h.withAdmission ?_) fun _ => h.closed.onExit (h.closed.tryCatch ?_ fun e => ?_) ?_
  · refine h.closed.bind (h.quiet quiet_read) fun refused => ?_
    split
    · exact h.closed.raise _
    · exact h.closed.bind (h.quiet (quiet_requireSandboxCapacity _)) fun _ =>
        h.quiet (quiet_memory (fun _ => rfl) (fun _ => Nat.le_refl _) (fun _ => rfl) fun _ => rfl)
  · refine h.closed.bind h.ensureRevision fun revision => ?_
    split
    · exact h.closed.raise _
    · exact h.withTimeout (h.closed.bind h.getE2bSandbox fun id => h.closed.bind (h.readyPreview id) fun _ =>
        h.basic (basic_publish _ _ _))
  · exact h.closed.bind (h.retireSandbox t) fun _ => h.closed.raise _
  · refine h.quiet (all_memory fun _ w => ?_)
    obtain ⟨hdb, hnow, hid, hruns⟩ := touch_spec w c
    exact .of_eq hnow hid.ge hdb hruns

/-! ## §4. Conversations and runs. -/

section Conversation

variable {runId : Nat} (h : EventParts cfg Φ runId) {checkpoint : Bool → Act Unit}
  (hcheckpoint : ∀ dirty, Φ (checkpoint dirty))

include h

theorem EventParts.runCall (id : Nat) (call : ToolCall) (ed : Editor) : Φ (runCall cfg (WebBuilder.emit runId) id call ed) := by
  unfold WebBuilder.runCall
  dsimp only
  split
  · exact h.closed.raise _
  · split
    · exact h.closed.raise _
    · refine h.closed.bind (h.emit _ _ rfl) fun _ => h.closed.bind
        (h.work (all_runTool (fun _ hst => hst) id call _)) fun x => h.closed.bind (h.emit _ _ rfl) fun _ => ?_
      split
      · split
        · exact h.closed.raise _
        · exact h.closed.done _
      · exact h.closed.done _

theorem EventParts.runCalls (id : Nat) : ∀ (calls : List ToolCall) (ed : Editor),
    Φ (runCalls cfg (WebBuilder.emit runId) id calls ed)
  | [], _ => h.closed.done _
  | call :: calls, ed => h.closed.bind (h.runCall id call ed) fun ed => EventParts.runCalls id calls ed

include hcheckpoint

theorem EventParts.runTurn (id : Nat) (ed : Editor) : Φ (runTurn cfg (WebBuilder.emit runId) checkpoint id ed) := by
  refine h.closed.bind (h.emit _ _ rfl) fun _ => h.closed.bind (hcheckpoint _) fun _ =>
    h.closed.bind (h.work (all_watch fun _ hst => hst)) fun reply => ?_
  split
  · exact h.closed.raise _
  · exact h.closed.raise _
  · refine h.closed.bind (h.emit _ _ rfl) fun _ => h.closed.bind (h.work (all_verify (fun _ hst => hst) id _)) fun x => ?_
    refine h.closed.bind (h.emit _ _ rfl) fun _ => h.closed.bind (hcheckpoint _) fun _ => ?_
    split
    · exact h.closed.done _
    · split
      · exact h.closed.raise _
      · exact h.closed.done _
  · exact h.closed.bind (h.runCalls id _ ed) fun _ => h.closed.bind (hcheckpoint _) fun _ => h.closed.done _

theorem EventParts.runTurns (id : Nat) : ∀ (turns : Nat) (ed : Editor),
    Φ (runTurns cfg (WebBuilder.emit runId) checkpoint id turns ed)
  | 0, _ => h.closed.raise _
  | turns + 1, ed => by
      refine h.closed.bind (h.runTurn hcheckpoint id ed) fun x => ?_
      dsimp only
      split
      · exact h.closed.done _
      · exact EventParts.runTurns id turns _

/-- **A conversation** is made of its events, its checkpoints and work. -/
theorem EventParts.runEditor (id : Nat) : Φ (runEditor cfg (WebBuilder.emit runId) checkpoint id) := by
  have hwatch : ∀ {α : Type} {op : Op} {fault : Exc → Bool} {answer : Datum → Option α},
      Φ (observe op fault answer) := h.work (all_watch fun _ hst => hst)
  refine h.closed.bind (h.emit _ _ rfl) fun _ => h.closed.bind (h.work (all_runCommand id _)) fun ok => ?_
  split
  · refine h.closed.bind (h.emit _ _ rfl) fun _ => h.closed.bind (h.closed.bind hwatch fun compact => ?_) fun _ => ?_
    · split
      · exact h.closed.bind hwatch fun _ => h.closed.done _
      · exact h.closed.done _
    refine h.closed.bind hwatch fun paths => h.closed.bind (h.closed.forEach _ fun _ _ => ?_) fun _ => ?_
    · exact h.closed.bind (h.work (all_caught (all_watch fun _ hst => hst))) fun _ => h.closed.done _
    · exact h.closed.bind (h.runTurns hcheckpoint id _ _) fun _ => h.closed.done _
  · exact h.closed.bind (h.emit _ _ rfl) fun _ => h.closed.raise _

end Conversation

theorem EventParts.checkpoint {runId : Nat} (h : EventParts cfg Φ runId) (dirty : Bool) :
    Φ (checkpoint cfg runId dirty) := by
  refine h.closed.bind ?_ fun _ => h.basic (within_transaction .refl fun w _ w' hc => ?_)
  · unfold saveDirty
    split
    · exact h.saveFiles
    · exact h.closed.done _
  · simp only [Except.ok.injEq, Prod.mk.injEq, true_and] at hc
    exact hc ▸ .refl w

theorem EventParts.executeBody {runId : Nat} (h : EventParts cfg Φ runId) : Φ (executeBody cfg runId c) := by
  refine h.withTimeout (h.closed.bind (h.emit _ _ rfl) fun _ => h.closed.bind h.getE2bSandbox fun id => ?_)
  refine h.closed.bind (h.basic (basic_setSandbox runId id)) fun _ => ?_
  refine h.closed.bind (h.quiet (quiet_tend (all_invalidate c))) fun _ => ?_
  refine h.closed.bind (h.runEditor h.checkpoint id) fun result => ?_
  exact h.closed.bind h.saveFiles fun _ => h.closed.done _

/-- A run never ends as a running one. -/
theorem outcomeOf_status (stopping : Bool) (r : Except Exc (String × String)) :
    (outcomeOf stopping r).status ≠ .running := by
  cases r with
  | ok x => simp [outcomeOf]
  | error e => cases e <;> cases stopping <;> simp [outcomeOf, Outcome.failed, stopStatus]

theorem returns_cleanUpFailed (t : Nat) (sandbox : Option Nat) (o : Outcome) (ho : o.status ≠ .running) :
    (cleanUpFailed t c sandbox o).Returns fun o => o.status ≠ .running := by
  have hkeep : ∀ {o : Outcome}, o.status ≠ .running →
      (pure o : Act Outcome).Returns fun o => o.status ≠ .running := fun ho x hx => Except.ok.inj hx ▸ ho
  unfold cleanUpFailed
  split
  · exact hkeep ho
  · refine Co.Returns.bind (Q := fun o => o.status ≠ .running) ?_ fun o ho => ?_
    · unfold inspectFailure
      split
      · refine (returns_true _).bind fun _ _ => ?_
        split
        · refine Co.Returns.tryCatch ((returns_true _).bind fun _ _ => hkeep ho) fun e => ?_
          split
          · refine (returns_true _).bind fun stopping _ => hkeep ?_
            show stopStatus stopping ≠ .running
            cases stopping <;> simp [stopStatus]
          · exact returns_raise e
        · exact hkeep ho
      · exact hkeep ho
    · refine (returns_true _).bind fun killed _ => ?_
      split
      · exact hkeep ho
      · exact hkeep ho

theorem Parts.cleanUpFailed (h : Parts cfg Φ) (t : Nat) (sandbox : Option Nat)
    (o : Outcome) : Φ (cleanUpFailed t c sandbox o) := by
  unfold WebBuilder.cleanUpFailed
  split
  · exact h.closed.done _
  · refine h.closed.bind (h.quiet ?_) fun o => h.closed.bind (h.retireSandbox t) fun killed => ?_
    · unfold inspectFailure
      split
      · refine All.bind (quiet_tend (all_setHandle c _)) fun _ => ?_
        split
        · refine All.tryCatch (All.bind (all_observe fun _ _ w => .refl w) fun _ => trivial) fun e => ?_
          split
          · exact All.bind quiet_read fun _ => trivial
          · trivial
        · trivial
      · trivial
    · split <;> exact h.closed.done _

theorem EndParts.conclude {runId : Nat} (h : EndParts cfg Φ runId) (t : Nat) (o : Outcome)
    (ho : o.status ≠ .running) : Φ (conclude t runId c o) := by
  refine h.closed.bind (h.basic (basic_keepSandbox runId)) fun sandbox => ?_
  refine h.closed.bindReturns (fun o => o.status ≠ .running) (h.toParts.cleanUpFailed t sandbox o)
    (returns_cleanUpFailed t sandbox o ho) fun o ho => ?_
  exact h.catchException (h.finish _ _ _ _ ho) fun _ => h.closed.bind (h.retireSandbox t) fun _ => h.closed.done _

theorem RunParts.execute {runId : Nat} (h : RunParts cfg Φ runId) (t : Nat) : Φ (execute cfg t runId) := by
  refine h.closed.bind (h.quiet quiet_read) fun live => ?_
  split
  · exact h.closed.done _
  · refine h.closed.bind (h.closed.attempt (h.closed.bind (h.closed.attempt h.toEventParts.executeBody) fun r =>
      h.closed.bind (h.quiet quiet_read) fun stopping => h.toEndParts.conclude t _ (outcomeOf_status stopping r))) fun r => ?_
    exact h.endTask _ _

theorem RunParts.cancel {runId : Nat} (h : RunParts cfg Φ runId) (t : Nat) : Φ (cancel t runId) := by
  refine h.closed.bind (h.requestCancel t) fun first => ?_
  split
  · refine h.closed.bind (h.quiet (quiet_joinRun runId)) fun _ => h.closed.bind (h.quiet quiet_read) fun still => ?_
    split
    · exact h.closed.bind (h.finish _ _ _ _ (by simp)) fun _ =>
        h.quiet (quiet_memory (fun _ => rfl) (fun _ => Nat.le_refl _) (fun _ => rfl) fun _ => rfl)
    · exact h.closed.done _
  · exact h.closed.done _

/-! ## §5. Housekeeping and reads. -/

theorem Parts.maintain (h : Parts cfg Φ) : Φ (maintain cfg) := by
  refine h.closed.bind (h.quiet quiet_read) fun now => h.closed.bind (h.quiet quiet_query) fun deletions => ?_
  refine h.closed.bind (h.closed.forEach _ fun key _ => h.closed.bind
    (h.quiet (quiet_attemptCleanup (quiet_cleanupProjectStorage _))) fun _ => h.closed.done _) fun _ => ?_
  refine h.closed.bind (h.quiet quiet_read) fun busy => h.closed.bind (h.quiet quiet_query) fun pending => ?_
  refine h.closed.bind (h.closed.forEach _ fun revision _ => ?_) fun _ => ?_
  · split
    · exact h.closed.done _
    · refine h.closed.tryCatch (h.closed.bind (h.basic (basic_revisionBytes revision)) fun _ => h.recover _)
        fun e => ?_
      split
      · split
        · exact h.basic (basic_failRevision _)
        · exact h.closed.done _
      · exact h.closed.raise _
  refine h.closed.bind (h.quiet quiet_query) fun runIds => h.closed.bind (h.closed.forEach _ fun runId _ => ?_) fun _ => ?_
  · refine h.closed.tryCatch (h.basic (basic_archiveRun runId)) fun e => ?_
    split
    · exact h.closed.done _
    · exact h.closed.raise _
  refine h.closed.bind (h.quiet quiet_query) fun chatIds => h.closed.bind (h.closed.forEach _ fun chatId _ => ?_) fun _ => ?_
  · split
    · exact h.closed.done _
    · exact h.basic (basic_pruneChat now chatId)
  refine h.closed.bind (h.quiet quiet_query) fun expired => h.closed.bind
    (h.closed.forEach _ fun run _ => h.basic (basic_expireLog run)) fun _ => ?_
  refine h.basic (within_transaction .refl fun w _ w' hd => ?_)
  simp only [Except.ok.injEq, Prod.mk.injEq, true_and] at hd
  exact hd ▸ .dropOld now

theorem Parts.discard (h : Parts cfg Φ) {p : Act α} (hp : Φ p) : Φ (discard p) :=
  h.closed.bind hp fun _ => h.closed.done _

theorem Parts.snapshot (h : Parts cfg Φ) (chatId offset limit : Nat) : Φ (snapshot chatId offset limit) :=
  h.basic (basic_snapshot chatId offset limit)

theorem Parts.downloadAllFiles (h : Parts cfg Φ) (userId : Nat) (revisionId : Option Nat) :
    Φ (downloadAllFiles cfg userId c revisionId) := by
  refine h.closed.bind (h.quiet (quiet_ownedChat _ _)) fun _ => h.closed.bind ?_ fun revision =>
    h.closed.bind (h.quiet quiet_archiveSlot) fun _ => h.basic (basic_revisionBytes revision)
  refine h.closed.bind ?_ fun revision => ?_
  · unfold findRevision
    split
    · exact h.quiet quiet_query
    · exact h.ensureRevision
  · split
    · exact h.closed.done _
    · exact h.closed.raise _

theorem Parts.getRunLogs (h : Parts cfg Φ) (userId runId : Nat) : Φ (getRunLogs cfg userId runId) := by
  refine h.closed.bind (h.quiet (quiet_findRun _)) fun run => h.closed.bind (h.quiet (quiet_ownedChat _ _)) fun _ => ?_
  split
  · exact h.closed.raise _
  · refine h.closed.bind (h.quiet quiet_archiveSlot) fun _ => h.closed.bind (h.basic (basic_readObject _ _)) fun data => ?_
    split
    · exact h.closed.raise _
    · exact h.closed.done _

theorem Parts.getRunEvents (h : Parts cfg Φ) (userId runId : Nat) (after : Int) :
    Φ (getRunEvents userId runId after) := by
  refine h.closed.bind (h.quiet (quiet_findRun _)) fun run => h.closed.bind (h.quiet (quiet_ownedChat _ _)) fun _ => ?_
  split
  · exact h.closed.raise _
  · exact h.closed.bind (h.quiet quiet_query) fun _ => h.closed.done _

theorem Parts.getRuns (h : Parts cfg Φ) (userId : Nat) (offset limit : Int) : Φ (getRuns userId c offset limit) := by
  refine h.closed.bind (h.quiet (quiet_ownedChat _ _)) fun _ => ?_
  split
  · exact h.closed.raise _
  · exact h.snapshot _ _ _

theorem Parts.shutdown (h : Parts cfg Φ) (t : Nat) : Φ (shutdown cfg t) := by
  refine h.closed.bind (h.basic (all_memory fun _ w => ?_)) fun active =>
    h.closed.bind (h.quiet (quiet_joinRuns _)) fun _ => h.withAdmission (h.quiet (quiet_maintainRuntimes _ _))
  obtain ⟨hdb, hnow, hid, hlives⟩ := cancelAll_spec w.mem.active { w with mem := { w.mem with stopping := true } }
  exact .live hdb hnow hid hlives

/-! ## §6. Every call. -/

/-- **Every call** is in a class that contains its parts. -/
theorem closed_callBody (h : Parts cfg Φ) (t : Nat) (k : WorkerCall)
    (hadmission : ∀ userId prompt chatId, Φ (withAdmission t (admitLocked cfg userId prompt chatId)))
    (hexecute : ∀ runId, k = .serve (.execute runId) → Φ (execute cfg t runId))
    (hcancel : ∀ runId, Φ (cancel t runId)) : Φ (callBody cfg t k) := by
  cases k with
  | serve call =>
      cases call with
      | admitRun userId prompt chatId =>
          refine h.closed.bind ?_ fun _ => h.closed.done _
          unfold WebBuilder.admitRun
          dsimp only
          split
          · exact h.closed.raise _
          · exact hadmission _ _ _
      | execute runId => exact hexecute runId rfl
      | drop runId => exact h.closed.done _
      | cancel runId => exact hcancel runId
      | openPreview userId chatId =>
          exact h.closed.bind (h.quiet (quiet_ownedChat _ _)) fun _ => h.openPreview t
      | previewStatus userId chatId =>
          refine h.closed.bind (h.quiet (quiet_ownedChat _ _)) fun chat =>
            h.withAdmission (h.closed.bind (h.quiet quiet_read) fun busy => ?_)
          split
          · exact h.closed.done _
          · refine h.closed.bind (h.quiet (quiet_tend (Each.all (each_getRuntime chat.id)))) fun row => ?_
            split
            · rename_i row
              split
              · refine h.catchException (h.quiet (all_onProject (fun _ _ hst => hst) ?_)) fun _ => h.closed.raise _
                exact All.bind (quiet_sandbox (Each.all (each_state row none))) fun _ => trivial
              · exact h.closed.done _
            · exact h.closed.done _
      | reap =>
          exact h.withAdmission (h.closed.bind (h.quiet quiet_read) fun busy => h.quiet (quiet_maintainRuntimes _ _))
      | delete userId chatId => exact h.basic (basic_deleteProject t userId chatId)
      | upload u => exact h.basic (basic_uploadTask u)
  | maintain => exact h.maintain
  | reconcile => exact h.quiet (quiet_maintainRuntimes _ _)
  | shutdown => exact h.shutdown t
  | getRuns userId chatId offset limit => exact h.discard (h.getRuns _ _ _)
  | cancelRun userId runId =>
      exact h.discard (h.closed.bind (h.quiet (quiet_findRun _)) fun run => h.closed.bind (h.quiet (quiet_ownedChat _ _))
        fun _ => h.closed.bind (hcancel runId) fun _ => h.snapshot _ _ _)
  | sendSnapshot chatId => exact h.discard (h.snapshot _ _ _)
  | getProjectFiles userId chatId =>
      exact h.discard (h.closed.bind (h.quiet (quiet_ownedChat _ _)) fun _ => h.closed.bind h.ensureRevision
        fun revision => h.closed.bind (h.quiet quiet_read) fun _ => h.closed.done _)
  | downloadAllFiles userId chatId revisionId => exact h.discard (h.downloadAllFiles _ _)
  | getRunEvents userId runId after => exact h.discard (h.getRunEvents _ _ _)
  | getRunLogs userId runId => exact h.discard (h.getRunLogs _ _)

end Traversal

end WebBuilder.Worker
