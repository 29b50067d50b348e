/-
  WebBuilder.Run.Frames — the steps of a run, apart from its commands.

  Besides the commands and uploads in its sandbox and the transaction that
  ends it, a run makes steps of a few kinds.  A cleanup step is what it may
  still do after a failure; saving a checkpoint and waiting for the model or
  a tool belong to the conversation only.
-/
import WebBuilder.Model.SandboxFrames
import WebBuilder.Runtime.Calls

namespace WebBuilder.Run

open WebBuilder.Async WebBuilder.Store

variable {α : Type} {cfg : Config} {runId chatId : Nat}

/-! ## §1. Kinds of steps. -/

/-- A step on what a run holds: its sandbox, its events, its live record. -/
inductive OwnStep (runId chatId : Nat) : WStep → Prop where
  | storage {st : WStep} (h : StorageStep st) : OwnStep runId chatId st
  | sandbox {st : WStep} (h : SandboxStep chatId st) : OwnStep runId chatId st
  /-- The commit of an event of the run. -/
  | event {scopes : List Scope} {a : Answer Exc Datum} {e : Option Exc} {w : World} {db : Database}
      (event : Event) (hrun : event.runId = runId) (h : w.db.addEvent event = .ok db) :
      OwnStep runId chatId ⟨⟨.commit, scopes⟩, a, e, w, { w with db }⟩
  | append {scopes : List Scope} {a : Answer Exc Datum} {e : Option Exc} (w : World) (event : Event) :
      OwnStep runId chatId ⟨⟨.memory, scopes⟩, a, e, w, w.modifyLive runId fun live => live.append event⟩
  /-- The live run takes note of its sandbox. -/
  | keep {scopes : List Scope} {a : Answer Exc Datum} {e : Option Exc} (w : World) (sandbox : Option Nat) :
      OwnStep runId chatId
        ⟨⟨.memory, scopes⟩, a, e, w, w.modifyLive runId fun live => { live with sandbox }⟩

/-- A step that a failed run still makes. -/
inductive CleanupStep (runId chatId : Nat) : WStep → Prop where
  | own {st : WStep} (h : OwnStep runId chatId st) : CleanupStep runId chatId st
  | lock {op : Op} {scopes : List Scope} {a : Answer Exc Datum} {e : Option Exc} (w : World)
      (holder : Option Nat) (hop : op.isPlain = true) :
      CleanupStep runId chatId ⟨⟨op, scopes⟩, a, e, w, w.setAdmission holder⟩

/-- A step of the conversation other than a command or an upload. -/
inductive RunStep (cfg : Config) (runId chatId : Nat) : WStep → Prop where
  | own {st : WStep} (h : OwnStep runId chatId st) : RunStep cfg runId chatId st
  | save {st : WStep} {c : Nat} {owner : Option Nat} {events : Option Event → Prop}
      (h : SaveStep cfg c owner events st) : RunStep cfg runId chatId st
  | saved {scopes : List Scope} {a : Answer Exc Datum} {e : Option Exc} (w : World) (revisionId : Nat)
      (event : Option Event) :
      RunStep cfg runId chatId
        ⟨⟨.memory, scopes⟩, a, e, w, w.modifyLive runId (LiveRun.saved revisionId event)⟩
  /-- Waiting for the model or a tool, writing metrics, packing the files. -/
  | watch {op : Op} {scopes : List Scope} {a : Answer Exc Datum} {e : Option Exc} (w : World)
      (hcommand : ∀ c, op ≠ .command c) (hupload : op ≠ .upload) :
      RunStep cfg runId chatId ⟨⟨op, scopes⟩, a, e, w, w⟩

theorem OwnStep.still {op : Op} {scopes : List Scope} {a : Answer Exc Datum} {e : Option Exc}
    {w : World} (h : op.isPlain = true) : OwnStep runId chatId ⟨⟨op, scopes⟩, a, e, w, w⟩ :=
  .storage (StorageStep.still h)

theorem OwnStep.plain {st : WStep} (h : OwnStep runId chatId st) : st.op.op.isPlain = true := by
  cases h with
  | storage h => exact h.plain
  | sandbox h => exact h.plain
  | event => rfl
  | append => rfl
  | keep => rfl

theorem CleanupStep.plain {st : WStep} (h : CleanupStep runId chatId st) : st.op.op.isPlain = true := by
  cases h with
  | own h => exact h.plain
  | lock w holder hop => exact hop

/-- Neither a command nor an upload. -/
def Quiet (st : WStep) : Prop := (∀ c, st.op.op ≠ .command c) ∧ st.op.op ≠ .upload

theorem quiet_of_plain {st : WStep} (h : st.op.op.isPlain = true) : Quiet st :=
  ⟨fun c hc => Bool.false_ne_true (by rw [hc] at h; exact h),
    fun hc => Bool.false_ne_true (by rw [hc] at h; exact h)⟩

theorem SaveStep.quiet {st : WStep} {owner : Option Nat} {events : Option Event → Prop}
    (h : SaveStep cfg chatId owner events st) : Quiet st := by
  rcases h with h | ⟨_, _, _, hop, _⟩ | ⟨_, _, ⟨id, hop⟩, _⟩
  · exact quiet_of_plain h.plain
  · exact quiet_of_plain (by rw [hop]; rfl)
  · exact quiet_of_plain (by rw [hop]; rfl)

theorem RunStep.quiet {st : WStep} (h : RunStep cfg runId chatId st) : Quiet st := by
  cases h with
  | own h => exact quiet_of_plain h.plain
  | save h => exact SaveStep.quiet h
  | saved => exact quiet_of_plain rfl
  | watch w hcommand hupload => exact ⟨hcommand, hupload⟩

/-! ## §2. Scopes. -/

theorem ownStep_scopeFree : ScopeFree (OwnStep runId chatId) := by
  intro st scopes h
  cases h with
  | storage h => exact .storage (storageStep_scopeFree st scopes h)
  | sandbox h => exact .sandbox (sandboxStep_scopeFree chatId st scopes h)
  | event event hrun h => exact .event event hrun h
  | append w event => exact .append w event
  | keep w sandbox => exact .keep w sandbox

theorem saveStep_scopeFree {owner : Option Nat} {events : Option Event → Prop} :
    ScopeFree (SaveStep cfg chatId owner events) := by
  rintro st scopes (h | ⟨archive, files, template, h⟩ | ⟨event, he, h⟩)
  · exact .inl (storageStep_scopeFree st scopes h)
  · exact .inr (.inl ⟨archive, files, template, h⟩)
  · exact .inr (.inr ⟨event, he, h⟩)

theorem runStep_scopeFree : ScopeFree (RunStep cfg runId chatId) := by
  intro st scopes h
  cases h with
  | own h => exact .own (ownStep_scopeFree st scopes h)
  | save h => exact .save (saveStep_scopeFree st scopes h)
  | saved w revisionId event => exact .saved w revisionId event
  | watch w hcommand hupload => exact .watch w hcommand hupload

/-! ## §3. Events. -/

theorem addEvent_eq {db db' : Database} {e : Event} (h : db.addEvent e = .ok db') :
    db' = { db with runEvents := db.runEvents.put e } ∧ (db.runs.get? e.runId).isSome = true ∧
      db.runEvents.get? (e.runId, e.sequence) = none := by
  unfold Database.addEvent at h
  split at h
  · cases h
  · rename_i hfree
    obtain rfl := Except.ok.inj h
    rw [not_or, Option.isNone_iff_eq_none, Option.not_isSome_iff_eq_none] at hfree
    exact ⟨rfl, Option.isSome_iff_ne_none.mpr hfree.1, hfree.2⟩

theorem all_addEvent (event : Event) (h : event.runId = runId) :
    (addEvent event).All (OwnStep runId chatId) := by
  refine all_transaction (fun _ _ _ => .still rfl) fun a e w v w' hbody => ?_
  cases hdb : w.db.addEvent event with
  | ok db =>
      simp only [hdb, Except.map, Except.ok.injEq, Prod.mk.injEq, true_and] at hbody
      exact hbody ▸ .event event h hdb
  | error x =>
      rw [hdb] at hbody
      cases hbody

theorem all_appendEvent (event : Event) : (appendEvent runId event).All (OwnStep runId chatId) :=
  all_memory fun _ w => .append w event

theorem nextEvent_runId {w : World} {kind : EventKind} {message : String} {event : Event}
    (h : w.nextEvent runId kind message = .ok event) : event.runId = runId := by
  unfold World.nextEvent at h
  split at h
  · cases h
  · rename_i live hlive
    split at h
    · cases h
    · obtain rfl := Except.ok.inj h
      exact Table.key_of_get? hlive

theorem all_emit (kind : EventKind) (message : String) :
    (emit runId kind message).All (OwnStep runId chatId) := by
  refine Each.bind_all (Q := fun r => ∀ event, r = .ok event → event.runId = runId) ?_ fun event hevent => ?_
  · refine Each.bind (Q := fun r => ∀ x, r = .ok x → ∀ event, x = .ok event → event.runId = runId)
      (each_memory (fun _ _ => .still rfl) fun w x hx event he => ?_) (fun x hx => ?_) fun _ _ _ h => by cases h
    · obtain rfl := Except.ok.inj hx
      exact nextEvent_runId he
    · cases x with
      | ok event => exact fun event' h => Except.ok.inj h ▸ hx _ rfl event rfl
      | error e => exact fun event' h => by cases h
  · exact All.bind (all_addEvent event (hevent event rfl)) fun _ => all_appendEvent event

/-! ## §4. Checkpoints. -/

theorem each_removeFile :
    removeFile.Each (OwnStep runId chatId) fun r => ∀ e, r = .error e → e.isException = false :=
  Each.bind (each_caught (all_observe fun _ _ _ => .still rfl)) (fun _ _ _ h => by cases h)
    fun e he e' h => Except.error.inj h ▸ he e rfl

theorem all_toolRequest : toolRequest.All (RunStep cfg runId chatId) :=
  all_observe fun _ _ w => .watch w (fun _ h => by cases h) fun h => by cases h

theorem all_invokeModel : invokeModel.All (RunStep cfg runId chatId) :=
  all_observe fun _ _ w => .watch w (fun _ h => by cases h) fun h => by cases h

/-- Packing changes nothing. -/
theorem packFiles_step {id : Nat} {answer : Answer Exc Datum} {w w' : World} {r : Except Exc Bytes}
    (h : (match answer with
      | .ok (.archive data) =>
          match w.e2b.box? id with
          | some b =>
              if cfg.manifest data = some b.files then
                if MAX_ARCHIVE < data.length then
                  some (.error (.storage "Sandbox archive exceeds 10 MiB"), w)
                else some (.ok data, w)
              else none
          | none => none
      | .fail e => if knownFault e then some (.error e, w) else none
      | _ => none) = some (r, w')) :
    w' = w ∧ ∀ data, r = .ok data → ∃ b, w.e2b.box? id = some b ∧ cfg.manifest data = some b.files := by
  split at h
  · split at h
    · rename_i data b hb
      split at h
      · rename_i hfiles
        split at h
        · simp only [Option.some.injEq, Prod.mk.injEq] at h
          obtain ⟨rfl, rfl⟩ := h
          exact ⟨rfl, fun _ h => (by cases h)⟩
        · simp only [Option.some.injEq, Prod.mk.injEq] at h
          obtain ⟨rfl, rfl⟩ := h
          exact ⟨rfl, fun data' h => ⟨b, hb, Except.ok.inj h ▸ hfiles⟩⟩
      · cases h
    · cases h
  · simp only [Option.ite_none_right_eq_some, Option.some.injEq, Prod.mk.injEq] at h
    obtain ⟨_, rfl, rfl⟩ := h
    exact ⟨rfl, fun _ h => (by cases h)⟩
  · cases h

theorem all_packSandbox (id : Nat) : (packSandbox cfg id).All (RunStep cfg runId chatId) := by
  refine All.onExit ?_ (All.mono (fun _ => .own) (Each.all each_removeFile))
  intro an w r w' hact
  obtain ⟨rfl, _⟩ := packFiles_step hact
  exact ⟨.watch w' (fun _ h => by cases h) (fun h => by cases h), trivial⟩

theorem storage_run {p : Act α} (hp : p.All StorageStep) : p.All (RunStep cfg runId chatId) :=
  All.mono (fun _ h => .own (.storage h)) hp

theorem own_run {p : Act α} (hp : p.All (OwnStep runId chatId)) : p.All (RunStep cfg runId chatId) :=
  All.mono (fun _ => .own) hp

theorem sandbox_own {p : Act α} (hp : p.All (SandboxStep chatId)) : p.All (OwnStep runId chatId) :=
  All.mono (fun _ => .sandbox) hp

theorem all_saveFiles : (saveFiles cfg runId).All (RunStep cfg runId chatId) := by
  refine All.bind (all_memory fun _ _ => .own (.still rfl)) fun live => ?_
  split
  · trivial
  · split
    · trivial
    · split
      · trivial
      · rename_i live sandbox _ _
        refine All.bind (storage_run (all_latestRevision _)) fun current => ?_
        refine All.bind (storage_run all_archiveSlot) fun _ => ?_
        refine All.bind (all_packSandbox sandbox) fun archive => ?_
        have hsave : ∀ c template factory, (saveRevision cfg c (some runId) archive template factory).All
            (SaveStep cfg c (some runId) fun _ => True) := fun c template factory =>
          all_saveRevision _ _ _ _ _ (fun _ => trivial) fun _ _ _ _ => trivial
        refine All.bind (All.mono (fun _ => .save) (hsave _ _ _)) fun saved => ?_
        exact all_memory fun _ w => .saved w saved.1 saved.2

theorem all_checkpoint (dirty : Bool) : (checkpoint cfg runId dirty).All (RunStep cfg runId chatId) := by
  have hmetrics : ∀ (a : Answer Exc Datum) (e : Option Exc) (w : World),
      RunStep cfg runId chatId ⟨⟨.checkpoint, []⟩, a, e, w, w⟩ :=
    fun a e w => .watch w (fun _ h => by cases h) fun h => by cases h
  refine All.bind ?_ fun _ => all_transaction (fun a e w => hmetrics a _ w) fun a e w v w' h => ?_
  · unfold saveDirty
    split
    · exact all_saveFiles
    · trivial
  · simp only [Except.ok.injEq, Prod.mk.injEq, true_and] at h
    exact h ▸ hmetrics a e w

/-! ## §5. Cleanup. -/

theorem own_cleanup {p : Act α} (hp : p.All (OwnStep runId chatId)) : p.All (CleanupStep runId chatId) :=
  All.mono (fun _ => .own) hp

theorem all_retireSandbox (t : Nat) : (retireSandbox t chatId).All (CleanupStep runId chatId) := by
  refine all_withAdmission (fun _ w => .lock w _ rfl) (fun _ _ _ => .own (.still rfl)) (fun _ w => .lock w _ rfl) ?_
  exact own_cleanup (all_catchException (sandbox_own (tend_sandbox (all_retire chatId))) fun _ => trivial)

theorem all_keepSandbox : (keepSandbox runId chatId).All (OwnStep runId chatId) :=
  all_memory fun _ w => .keep w _

/-- A diagnosed failure is a failure. -/
theorem each_diagnose {o : Outcome} (h : o.status ≠ .succeeded) :
    (diagnose o).Each (OwnStep runId chatId) fun r => ∀ o', r = .ok o' → o'.status ≠ .succeeded := by
  refine Each.tryCatch (Q := fun r => ∀ o', r = .ok o' → o'.status ≠ .succeeded) ?_ (fun _ h => h) fun e _ => ?_
  · refine Each.bind (all_observe fun _ _ _ => .still rfl) (fun _ _ => ?_) fun _ _ _ h => by cases h
    exact fun o' ho => Except.ok.inj ho ▸ h
  · split
    · refine Each.bind (all_memory fun _ _ => .still rfl) (fun stopping _ => ?_) fun _ _ _ h => by cases h
      rintro o' ⟨⟩
      show stopStatus stopping ≠ .succeeded
      unfold stopStatus
      split <;> simp
    · exact fun _ h => by cases h

theorem each_inspectFailure {sandbox : Option Nat} {o : Outcome} (h : o.status ≠ .succeeded) :
    (inspectFailure chatId sandbox o).Each (OwnStep runId chatId)
      fun r => ∀ o', r = .ok o' → o'.status ≠ .succeeded := by
  unfold inspectFailure
  split
  · refine Each.bind (sandbox_own (tend_sandbox (all_setHandle chatId _))) (fun _ _ => ?_)
      fun _ _ _ h => by cases h
    split
    · exact each_diagnose h
    · exact fun o' ho => Except.ok.inj ho ▸ h
  · exact fun o' ho => Except.ok.inj ho ▸ h

theorem each_cleanUpRun {t : Nat} {sandbox : Option Nat} {o : Outcome} (h : o.status ≠ .succeeded) :
    (cleanUpRun t chatId sandbox o).Each (CleanupStep runId chatId)
      fun r => ∀ o', r = .ok o' → o'.status ≠ .succeeded := by
  refine Each.bind (Each.mono (fun _ => .own) (fun _ h => h) (each_inspectFailure h)) (fun o' ho' => ?_) fun _ _ _ h => by cases h
  have ho := ho' o' rfl
  refine Each.bind (all_retireSandbox t) (fun killed _ => ?_) fun _ _ _ h => by cases h
  split
  · exact fun x hx => Except.ok.inj hx ▸ ho
  · exact fun x hx => Except.ok.inj hx ▸ ho

/-! ## §6. The last transaction. -/

/-- The revision that a run with this status verifies. -/
def verifiedBy (live : LiveRun) (status : RunStatus) : Option Nat :=
  if status = .succeeded then live.revisionId else none

/-- The row that `mark_reusable` writes. -/
def reusableRow (r : SandboxRuntime) (revisionId now : Nat) : SandboxRuntime :=
  { r with reusable := true, revisionId := some revisionId, lastUsedAt := now }

/-- Only the row of the project is touched by `mark_reusable`. -/
theorem markVerified_eq {c : Nat} {verified : Option Nat} {w w' : World}
    (h : markVerified c verified w = .ok w') :
    w' = w ∧ verified = none ∨ ∃ r v, verified = some v ∧ w.db.runtimes.get? c = some r ∧
      r.state = .running ∧ r.sandboxId = w.mem.handle? c ∧
      w' = { w with db := w.db.setRuntime (reusableRow r v w.now) } := by
  cases verified with
  | none => exact .inl ⟨(Except.ok.inj h).symm, rfl⟩
  | some v =>
      right
      unfold markVerified markReusable at h
      dsimp only at h
      split at h
      · cases h
      · rename_i handle hhandle
        split at h
        · rename_i r hr
          simp only [Option.filter_eq_some_iff, Bool.decide_and, Bool.and_eq_true, decide_eq_true_eq] at hr
          exact ⟨r, v, rfl, hr.1, hr.2.2, hr.2.1.trans hhandle.symm, (Except.ok.inj h).symm⟩
        · cases h

/-- The terminal event of a run. -/
def terminalEvent (live : LiveRun) (status : RunStatus) (reason : String) (url : Option String) (w : World) :
    Event :=
  ⟨live.id, w.db.lastSequence live.id + 1, .runFinished status url live.revisionId, reason⟩

/-- The database after the last transaction. -/
def endedDb (db : Database) (live : LiveRun) (status : RunStatus) (reason : String)
    (url : Option String) (event : Event) : Database :=
  let db := db.finishChat live.chatId url (verifiedBy live status)
  { db with runEvents := db.runEvents.put event }.addMessage ⟨live.id, live.chatId, .assistant, reason, true⟩

/-- **What `finish` can do**: nothing once the run has ended, or all at once. -/
theorem finishRun_cases {live : LiveRun} {status : RunStatus} {reason : String} {url : Option String}
    {w w' : World} {v : Option Event} (h : finishRun live status reason url w = .ok (v, w')) :
    (v = none ∧ w' = w ∧ ∀ run, w.db.runs.get? live.id = some run → run.status ≠ .running) ∨
      ∃ run w₁, w.db.runs.get? live.id = some run ∧ run.status = .running ∧
        v = some (terminalEvent live status reason url w) ∧
        markVerified live.chatId (verifiedBy live status)
          { w with db := w.db.modifyRun live.id fun r => r.close status reason w.now } = .ok w₁ ∧
        w₁.db.runEvents.get? (live.id, w.db.lastSequence live.id + 1) = none ∧
        w' = { w₁ with db := endedDb w₁.db live status reason url (terminalEvent live status reason url w) } := by
  unfold finishRun at h
  split at h
  · rename_i hnone
    simp only [Except.ok.injEq, Prod.mk.injEq] at h
    exact .inl ⟨h.1.symm, h.2.symm, fun run hrun => by rw [hnone] at hrun; cases hrun⟩
  · rename_i run hrun
    split at h
    · rename_i hended
      simp only [Except.ok.injEq, Prod.mk.injEq] at h
      refine .inl ⟨h.1.symm, h.2.symm, fun run' hrun' => ?_⟩
      rw [hrun, Option.some.injEq] at hrun'
      exact hrun' ▸ hended
    · rename_i hrunning
      right
      dsimp only at h
      split at h
      · cases h
      · rename_i w₁ hmark
        split at h
        · cases h
        · rename_i db hdb
          obtain ⟨rfl, _, hfree⟩ := addEvent_eq hdb
          simp only [Except.ok.injEq, Prod.mk.injEq] at h
          obtain ⟨rfl, rfl⟩ := h
          exact ⟨run, w₁, hrun, not_not.mp hrunning, rfl, hmark, hfree, rfl⟩

/-! ## §7. One run on a fresh worker. -/

/-- The project `2` has the run `3`, which has just started. -/
def runWorld : World :=
  let w := Runtime.plainWorld
  { w with
    nextId := 5
    db := { w.db with
      runs := w.db.runs.put ⟨3, 2, "", .running, none, 0, none, none, none⟩
      messages := w.db.messages.put ⟨4, 2, .user, "", false⟩ }
    mem := { w.mem with
      runs := w.mem.runs.put ⟨3, 2, "", 1, 4, [], .running 0, false, none, none, none⟩
      active := [3] } }

/-- The next `n` awaits succeed. -/
def answered (n : Nat) : List (Answer Exc Datum) := List.replicate n (.ok .none)

end WebBuilder.Run
