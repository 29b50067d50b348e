/-
  WebBuilder.Service.Frames — what runs and previews can touch.

  Commands, uploads and restores change files in sandboxes and nothing else
  (`WorkStep`).  A sandbox is prepared by steps on its project (`ServeStep`);
  a run adds its events, checkpoints and waits (`BodyStep`).
-/
import WebBuilder.Run.Frames

namespace WebBuilder.Service

open WebBuilder.Async WebBuilder.Store WebBuilder.Run

variable {α : Type} {cfg : Config} {runId c : Nat}

/-! ## §1. Work in a sandbox. -/

/-- What of a sandbox does not depend on its files. -/
def boxLife (b : Box) : Nat × Nat × BoxState := (b.operation, b.chatId, b.state)

/-- Every sandbox lives on as it is. -/
def KeepsLife (w w' : World) : Prop :=
  ∀ id, (w'.e2b.boxes.get? id).map boxLife = (w.e2b.boxes.get? id).map boxLife

/-- A step that changes files of sandboxes. -/
structure WorkStep (st : WStep) : Prop where
  now : st.after.now = st.before.now
  nextId : st.after.nextId = st.before.nextId
  db : st.after.db = st.before.db
  mem : st.after.mem = st.before.mem
  store : st.after.store = st.before.store
  pending : st.after.e2b.pending = st.before.e2b.pending
  boxes : KeepsLife st.before st.after

theorem workStep_scopeFree : ScopeFree WorkStep :=
  fun _ _ h => ⟨h.now, h.nextId, h.db, h.mem, h.store, h.pending, h.boxes⟩

section Work

variable {l : Label} {a : Answer Exc Datum} {e : Option Exc} {w : World} {id : Nat} {b b' : Box}

theorem WorkStep.still : WorkStep ⟨l, a, e, w, w⟩ := ⟨rfl, rfl, rfl, rfl, rfl, rfl, fun _ => rfl⟩

theorem keepsLife_setBox (hb : w.e2b.boxes.get? b'.id = some b) (hlife : boxLife b' = boxLife b) :
    KeepsLife w (w.setBox b') := by
  intro id
  show ((w.e2b.boxes.put b').get? id).map boxLife = _
  rw [Table.get?_put]
  split
  · rename_i hid
    rw [hid, key_box, hb]
    exact congrArg some hlife
  · rfl

theorem WorkStep.setBox (hb : w.e2b.box? id = some b) (hid : b'.id = b.id) (hlife : boxLife b' = boxLife b) :
    WorkStep ⟨l, a, e, w, w.setBox b'⟩ :=
  ⟨rfl, rfl, rfl, rfl, rfl, rfl, keepsLife_setBox (hid ▸ (box?_eq_some hb).1) hlife⟩

theorem WorkStep.unsettle (id : Nat) : WorkStep ⟨l, a, e, w, w.unsettle id⟩ := by
  unfold World.unsettle
  split
  · rename_i b hb
    exact .setBox hb rfl rfl
  · exact .still

/-- An ended command has changed the files of its sandbox at most. -/
theorem WorkStep.ended {command : Command} {d : Datum} {r : Bool × Box}
    (h : ((w.e2b.box? id).bind fun b => b.ended command d) = some r) :
    WorkStep ⟨l, a, e, w, w.setBox r.2⟩ := by
  obtain ⟨b, hb, hr⟩ := Option.bind_eq_some_iff.mp h
  unfold Box.ended at hr
  split at hr
  · split at hr
    · obtain rfl := Option.some.inj hr
      exact .setBox hb rfl rfl
    · cases hr
  · split at hr
    · cases hr
    · obtain rfl := Option.some.inj hr
      exact .setBox hb rfl rfl
  · cases hr

end Work

theorem all_runCommand (id : Nat) (command : Command) : (runCommand id command).All WorkStep := by
  intro an w r w' hact
  refine ⟨?_, trivial⟩
  cases an with
  | ok d =>
      simp only [Option.map_eq_some_iff, Prod.mk.injEq] at hact
      obtain ⟨x, hx, _, rfl⟩ := hact
      exact .ended hx
  | lost e d =>
      simp only [Option.ite_none_right_eq_some, Option.map_eq_some_iff, Prod.mk.injEq] at hact
      obtain ⟨_, x, hx, _, rfl⟩ := hact
      exact .ended hx
  | fail e =>
      have hw : w' = if command = .tool then w.unsettle id else w := by
        cases e
        case commandState m =>
          simp only [Option.some.injEq, Prod.mk.injEq] at hact
          exact hact.2.symm
        all_goals
          simp only [Option.ite_none_right_eq_some, Option.some.injEq, Prod.mk.injEq] at hact
          exact hact.2.2.symm
      subst hw
      split
      · exact .unsettle id
      · exact .still
  | late e d => simp at hact

theorem all_uploadFiles (id : Nat) : (uploadFiles id).All WorkStep := by
  intro an w r w' hact
  refine ⟨?_, trivial⟩
  dsimp only at hact
  split at hact
  · rename_i b hb
    simp only [Option.some.injEq, Prod.mk.injEq] at hact
    obtain ⟨_, rfl⟩ := hact
    exact .setBox hb rfl rfl
  · simp only [Option.some.injEq, Prod.mk.injEq] at hact
    obtain ⟨_, rfl⟩ := hact
    exact .unsettle id
  · cases hact

theorem all_restoreFiles (id : Nat) (data : Bytes) : (restoreFiles cfg id data).All WorkStep := by
  intro an w r w' hact
  refine ⟨?_, trivial⟩
  dsimp only at hact
  split at hact
  · split at hact
    · rename_i b files hb _
      simp only [Option.some.injEq, Prod.mk.injEq] at hact
      obtain ⟨_, rfl⟩ := hact
      exact .setBox hb rfl rfl
    · cases hact
  · simp only [Option.ite_none_right_eq_some, Option.some.injEq, Prod.mk.injEq] at hact
    obtain ⟨_, _, rfl⟩ := hact
    exact .unsettle id
  · cases hact

/-! ## §2. Conversations. -/

section Conversation

variable {S : WStep → Prop} (hwork : ∀ st, WorkStep st → S st)

include hwork

theorem all_command (id : Nat) (command : Command) : (runCommand id command).All S :=
  All.mono hwork (all_runCommand id command)

theorem all_watch {op : Op} {fault : Exc → Bool} {answer : Datum → Option α} :
    (observe op fault answer).All S :=
  all_observe fun _ _ _ => hwork _ .still

theorem all_controlPreview (id : Nat) (action : PreviewAction) : (controlPreview id action).All S :=
  All.bind (all_command hwork id _) fun ok => by split <;> trivial

theorem all_ensurePreviewCurrent (id : Nat) (ws : Workspace) : (ensurePreviewCurrent id ws).All S := by
  unfold ensurePreviewCurrent
  split
  · exact All.bind (all_controlPreview hwork id .restart) fun _ => trivial
  · trivial

theorem all_verify (id : Nat) (ws : Workspace) : (verify id ws).All S := by
  refine All.bind (all_command hwork id .build) fun build => ?_
  split
  · exact All.bind (all_ensurePreviewCurrent hwork id ws) fun _ =>
      All.bind (all_command hwork id _) fun _ => trivial
  · trivial

theorem all_removeFile : removeFile.All S := All.bind (all_caught (all_watch hwork)) fun _ => trivial

theorem all_inspectCurrent (id : Nat) (screenshot : Bool) : (inspectCurrent id screenshot).All S := by
  unfold inspectCurrent
  split
  · exact All.onExit (All.bind (all_command hwork id _) fun _ =>
      All.bind (all_caught (all_watch hwork)) fun _ => trivial) (all_removeFile hwork)
  · exact all_command hwork id _

theorem all_inspectPreview (id : Nat) (valid screenshot : Bool) (ws : Workspace) :
    (inspectPreview id valid screenshot ws).All S := by
  unfold inspectPreview
  split
  · split
    · trivial
    · refine All.bind (all_caught (all_ensurePreviewCurrent hwork id _)) fun current => ?_
      split
      · trivial
      · exact All.bind (all_caught (all_inspectCurrent hwork id screenshot)) fun _ => trivial
  · trivial

theorem all_runTool (id : Nat) (call : ToolCall) (ws : Workspace) : (runTool id call ws).All S := by
  have hread : (do
      let r ← caught toolRequest
      pure (r, ws) : Act ToolOutcome).All S := All.bind (all_caught (all_watch hwork)) fun _ => trivial
  unfold runTool
  split
  case h_1 =>
    unfold writeFiles
    split
    · exact All.bind (all_caught (All.mono hwork (all_uploadFiles id))) fun _ => trivial
    · trivial
  case h_2 =>
    unfold executeCommand
    split
    · exact All.bind (all_caught (all_command hwork id _)) fun _ => trivial
    · trivial
  case h_3 => exact all_inspectPreview hwork id _ _ ws
  case h_7 => trivial
  all_goals exact hread

variable {emit : EventKind → String → Act Unit} {checkpoint : Bool → Act Unit}
  (hemit : ∀ kind message, (emit kind message).All S) (hcheckpoint : ∀ dirty, (checkpoint dirty).All S)

include hemit

theorem all_runCall (id : Nat) (call : ToolCall) (ed : Editor) : (runCall cfg emit id call ed).All S := by
  unfold runCall
  dsimp only
  split
  · trivial
  · split
    · trivial
    · refine All.bind (hemit _ _) fun _ => All.bind (all_runTool hwork id call _) fun x => ?_
      refine All.bind (hemit _ _) fun _ => ?_
      split
      · split <;> trivial
      · trivial

theorem all_runCalls (id : Nat) : ∀ (calls : List ToolCall) (ed : Editor),
    (runCalls cfg emit id calls ed).All S
  | [], _ => trivial
  | call :: calls, ed =>
      All.bind (all_runCall hwork hemit id call ed) fun ed => all_runCalls id calls ed

include hcheckpoint

theorem all_finalReply (id : Nat) (text : String) (ed : Editor) :
    (finalReply emit checkpoint id text ed).All S := by
  refine All.bind (hemit _ _) fun _ => All.bind (all_verify hwork id _) fun x => ?_
  refine All.bind (hemit _ _) fun _ => All.bind (hcheckpoint _) fun _ => ?_
  split
  · trivial
  · split <;> trivial

theorem all_runTurn (id : Nat) (ed : Editor) : (runTurn cfg emit checkpoint id ed).All S := by
  refine All.bind (hemit _ _) fun _ => All.bind (hcheckpoint _) fun _ => ?_
  refine All.bind (all_watch hwork) fun reply => ?_
  split
  · trivial
  · trivial
  · exact all_finalReply hwork hemit hcheckpoint id _ ed
  · exact All.bind (all_runCalls hwork hemit id _ ed) fun _ => All.bind (hcheckpoint _) fun _ => trivial

theorem all_runTurns (id : Nat) : ∀ (turns : Nat) (ed : Editor),
    (runTurns cfg emit checkpoint id turns ed).All S
  | 0, _ => trivial
  | turns + 1, ed => by
      refine All.bind (all_runTurn hwork hemit hcheckpoint id ed) fun x => ?_
      dsimp only
      split
      · trivial
      · exact all_runTurns id turns _

/-- **A conversation** is made of its events, its checkpoints and work. -/
theorem all_runEditor (id : Nat) : (runEditor cfg emit checkpoint id).All S := by
  refine All.bind (hemit _ _) fun _ => All.bind (all_command hwork id _) fun ok => ?_
  split
  · refine All.bind (hemit _ _) fun _ => ?_
    refine All.bind (All.bind (all_watch hwork) fun compact => ?_) fun _ => ?_
    · split
      · exact All.bind (all_watch hwork) fun _ => trivial
      · trivial
    refine All.bind (all_watch hwork) fun paths => ?_
    refine All.bind (All.forEach _ fun _ _ => All.bind (all_caught (all_watch hwork)) fun _ => trivial)
      fun _ => ?_
    exact All.bind (all_runTurns hwork hemit hcheckpoint id _ _) fun _ => trivial
  · exact All.bind (hemit _ _) fun _ => trivial

end Conversation

/-! ## §3. Preparing a sandbox. -/

/-- A step that prepares the sandbox of the project `c`. -/
inductive ServeStep (cfg : Config) (c : Nat) : WStep → Prop where
  | storage {st : WStep} (h : StorageStep st) : ServeStep cfg c st
  | sandbox {st : WStep} (h : SandboxStep c st) : ServeStep cfg c st
  /-- A legacy project is saved as its first revision. -/
  | save {st : WStep} (h : SaveStep cfg c none (· = none) st) : ServeStep cfg c st
  | work {st : WStep} (h : WorkStep st) : ServeStep cfg c st

/-- A step of opening a preview. -/
inductive PreviewStep (cfg : Config) (c : Nat) : WStep → Prop where
  | serve {st : WStep} (h : ServeStep cfg c st) : PreviewStep cfg c st
  | publish {scopes : List Scope} {a : Answer Exc Datum} {e : Option Exc} {w w' : World} (revisionId : Nat)
      (url : String) (h : publishPreview c revisionId url w = .ok ((), w')) :
      PreviewStep cfg c ⟨⟨.commit, scopes⟩, a, e, w, w'⟩

/-- A step of the body of a run. -/
inductive BodyStep (cfg : Config) (runId c : Nat) : WStep → Prop where
  | serve {st : WStep} (h : ServeStep cfg c st) : BodyStep cfg runId c st
  | run {st : WStep} (h : RunStep cfg runId c st) : BodyStep cfg runId c st

theorem serveStep_scopeFree : ScopeFree (ServeStep cfg c) := by
  intro st scopes h
  cases h with
  | storage h => exact .storage (storageStep_scopeFree st scopes h)
  | sandbox h => exact .sandbox (sandboxStep_scopeFree c st scopes h)
  | save h => exact .save (saveStep_scopeFree st scopes h)
  | work h => exact .work (workStep_scopeFree st scopes h)

theorem previewStep_scopeFree : ScopeFree (PreviewStep cfg c) := by
  intro st scopes h
  cases h with
  | serve h => exact .serve (serveStep_scopeFree st scopes h)
  | publish revisionId url h => exact .publish revisionId url h

theorem bodyStep_scopeFree : ScopeFree (BodyStep cfg runId c) := by
  intro st scopes h
  cases h with
  | serve h => exact .serve (serveStep_scopeFree st scopes h)
  | run h => exact .run (runStep_scopeFree st scopes h)

theorem ServeStep.of_work (st : WStep) (h : WorkStep st) : ServeStep cfg c st := .work h

theorem all_tended {p : Act α} (hp : p.All (TendStep c)) : p.All (ServeStep cfg c) :=
  All.mono (fun _ h => .sandbox h.toSandboxStep) hp

theorem all_restoreRevision (id : Nat) (revision : ProjectRevision) :
    (restoreRevision cfg id revision).All (ServeStep cfg c) := by
  refine All.bind (all_controlPreview ServeStep.of_work id _) fun _ => ?_
  refine All.bind (All.mono (fun _ => .storage) all_archiveSlot) fun _ => ?_
  refine All.bind (All.mono (fun _ => .storage) (all_revisionBytes cfg revision)) fun data => ?_
  refine All.bind (All.onExit (All.mono (fun _ => .work) (all_restoreFiles id data))
    (all_removeFile ServeStep.of_work)) fun _ => ?_
  split
  · trivial
  · exact All.bind (all_tended (all_hostCommand id)) fun _ => all_controlPreview ServeStep.of_work id _

theorem all_getE2bSandbox : (getE2bSandbox cfg c).All (ServeStep cfg c) := by
  refine All.bind (All.mono (fun _ => .save) (all_ensureRevision cfg c)) fun revision => ?_
  refine All.bind (All.mono (fun _ => .sandbox) (all_acquire cfg c revision)) fun x => ?_
  dsimp only
  split
  · refine All.bind (all_catchException (all_tended (all_hostCommand _)) fun _ => trivial) fun _ => ?_
    refine All.bind ?_ fun _ => trivial
    cases revision with
    | some revision => exact all_restoreRevision _ revision
    | none => trivial
  · trivial

theorem all_previewReady (id : Nat) : (previewReady id).All (ServeStep cfg c) := by
  refine All.bind (all_tended (all_hostCommand id)) fun _ => All.bind (all_command ServeStep.of_work id _)
    fun ok => ?_
  split <;> trivial

theorem all_readyPreview (id : Nat) : (readyPreview id c).All (ServeStep cfg c) := by
  refine All.tryCatch (all_previewReady id) fun e => ?_
  split
  · trivial
  · split
    · refine All.bind (all_tended (Each.all (each_getRuntime c))) fun row => ?_
      split
      · trivial
      · exact All.bind (all_controlPreview ServeStep.of_work id _) fun _ => all_previewReady id
    · trivial

/-- **Opening a preview**, up to the handler and the end. -/
theorem all_openReserved : (openReserved cfg c).All (PreviewStep cfg c) := by
  refine All.bind (All.mono (fun _ h => .serve (.save h)) (all_ensureRevision cfg c)) fun revision => ?_
  split
  · trivial
  · refine all_withTimeout previewStep_scopeFree ?_
    refine All.bind (All.mono (fun _ => .serve) all_getE2bSandbox) fun id => ?_
    refine All.bind (All.mono (fun _ => .serve) (all_readyPreview id)) fun _ => ?_
    exact all_transaction (fun _ _ _ => .serve (.storage (StorageStep.still rfl)))
      fun _ _ _ _ _ h => .publish _ _ h

/-! ## §4. The body of a run. -/

/-- **The body of a run**. -/
theorem all_executeBody : (executeBody cfg runId c).All (BodyStep cfg runId c) := by
  have hwork : ∀ st, WorkStep st → BodyStep cfg runId c st := fun _ h => .serve (.work h)
  have hemit : ∀ kind message, (emit runId kind message).All (BodyStep cfg runId c) := fun kind message =>
    All.mono (fun _ h => .run (.own h)) (all_emit kind message)
  have hcheckpoint : ∀ dirty, (checkpoint cfg runId dirty).All (BodyStep cfg runId c) := fun dirty =>
    All.mono (fun _ => .run) (all_checkpoint dirty)
  refine all_withTimeout bodyStep_scopeFree ?_
  refine All.bind (hemit _ _) fun _ => All.bind (All.mono (fun _ => .serve) all_getE2bSandbox) fun id => ?_
  refine All.bind (all_memory fun _ w => .run (.own (.keep w (some id)))) fun _ => ?_
  refine All.bind (All.mono (fun _ => .serve) (all_tended (all_invalidate c))) fun _ => ?_
  refine All.bind (all_runEditor hwork hemit hcheckpoint id) fun result => ?_
  exact All.bind (All.mono (fun _ => .run) all_saveFiles) fun _ => trivial

end WebBuilder.Service
