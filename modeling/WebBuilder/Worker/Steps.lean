/-
  WebBuilder.Worker.Steps — one step of the worker, and its runs.

  `Plain` adds to `Basic` how a run goes on, and `Change` adds to it where a
  run starts and ends and a checkpoint is saved.  Every await of every call
  makes such a step, the environment and the start of a task make plain ones,
  and a crash restarts the worker.

  Main result: `invariant` — what every `Change` and a restart keep holds in
  every reachable state.
-/
import WebBuilder.Worker.Traversal

namespace WebBuilder.Worker

open WebBuilder.Async WebBuilder.Store WebBuilder.Budget WebBuilder.Run WebBuilder.Service

variable {α : Type} {cfg : Config} {runId : Nat}

/-! ## §1. Steps. -/

/-- What of a live run its checkpoints depend on. -/
def held (live : LiveRun) : Nat × Nat × Option Nat := (live.id, live.chatId, live.revisionId)

/-- A step that starts and ends no run, and saves no checkpoint. -/
inductive Plain (cfg : Config) (w : World) : World → Prop where
  | basic {w' : World} (h : Basic cfg w w') : Plain cfg w w'
  | event (e : Event) {db : Database} (hkind : e.kind.isFinish = false) (h : w.db.addEvent e = .ok db) :
      Plain cfg w { w with db }
  /-- A run goes on, in the memory of the worker. -/
  | progress {w' : World} (hdb : w'.db = w.db) (hnow : w'.now = w.now) (hid : w'.nextId = w.nextId)
      (hlives : ∀ r, (w'.live? r).map held = (w.live? r).map held) : Plain cfg w w'

/-- What one step of the worker can do. -/
inductive Change (cfg : Config) (w : World) : World → Prop where
  | plain {w' : World} (h : Plain cfg w w') : Change cfg w w'
  | admission (userId : Nat) (prompt : String) (chatId : Option Nat) (busy : Bool) {a : Admitted} {w' : World}
      (h : admitRows cfg userId prompt chatId busy w = .ok (a, w')) : Change cfg w w'
  | register (a : Admitted) (userId : Nat) (prompt : String) :
      Change cfg w { w with mem := w.mem.register a userId prompt }
  | promote (revision : ProjectRevision) (event : Option Event) (recovery : Bool) {w' : World}
      (hkind : ∀ e ∈ event, e.kind.isFinish = false)
      (h : promoteLocked revision event recovery w = .ok ((), w')) : Change cfg w w'
  | saved (runId revisionId : Nat) (event : Option Event) :
      Change cfg w (w.modifyLive runId (LiveRun.saved revisionId event))
  | finish (live : LiveRun) (status : RunStatus) (reason : String) (url : Option String) {v : Option Event}
      {w' : World} (hstatus : status ≠ .running) (h : finishRun live status reason url w = .ok (v, w')) : Change cfg w w'

theorem Change.basic {w w' : World} (h : Basic cfg w w') : Change cfg w w' := .plain (.basic h)

theorem change_refl (w : World) : Change cfg w w := .basic (.refl w)

theorem plain_quiet {p : Act α} (h : p.Within Quiet) : p.Within (Plain cfg) :=
  h.mono fun _ _ h => .basic (.quiet h)

theorem change_quiet {p : Act α} (h : p.Within Quiet) : p.Within (Change cfg) :=
  h.mono fun _ _ h => .basic (.quiet h)

theorem change_plain {p : Act α} (h : p.Within (Plain cfg)) : p.Within (Change cfg) :=
  h.mono fun _ _ => .plain

/-! ### Steps of a run. -/

theorem held_modify (w : World) (runId : Nat) {f : LiveRun → LiveRun} (hf : ∀ x, held (f x) = held x) (r : Nat) :
    ((w.modifyLive runId f).live? r).map held = (w.live? r).map held := by
  show ((w.mem.runs.modify runId f).get? r).map held = _
  rw [Table.get?_modify _ _ _ fun x => congrArg Prod.fst (hf x)]
  split
  · rename_i hr
    rw [Option.map_map, hr]
    exact congrArg (Option.map · _) (funext hf)
  · rfl

theorem Plain.modify (w : World) (runId : Nat) {f : LiveRun → LiveRun} (hf : ∀ x, held (f x) = held x) :
    Plain cfg w (w.modifyLive runId f) :=
  .progress rfl rfl rfl fun r => held_modify w runId hf r

theorem plain_addEvent (e : Event) (hkind : e.kind.isFinish = false) : (addEvent e).Within (Plain cfg) := by
  refine within_transaction (fun w => .basic (.refl w)) fun w _ w' h => ?_
  cases hdb : w.db.addEvent e with
  | ok db =>
      simp only [hdb, Except.map, Except.ok.injEq, Prod.mk.injEq, true_and] at h
      exact h ▸ .event e hkind hdb
  | error x =>
      rw [hdb] at h
      cases h

theorem plain_appendEvent (e : Event) : (appendEvent runId e).Within (Plain cfg) :=
  all_memory fun _ w => .modify w runId fun _ => rfl

/-- The event that `emit` writes is of its kind. -/
theorem nextEvent_kind {w : World} {kind : EventKind} {message : String} {e : Event}
    (h : w.nextEvent runId kind message = .ok e) : e.kind = kind := by
  unfold World.nextEvent at h
  split at h
  · cases h
  · split at h
    · cases h
    · exact Except.ok.inj h ▸ rfl

theorem plain_emit (kind : EventKind) (message : String) (hkind : kind.isFinish = false) :
    (emit runId kind message).Within (Plain cfg) := by
  refine Each.bind_all (Q := fun r => ∀ e, r = .ok e → e.kind = kind) ?_ fun e he => ?_
  · refine Each.bind (Q := fun r => ∀ e, r = .ok (.ok e) → e.kind = kind) ?_ (fun r hr => ?_)
      fun _ _ e he => by cases he
    · exact each_memory (fun _ w => .basic (.refl w)) fun w e he => nextEvent_kind (Except.ok.inj he)
    · cases r with
      | ok e =>
          intro e' he'
          exact hr e' (congrArg Except.ok he')
      | error x =>
          intro e' he'
          cases he'
  · have hkind' : e.kind.isFinish = false := by rw [he e rfl, hkind]
    exact All.bind (plain_addEvent e hkind') fun _ => plain_appendEvent e

theorem plain_endTask (w : World) (chatId : Nat) (completed : Bool) :
    Plain cfg w (w.endTask runId chatId completed) := by
  cases completed with
  | false => exact .modify w runId fun _ => rfl
  | true =>
      obtain ⟨hdb, hnow, hid, hruns⟩ := touch_spec w chatId
      refine .progress hdb hnow hid fun r => ?_
      have hlives : ∀ r, (w.touch chatId).live? r = w.live? r := fun r => by
        unfold World.live?
        rw [hruns]
      rw [← hlives r]
      exact held_modify (w.touch chatId) runId (f := fun live => { live with task := .done }) (fun _ => rfl) r

theorem plain_requestCancel (t : Nat) : (requestCancel t runId).Within (Plain cfg) := by
  refine all_memory fun _ w => ?_
  dsimp only
  split
  · exact .modify w runId fun _ => rfl
  · exact .basic (.refl w)

theorem change_promote (revisionId : Nat) (event : Option Event) (recovery : Bool)
    (hkind : ∀ e ∈ event, e.kind.isFinish = false) : (promote revisionId event recovery).Within (Change cfg) := by
  refine All.bind (change_quiet quiet_query) fun revision => ?_
  split
  · trivial
  · exact within_transaction change_refl fun _ _ _ h => .promote _ event recovery hkind h

theorem quiet_packSandbox (id : Nat) : (packSandbox cfg id).Within Quiet := by
  refine All.onExit ?_ (quiet_work (all_removeFile fun _ h => h))
  intro an w r w' hact
  exact ⟨(packFiles_step hact).1 ▸ .refl w, trivial⟩

theorem change_saveRevision (chatId : Nat) (owner : Option Nat) (archive : Bytes) (template : String)
    (eventFactory : Option (Nat → World → Event))
    (hkind : ∀ f ∈ eventFactory, ∀ id w, (f id w).kind.isFinish = false) :
    (saveRevision cfg chatId owner archive template eventFactory).Within (Change cfg) := by
  refine All.bind (change_quiet quiet_toThread) fun files => All.bind
    (within_transaction change_refl fun _ _ _ h => .basic (.record _ _ _ _ _ h)) fun recorded => ?_
  split
  · trivial
  · refine All.bind (change_quiet (quiet_putObject _ _ _)) fun _ => Each.bind_all
      (Q := fun r => ∀ event, r = .ok event → ∀ e ∈ event, e.kind.isFinish = false) ?_ fun event he =>
      All.bind (change_promote _ event false (he event rfl)) fun _ => trivial
    unfold makeEvent
    split
    · rename_i f
      refine each_memory (fun _ w => change_refl w) fun w event hevent e he => ?_
      obtain rfl := Except.ok.inj hevent
      exact Option.some.inj he ▸ hkind f rfl _ w
    · intro event hevent e he
      obtain rfl := Except.ok.inj hevent
      cases he

theorem change_saveFiles : (saveFiles cfg runId).Within (Change cfg) := by
  refine All.bind (change_quiet quiet_read) fun live => ?_
  split
  · trivial
  · rename_i live
    split
    · trivial
    · split
      · trivial
      · refine All.bind (change_quiet (quiet_latestRevision _)) fun current =>
          All.bind (change_quiet quiet_archiveSlot) fun _ =>
            All.bind (change_quiet (quiet_packSandbox _)) fun archive =>
              All.bind (change_saveRevision _ _ _ _ _ ?_) fun saved => ?_
        · intro f hf id w
          exact Option.some.inj hf ▸ rfl
        · exact all_memory fun _ _ => .saved runId saved.1 saved.2

theorem change_finish (op : Op) (status : RunStatus) (reason : String) (url : Option String)
    (hstatus : status ≠ .running) :
    (finish op runId status reason url).Within (Change cfg) := by
  refine All.bind (change_quiet quiet_read) fun live => ?_
  split
  · trivial
  · refine All.bind (within_transaction change_refl fun _ _ _ h => .finish _ status reason _ hstatus h) fun event => ?_
    split
    · trivial
    · exact change_plain (plain_appendEvent _)

theorem change_admitLocked (userId : Nat) (prompt : String) (chatId : Option Nat) :
    (admitLocked cfg userId prompt chatId).Within (Change cfg) := by
  refine All.bind (change_quiet quiet_read) fun full => ?_
  split
  · trivial
  · refine All.bind (change_quiet (quiet_requireSandboxCapacity _)) fun _ => All.bind (change_quiet quiet_read)
      fun busy => All.bind (within_transaction change_refl fun _ _ _ h => .admission userId prompt chatId busy h)
        fun a => All.bind (all_memory fun _ w => .register a userId prompt) fun _ => trivial

/-- A class that contains the plain parts needs four more. -/
theorem runParts_of_plain {Φ : ∀ {α : Type}, Act α → Prop} (hclosed : Closed Φ)
    (hplain : ∀ {α : Type} {p : Act α}, p.Within (Plain cfg) → Φ p) (hrecover : ∀ id, Φ (promote id none true))
    (hsaveLegacy : ∀ chatId archive template, Φ (saveRevision cfg chatId none archive template none))
    (hsaveFiles : Φ (saveFiles cfg runId))
    (hfinish : ∀ op status reason url, status ≠ .running → Φ (finish op runId status reason url)) :
    RunParts cfg Φ runId where
  closed := hclosed
  basic hp := hplain (hp.mono fun _ _ => .basic)
  recover := hrecover
  saveLegacy := hsaveLegacy
  emit kind message hkind := hplain (plain_emit kind message hkind)
  saveFiles := hsaveFiles
  requestCancel t := hplain (plain_requestCancel t)
  endTask c completed := hplain (all_memory fun _ w => plain_endTask w c completed)
  finish := hfinish

theorem change_parts (runId : Nat) :
    RunParts cfg (fun {α : Type} (p : Act α) => p.Within (Change cfg)) runId :=
  runParts_of_plain (closed_within _) change_plain
    (fun id => change_promote id none true fun e he => by cases he)
    (fun chatId archive template => change_saveRevision chatId none archive template none fun f hf => by cases hf)
    change_saveFiles change_finish

/-- **Every await** of every call makes a `Change`. -/
theorem change_callBody (t : Nat) (k : WorkerCall) : (callBody cfg t k).Within (Change cfg) :=
  closed_callBody (change_parts 0).toParts t k
    (fun userId prompt chatId => quiet_withAdmission (fun _ _ h => .basic (.quiet h)) (change_admitLocked userId prompt chatId))
    (fun runId _ => (change_parts runId).execute t) fun runId => (change_parts runId).cancel t

/-! ## §2. Runs. -/

/-- What E2B and the clock do is quiet. -/
theorem quiet_environment {d : Datum} {w w' : World} (h : w.environment d = some w') : Quiet w w' := by
  cases d
  case tick time =>
    simp only [World.environment, Option.ite_none_right_eq_some, Option.some.injEq] at h
    exact h.2 ▸ ⟨h.1, Nat.le_refl _, rfl, rfl⟩
  case serve i d =>
    simp only [World.environment] at h
    split at h
    · exact Option.some.inj h ▸ .of_eq rfl (Nat.le_succ _) rfl rfl
    · split at h <;> exact Option.some.inj h ▸ .of_eq rfl (Nat.le_refl _) rfl rfl
    · cases h
  case vanish id =>
    obtain rfl := Option.some.inj h
    unfold World.kill
    split <;> exact .of_eq rfl (Nat.le_refl _) rfl rfl
  case sleep id =>
    obtain ⟨b, _, rfl⟩ := Option.map_eq_some_iff.mp h
    exact .of_eq rfl (Nat.le_refl _) rfl rfl
  case scribble id files =>
    simp only [World.environment] at h
    split at h
    · split at h
      · exact Option.some.inj h ▸ .of_eq rfl (Nat.le_refl _) rfl rfl
      · cases h
    · cases h
  case transfer thread =>
    obtain ⟨store, _, rfl⟩ := Option.map_eq_some_iff.mp h
    exact .of_eq rfl (Nat.le_refl _) rfl rfl
  all_goals cases h

/-- The start of a task writes nothing. -/
theorem enter_plain {t : Nat} {k : WorkerCall} {w w' : World} (h : enter t k w = some w') : Plain cfg w w' := by
  have hstart : ∀ {runId cancelled task}, startRun w runId cancelled task = some w' → Plain cfg w w' :=
    fun {runId} _ _ h => by
      unfold startRun at h
      split at h
      · simp only [Option.ite_none_right_eq_some, Option.some.injEq] at h
        exact h.2 ▸ .modify w runId fun _ => rfl
      · cases h
  cases k
  case serve call =>
    cases call
    case execute runId => exact hstart h
    case drop runId => exact hstart h
    case upload u =>
      simp only [enter, Service.enter, Option.ite_none_right_eq_some, Option.some.injEq] at h
      exact h.2 ▸ .progress rfl rfl rfl fun _ => rfl
    all_goals exact Option.some.inj h ▸ .basic (.refl w)
  case reconcile =>
    simp only [enter, Option.ite_none_right_eq_some, Option.some.injEq] at h
    exact h.2 ▸ .basic (.refl w)
  all_goals exact Option.some.inj h ▸ .basic (.refl w)

/-- **Invariants of the worker**: what every `Change` and a restart keep. -/
theorem invariant {I : World → Prop} (hstep : ∀ w w', I w → Change cfg w w' → I w')
    (hrestart : ∀ w, I w → I w.restart) {w : World} (hw : I w) {q : Pool Nat WorkerCall World Label Exc Datum}
    (h : (worker cfg).Reaches Always (Pool.start w) q) : I q.shared := by
  refine System.invariant (G := Change cfg) hstep change_callBody (fun _ _ _ _ he => .plain (enter_plain he))
    (fun _ _ _ he => .basic (.quiet (quiet_environment he))) (fun _ w w' hI hc => ?_) rfl hw h
  exact Option.some.inj hc ▸ hrestart w hI

/-- **Progress of the worker**: what every `Change` and a restart respect, a
whole run respects, from any reachable state on. -/
theorem advances {R : World → World → Prop} (hrefl : ∀ w, R w w) (htrans : ∀ w w' w'', R w w' → R w' w'' → R w w'')
    (hstep : ∀ w w', Change cfg w w' → R w w') (hrestart : ∀ w, R w w.restart) {w : World}
    {p q : Pool Nat WorkerCall World Label Exc Datum} (hp : (worker cfg).Reaches Always (Pool.start w) p)
    (h : (worker cfg).Reaches Always p q) : R p.shared q.shared := by
  refine System.advances (G := Change cfg) hrefl htrans hstep change_callBody (fun _ _ _ _ he => .plain (enter_plain he))
    (fun _ _ _ he => .basic (.quiet (quiet_environment he))) (fun _ w w' hc => ?_) hp h
  exact Option.some.inj hc ▸ hrestart w

/-! ## §3. A first run. -/

/-- A user has registered. -/
def newWorld : World :=
  { Runtime.plainWorld with db := Runtime.Database.fresh Runtime.plainWorld.db.users .empty }

theorem deployed_newWorld : Deployed newWorld := ⟨rfl, rfl, rfl, rfl, rfl, rfl, rfl, rfl⟩

/-- Every project has an old snapshot of one byte. -/
def legacyConfig : Config := { Runtime.plainConfig with legacyArchive := fun _ => .ok (some [0]) }

/-- `n` awaits of the slot `t` succeed. -/
def proceed (t n : Nat) : List (Async.Event Nat WorkerCall Exc Datum) := List.replicate n (.resume t (.ok .none))

/-- The user starts a project, its old snapshot is saved, and the worker
crashes before the run begins. -/
def firstProject : List (Async.Event Nat WorkerCall Exc Datum) :=
  .enter 0 (.serve (.admitRun 1 "x" none)) :: proceed 0 8 ++
  .enter 0 (.getProjectFiles 1 3) :: proceed 0 6 ++
  .enter 1 (.serve (.upload ⟨7, .revision 3 6, [0], 3, .created, none⟩)) :: proceed 1 5 ++
  proceed 0 6 ++ [.crash .none]

theorem reaches_firstProject : ∃ q, (worker legacyConfig).Reaches Always (Pool.start newWorld) q ∧
    (q.shared.db.usage.get? 0 = some ⟨0, 1, 0, 1, 0⟩ ∧ q.shared.db.chats.get? 3 = some ⟨3, 1, none, some 6, none⟩) ∧
    q.shared.db.runs.rows.map Run.status = [.interrupted] := by
  have hrun : ((worker legacyConfig).run (fun _ _ _ _ => true) firstProject (Pool.start newWorld)).any
      (fun q => (q.shared.db.usage.get? 0 = some ⟨0, 1, 0, 1, 0⟩ ∧
          q.shared.db.chats.get? 3 = some ⟨3, 1, none, some 6, none⟩) ∧
        q.shared.db.runs.rows.map Run.status = [.interrupted]) = true := by
    decide
  obtain ⟨q, hq, hseen⟩ := (Option.any_eq_true _ _).mp hrun
  exact ⟨q, System.run_reaches (fun _ _ _ _ _ => trivial) firstProject hq, of_decide_eq_true hseen⟩

end WebBuilder.Worker
