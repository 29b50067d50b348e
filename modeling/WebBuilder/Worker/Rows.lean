/-
  WebBuilder.Worker.Rows — the rows of runs, step by step.

  `RunMove` is what a step can do to them.  A row is inserted once, while it
  runs; it is closed by its own `finish`, by a history that finds it
  abandoned, or by a restart; and it goes with its project.

  Main results:
    * `change_runs` — every step of the worker is such a move;
    * `RunMove.from_running` — no step brings a run back.
-/
import WebBuilder.Worker.Shelf

namespace WebBuilder.Worker

open WebBuilder.Async WebBuilder.Store WebBuilder.Budget WebBuilder.Run WebBuilder.Service

variable {cfg : Config} {w w' : World}

/-! ## §1. Moves. -/

/-- The outcome that the row of a run records. -/
structure Verdict where
  id : Nat
  chatId : Nat
  status : RunStatus
  reason : Option String
  finishedAt : Option Nat
  deriving DecidableEq

def verdict (r : Run) : Verdict := ⟨r.id, r.chatId, r.status, r.reason, r.finishedAt⟩

/-- Every run keeps what its row records of its outcome. -/
def KeepsVerdicts (db db' : Database) : Prop :=
  ∀ i, (db'.runs.get? i).map verdict = (db.runs.get? i).map verdict

inductive RunMove (w w' : World) : Prop where
  | keep (hid : w.nextId ≤ w'.nextId) (hruns : KeepsVerdicts w.db w'.db)
  | started (run : Run) (hnew : w.nextId ≤ run.id) (hid : run.id < w'.nextId) (hrunning : run.status = .running)
      (hopen : run.finishedAt = none) (hruns : w'.db.runs = w.db.runs.put run)
  | closed (run : Run) (status : RunStatus) (reason : String) (hrun : w.db.runs.get? run.id = some run)
      (hrunning : run.status = .running) (hstatus : status ≠ .running) (hid : w'.nextId = w.nextId)
      (hruns : w'.db.runs = w.db.runs.modify run.id fun r => r.close status reason w.now)
  | interrupted (found : List Interruption) (hid : w'.nextId = w.nextId)
      (hruns : w'.db.runs = (found.foldl Database.interrupt w.db).runs)
  | dropped (chatId : Nat) (hid : w'.nextId = w.nextId)
      (hruns : w'.db.runs = w.db.runs.eraseIf fun r => r.chatId = chatId)

theorem RunMove.of_eq (hid : w.nextId ≤ w'.nextId) (hruns : w'.db.runs = w.db.runs) : RunMove w w' :=
  .keep hid fun i => by rw [hruns]

/-- The log of a run is archived or forgotten. -/
theorem keepsVerdicts_modify (db : Database) (runId : Nat) {f : Run → Run} (hf : ∀ r, verdict (f r) = verdict r) :
    KeepsVerdicts db (db.modifyRun runId f) := by
  intro i
  show ((db.runs.modify runId f).get? i).map verdict = _
  rw [Table.get?_modify _ _ _ fun r => congrArg Verdict.id (hf r)]
  split
  · rename_i hi
    rw [hi, Option.map_map]
    exact congrArg (Option.map · _) (funext hf)
  · rfl

/-! ## §2. Every step is a move. -/

theorem basic_runs (h : Basic cfg w w') : RunMove w w' := by
  cases h with
  | quiet h => exact .of_eq h.nextId (by rw [h.db])
  | reserve => exact .of_eq (Nat.le_refl _) rfl
  | record chatId runId archive files template h =>
      obtain ⟨chat, _, ⟨_, _, _, _, _, rfl⟩ | ⟨rfl, rfl⟩⟩ := recordRevision_cases h
      · exact .of_eq (Nat.le_refl _) rfl
      · exact .of_eq (Nat.le_succ _) rfl
  | publish chatId revisionId url h =>
      obtain ⟨chat, r, _, _, _, _, rfl⟩ := publishPreview_eq h
      exact .of_eq (Nat.le_refl _) rfl
  | live hdb _ hid _ => exact .of_eq hid.ge (by rw [hdb])
  | fail => exact .of_eq (Nat.le_refl _) rfl
  | prune now chatId =>
      unfold pruneRevisions
      split
      · exact .of_eq (Nat.le_refl _) rfl
      · split
        · exact .of_eq (Nat.le_refl _) rfl
        · exact .of_eq (Nat.le_refl _) rfl
  | erase => exact .of_eq (Nat.le_refl _) rfl
  | archived runId sha256 => exact .keep (Nat.le_refl _) (keepsVerdicts_modify w.db runId fun _ => rfl)
  | forgotten runId => exact .keep (Nat.le_refl _) (keepsVerdicts_modify w.db runId fun _ => rfl)
  | dropOld => exact .of_eq (Nat.le_refl _) rfl
  | delete chatId keys h =>
      unfold deleteRows at h
      split at h
      · cases h
      · simp only [Except.ok.injEq, Prod.mk.injEq, true_and] at h
        exact h ▸ .dropped chatId rfl rfl
  | interrupt found h =>
      unfold interruptRows at h
      split at h
      · cases h
      · simp only [Except.ok.injEq, Prod.mk.injEq, true_and] at h
        exact h ▸ .interrupted found rfl rfl

theorem admission_runs {userId : Nat} {prompt : String} {chatId : Option Nat} {busy : Bool} {a : Admitted}
    (h : admitRows cfg userId prompt chatId busy w = .ok (a, w')) : RunMove w w' := by
  obtain ⟨user, c, w₁, hchat, hinsert⟩ := admitRows_cases h
  obtain rfl := (congrArg Prod.snd hinsert).symm
  have hw : w.nextId ≤ w₁.nextId ∧ w₁.db.runs = w.db.runs := by
    rcases admitChat_cases hchat with ⟨_, _, _, _, _, rfl⟩ | ⟨_, _, rfl⟩
    · exact ⟨Nat.le_refl _, rfl⟩
    · exact ⟨Nat.le_succ _, rfl⟩
  refine .started ⟨w₁.nextId, c, prompt, .running, none, w₁.now, none, none, none⟩ hw.1 ?_ rfl rfl ?_
  · show w₁.nextId < w₁.nextId + 2
    omega
  · show w₁.db.runs.put _ = _
    rw [hw.2]

/-- **Every step** of the worker is a move. -/
theorem change_runs (h : Change cfg w w') : RunMove w w' := by
  cases h with
  | plain h =>
      cases h with
      | basic h => exact basic_runs h
      | event e _ h =>
          obtain ⟨rfl, _⟩ := addEvent_eq h
          exact .of_eq (Nat.le_refl _) rfl
      | progress hdb _ hid _ => exact .of_eq hid.ge (by rw [hdb])
  | admission userId prompt chatId busy h => exact admission_runs h
  | register => exact .of_eq (Nat.le_refl _) rfl
  | promote revision event recovery _ h =>
      rcases promoteLocked_cases h with ⟨_, rfl⟩ | ⟨chat, row, db, _, _, _, _, _, hdb, rfl⟩
      · exact .of_eq (Nat.le_refl _) rfl
      · have hruns := congrArg Database.runs (addEvent?_cases hdb)
        exact .of_eq (Nat.le_refl _) hruns
  | saved => exact .of_eq (Nat.le_refl _) rfl
  | finish live status reason url hstatus h =>
      rcases finishRun_cases h with ⟨_, rfl, _⟩ | ⟨run, w₁, hrun, hrunning, _, hmark, _, rfl⟩
      · exact .of_eq (Nat.le_refl _) rfl
      · have hid : live.id = run.id := (Table.key_of_get? hrun).symm
        rw [hid] at hrun hmark
        rcases markVerified_eq hmark with ⟨rfl, _⟩ | ⟨r, v, _, _, _, _, rfl⟩
        · exact .closed run status reason hrun hrunning hstatus rfl rfl
        · exact .closed run status reason hrun hrunning hstatus rfl rfl

/-- A basic step is no progress of any run. -/
theorem basic_progress (h : Basic cfg w w') (i : Nat) : (w'.live? i).map progress = (w.live? i).map progress := by
  cases h with
  | quiet h =>
      unfold World.live?
      rw [h.runs]
  | live _ _ _ hlives => exact hlives i
  | record _ _ _ _ _ h =>
      obtain ⟨chat, _, ⟨_, _, _, _, _, rfl⟩ | ⟨rfl, rfl⟩⟩ := recordRevision_cases h
      · rfl
      · rfl
  | publish _ _ _ h =>
      obtain ⟨chat, row, _, _, _, _, rfl⟩ := publishPreview_eq h
      rfl
  | prune now chatId =>
      unfold pruneRevisions
      split
      · rfl
      · split
        · rfl
        · rfl
  | delete chatId keys h =>
      unfold deleteRows at h
      split at h
      · cases h
      · simp only [Except.ok.injEq, Prod.mk.injEq, true_and] at h
        exact h ▸ rfl
  | interrupt found h =>
      unfold interruptRows at h
      split at h
      · cases h
      · simp only [Except.ok.injEq, Prod.mk.injEq, true_and] at h
        exact h ▸ rfl
  | reserve => rfl
  | fail => rfl
  | erase => rfl
  | archived => rfl
  | forgotten => rfl
  | dropOld => rfl

/-! ## §3. Where the rows come from. -/

/-- What a step can make of a row: the outcome stays, or the run has ended. -/
def RowStep (row row' : Run) : Prop :=
  row'.chatId = row.chatId ∧ (verdict row' = verdict row ∨ row'.status ≠ .running)

theorem RowStep.refl (row : Run) : RowStep row row := ⟨rfl, .inl rfl⟩

theorem interrupt_rows : ∀ (found : List Interruption) (db : Database) (i : Nat) (row' : Run),
    (found.foldl Database.interrupt db).runs.get? i = some row' → ∃ row, db.runs.get? i = some row ∧ RowStep row row'
  | [], _, _, row', h => ⟨row', h, .refl row'⟩
  | x :: found, db, i, row', h => by
      obtain ⟨row, hrow, hstep⟩ := interrupt_rows found (db.interrupt x) i row' h
      have hrow : (db.runs.modify x.runId fun r => r.close .interrupted abandoned x.at_).get? i = some row := hrow
      rw [Table.get?_modify db.runs x.runId (fun r => r.close .interrupted abandoned x.at_) fun _ => rfl] at hrow
      split at hrow
      · rename_i hi
        obtain ⟨old, hold, rfl⟩ := Option.map_eq_some_iff.mp hrow
        refine ⟨old, hi ▸ hold, hstep.1, .inr ?_⟩
        rcases hstep.2 with hsame | hended
        · rw [show row'.status = .interrupted from congrArg Verdict.status hsame]
          simp
        · exact hended
      · exact ⟨row, hrow, hstep⟩

/-- **Rows** after a step were there before, or they are new. -/
theorem RunMove.rows (h : RunMove w w') {i : Nat} {row' : Run} (hrow' : w'.db.runs.get? i = some row') :
    (∃ row, w.db.runs.get? i = some row ∧ RowStep row row') ∨
      (w.nextId ≤ i ∧ i < w'.nextId ∧ row'.status = .running) := by
  cases h with
  | keep _ hruns =>
      have hkept := hruns i
      rw [hrow', Option.map_some] at hkept
      obtain ⟨row, hrow, hsame⟩ := Option.map_eq_some_iff.mp hkept.symm
      exact .inl ⟨row, hrow, congrArg Verdict.chatId hsame.symm, .inl hsame.symm⟩
  | started run hnew hid hrunning _ hruns =>
      rw [hruns, Table.get?_put] at hrow'
      split at hrow'
      · rename_i hi
        cases hrow'
        exact .inr ⟨hi ▸ hnew, hi ▸ hid, hrunning⟩
      · exact .inl ⟨row', hrow', .refl row'⟩
  | closed run status reason hrun _ hstatus _ hruns =>
      rw [hruns, Table.get?_modify w.db.runs run.id (fun r => r.close status reason w.now) fun _ => rfl] at hrow'
      split at hrow'
      · rename_i hi
        obtain ⟨old, hold, rfl⟩ := Option.map_eq_some_iff.mp hrow'
        exact .inl ⟨old, hi ▸ hold, rfl, .inr hstatus⟩
      · exact .inl ⟨row', hrow', .refl row'⟩
  | interrupted found _ hruns =>
      rw [hruns] at hrow'
      exact .inl (interrupt_rows found w.db i row' hrow')
  | dropped chatId _ hruns =>
      rw [hruns, Table.get?_eraseIf, Option.filter_eq_some_iff] at hrow'
      exact .inl ⟨row', hrow'.1, .refl row'⟩

theorem RunMove.nextId (h : RunMove w w') : w.nextId ≤ w'.nextId := by
  cases h with
  | keep hid => exact hid
  | started run hnew hid => exact hnew.trans hid.le
  | closed _ _ _ _ _ _ hid => exact hid.ge
  | interrupted _ hid => exact hid.ge
  | dropped _ hid => exact hid.ge

/-- **No step brings a run back**: an old row that runs has run before. -/
theorem RunMove.from_running (h : RunMove w w') {i : Nat} {row' : Run} (hi : i < w.nextId)
    (hrow' : w'.db.runs.get? i = some row') (hrunning : row'.status = .running) :
    ∃ row, w.db.runs.get? i = some row ∧ row.chatId = row'.chatId ∧ row.status = .running := by
  rcases h.rows hrow' with ⟨row, hrow, hchat, hsame | hended⟩ | ⟨hnew, _⟩
  · exact ⟨row, hrow, hchat.symm, (congrArg Verdict.status hsame).symm.trans hrunning⟩
  · exact absurd hrunning hended
  · exact absurd hi (Nat.not_lt.mpr hnew)

/-- The ids of runs are older than the next one. -/
def RunIds (w : World) : Prop := ∀ i, (w.db.runs.get? i).isSome → i < w.nextId

theorem RunMove.ids (h : RunMove w w') (hw : RunIds w) : RunIds w' := by
  intro i hi
  obtain ⟨row', hrow'⟩ := Option.isSome_iff_exists.mp hi
  rcases h.rows hrow' with ⟨row, hrow, _⟩ | ⟨_, hlt, _⟩
  · exact (hw i (hrow ▸ rfl)).trans_le h.nextId
  · exact hlt

/-- A restart closes every run that runs. -/
theorem restart_rows {i : Nat} {row' : Run} (h : w.restart.db.runs.get? i = some row') :
    row'.status ≠ .running ∧ ∃ row, w.db.runs.get? i = some row ∧ RowStep row row' := by
  have h : (w.db.runs.update (Run.abandon w.now) (Run.key_abandon w.now)).get? i = some row' := h
  rw [Table.get?_update] at h
  obtain ⟨row, hrow, rfl⟩ := Option.map_eq_some_iff.mp h
  have hended : (row.abandon w.now).status ≠ .running := by
    unfold Run.abandon
    split
    · simp [Run.close]
    · assumption
  refine ⟨hended, row, hrow, ?_, .inr hended⟩
  unfold Run.abandon
  split <;> rfl

end WebBuilder.Worker
