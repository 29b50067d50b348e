/-
  WebBuilder.Worker.Journal — the logs of runs, step by step.

  The log of a run has one writer at a time: the task of the run, and after it
  the request that cancels the run.  What all others do leaves the log alone
  (`Untouched`); a history may declare the run abandoned, and housekeeping may
  archive it, and then its row says so and vouches for the log no longer
  (`Attended`).

  Main results:
    * `basic_turn` — a basic step writes no log;
    * `Journaled.step` — what has to be shown of a step that writes one;
    * `Journaled.restarted` — a restart keeps every log.
-/
import WebBuilder.Store.Numbered
import WebBuilder.Worker.Sections

namespace WebBuilder.Worker

open WebBuilder.Async WebBuilder.Store WebBuilder.Budget WebBuilder.Run WebBuilder.Service

variable {cfg : Config} {w w' : World} {i n : Nat}

/-! ## §1. The invariant. -/

/-- The row vouches for the log of its run: no history has declared the run
abandoned, and the log is not archived. -/
structure Attended (row : Run) : Prop where
  kept : row.status ≠ .running → row.reason ≠ some abandoned
  unarchived : row.logSha256 = none

/-- The row of the run and its project say what the terminal event says. -/
structure Told (w : World) (row : Run) (e : Event) : Prop where
  status : row.status ≠ .running
  kind : ∃ url revisionId, e.kind = .runFinished row.status url revisionId
  reason : row.reason = some e.message
  summary : w.db.messages.get? row.id = some ⟨row.id, row.chatId, .assistant, e.message, true⟩

/-- The worker remembers the log, but for one event whose commit it does not
know of. -/
structure Recorded (w : World) (i n : Nat) (live : LiveRun) : Prop where
  length : n = live.events.length ∨ n = live.events.length + 1
  events : ∀ k, k < live.events.length → w.db.runEvents.get? (i, k + 1) = live.events[k]?

/-- The log of the run `i` has no terminal event. -/
def Unfinished (w : World) (i : Nat) : Prop :=
  ∀ k e, w.db.runEvents.get? (i, k) = some e → e.kind.isFinish = false

/-- The log of a run has the events 1, …, `n`. -/
structure Journal (w : World) (row : Run) (n : Nat) : Prop where
  numbered : Numbered w.db.runEvents row.id n
  bound : n ≤ 201
  told : ∀ k e, w.db.runEvents.get? (row.id, k) = some e → e.kind.isFinish = true → k = n ∧ Told w row e
  room : Unfinished w row.id → n ≤ 200
  ended : Unfinished w row.id → row.status = .running ∨ row.status = .interrupted
  live : Unfinished w row.id → ∀ live, w.live? row.id = some live → row.status = .running ∧ Recorded w row.id n live
  created : ∀ live, w.live? row.id = some live → live.task = .created → row.status = .running

/-- Every log that its row vouches for is complete. -/
structure Journaled (w : World) : Prop where
  ids : ∀ i k, (w.db.runEvents.get? (i, k)).isSome → i < w.nextId
  journals : ∀ i row, w.db.runs.get? i = some row → Attended row → ∃ n, Journal w row n

/-- A run that runs has no terminal event. -/
theorem Journal.unfinished {row : Run} (h : Journal w row n) (hrunning : row.status = .running) :
    Unfinished w row.id := by
  intro k e he
  rw [← Bool.not_eq_true]
  intro hfinish
  exact (h.told k e he hfinish).2.status hrunning

/-! ## §2. What a step leaves alone. -/

/-- The log of the run `i` stays, as long as its row vouches for it. -/
def SameLog (i : Nat) (w w' : World) : Prop :=
  ∀ row', w'.db.runs.get? i = some row' → Attended row' →
    ∃ row, w.db.runs.get? i = some row ∧ Attended row ∧ verdict row' = verdict row ∧
      (∀ k, w'.db.runEvents.get? (i, k) = w.db.runEvents.get? (i, k)) ∧
      ∀ m, w.db.messages.get? i = some m → m.chatId = row'.chatId → w'.db.messages.get? i = some m

/-- What a live run after the step has written it has written before. -/
def LiveBefore (i : Nat) (w w' : World) : Prop :=
  ∀ live', w'.live? i = some live' →
    ∃ live, w.live? i = some live ∧ live'.events = live.events ∧ (live'.task = .created → live.task = .created)

/-- The task that may write the log of a run. -/
def LiveRun.writer (live : LiveRun) : Option Nat :=
  match live.task with
  | .created => none
  | .running t => some t
  | .done => live.cancelling

/-- The task `u` may write the log of the run `i`. -/
def Writes (u : Option Nat) (i : Nat) (w : World) : Prop :=
  ∃ t live, u = some t ∧ w.live? i = some live ∧ LiveRun.writer live = some t

/-- A step that does not belong to the run `i`. -/
structure Untouched (i : Nat) (w w' : World) : Prop where
  log : SameLog i w w'
  live : ∀ live, w.live? i = some live → ∃ live', w'.live? i = some live' ∧ live'.events = live.events ∧
    (live'.task = live.task ∨ live.task = .created)
  ready : ∀ v r', w'.db.revisions.get? v = some r' → r'.runId = some i → r'.status = .ready →
    (∃ r, w.db.revisions.get? v = some r ∧ r.status = .ready) ∨ w'.db.hasRunning r'.chatId = false

/-- The request that cancels a run stays the one. -/
def KeepsCancelling (w w' : World) : Prop :=
  ∀ i live t, w.live? i = some live → live.cancelling = some t →
    ∃ live', w'.live? i = some live' ∧ live'.cancelling = some t

/-- What one step of the task `u`, or of nobody, may do to runs and their logs. -/
structure Turn (u : Option Nat) (w w' : World) : Prop where
  others : ∀ i, i < w.nextId → ¬ Writes u i w → Untouched i w w'
  cancelling : KeepsCancelling w w'

/-- A step that belongs to no run. -/
theorem Turn.of_untouched (h : ∀ i, Untouched i w w') (hcancelling : KeepsCancelling w w') (u : Option Nat) :
    Turn u w w' := ⟨fun i _ _ => h i, hcancelling⟩

/-- A step of the writer of the run `i` leaves the other runs alone. -/
theorem Turn.of_writer {u : Option Nat} (hw : Writes u i w) (h : ∀ j, j ≠ i → Untouched j w w')
    (hcancelling : KeepsCancelling w w') : Turn u w w' := by
  refine ⟨fun j _ hj => ?_, hcancelling⟩
  by_cases hji : j = i
  · subst hji
    exact absurd hw hj
  · exact h j hji

theorem SameLog.of_eq (hruns : w'.db.runs = w.db.runs) (hevents : w'.db.runEvents = w.db.runEvents)
    (hmessages : w'.db.messages = w.db.messages) (i : Nat) : SameLog i w w' := by
  intro row' hrow' hattended
  rw [hruns] at hrow'
  rw [hevents, hmessages]
  exact ⟨row', hrow', hattended, rfl, fun _ => rfl, fun _ hm _ => hm⟩

theorem Untouched.refl (i : Nat) (w : World) : Untouched i w w :=
  ⟨.of_eq rfl rfl rfl i, fun live hlive => ⟨live, hlive, rfl, .inl rfl⟩, fun _ r' hr' _ hready => .inl ⟨r', hr', hready⟩⟩

theorem Turn.refl (u : Option Nat) (w : World) : Turn u w w :=
  .of_untouched (fun i => .refl i w) (fun _ live _ hlive ht => ⟨live, hlive, ht⟩) u

/-- The live run is the same in what counts for logs. -/
theorem live_of_progress (h : (w'.live? i).map progress = (w.live? i).map progress) (live : LiveRun)
    (hlive : w.live? i = some live) : ∃ live', w'.live? i = some live' ∧ live'.events = live.events ∧
      live'.task = live.task ∧ live'.cancelling = live.cancelling := by
  rw [hlive, Option.map_some] at h
  obtain ⟨live', hlive', hsame⟩ := Option.map_eq_some_iff.mp h
  exact ⟨live', hlive', congrArg Progress.events hsame, congrArg Progress.task hsame, congrArg Progress.cancelling hsame⟩

theorem liveBefore_of_progress (h : (w'.live? i).map progress = (w.live? i).map progress) : LiveBefore i w w' := by
  intro live' hlive'
  rw [hlive', Option.map_some] at h
  obtain ⟨live, hlive, hsame⟩ := Option.map_eq_some_iff.mp h.symm
  refine ⟨live, hlive, (congrArg Progress.events hsame).symm, fun hcreated => ?_⟩
  have htask : live.task = live'.task := congrArg Progress.task hsame
  rw [htask, hcreated]

/-! ## §3. Basic steps. -/

/-- A row that still vouches for its log was not declared abandoned. -/
theorem interrupt_attended : ∀ (found : List Interruption) (db : Database) (i : Nat) (row' : Run),
    (found.foldl Database.interrupt db).runs.get? i = some row' → Attended row' → db.runs.get? i = some row'
  | [], _, _, _, h, _ => h
  | x :: found, db, i, row', h, hattended => by
      have hrow := interrupt_attended found (db.interrupt x) i row' h hattended
      have hrow : (db.runs.modify x.runId fun r => r.close .interrupted abandoned x.at_).get? i = some row' := hrow
      rw [Table.get?_modify db.runs x.runId (fun r => r.close .interrupted abandoned x.at_) fun _ => rfl] at hrow
      split at hrow
      · obtain ⟨old, _, rfl⟩ := Option.map_eq_some_iff.mp hrow
        -- it was: its reason says so
        exact absurd rfl (hattended.kept (by simp [Run.close]))
      · exact hrow

/-- A row that is modified without its outcome, and stays without an archive. -/
theorem sameLog_modifyRun (runId : Nat) {f : Run → Run} (hf : ∀ r, verdict (f r) = verdict r)
    (hsha : ∀ r, (f r).logSha256 = none → r.logSha256 = none) (i : Nat) :
    SameLog i w { w with db := w.db.modifyRun runId f } := by
  intro row' hrow' hattended
  have hrow' : (w.db.runs.modify runId f).get? i = some row' := hrow'
  rw [Table.get?_modify _ _ _ fun r => congrArg Verdict.id (hf r)] at hrow'
  split at hrow'
  · rename_i hi
    obtain ⟨row, hrow, rfl⟩ := Option.map_eq_some_iff.mp hrow'
    have hstatus : (f row).status = row.status := congrArg Verdict.status (hf row)
    have hreason : (f row).reason = row.reason := congrArg Verdict.reason (hf row)
    refine ⟨row, hi ▸ hrow, ⟨fun hended => ?_, hsha row hattended.unarchived⟩, hf row, fun _ => rfl, fun _ hm _ => hm⟩
    rw [← hreason]
    exact hattended.kept (hstatus ▸ hended)
  · exact ⟨row', hrow', hattended, rfl, fun _ => rfl, fun _ hm _ => hm⟩

/-- Only archived logs are dropped. -/
theorem sameLog_dropOld (now i : Nat) : SameLog i w { w with db := w.db.dropOld now } := by
  intro row' hrow' hattended
  have hrow' : w.db.runs.get? i = some row' := hrow'
  refine ⟨row', hrow', hattended, rfl, fun k => ?_, fun _ hm _ => hm⟩
  refine Table.get?_eraseIf_of_not fun e he => ?_
  have hid : e.runId = i := congrArg Prod.fst (Table.key_of_get? he)
  simp [hid, hrow', hattended.unarchived]

/-- A project goes with its runs, their logs and its messages. -/
theorem sameLog_delete {chatId : Nat} {keys : List ObjectKey} (h : deleteRows chatId keys w = .ok ((), w')) (i : Nat) :
    SameLog i w w' := by
  unfold deleteRows at h
  split at h
  · cases h
  · simp only [Except.ok.injEq, Prod.mk.injEq, true_and] at h
    subst h
    intro row' hrow' hattended
    have hrow' : (w.db.runs.eraseIf fun r => r.chatId = chatId).get? i = some row' := hrow'
    rw [Table.get?_eraseIf, Option.filter_eq_some_iff] at hrow'
    obtain ⟨hrow, hother⟩ := hrow'
    have hother : row'.chatId ≠ chatId := by simpa using hother
    refine ⟨row', hrow, hattended, rfl, fun k => ?_, fun m hm hchat => ?_⟩
    · refine Table.get?_eraseIf_of_not fun e he => ?_
      have hid : e.runId = i := congrArg Prod.fst (Table.key_of_get? he)
      show (w.db.runs.get? e.runId).any (fun r => decide (r.chatId = chatId)) = false
      simp [hid, hrow, hother]
    · show (w.db.messages.eraseIf fun m => m.chatId = chatId).get? i = some m
      rw [Table.get?_eraseIf, Option.filter_eq_some_iff]
      exact ⟨hm, by simpa [hchat] using hother⟩

theorem basic_log (h : Basic cfg w w') (i : Nat) : SameLog i w w' := by
  cases h with
  | quiet h => exact .of_eq (by rw [h.db]) (by rw [h.db]) (by rw [h.db]) i
  | reserve => exact .of_eq rfl rfl rfl i
  | record _ _ _ _ _ h =>
      obtain ⟨chat, _, ⟨_, _, _, _, _, rfl⟩ | ⟨rfl, rfl⟩⟩ := recordRevision_cases h
      · exact .of_eq rfl rfl rfl i
      · exact .of_eq rfl rfl rfl i
  | publish _ _ _ h =>
      obtain ⟨chat, row, _, _, _, _, rfl⟩ := publishPreview_eq h
      exact .of_eq rfl rfl rfl i
  | live hdb => exact .of_eq (by rw [hdb]) (by rw [hdb]) (by rw [hdb]) i
  | fail => exact .of_eq rfl rfl rfl i
  | prune now chatId =>
      unfold pruneRevisions
      split
      · exact .of_eq rfl rfl rfl i
      · split
        · exact .of_eq rfl rfl rfl i
        · exact .of_eq rfl rfl rfl i
  | erase => exact .of_eq rfl rfl rfl i
  | archived runId sha256 =>
      exact sameLog_modifyRun runId (f := fun r => { r with logKey := some (.log runId), logSha256 := some sha256 })
        (fun _ => rfl) (fun _ h => by cases h) i
  | forgotten runId => exact sameLog_modifyRun runId (f := fun r => { r with logKey := none }) (fun _ => rfl) (fun _ h => h) i
  | dropOld now => exact sameLog_dropOld now i
  | delete chatId keys h => exact sameLog_delete h i
  | interrupt found h =>
      unfold interruptRows at h
      split at h
      · cases h
      · simp only [Except.ok.injEq, Prod.mk.injEq, true_and] at h
        subst h
        intro row' hrow' hattended
        have hrow := interrupt_attended found w.db i row' hrow' hattended
        have hevents : (found.foldl Database.interrupt w.db).runEvents = w.db.runEvents := by rw [interrupt_tables]
        have hmessages : (found.foldl Database.interrupt w.db).messages = w.db.messages := by rw [interrupt_tables]
        refine ⟨row', hrow, hattended, rfl, fun k => ?_, fun m hm _ => ?_⟩
        · show (found.foldl Database.interrupt w.db).runEvents.get? (i, k) = _
          rw [hevents]
        · show (found.foldl Database.interrupt w.db).messages.get? i = some m
          rw [hmessages, hm]

/-- **A basic step** writes no log and no checkpoint of a run. -/
theorem basic_untouched (h : Basic cfg w w') (i : Nat) : Untouched i w w' := by
  refine ⟨basic_log h i, fun live hlive => ?_, fun v r' hr' _ hready => ?_⟩
  · obtain ⟨live', hlive', hevents, htask, _⟩ := live_of_progress (basic_progress h i) live hlive
    exact ⟨live', hlive', hevents, .inl htask⟩
  · rcases (basic_shelf h).1.revisions hr' with ⟨r, hr, _, hwas⟩ | ⟨_, hpending, _⟩
    · exact .inl ⟨r, hr, hwas hready⟩
    · rw [hpending] at hready
      cases hready

theorem basic_turn (h : Basic cfg w w') (u : Option Nat) : Turn u w w' := by
  refine .of_untouched (basic_untouched h) (fun i live t hlive ht => ?_) u
  obtain ⟨live', hlive', _, _, hsame⟩ := live_of_progress (basic_progress h i) live hlive
  exact ⟨live', hlive', hsame.trans ht⟩

/-- A basic step adds no event. -/
theorem basic_events (h : Basic cfg w w') (k : Nat × Nat) (hk : (w'.db.runEvents.get? k).isSome) :
    (w.db.runEvents.get? k).isSome := by
  have hsame : w'.db.runEvents = w.db.runEvents → (w.db.runEvents.get? k).isSome := fun heq => heq ▸ hk
  have herase : ∀ cond, w'.db.runEvents = w.db.runEvents.eraseIf cond → (w.db.runEvents.get? k).isSome :=
    fun cond heq => by
      rw [heq, Table.get?_eraseIf] at hk
      obtain ⟨e, he⟩ := Option.isSome_iff_exists.mp hk
      rw [(Option.filter_eq_some_iff.mp he).1]
      rfl
  cases h with
  | quiet h => exact hsame (by rw [h.db])
  | record _ _ _ _ _ h =>
      obtain ⟨chat, _, ⟨_, _, _, _, _, rfl⟩ | ⟨rfl, rfl⟩⟩ := recordRevision_cases h
      · exact hk
      · exact hk
  | publish _ _ _ h =>
      obtain ⟨chat, row, _, _, _, _, rfl⟩ := publishPreview_eq h
      exact hk
  | live hdb => exact hsame (by rw [hdb])
  | prune now chatId =>
      unfold pruneRevisions at hsame hk
      split at hk
      · exact hk
      · split at hk
        · exact hk
        · exact hk
  | dropOld now => exact herase _ rfl
  | delete chatId keys h =>
      unfold deleteRows at h
      split at h
      · cases h
      · simp only [Except.ok.injEq, Prod.mk.injEq, true_and] at h
        subst h
        exact herase _ rfl
  | interrupt found h =>
      unfold interruptRows at h
      split at h
      · cases h
      · simp only [Except.ok.injEq, Prod.mk.injEq, true_and] at h
        refine hsame ?_
        show w'.db.runEvents = _
        rw [← h, interrupt_tables]
  | reserve => exact hk
  | fail => exact hk
  | erase => exact hk
  | archived => exact hk
  | forgotten => exact hk

/-! ## §4. Logs after a step. -/

theorem Unfinished.congr (hevents : ∀ k, w'.db.runEvents.get? (i, k) = w.db.runEvents.get? (i, k))
    (h : Unfinished w' i) : Unfinished w i := fun k e he => h k e ((hevents k).trans he)

/-- A log that nobody writes, with the row and the live run of the step. -/
theorem Journal.kept {row row' : Run} (h : Journal w row n) (hverdict : verdict row' = verdict row)
    (hevents : ∀ k, w'.db.runEvents.get? (row.id, k) = w.db.runEvents.get? (row.id, k))
    (hmessages : ∀ m, w.db.messages.get? row.id = some m → m.chatId = row'.chatId →
      w'.db.messages.get? row.id = some m) (hback : LiveBefore row.id w w') : Journal w' row' n := by
  have hid : row'.id = row.id := congrArg Verdict.id hverdict
  have hchat : row'.chatId = row.chatId := congrArg Verdict.chatId hverdict
  have hstatus : row'.status = row.status := congrArg Verdict.status hverdict
  have hreason : row'.reason = row.reason := congrArg Verdict.reason hverdict
  refine ⟨hid ▸ h.numbered.congr hevents, h.bound, fun k e he hfinish => ?_, fun hopen => ?_, fun hopen => ?_,
    fun hopen live' hlive' => ?_, fun live' hlive' hcreated => ?_⟩
  · rw [hid, hevents] at he
    obtain ⟨hk, htold⟩ := h.told k e he hfinish
    refine ⟨hk, hstatus ▸ htold.status, hstatus ▸ htold.kind, hreason.trans htold.reason, ?_⟩
    rw [hid, hchat]
    exact hmessages _ htold.summary hchat.symm
  · exact h.room (Unfinished.congr hevents (hid ▸ hopen))
  · rw [hstatus]
    exact h.ended (Unfinished.congr hevents (hid ▸ hopen))
  · rw [hid] at hlive' hopen
    obtain ⟨live, hlive, hsame, _⟩ := hback live' hlive'
    obtain ⟨hrunning, hrecorded⟩ := h.live (Unfinished.congr hevents hopen) live hlive
    refine ⟨hstatus.trans hrunning, hsame ▸ hrecorded.length, fun k hk => ?_⟩
    rw [hid, hevents, hsame]
    exact hrecorded.events k (hsame ▸ hk)
  · rw [hid] at hlive'
    obtain ⟨live, hlive, _, htask⟩ := hback live' hlive'
    rw [hstatus]
    exact h.created live hlive (htask hcreated)

theorem Journaled.kept_of (hw : Journaled w) (hlog : SameLog i w w') (hback : LiveBefore i w w') {row' : Run}
    (hrow' : w'.db.runs.get? i = some row') (hattended : Attended row') : ∃ n, Journal w' row' n := by
  obtain ⟨row, hrow, hattended', hverdict, hevents, hmessages⟩ := hlog row' hrow' hattended
  obtain ⟨n, hjournal⟩ := hw.journals i row hrow hattended'
  obtain rfl : row.id = i := Table.key_of_get? hrow
  exact ⟨n, hjournal.kept hverdict hevents hmessages hback⟩

/-- **A step that writes the log of the run `i`**: what has to be shown is that
this log is complete afterwards. -/
theorem Journaled.step (hw : Journaled w) (i : Nat) (hid : w.nextId ≤ w'.nextId)
    (hids : ∀ j k, (w'.db.runEvents.get? (j, k)).isSome → (w.db.runEvents.get? (j, k)).isSome ∨ j < w'.nextId)
    (hothers : ∀ j, j ≠ i → SameLog j w w' ∧ LiveBefore j w w')
    (hown : ∀ row', w'.db.runs.get? i = some row' → Attended row' → ∃ n, Journal w' row' n) : Journaled w' := by
  refine ⟨fun j k hk => ?_, fun j row' hrow' hattended => ?_⟩
  · rcases hids j k hk with hold | hnew
    · exact (hw.ids j k hold).trans_le hid
    · exact hnew
  · by_cases hj : j = i
    · exact hown row' (hj ▸ hrow') hattended
    · exact hw.kept_of (hothers j hj).1 (hothers j hj).2 hrow' hattended

/-- A step that writes no log. -/
theorem Journaled.untouched (hw : Journaled w) (hid : w.nextId ≤ w'.nextId)
    (hids : ∀ k, (w'.db.runEvents.get? k).isSome → (w.db.runEvents.get? k).isSome) (hlog : ∀ i, SameLog i w w')
    (hback : ∀ i, LiveBefore i w w') : Journaled w' := by
  refine ⟨fun i k hk => (hw.ids i k (hids (i, k) hk)).trans_le hid, fun i row' hrow' hattended => ?_⟩
  exact hw.kept_of (hlog i) (hback i) hrow' hattended

theorem Journaled.basic (hw : Journaled w) (h : Basic cfg w w') : Journaled w' :=
  hw.untouched (basic_shelf h).1.nextId (basic_events h) (basic_log h)
    fun i => liveBefore_of_progress (basic_progress h i)

/-- A quiet step belongs to no run. -/
theorem quiet_journaled (cfg : Config) (hw : Journaled w) (h : Quiet w w') (u : Option Nat) :
    Journaled w' ∧ Turn u w w' := by
  have hbasic : Basic cfg w w' := .quiet h
  exact ⟨hw.basic hbasic, basic_turn hbasic u⟩

/-- **A restart** keeps every log; what was running is interrupted. -/
theorem Journaled.restarted (hw : Journaled w) : Journaled w.restart := by
  refine ⟨hw.ids, fun i row' hrow' hattended => ?_⟩
  have hrow' : (w.db.runs.update (Run.abandon w.now) (Run.key_abandon w.now)).get? i = some row' := hrow'
  rw [Table.get?_update] at hrow'
  obtain ⟨row, hrow, rfl⟩ := Option.map_eq_some_iff.mp hrow'
  by_cases hrunning : row.status = .running
  · have habandon : row.abandon w.now = row.close .interrupted serverRestarted w.now := by
      unfold Run.abandon
      rw [if_pos hrunning]
    rw [habandon] at hattended ⊢
    obtain ⟨n, hjournal⟩ := hw.journals i row hrow ⟨fun hended => absurd hrunning hended, hattended.unarchived⟩
    have hopen := hjournal.unfinished hrunning
    refine ⟨n, hjournal.numbered, hjournal.bound, fun k e he hfinish => ?_, fun _ => hjournal.room hopen,
      fun _ => .inr rfl, (fun _ live hlive => by cases hlive), fun live hlive => by cases hlive⟩
    -- it had no terminal event
    have hnot := hopen k e he
    rw [hnot] at hfinish
    cases hfinish
  · have habandon : row.abandon w.now = row := by
      unfold Run.abandon
      rw [if_neg hrunning]
    rw [habandon] at hattended ⊢
    obtain ⟨n, hjournal⟩ := hw.journals i row hrow hattended
    exact ⟨n, hjournal.kept rfl (fun _ => rfl) (fun _ hm _ => hm) fun live hlive => by cases hlive⟩

theorem Deployed.journaled (h : Deployed w) : Journaled w := by
  refine ⟨fun i k hk => ?_, fun i row hrow => ?_⟩
  · rw [h.runEvents] at hk
    cases hk
  · rw [h.runs] at hrow
    cases hrow

end WebBuilder.Worker
