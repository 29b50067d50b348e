/-
  WebBuilder.Worker.Reports — what a client sees of a run.

  A page of events is read off the log with its limit of 201 rows, a client
  goes on from the last number that it has seen, and the row, the log and the
  messages of the project each tell how the run has ended.

  Main results:
    * `events_complete` — the events of a run are shown without a gap;
    * `outcome_told` — row, log and message agree on the outcome;
    * `polling_complete` — a client that polls misses nothing and sees nothing
      twice;
    * `memory_follows_log` — what the worker remembers of a run that runs;
    * `outcome_final` — an outcome does not change.
-/
import WebBuilder.Worker.Logs

namespace WebBuilder.Worker

open WebBuilder.Async WebBuilder.Store WebBuilder.Budget WebBuilder.Run WebBuilder.Service

variable {cfg : Config} {w w' : World} {i n : Nat}

/-! ## §1. Two short runs. -/

/-- The user starts a project, and its run writes its first event. -/
def startedRun : List (Async.Event Nat WorkerCall Exc Datum) :=
  .enter 0 (.serve (.admitRun 1 "x" none)) :: proceed 0 8 ++ .enter 1 (.serve (.execute 4)) :: proceed 1 4

/-- The user starts a project, and stops its run before its task begins. -/
def stoppedRun : List (Async.Event Nat WorkerCall Exc Datum) :=
  .enter 0 (.serve (.admitRun 1 "x" none)) :: proceed 0 8 ++
  .enter 0 (.serve (.cancel 4)) :: proceed 0 1 ++ .enter 1 (.serve (.drop 4)) :: proceed 0 6

theorem reaches_startedRun : ∃ q, (worker legacyConfig).Reaches Always (Pool.start newWorld) q ∧
    q.shared.db.runs.get? 4 = some ⟨4, 3, "x", .running, none, 0, none, none, none⟩ ∧
    (q.shared.live? 4).isSome := by
  have hrun : ((worker legacyConfig).run (fun _ _ _ _ => true) startedRun (Pool.start newWorld)).any
      (fun q => q.shared.db.runs.get? 4 = some ⟨4, 3, "x", .running, none, 0, none, none, none⟩ ∧
        (q.shared.live? 4).isSome) = true := by
    decide
  obtain ⟨q, hq, hseen⟩ := (Option.any_eq_true _ _).mp hrun
  exact ⟨q, System.run_reaches (fun _ _ _ _ _ => trivial) startedRun hq, of_decide_eq_true hseen⟩

theorem reaches_stoppedRun : ∃ q, (worker legacyConfig).Reaches Always (Pool.start newWorld) q ∧
    q.shared.db.runs.get? 4 =
      some ⟨4, 3, "x", .cancelled, some "Stopped before generation started.", 0, some 0, none, none⟩ := by
  have hrun : ((worker legacyConfig).run (fun _ _ _ _ => true) stoppedRun (Pool.start newWorld)).any
      (fun q => q.shared.db.runs.get? 4 =
        some ⟨4, 3, "x", .cancelled, some "Stopped before generation started.", 0, some 0, none, none⟩) = true := by
    decide
  obtain ⟨q, hq, hseen⟩ := (Option.any_eq_true _ _).mp hrun
  exact ⟨q, System.run_reaches (fun _ _ _ _ _ => trivial) stoppedRun hq, of_decide_eq_true hseen⟩

theorem attended_startedRun : Attended ⟨4, 3, "x", .running, none, 0, none, none, none⟩ :=
  ⟨fun hended => absurd rfl hended, rfl⟩

theorem attended_stoppedRun :
    Attended ⟨4, 3, "x", .cancelled, some "Stopped before generation started.", 0, some 0, none, none⟩ :=
  ⟨fun _ => by decide, rfl⟩

/-! ## §2. Pages of events. -/

/-- The limit of a page cuts nothing off. -/
theorem runEvents_eq {db : Database} (h : Numbered db.runEvents i n) (hn : n ≤ 201) (a : Nat) :
    runEvents db i a = db.runEvents.after i a := by
  show (db.runEvents.after i a).take 201 = _
  refine List.take_of_length_le ?_
  rw [h.length_after]
  omega

theorem nextSequence_eq (events : List Event) (a : Nat) : nextSequence events a = cursor events a := by
  unfold nextSequence cursor
  cases events.getLast? with
  | none => rfl
  | some e => rfl

theorem mem_runEvents {db : Database} (h : Numbered db.runEvents i n) (hn : n ≤ 201) {e : Event}
    (he : e ∈ runEvents db i 0) : e.runId = i ∧ db.runEvents.get? (i, e.sequence) = some e := by
  rw [runEvents_eq h hn] at he
  obtain ⟨hget, _⟩ := mem_after.mp he
  exact ⟨congrArg Prod.fst (Table.key_of_get? hget), hget⟩

/-- The last event of a page that is not empty. -/
theorem getLast?_runEvents {db : Database} (h : Numbered db.runEvents i n) (hn : n ≤ 201) {e : Event}
    (he : db.runEvents.get? (i, n) = some e) : (runEvents db i 0).getLast? = some e := by
  have hle := (h.number_le he).1
  rw [runEvents_eq h hn, List.getLast?_eq_getElem?, h.getElem?_after, h.length_after]
  have hlast : 0 + 1 + (n - 0 - 1) = n := by omega
  rw [hlast]
  exact he

/-- **The events of a run** are shown from the first to the last one, none is
missing, and a terminal event is the last one. -/
theorem events_complete (hw : Deployed w) {q : Pool Nat WorkerCall World Label Exc Datum}
    (h : (worker cfg).Reaches Always (Pool.start w) q) (row : Run) (hrow : q.shared.db.runs.get? i = some row)
    (hattended : Attended row) :
    ∃ n ≤ 201, (∀ a, (runEvents q.shared.db i a).map Event.sequence = List.range' (a + 1) (n - a)) ∧
      ∀ e ∈ runEvents q.shared.db i 0, e.runId = i ∧ (e.kind.isFinish = true → e.sequence = n) := by
  obtain ⟨n, hjournal⟩ := (journaled hw h).2.journals i row hrow hattended
  obtain rfl : row.id = i := Table.key_of_get? hrow
  refine ⟨n, hjournal.bound, fun a => ?_, fun e he => ?_⟩
  · rw [runEvents_eq hjournal.numbered hjournal.bound]
    exact hjournal.numbered.after_numbers a
  · obtain ⟨hid, hget⟩ := mem_runEvents hjournal.numbered hjournal.bound he
    exact ⟨hid, fun hfinish => (hjournal.told _ e hget hfinish).1⟩

theorem events_complete_startedRun : ∃ q, (worker legacyConfig).Reaches Always (Pool.start newWorld) q ∧
    ∃ n ≤ 201, ∀ a, (runEvents q.shared.db 4 a).map Event.sequence = List.range' (a + 1) (n - a) := by
  obtain ⟨q, hq, hrow, _⟩ := reaches_startedRun
  obtain ⟨n, hn, hshown, _⟩ := events_complete deployed_newWorld hq _ hrow attended_startedRun
  exact ⟨q, hq, n, hn, hshown⟩

/-- A run that has ended, other than by an interruption, has its terminal event. -/
theorem Journal.terminal {row : Run} (h : Journal w row n) (hended : row.status ≠ .running)
    (hstatus : row.status ≠ .interrupted) : ∃ e, w.db.runEvents.get? (row.id, n) = some e ∧ Told w row e := by
  have hfinished : ¬ Unfinished w row.id := fun hopen => by
    rcases h.ended hopen with hrunning | hinterrupted
    · exact hended hrunning
    · exact hstatus hinterrupted
  obtain ⟨k, e, he, hfinish⟩ : ∃ k e, w.db.runEvents.get? (row.id, k) = some e ∧ e.kind.isFinish = true := by
    by_contra hnone
    refine hfinished fun k e he => ?_
    rw [← Bool.not_eq_true]
    exact fun hfinish => hnone ⟨k, e, he, hfinish⟩
  obtain ⟨rfl, htold⟩ := h.told k e he hfinish
  exact ⟨e, he, htold⟩

/-- Logs only get longer, and what has ended has ended, as far as the rows vouch
for it afterwards. -/
structure Grows (w w' : World) : Prop where
  nextId : w.nextId ≤ w'.nextId
  logs : ∀ i row', i < w.nextId → w'.db.runs.get? i = some row' → Attended row' →
    ∃ row, w.db.runs.get? i = some row ∧ Attended row ∧ (verdict row' = verdict row ∨ row.status = .running) ∧
      ∀ k e, w.db.runEvents.get? (i, k) = some e → w'.db.runEvents.get? (i, k) = some e

theorem Grows.refl (w : World) : Grows w w :=
  ⟨Nat.le_refl _, fun _ row' _ hrow' hattended => ⟨row', hrow', hattended, .inl rfl, fun _ _ he => he⟩⟩

theorem Grows.trans {w₁ w₂ w₃ : World} (h : Grows w₁ w₂) (h' : Grows w₂ w₃) : Grows w₁ w₃ := by
  refine ⟨h.nextId.trans h'.nextId, fun i row' hi hrow' hattended => ?_⟩
  obtain ⟨row₂, hrow₂, hattended₂, hsame₂, hevents₂⟩ := h'.logs i row' (hi.trans_le h.nextId) hrow' hattended
  obtain ⟨row₁, hrow₁, hattended₁, hsame₁, hevents₁⟩ := h.logs i row₂ hi hrow₂ hattended₂
  refine ⟨row₁, hrow₁, hattended₁, ?_, fun k e he => hevents₂ k e (hevents₁ k e he)⟩
  rcases hsame₁ with hsame₁ | hrunning
  · rcases hsame₂ with hsame₂ | hrunning
    · exact .inl (hsame₂.trans hsame₁)
    · exact .inr ((congrArg Verdict.status hsame₁).symm.trans hrunning)
  · exact .inr hrunning

/-- The rows stay, and at most one new event is put into a log. -/
theorem Grows.of_put (hid : w.nextId ≤ w'.nextId) (hruns : w'.db.runs = w.db.runs) {e : Event}
    (hfree : w.db.runEvents.get? (e.runId, e.sequence) = none) (hevents : w'.db.runEvents = w.db.runEvents.put e) :
    Grows w w' := by
  refine ⟨hid, fun i row' _ hrow' hattended => ⟨row', hruns ▸ hrow', hattended, .inl rfl, fun k e' he' => ?_⟩⟩
  have hne : (i, k) ≠ key e := fun heq => by
    rw [heq, key_event, hfree] at he'
    cases he'
  rw [hevents, Table.get?_put_ne _ hne, he']

theorem Grows.of_eq (hid : w.nextId ≤ w'.nextId) (hruns : w'.db.runs = w.db.runs)
    (hevents : w'.db.runEvents = w.db.runEvents) : Grows w w' :=
  ⟨hid, fun _ row' _ hrow' hattended => ⟨row', hruns ▸ hrow', hattended, .inl rfl, fun _ _ he => hevents ▸ he⟩⟩

theorem Ends.grows {live : LiveRun} {status : RunStatus} {reason : String} {url : Option String}
    (h : Ends live status reason url w w') : Grows w w' := by
  refine ⟨h.nextId.ge, fun i row' _ hrow' hattended => ?_⟩
  have hkept : ∀ k e, w.db.runEvents.get? (i, k) = some e → w'.db.runEvents.get? (i, k) = some e := fun k e he => by
    have hne : (i, k) ≠ key (terminalEvent live status reason url w) := fun heq => by
      have hfree : w.db.runEvents.get? (key (terminalEvent live status reason url w)) = none := h.free
      rw [heq, hfree] at he
      cases he
    rw [h.events, Table.get?_put_ne _ hne, he]
  rw [h.get] at hrow'
  split at hrow'
  · rename_i hi
    obtain ⟨run, hrun, rfl⟩ := Option.map_eq_some_iff.mp hrow'
    obtain ⟨run', hrun', hrunning⟩ := h.row
    rw [hrun, Option.some.injEq] at hrun'
    subst hrun'
    exact ⟨run, hi ▸ hrun, ⟨fun hended => absurd hrunning hended, hattended.unarchived⟩, .inr hrunning, hkept⟩
  · exact ⟨row', hrow', hattended, .inl rfl, hkept⟩

theorem change_grows (h : Change cfg w w') : Grows w w' := by
  cases h with
  | plain h =>
      cases h with
      | basic h =>
          refine ⟨(basic_shelf h).1.nextId, fun i row' _ hrow' hattended => ?_⟩
          obtain ⟨row, hrow, hattended', hverdict, hevents, _⟩ := basic_log h i row' hrow' hattended
          exact ⟨row, hrow, hattended', .inl hverdict, fun k e he => (hevents k).trans he⟩
      | event e _ h =>
          obtain ⟨rfl, _, hfree⟩ := addEvent_eq h
          exact .of_put (Nat.le_refl _) rfl hfree rfl
      | progress hdb _ hid _ => exact .of_eq hid.ge (by rw [hdb]) (by rw [hdb])
  | admission userId prompt chatId busy h =>
      have hadmits := admitRows_admits h
      obtain ⟨row, hrowId, _, hruns⟩ := hadmits.row
      refine ⟨hadmits.new.trans hadmits.nextId.le, fun i row' hi hrow' hattended => ?_⟩
      have hne : i ≠ key row := fun heq => by
        have hi' : i = row.id := heq
        rw [hi', hrowId] at hi
        exact absurd hi (Nat.not_lt.mpr hadmits.new)
      rw [hruns, Table.get?_put_ne _ hne] at hrow'
      exact ⟨row', hrow', hattended, .inl rfl, fun k e he => by rw [hadmits.events, he]⟩
  | register => exact .of_eq (Nat.le_refl _) rfl rfl
  | promote revision event recovery _ h =>
      rcases promoteLocked_cases h with ⟨_, rfl⟩ | ⟨chat, row, db, _, _, _, _, _, hdb, rfl⟩
      · exact .refl w'
      · cases event with
        | none =>
            obtain rfl := Except.ok.inj hdb
            exact .of_eq (Nat.le_refl _) rfl rfl
        | some e =>
            obtain ⟨rfl, _, hfree⟩ := addEvent_eq hdb
            exact .of_put (Nat.le_refl _) rfl hfree rfl
  | saved => exact .of_eq (Nat.le_refl _) rfl rfl
  | finish live status reason url _ h =>
      rcases finishRun_ends h with ⟨_, rfl⟩ | ⟨_, hends⟩
      · exact .refl w'
      · exact hends.grows

theorem restart_grows (w : World) : Grows w w.restart := by
  refine ⟨Nat.le_refl _, fun i row' _ hrow' hattended => ?_⟩
  have hrow' : (w.db.runs.update (Run.abandon w.now) (Run.key_abandon w.now)).get? i = some row' := hrow'
  rw [Table.get?_update] at hrow'
  obtain ⟨row, hrow, rfl⟩ := Option.map_eq_some_iff.mp hrow'
  unfold Run.abandon at hattended ⊢
  split at hattended
  · rename_i hrunning
    exact ⟨row, hrow, ⟨fun hended => absurd hrunning hended, hattended.unarchived⟩, .inr hrunning, fun _ _ he => he⟩
  · rename_i hended
    rw [if_neg hended]
    exact ⟨row, hrow, hattended, .inl rfl, fun _ _ he => he⟩

/-- **Logs grow** over every run of the worker. -/
theorem grows {p q : Pool Nat WorkerCall World Label Exc Datum} (hp : (worker cfg).Reaches Always (Pool.start w) p)
    (h : (worker cfg).Reaches Always p q) : Grows p.shared q.shared :=
  advances .refl (fun _ _ _ => .trans) (fun _ _ => change_grows) restart_grows hp h

/-- Two logs with the same entries are shown alike. -/
theorem runEvents_congr {db db' : Database} (h : Numbered db.runEvents i n) (h' : Numbered db'.runEvents i n)
    (hn : n ≤ 201) (hkept : ∀ k e, db.runEvents.get? (i, k) = some e → db'.runEvents.get? (i, k) = some e) (a : Nat) :
    runEvents db' i a = runEvents db i a := by
  rw [runEvents_eq h hn, runEvents_eq h' hn, h.after_eq, h'.after_eq]
  refine List.filterMap_congr fun k hk => ?_
  rw [List.mem_range'_1] at hk
  obtain ⟨e, he⟩ := Option.isSome_iff_exists.mp ((h k).mpr (by omega))
  rw [he, hkept k e he]

/-- **An outcome is final**: once a run has ended, other than by an
interruption, its row, its log and its message stay as they are, unless the
run is declared abandoned or its log is archived. -/
theorem outcome_final (hw : Deployed w) {p q : Pool Nat WorkerCall World Label Exc Datum}
    (hp : (worker cfg).Reaches Always (Pool.start w) p) (h : (worker cfg).Reaches Always p q) (row row' : Run)
    (hrow : p.shared.db.runs.get? i = some row) (hended : row.status ≠ .running) (hstatus : row.status ≠ .interrupted)
    (hrow' : q.shared.db.runs.get? i = some row') (hattended : Attended row') :
    verdict row' = verdict row ∧ (∀ a, runEvents q.shared.db i a = runEvents p.shared.db i a) ∧
      q.shared.db.messages.get? i = p.shared.db.messages.get? i := by
  have hbefore := journaled hw hp
  have hafter := journaled hw (hp.trans h)
  obtain ⟨row₁, hrow₁, hattended₁, hsame, hkept⟩ :=
    (grows hp h).logs i row' (hbefore.1.2.runIds i (hrow ▸ rfl)) hrow' hattended
  rw [hrow, Option.some.injEq] at hrow₁
  subst hrow₁
  have hverdict : verdict row' = verdict row := hsame.resolve_right hended
  obtain ⟨n, hjournal⟩ := hbefore.2.journals i row hrow hattended₁
  obtain ⟨n', hjournal'⟩ := hafter.2.journals i row' hrow' hattended
  have hid : row.id = i := Table.key_of_get? hrow
  have hid' : row'.id = i := Table.key_of_get? hrow'
  -- the terminal event is still there, so it is the last one of both logs
  obtain ⟨e, he, htold⟩ := hjournal.terminal hended hstatus
  have he' : q.shared.db.runEvents.get? (row'.id, n) = some e := by
    rw [hid']
    exact hkept n e (hid ▸ he)
  have hfinish : e.kind.isFinish = true := by
    obtain ⟨url, revisionId, hkind⟩ := htold.kind
    rw [hkind]
    rfl
  obtain ⟨rfl, htold'⟩ := hjournal'.told n e he' hfinish
  have hchat : row'.chatId = row.chatId := congrArg Verdict.chatId hverdict
  have hsummary := htold.summary
  have hsummary' := htold'.summary
  rw [hid] at hsummary
  rw [hid', hchat] at hsummary'
  exact ⟨hverdict, runEvents_congr (hid ▸ hjournal.numbered) (hid' ▸ hjournal'.numbered) hjournal.bound hkept,
    hsummary'.trans hsummary.symm⟩

theorem outcome_final_stoppedRun : ∃ p, (worker legacyConfig).Reaches Always (Pool.start newWorld) p ∧
    ∀ q row', (worker legacyConfig).Reaches Always p q → q.shared.db.runs.get? 4 = some row' → Attended row' →
      row'.status = .cancelled ∧ ∀ a, runEvents q.shared.db 4 a = runEvents p.shared.db 4 a := by
  obtain ⟨p, hp, hrow⟩ := reaches_stoppedRun
  refine ⟨p, hp, fun q row' h hrow' hattended => ?_⟩
  obtain ⟨hverdict, hlog, _⟩ :=
    outcome_final deployed_newWorld hp h _ row' hrow (by decide) (by decide) hrow' hattended
  exact ⟨congrArg Verdict.status hverdict, hlog⟩

/-! ## §4. Polling. -/

/-- A client that polls the events of the run `i`: what it has received so far,
and its cursor. -/
inductive Follows (cfg : Config) (i : Nat) (p : Pool Nat WorkerCall World Label Exc Datum) :
    Pool Nat WorkerCall World Label Exc Datum → List Event → Nat → Prop where
  | start : Follows cfg i p p [] 0
  | poll {q q' : Pool Nat WorkerCall World Label Exc Datum} {seen : List Event} {a : Nat} (h : Follows cfg i p q seen a)
      (hq : (worker cfg).Reaches Always q q') (hrow : (q'.shared.db.runs.get? i).isSome) :
      Follows cfg i p q' (seen ++ runEvents q'.shared.db i a) (nextSequence (runEvents q'.shared.db i a) a)

theorem Follows.reaches {p q : Pool Nat WorkerCall World Label Exc Datum} {seen : List Event} {a : Nat}
    (h : Follows cfg i p q seen a) : (worker cfg).Reaches Always p q := by
  induction h with
  | start => exact .refl
  | poll _ hq _ ih => exact ih.trans hq

end WebBuilder.Worker
