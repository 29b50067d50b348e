/-
  WebBuilder.Worker.Writers — what the writer of a log knows, and what it does.

  Between two awaits of the task that writes a log all other tasks move, but
  none of them writes it: whatever the task knows of the log, of its live run
  and of its row lasts (`Lasting`).  With that, each of its steps is looked at
  once: the events that it posts and then remembers, the checkpoints, and the
  terminal event.

  Main results:
    * `lasting_working`, `lasting_posted`, `lasting_mine` — what lasts;
    * `Journaled.posted`, `Journaled.ended`, `Journaled.lived` — the steps of a
      writer keep every log complete.
-/
import WebBuilder.Worker.Journal

namespace WebBuilder.Worker

open WebBuilder.Async WebBuilder.Store WebBuilder.Budget WebBuilder.Run WebBuilder.Service

variable {α β : Type} {cfg : Config} {t i j c v n : Nat} {w w' : World}

/-! ## §1. What lasts. -/

/-- The context of the task `t`, on top of what is settled. -/
abbrev writing (cfg : Config) (t : Nat) : Guard World Label Exc Datum := (settled cfg).above Journaled Turn t

/-- An assertion that no step of another task, or of nobody, can break. -/
def Lasting (cfg : Config) (t : Nat) (A : World → Prop) : Prop :=
  ∀ u w w', u ≠ some t → (settled cfg).inv w → (settled cfg).inv w' → Change cfg w w' → Turn u w w' → A w → A w'

theorem Lasting.stable {A : World → Prop} (hA : Lasting cfg t A) : (writing cfg t).Stable A := by
  rintro w w' _ _ ⟨hd, hd', u, hu, hguar, hturn⟩ ha
  exact hA u w w' hu hd hd' hguar.2 hturn ha

theorem lasting_true : Lasting cfg t fun _ => True := fun _ _ _ _ _ _ _ _ _ => trivial

theorem Lasting.and {A B : World → Prop} (hA : Lasting cfg t A) (hB : Lasting cfg t B) :
    Lasting cfg t fun w => A w ∧ B w :=
  fun u w w' hu hd hd' hc hturn h => ⟨hA u w w' hu hd hd' hc hturn h.1, hB u w w' hu hd hd' hc hturn h.2⟩

/-- What every task knows of checkpoints lasts. -/
theorem Lasting.of_tasks {A : World → Prop} (hA : (tasks cfg).Stable A) : Lasting cfg t A :=
  fun _ w w' _ hd hd' hc _ ha => hA w w' hd.2 hd'.2 hc ha

/-- The task itself makes steps that belong to no run. -/
theorem Lasting.own {A : World → Prop} (hA : Lasting cfg t A) (hd : (settled cfg).inv w) (hd' : (settled cfg).inv w')
    (hc : Change cfg w w') (hturn : Turn none w w') (ha : A w) : A w' :=
  hA none w w' (fun h => by cases h) hd hd' hc hturn ha

/-- The task `t` may write the log of the run `i`. -/
def Owner (t i : Nat) (w : World) : Prop := ∃ live, w.live? i = some live ∧ LiveRun.writer live = some t

theorem Owner.writes (h : Owner t i w) : Writes (some t) i w := by
  obtain ⟨live, hlive, hwriter⟩ := h
  exact ⟨t, live, rfl, hlive, hwriter⟩

theorem Owner.lt (h : Owner t i w) (hd : (settled cfg).inv w) : i < w.nextId := by
  obtain ⟨live, hlive, _⟩ := h
  exact hd.1.runIds i (hlive ▸ rfl)

/-- Others leave the run of the writer alone. -/
theorem Owner.untouched {u : Option Nat} (h : Owner t i w) (hu : u ≠ some t) (hd : (settled cfg).inv w)
    (hturn : Turn u w w') : Untouched i w w' := by
  refine hturn.others i (h.lt hd) fun hwrites => hu ?_
  obtain ⟨live, hlive, hwriter⟩ := h
  obtain ⟨t', live', hu', hlive', hwriter'⟩ := hwrites
  rw [hlive, Option.some.injEq] at hlive'
  rw [hu', ← hwriter', ← hlive', hwriter]

theorem lasting_owner : Lasting cfg t (Owner t i) := by
  intro u w w' hu hd _ _ hturn howner
  have huntouched := howner.untouched hu hd hturn
  obtain ⟨live, hlive, hwriter⟩ := howner
  obtain ⟨live', hlive', _, htask⟩ := huntouched.live live hlive
  refine ⟨live', hlive', ?_⟩
  unfold LiveRun.writer at hwriter ⊢
  rcases htask with htask | hcreated
  · rw [htask]
    cases hstate : live.task with
    | created =>
        rw [hstate] at hwriter
        cases hwriter
    | running s =>
        rw [hstate] at hwriter
        exact hwriter
    | done =>
        -- the request that cancels the run stays the one
        rw [hstate] at hwriter
        obtain ⟨live'', hlive'', hcancelling⟩ := hturn.cancelling i live t hlive hwriter
        rw [hlive', Option.some.injEq] at hlive''
        rw [hlive'']
        exact hcancelling
  · rw [hcreated] at hwriter
    cases hwriter

/-- The task `t` works on the run `i`, which has not ended. -/
structure Working (t i : Nat) (w : World) : Prop where
  live : ∃ live, w.live? i = some live ∧ live.task = .running t
  running : ∀ row, w.db.runs.get? i = some row → Attended row → row.status = .running

theorem Working.owner (h : Working t i w) : Owner t i w := by
  obtain ⟨live, hlive, htask⟩ := h.live
  refine ⟨live, hlive, ?_⟩
  unfold LiveRun.writer
  rw [htask]

theorem Working.step (h : Working t i w) (hlog : SameLog i w w')
    (hlive : ∀ live, w.live? i = some live → ∃ live', w'.live? i = some live' ∧
      (live'.task = live.task ∨ live.task = .created)) : Working t i w' := by
  obtain ⟨live, hbefore, htask⟩ := h.live
  obtain ⟨live', hlive', hsame⟩ := hlive live hbefore
  refine ⟨⟨live', hlive', ?_⟩, fun row' hrow' hattended => ?_⟩
  · rcases hsame with hsame | hcreated
    · exact hsame.trans htask
    · rw [htask] at hcreated
      cases hcreated
  · obtain ⟨row, hrow, hattended', hverdict, _⟩ := hlog row' hrow' hattended
    exact (congrArg Verdict.status hverdict).trans (h.running row hrow hattended')

theorem Working.untouched (h : Working t i w) (huntouched : Untouched i w w') : Working t i w' := by
  refine h.step huntouched.log fun live hlive => ?_
  obtain ⟨live', hlive', _, htask⟩ := huntouched.live live hlive
  exact ⟨live', hlive', htask⟩

theorem lasting_working : Lasting cfg t (Working t i) :=
  fun _ _ _ hu hd _ _ hturn h => h.untouched (h.owner.untouched hu hd hturn)

/-- The worker remembers such events of the run `i`. -/
def Recalls (i : Nat) (F : List Event → Prop) (w : World) : Prop := ∀ live, w.live? i = some live → F live.events

/-- What the writer of a log remembers of it. -/
theorem lasting_recalls (F : List Event → Prop) : Lasting cfg t fun w => Working t i w ∧ Recalls i F w := by
  intro u w w' hu hd hd' hc hturn h
  refine ⟨lasting_working u w w' hu hd hd' hc hturn h.1, fun live' hlive' => ?_⟩
  obtain ⟨live, hlive, _⟩ := h.1.live
  obtain ⟨live'', hlive'', hevents, _⟩ := (h.1.owner.untouched hu hd hturn).live live hlive
  rw [hlive', Option.some.injEq] at hlive''
  rw [hlive'', hevents]
  exact h.2 live hlive

/-- The event is in the log, if the row of the run vouches for it. -/
def Posted (e : Event) (w : World) : Prop :=
  ∀ row, w.db.runs.get? e.runId = some row → Attended row → w.db.runEvents.get? (e.runId, e.sequence) = some e

theorem Posted.same {e : Event} (h : Posted e w) (hlog : SameLog e.runId w w') : Posted e w' := by
  intro row' hrow' hattended
  obtain ⟨row, hrow, hattended', _, hevents, _⟩ := hlog row' hrow' hattended
  rw [hevents]
  exact h row hrow hattended'

theorem lasting_posted (e : Event) : Lasting cfg t fun w => Working t e.runId w ∧ Posted e w :=
  fun u w w' hu hd hd' hc hturn h =>
    ⟨lasting_working u w w' hu hd hd' hc hturn h.1, h.2.same (h.1.owner.untouched hu hd hturn).log⟩

/-- The row of the run `i` does not vouch for its log. -/
def Unattended (i : Nat) (w : World) : Prop := ∀ row, w.db.runs.get? i = some row → ¬ Attended row

/-- The run `i` has ended, as far as its row vouches for its log. -/
def Shut (i : Nat) (w : World) : Prop := ∀ row, w.db.runs.get? i = some row → Attended row → row.status ≠ .running

theorem Shut.same (h : Shut i w) (hlog : SameLog i w w') : Shut i w' := by
  intro row' hrow' hattended
  obtain ⟨row, hrow, hattended', hverdict, _⟩ := hlog row' hrow' hattended
  have hstatus : row'.status = row.status := congrArg Verdict.status hverdict
  rw [hstatus]
  exact h row hrow hattended'

theorem lasting_shut : Lasting cfg t fun w => Owner t i w ∧ Shut i w :=
  fun u w w' hu hd hd' hc hturn h =>
    ⟨lasting_owner u w w' hu hd hd' hc hturn h.1, h.2.same (h.1.untouched hu hd hturn).log⟩

/-- The revision `v` is old enough, and its row says which run has saved it. -/
def SavedBy (v : Nat) (owner : Option Nat) (w : World) : Prop :=
  v < w.nextId ∧ ∀ r, w.db.revisions.get? v = some r → r.runId = owner

theorem lasting_savedBy {owner : Option Nat} : Lasting cfg t (SavedBy v owner) := by
  intro _ w w' _ _ _ hc _ h
  refine ⟨h.1.trans_le (change_shelf hc).nextId, fun r' hr' => ?_⟩
  obtain ⟨r, hr, hsame⟩ := (change_shelf hc).revisions h.1 hr'
  rw [show r'.runId = r.runId by rw [hsame]]
  exact h.2 r hr

/-- The revision `v` is a checkpoint of the run `i` of the project `c`, and
nobody but the run makes it ready while the run is attended. -/
structure Mine (t i c v : Nat) (w : World) : Prop where
  working : Working t i w
  chat : OfChat i c w
  savedBy : SavedBy v (some i) w
  revision : RevisionOf v c w
  pending : ∀ r, w.db.revisions.get? v = some r → r.status = .ready → Unattended i w

theorem Unattended.same (h : Unattended i w) (hlog : SameLog i w w') : Unattended i w' := by
  intro row' hrow' hattended
  obtain ⟨row, hrow, hattended', _⟩ := hlog row' hrow' hattended
  exact h row hrow hattended'

/-- A run that is attended, and worked on, keeps its project busy. -/
theorem Working.unattended (h : Working t i w) (hchat : OfChat i c w) (hidle : w.db.hasRunning c = false) :
    Unattended i w := by
  intro row hrow hattended
  have hon : RunOn w i c := ⟨row, hrow, hchat.2 row hrow, h.running row hrow hattended⟩
  rw [hon.hasRunning] at hidle
  cases hidle

theorem lasting_mine : Lasting cfg t (Mine t i c v) := by
  intro u w w' hu hd hd' hc hturn h
  have huntouched := h.working.owner.untouched hu hd hturn
  have hworking' := h.working.untouched huntouched
  have hchat' := Lasting.of_tasks stable_ofChat u w w' hu hd hd' hc hturn h.chat
  have hsaved' := lasting_savedBy u w w' hu hd hd' hc hturn h.savedBy
  have hrevision' := Lasting.of_tasks stable_revisionOf u w w' hu hd hd' hc hturn h.revision
  refine ⟨hworking', hchat', hsaved', hrevision', fun r' hr' hready => ?_⟩
  rcases huntouched.ready v r' hr' (hsaved'.2 r' hr') hready with ⟨r, hr, hwas⟩ | hidle
  · exact (h.pending r hr hwas).same huntouched.log
  · rw [hrevision'.2 r' hr'] at hidle
    exact hworking'.unattended hchat' hidle

/-- The request `t` cancels the run `i`. -/
def Asked (t i : Nat) (w : World) : Prop := ∃ live, w.live? i = some live ∧ live.cancelling = some t

theorem lasting_asked : Lasting cfg t (Asked t i) := by
  rintro u w w' _ _ _ _ hturn ⟨live, hlive, hcancelling⟩
  exact hturn.cancelling i live t hlive hcancelling

/-! ## §2. Steps of a writer. -/

/-- The step puts an event into a log, and touches no row of a run. -/
structure Posts (e : Event) (w w' : World) : Prop where
  nextId : w'.nextId = w.nextId
  runs : w'.db.runs = w.db.runs
  messages : w'.db.messages = w.db.messages
  free : w.db.runEvents.get? (e.runId, e.sequence) = none
  events : w'.db.runEvents = w.db.runEvents.put e
  lives : w'.mem.runs = w.mem.runs

/-- The event takes the number after what the worker remembers of the run `i`. -/
abbrev Next (i : Nat) (e : Event) : World → Prop := Recalls i fun es => e.sequence = es.length + 1

/-- An event that the run `i` may post while it works. -/
structure Draft (i : Nat) (e : Event) : Prop where
  runId : e.runId = i
  bound : e.sequence ≤ 200
  kind : e.kind.isFinish = false

/-- An event of one run is none of another. -/
theorem get?_put_event (t : Table Event) {e : Event} (h : j ≠ e.runId) (k : Nat) :
    (t.put e).get? (j, k) = t.get? (j, k) :=
  Table.get?_put_ne t fun heq => h (congrArg Prod.fst heq)

theorem Posts.sameLog {e : Event} (h : Posts e w w') (hj : j ≠ e.runId) : SameLog j w w' := by
  intro row' hrow' hattended
  rw [h.runs] at hrow'
  refine ⟨row', hrow', hattended, rfl, fun k => ?_, fun m hm _ => ?_⟩
  · rw [h.events]
    exact get?_put_event _ hj k
  · rw [h.messages]
    exact hm

theorem Posts.live {e : Event} (h : Posts e w w') (j : Nat) : w'.live? j = w.live? j := by
  unfold World.live?
  rw [h.lives]

/-- A live run stays as it is. -/
theorem LiveBefore.of_eq (h : w'.live? j = w.live? j) : LiveBefore j w w' :=
  fun live' hlive' => ⟨live', h ▸ hlive', rfl, fun h => h⟩

theorem Untouched.of_live (hlog : SameLog j w w') (hlive : w'.live? j = w.live? j)
    (hready : ∀ v r', w'.db.revisions.get? v = some r' → r'.runId = some j → r'.status = .ready →
      (∃ r, w.db.revisions.get? v = some r ∧ r.status = .ready) ∨ w'.db.hasRunning r'.chatId = false) :
    Untouched j w w' :=
  ⟨hlog, fun live h => ⟨live, hlive ▸ h, rfl, .inl rfl⟩, hready⟩

theorem KeepsCancelling.of_eq (h : w'.mem.runs = w.mem.runs) : KeepsCancelling w w' := by
  intro i live t hlive ht
  refine ⟨live, ?_, ht⟩
  unfold World.live?
  rw [h]
  exact hlive

/-- The worker goes on with the run, which has not ended. -/
theorem Posts.working {e : Event} (h : Posts e w w') (hw : Working t i w) : Working t i w' := by
  obtain ⟨live, hlive, htask⟩ := hw.live
  refine ⟨⟨live, (h.live i).trans hlive, htask⟩, fun row hrow hattended => ?_⟩
  exact hw.running row (h.runs ▸ hrow) hattended

theorem Posts.recalls {e : Event} {F : List Event → Prop} (h : Posts e w w') (hF : Recalls i F w) : Recalls i F w' :=
  fun live hlive => hF live ((h.live i).symm.trans hlive)

theorem Posts.posted {e : Event} (h : Posts e w w') : Posted e w' := by
  intro row _ _
  rw [h.events]
  exact Table.get?_put_self _ e

/-- **The next event** of a run that goes on. -/
theorem Journaled.posted {e : Event} (hw : Journaled w) (h : Posts e w w') (hworking : Working t i w)
    (hd : (settled cfg).inv w) (hdraft : Draft i e) (hnext : Next i e w) :
    Journaled w' := by
  obtain rfl := hdraft.runId
  refine hw.step e.runId h.nextId.ge (fun j k hk => ?_) (fun j hj => ⟨h.sameLog hj, .of_eq (h.live j)⟩)
    fun row hrow hattended => ?_
  · by_cases hj : j = e.runId
    · exact .inr (hj ▸ h.nextId ▸ hworking.owner.lt hd)
    · rw [h.events, get?_put_event _ hj] at hk
      exact .inl hk
  · rw [h.runs] at hrow
    have hid : row.id = e.runId := Table.key_of_get? hrow
    have hrunning := hworking.running row hrow hattended
    obtain ⟨n, hjournal⟩ := hw.journals _ row hrow hattended
    obtain ⟨live, hlive, _⟩ := hworking.live
    have hopen := hjournal.unfinished hrunning
    have hnumber := hnext live hlive
    obtain ⟨hlength, hrecorded⟩ := (hjournal.live hopen live (hid ▸ hlive)).2
    have hnumbered := hjournal.numbered
    rw [hid] at hnumbered hrecorded hopen
    -- the number is free, so it is the next one
    have hsequence : e.sequence = n + 1 := hnumbered.next h.free (by omega) (by omega)
    have hold : ∀ k, k ≠ n + 1 → w'.db.runEvents.get? (e.runId, k) = w.db.runEvents.get? (e.runId, k) := fun k hk => by
      rw [h.events]
      refine Table.get?_put_ne _ fun heq => hk ?_
      have hk' : k = e.sequence := congrArg Prod.snd heq
      rw [hk', hsequence]
    have hself : w'.db.runEvents.get? (e.runId, n + 1) = some e := by
      rw [h.events, ← hsequence]
      exact Table.get?_put_self _ e
    have hopen' : Unfinished w' e.runId := fun k e' he' => by
      by_cases hk : k = n + 1
      · subst hk
        rw [hself, Option.some.injEq] at he'
        exact he' ▸ hdraft.kind
      · rw [hold k hk] at he'
        exact hopen k e' he'
    have hbound := hdraft.bound
    refine ⟨n + 1, ?_, by omega, fun k e' he' hfinish => ?_, fun _ => by omega, fun _ => .inl hrunning,
      fun _ live' hlive' => ⟨hrunning, ?_, fun k hk => ?_⟩, fun _ _ _ => hrunning⟩
    · rw [hid, h.events]
      exact hnumbered.put (by rw [key_event, hsequence])
    · rw [hid] at he'
      have hnot := hopen' k e' he'
      rw [hnot] at hfinish
      cases hfinish
    · rw [h.live, hid, hlive, Option.some.injEq] at hlive'
      subst hlive'
      omega
    · rw [h.live, hid, hlive, Option.some.injEq] at hlive'
      subst hlive'
      rw [hid, hold (k + 1) (by omega)]
      exact hrecorded k hk

/-- Only the live run `i` changes. -/
structure Lives (i : Nat) (f : LiveRun → LiveRun) (w w' : World) : Prop where
  db : w'.db = w.db
  nextId : w'.nextId = w.nextId
  runs : w'.mem.runs = w.mem.runs.modify i f
  ids : ∀ live, (f live).id = live.id

theorem lives_modifyLive (w : World) (i : Nat) {f : LiveRun → LiveRun} (hf : ∀ live, (f live).id = live.id) :
    Lives i f w (w.modifyLive i f) := ⟨rfl, rfl, rfl, hf⟩

section Lives

variable {f : LiveRun → LiveRun}

theorem Lives.get (h : Lives i f w w') (j : Nat) :
    w'.live? j = if j = i then (w.live? i).map f else w.live? j := by
  show w'.mem.runs.get? j = _
  rw [h.runs]
  exact Table.get?_modify _ _ _ h.ids j

theorem Lives.self (h : Lives i f w w') : w'.live? i = (w.live? i).map f := by
  rw [h.get, if_pos rfl]

theorem Lives.other (h : Lives i f w w') (hj : j ≠ i) : w'.live? j = w.live? j := by
  rw [h.get, if_neg hj]

theorem Lives.sameLog (h : Lives i f w w') (j : Nat) : SameLog j w w' :=
  .of_eq (by rw [h.db]) (by rw [h.db]) (by rw [h.db]) j

theorem Lives.ready (h : Lives i f w w') (v : Nat) (r' : ProjectRevision) (hr' : w'.db.revisions.get? v = some r')
    (hready : r'.status = .ready) :
    (∃ r, w.db.revisions.get? v = some r ∧ r.status = .ready) ∨ w'.db.hasRunning r'.chatId = false :=
  .inl ⟨r', h.db ▸ hr', hready⟩

theorem Lives.untouched (h : Lives i f w w') (hj : j ≠ i) : Untouched j w w' :=
  .of_live (h.sameLog j) (h.other hj) fun v r' hr' _ hready => h.ready v r' hr' hready

theorem Lives.keepsCancelling (h : Lives i f w w')
    (hf : ∀ live t, w.live? i = some live → live.cancelling = some t → (f live).cancelling = some t) : KeepsCancelling w w' := by
  intro j live t hlive ht
  rw [h.get]
  by_cases hj : j = i
  · subst hj
    rw [if_pos rfl, hlive]
    exact ⟨f live, rfl, hf live t hlive ht⟩
  · rw [if_neg hj]
    exact ⟨live, hlive, ht⟩

/-- The step is one of the writer. -/
theorem Lives.turn (h : Lives i f w w') (howner : Owner t i w)
    (hf : ∀ live t, w.live? i = some live → live.cancelling = some t → (f live).cancelling = some t) : Turn (some t) w w' :=
  .of_writer howner.writes (fun _ hj => h.untouched hj) (h.keepsCancelling hf)

/-- The step writes nothing of the run. -/
theorem Lives.turn_free (h : Lives i f w w') (hevents : ∀ live, (f live).events = live.events)
    (htask : ∀ live, w.live? i = some live → (f live).task = live.task ∨ live.task = .created)
    (hf : ∀ live t, w.live? i = some live → live.cancelling = some t → (f live).cancelling = some t) (u : Option Nat) : Turn u w w' := by
  refine .of_untouched (fun j => ?_) (h.keepsCancelling hf) u
  by_cases hj : j = i
  · subst hj
    refine ⟨h.sameLog j, fun live hlive => ⟨f live, ?_, hevents live, htask live hlive⟩,
      fun v r' hr' _ hready => h.ready v r' hr' hready⟩
    rw [h.self, hlive]
    rfl
  · exact h.untouched hj

theorem Lives.working (h : Lives i f w w') (hw : Working t i w) (htask : ∀ live, (f live).task = live.task) :
    Working t i w' := by
  refine hw.step (h.sameLog i) fun live hlive => ⟨f live, ?_, .inl (htask live)⟩
  rw [h.self, hlive]
  rfl

theorem Lives.owner (h : Lives i f w w') (hw : Owner t i w) (htask : ∀ live, (f live).task = live.task)
    (hcancelling : ∀ live, (f live).cancelling = live.cancelling) : Owner t i w' := by
  obtain ⟨live, hlive, hwriter⟩ := hw
  refine ⟨f live, ?_, ?_⟩
  · rw [h.self, hlive]
    rfl
  · unfold LiveRun.writer
    rw [htask, hcancelling]
    exact hwriter

/-- **What the worker remembers of a run**: it has to agree with the log while
there is no terminal event. -/
theorem Journaled.lived (hw : Journaled w) (h : Lives i f w w')
    (hrecorded : ∀ live row n, w.live? i = some live → w.db.runs.get? i = some row → Attended row →
      Journal w row n → Unfinished w i → Recorded w i n (f live))
    (hcreated : ∀ live, w.live? i = some live → (f live).task = .created → live.task = .created) : Journaled w' := by
  refine hw.step i h.nextId.ge (fun j k hk => .inl (h.db ▸ hk))
    (fun j hj => ⟨h.sameLog j, .of_eq (h.other hj)⟩) fun row hrow hattended => ?_
  rw [h.db] at hrow
  obtain ⟨n, hjournal⟩ := hw.journals i row hrow hattended
  obtain rfl : row.id = i := Table.key_of_get? hrow
  have hsame : ∀ k, w'.db.runEvents.get? (row.id, k) = w.db.runEvents.get? (row.id, k) := fun k => by rw [h.db]
  have hback : ∀ live', w'.live? row.id = some live' → ∃ live, w.live? row.id = some live ∧ f live = live' :=
    fun live' hlive' => Option.map_eq_some_iff.mp (h.self.symm.trans hlive')
  refine ⟨n, hjournal.numbered.congr hsame, hjournal.bound, fun k e he hfinish => ?_,
    fun hopen => hjournal.room (Unfinished.congr hsame hopen), fun hopen => hjournal.ended (Unfinished.congr hsame hopen),
    fun hopen live' hlive' => ?_, fun live' hlive' htask => ?_⟩
  · obtain ⟨hk, htold⟩ := hjournal.told k e ((hsame k).symm.trans he) hfinish
    refine ⟨hk, htold.status, htold.kind, htold.reason, ?_⟩
    rw [h.db]
    exact htold.summary
  · have hopen := Unfinished.congr hsame hopen
    obtain ⟨live, hlive, rfl⟩ := hback live' hlive'
    obtain ⟨hlength, hagree⟩ := hrecorded live row n hlive hrow hattended hjournal hopen
    refine ⟨(hjournal.live hopen live hlive).1, hlength, fun k hk => ?_⟩
    rw [hsame]
    exact hagree k hk
  · obtain ⟨live, hlive, rfl⟩ := hback live' hlive'
    exact hjournal.created live hlive (hcreated live hlive htask)

/-- Nothing is added to the memory of the log. -/
theorem Journaled.same_events (hw : Journaled w) (h : Lives i f w w') (hevents : ∀ live, (f live).events = live.events)
    (hcreated : ∀ live, w.live? i = some live → (f live).task = .created → live.task = .created) : Journaled w' := by
  refine hw.lived h (fun live row n hlive hrow _ hjournal hopen => ?_) hcreated
  obtain rfl : row.id = i := Table.key_of_get? hrow
  obtain ⟨hlength, hagree⟩ := (hjournal.live hopen live hlive).2
  refine ⟨(hevents live).symm ▸ hlength, fun k hk => ?_⟩
  rw [hevents] at hk ⊢
  exact hagree k hk

/-- **A posted event** enters the memory of the log. -/
theorem Journaled.remembered {e : Event} (hw : Journaled w) (h : Lives e.runId f w w')
    (hevents : ∀ live, (f live).events = live.events ++ [e]) (htask : ∀ live, (f live).task = live.task)
    (hposted : Posted e w) (hnext : Next e.runId e w) : Journaled w' := by
  refine hw.lived h (fun live row n hlive hrow hattended hjournal hopen => ?_) fun live _ hcreated =>
    (htask live).symm.trans hcreated
  have hid : row.id = e.runId := Table.key_of_get? hrow
  have hnumber := hnext live hlive
  have hin := hposted row hrow hattended
  have hnumbered := hjournal.numbered
  rw [hid] at hnumbered
  obtain ⟨hlength, hagree⟩ := (hjournal.live (hid ▸ hopen) live (hid ▸ hlive)).2
  rw [hid] at hagree
  have hle := (hnumbered.number_le hin).2
  refine ⟨?_, fun k hk => ?_⟩
  · rw [hevents, List.length_append]
    left
    show n = live.events.length + 1
    omega
  · rw [hevents, List.length_append] at hk
    rw [hevents]
    by_cases hlast : k = live.events.length
    · rw [hlast, List.getElem?_concat_length, ← hnumber]
      exact hin
    · have hk' : k < live.events.length := by
        have hk : k < live.events.length + 1 := hk
        omega
      rw [hagree k hk', List.getElem?_append_left hk']

/-- After its end the memory of a run does not matter. -/
theorem Journaled.shut (hw : Journaled w) (h : Lives i f w w') (htask : ∀ live, (f live).task = live.task)
    (hshut : Shut i w) : Journaled w' := by
  refine hw.lived h (fun live row n hlive hrow hattended hjournal hopen => ?_) fun live _ hcreated =>
    (htask live).symm.trans hcreated
  obtain rfl : row.id = i := Table.key_of_get? hrow
  exact absurd (hjournal.live hopen live hlive).1 (hshut row hrow hattended)

end Lives

/-! ## §3. The end of a run. -/

/-- The step ends the run with its terminal event. -/
structure Ends (live : LiveRun) (status : RunStatus) (reason : String) (url : Option String) (w w' : World) : Prop where
  row : ∃ run, w.db.runs.get? live.id = some run ∧ run.status = .running
  nextId : w'.nextId = w.nextId
  runs : w'.db.runs = w.db.runs.modify live.id fun r => r.close status reason w.now
  free : w.db.runEvents.get? (live.id, w.db.lastSequence live.id + 1) = none
  events : w'.db.runEvents = w.db.runEvents.put (terminalEvent live status reason url w)
  messages : w'.db.messages = w.db.messages.put ⟨live.id, live.chatId, .assistant, reason, true⟩
  revisions : w'.db.revisions = w.db.revisions
  lives : w'.mem.runs = w.mem.runs

theorem finishRun_ends {live : LiveRun} {status : RunStatus} {reason : String} {url : Option String} {v : Option Event}
    (h : finishRun live status reason url w = .ok (v, w')) :
    (v = none ∧ w' = w) ∨ v = some (terminalEvent live status reason url w) ∧ Ends live status reason url w w' := by
  rcases finishRun_cases h with ⟨hv, hw, _⟩ | ⟨run, w₁, hrun, hrunning, hv, hmark, hfree, rfl⟩
  · exact .inl ⟨hv, hw⟩
  · refine .inr ⟨hv, ?_⟩
    rcases markVerified_eq hmark with ⟨rfl, _⟩ | ⟨r, revisionId, _, _, _, _, rfl⟩
    · exact ⟨⟨run, hrun, hrunning⟩, rfl, rfl, hfree, rfl, rfl, rfl, rfl⟩
    · exact ⟨⟨run, hrun, hrunning⟩, rfl, rfl, hfree, rfl, rfl, rfl, rfl⟩

section Ends

variable {live : LiveRun} {status : RunStatus} {reason : String} {url : Option String}

theorem Ends.get (h : Ends live status reason url w w') (j : Nat) : w'.db.runs.get? j =
    if j = live.id then (w.db.runs.get? live.id).map fun r => r.close status reason w.now else w.db.runs.get? j := by
  rw [h.runs]
  exact Table.get?_modify w.db.runs live.id (fun r => r.close status reason w.now) (fun _ => rfl) j

theorem Ends.same_live (h : Ends live status reason url w w') (j : Nat) : w'.live? j = w.live? j := by
  unfold World.live?
  rw [h.lives]

theorem Ends.sameLog (h : Ends live status reason url w w') (hj : j ≠ live.id) : SameLog j w w' := by
  intro row' hrow' hattended
  rw [h.get, if_neg hj] at hrow'
  refine ⟨row', hrow', hattended, rfl, fun k => ?_, fun m hm _ => ?_⟩
  · rw [h.events]
    exact get?_put_event _ hj k
  · rw [h.messages]
    exact (Table.get?_put_ne _ hj).trans hm

theorem Ends.shut (h : Ends live status reason url w w') (hstatus : status ≠ .running) : Shut live.id w' := by
  intro row' hrow' _
  rw [h.get, if_pos rfl] at hrow'
  obtain ⟨run, _, rfl⟩ := Option.map_eq_some_iff.mp hrow'
  exact hstatus

theorem Ends.turn (h : Ends live status reason url w w') (howner : Owner t live.id w) : Turn (some t) w w' := by
  refine .of_writer howner.writes (fun j hj => ?_) (.of_eq h.lives)
  exact .of_live (h.sameLog hj) (h.same_live j) fun v r' hr' _ hready => .inl ⟨r', h.revisions ▸ hr', hready⟩

/-- **The terminal event** is the last one of its log, and says what the row
and the project say. -/
theorem Journaled.ended (hw : Journaled w) (h : Ends live status reason url w w') (howner : Owner t live.id w)
    (hd : (settled cfg).inv w) (hchat : OfChat live.id live.chatId w) (hstatus : status ≠ .running) : Journaled w' := by
  refine hw.step live.id h.nextId.ge (fun j k hk => ?_) (fun j hj => ⟨h.sameLog hj, .of_eq (h.same_live j)⟩)
    fun row' hrow' hattended => ?_
  · by_cases hj : j = live.id
    · exact .inr (hj ▸ h.nextId ▸ howner.lt hd)
    · rw [h.events, get?_put_event _ hj] at hk
      exact .inl hk
  · rw [h.get, if_pos rfl] at hrow'
    obtain ⟨run, hrun, rfl⟩ := Option.map_eq_some_iff.mp hrow'
    have hid : run.id = live.id := Table.key_of_get? hrun
    have hrunning : run.status = .running := by
      obtain ⟨run', hrun', hrunning⟩ := h.row
      rw [hrun, Option.some.injEq] at hrun'
      exact hrun' ▸ hrunning
    obtain ⟨n, hjournal⟩ := hw.journals _ run hrun ⟨fun hended => absurd hrunning hended, hattended.unarchived⟩
    have hopen := hjournal.unfinished hrunning
    have hroom := hjournal.room hopen
    have hnumbered := hjournal.numbered
    rw [hid] at hnumbered hopen
    -- the number is the one after the last of the log
    have hlast : w.db.lastSequence live.id = n := hnumbered.last
    have hkey : key (terminalEvent live status reason url w) = (live.id, n + 1) := by
      rw [← hlast]
      rfl
    have hself : w'.db.runEvents.get? (live.id, n + 1) = some (terminalEvent live status reason url w) := by
      rw [h.events, ← hkey]
      exact Table.get?_put_self _ _
    have hnot : ¬ Unfinished w' live.id := fun hopen' => by
      have hkind := hopen' (n + 1) _ hself
      cases hkind
    have hid' : (run.close status reason w.now).id = live.id := hid
    refine ⟨n + 1, ?_, by omega, fun k e he hfinish => ?_, fun hopen' => absurd (hid' ▸ hopen') hnot,
      fun hopen' => absurd (hid' ▸ hopen') hnot, fun hopen' => absurd (hid' ▸ hopen') hnot, fun live' hlive' htask => ?_⟩
    · rw [hid', h.events]
      exact hnumbered.put hkey
    · rw [hid'] at he
      by_cases hk : k = n + 1
      · subst hk
        rw [hself, Option.some.injEq] at he
        subst he
        refine ⟨rfl, hstatus, ⟨url, live.revisionId, rfl⟩, rfl, ?_⟩
        rw [h.messages, hid']
        show _ = some (⟨live.id, run.chatId, .assistant, reason, true⟩ : Message)
        rw [hchat.2 run hrun]
        exact Table.get?_put_self w.db.messages ⟨live.id, live.chatId, .assistant, reason, true⟩
      · have hne : (live.id, k) ≠ key (terminalEvent live status reason url w) := fun heq =>
          hk (congrArg Prod.snd (heq.trans hkey))
        rw [h.events, Table.get?_put_ne _ hne] at he
        have hopen := hopen k e he
        rw [hopen] at hfinish
        cases hfinish
    · obtain ⟨live'', hlive'', hwriter⟩ := howner
      rw [h.same_live, hid', hlive'', Option.some.injEq] at hlive'
      subst hlive'
      unfold LiveRun.writer at hwriter
      rw [htask] at hwriter
      cases hwriter

end Ends

end WebBuilder.Worker
