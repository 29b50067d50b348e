/-
  WebBuilder.Worker.Logs — the log of every run is complete.

  Each part of the worker is followed once more, on top of what is settled:
  the task of a run from what it knows while it works, its end and the request
  that cancels it from being the writer of the log, admission from holding the
  lock, and everything else from nothing.
-/
import WebBuilder.Worker.Writers

namespace WebBuilder.Worker

open WebBuilder.Async WebBuilder.Store WebBuilder.Budget WebBuilder.Run WebBuilder.Service

variable {α β : Type} {cfg : Config} {t i c : Nat} {w w' : World}

/-! ## §1. Rules. -/

/-- `B` holds afterwards, and `C` of a returned value. -/
def Yields (B : World → Prop) (C : α → World → Prop) (r : Except Exc α) (w : World) : Prop :=
  B w ∧ ∀ a, r = .ok a → C a w

section Parts

variable {allow : Label → Answer Exc Datum → World → Prop} {A B B' : World → Prop} {C : α → World → Prop}
  {D : β → World → Prop}

theorem safe_then {p : Act α} {f : α → Act β} (hp : Safe ((writing cfg t).open allow) p (Yields B C) w)
    (hf : ∀ a w, B w → C a w → Safe ((writing cfg t).open allow) (f a) (Yields B' D) w) (hB : ∀ w, B w → B' w) :
    Safe ((writing cfg t).open allow) (p.bind f) (Yields B' D) w :=
  Safe.bind hp (fun a w h => hf a w h.1 (h.2 a rfl)) fun _ w h => ⟨hB w h.1, fun _ ha => by cases ha⟩

theorem yields_done {a : α} (hB : B w) (hC : C a w) :
    Safe ((writing cfg t).open allow) (.done (.ok a)) (Yields B C) w :=
  ⟨hB, fun _ ha => Except.ok.inj ha ▸ hC⟩

theorem yields_raise {e : Exc} (hB : B w) : Safe ((writing cfg t).open allow) (Co.raise e) (Yields B C) w :=
  ⟨hB, fun _ ha => by cases ha⟩

/-- **Basic parts** of a task leave alone what lasts. -/
theorem holds_basic (hA : Lasting cfg t A) {p : Act α} (hp : p.Within (Basic cfg)) : Holds (writing cfg t) A p :=
  Holds.of_within hA.stable (fun _ _ hi ha hknown h =>
    ⟨hi.basic h, basic_turn h _, hA.own hknown.1 hknown.2.1 (.basic h) (basic_turn h none) ha⟩) hp

theorem yields_basic (hA : Lasting cfg t A) {p : Act α} (hp : p.Within (Basic cfg)) (hw : A w) :
    Safe ((writing cfg t).open allow) p (Yields A fun _ => A) w :=
  (holds_basic hA hp allow w hw).mono fun _ _ h => ⟨h, fun _ _ => h⟩

/-- A read of the memory. -/
theorem safe_look {f : World → α} (hA : Lasting cfg t A) (hw : A w)
    (h : ∀ w, (settled cfg).inv w → Journaled w → A w → C (f w) w) :
    Safe ((writing cfg t).open allow) (memory fun w => (f w, w)) (Yields A C) w :=
  Safe.memory_known A hw hA.stable (fun w hi ha hknown => ⟨hi, Turn.refl _ w, ha,
    fun _ hv => Except.ok.inj hv ▸ h w hknown.1 hi ha⟩) fun _ _ _ => trivial

/-- A read of the database. -/
theorem safe_fetch {f : World → α} (hA : Lasting cfg t A) (hw : A w)
    (h : ∀ w, (settled cfg).inv w → Journaled w → A w → C (f w) w) :
    Safe ((writing cfg t).open allow) (query f) (Yields A C) w :=
  Safe.query_known A hw hA.stable (fun w _ => Turn.refl _ w)
    (fun w hi ha hknown => ⟨ha, fun _ hv => Except.ok.inj hv ▸ h w hknown.1 hi ha⟩)
    (fun _ _ _ ha => ⟨ha, fun _ hv => by cases hv⟩) fun _ _ _ => trivial

/-- A transaction. -/
theorem safe_commit {op : Op} {body : World → Except Exc (α × World)} (hA : Lasting cfg t A) (hw : A w)
    (hB : ∀ w, A w → B w)
    (h : ∀ w a w', (settled cfg).inv w → (settled cfg).inv w' → Journaled w → A w → body w = .ok (a, w') →
      Journaled w' ∧ Turn (some t) w w' ∧ B w' ∧ C a w') :
    Safe ((writing cfg t).open allow) (transaction op body) (Yields B C) w := by
  refine Safe.transaction_known A hw hA.stable (fun w _ => Turn.refl _ w) (fun w a w' hi ha hknown hb => ?_)
    (fun w _ _ ha => ⟨hB w ha, fun _ hv => by cases hv⟩) fun _ _ _ => trivial
  obtain ⟨hi', hturn, hb', hc⟩ := h w a w' hknown.1 hknown.2.1 hi ha hb
  exact ⟨hi', hturn, ⟨hb', fun _ hv => Except.ok.inj hv ▸ hc⟩, fun _ _ => ⟨hb', fun _ hv => by cases hv⟩⟩

/-- A step on the memory. -/
theorem safe_update {f : World → α × World} (hA : Lasting cfg t A) (hw : A w)
    (h : ∀ w, (settled cfg).inv w → (settled cfg).inv (f w).2 → Journaled w → A w →
      Journaled (f w).2 ∧ Turn (some t) w (f w).2 ∧ B (f w).2 ∧ C (f w).1 (f w).2) :
    Safe ((writing cfg t).open allow) (memory f) (Yields B C) w := by
  refine Safe.memory_known A hw hA.stable (fun w hi ha hknown => ?_) fun _ _ _ => trivial
  obtain ⟨hi', hturn, hb, hc⟩ := h w hknown.1 hknown.2.1 hi ha
  exact ⟨hi', hturn, hb, fun _ hv => Except.ok.inj hv ▸ hc⟩

theorem holds_of_yields {p : Act α} (h : ∀ allow w, A w → Safe ((writing cfg t).open allow) p (Yields A fun _ _ => True) w) :
    Holds (writing cfg t) A p :=
  fun allow w hw => (h allow w hw).mono fun _ _ h => h.1

/-! ## §2. Promotions. -/

theorem posts_addEvent {e : Event} {db : Database} (h : w.db.addEvent e = .ok db) : Posts e w { w with db } := by
  obtain ⟨rfl, _, hfree⟩ := addEvent_eq h
  exact ⟨rfl, rfl, rfl, hfree, rfl, rfl⟩

theorem posts_promoted {e : Event} {chat : Chat} {row : ProjectRevision} {db : Database}
    (h : (w.db.promoted chat row).addEvent e = .ok db) : Posts e w { w with db } := by
  obtain ⟨rfl, _, hfree⟩ := addEvent_eq h
  exact ⟨rfl, rfl, rfl, hfree, rfl, rfl⟩

/-- **A promotion** belongs to the run that has saved the revision, unless no
request of the project is running. -/
theorem untouched_promoted {revision : ProjectRevision} {event : Option Event} {recovery : Bool} {j : Nat}
    (hknown : Known revision w) (hevent : ∀ e ∈ event, j ≠ e.runId)
    (howner : recovery = true ∨ revision.runId ≠ some j)
    (h : promoteLocked revision event recovery w = .ok ((), w')) : Untouched j w w' := by
  rcases promoteLocked_cases h with ⟨_, rfl⟩ | ⟨chat, row, db, _, hchat, _, hidle, hrow, hdb, rfl⟩
  · exact .refl j w'
  · have htables := addEvent?_cases hdb
    have hruns := congrArg Database.runs htables
    have hrevisions := congrArg Database.revisions htables
    have hlog : SameLog j w { w with db } := by
      cases event with
      | none =>
          obtain rfl := Except.ok.inj hdb
          exact .of_eq rfl rfl rfl j
      | some e => exact (posts_promoted hdb).sameLog (hevent e rfl)
    refine .of_live hlog rfl fun v r' hr' hof hready => ?_
    have hr' : db.revisions.get? v = some r' := hr'
    rw [show db.revisions = w.db.revisions.put { row with status := .ready } from hrevisions, Table.get?_put] at hr'
    split at hr'
    · -- the promoted one: recovery has found the project idle
      cases hr'
      have hsame := hknown.2 row hrow
      have hrunId : revision.runId = some j := by
        rw [← hof, hsame]
      have hrecovery : recovery = true := howner.resolve_right fun hne => hne hrunId
      have hchatId : row.chatId = chat.id := hsame.chatId.trans (Table.key_of_get? hchat).symm
      right
      show db.hasRunning row.chatId = false
      unfold Database.hasRunning
      rw [show db.runs = w.db.runs from hruns, hchatId]
      exact hidle hrecovery
    · exact .inl ⟨r', hr', hready⟩

/-- The rule of `promote`: `B` is what is known of the revision once it is read. -/
theorem safe_promoted {id : Nat} {event : Option Event} {recovery : Bool} {B : ProjectRevision → World → Prop}
    {C E : World → Prop} (hA : Lasting cfg t A) (hB : ∀ revision, Lasting cfg t (B revision))
    (hread : ∀ w revision, A w → w.db.revisions.get? id = some revision → B revision w) (hAE : ∀ w, A w → E w)
    (hBE : ∀ revision w, B revision w → E w)
    (hstep : ∀ revision w w', (settled cfg).inv w → (settled cfg).inv w' → Journaled w → Known revision w → B revision w →
      promoteLocked revision event recovery w = .ok ((), w') → Journaled w' ∧ Turn (some t) w w' ∧ E w' ∧ C w')
    (hw : A w) : Safe ((writing cfg t).open allow) (promote id event recovery) (Yields E fun _ => C) w := by
  refine safe_then (B := A) (C := fun found w => ∀ revision, found = some revision → Known revision w ∧ B revision w) ?_
    (fun found w ha hfound => ?_) hAE
  · refine safe_fetch hA hw fun w hd _ ha revision hr => ?_
    obtain rfl : revision.id = id := Table.key_of_get? hr
    refine ⟨⟨hd.2.shelved.revisionIds _ (hr ▸ rfl), fun row hrow => ?_⟩, hread w revision ha hr⟩
    rw [hr, Option.some.injEq] at hrow
    exact hrow ▸ .refl revision
  · cases found with
    | none => exact yields_raise (hAE w ha)
    | some revision =>
        have hknown : Lasting cfg t (Known revision) := .of_tasks stable_known
        refine safe_commit (hknown.and (hB revision)) (hfound revision rfl) (fun w h => hBE revision w h.2)
          fun w _ w' hd hd' hi h hb => ?_
        exact hstep revision w w' hd hd' hi h.1 h.2 hb

/-- A promotion without an event, of a revision that no run owns or in a
project without running requests. -/
theorem safe_promoteFree {id : Nat} {recovery : Bool} (hA : Lasting cfg t A)
    (howner : ∀ w, A w → recovery = true ∨ SavedBy id none w) (hw : A w) :
    Safe ((writing cfg t).open allow) (promote id none recovery) (Yields A fun _ => A) w := by
  refine safe_promoted (B := fun revision w => A w ∧ (recovery = true ∨ revision.runId = none)) hA
    (fun revision => hA.and fun _ _ _ _ _ _ _ _ h => h) (fun w revision ha hr => ⟨ha, ?_⟩) (fun _ h => h)
    (fun _ _ h => h.1) (fun revision w w' hd hd' hi hknown hb h => ?_) hw
  · rcases howner w ha with hrecovery | hsaved
    · exact .inl hrecovery
    · exact .inr (hsaved.2 revision hr)
  · have huntouched : ∀ j, Untouched j w w' := fun j => by
      refine untouched_promoted hknown (fun e he => by cases he) ?_ h
      rcases hb.2 with hrecovery | hnone
      · exact .inl hrecovery
      · exact .inr fun hj => by
          rw [hnone] at hj
          cases hj
    have hmem : w'.mem = w.mem ∧ w'.nextId = w.nextId ∧ w'.db.runEvents = w.db.runEvents := by
      rcases promoteLocked_cases h with ⟨_, rfl⟩ | ⟨chat, row, db, _, _, _, _, _, hdb, rfl⟩
      · exact ⟨rfl, rfl, rfl⟩
      · obtain rfl := Except.ok.inj hdb
        exact ⟨rfl, rfl, rfl⟩
    have hturn : ∀ u, Turn u w w' := .of_untouched huntouched (.of_eq (by rw [hmem.1]))
    have ha' := hA.own hd hd' (.promote revision none recovery (fun e he => by cases he) h) (hturn none) hb.1
    refine ⟨hi.untouched hmem.2.1.ge (fun k hk => hmem.2.2 ▸ hk) (fun j => (huntouched j).log)
      fun j => .of_eq ?_, hturn _, ha', ha'⟩
    unfold World.live?
    rw [hmem.1]

/-- The parts that belong to no run. -/
theorem lasting_parts (hA : Lasting cfg t A) : Parts cfg (fun {α : Type} (p : Act α) => Holds (writing cfg t) A p) where
  closed := closed_holds _ _
  basic hp := holds_basic hA hp
  recover id := fun _ _ hw => (safe_promoteFree hA (fun _ _ => .inl rfl) hw).mono fun _ _ h => h.1
  saveLegacy chatId archive template := by
    refine holds_of_yields fun allow w hw => ?_
    refine safe_then (yields_basic hA (within_quiet quiet_toThread) hw) (fun files w hw _ => ?_) fun _ h => h
    -- the revision that is recorded is owned by no run
    refine safe_then (B := A) (C := fun recorded w => ∀ revision, recorded = .inr revision → SavedBy revision.id none w)
      (safe_commit hA hw (fun _ h => h) fun w v w' hd hd' hi ha hb => ?_) (fun recorded w hw hrecorded => ?_) fun _ h => h
    · have hbasic : Basic cfg w w' := .record chatId none archive files template hb
      refine ⟨hi.basic hbasic, basic_turn hbasic _, hA.own hd hd' (.basic hbasic) (basic_turn hbasic none) ha, ?_⟩
      intro revision hv
      obtain ⟨chat, _, ⟨r, _, _, _, hinl, _⟩ | ⟨hinr, rfl⟩⟩ := recordRevision_cases hb
      · rw [hinl] at hv
        cases hv
      · obtain rfl := Sum.inr.inj (hinr.symm.trans hv)
        refine ⟨Nat.lt_succ_self _, fun r hr => ?_⟩
        have hself := Table.get?_put_self w.db.revisions (newRevision cfg w chat chatId none archive files template)
        rw [← Option.some.inj (hself.symm.trans hr)]
        rfl
    · cases recorded with
      | inl id => exact yields_done hw trivial
      | inr revision =>
          have hboth : Lasting cfg t fun w => A w ∧ SavedBy revision.id none w := hA.and lasting_savedBy
          refine safe_then (yields_basic hboth (within_quiet (quiet_putObject _ _ _)) ⟨hw, hrecorded revision rfl⟩)
            (fun _ w hw _ => ?_) fun _ h => h.1
          show Safe _ ((promote revision.id none false).bind fun _ => pure (revision.id, none)) _ w
          refine safe_then (safe_promoteFree hboth (fun _ h => .inr h.2) hw) (fun _ w hw _ => yields_done hw.1 trivial)
            fun _ h => h.1

/-! ## §3. A run at work. -/

theorem nextEvent_cases {kind : EventKind} {message : String} {e : Event} (h : w.nextEvent i kind message = .ok e) :
    ∃ live, w.live? i = some live ∧ live.events.length < 200 ∧ e = live.event kind message := by
  unfold World.nextEvent at h
  split at h
  · cases h
  · rename_i live hlive
    split at h
    · cases h
    · exact ⟨live, hlive, by omega, (Except.ok.inj h).symm⟩

/-- The next event of a live run with room for it. -/
theorem draft_event {live : LiveRun} {kind : EventKind} {message : String} (hlive : w.live? i = some live)
    (hroom : live.events.length < 200) (hkind : kind.isFinish = false) :
    Draft i (live.event kind message) ∧ Next i (live.event kind message) w := by
  refine ⟨⟨Table.key_of_get? hlive, ?_, hkind⟩, fun live' hlive' => ?_⟩
  · show live.events.length + 1 ≤ 200
    omega
  · rw [hlive, Option.some.injEq] at hlive'
    rw [← hlive']
    rfl

/-- Nothing is written between the number of an event and its row. -/
theorem safe_addEvent {e : Event} (hdraft : Draft i e) (hw : Working t i w)
    (hnext : Next i e w) :
    Safe ((writing cfg t).open allow) (addEvent e)
      (Yields (Working t i) fun _ w => Next i e w ∧ Posted e w) w := by
  refine safe_commit (lasting_recalls _) ⟨hw, hnext⟩ (fun _ h => h.1) fun w _ w' hd _ hi h hb => ?_
  cases hdb : w.db.addEvent e with
  | error x =>
      rw [hdb] at hb
      cases hb
  | ok db =>
      simp only [hdb, Except.map, Except.ok.injEq, Prod.mk.injEq, true_and] at hb
      subst hb
      have hposts := posts_addEvent hdb
      refine ⟨hi.posted hposts h.1 hd hdraft h.2, ?_, hposts.working h.1, hposts.recalls h.2, hposts.posted⟩
      refine .of_writer h.1.owner.writes (fun j hj => ?_) (.of_eq rfl)
      obtain rfl := hdraft.runId
      refine .of_live (hposts.sameLog hj) rfl fun v r' hr' _ hready => .inl ⟨r', ?_, hready⟩
      obtain ⟨rfl, _⟩ := addEvent_eq hdb
      exact hr'

/-- A posted event is remembered. -/
theorem safe_appendEvent {e : Event} (hrunId : e.runId = i) (hw : Working t i w)
    (hnext : Next i e w) (hposted : Posted e w) :
    Safe ((writing cfg t).open allow) (appendEvent i e) (Yields (Working t i) fun _ _ => True) w := by
  subst hrunId
  refine safe_update ((lasting_recalls _).and (lasting_posted e)) ⟨⟨hw, hnext⟩, hw, hposted⟩ fun w _ _ hi h => ?_
  have hlives := lives_modifyLive w e.runId (f := fun live => live.append e) fun _ => rfl
  exact ⟨hi.remembered hlives (fun _ => rfl) (fun _ => rfl) h.2.2 h.1.2,
    hlives.turn h.2.1.owner fun _ _ _ ht => ht, hlives.working h.2.1 fun _ => rfl, trivial⟩

/-- **`emit`**. -/
theorem holds_emit (kind : EventKind) (message : String) (hkind : kind.isFinish = false) :
    Holds (writing cfg t) (Working t i) (emit i kind message) := by
  refine holds_of_yields fun allow w hw => ?_
  refine safe_then (B := Working t i)
    (C := fun e w => Draft i e ∧ Next i e w) ?_ (fun e w hw he => ?_) fun _ h => h
  · refine safe_then (safe_look (C := fun r w => ∀ e, r = .ok e → Draft i e ∧
      Next i e w) lasting_working hw fun w _ _ _ e he => ?_)
      (fun r w hw hr => ?_) fun _ h => h
    · obtain ⟨live, hlive, hroom, rfl⟩ := nextEvent_cases he
      exact draft_event hlive hroom hkind
    · cases r with
      | error x => exact yields_raise hw
      | ok e => exact yields_done hw (hr e rfl)
  · refine safe_then (safe_addEvent he.1 hw he.2) (fun _ w hw h => ?_) fun _ h => h
    exact safe_appendEvent he.1.runId hw h.1 h.2

/-- What `save_revision` has recorded for the run is a checkpoint of it. -/
theorem mine_recorded {archive : Bytes} {files : Manifest} {template : String} {r : Nat ⊕ ProjectRevision}
    {revision : ProjectRevision} (hworking : Working t i w') (hchat : OfChat i c w')
    (h : recordRevision cfg c (some i) archive files template w = .ok (r, w')) (hr : r = .inr revision) :
    Mine t i c revision.id w' := by
  obtain ⟨chat, _, ⟨_, _, _, _, hinl, _⟩ | ⟨hinr, rfl⟩⟩ := recordRevision_cases h
  · rw [hinl] at hr
    cases hr
  · obtain rfl := Sum.inr.inj (hinr.symm.trans hr)
    have hself : ∀ r', (w.db.revisions.put (newRevision cfg w chat c (some i) archive files template)).get? w.nextId =
        some r' → newRevision cfg w chat c (some i) archive files template = r' := fun r' hr' =>
      Option.some.inj ((Table.get?_put_self _ _).symm.trans hr')
    refine ⟨hworking, hchat, ⟨Nat.lt_succ_self _, fun r' hr' => ?_⟩, ⟨Nat.lt_succ_self _, fun r' hr' => ?_⟩,
      fun r' hr' hready => ?_⟩
    · exact (hself r' hr') ▸ rfl
    · exact (hself r' hr') ▸ rfl
    · rw [← hself r' hr'] at hready
      cases hready

/-- **The promotion of a run's checkpoint** posts its event. -/
theorem safe_promoteMine {v : Nat} {e : Event} (hdraft : Draft i e)
    (hw : (Working t i w ∧ Next i e w) ∧ Mine t i c v w) :
    Safe ((writing cfg t).open allow) (promote v (some e) false)
      (Yields (Working t i) fun _ w => Next i e w ∧ Posted e w) w := by
  have hrecalls : Lasting cfg t fun w => Working t i w ∧ Next i e w := lasting_recalls _
  refine (safe_promoted (B := fun revision w => ((Working t i w ∧ Next i e w) ∧
      Mine t i c v w) ∧ revision.runId = some i ∧ (revision.status = .ready → Unattended i w))
    (C := fun w => Next i e w ∧ Posted e w) (hrecalls.and lasting_mine)
    (fun revision => ?_) (fun w revision ha hr => ⟨ha, ha.2.savedBy.2 revision hr, ha.2.pending revision hr⟩)
    (fun _ h => h.1.1) (fun _ _ h => h.1.1.1) (fun revision w w' hd hd' hi hknown hb h => ?_) hw)
  · intro u w w' hu hd hd' hc hturn hb
    refine ⟨(hrecalls.and lasting_mine) u w w' hu hd hd' hc hturn hb.1, hb.2.1, fun hready => ?_⟩
    exact (hb.2.2 hready).same (hb.1.1.1.owner.untouched hu hd hturn).log
  · obtain ⟨⟨⟨hworking, hnext⟩, _⟩, hrunId, hpending⟩ := hb
    rcases promoteLocked_cases h with ⟨hready, rfl⟩ | ⟨chat, row, db, _, _, _, _, _, hdb, rfl⟩
    · -- somebody else has promoted it: then the log is not attended any more
      refine ⟨hi, .refl _ _, hworking, hnext, fun row hrow hattended => ?_⟩
      obtain rfl := hdraft.runId
      exact absurd hattended (hpending hready row hrow)
    · have hposts := posts_promoted hdb
      refine ⟨hi.posted hposts hworking hd hdraft hnext, ?_, hposts.working hworking, hposts.recalls hnext, hposts.posted⟩
      refine .of_writer hworking.owner.writes (fun j hj => ?_) (.of_eq rfl)
      refine untouched_promoted hknown (fun e' he' => ?_) (.inr fun hj' => ?_) h
      · obtain rfl := Option.some.inj he'
        rw [hdraft.runId]
        exact hj
      · exact hj (Option.some.inj (hj'.symm.trans hrunId))

/-- **`save_revision`** of a run: its event is posted, if it has one. -/
theorem safe_saveMine {live : LiveRun} {archive : Bytes} {template : String}
    (hw : (Working t i w ∧ Recalls i (fun es => es.length < 200) w) ∧ OfChat i c w) :
    Safe ((writing cfg t).open allow) (saveRevision cfg c (some i) archive template (some (checkpointEvent i live)))
      (Yields (Working t i) fun saved w => ∀ e ∈ saved.2, e.runId = i ∧
        Next i e w ∧ Posted e w) w := by
  have hroom : Lasting cfg t fun w => Working t i w ∧ Recalls i (fun es => es.length < 200) w := lasting_recalls _
  have hA : Lasting cfg t fun w => (Working t i w ∧ Recalls i (fun es => es.length < 200) w) ∧ OfChat i c w :=
    hroom.and (.of_tasks stable_ofChat)
  refine safe_then (yields_basic hA (within_quiet quiet_toThread) hw) (fun files w hw _ => ?_) fun _ h => h.1.1
  refine safe_then (B := fun w => (Working t i w ∧ Recalls i (fun es => es.length < 200) w) ∧ OfChat i c w)
    (C := fun recorded w => ∀ revision, recorded = .inr revision → Mine t i c revision.id w)
    (safe_commit hA hw (fun _ h => h) fun w v w' hd hd' hi ha hb => ?_) (fun recorded w hw hrecorded => ?_) fun _ h => h.1.1
  · have hbasic : Basic cfg w w' := .record c (some i) archive files template hb
    have ha' := hA.own hd hd' (.basic hbasic) (basic_turn hbasic none) ha
    exact ⟨hi.basic hbasic, basic_turn hbasic _, ha', fun revision hr => mine_recorded ha'.1.1 ha'.2 hb hr⟩
  · cases recorded with
    | inl id => exact yields_done hw.1.1 fun e he => by cases he
    | inr revision =>
        have hB : Lasting cfg t fun w => (Working t i w ∧ Recalls i (fun es => es.length < 200) w) ∧
            Mine t i c revision.id w := hroom.and lasting_mine
        refine safe_then (yields_basic hB (within_quiet (quiet_putObject _ _ _)) ⟨hw.1, hrecorded revision rfl⟩)
          (fun _ w hw _ => ?_) fun _ h => h.1.1
        -- the event takes the next number of what the worker remembers now
        refine safe_then (safe_look (C := fun event w => ∃ e, event = some e ∧ Draft i e ∧ Next i e w) hB hw
          fun w _ _ h => ?_) (fun event w hw he => ?_) fun _ h => h.1.1
        · obtain ⟨current, hcurrent, _⟩ := h.1.1.live
          refine ⟨_, rfl, ?_⟩
          unfold checkpointEvent
          rw [hcurrent]
          exact draft_event hcurrent (h.1.2 current hcurrent) rfl
        · obtain ⟨e, rfl, hdraft, hnext⟩ := he
          refine safe_then (safe_promoteMine hdraft ⟨⟨hw.1.1, hnext⟩, hw.2⟩) (fun _ w hw h => ?_) fun _ h => h
          exact yields_done hw fun e' he' => Option.some.inj he' ▸ ⟨hdraft.runId, h⟩

/-- **`save_files`**. -/
theorem holds_saveMine : Holds (writing cfg t) (Working t i) (saveFiles cfg i) := by
  refine holds_of_yields fun allow w hw => ?_
  refine safe_then (B := Working t i) (C := fun found w => ∀ live, found = some live →
    Recalls i (fun es => es = live.events) w ∧ OfChat i live.chatId w)
    (safe_look lasting_working hw fun w hd _ _ live hlive => ?_) (fun found w hw hfound => ?_) fun _ h => h
  · refine ⟨fun live' hlive' => ?_, hd.2.lively.chats i live hlive⟩
    rw [hlive, Option.some.injEq] at hlive'
    rw [hlive']
  · cases found with
    | none => exact yields_done hw trivial
    | some live =>
        obtain ⟨hsame, hchat⟩ := hfound live rfl
        dsimp only
        split
        · exact yields_done hw trivial
        · split
          · exact yields_raise hw
          · rename_i hroom
            have hA : Lasting cfg t fun w => (Working t i w ∧ Recalls i (fun es => es.length < 200) w) ∧
                OfChat i live.chatId w := (lasting_recalls _).and (.of_tasks stable_ofChat)
            have hroom : Recalls i (fun es => es.length < 200) w := fun live' hlive' => by
              rw [hsame live' hlive']
              omega
            refine safe_then (yields_basic hA (within_quiet (quiet_latestRevision _)) ⟨⟨hw, hroom⟩, hchat⟩)
              (fun current w hw _ => ?_) fun _ h => h.1.1
            refine safe_then (yields_basic hA (within_quiet quiet_archiveSlot) hw) (fun _ w hw _ => ?_) fun _ h => h.1.1
            refine safe_then (yields_basic hA (within_quiet (quiet_packSandbox _)) hw) (fun archive w hw _ => ?_)
              fun _ h => h.1.1
            refine safe_then (safe_saveMine hw) (fun saved w hw hsaved => ?_) fun _ h => h
            obtain ⟨v, event⟩ := saved
            have hlives : ∀ w, Lives i (LiveRun.saved v event) w (w.modifyLive i (LiveRun.saved v event)) := fun w =>
              lives_modifyLive w i fun _ => rfl
            cases event with
            | none =>
                refine safe_update lasting_working hw fun w _ _ hi h => ?_
                exact ⟨hi.same_events (hlives w) (fun _ => List.append_nil _) fun _ _ htask => htask,
                  (hlives w).turn h.owner fun _ _ _ ht => ht, (hlives w).working h fun _ => rfl, trivial⟩
            | some e =>
                obtain ⟨hrunId, hnext, hposted⟩ := hsaved e rfl
                subst hrunId
                refine safe_update ((lasting_recalls _).and (lasting_posted e)) ⟨⟨hw, hnext⟩, hw, hposted⟩
                  fun w _ _ hi h => ?_
                exact ⟨hi.remembered (hlives w) (fun _ => rfl) (fun _ => rfl) h.2.2 h.1.2,
                  (hlives w).turn h.2.1.owner fun _ _ _ ht => ht, (hlives w).working h.2.1 fun _ => rfl, trivial⟩

theorem working_parts (cfg : Config) (t i : Nat) :
    EventParts cfg (fun {α : Type} (p : Act α) => Holds (writing cfg t) (Working t i) p) i where
  toParts := lasting_parts lasting_working
  emit := holds_emit
  saveFiles := holds_saveMine

/-! ## §4. The end of a run. -/

/-- **`finish`**. -/
theorem holds_end (op : Op) (status : RunStatus) (reason : String) (url : Option String) (hstatus : status ≠ .running) :
    Holds (writing cfg t) (Owner t i) (finish op i status reason url) := by
  refine holds_of_yields fun allow w hw => ?_
  refine safe_then (B := Owner t i) (C := fun found w => ∀ live, found = some live → live.id = i ∧ OfChat i live.chatId w)
    (safe_look lasting_owner hw fun w hd _ _ live hlive => ⟨Table.key_of_get? hlive, hd.2.lively.chats i live hlive⟩)
    (fun found w hw hfound => ?_) fun _ h => h
  cases found with
  | none => exact yields_done hw trivial
  | some live =>
      obtain ⟨rfl, hchat⟩ := hfound live rfl
      refine safe_then (B := Owner t live.id) (C := fun event w => ∀ e, event = some e → Shut live.id w)
        (safe_commit (lasting_owner.and (.of_tasks stable_ofChat)) ⟨hw, hchat⟩ (fun _ h => h.1)
          fun w event w' hd hd' hi h hb => ?_) (fun event w hw hshut => ?_) fun _ h => h
      · rcases finishRun_ends hb with ⟨rfl, rfl⟩ | ⟨rfl, hends⟩
        · exact ⟨hi, .refl _ _, h.1, fun _ he => by cases he⟩
        · obtain ⟨live', hlive', hwriter⟩ := h.1
          exact ⟨hi.ended hends h.1 hd h.2 hstatus, hends.turn h.1, ⟨live', (hends.same_live _).trans hlive', hwriter⟩,
            fun _ _ => hends.shut hstatus⟩
      · cases event with
        | none => exact yields_done hw trivial
        | some e =>
            refine safe_update lasting_shut ⟨hw, hshut e rfl⟩ fun w _ _ hi h => ?_
            have hlives := lives_modifyLive w live.id (f := fun live => live.append e) fun _ => rfl
            exact ⟨hi.shut hlives (fun _ => rfl) h.2, hlives.turn h.1 fun _ _ _ ht => ht,
              hlives.owner h.1 (fun _ => rfl) fun _ => rfl, trivial⟩

theorem owner_parts (cfg : Config) (t i : Nat) :
    EndParts cfg (fun {α : Type} (p : Act α) => Holds (writing cfg t) (Owner t i) p) i where
  toParts := lasting_parts lasting_owner
  finish := holds_end

/-- The task of a run leaves it. -/
theorem safe_endTask (completed : Bool) (hw : Owner t i w) :
    Safe ((writing cfg t).open allow) (memory' fun w => w.endTask i c completed) (Yields (fun _ => True) fun _ _ => True)
      w := by
  refine safe_update lasting_owner hw fun w _ _ hi h => ?_
  have hlives : Lives i (fun live => { live with task := .done }) w (w.endTask i c completed) := by
    cases completed with
    | false => exact lives_modifyLive w i fun _ => rfl
    | true =>
        obtain ⟨hdb, _, hid, hruns⟩ := touch_spec w c
        refine ⟨hdb, hid, ?_, fun _ => rfl⟩
        show (w.touch c).mem.runs.modify i _ = _
        rw [hruns]
  have hi' := hi.same_events hlives (fun _ => rfl) fun _ _ htask => by cases htask
  exact ⟨hi', hlives.turn h fun _ _ _ ht => ht, trivial, trivial⟩

/-- **`execute`**, from its start on. -/
theorem safe_execution (hw : Working t i w) :
    Safe ((writing cfg t).open allow) (execute cfg t i) (fun _ _ => True) w := by
  have hparts := working_parts cfg t i
  have hends := owner_parts cfg t i
  refine Safe.bind (hparts.quiet quiet_read allow w hw) (fun live w hw => ?_) fun _ _ _ => trivial
  cases live with
  | none => trivial
  | some live =>
      refine Safe.bind (R := fun _ => Owner t i) ((safe_attempt _ _ _).mpr ?_) (fun r w hw => ?_) fun _ _ _ => trivial
      · refine Safe.bind (hparts.closed.attempt hparts.executeBody allow w hw) (fun r w hw => ?_) fun _ _ h => h.owner
        refine Safe.bind (hparts.quiet quiet_read allow w hw) (fun stopping w hw => ?_) fun _ _ h => h.owner
        exact hends.conclude t _ (outcomeOf_status stopping r) allow w hw.owner
      · exact (safe_endTask _ hw).mono fun _ _ _ => trivial

/-- **`cancel`**: the request that asks the run to stop ends it, once its task
has left it. -/
theorem holds_cancellation (i : Nat) : Holds (writing cfg t) (fun _ => True) (cancel t i) := by
  intro allow w _
  have hends := owner_parts cfg t i
  refine Safe.bind (R := Yields (fun _ => True) fun first w => first = true → Asked t i w)
    (safe_update lasting_true trivial fun w _ _ hi _ => ?_) (fun first w hfirst => ?_) fun _ _ _ => trivial
  · split
    · rename_i hask
      have hlives := lives_modifyLive w i
        (f := fun live => { live with cancelling := some t, cancelRequested := true }) fun _ => rfl
      obtain ⟨live, hlive, hnone⟩ := (Option.any_eq_true _ _).mp hask.2
      refine ⟨hi.same_events hlives (fun _ => rfl) fun _ _ htask => htask,
        hlives.turn_free (fun _ => rfl) (fun _ _ => .inl rfl) (fun live' t' hlive' ht => ?_) _, trivial, fun _ => ?_⟩
      · -- nobody has asked before
        rw [hlive, Option.some.injEq] at hlive'
        rw [hlive', ht] at hnone
        cases hnone
      · refine ⟨{ live with cancelling := some t, cancelRequested := true }, ?_, rfl⟩
        rw [hlives.self, hlive]
        rfl
    · exact ⟨hi, .refl _ _, trivial, fun h => by cases h⟩
  · cases first with
    | false => trivial
    | true =>
        refine Safe.bind (R := fun r w => r = .ok () → Owner t i w) ?_ (fun _ w howner => ?_) fun _ _ _ => trivial
        · refine safe_waitFor (Asked t i) (hfirst.2 true rfl rfl) lasting_asked.stable (fun w _ => .refl _ w)
            (fun w r w' hi hasked hready => ?_) (fun _ _ _ _ _ h => by cases h) fun _ _ _ => trivial
          obtain ⟨live, hlive, hcancelling⟩ := hasked
          simp only [Option.ite_none_right_eq_some, Option.some.injEq, Prod.mk.injEq, hlive, Option.all_some,
            decide_eq_true_eq] at hready
          obtain ⟨hdone, rfl, rfl⟩ := hready
          refine ⟨hi, .refl _ _, fun _ => ⟨live, hlive, ?_⟩⟩
          unfold LiveRun.writer
          rw [hdone]
          exact hcancelling
        · refine Safe.bind (hends.quiet quiet_read allow w (howner rfl)) (fun still w hw => ?_) fun _ _ _ => trivial
          cases still with
          | false => trivial
          | true =>
              refine Safe.bind (hends.finish _ _ _ _ (by simp) allow w hw) (fun _ w hw => ?_) fun _ _ _ => trivial
              refine (hends.quiet (quiet_memory (fun _ => rfl) (fun _ => Nat.le_refl _) (fun _ => rfl) fun _ => rfl)
                allow w hw).mono fun _ _ _ => trivial

/-! ## §5. Admission. -/

/-- The row of a run is new, with its message. -/
structure Admits (a : Admitted) (w w' : World) : Prop where
  row : ∃ row, row.id = a.runId ∧ row.status = .running ∧ w'.db.runs = w.db.runs.put row
  message : ∃ m, m.id = a.runId + 1 ∧ w'.db.messages = w.db.messages.put m
  events : w'.db.runEvents = w.db.runEvents
  revisions : w'.db.revisions = w.db.revisions
  new : w.nextId ≤ a.runId
  nextId : a.runId < w'.nextId
  mem : w'.mem = w.mem

theorem admitRows_admits {userId : Nat} {prompt : String} {chatId : Option Nat} {busy : Bool} {a : Admitted}
    (h : admitRows cfg userId prompt chatId busy w = .ok (a, w')) : Admits a w w' := by
  obtain ⟨user, c, w₁, hchat, hinsert⟩ := admitRows_cases h
  obtain ⟨rfl, rfl⟩ := Prod.mk.inj hinsert
  have hid : w₁.nextId < w₁.nextId + 2 := by omega
  rcases admitChat_cases hchat with ⟨_, _, _, _, _, rfl⟩ | ⟨_, _, rfl⟩
  · exact ⟨⟨_, rfl, rfl, rfl⟩, ⟨_, rfl, rfl⟩, rfl, rfl, Nat.le_refl _, hid, rfl⟩
  · exact ⟨⟨_, rfl, rfl, rfl⟩, ⟨_, rfl, rfl⟩, rfl, rfl, Nat.le_succ _, hid, rfl⟩

section Admits

variable {a : Admitted}

theorem Admits.live (h : Admits a w w') (j : Nat) : w'.live? j = w.live? j := by
  unfold World.live?
  rw [h.mem]

/-- The other runs are older. -/
theorem Admits.sameLog (h : Admits a w w') (hd : (settled cfg).inv w) {j : Nat} (hj : j ≠ a.runId) : SameLog j w w' := by
  intro row' hrow' hattended
  obtain ⟨row, hid, _, hruns⟩ := h.row
  obtain ⟨m, hm, hmessages⟩ := h.message
  have hne : j ≠ key row := fun heq => hj (heq.trans hid)
  rw [hruns, Table.get?_put_ne _ hne] at hrow'
  have hold : j < w.nextId := hd.2.runIds j (hrow' ▸ rfl)
  have hnew := h.new
  refine ⟨row', hrow', hattended, rfl, fun k => by rw [h.events], fun m' hm' _ => ?_⟩
  have hne : j ≠ key m := fun heq => by
    rw [key_message, hm] at heq
    omega
  rw [hmessages, Table.get?_put_ne _ hne, hm']

theorem Admits.turn (h : Admits a w w') (hd : (settled cfg).inv w) (u : Option Nat) : Turn u w w' := by
  refine ⟨fun j hj _ => ?_, .of_eq (by rw [h.mem])⟩
  have hne : j ≠ a.runId := fun heq => absurd hj (heq ▸ Nat.not_lt.mpr h.new)
  exact .of_live (h.sameLog hd hne) (h.live j) fun v r' hr' _ hready => .inl ⟨r', h.revisions ▸ hr', hready⟩

/-- The log of a new run is empty. -/
theorem Journaled.admitted (hw : Journaled w) (h : Admits a w w') (hd : (settled cfg).inv w) : Journaled w' := by
  have hnew := h.new
  refine hw.step a.runId (hnew.trans h.nextId.le) (fun j k hk => .inl (h.events ▸ hk))
    (fun j hj => ⟨h.sameLog hd hj, .of_eq (h.live j)⟩) fun row' hrow' _ => ?_
  obtain ⟨row, hid, hrunning, hruns⟩ := h.row
  have hself : w'.db.runs.get? a.runId = some row := by
    rw [hruns, ← hid]
    exact Table.get?_put_self _ row
  rw [hself, Option.some.injEq] at hrow'
  subst hrow'
  have hnone : ∀ k, w'.db.runEvents.get? (row.id, k) = none := fun k => by
    rw [h.events, hid, ← Option.not_isSome_iff_eq_none]
    exact fun hk => absurd (hw.ids a.runId k hk) (Nat.not_lt.mpr hnew)
  refine ⟨0, numbered_zero hnone, Nat.zero_le _, fun k e he => ?_, fun _ => Nat.zero_le _, fun _ => .inl hrunning,
    fun _ live hlive => ?_, fun _ _ _ => hrunning⟩
  · rw [hnone] at he
    cases he
  · -- no live run is that new
    rw [hid, h.live] at hlive
    exact absurd (hd.1.runIds a.runId (hlive ▸ rfl)) (Nat.not_lt.mpr hnew)

/-- The task that holds the lock has written a run, and not registered it. -/
structure Granted (t : Nat) (a : Admitted) (w : World) : Prop where
  held : Held t w
  lt : a.runId < w.nextId
  fresh : w.live? a.runId = none
  blank : ∀ row, w.db.runs.get? a.runId = some row → Attended row →
    row.status = .running ∧ ∀ k, w.db.runEvents.get? (a.runId, k) = none

theorem stable_held : (writing cfg t).Stable (Held t) := by
  rintro w w' _ _ ⟨_, _, u, hu, hguar, _⟩ hheld
  exact (hguar.1.lock t hu.symm).mpr hheld

theorem stable_granted : (writing cfg t).Stable (Granted t a) := by
  intro w w' hi hi' hrely h
  have hheld := stable_held w w' hi hi' hrely h.held
  obtain ⟨_, _, u, hu, hguar, hturn⟩ := hrely
  have hshrinks := h.held.others hu hguar.1
  have huntouched : Untouched a.runId w w' := hturn.others a.runId h.lt fun hwrites => by
    obtain ⟨_, live, _, hlive, _⟩ := hwrites
    rw [h.fresh] at hlive
    cases hlive
  refine ⟨hheld, h.lt.trans_le hguar.1.nextId, ?_, fun row' hrow' hattended => ?_⟩
  · rw [← Option.not_isSome_iff_eq_none]
    intro hlive
    have hbefore := hshrinks.lives a.runId hlive
    rw [h.fresh] at hbefore
    cases hbefore
  · obtain ⟨row, hrow, hattended', hverdict, hevents, _⟩ := huntouched.log row' hrow' hattended
    obtain ⟨hrunning, hnone⟩ := h.blank row hrow hattended'
    exact ⟨(congrArg Verdict.status hverdict).trans hrunning, fun k => (hevents k).trans (hnone k)⟩

/-- **A new live run** has no events, as its log. -/
theorem Journaled.registered (hw : Journaled w) (h : Granted t a w) (userId : Nat) (prompt : String) :
    Journaled { w with mem := w.mem.register a userId prompt } ∧
      Turn (some t) w { w with mem := w.mem.register a userId prompt } := by
  have hother : ∀ j, j ≠ a.runId →
      ({ w with mem := w.mem.register a userId prompt } : World).live? j = w.live? j := fun j hj =>
    Table.get?_put_ne _ hj
  have hlog : ∀ j, SameLog j w { w with mem := w.mem.register a userId prompt } := fun j => .of_eq rfl rfl rfl j
  refine ⟨hw.step a.runId (Nat.le_refl _) (fun _ _ hk => .inl hk) (fun j hj => ⟨hlog j, .of_eq (hother j hj)⟩)
    fun row hrow hattended => ?_, .of_untouched (fun j => ?_) (fun j live t' hlive ht => ?_) _⟩
  · obtain ⟨hrunning, hnone⟩ := h.blank row hrow hattended
    obtain ⟨n, hjournal⟩ := hw.journals a.runId row hrow hattended
    have hid : row.id = a.runId := Table.key_of_get? hrow
    have hnumbered := hjournal.numbered
    rw [hid] at hnumbered
    obtain rfl := hnumbered.unique (numbered_zero hnone)
    refine ⟨0, hjournal.numbered, Nat.zero_le _, fun k e he => ?_, fun _ => Nat.zero_le _, fun _ => .inl hrunning,
      fun _ live hlive => ⟨hrunning, ?_⟩, fun _ _ _ => hrunning⟩
    · have he : w.db.runEvents.get? (row.id, k) = some e := he
      rw [hid, hnone] at he
      cases he
    · rw [hid] at hlive
      have hself : (w.mem.runs.put ⟨a.runId, a.chatId, prompt, userId, a.messageId, [], .created, false, none, none,
        none⟩).get? a.runId = some live := hlive
      obtain rfl := Option.some.inj ((Table.get?_put_self _ _).symm.trans hself)
      exact ⟨.inl rfl, fun k hk => absurd hk (Nat.not_lt_zero k)⟩
  · refine ⟨hlog j, fun live hlive => ?_, fun v r' hr' _ hready => .inl ⟨r', hr', hready⟩⟩
    have hj : j ≠ a.runId := fun heq => by
      rw [heq, h.fresh] at hlive
      cases hlive
    exact ⟨live, (hother j hj).trans hlive, rfl, .inl rfl⟩
  · have hj : j ≠ a.runId := fun heq => by
      rw [heq, h.fresh] at hlive
      cases hlive
    exact ⟨live, (hother j hj).trans hlive, ht⟩

/-- The part of `admit` under the lock. -/
theorem safe_admitted (userId : Nat) (prompt : String) (chatId : Option Nat) (hw : Held t w) :
    Safe ((writing cfg t).open allow) (admitLocked cfg userId prompt chatId) (fun _ _ => True) w := by
  have hread : ∀ {α : Type} {f : World → α} {w : World}, Held t w →
      Safe ((writing cfg t).open allow) (memory fun w => (f w, w)) (fun _ => Held t) w := fun hw =>
    Safe.memory_known (Held t) hw stable_held (fun w hi hheld _ => ⟨hi, .refl _ w, hheld⟩) fun _ _ _ => trivial
  refine Safe.bind (hread hw) (fun full w hw => ?_) fun _ _ _ => trivial
  split
  · trivial
  · have hcalm : Holds (writing cfg t) (Held t) (requireSandboxCapacity cfg chatId) :=
      Holds.of_within (G := fun w w' => Quiet w w' ∧ Calm w w') stable_held (fun w w' hi hheld _ h =>
        ⟨(quiet_journaled cfg hi h.1 none).1, (quiet_journaled cfg hi h.1 _).2, held_calm w w' h.2 hheld⟩)
        (All.and (quiet_requireSandboxCapacity chatId) (calm_requireSandboxCapacity chatId))
    refine Safe.bind (hcalm allow w hw) (fun _ w hw => ?_) fun _ _ _ => trivial
    refine Safe.bind (hread hw) (fun busy w hw => ?_) fun _ _ _ => trivial
    refine Safe.bind (R := fun r w => ∀ a, r = .ok a → Granted t a w) ?_ (fun a w ha => ?_) fun _ _ _ => trivial
    · refine Safe.transaction_known (Held t) hw stable_held (fun w _ => .refl _ w) (fun w a w' hi hheld hknown hb => ?_)
        (fun _ _ _ _ _ ha => by cases ha) fun _ _ _ => trivial
      have hadmits := admitRows_admits hb
      have hd := hknown.1
      refine ⟨hi.admitted hadmits hd, hadmits.turn hd _, fun a' ha' => ?_, fun _ _ _ ha' => by cases ha'⟩
      obtain rfl := Except.ok.inj ha'
      refine ⟨by unfold Held; rw [hadmits.mem]; exact hheld, hadmits.nextId, ?_, fun row hrow _ => ?_⟩
      · rw [hadmits.live, ← Option.not_isSome_iff_eq_none]
        exact fun hlive => absurd (hd.1.runIds a.runId hlive) (Nat.not_lt.mpr hadmits.new)
      · obtain ⟨new, hid, hrunning, hruns⟩ := hadmits.row
        rw [hruns, ← hid, show new.id = key new from rfl, Table.get?_put_self, Option.some.injEq] at hrow
        refine ⟨hrow ▸ hrunning, fun k => ?_⟩
        rw [hadmits.events, ← Option.not_isSome_iff_eq_none]
        exact fun hk => absurd (hi.ids a.runId k hk) (Nat.not_lt.mpr hadmits.new)
    · refine Safe.bind (R := fun _ _ => True) ?_ (fun _ _ _ => trivial) fun _ _ _ => trivial
      refine Safe.memory_known (Granted t a) (ha a rfl) stable_granted (fun w hi hgranted _ => ?_) fun _ _ _ => trivial
      obtain ⟨hi', hturn⟩ := hi.registered hgranted userId prompt
      exact ⟨hi', hturn, trivial⟩

end Admits

/-- **Admission**. -/
theorem holds_admission (userId : Nat) (prompt : String) (chatId : Option Nat) :
    Holds (writing cfg t) (fun _ => True) (withAdmission t (admitLocked cfg userId prompt chatId)) := by
  intro allow w _
  have hset : ∀ w holder, Journaled w →
      Journaled (w.setAdmission holder) ∧ Turn (some t) w (w.setAdmission holder) := fun w holder hi => by
    have hquiet : Quiet w (w.setAdmission holder) := .of_eq rfl (Nat.le_refl _) rfl rfl
    exact quiet_journaled cfg hi hquiet _
  refine Safe.bind (R := fun r w => r = .ok () → Held t w) ?_ (fun _ w hheld => ?_) fun _ _ _ => trivial
  · refine safe_waitFor (fun _ => True) trivial Guard.stable_true (fun w _ => .refl _ w) (fun w r w' hi _ hready => ?_)
      (fun _ _ _ _ _ h => by cases h) fun _ _ _ => trivial
    split at hready
    · cases hready
    · simp only [Option.some.injEq, Prod.mk.injEq] at hready
      obtain ⟨rfl, rfl⟩ := hready
      obtain ⟨hi', hturn⟩ := hset w (some t) hi
      exact ⟨hi', hturn, fun _ => rfl⟩
  · refine (safe_onExit _ _ _ _).mpr ((safe_admitted userId prompt chatId (hheld rfl)).mono fun r w _ => ?_)
    refine Safe.memory_known (fun _ => True) trivial Guard.stable_true (fun w hi _ _ => ?_) fun _ _ _ => trivial
    obtain ⟨hi', hturn⟩ := hset w none hi
    exact ⟨hi', hturn, trivial⟩

end Parts

/-! ## §6. Every reachable state. -/

/-- The task of a run starts as its writer. -/
def Begins (t : Nat) (k : WorkerCall) (w : World) : Prop := ∀ runId, k = .serve (.execute runId) → Working t runId w

theorem entered {k : WorkerCall} (hi : Journaled w) (h : enter t k w = some w') :
    Journaled w' ∧ Turn (some t) w w' ∧ Begins t k w' := by
  have hstart : ∀ {runId cancelled task}, startRun w runId cancelled task = some w' → task ≠ .created →
      Journaled w' ∧ Turn (some t) w w' ∧ (task = .running t → Working t runId w') := fun {runId _ task} h htask => by
    obtain ⟨live, hlive, hcreated, _, rfl⟩ := startRun_cases h
    have hlives := lives_modifyLive w runId (f := fun live => { live with task }) fun _ => rfl
    refine ⟨hi.same_events hlives (fun _ => rfl) fun _ _ heq => absurd heq htask,
      hlives.turn_free (fun _ => rfl) (fun live' hlive' => .inr ?_) (fun _ _ _ ht => ht) _, fun hrunning => ⟨?_, ?_⟩⟩
    · rw [hlive, Option.some.injEq] at hlive'
      exact hlive' ▸ hcreated
    · refine ⟨{ live with task }, ?_, hrunning⟩
      rw [hlives.self, hlive]
      rfl
    · intro row hrow hattended
      obtain ⟨n, hjournal⟩ := hi.journals runId row hrow hattended
      have hid : row.id = runId := Table.key_of_get? hrow
      exact hjournal.created live (hid ▸ hlive) hcreated
  have hnone : ∀ {k}, (∀ runId, k ≠ .serve (.execute runId)) → Begins t k w' := fun hk runId heq => absurd heq (hk runId)
  have hquiet : Quiet w w' → (∀ runId, k ≠ .serve (.execute runId)) →
      Journaled w' ∧ Turn (some t) w w' ∧ Begins t k w' := fun h hk => by
    obtain ⟨hi', hturn⟩ := quiet_journaled legacyConfig hi h (some t)
    exact ⟨hi', hturn, hnone hk⟩
  cases k
  case serve call =>
    cases call
    case execute runId =>
      obtain ⟨hi', hturn, hworking⟩ := hstart h (by simp)
      refine ⟨hi', hturn, fun runId' heq => ?_⟩
      obtain rfl : runId = runId' := by
        injection heq with heq
        injection heq
      exact hworking rfl
    case drop runId =>
      obtain ⟨hi', hturn, _⟩ := hstart h (by simp)
      exact ⟨hi', hturn, hnone fun _ => by simp⟩
    case upload u =>
      simp only [enter, Service.enter, Option.ite_none_right_eq_some, Option.some.injEq] at h
      exact hquiet (h.2 ▸ .of_eq rfl (Nat.le_refl _) rfl rfl) fun _ => by simp
    all_goals exact hquiet (Option.some.inj h ▸ .refl w) fun _ => by simp
  case reconcile =>
    simp only [enter, Option.ite_none_right_eq_some, Option.some.injEq] at h
    exact hquiet (h.2 ▸ .refl w) fun _ => by simp
  all_goals exact hquiet (Option.some.inj h ▸ .refl w) fun _ => by simp

/-- **Every task** keeps every log complete. -/
theorem journals_sound (cfg : Config) : SoundOver (worker cfg) Always (settled cfg)
    ⟨Journaled, Turn, fun _ _ _ => True⟩ fun _ _ _ _ => True := by
  refine SoundOver.of_holds (P := Begins) (fun t k w hbegins => ⟨fun _ _ => True, fun allow => ?_⟩)
    (fun t k w w' _ _ _ hi he => entered hi he) (fun d w w' _ _ hi he => ?_) fun d w w' _ _ hi hc => ?_
  · by_cases hk : ∃ runId, k = .serve (.execute runId)
    · obtain ⟨runId, rfl⟩ := hk
      exact safe_execution (hbegins runId rfl)
    · have htrue : Lasting cfg t fun _ => True := lasting_true
      exact closed_callBody (lasting_parts htrue) t k holds_admission (fun runId heq => absurd ⟨runId, heq⟩ hk) holds_cancellation allow w
        trivial
  · have hbasic : Basic cfg w w' := .quiet (quiet_environment he)
    exact ⟨hi.basic hbasic, basic_turn hbasic none⟩
  · exact Option.some.inj hc ▸ hi.restarted

/-- **Every log is complete** in every reachable state. -/
theorem journaled (hw : Deployed w) {q : Pool Nat WorkerCall World Label Exc Datum}
    (h : (worker cfg).Reaches Always (Pool.start w) q) : (settled cfg).inv q.shared ∧ Journaled q.shared :=
  ((journals_sound cfg).sound (settled_sound cfg)).reaches (Sound.good_start ⟨hw.settled, hw.journaled⟩) h |>.1

end WebBuilder.Worker
