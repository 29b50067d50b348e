/-
  WebBuilder.Worker.Pointers — no update of a project is lost.

  A checkpoint is recorded, uploaded and promoted in three steps, and between
  them other tasks record, promote, prune and delete.  What a task has read
  of a revision holds of its row later on, but for the status; what a running
  request has saved stays ready as long as the request runs.  With this, every
  await of the worker keeps `Checkpointed`.

  Main results:
    * `history_linear` — the promotions of a project form one chain, which
      leads to its saved revision;
    * `saved_never_older` — the saved revision is never replaced by an older one;
    * `pointers_ready` — saved and verified pointers name ready revisions.
-/
import WebBuilder.Worker.History

namespace WebBuilder.Worker

open WebBuilder.Async WebBuilder.Store WebBuilder.Budget WebBuilder.Run WebBuilder.Service

variable {α : Type} {cfg : Config} {w w' : World} {runId : Nat}

/-! ## §1. What the live runs have saved. -/

/-- The request `i` of the project `c` is running. -/
def RunOn (w : World) (i c : Nat) : Prop := ∃ row, w.db.runs.get? i = some row ∧ row.chatId = c ∧ row.status = .running

theorem RunOn.hasRunning {i c : Nat} (h : RunOn w i c) : w.db.hasRunning c = true := by
  obtain ⟨row, hrow, hchat, hrunning⟩ := h
  exact List.any_eq_true.mpr ⟨row, Table.mem_of_get? hrow, by simp [hchat, hrunning]⟩

/-- The row of the run `i` says that it is of the project `c`. -/
def OfChat (i c : Nat) (w : World) : Prop := i < w.nextId ∧ ∀ row, w.db.runs.get? i = some row → row.chatId = c

/-- While the run `i` of the project `c` runs, `v` is a ready revision. -/
def ReadyFor (i c v : Nat) (w : World) : Prop := RunOn w i c → Ready w v c

/-- Live runs know their project, and what they have saved is ready. -/
structure Lively (w : World) : Prop where
  chats : ∀ i live, w.live? i = some live → OfChat i live.chatId w
  revisions : ∀ i live v, w.live? i = some live → live.revisionId = some v → ReadyFor i live.chatId v w

theorem OfChat.step {i c : Nat} (h : RunMove w w') (hw : OfChat i c w) : OfChat i c w' := by
  refine ⟨hw.1.trans_le h.nextId, fun row' hrow' => ?_⟩
  rcases h.rows hrow' with ⟨row, hrow, hchat, _⟩ | ⟨hnew, _⟩
  · rw [hchat]
    exact hw.2 row hrow
  · exact absurd hw.1 (Nat.not_lt.mpr hnew)

theorem RunOn.before {i c : Nat} (h : RunMove w w') (hi : i < w.nextId) (hrun : RunOn w' i c) : RunOn w i c := by
  obtain ⟨row', hrow', hchat, hrunning⟩ := hrun
  obtain ⟨row, hrow, hsame, hwas⟩ := h.from_running hi hrow' hrunning
  exact ⟨row, hrow, hsame.trans hchat, hwas⟩

theorem ReadyFor.step {i c v : Nat} (hshelf : ShelfMove cfg w w') (hruns : RunMove w w') (hshelved : Shelved w)
    (hi : i < w.nextId) (hw : ReadyFor i c v w) : ReadyFor i c v w' := by
  intro hrun
  exact Ready.of_move hshelf hshelved (hw (hrun.before hruns hi)) (.inl hrun.hasRunning)

/-- Nothing happens to the live runs themselves. -/
theorem Lively.of_held (hw : Lively w) (hshelf : ShelfMove cfg w w') (hruns : RunMove w w') (hshelved : Shelved w)
    (hheld : ∀ r, (w'.live? r).map held = (w.live? r).map held) : Lively w' := by
  have hlive : ∀ i live', w'.live? i = some live' → ∃ live, w.live? i = some live ∧ held live = held live' :=
    fun i live' hlive' => by
      have hkept := hheld i
      rw [hlive', Option.map_some] at hkept
      exact Option.map_eq_some_iff.mp hkept.symm
  refine ⟨fun i live' hlive' => ?_, fun i live' v hlive' hv => ?_⟩
  · obtain ⟨live, hlive, hsame⟩ := hlive i live' hlive'
    have hchat : live.chatId = live'.chatId := congrArg (fun x => x.2.1) hsame
    exact hchat ▸ (hw.chats i live hlive).step hruns
  · obtain ⟨live, hlive, hsame⟩ := hlive i live' hlive'
    have hchat : live.chatId = live'.chatId := congrArg (fun x => x.2.1) hsame
    have hrevision : live.revisionId = live'.revisionId := congrArg (fun x => x.2.2) hsame
    have hready := hw.revisions i live v hlive (hrevision.trans hv)
    exact hchat ▸ hready.step hshelf hruns hshelved (hw.chats i live hlive).1

/-! ## §2. The invariant. -/

/-- All that is known of checkpoints between any two steps. -/
structure Checkpointed (w : World) : Prop where
  shelved : Shelved w
  runIds : RunIds w
  lineal : Lineal w
  pointed : Pointed w
  lively : Lively w

theorem Checkpointed.saved_lt (hw : Checkpointed w) (c : Nat) (chat : Chat) (v : Nat)
    (hchat : w.db.chats.get? c = some chat) (hsaved : chat.latestSavedRevisionId = some v) : v < w.nextId :=
  hw.pointed.lt hw.shelved ⟨chat, hchat, .inl hsaved⟩

/-- A step that moves no pointer, and leaves the live runs alone. -/
theorem Checkpointed.tidy (hw : Checkpointed w) (htidy : TidyMove cfg w w') (hruns : RunMove w w')
    (hheld : ∀ r, (w'.live? r).map held = (w.live? r).map held) : Checkpointed w' where
  shelved := shelved_tidy htidy.1 hw.shelved
  runIds := hruns.ids hw.runIds
  lineal := htidy.1.lineal htidy.2 hw.lineal hw.saved_lt
  pointed := htidy.1.pointed htidy.2 hw.shelved hw.pointed
  lively := hw.lively.of_held (.tidy htidy.1 htidy.2) hruns hw.shelved hheld

/-- A plain step leaves of a live run what its checkpoints depend on. -/
theorem plain_held (h : Plain cfg w w') (r : Nat) : (w'.live? r).map held = (w.live? r).map held := by
  cases h with
  | basic h =>
      have hkept := congrArg (fun x : Option Progress => x.map fun p => (p.id, p.chatId, p.revisionId)) (basic_progress h r)
      rwa [Option.map_map, Option.map_map] at hkept
  | event => rfl
  | progress _ _ _ hlives => exact hlives r

theorem Checkpointed.plain (hw : Checkpointed w) (h : Plain cfg w w') : Checkpointed w' :=
  hw.tidy (plain_shelf h) (change_runs (.plain h)) (plain_held h)

theorem admission_mem {userId : Nat} {prompt : String} {chatId : Option Nat} {busy : Bool} {a : Admitted}
    (h : admitRows cfg userId prompt chatId busy w = .ok (a, w')) : w'.mem = w.mem ∧ OfChat a.runId a.chatId w' := by
  obtain ⟨user, c, w₁, hchat, hinsert⟩ := admitRows_cases h
  obtain ⟨rfl, rfl⟩ := Prod.mk.inj hinsert
  refine ⟨?_, ?_, fun row hrow => ?_⟩
  · show w₁.mem = w.mem
    rcases admitChat_cases hchat with ⟨_, _, _, _, _, rfl⟩ | ⟨_, _, rfl⟩
    · rfl
    · rfl
  · show w₁.nextId < w₁.nextId + 2
    omega
  · have hput := Table.get?_put_self w₁.db.runs ⟨w₁.nextId, c, prompt, .running, none, w₁.now, none, none, none⟩
    rw [← Option.some.inj (hput.symm.trans hrow)]

theorem Checkpointed.admitted {userId : Nat} {prompt : String} {chatId : Option Nat} {busy : Bool} {a : Admitted}
    (hw : Checkpointed w) (h : admitRows cfg userId prompt chatId busy w = .ok (a, w')) : Checkpointed w' := by
  refine hw.tidy (admission_shelf h) (admission_runs h) fun r => ?_
  unfold World.live?
  rw [(admission_mem h).1]

/-- **A new live run** knows its project, and has saved nothing. -/
theorem Checkpointed.registered {a : Admitted} (userId : Nat) (prompt : String) (hw : Checkpointed w)
    (ha : OfChat a.runId a.chatId w) : Checkpointed { w with mem := w.mem.register a userId prompt } := by
  have hruns : ∀ i live', (w.mem.register a userId prompt).runs.get? i = some live' →
      (i = a.runId ∧ live'.chatId = a.chatId ∧ live'.revisionId = none) ∨ w.live? i = some live' :=
    fun i live' hlive' => by
      have hlive' : (w.mem.runs.put _).get? i = some live' := hlive'
      rw [Table.get?_put] at hlive'
      split at hlive'
      · cases hlive'
        exact .inl ⟨‹_›, rfl, rfl⟩
      · exact .inr hlive'
  have hlively : Lively { w with mem := w.mem.register a userId prompt } := by
    refine ⟨fun i live' hlive' => ?_, fun i live' v hlive' hv => ?_⟩
    · rcases hruns i live' hlive' with ⟨rfl, hchat, _⟩ | hlive
      · exact hchat ▸ ha
      · exact hw.lively.chats i live' hlive
    · rcases hruns i live' hlive' with ⟨_, _, hnone⟩ | hlive
      · rw [hnone] at hv
        cases hv
      · exact hw.lively.revisions i live' v hlive hv
  exact ⟨⟨hw.shelved.chatIds, hw.shelved.revisionIds, hw.shelved.revisionChats⟩, hw.runIds,
    ⟨hw.lineal.older, hw.lineal.ids, hw.lineal.chain, hw.lineal.newer, hw.lineal.ready⟩, hw.pointed, hlively⟩

/-- **A saved checkpoint** enters the record of its run. -/
theorem Checkpointed.saved {c v : Nat} (event : Option Event) (hw : Checkpointed w) (hchat : OfChat runId c w)
    (hready : ReadyFor runId c v w) : Checkpointed (w.modifyLive runId (LiveRun.saved v event)) := by
  have hlives : ∀ i live', (w.modifyLive runId (LiveRun.saved v event)).live? i = some live' →
      ∃ live, w.live? i = some live ∧ live'.chatId = live.chatId ∧
        (live'.revisionId = live.revisionId ∨ i = runId ∧ live'.revisionId = some v) := fun i live' hlive' => by
    have hlive' : (w.mem.runs.modify runId (LiveRun.saved v event)).get? i = some live' := hlive'
    rw [Table.get?_modify w.mem.runs runId (LiveRun.saved v event) fun _ => rfl] at hlive'
    split at hlive'
    · rename_i hi
      obtain ⟨live, hlive, rfl⟩ := Option.map_eq_some_iff.mp hlive'
      exact ⟨live, hi ▸ hlive, rfl, .inr ⟨hi, rfl⟩⟩
    · exact ⟨live', hlive', rfl, .inl rfl⟩
  have hlively : Lively (w.modifyLive runId (LiveRun.saved v event)) := by
    refine ⟨fun i live' hlive' => ?_, fun i live' v' hlive' hv' => ?_⟩
    · obtain ⟨live, hlive, hsame, _⟩ := hlives i live' hlive'
      rw [hsame]
      exact hw.lively.chats i live hlive
    · obtain ⟨live, hlive, hsame, hrevision | ⟨rfl, hsaved⟩⟩ := hlives i live' hlive'
      · rw [hsame]
        exact hw.lively.revisions i live v' hlive (hrevision.symm.trans hv')
      · obtain rfl : v = v' := Option.some.inj (hsaved.symm.trans hv')
        intro hrun
        -- the project of the row is the one it was saved for
        obtain ⟨row, hrow, hof, hrunning⟩ := hrun
        have hc : live'.chatId = c := hof.symm.trans (hchat.2 row hrow)
        rw [hc]
        exact hready ⟨row, hrow, hchat.2 row hrow, hrunning⟩
  exact ⟨⟨hw.shelved.chatIds, hw.shelved.revisionIds, hw.shelved.revisionChats⟩, hw.runIds,
    ⟨hw.lineal.older, hw.lineal.ids, hw.lineal.chain, hw.lineal.newer, hw.lineal.ready⟩, hw.pointed, hlively⟩

/-- What a task has read of a revision holds of its row, but for the status. -/
def Known (revision : ProjectRevision) (w : World) : Prop :=
  revision.id < w.nextId ∧ ∀ row, w.db.revisions.get? revision.id = some row → SameRevision revision row

/-- **A promotion** of a revision that was read before. -/
theorem Checkpointed.promoted {revision : ProjectRevision} {event : Option Event} {recovery : Bool} (hw : Checkpointed w)
    (hknown : Known revision w) (hkind : ∀ e ∈ event, e.kind.isFinish = false)
    (h : promoteLocked revision event recovery w = .ok ((), w')) : Checkpointed w' ∧ Change cfg w w' := by
  have hchange : Change cfg w w' := .promote revision event recovery hkind h
  have hshelf := change_shelf hchange
  have hruns := change_runs hchange
  refine ⟨?_, hchange⟩
  rcases promoteLocked_cases h with ⟨_, rfl⟩ | ⟨chat, row, db, _, hchat, hparent, _, hrow, hdb, rfl⟩
  · exact hw
  · have hsame := hknown.2 row hrow
    have htables := addEvent?_cases hdb
    have hchats := congrArg Database.chats htables
    have hrevisions := congrArg Database.revisions htables
    have hpromotions := congrArg Database.promotions htables
    exact ⟨shelved_move hshelf hw.shelved, hruns.ids hw.runIds,
      lineal_promoted hw.lineal hw.shelved hchat hparent hrow hsame rfl hchats hrevisions hpromotions,
      pointed_promoted hshelf hw.shelved hw.pointed hchat hsame hchats hrevisions,
      hw.lively.of_held hshelf hruns hw.shelved fun _ => rfl⟩

/-- What a promotion leaves behind is ready. -/
theorem ready_promoted {revision : ProjectRevision} {event : Option Event} {recovery : Bool} (hknown : Known revision w)
    (h : promoteLocked revision event recovery w = .ok ((), w')) :
    (revision.status = .ready ∧ w' = w) ∨ Ready w' revision.id revision.chatId := by
  rcases promoteLocked_cases h with ⟨hready, rfl⟩ | ⟨chat, row, db, _, _, _, _, hrow, hdb, rfl⟩
  · exact .inl ⟨hready, rfl⟩
  · have hrevisions := congrArg Database.revisions (addEvent?_cases hdb)
    have hid : row.id = revision.id := Table.key_of_get? hrow
    refine .inr ⟨{ row with status := .ready }, ?_, (hknown.2 row hrow).chatId, rfl⟩
    show db.revisions.get? revision.id = _
    rw [hrevisions, ← hid]
    exact Table.get?_put_self _ _

theorem finishRun_mem {live : LiveRun} {status : RunStatus} {reason : String} {url : Option String} {v : Option Event}
    (h : finishRun live status reason url w = .ok (v, w')) : w'.mem = w.mem := by
  rcases finishRun_cases h with ⟨_, rfl, _⟩ | ⟨run, w₁, _, _, _, hmark, _, rfl⟩
  · rfl
  · rcases markVerified_eq hmark with ⟨rfl, _⟩ | ⟨r, revisionId, _, _, _, _, rfl⟩
    · rfl
    · rfl

/-- What `finish` has read of its run: the project, and a ready checkpoint. -/
def Finishable (live : LiveRun) (w : World) : Prop :=
  OfChat live.id live.chatId w ∧ ∀ v, live.revisionId = some v → ReadyFor live.id live.chatId v w

/-- **The end of a run** verifies what is ready. -/
theorem Checkpointed.finished {live : LiveRun} {status : RunStatus} {reason : String} {url : Option String}
    {v : Option Event} (hw : Checkpointed w) (hlive : Finishable live w) (hstatus : status ≠ .running)
    (h : finishRun live status reason url w = .ok (v, w')) : Checkpointed w' ∧ Change cfg w w' := by
  have hchange : Change cfg w w' := .finish live status reason url hstatus h
  have hshelf := change_shelf hchange
  have hruns := change_runs hchange
  have hheld : ∀ r, (w'.live? r).map held = (w.live? r).map held := fun r => by
    unfold World.live?
    rw [finishRun_mem h]
  refine ⟨?_, hchange⟩
  have hend : TidyMove cfg w w' ∨ _ := finish_shelf h
  rcases hend with htidy | ⟨run, revisionId, hrun, hrunning, hrevision, hid, hchats, hrevisions, hpromotions⟩
  · exact hw.tidy htidy hruns hheld
  · have hon : RunOn w live.id live.chatId := ⟨run, hrun, hlive.1.2 run hrun, hrunning⟩
    exact ⟨shelved_move hshelf hw.shelved, hruns.ids hw.runIds,
      lineal_verified hw.lineal hid hchats hrevisions hpromotions,
      pointed_verified hw.pointed hchats hrevisions (hlive.2 revisionId hrevision hon),
      hw.lively.of_held hshelf hruns hw.shelved hheld⟩

theorem Checkpointed.restarted (cfg : Config) (hw : Checkpointed w) : Checkpointed w.restart := by
  obtain ⟨htidy, hpromotions⟩ := restart_shelf cfg w
  refine ⟨shelved_tidy htidy hw.shelved, fun i hi => ?_, htidy.lineal hpromotions hw.lineal hw.saved_lt,
    htidy.pointed hpromotions hw.shelved hw.pointed, ⟨fun i live hlive => ?_, fun i live v hlive => ?_⟩⟩
  · obtain ⟨row', hrow'⟩ := Option.isSome_iff_exists.mp hi
    obtain ⟨_, row, hrow, _⟩ := restart_rows hrow'
    exact hw.runIds i (hrow ▸ rfl)
  · cases hlive
  · cases hlive

theorem Deployed.checkpointed (h : Deployed w) : Checkpointed w := by
  refine ⟨h.shelved, fun i hi => ?_, ⟨fun v r hr => ?_, fun p hp => ?_, fun c => ?_, fun c s hs => ?_, fun v r hr => ?_⟩,
    ?_, ⟨fun i live hlive => ?_, fun i live v hlive => ?_⟩⟩
  · rw [h.runs] at hi
    cases hi
  · rw [h.revisions] at hr
    cases hr
  · rw [h.promotions] at hp
    cases hp
  · refine ⟨none, ?_, fun chat hchat => ?_⟩
    · unfold checkpoints
      rw [h.promotions]
      rfl
    · rw [h.chats] at hchat
      cases hchat
  · unfold checkpoints at hs
    rw [h.promotions] at hs
    cases hs
  · rw [h.revisions] at hr
    cases hr
  · rintro c v ⟨chat, hchat, _⟩
    rw [h.chats] at hchat
    cases hchat
  · unfold World.live? at hlive
    rw [h.mem] at hlive
    cases hlive
  · unfold World.live? at hlive
    rw [h.mem] at hlive
    cases hlive

/-! ## §3. What a task knows between its steps. -/

/-- Every task keeps the invariant and makes steps of the worker. -/
abbrev tasks (cfg : Config) : Guard World Label Exc Datum := Guard.common Checkpointed (Change cfg)

theorem stable_ofChat {i c : Nat} : (tasks cfg).Stable (OfChat i c) :=
  fun _ _ _ _ h hw => hw.step (change_runs h)

/-- A run that is old enough, and its ready checkpoint. -/
def HasReady (i c v : Nat) (w : World) : Prop := i < w.nextId ∧ ReadyFor i c v w

theorem stable_hasReady {i c v : Nat} : (tasks cfg).Stable (HasReady i c v) :=
  fun _ _ hi _ h hw => ⟨hw.1.trans_le (change_runs h).nextId,
    hw.2.step (change_shelf h) (change_runs h) hi.shelved hw.1⟩

theorem stable_known {revision : ProjectRevision} : (tasks cfg).Stable (Known revision) := by
  intro w w' _ _ h hw
  refine ⟨hw.1.trans_le (change_shelf h).nextId, fun row' hrow' => ?_⟩
  obtain ⟨row, hrow, hsame⟩ := (change_shelf h).revisions hw.1 hrow'
  exact (hw.2 row hrow).trans hsame

theorem stable_finishable {live : LiveRun} : (tasks cfg).Stable (Finishable live) := by
  intro w w' hi _ h hw
  refine ⟨hw.1.step (change_runs h), fun v hv => ?_⟩
  exact (hw.2 v hv).step (change_shelf h) (change_runs h) hi.shelved hw.1.1

section Parts

variable {allow : Label → Answer Exc Datum → World → Prop} {A : World → Prop}

/-- What a task knows survives its own plain parts. -/
theorem safe_plain (hA : (tasks cfg).Stable A) {p : Act α} (hp : p.Within (Plain cfg)) (hw : A w) :
    Safe ((tasks cfg).open allow) p (fun _ => A) w :=
  Holds.of_within hA (fun w w' hi ha _ h => ⟨hi.plain h, .plain h, hA w w' hi (hi.plain h) (.plain h) ha⟩) hp allow w hw

theorem holds_plain {p : Act α} (hp : p.Within (Plain cfg)) : Holds (tasks cfg) (fun _ => True) p :=
  fun _ _ _ => safe_plain Guard.stable_true hp trivial

/-! ### Promotions. -/

/-- **`promote`**: what is known of the revision when it is read is known when
it is promoted. -/
theorem safe_promote (id : Nat) (event : Option Event) (recovery : Bool)
    (hkind : ∀ e ∈ event, e.kind.isFinish = false) (hA : (tasks cfg).Stable A) {B : ProjectRevision → World → Prop}
    (hB : ∀ revision, (tasks cfg).Stable (B revision)) {C : World → Prop}
    (hread : ∀ w revision, Checkpointed w → A w → w.db.revisions.get? id = some revision → B revision w)
    (hdone : ∀ revision w w', Checkpointed w → Known revision w → B revision w →
      promoteLocked revision event recovery w = .ok ((), w') → C w') (hw : A w) :
    Safe ((tasks cfg).open allow) (promote id event recovery) (fun r w => ∀ u, r = .ok u → C w) w := by
  refine Safe.bind (R := fun r w => ∀ revision, r = .ok (some revision) → Known revision w ∧ B revision w) ?_
    (fun found w' hfound => ?_) fun _ _ _ u hu => by cases hu
  · refine safe_query A hw hA (fun w _ => change_refl w) (fun w hi ha revision hr => ?_) (fun w e _ _ revision hr => ?_)
      fun _ _ _ => trivial
    · have hr : w.db.revisions.get? id = some revision := Except.ok.inj hr
      obtain rfl : revision.id = id := Table.key_of_get? hr
      refine ⟨⟨hi.shelved.revisionIds _ (hr ▸ rfl), fun row hrow => ?_⟩, hread w revision hi ha hr⟩
      rw [hr, Option.some.injEq] at hrow
      exact hrow ▸ .refl revision
    · cases hr
  · cases found with
    | none => exact fun u hu => by cases hu
    | some revision =>
        refine safe_transaction (fun w => Known revision w ∧ B revision w) (hfound revision rfl)
          (stable_known.and (hB revision)) (fun w _ => change_refl w) (fun w _ w' hi hp _ h => ?_)
          (fun _ _ _ _ _ u hu => by cases hu) fun _ _ _ => trivial
        obtain ⟨hi', hchange⟩ := hi.promoted hp.1 hkind h
        exact ⟨hi', hchange, fun u _ => hdone revision w w' hi hp.1 hp.2 h, fun _ _ u hu => by cases hu⟩

/-- Any promotion keeps the invariant. -/
theorem holds_promote (id : Nat) (recovery : Bool) : Holds (tasks cfg) (fun _ => True) (promote id none recovery) :=
  fun _ _ hw => (safe_promote id none recovery (fun _ he => by cases he) Guard.stable_true (B := fun _ _ => True)
    (fun _ => Guard.stable_true) (C := fun _ => True) (fun _ _ _ _ _ => trivial) (fun _ _ _ _ _ _ _ => trivial)
    hw).mono fun _ _ _ => trivial

/-- The old snapshot of a project becomes its first checkpoint. -/
theorem holds_saveLegacy (c : Nat) (archive : Bytes) (template : String) :
    Holds (tasks cfg) (fun _ => True) (saveRevision cfg c none archive template none) := by
  have hclosed := closed_holds (tasks cfg) fun _ => True
  refine hclosed.bind (holds_plain (plain_quiet quiet_toThread)) fun files => hclosed.bind (holds_plain
    (within_transaction (fun w => .basic (.refl w)) fun _ _ _ h => .basic (.record _ _ _ _ _ h))) fun recorded => ?_
  cases recorded with
  | inl id => exact hclosed.done _
  | inr revision =>
      refine hclosed.bind (holds_plain (plain_quiet (quiet_putObject _ _ _))) fun _ => ?_
      -- no event is promoted with it
      show Holds (tasks cfg) (fun _ => True) ((promote revision.id none false).bind fun _ => pure (revision.id, none))
      exact hclosed.bind (holds_promote _ _) fun _ => hclosed.done _

/-! ### Checkpoints of a run. -/

/-- The revision `v` is old enough, and its row says that it is of the project `c`. -/
def RevisionOf (v c : Nat) (w : World) : Prop := v < w.nextId ∧ ∀ row, w.db.revisions.get? v = some row → row.chatId = c

theorem stable_revisionOf {v c : Nat} : (tasks cfg).Stable (RevisionOf v c) := by
  intro w w' _ _ h hw
  refine ⟨hw.1.trans_le (change_shelf h).nextId, fun row' hrow' => ?_⟩
  obtain ⟨row, hrow, hsame⟩ := (change_shelf h).revisions hw.1 hrow'
  rw [hsame.chatId]
  exact hw.2 row hrow

/-- **The promotion of a run's checkpoint** leaves it ready for the run. -/
theorem safe_promoteFor {i c : Nat} (id : Nat) (event : Option Event) (recovery : Bool)
    (hkind : ∀ e ∈ event, e.kind.isFinish = false) (hw : OfChat i c w ∧ RevisionOf id c w) :
    Safe ((tasks cfg).open allow) (promote id event recovery) (fun r w => ∀ u, r = .ok u → ReadyFor i c id w) w := by
  refine safe_promote id event recovery hkind (stable_ofChat.and stable_revisionOf)
    (B := fun revision w => revision.id = id ∧ revision.chatId = c ∧
      (revision.status = .ready → HasReady i c id w)) ?_ ?_ ?_ hw
  · intro revision w w' hi hi' h hb
    exact ⟨hb.1, hb.2.1, fun hready => stable_hasReady w w' hi hi' h (hb.2.2 hready)⟩
  · intro w revision _ ha hr
    have hchat : revision.chatId = c := ha.2.2 revision hr
    exact ⟨Table.key_of_get? hr, hchat, fun hready => ⟨ha.1.1, fun _ => ⟨revision, hr, hchat, hready⟩⟩⟩
  · intro revision w w' _ hknown hb h
    obtain ⟨hid, hchat, hwas⟩ := hb
    rcases ready_promoted hknown h with ⟨hready, rfl⟩ | hready
    · exact (hwas hready).2
    · exact fun _ => hid ▸ hchat ▸ hready

/-- What the transaction of `save_revision` has found or recorded. -/
theorem recorded_revision {c : Nat} {owner : Option Nat} {archive : Bytes} {files : Manifest} {template : String}
    {v : Nat ⊕ ProjectRevision} (hw : Checkpointed w) (h : recordRevision cfg c owner archive files template w = .ok (v, w')) :
    (∃ id, v = .inl id ∧ Ready w' id c) ∨ ∃ revision, v = .inr revision ∧ RevisionOf revision.id c w' := by
  obtain ⟨chat, hchat, ⟨r, hr, hready, _, rfl, rfl⟩ | ⟨rfl, rfl⟩⟩ := recordRevision_cases h
  · obtain ⟨id, hsaved, hrow⟩ := Option.bind_eq_some_iff.mp hr
    obtain rfl : r.id = id := Table.key_of_get? hrow
    exact .inl ⟨r.id, rfl, hw.pointed c r.id ⟨chat, hchat, .inl hsaved⟩⟩
  · refine .inr ⟨_, rfl, Nat.lt_succ_self _, fun row hrow => ?_⟩
    have hput := Table.get?_put_self w.db.revisions (newRevision cfg w chat c owner archive files template)
    rw [← Option.some.inj (hput.symm.trans hrow)]
    rfl

/-- **`save_revision`** for a run: what it returns is ready as long as the run runs. -/
theorem safe_saveRevision {i c : Nat} (owner : Option Nat) (archive : Bytes) (template : String)
    (eventFactory : Option (Nat → World → Event))
    (hkind : ∀ f ∈ eventFactory, ∀ id w, (f id w).kind.isFinish = false) (hw : OfChat i c w) :
    Safe ((tasks cfg).open allow) (saveRevision cfg c owner archive template eventFactory)
      (fun r w => ∀ x, r = .ok x → ReadyFor i c x.1 w) w := by
  refine Safe.bind (safe_plain stable_ofChat (plain_quiet quiet_toThread) hw) (fun files w hw => ?_)
    fun _ _ _ x hx => by cases hx
  refine Safe.bind (R := fun r w => OfChat i c w ∧ ∀ v, r = .ok v →
      (∀ id, v = .inl id → ReadyFor i c id w) ∧ ∀ revision, v = .inr revision → RevisionOf revision.id c w) ?_
    (fun recorded w hrecorded => ?_) fun _ _ _ x hx => by cases hx
  · refine safe_transaction (OfChat i c) hw stable_ofChat (fun w _ => change_refl w) (fun w v w' hi ha _ h => ?_)
      (fun w e _ ha _ => ⟨ha, fun v hv => by cases hv⟩) fun _ _ _ => trivial
    have hplain : Plain cfg w w' := .basic (.record c owner archive files template h)
    have ha' := stable_ofChat w w' hi (hi.plain hplain) (.plain hplain) ha
    refine ⟨hi.plain hplain, .plain hplain, ⟨ha', fun v' hv' => ?_⟩, fun e _ => ⟨ha', fun v hv => by cases hv⟩⟩
    obtain rfl := Except.ok.inj hv'
    rcases recorded_revision hi h with ⟨id, rfl, hready⟩ | ⟨revision, rfl, hof⟩
    · exact ⟨fun id' hid => fun _ => Sum.inl.inj hid ▸ hready, fun _ hr => by cases hr⟩
    · exact ⟨(fun _ hid => by cases hid), fun _ hr => Sum.inr.inj hr ▸ hof⟩
  · obtain ⟨hof, hrecorded⟩ := hrecorded
    cases recorded with
    | inl id => exact fun x hx => Except.ok.inj hx ▸ (hrecorded (.inl id) rfl).1 id rfl
    | inr revision =>
        have hrevision := (hrecorded (.inr revision) rfl).2 revision rfl
        have hstable : (tasks cfg).Stable fun w => OfChat i c w ∧ RevisionOf revision.id c w :=
          stable_ofChat.and stable_revisionOf
        refine Safe.bind (safe_plain hstable (plain_quiet (quiet_putObject _ _ _)) ⟨hof, hrevision⟩)
          (fun _ w hw => ?_) fun _ _ _ x hx => by cases hx
        refine Safe.bind (R := fun r w => (OfChat i c w ∧ RevisionOf revision.id c w) ∧
            ∀ event, r = .ok event → ∀ e ∈ event, e.kind.isFinish = false) ?_
          (fun event w hw => ?_) fun _ _ _ x hx => by cases hx
        · cases eventFactory with
          | none => exact ⟨hw, fun event he e hmem => by cases he; cases hmem⟩
          | some f =>
              refine (safe_plain hstable (plain_quiet quiet_read) hw).returns (Q := fun (event : Option Event) =>
                ∀ e ∈ event, e.kind.isFinish = false) ?_
              refine each_memory (fun _ _ => trivial) fun w event he e hmem => ?_
              obtain rfl := Except.ok.inj he
              exact Option.some.inj hmem ▸ hkind f rfl revision.id w
        · refine Safe.bind (safe_promoteFor revision.id event false (hw.2 event rfl) hw.1) (fun u w hready => ?_)
            fun _ _ _ x hx => by cases hx
          exact fun x hx => Except.ok.inj hx ▸ hready u rfl

/-- **`save_files`** records for its run what is ready. -/
theorem holds_saveFiles : Holds (tasks cfg) (fun _ => True) (saveFiles cfg runId) := by
  intro allow w _
  refine Safe.bind (R := fun r w => ∀ live, r = .ok (some live) → OfChat runId live.chatId w) ?_
    (fun found w hfound => ?_) fun _ _ _ => trivial
  · refine safe_memory (fun _ => True) trivial Guard.stable_true (fun w hi _ => ⟨hi, change_refl w, fun live hlive => ?_⟩)
      fun _ _ _ => trivial
    exact hi.lively.chats runId live (Except.ok.inj hlive)
  · cases found with
    | none => trivial
    | some live =>
        have hof := hfound live rfl
        dsimp only
        split
        · trivial
        · split
          · trivial
          · refine Safe.bind (safe_plain stable_ofChat (plain_quiet (quiet_latestRevision _)) hof)
              (fun current w hof => ?_) fun _ _ _ => trivial
            refine Safe.bind (safe_plain stable_ofChat (plain_quiet quiet_archiveSlot) hof)
              (fun _ w hof => ?_) fun _ _ _ => trivial
            refine Safe.bind (safe_plain stable_ofChat (plain_quiet (quiet_packSandbox _)) hof)
              (fun archive w hof => ?_) fun _ _ _ => trivial
            refine Safe.bind (Safe.frame (P := OfChat runId live.chatId) (g := (tasks cfg).open allow) stable_ofChat
              (fun w w' hi hi' h => stable_ofChat w w' hi hi' h)
              (safe_saveRevision (some runId) archive (templateFor cfg current) (some (checkpointEvent runId live))
                (fun f hf id w => Option.some.inj hf ▸ rfl) hof) hof) (fun saved w hsaved => ?_) fun _ _ _ => trivial
            refine safe_memory (fun w => OfChat runId live.chatId w ∧ HasReady runId live.chatId saved.1 w)
              ⟨hsaved.2, hsaved.2.1, hsaved.1 saved rfl⟩ (stable_ofChat.and stable_hasReady)
              (fun w hi hp => ⟨hi.saved saved.2 hp.1 hp.2.2, .saved runId saved.1 saved.2, trivial⟩) fun _ _ _ => trivial

/-- **`finish`** verifies what its run has saved. -/
theorem holds_finish (op : Op) (status : RunStatus) (reason : String) (url : Option String)
    (hstatus : status ≠ .running) : Holds (tasks cfg) (fun _ => True) (finish op runId status reason url) := by
  intro allow w _
  refine Safe.bind (R := fun r w => ∀ live, r = .ok (some live) → Finishable live w) ?_
    (fun found w hfound => ?_) fun _ _ _ => trivial
  · refine safe_memory (fun _ => True) trivial Guard.stable_true (fun w hi _ => ⟨hi, change_refl w, fun live hlive => ?_⟩)
      fun _ _ _ => trivial
    have hlive : w.live? runId = some live := Except.ok.inj hlive
    obtain rfl : live.id = runId := Table.key_of_get? hlive
    exact ⟨hi.lively.chats _ live hlive, fun v hv => hi.lively.revisions _ live v hlive hv⟩
  · cases found with
    | none => trivial
    | some live =>
        refine Safe.bind (R := fun _ _ => True) ?_ (fun event w _ => ?_) fun _ _ _ => trivial
        · refine safe_transaction (Finishable live) (hfound live rfl) stable_finishable (fun w _ => change_refl w)
            (fun w v w' hi hp _ h => ?_) (fun _ _ _ _ _ => trivial) fun _ _ _ => trivial
          obtain ⟨hi', hchange⟩ := hi.finished hp hstatus h
          exact ⟨hi', hchange, trivial, fun _ _ => trivial⟩
        · cases event with
          | none => trivial
          | some event => exact holds_plain (plain_appendEvent event) allow w trivial

/-- **Admission** registers a run of the project that its row names. -/
theorem holds_admitLocked (userId : Nat) (prompt : String) (chatId : Option Nat) :
    Holds (tasks cfg) (fun _ => True) (admitLocked cfg userId prompt chatId) := by
  intro allow w _
  have hquiet : ∀ {α : Type} {p : Act α}, p.Within Quiet → ∀ w, Safe ((tasks cfg).open allow) p (fun _ _ => True) w :=
    fun hp w => holds_plain (plain_quiet hp) allow w trivial
  refine Safe.bind (hquiet quiet_read w) (fun full w _ => ?_) fun _ _ _ => trivial
  split
  · trivial
  · refine Safe.bind (hquiet (quiet_requireSandboxCapacity _) w) (fun _ w _ => ?_) fun _ _ _ => trivial
    refine Safe.bind (hquiet quiet_read w) (fun busy w _ => ?_) fun _ _ _ => trivial
    refine Safe.bind (R := fun r w => ∀ a, r = .ok a → OfChat a.runId a.chatId w) ?_ (fun a w ha => ?_)
      fun _ _ _ => trivial
    · refine safe_transaction (fun _ => True) trivial Guard.stable_true (fun w _ => change_refl w)
        (fun w a w' hi _ _ h => ⟨hi.admitted h, .admission userId prompt chatId busy h, fun a' ha' => ?_,
          fun _ _ a ha => by cases ha⟩) (fun _ _ _ _ _ a ha => by cases ha) fun _ _ _ => trivial
      obtain rfl := Except.ok.inj ha'
      exact (admission_mem h).2
    · refine Safe.bind (R := fun _ _ => True) ?_ (fun _ w _ => trivial) fun _ _ _ => trivial
      exact safe_memory (OfChat a.runId a.chatId) (ha a rfl) stable_ofChat
        (fun w hi hof => ⟨hi.registered userId prompt hof, .register a userId prompt, trivial⟩) fun _ _ _ => trivial

end Parts

/-! ## §4. Every reachable state. -/

theorem holds_parts (runId : Nat) :
    RunParts cfg (fun {α : Type} (p : Act α) => Holds (tasks cfg) (fun _ => True) p) runId :=
  runParts_of_plain (closed_holds _ _) holds_plain (fun id => holds_promote id true) holds_saveLegacy holds_saveFiles
    holds_finish

/-- **Every task** keeps the invariant and makes steps of the worker. -/
theorem checkpointed_sound (cfg : Config) :
    Sound (worker cfg) Always ⟨Checkpointed, fun _ => Change cfg, fun _ _ _ => True⟩ fun _ _ _ _ => True := by
  refine System.holds_sound (I := Checkpointed) (G := Change cfg) (fun t k => ?_)
    (fun t k w w' hi he => ⟨hi.plain (enter_plain he : Plain cfg w w'), .plain (enter_plain he)⟩)
    (fun d w w' hi he => ?_) fun _ w w' hi hc => ?_
  · exact closed_callBody (holds_parts 0).toParts t k
      (fun userId prompt chatId => (holds_parts 0).toParts.withAdmission (holds_admitLocked userId prompt chatId))
      (fun runId _ => (holds_parts runId).execute t) fun runId => (holds_parts runId).cancel t
  · have hplain : Plain cfg w w' := .basic (.quiet (quiet_environment he))
    exact ⟨hi.plain hplain, .plain hplain⟩
  · exact Option.some.inj hc ▸ hi.restarted cfg

/-- **The invariant** holds in every reachable state. -/
theorem checkpointed (hw : Checkpointed w) {q : Pool Nat WorkerCall World Label Exc Datum}
    (h : (worker cfg).Reaches Always (Pool.start w) q) : Checkpointed q.shared :=
  ((checkpointed_sound cfg).reaches (Sound.good_start hw) h).1

/-- The saved revision is the newest that was promoted. -/
theorem Lineal.le_saved (h : Lineal w) {c : Nat} {chat : Chat} (hchat : w.db.chats.get? c = some chat) {s : Swap Nat}
    (hs : s ∈ checkpoints w.db c) : ∃ v, chat.latestSavedRevisionId = some v ∧ s.child ≤ v := by
  obtain ⟨stop, hchain, hstop⟩ := h.chain c
  rw [hstop chat hchat]
  exact hchain.child_le_stop (h.newer c) s hs

/-- **The history of a project is linear**: the saved pointer has moved along
one chain of ever newer revisions, every ready revision is one of them and
none is newer than the saved one, and no two have one parent. -/
theorem history_linear (hw : Deployed w) {q : Pool Nat WorkerCall World Label Exc Datum}
    (h : (worker cfg).Reaches Always (Pool.start w) q) (c : Nat) (chat : Chat)
    (hchat : q.shared.db.chats.get? c = some chat) :
    Chain none (checkpoints q.shared.db c) chat.latestSavedRevisionId ∧
      ((checkpoints q.shared.db c).map Swap.child).Pairwise (· < ·) ∧
      (∀ v r, q.shared.db.revisions.get? v = some r → r.chatId = c → r.status = .ready →
        (⟨r.parentId, v⟩ : Swap Nat) ∈ checkpoints q.shared.db c ∧
          ∃ s, chat.latestSavedRevisionId = some s ∧ v ≤ s) ∧
      ∀ v r v' r', q.shared.db.revisions.get? v = some r → q.shared.db.revisions.get? v' = some r' →
        r.chatId = c → r'.chatId = c → r.status = .ready → r'.status = .ready → r.parentId = r'.parentId → v = v' := by
  have hi := (checkpointed hw.checkpointed h).lineal
  obtain ⟨stop, hchain, hstop⟩ := hi.chain c
  have hmem : ∀ v r, q.shared.db.revisions.get? v = some r → r.chatId = c → r.status = .ready →
      (⟨r.parentId, v⟩ : Swap Nat) ∈ checkpoints q.shared.db c := fun v r hr hof hready => hof ▸ hi.ready v r hr hready
  refine ⟨by rw [hstop chat hchat]; exact hchain, hchain.children_lt (hi.newer c), fun v r hr hof hready => ?_,
    fun v r v' r' hr hr' hof hof' hready hready' hparent => ?_⟩
  · exact ⟨hmem v r hr hof hready, hi.le_saved hchat (hmem v r hr hof hready)⟩
  · have hsame := hchain.successor_unique (hi.newer c) (hmem v r hr hof hready) (hmem v' r' hr' hof' hready') hparent
    exact congrArg Swap.child hsame

theorem history_linear_firstProject :
    ∃ q, (worker legacyConfig).Reaches Always (Pool.start newWorld) q ∧
      Chain none (checkpoints q.shared.db 3) (some 6) := by
  obtain ⟨q, hq, ⟨_, hchat⟩, _⟩ := reaches_firstProject
  exact ⟨q, hq, (history_linear deployed_newWorld hq 3 _ hchat).1⟩

/-- No step forgets a promotion. -/
theorem promotions_grow {p q : Pool Nat WorkerCall World Label Exc Datum}
    (hp : (worker cfg).Reaches Always (Pool.start w) p) (h : (worker cfg).Reaches Always p q) :
    p.shared.db.promotions <+: q.shared.db.promotions := by
  refine advances (R := fun w w' => w.db.promotions <+: w'.db.promotions) (fun _ => List.prefix_refl _)
    (fun _ _ _ => List.IsPrefix.trans) (fun w w' (hc : Change cfg w w') => ?_) (fun _ => List.prefix_refl _) hp h
  cases change_shelf hc with
  | tidy _ hpromotions => rw [hpromotions]
  | promote _ _ _ _ _ _ _ _ _ _ hpromotions =>
      rw [hpromotions]
      exact List.prefix_append _ _
  | verify _ _ _ _ _ _ _ _ _ _ hpromotions => rw [hpromotions]

/-- **No older checkpoint replaces a newer one**: once a project has a saved
revision, it has one that is no older in every later state, as long as the
project exists. -/
theorem saved_never_older (hw : Deployed w) {p q : Pool Nat WorkerCall World Label Exc Datum}
    (hp : (worker cfg).Reaches Always (Pool.start w) p) (h : (worker cfg).Reaches Always p q) (c : Nat)
    (chat chat' : Chat) (v : Nat) (hchat : p.shared.db.chats.get? c = some chat)
    (hsaved : chat.latestSavedRevisionId = some v) (hchat' : q.shared.db.chats.get? c = some chat') :
    ∃ v', chat'.latestSavedRevisionId = some v' ∧ v ≤ v' := by
  have hbefore := (checkpointed hw.checkpointed hp).lineal
  have hafter := (checkpointed hw.checkpointed (hp.trans h)).lineal
  obtain ⟨stop, hchain, hstop⟩ := hbefore.chain c
  -- what is saved has been promoted, and stays in the history
  have hstop' : stop = some v := by rw [← hstop chat hchat, hsaved]
  have hlast := hchain.stop_eq
  rw [hstop'] at hlast
  obtain ⟨s, hs, hsv⟩ : ∃ s ∈ checkpoints p.shared.db c, s.child = v := by
    cases hg : (checkpoints p.shared.db c).getLast? with
    | none =>
        rw [hg] at hlast
        cases hlast
    | some s =>
        rw [hg] at hlast
        exact ⟨s, List.mem_of_getLast? hg, (Option.some.inj hlast).symm⟩
  have hkept : s ∈ checkpoints q.shared.db c :=
    (((promotions_grow hp h).filter _).map _).subset hs
  obtain ⟨v', hv', hle⟩ := hafter.le_saved hchat' hkept
  exact ⟨v', hv', hsv ▸ hle⟩

theorem saved_never_older_firstProject :
    ∃ q, (worker legacyConfig).Reaches Always (Pool.start newWorld) q ∧
      ∀ q' chat', (worker legacyConfig).Reaches Always q q' → q'.shared.db.chats.get? 3 = some chat' →
        ∃ v', chat'.latestSavedRevisionId = some v' ∧ 6 ≤ v' := by
  obtain ⟨q, hq, ⟨_, hchat⟩, _⟩ := reaches_firstProject
  exact ⟨q, hq, fun q' chat' h hchat' => saved_never_older deployed_newWorld hq h 3 _ chat' 6 hchat rfl hchat'⟩

/-- **Pointers never dangle**: the saved and the verified revision of a project
are ready revisions of that project, in every reachable state. -/
theorem pointers_ready (hw : Deployed w) {q : Pool Nat WorkerCall World Label Exc Datum}
    (h : (worker cfg).Reaches Always (Pool.start w) q) (c : Nat) (chat : Chat) (v : Nat)
    (hchat : q.shared.db.chats.get? c = some chat)
    (hnames : chat.latestSavedRevisionId = some v ∨ chat.latestVerifiedRevisionId = some v) :
    ∃ r, q.shared.db.revisions.get? v = some r ∧ r.chatId = c ∧ r.status = .ready :=
  (checkpointed hw.checkpointed h).pointed c v ⟨chat, hchat, hnames⟩

theorem pointers_ready_firstProject :
    ∃ q, (worker legacyConfig).Reaches Always (Pool.start newWorld) q ∧
      ∃ r, q.shared.db.revisions.get? 6 = some r ∧ r.chatId = 3 ∧ r.status = .ready := by
  obtain ⟨q, hq, ⟨_, hchat⟩, _⟩ := reaches_firstProject
  exact ⟨q, hq, pointers_ready deployed_newWorld hq 3 _ 6 hchat (.inl rfl)⟩

end WebBuilder.Worker
