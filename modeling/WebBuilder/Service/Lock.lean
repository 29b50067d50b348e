/-
  WebBuilder.Service.Lock — one operation per project.

  The admission lock guards every addition to `active` and `opening`; what
  ends an operation runs without it.  So a task that holds the lock sees busy
  projects become idle but never the other way round, and what it has checked
  stays checked until it releases the lock.

  Main results:
    * `lock_sound` — every task of the worker keeps to the discipline of the
      lock (`Moves`) and its invariant (`Locked`).
-/
import WebBuilder.Service.Calm

namespace WebBuilder.Service

open WebBuilder.Async WebBuilder.Store WebBuilder.Run

variable {α : Type} {cfg : Config} {t runId c : Nat}

/-! ## §1. The invariant and the moves. -/

/-- The operations of the worker, one per project and within its bound. -/
structure Locked (cfg : Config) (w : World) : Prop where
  live : ∀ r ∈ w.mem.active, (w.live? r).isSome
  nodup : w.mem.busy.Nodup
  bound : w.mem.active.length + w.mem.opening.length ≤ cfg.maxConcurrentRuns
  busyIds : ∀ c ∈ w.mem.busy, c < w.nextId
  chatIds : ∀ c, (w.db.chats.get? c).isSome → c < w.nextId
  runIds : ∀ r, (w.live? r).isSome → r < w.nextId

/-- Operations may have ended, and none has begun. -/
structure Shrinks (w w' : World) : Prop where
  active : w'.mem.active.Sublist w.mem.active
  opening : w'.mem.opening.Sublist w.mem.opening
  lives : ∀ r, (w'.live? r).isSome → (w.live? r).isSome

/-- What one step of the task `u`, or of nobody, may do. -/
structure Moves (u : Option Nat) (w w' : World) : Prop where
  nextId : w.nextId ≤ w'.nextId
  /-- It takes the lock for itself only, and releases only its own. -/
  lock : ∀ v, some v ≠ u → (w'.mem.admission = some v ↔ w.mem.admission = some v)
  lives : ∀ r live, w.live? r = some live → ∃ live', w'.live? r = some live' ∧ live'.chatId = live.chatId
  /-- Without the lock it begins no operation. -/
  shrinks : u = none ∨ w.mem.admission ≠ u → Shrinks w w'
  /-- It deletes no busy project. -/
  kept : ∀ c, (w.db.chats.get? c).isSome → (w'.db.chats.get? c).isNone → c ∉ w.mem.busy

/-- The task holds the lock. -/
def Held (t : Nat) (w : World) : Prop := w.mem.admission = some t

theorem shrinks_refl (w : World) : Shrinks w w := ⟨.refl _, .refl _, fun _ h => h⟩

/-! ## §2. Busy projects. -/

theorem mem_busy {w : World} {c : Nat} :
    c ∈ w.mem.busy ↔ (∃ r ∈ w.mem.active, ∃ live, w.live? r = some live ∧ live.chatId = c) ∨ c ∈ w.mem.opening := by
  simp only [Memory.busy, List.mem_append, List.mem_filterMap, Option.map_eq_some_iff, World.live?]

/-- Lists of projects follow the live runs. -/
theorem filterMap_lives {w w' : World} {ids : List Nat}
    (hlives : ∀ r ∈ ids, (w'.live? r).map LiveRun.chatId = (w.live? r).map LiveRun.chatId) :
    (ids.filterMap fun r => (w'.mem.runs.get? r).map LiveRun.chatId)
      = ids.filterMap fun r => (w.mem.runs.get? r).map LiveRun.chatId :=
  List.filterMap_congr hlives

/-- Busy projects become idle, never the other way round. -/
theorem busy_sublist {w w' : World} (hactive : w'.mem.active.Sublist w.mem.active)
    (hopening : w'.mem.opening.Sublist w.mem.opening)
    (hlives : ∀ r ∈ w'.mem.active, (w'.live? r).map LiveRun.chatId = (w.live? r).map LiveRun.chatId) :
    w'.mem.busy.Sublist w.mem.busy := by
  unfold Memory.busy
  rw [filterMap_lives hlives]
  exact (hactive.filterMap _).append hopening

theorem Moves.live_chat {u : Option Nat} {w w' : World} (h : Moves u w w') {r : Nat}
    (hr : (w.live? r).isSome) : (w'.live? r).map LiveRun.chatId = (w.live? r).map LiveRun.chatId := by
  obtain ⟨live, hlive⟩ := Option.isSome_iff_exists.mp hr
  obtain ⟨live', hlive', hchat⟩ := h.lives r live hlive
  rw [hlive, hlive', Option.map_some, Option.map_some, hchat]

/-- What is not busy stays so while no operation begins. -/
theorem Moves.idle {u : Option Nat} {w w' : World} (h : Moves u w w') (hs : Shrinks w w') (hw : Locked cfg w) :
    w'.mem.busy.Sublist w.mem.busy :=
  busy_sublist hs.active hs.opening fun r hr => h.live_chat (hw.live r (hs.active.subset hr))

/-- The invariant while operations end. -/
theorem Locked.shrink {w w' : World} (hw : Locked cfg w) (hid : w.nextId ≤ w'.nextId) (hs : Shrinks w w')
    (hlives : ∀ r ∈ w.mem.active, (w'.live? r).map LiveRun.chatId = (w.live? r).map LiveRun.chatId)
    (hchats : ∀ c, (w'.db.chats.get? c).isSome → (w.db.chats.get? c).isSome) : Locked cfg w' := by
  have hbusy := busy_sublist hs.active hs.opening fun r hr => hlives r (hs.active.subset hr)
  refine ⟨fun r hr => ?_, hw.nodup.sublist hbusy, ?_, fun c hc => ?_, fun c hc => ?_, fun r hr => ?_⟩
  · have hr' := hs.active.subset hr
    have := congrArg Option.isSome (hlives r hr')
    rw [Option.isSome_map, Option.isSome_map, hw.live r hr'] at this
    exact this
  · exact (Nat.add_le_add hs.active.length_le hs.opening.length_le).trans hw.bound
  · exact (hw.busyIds c (hbusy.subset hc)).trans_le hid
  · exact (hw.chatIds c (hchats c hc)).trans_le hid
  · exact (hw.runIds r (hs.lives r hr)).trans_le hid

/-! ## §3. Steps of every task. -/

theorem Calm.shrinks {w w' : World} (h : Calm w w') : Shrinks w w' := by
  refine ⟨h.active ▸ .refl _, h.opening ▸ .refl _, fun r hr => ?_⟩
  have := congrArg Option.isSome (h.lives r)
  rw [Option.isSome_map, Option.isSome_map] at this
  exact this ▸ hr

theorem Calm.locked {w w' : World} (h : Calm w w') (hw : Locked cfg w) : Locked cfg w' :=
  hw.shrink h.nextId h.shrinks (fun r _ => h.lives r) fun c hc => h.chats c ▸ hc

theorem Calm.moves {w w' : World} (h : Calm w w') (u : Option Nat) : Moves u w w' := by
  refine ⟨h.nextId, fun v _ => by rw [h.admission], fun r live hlive => ?_, fun _ => h.shrinks, fun c hc hc' => ?_⟩
  · have := h.lives r
    rw [hlive] at this
    obtain ⟨live', hlive', hchat⟩ := Option.map_eq_some_iff.mp this
    exact ⟨live', hlive', hchat⟩
  · rw [Option.isNone_iff_eq_none] at hc'
    rw [← h.chats c, hc'] at hc
    cases hc

/-- The proof context of the task `t`. -/
def lockGuard (cfg : Config) (t : Nat) (allow : Label → Answer Exc Datum → World → Prop)
    (need : Label → World → Prop) : Guard World Label Exc Datum where
  inv := Locked cfg
  rely w w' := ∃ u, u ≠ some t ∧ Moves u w w'
  guar := Moves (some t)
  allow := allow
  need := need

section Safety

variable {allow : Label → Answer Exc Datum → World → Prop} {need : Label → World → Prop}

theorem held_stable : (lockGuard cfg t allow need).Stable (Held t) := by
  rintro w w' _ _ ⟨u, hu, h⟩ hheld
  exact (h.lock t hu.symm).mpr hheld

/-- While the task holds the lock, no other task begins an operation. -/
theorem Held.others {u : Option Nat} {w w' : World} (hheld : Held t w) (hu : u ≠ some t) (h : Moves u w w') :
    Shrinks w w' :=
  h.shrinks (.inr fun heq => hu (heq.symm.trans hheld))

theorem moves_refl (u : Option Nat) (w : World) : Moves u w w := (calm_refl w).moves u

/-- An assertion that calm steps keep. -/
def CalmKeeps (P : World → Prop) : Prop := ∀ w w', Calm w w' → P w → P w'

theorem held_calm : CalmKeeps (Held t) := fun _ _ h hheld => h.admission.trans hheld

theorem true_calm : CalmKeeps fun _ => True := fun _ _ _ _ => trivial

/-- **A coroutine of calm steps** is safe with any assertion that they keep. -/
theorem safe_calm {P : World → Prop} {p : Act α} (hp : p.All CalmStep)
    (hP : (lockGuard cfg t allow need).Stable P) (hcalm : CalmKeeps P) {w : World} (hw : P w)
    (hneed : ∀ op w, Locked cfg w → P w → need op w) :
    Safe (lockGuard cfg t allow need) p (fun _ => P) w :=
  (Safe.of_each hP (fun _ h hinv hpre _ => ⟨h.locked hinv, h.moves _, hcalm _ _ h hpre⟩) hp hw hneed).mono
    fun _ _ h => h.2

/-- A step on memory that is not calm. -/
theorem safe_step {P : World → Prop} {Q : Except Exc α → World → Prop} {f : World → α × World}
    (hP : (lockGuard cfg t allow need).Stable P) {w : World} (hw : P w)
    (h : ∀ w, Locked cfg w → P w → Locked cfg (f w).2 ∧ Moves (some t) w (f w).2 ∧ Q (.ok (f w).1) (f w).2)
    (hneed : ∀ w, Locked cfg w → P w → need ⟨.memory, []⟩ w) :
    Safe (lockGuard cfg t allow need) (memory f) Q w :=
  Safe.memory P hw hP (fun w hinv hpre _ => h w hinv hpre) hneed

/-! ## §4. The lock. -/

theorem locked_setAdmission {w : World} (hw : Locked cfg w) (holder : Option Nat) :
    Locked cfg (w.setAdmission holder) :=
  ⟨hw.live, hw.nodup, hw.bound, hw.busyIds, hw.chatIds, hw.runIds⟩

theorem moves_setAdmission {w : World} {u holder : Option Nat} (hlock : ∀ v, some v ≠ u →
    (holder = some v ↔ w.mem.admission = some v)) : Moves u w (w.setAdmission holder) :=
  ⟨Nat.le_refl _, hlock, fun r live h => ⟨live, h, rfl⟩, fun _ => ⟨.refl _, .refl _, fun _ h => h⟩,
    fun c hc hc' => by
      rw [Option.isNone_iff_eq_none] at hc'
      exact absurd hc (by rw [show w.db.chats.get? c = none from hc']; simp)⟩

/-- **A critical section**: its body starts with the lock and ends with it. -/
theorem safe_withAdmission {P : World → Prop} {p : Act α} {Q : Except Exc α → World → Prop} {w : World}
    (hw : P w) (hP : (lockGuard cfg t allow need).Stable P)
    (hset : ∀ w, P w → P (w.setAdmission (some t)))
    (hp : ∀ w, Locked cfg w → Held t w → P w →
      Safe (lockGuard cfg t allow need) p (fun r w => Held t w ∧ Q r w) w)
    (hQ : ∀ r, (lockGuard cfg t allow need).Stable (Q r))
    (hfree : ∀ r w, Q r w → Q r (w.setAdmission none)) (hstop : ∀ e w, interruption e = true → Q (.error e) w)
    (hlock : ∀ w, Locked cfg w → need ⟨.lock, []⟩ w)
    (hmem : ∀ w, Locked cfg w → need ⟨.memory, []⟩ w) :
    Safe (lockGuard cfg t allow need) (withAdmission t p) Q w := by
  refine Safe.bind (R := OnOutcome (fun _ w => Locked cfg w ∧ Held t w ∧ P w) fun e _ => interruption e = true)
    ?_ ?_ fun e w h => hstop e w h
  · refine safe_waitFor P hw hP (fun w _ => moves_refl _ w) ?_ (fun _ e _ _ he => he) fun w hinv _ => hlock w hinv
    intro w r w' hinv hpre h
    split at h
    · cases h
    · rename_i hnone
      simp only [Option.some.injEq, Prod.mk.injEq] at h
      obtain ⟨rfl, rfl⟩ := h
      rw [Option.not_isSome_iff_eq_none] at hnone
      refine ⟨locked_setAdmission hinv _, moves_setAdmission fun v hv => ?_, locked_setAdmission hinv _, rfl,
        hset w hpre⟩
      rw [hnone]
      exact ⟨fun h => absurd h.symm hv, (fun h => by cases h)⟩
  · intro _ w ⟨hinv, hheld, hpre⟩
    refine (safe_onExit _ _ _ _).mpr ((hp w hinv hheld hpre).mono fun r w h => ?_)
    refine safe_step (held_stable.and (hQ r)) h ?_ fun w hinv _ => hmem w hinv
    intro w hinv ⟨hheld, hq⟩
    refine ⟨locked_setAdmission hinv _, moves_setAdmission fun v hv => ?_, hfree r w hq⟩
    rw [show w.mem.admission = some t from hheld]
    exact ⟨(fun h => by cases h), fun h => absurd h.symm hv⟩

/-- Nothing is promised of the outcome. -/
def Any (_ : Except Exc α) (_ : World) : Prop := True

theorem any_stable (r : Except Exc α) : (lockGuard cfg t allow need).Stable (Any r) := Guard.stable_true

theorem safe_seq {β : Type} {p : Act α} {f : α → Act β} {w : World}
    (hp : Safe (lockGuard cfg t allow need) p Any w)
    (hf : ∀ a w, Safe (lockGuard cfg t allow need) (f a) Any w) :
    Safe (lockGuard cfg t allow need) (p.bind f) Any w :=
  Safe.bind hp (fun a w _ => hf a w) fun _ _ _ => trivial

section Needless

variable (hneed : ∀ l w, need l w)

include hneed

theorem safe_calm_any {p : Act α} (hp : p.All CalmStep) (w : World) :
    Safe (lockGuard cfg t allow need) p Any w :=
  safe_calm hp Guard.stable_true true_calm trivial fun l w _ _ => hneed l w

/-- A critical section without a result. -/
theorem safe_section {P : World → Prop} {p : Act α} {w : World} (hw : P w)
    (hP : (lockGuard cfg t allow need).Stable P) (hset : ∀ w, P w → P (w.setAdmission (some t)))
    (hp : ∀ w, Held t w → P w → Safe (lockGuard cfg t allow need) p (fun _ => Held t) w) :
    Safe (lockGuard cfg t allow need) (withAdmission t p) Any w :=
  safe_withAdmission hw hP hset (fun w _ hheld hpre => (hp w hheld hpre).mono fun _ _ h => ⟨h, trivial⟩)
    any_stable (fun _ _ _ => trivial) (fun _ _ _ => trivial) (fun w _ => hneed _ w) fun w _ => hneed _ w

/-- A critical section of calm steps. -/
theorem safe_calmSection {p : Act α} (hp : p.All CalmStep) (w : World) :
    Safe (lockGuard cfg t allow need) (withAdmission t p) Any w :=
  safe_section hneed trivial Guard.stable_true (fun _ h => h) fun _ hheld _ =>
    safe_calm hp held_stable held_calm hheld fun l w _ _ => hneed l w

theorem safe_retireSandbox (c : Nat) (w : World) :
    Safe (lockGuard cfg t allow need) (retireSandbox t c) Any w := by
  have hretire : (catchException (retire c) fun _ => pure false : Act Bool).All CalmStep :=
    all_catchException (All.mono (fun _ h => calm_sandbox h.toSandboxStep) (all_retire c)) fun _ => trivial
  exact safe_calmSection hneed hretire w

end Needless

/-! ## §5. Admission. -/

/-- The task holds the lock and the worker has room. -/
structure Vacant (cfg : Config) (t : Nat) (w : World) : Prop where
  held : Held t w
  spare : w.mem.active.length + w.mem.opening.length < cfg.maxConcurrentRuns

/-- Besides, the project `c` is idle. -/
structure Assured (cfg : Config) (t c : Nat) (w : World) : Prop extends Vacant cfg t w where
  idle : c ∉ w.mem.busy
  old : c < w.nextId

theorem Vacant.shrink {w w' : World} (h : Vacant cfg t w) (hheld : Held t w') (hs : Shrinks w w') :
    Vacant cfg t w' :=
  ⟨hheld, (Nat.add_le_add hs.active.length_le hs.opening.length_le).trans_lt h.spare⟩

theorem vacant_stable : (lockGuard cfg t allow need).Stable (Vacant cfg t) := by
  rintro w w' hinv hinv' ⟨u, hu, h⟩ hv
  exact hv.shrink (held_stable w w' hinv hinv' ⟨u, hu, h⟩ hv.held) (hv.held.others hu h)

theorem vacant_calm : CalmKeeps (Vacant cfg t) :=
  fun w w' h hv => hv.shrink (held_calm w w' h hv.held) h.shrinks

theorem assured_stable : (lockGuard cfg t allow need).Stable (Assured cfg t c) := by
  rintro w w' hinv hinv' ⟨u, hu, h⟩ ha
  have hs := ha.held.others hu h
  exact ⟨vacant_stable w w' hinv hinv' ⟨u, hu, h⟩ ha.toVacant,
    fun hc => ha.idle ((h.idle hs hinv).subset hc), ha.old.trans_le h.nextId⟩

theorem Calm.busy {w w' : World} (h : Calm w w') : w'.mem.busy = w.mem.busy := by
  unfold Memory.busy
  rw [h.active, h.opening]
  exact congrArg (· ++ _) (filterMap_lives fun r _ => h.lives r)

theorem assured_calm : CalmKeeps (Assured cfg t c) :=
  fun w w' h ha => ⟨vacant_calm w w' h ha.toVacant, h.busy ▸ ha.idle, ha.old.trans_le h.nextId⟩

theorem calm_memoryRead {f : World → α} : (memory fun w => (f w, w)).All CalmStep :=
  all_memory fun _ w => calm_refl w

theorem calm_query {f : World → α} : (query f).All CalmStep := all_query fun _ _ w => calm_refl w

theorem calm_requireSandboxCapacity (chatId : Option Nat) : (requireSandboxCapacity cfg chatId).All CalmStep := by
  refine All.bind calm_query fun rows => ?_
  refine All.bind (each_memory (fun _ w => calm_refl w) fun _ => trivial) fun reserved => ?_
  refine All.bind ?_ fun row => ?_
  · unfold runtimeOf
    split
    · exact calm_query
    · trivial
  · dsimp only
    split <;> trivial

/-- The project of an admitted request. -/
theorem admitChat_cases {userId : Nat} {chatId : Option Nat} {busy : Bool} {w w' : World} {c : Nat}
    (h : admitChat userId chatId busy w = .ok (c, w')) :
    (∃ chat, chatId = some c ∧ w.db.chats.get? c = some chat ∧ chat.userId = userId ∧ busy = false ∧ w' = w) ∨
      chatId = none ∧ c = w.nextId ∧ w' = { w with
        nextId := w.nextId + 1
        db := { w.db with chats := w.db.chats.put ⟨w.nextId, userId, none, none, none⟩ } } := by
  unfold admitChat at h
  split at h
  · rename_i c'
    split at h
    · cases h
    · rename_i chat hchat
      simp only [Option.filter_eq_some_iff, decide_eq_true_eq] at hchat
      split at h
      · cases h
      · rename_i hbusy
        simp only [Except.ok.injEq, Prod.mk.injEq] at h
        obtain ⟨rfl, rfl⟩ := h
        exact .inl ⟨chat, rfl, hchat.1, hchat.2, Bool.not_eq_true _ ▸ hbusy, rfl⟩
  · simp only [Except.ok.injEq, Prod.mk.injEq] at h
    obtain ⟨rfl, rfl⟩ := h
    exact .inr ⟨rfl, rfl, rfl⟩

/-- **What an admission commits**. -/
theorem admitRows_cases {userId : Nat} {prompt : String} {chatId : Option Nat} {busy : Bool} {w w' : World}
    {a : Admitted} (h : admitRows cfg userId prompt chatId busy w = .ok (a, w')) :
    ∃ user c w₁, admitChat userId chatId busy w = .ok (c, w₁) ∧ insertRun prompt user c w₁ = (a, w') := by
  unfold admitRows at h
  split at h
  · cases h
  · split at h
    · cases h
    · split at h
      · cases h
      · split at h
        · cases h
        · split at h
          · cases h
          · rename_i c w₁ hchat
            split at h
            · cases h
            · rename_i user' _
              exact ⟨user', c, w₁, hchat, Except.ok.inj h⟩

/-- The run has a row, and no task yet. -/
structure Accepted (cfg : Config) (t : Nat) (a : Admitted) (w : World) : Prop
    extends Assured cfg t a.chatId w where
  unregistered : w.live? a.runId = none
  fresh : a.runId < w.nextId

theorem old_stable : (lockGuard cfg t allow need).Stable fun w => c < w.nextId := by
  rintro w w' _ _ ⟨u, hu, hm⟩ hold
  exact hold.trans_le hm.nextId

theorem accepted_stable {a : Admitted} : (lockGuard cfg t allow need).Stable (Accepted cfg t a) := by
  rintro w w' hinv hinv' ⟨u, hu, h⟩ ha
  refine ⟨assured_stable w w' hinv hinv' ⟨u, hu, h⟩ ha.toAssured, ?_, ha.fresh.trans_le h.nextId⟩
  have hs := (ha.held.others hu h).lives a.runId
  rw [ha.unregistered] at hs
  exact Option.not_isSome_iff_eq_none.mp fun h => by cases hs h

/-- The project and the run of an admission that commits. -/
theorem admitRows_frame {userId : Nat} {prompt : String} {chatId : Option Nat} {busy : Bool} {w w' : World}
    {a : Admitted} (h : admitRows cfg userId prompt chatId busy w = .ok (a, w')) :
    w'.mem = w.mem ∧ w.nextId ≤ a.runId ∧ a.runId < w'.nextId ∧
      (∀ c, (w'.db.chats.get? c).isSome = ((w.db.chats.get? c).isSome || decide (c = a.chatId))) ∧
      ((chatId = some a.chatId ∧ busy = false ∧ (w.db.chats.get? a.chatId).isSome) ∨
        a.chatId = w.nextId ∧ w.nextId < w'.nextId) := by
  obtain ⟨user, c, w₁, hchat, hinsert⟩ := admitRows_cases h
  simp only [insertRun, Prod.mk.injEq] at hinsert
  obtain ⟨rfl, rfl⟩ := hinsert
  rcases admitChat_cases hchat with ⟨chat, rfl, hget, _, hbusy, rfl⟩ | ⟨rfl, rfl, rfl⟩
  · refine ⟨rfl, Nat.le_refl _, Nat.lt_succ_of_le (Nat.le_succ _), fun c' => ?_,
      .inl ⟨rfl, hbusy, by rw [hget]; rfl⟩⟩
    by_cases hc : c' = c
    · rw [hc, hget]
      rfl
    · simp [hc]
  · refine ⟨rfl, Nat.le_succ _, ?_, fun c' => ?_, .inr ⟨rfl, ?_⟩⟩
    · show w.nextId + 1 < w.nextId + 1 + 2
      omega
    · show ((w.db.chats.put _).get? c').isSome = _
      rw [Table.get?_put]
      by_cases hc : c' = w.nextId
      · simp [hc]
      · simp [hc]
    · show w.nextId < w.nextId + 1 + 2
      omega

/-- **The commit of an admission**. -/
theorem admitRows_accepted {userId : Nat} {prompt : String} {chatId : Option Nat} {busy : Bool} {w w' : World}
    {a : Admitted} (hw : Locked cfg w) (hvacant : Vacant cfg t w)
    (hidle : ∀ c, chatId = some c → busy = false → c ∉ w.mem.busy)
    (h : admitRows cfg userId prompt chatId busy w = .ok (a, w')) :
    Locked cfg w' ∧ Moves (some t) w w' ∧ Accepted cfg t a w' := by
  obtain ⟨hmem, hle, hlt, hchats, hchat⟩ := admitRows_frame h
  have hid : w.nextId ≤ w'.nextId := hle.trans hlt.le
  have hlives : ∀ r, w'.live? r = w.live? r := fun r => by unfold World.live?; rw [hmem]
  have hheld : Held t w' := by
    unfold Held
    rw [hmem]
    exact hvacant.held
  have hold : a.chatId < w'.nextId := by
    rcases hchat with ⟨_, _, hsome⟩ | ⟨heq, hlt'⟩
    · exact (hw.chatIds _ hsome).trans_le hid
    · omega
  have hfree : a.chatId ∉ w.mem.busy := by
    rcases hchat with ⟨hsome, hbusy, _⟩ | ⟨heq, _⟩
    · exact hidle _ hsome hbusy
    · exact fun hc => absurd (hw.busyIds _ hc) (by omega)
  refine ⟨⟨fun r hr => ?_, hmem ▸ hw.nodup, hmem ▸ hw.bound, fun c hc => ?_, fun c hc => ?_, fun r hr => ?_⟩,
    ⟨hid, fun v _ => by rw [hmem], fun r live hl => ⟨live, (hlives r).trans hl, rfl⟩, fun _ => ?_, fun c hc hc' => ?_⟩,
    ⟨⟨⟨hheld, hmem ▸ hvacant.spare⟩, hmem ▸ hfree, hold⟩, ?_, hlt⟩⟩
  · rw [hlives]
    exact hw.live r (hmem ▸ hr)
  · exact (hw.busyIds c (hmem ▸ hc)).trans_le hid
  · rw [hchats, Bool.or_eq_true, decide_eq_true_eq] at hc
    rcases hc with hc | rfl
    · exact (hw.chatIds c hc).trans_le hid
    · exact hold
  · rw [hlives] at hr
    exact (hw.runIds r hr).trans_le hid
  · exact ⟨hmem ▸ .refl _, hmem ▸ .refl _, fun r hr => hlives r ▸ hr⟩
  · rw [Option.isNone_iff_eq_none] at hc'
    have := hchats c
    rw [hc', hc] at this
    cases this
  · rw [hlives]
    exact Option.not_isSome_iff_eq_none.mp fun hr => absurd (hw.runIds _ hr) (by omega)

theorem nodup_insert {xs ys : List Nat} {c : Nat} (h : (xs ++ ys).Nodup) (hc : c ∉ xs ++ ys) :
    (xs ++ c :: ys).Nodup :=
  List.nodup_middle.mpr (List.nodup_cons.mpr ⟨hc, h⟩)

/-- The busy projects after a registration. -/
theorem busy_register {w : World} {a : Admitted} (userId : Nat) (prompt : String)
    (hlive : ∀ r ∈ w.mem.active, (w.live? r).isSome) (hnone : w.live? a.runId = none) :
    (w.mem.register a userId prompt).busy =
      (w.mem.active.filterMap fun r => (w.mem.runs.get? r).map LiveRun.chatId) ++ a.chatId :: w.mem.opening := by
  have hactive : ∀ r ∈ w.mem.active, r ≠ a.runId := by
    rintro r hr rfl
    have := hlive _ hr
    rw [hnone] at this
    cases this
  have hput : ∀ r, (w.mem.register a userId prompt).runs.get? r =
      if r = a.runId then some ⟨a.runId, a.chatId, prompt, userId, a.messageId, [], .created, false, none, none, none⟩
      else w.mem.runs.get? r := fun r => Table.get?_put _ _ r
  unfold Memory.busy
  simp only [hput]
  show (w.mem.active ++ [a.runId]).filterMap _ ++ _ = _
  rw [List.filterMap_append, List.append_assoc]
  congr 1
  · refine List.filterMap_congr fun r hr => ?_
    rw [if_neg (hactive r hr)]
  · simp
    rfl

/-- **A registration**. -/
theorem register_locked {a : Admitted} (userId : Nat) (prompt : String) {w : World} (hw : Locked cfg w)
    (ha : Accepted cfg t a w) :
    Locked cfg { w with mem := w.mem.register a userId prompt } ∧
      Moves (some t) w { w with mem := w.mem.register a userId prompt } := by
  have hget : ∀ r, ({ w with mem := w.mem.register a userId prompt } : World).live? r =
      if r = a.runId then some ⟨a.runId, a.chatId, prompt, userId, a.messageId, [], .created, false, none, none, none⟩
      else w.live? r := fun r => Table.get?_put _ _ r
  have hbusy := busy_register userId prompt hw.live ha.unregistered
  refine ⟨⟨fun r hr => ?_, ?_, ?_, fun c hc => ?_, hw.chatIds, fun r hr => ?_⟩,
    ⟨Nat.le_refl _, fun v _ => Iff.rfl, fun r live hr => ⟨live, ?_, rfl⟩, fun h => ?_, fun c hc hc' => ?_⟩⟩
  · rw [hget]
    by_cases heq : r = a.runId
    · rw [if_pos heq]
      rfl
    · rw [if_neg heq]
      refine hw.live r ?_
      have hr : r ∈ w.mem.active ++ [a.runId] := hr
      rw [List.mem_append, List.mem_singleton] at hr
      exact hr.resolve_right heq
  · show (w.mem.register a userId prompt).busy.Nodup
    rw [hbusy]
    exact nodup_insert hw.nodup ha.idle
  · show (w.mem.active ++ [a.runId]).length + w.mem.opening.length ≤ _
    have := ha.spare
    rw [List.length_append, List.length_singleton]
    omega
  · have hc : c ∈ (w.mem.register a userId prompt).busy := hc
    rw [hbusy, List.mem_append, List.mem_cons] at hc
    rcases hc with hc | rfl | hc
    · exact hw.busyIds c (List.mem_append_left _ hc)
    · exact ha.old
    · exact hw.busyIds c (List.mem_append_right _ hc)
  · rw [hget] at hr
    split at hr
    · rename_i heq
      exact heq ▸ ha.fresh
    · exact hw.runIds r hr
  · rw [hget, if_neg (fun heq => ?_)]
    · exact hr
    · rw [heq, ha.unregistered] at hr
      cases hr
  · exact absurd ha.held (by simpa [Held] using h)
  · rw [Option.isNone_iff_eq_none] at hc'
    exact absurd hc (by rw [show w.db.chats.get? c = none from hc']; simp)

/-- The start of an opening. -/
theorem startOpening_locked {w : World} (hw : Locked cfg w) (ha : Assured cfg t c w) :
    Locked cfg (w.startOpening t c) ∧ Moves (some t) w (w.startOpening t c) := by
  have hbusy : (w.startOpening t c).mem.busy = w.mem.busy ++ [c] := by
    unfold Memory.busy
    exact (List.append_assoc _ _ _).symm
  refine ⟨⟨hw.live, ?_, ?_, fun c' hc => ?_, hw.chatIds, hw.runIds⟩,
    ⟨Nat.le_refl _, fun v _ => Iff.rfl, fun r live hr => ⟨live, hr, rfl⟩, fun h => ?_, fun c hc hc' => ?_⟩⟩
  · rw [hbusy]
    have hnodup : (w.mem.busy ++ []).Nodup := by rw [List.append_nil]; exact hw.nodup
    exact nodup_insert hnodup (by rw [List.append_nil]; exact ha.idle)
  · show w.mem.active.length + (w.mem.opening ++ [c]).length ≤ _
    have := ha.spare
    rw [List.length_append, List.length_singleton]
    omega
  · rw [hbusy, List.mem_append, List.mem_singleton] at hc
    rcases hc with hc | rfl
    · exact hw.busyIds c' hc
    · exact ha.old
  · exact absurd ha.held (by simpa [Held] using h)
  · rw [Option.isNone_iff_eq_none] at hc'
    exact absurd hc (by rw [show w.db.chats.get? c = none from hc']; simp)

/-- What ends operations keeps the discipline. -/
theorem ends_locked {w w' : World} (hw : Locked cfg w) (hid : w'.nextId = w.nextId) (hs : Shrinks w w')
    (hadm : w'.mem.admission = w.mem.admission) (hdb : w'.db = w.db)
    (hlives : ∀ r, (w'.live? r).map LiveRun.chatId = (w.live? r).map LiveRun.chatId) (u : Option Nat) :
    Locked cfg w' ∧ Moves u w w' := by
  refine ⟨hw.shrink hid.ge hs (fun r _ => hlives r) fun c hc => hdb ▸ hc, ⟨hid.ge, fun v _ => by rw [hadm],
    fun r live hr => ?_, fun _ => hs, fun c hc hc' => ?_⟩⟩
  · have := hlives r
    rw [hr] at this
    obtain ⟨live', hlive', hchat⟩ := Option.map_eq_some_iff.mp this
    exact ⟨live', hlive', hchat⟩
  · rw [hdb, Option.isNone_iff_eq_none] at hc'
    rw [hc'] at hc
    cases hc

theorem touch_mem (w : World) (c : Nat) : (w.touch c).mem.active = w.mem.active ∧
    (w.touch c).mem.opening = w.mem.opening ∧ (w.touch c).mem.runs = w.mem.runs ∧
    (w.touch c).mem.admission = w.mem.admission ∧ (w.touch c).db = w.db ∧ (w.touch c).nextId = w.nextId := by
  unfold World.touch
  split <;> exact ⟨rfl, rfl, rfl, rfl, rfl, rfl⟩

/-- The handle of a project is used: nothing else changes. -/
theorem touch_calm (w : World) (c : Nat) : Calm w (w.touch c) := by
  obtain ⟨hactive, hopening, hruns, hadm, hdb, hid⟩ := touch_mem w c
  exact calm_of_eq hid.ge hadm hactive hopening hruns (by rw [hdb])

theorem endOpening_locked {w : World} (hw : Locked cfg w) (c : Nat) :
    Locked cfg (w.endOpening c) ∧ Moves (some t) w (w.endOpening c) := by
  obtain ⟨hactive, _, hruns, hadm, hdb, hid⟩ := touch_mem w c
  have hopening : (w.endOpening c).mem.opening.Sublist w.mem.opening := List.filter_sublist
  have hlives : ∀ r, (w.endOpening c).live? r = w.live? r := fun r => by
    show (w.touch c).mem.runs.get? r = _
    rw [hruns]
    rfl
  have hs : Shrinks w (w.endOpening c) :=
    ⟨(show (w.touch c).mem.active.Sublist _ from hactive ▸ .refl _), hopening, fun r hr => hlives r ▸ hr⟩
  have hnext : (w.endOpening c).nextId = w.nextId := hid
  exact ends_locked hw hnext hs hadm hdb (fun r => by rw [hlives]) _

theorem deactivate_locked {w : World} (hw : Locked cfg w) (r : Nat) :
    Locked cfg (w.deactivate r) ∧ Moves (some t) w (w.deactivate r) := by
  have hactive : (w.deactivate r).mem.active.Sublist w.mem.active := List.filter_sublist
  have hs : Shrinks w (w.deactivate r) := ⟨hactive, .refl _, fun _ h => h⟩
  have hnext : (w.deactivate r).nextId = w.nextId := rfl
  exact ends_locked hw hnext hs rfl rfl (fun _ => rfl) _

/-- The end of a task. -/
theorem endTask_locked (completed : Bool) {w : World} (hw : Locked cfg w) (r c : Nat) :
    Locked cfg (w.endTask r c completed) ∧ Moves (some t) w (w.endTask r c completed) := by
  obtain ⟨_, hopening, hruns, hadm, hdb, hid⟩ := touch_mem w c
  cases completed with
  | false =>
      have hcalm : Calm w (w.endTask r c false) := calm_modifyLive w r (fun _ => rfl) fun _ => rfl
      exact ⟨hcalm.locked hw, hcalm.moves _⟩
  | true =>
      have hactive : (w.endTask r c true).mem.active.Sublist w.mem.active := List.filter_sublist
      have hlives : ∀ r', ((w.endTask r c true).live? r').map LiveRun.chatId = (w.live? r').map LiveRun.chatId := by
        intro r'
        refine Eq.trans ((calm_modifyLive _ r (f := fun live => { live with task := .done })
          (fun _ => rfl) fun _ => rfl).lives r') ?_
        show ((w.touch c).mem.runs.get? r').map _ = _
        rw [hruns]
        rfl
      have hs : Shrinks w (w.endTask r c true) := by
        refine ⟨hactive, (show (w.touch c).mem.opening.Sublist _ from hopening ▸ .refl _), fun r' hr => ?_⟩
        have := congrArg Option.isSome (hlives r')
        rw [Option.isSome_map, Option.isSome_map] at this
        exact this ▸ hr
      have hnext : (w.endTask r c true).nextId = w.nextId := hid
      exact ends_locked hw hnext hs hadm hdb hlives _

/-- The task holds the lock, and only projects in `S` are busy. -/
def Confined (t : Nat) (S : Nat → Prop) (w : World) : Prop := Held t w ∧ ∀ c ∈ w.mem.busy, S c

theorem confined_stable {S : Nat → Prop} : (lockGuard cfg t allow need).Stable (Confined t S) := by
  rintro w w' hinv hinv' ⟨u, hu, hm⟩ ⟨hheld, hbusy⟩
  exact ⟨held_stable w w' hinv hinv' ⟨u, hu, hm⟩ hheld,
    fun c hc => hbusy c ((hm.idle (hheld.others hu hm) hinv).subset hc)⟩

theorem confined_calm {S : Nat → Prop} : CalmKeeps (Confined t S) :=
  fun w w' h hc => ⟨held_calm w w' h hc.1, h.busy ▸ hc.2⟩

/-- The deletion of an idle project. -/
theorem dropChat_locked {w : World} (hw : Locked cfg w) (hconf : Confined t (· ≠ c) w) (keys : List ObjectKey) :
    Locked cfg { w with db := (w.db.queueDeletions w.now keys).dropChat c } ∧
      Moves (some t) w { w with db := (w.db.queueDeletions w.now keys).dropChat c } := by
  have hget : ∀ c', (((w.db.queueDeletions w.now keys).dropChat c).chats.get? c') =
      if c' = c then none else w.db.chats.get? c' := fun c' => Table.get?_erase _ _ _
  refine ⟨⟨hw.live, hw.nodup, hw.bound, hw.busyIds, fun c' hc' => hw.chatIds c' ?_, hw.runIds⟩,
    ⟨Nat.le_refl _, fun v _ => Iff.rfl, fun r live hr => ⟨live, hr, rfl⟩, fun _ => ⟨.refl _, .refl _, fun _ h => h⟩,
      fun c' hc' hnone hbusy => ?_⟩⟩
  · rw [hget] at hc'
    split at hc'
    · cases hc'
    · exact hc'
  · rw [hget, if_neg (hconf.2 c' hbusy), Option.isNone_iff_eq_none] at hnone
    rw [hnone] at hc'
    cases hc'

/-- A project that a request finds is old. -/
theorem safe_ownedChat (hneed : ∀ w, need ⟨.query, []⟩ w) (userId c : Nat) (w : World) :
    Safe (lockGuard cfg t allow need) (ownedChat userId c) (fun r w => match r with
      | .ok chat => chat.id = c ∧ c < w.nextId
      | .error _ => True) w := by
  refine Safe.bind (R := OnOutcome (fun chat w => ∀ x, chat = some x → x.id = c ∧ c < w.nextId) fun _ w => True)
    ?_ (fun chat w h => ?_) fun _ _ _ => trivial
  · refine safe_query (fun _ => True) trivial Guard.stable_true (fun w _ => moves_refl _ w)
      (fun w hinv _ x hx => ?_) (fun _ _ _ _ => trivial) fun w _ _ => hneed w
    rw [Option.filter_eq_some_iff] at hx
    exact ⟨Table.key_of_get? hx.1, hinv.chatIds c (by rw [hx.1]; rfl)⟩
  · split
    · exact h _ rfl
    · trivial

section Calls

variable (hneed : ∀ l w, need l w)

include hneed

theorem safe_admitLocked (userId : Nat) (prompt : String) (chatId : Option Nat) {w : World} (hw : Held t w) :
    Safe (lockGuard cfg t allow need) (admitLocked cfg userId prompt chatId) (fun _ => Held t) w := by
  refine Safe.bind (R := OnOutcome (fun full w => Held t w ∧ (full = false → Vacant cfg t w)) fun _ _ => False)
    ?_ (fun full w h => ?_) fun _ _ h => h.elim
  · refine safe_step held_stable hw (fun w hinv hheld => ⟨hinv, moves_refl _ w, hheld, fun h => ⟨hheld, ?_⟩⟩)
      fun w _ _ => hneed _ w
    simp only [Memory.full, Bool.or_eq_false_iff, decide_eq_false_iff_not, not_le] at h
    exact h.2
  split
  · exact h.1
  rename_i hfull
  have hvacant := h.2 (Bool.not_eq_true _ ▸ hfull)
  refine Safe.bind (R := fun _ => Vacant cfg t) (safe_calm (calm_requireSandboxCapacity chatId) vacant_stable
    vacant_calm hvacant fun l w _ _ => hneed l w) (fun _ w hvacant => ?_) fun _ _ h => h.held
  -- Others may end their operations here, but begin none.
  let Checked (busy : Bool) (w : World) : Prop :=
    Vacant cfg t w ∧ ∀ c, chatId = some c → busy = false → c ∉ w.mem.busy
  refine Safe.bind (R := OnOutcome (fun busy w => Checked busy w) fun _ _ => False)
    ?_ (fun busy w hchecked => ?_) fun _ _ h => h.elim
  · refine safe_step vacant_stable hvacant (fun w hinv hv => ⟨hinv, moves_refl _ w, hv, fun c hc hb => ?_⟩)
      fun w _ _ => hneed _ w
    subst hc
    simpa [Memory.isBusy] using hb
  have hstable : (lockGuard cfg t allow need).Stable (Checked busy) := by
    rintro w w' hinv hinv' ⟨u, hu, hm⟩ ⟨hv, hidle⟩
    refine ⟨vacant_stable w w' hinv hinv' ⟨u, hu, hm⟩ hv, fun c hc hb hbusy => hidle c hc hb ?_⟩
    exact (hm.idle (hv.held.others hu hm) hinv).subset hbusy
  refine Safe.bind (R := OnOutcome (fun a w => Accepted cfg t a w) fun _ w => Held t w)
    ?_ (fun a w ha => ?_) fun _ _ h => h
  · refine safe_transaction (Checked busy) hchecked hstable (fun w _ => moves_refl _ w) ?_
      (fun w e _ h _ => h.1.held) fun w _ _ => hneed _ w
    intro w a w' hinv hc _ hbody
    obtain ⟨hinv', hmoves, ha⟩ := admitRows_accepted hinv hc.1 hc.2 hbody
    exact ⟨hinv', hmoves, ha, fun _ _ => ha.held⟩
  refine Safe.bind (R := fun _ => Held t) ?_ (fun _ _ h => h) fun _ _ h => h
  refine safe_step accepted_stable ha (fun w hinv ha => ?_) fun w _ _ => hneed _ w
  obtain ⟨hinv', hmoves⟩ := register_locked userId prompt hinv ha
  exact ⟨hinv', hmoves, ha.held⟩

theorem safe_admitRun (userId : Nat) (prompt : String) (chatId : Option Nat) (w : World) :
    Safe (lockGuard cfg t allow need) (admitRun cfg t userId prompt chatId) Any w := by
  unfold admitRun
  dsimp only
  split
  · trivial
  · exact safe_section hneed trivial Guard.stable_true (fun _ h => h) fun w hheld _ =>
      safe_admitLocked hneed userId _ chatId hheld

/-! ## §6. Previews. -/

theorem safe_reserveOpening {w : World} (hw : Held t w) (hold : c < w.nextId) :
    Safe (lockGuard cfg t allow need) (reserveOpening cfg t c) (fun _ => Held t) w := by
  refine Safe.bind (R := OnOutcome (fun refused w => Held t w ∧ (refused = false → Assured cfg t c w))
      fun _ _ => False) ?_ (fun refused w h => ?_) fun _ _ h => h.elim
  · refine safe_step (held_stable.and old_stable) ⟨hw, hold⟩
      (fun w hinv h => ⟨hinv, moves_refl _ w, h.1, fun hr => ?_⟩) fun w _ _ => hneed _ w
    simp only [Memory.isBusy, Memory.full, Bool.or_eq_false_iff, decide_eq_false_iff_not, not_le] at hr
    exact ⟨⟨h.1, hr.2.2⟩, hr.1, h.2⟩
  split
  · exact h.1
  rename_i hrefused
  refine Safe.bind (R := fun _ => Assured cfg t c) (safe_calm (calm_requireSandboxCapacity _) assured_stable
    assured_calm (h.2 (Bool.not_eq_true _ ▸ hrefused)) fun l w _ _ => hneed l w) (fun _ w ha => ?_)
    fun _ _ h => h.held
  refine safe_step assured_stable ha (fun w hinv ha => ?_) fun w _ _ => hneed _ w
  obtain ⟨hinv', hmoves⟩ := startOpening_locked hinv ha
  exact ⟨hinv', hmoves, ha.held⟩

theorem safe_openPreview {w : World} (hold : c < w.nextId) :
    Safe (lockGuard cfg t allow need) (openPreview cfg t c) Any w := by
  refine safe_seq (safe_section hneed hold old_stable (fun _ h => h) fun w hheld hold =>
    safe_reserveOpening hneed hheld hold) fun _ w => ?_
  refine (safe_onExit _ _ _ _).mpr (Safe.mono (Q := Any) (Safe.tryCatch
    (safe_calm_any hneed (All.mono (fun _ => calm_preview) all_openReserved) w) (fun _ _ _ => trivial)
    fun e w _ => safe_seq (safe_retireSandbox hneed c w) fun _ _ => trivial) fun r w _ => ?_)
  refine safe_step Guard.stable_true trivial (fun w hinv _ => ?_) fun w _ _ => hneed _ w
  obtain ⟨hinv', hmoves⟩ := endOpening_locked (t := t) hinv c
  exact ⟨hinv', hmoves, trivial⟩

theorem safe_openProjectPreview (userId c : Nat) (w : World) :
    Safe (lockGuard cfg t allow need) (openProjectPreview cfg t userId c) Any w := by
  refine Safe.bind (safe_ownedChat (hneed _) userId c w) (fun chat w h => ?_) fun _ _ _ => trivial
  exact safe_openPreview hneed h.2

/-! ## §7. Runs. -/

theorem safe_conclude (o : Outcome) (w : World) :
    Safe (lockGuard cfg t allow need) (conclude t runId c o) Any w := by
  refine safe_seq (safe_calm_any hneed (All.mono (fun _ => calm_own) all_keepSandbox) w) fun sandbox w => ?_
  refine safe_seq ?_ fun o w => ?_
  · unfold cleanUpFailed
    split
    · trivial
    · rename_i hfailed
      have hinspect : (inspectFailure c sandbox o).Each (OwnStep runId c) _ := each_inspectFailure hfailed
      refine safe_seq (safe_calm_any hneed (All.mono (fun _ => calm_own) (Each.all hinspect)) w) fun o w => ?_
      refine safe_seq (safe_retireSandbox hneed c w) fun killed w => ?_
      split <;> trivial
  · refine Safe.tryCatch (safe_calm_any hneed calm_finish w) (fun _ _ _ => trivial) fun e w _ => ?_
    split
    · exact safe_seq (safe_retireSandbox hneed c w) fun _ _ => trivial
    · trivial

theorem safe_execute (w : World) : Safe (lockGuard cfg t allow need) (execute cfg t runId) Any w := by
  refine safe_seq (safe_calm_any hneed calm_memoryRead w) fun live w => ?_
  cases live with
  | none => trivial
  | some live =>
      refine safe_seq ((safe_attempt _ _ _).mpr ?_) fun r w => ?_
      · refine Safe.mono (Q := Any) (safe_seq ((safe_attempt _ _ _).mpr ?_) fun r w => ?_) fun _ _ _ => trivial
        · exact (safe_calm_any hneed (All.mono (fun _ => calm_body) all_executeBody) w).mono fun _ _ _ => trivial
        · exact safe_seq (safe_calm_any hneed calm_memoryRead w) fun stopping w => safe_conclude hneed _ w
      · refine safe_step Guard.stable_true trivial (fun w hinv _ => ?_) fun w _ _ => hneed _ w
        exact ⟨(endTask_locked (t := t) _ hinv runId live.chatId).1, (endTask_locked _ hinv runId live.chatId).2, trivial⟩

theorem safe_cancel (w : World) : Safe (lockGuard cfg t allow need) (cancel t runId) Any w := by
  refine safe_seq (safe_calm_any hneed (all_memory fun _ w => ?_) w) fun first w => ?_
  · unfold CalmStep
    dsimp only
    split
    · exact calm_modifyLive w runId (fun _ => rfl) fun _ => rfl
    · exact calm_refl w
  split
  · refine safe_seq (safe_calm_any hneed (all_waitFor (fun _ w r w' h => ?_) fun _ _ w => calm_refl w) w)
      fun _ w => ?_
    · simp only [Option.ite_none_right_eq_some, Option.some.injEq, Prod.mk.injEq] at h
      obtain ⟨_, _, rfl⟩ := h
      exact calm_refl w
    refine safe_seq (safe_calm_any hneed calm_memoryRead w) fun still w => ?_
    split
    · refine safe_seq (safe_calm_any hneed calm_finish w) fun _ w => ?_
      refine safe_step Guard.stable_true trivial (fun w hinv _ => ?_) fun w _ _ => hneed _ w
      obtain ⟨hinv', hmoves⟩ := deactivate_locked (t := t) hinv runId
      exact ⟨hinv', hmoves, trivial⟩
    · trivial
  · trivial

/-! ## §8. Deletion and uploads. -/

theorem safe_deleteLocked (userId c : Nat) {w : World} (hw : Held t w) :
    Safe (lockGuard cfg t allow need) (deleteLocked userId c) (fun _ => Held t) w := by
  refine Safe.bind (R := fun _ => Held t) ?_ (fun _ w hheld => ?_) fun _ _ h => h
  · refine safe_calm (All.bind calm_query fun chat => ?_) held_stable held_calm hw fun l w _ _ => hneed l w
    split <;> trivial
  refine Safe.bind (R := OnOutcome (fun busy w => Held t w ∧ (busy = false → Confined t (· ≠ c) w))
      fun _ _ => False) ?_ (fun busy w h => ?_) fun _ _ h => h.elim
  · refine safe_step held_stable hheld (fun w hinv hheld => ⟨hinv, moves_refl _ w, hheld, fun hb => ⟨hheld, ?_⟩⟩)
      fun w _ _ => hneed _ w
    rintro c' hc' rfl
    simp only [Memory.isBusy, decide_eq_false_iff_not] at hb
    exact hb hc'
  split
  · exact h.1
  rename_i hidle
  refine Safe.bind (R := fun _ => Confined t (· ≠ c)) (safe_calm calm_query confined_stable confined_calm
    (h.2 (Bool.not_eq_true _ ▸ hidle)) fun l w _ _ => hneed l w) (fun keys w hconf => ?_) fun _ _ h => h.1
  refine Safe.bind (R := fun _ => Held t) ?_ (fun _ _ h => h) fun _ _ h => h
  refine safe_transaction (Confined t (· ≠ c)) hconf confined_stable (fun w _ => moves_refl _ w) ?_
    (fun w e _ h _ => h.1) fun w _ _ => hneed _ w
  intro w v w' hinv hconf _ hbody
  unfold deleteRows at hbody
  split at hbody
  · cases hbody
  · simp only [Except.ok.injEq, Prod.mk.injEq, true_and] at hbody
    subst hbody
    obtain ⟨hinv', hmoves⟩ := dropChat_locked (t := t) hinv hconf keys
    exact ⟨hinv', hmoves, hconf.1, fun _ _ => hconf.1⟩

omit hneed in
theorem safe_attemptCleanup {p : Act Bool} {w : World}
    (hp : Safe (inScope (lockGuard cfg t allow need) .operation) p Any w) :
    Safe (lockGuard cfg t allow need) (attemptCleanup p) Any w :=
  safe_catchException (R := Any) (safe_withTimeout hp (fun _ _ _ => trivial) fun _ _ _ => trivial)
    (fun _ _ _ => trivial) (fun _ _ _ _ => trivial) fun _ _ _ _ => trivial

theorem safe_deleteProject (userId c : Nat) (w : World) :
    Safe (lockGuard cfg t allow need) (deleteProject t userId c) Any w := by
  refine safe_seq (safe_section hneed trivial Guard.stable_true (fun _ h => h) fun w hheld _ =>
    safe_deleteLocked hneed userId c hheld) fun keys w => ?_
  refine safe_seq (safe_attemptCleanup ?_) fun _ w => ?_
  · exact safe_calm_any (fun l w => hneed _ w) (calm_cleanupProjectStorage keys) w
  refine safe_seq (safe_attemptCleanup ?_) fun _ _ => trivial
  exact safe_retireSandbox (fun l w => hneed _ w) c w

theorem safe_uploadTask (u : Upload) (w : World) :
    Safe (lockGuard cfg t allow need) (uploadTask cfg u) Any w :=
  safe_calm_any hneed (All.mono (fun _ => calm_storage) (all_uploadTask cfg u)) w

end Calls

/-! ## §9. Housekeeping. -/

/-- The project whose sandbox an operation looks after. -/
def project? (l : Label) : Option Nat :=
  match l.scopes with
  | .project c :: _ => some c
  | _ => none

/-- Housekeeping needs an idle project. -/
def NeedsIdle (l : Label) (w : World) : Prop := ∀ c, project? l = some c → c ∉ w.mem.busy

theorem needsIdle_plain (op : Op) (w : World) : NeedsIdle ⟨op, []⟩ w := fun c h => by cases h

/-- Calm housekeeping on a project that cannot be busy. -/
theorem safe_onProject {S : Nat → Prop} {p : Act α} (hp : p.All CalmStep) (hc : ¬ S c) {w : World}
    (hw : Confined t S w) :
    Safe (lockGuard cfg t allow NeedsIdle) (onProject c p) (fun _ => Confined t S) w := by
  refine (safe_relabel _ _ _ _).mpr ?_
  refine safe_calm hp confined_stable confined_calm hw fun l w _ hconf c' hl hbusy => ?_
  obtain rfl : c = c' := Option.some.inj hl
  exact hc (hconf.2 c hbusy)

theorem safe_reapIdleSandboxes (w : World) :
    Safe (lockGuard cfg t allow NeedsIdle) (reapIdleSandboxes cfg t) Any w := by
  refine safe_withAdmission trivial Guard.stable_true (fun _ h => h) (fun w _ hheld _ => ?_) any_stable
    (fun _ _ _ => trivial) (fun _ _ _ => trivial) (fun w _ => needsIdle_plain _ w) fun w _ => needsIdle_plain _ w
  refine Safe.bind (R := OnOutcome (fun busy w => Confined t (· ∈ busy) w) fun _ _ => False)
    ?_ (fun busy w hconf => ?_) fun _ _ h => h.elim
  · exact safe_step held_stable hheld (fun w hinv hheld => ⟨hinv, moves_refl _ w, hheld, fun _ h => h⟩)
      fun w _ _ => needsIdle_plain _ w
  refine Safe.mono (Q := fun _ => Confined t (· ∈ busy)) ?_ fun _ _ h => ⟨h.1, trivial⟩
  refine Safe.bind (R := fun _ => Confined t (· ∈ busy)) ?_ (fun now w hconf => ?_) fun _ _ h => h
  · exact safe_step confined_stable hconf (fun w hinv h => ⟨hinv, moves_refl _ w, h⟩)
      fun w _ _ => needsIdle_plain _ w
  refine Safe.bind (R := fun _ => Confined t (· ∈ busy)) ?_ (fun rows w hconf => ?_) fun _ _ h => h
  · exact safe_query _ hconf confined_stable (fun w _ => moves_refl _ w) (fun _ _ h => h) (fun _ _ _ h => h)
      fun w _ _ => needsIdle_plain _ w
  refine Safe.forEach (I := Confined t (· ∈ busy)) rows w hconf (fun x _ w hconf => ?_) fun _ h => h
  refine Safe.mono (Q := fun _ => Confined t (· ∈ busy)) ?_ fun r _ h => by cases r <;> exact h
  obtain ⟨row, chat⟩ := x
  dsimp only
  split
  · exact hconf
  · rename_i hidle
    exact safe_onProject (All.mono (fun _ => calm_sandbox) (all_reconcile cfg now false _ _)) hidle hconf

theorem safe_getPreviewStatus (userId c : Nat) (w : World) :
    Safe (lockGuard cfg t allow NeedsIdle) (getPreviewStatus t userId c) Any w := by
  refine Safe.bind (safe_ownedChat (needsIdle_plain _) userId c w) (fun chat w _ => ?_) fun _ _ _ => trivial
  refine safe_withAdmission trivial Guard.stable_true (fun _ h => h) (fun w _ hheld _ => ?_) any_stable
    (fun _ _ _ => trivial) (fun _ _ _ => trivial) (fun w _ => needsIdle_plain _ w) fun w _ => needsIdle_plain _ w
  refine Safe.bind (R := OnOutcome (fun busy w => Held t w ∧ (busy = false → Confined t (· ≠ chat.id) w))
      fun _ _ => False) ?_ (fun busy w h => ?_) fun _ _ h => h.elim
  · refine safe_step held_stable hheld (fun w hinv hheld => ⟨hinv, moves_refl _ w, hheld, fun hb => ⟨hheld, ?_⟩⟩)
      fun w _ _ => needsIdle_plain _ w
    rintro c' hc' rfl
    simp only [Memory.isBusy, decide_eq_false_iff_not] at hb
    exact hb hc'
  split
  · exact ⟨h.1, trivial⟩
  rename_i hidle
  refine Safe.bind (R := fun r w => Confined t (· ≠ chat.id) w ∧
      ∀ row, r = .ok (some row) → row.chatId = chat.id) ?_ (fun row w h => ?_) fun _ _ h => ⟨h.1.1, trivial⟩
  · refine safe_query _ (h.2 (Bool.not_eq_true _ ▸ hidle)) confined_stable (fun w _ => moves_refl _ w)
      (fun w _ hconf => ⟨hconf, fun row hrow => Table.key_of_get? (Except.ok.inj hrow)⟩)
      (fun _ _ _ hconf => ⟨hconf, fun _ h => by cases h⟩) fun w _ _ => needsIdle_plain _ w
  split
  · rename_i row
    split
    · refine safe_catchException (R := fun _ => Confined t (· ≠ chat.id)) ?_ (fun _ _ h => ⟨h.1, trivial⟩)
        (fun _ _ _ h => ⟨h.1, trivial⟩) fun _ _ _ h => ⟨h.1, trivial⟩
      have hstate : (do
          let _ ← state row none : Act Unit).All CalmStep :=
        All.bind (All.mono (fun _ => calm_sandbox) (Each.all (each_state row none))) fun _ => trivial
      exact safe_onProject hstate (fun hne => hne (h.2 row rfl)) h.1
    · exact ⟨h.1.1, trivial⟩
  · exact ⟨h.1.1, trivial⟩

end Safety

/-! ## §10. Soundness. -/

/-- The discipline of the admission lock. -/
def locking (cfg : Config) : Discipline Nat ServiceCall World Label where
  inv := Locked cfg
  guar := Moves
  need
    | .reap | .previewStatus _ _ => NeedsIdle
    | _ => fun _ _ => True

/-- What E2B does by itself changes neither the database nor the worker. -/
theorem environment_frame {d : Datum} {w w' : World} (h : w.environment d = some w') :
    w'.db = w.db ∧ w'.mem = w.mem ∧ w.nextId ≤ w'.nextId := by
  cases d
  case tick time =>
    simp only [World.environment, Option.ite_none_right_eq_some, Option.some.injEq] at h
    exact h.2 ▸ ⟨rfl, rfl, Nat.le_refl _⟩
  case serve i d =>
    simp only [World.environment] at h
    split at h
    · exact Option.some.inj h ▸ ⟨rfl, rfl, Nat.le_succ _⟩
    · split at h <;> exact Option.some.inj h ▸ ⟨rfl, rfl, Nat.le_refl _⟩
    · cases h
  case vanish id =>
    obtain rfl := Option.some.inj h
    unfold World.kill
    split <;> exact ⟨rfl, rfl, Nat.le_refl _⟩
  case sleep id =>
    obtain ⟨b, _, rfl⟩ := Option.map_eq_some_iff.mp h
    exact ⟨rfl, rfl, Nat.le_refl _⟩
  case scribble id files =>
    simp only [World.environment] at h
    split at h
    · split at h
      · exact Option.some.inj h ▸ ⟨rfl, rfl, Nat.le_refl _⟩
      · cases h
    · cases h
  case transfer thread =>
    obtain ⟨store, _, rfl⟩ := Option.map_eq_some_iff.mp h
    exact ⟨rfl, rfl, Nat.le_refl _⟩
  all_goals cases h

theorem startRun_cases {w w' : World} {runId : Nat} {cancelled : Bool} {task : TaskState}
    (h : startRun w runId cancelled task = some w') :
    ∃ live, w.live? runId = some live ∧ live.task = .created ∧ live.cancelRequested = cancelled ∧
      w' = w.modifyLive runId fun live => { live with task } := by
  unfold startRun at h
  split at h
  · rename_i live hlive
    simp only [Option.ite_none_right_eq_some, Option.some.injEq] at h
    exact ⟨live, hlive, h.1.1, h.1.2, h.2.symm⟩
  · cases h

theorem enter_calm {t : Nat} {k : ServiceCall} {w w' : World} (h : enter t k w = some w') : Calm w w' := by
  cases k
  case execute runId =>
    obtain ⟨_, _, _, _, rfl⟩ := startRun_cases h
    exact calm_modifyLive w runId (fun _ => rfl) fun _ => rfl
  case drop runId =>
    obtain ⟨_, _, _, _, rfl⟩ := startRun_cases h
    exact calm_modifyLive w runId (fun _ => rfl) fun _ => rfl
  case upload u =>
    simp only [enter, Option.ite_none_right_eq_some, Option.some.injEq] at h
    exact h.2 ▸ calm_of_eq (Nat.le_refl _) rfl rfl rfl rfl rfl
  all_goals exact Option.some.inj h ▸ calm_refl w

theorem lock_sound (cfg : Config) : Sound (service cfg) Always (locking cfg) fun _ _ => Any where
  env d w w' hinv h := by
    obtain ⟨hdb, hmem, hid⟩ := environment_frame h
    have hcalm : Calm w w' := calm_of_eq hid (by rw [hmem]) (by rw [hmem]) (by rw [hmem]) (by rw [hmem]) (by rw [hdb])
    exact ⟨hcalm.locked hinv, hcalm.moves none⟩
  enter t k w w' hinv h := by
    have hcalm : Calm w w' := enter_calm h
    refine ⟨hcalm.locked hinv, hcalm.moves _, ?_⟩
    show Safe (lockGuard cfg t _ _) (callBody cfg t k) Any w'
    cases k with
    | admitRun userId prompt chatId =>
        exact safe_seq (safe_admitRun (fun _ _ => trivial) userId prompt chatId w') fun _ _ => trivial
    | execute runId => exact safe_execute (fun _ _ => trivial) w'
    | drop runId => trivial
    | cancel runId => exact safe_cancel (fun _ _ => trivial) w'
    | openPreview userId c => exact safe_openProjectPreview (fun _ _ => trivial) userId c w'
    | previewStatus userId c => exact safe_getPreviewStatus userId c w'
    | reap => exact safe_reapIdleSandboxes w'
    | delete userId c => exact safe_deleteProject (fun _ _ => trivial) userId c w'
    | upload u => exact safe_uploadTask (fun _ _ => trivial) u w'
  crash d w w' _ h := by cases h
  post t k r := Guard.stable_true

end WebBuilder.Service
