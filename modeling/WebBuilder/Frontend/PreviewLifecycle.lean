/-
  WebBuilder.Frontend.PreviewLifecycle — the preview panel of a project.

  `usePreviewLifecycle` polls the state of a preview, and asks for its start
  once.  Refs outlive the effect; each run of the effect is an instance with
  flags of its own, which its closures keep after its cleanup.  A check is an
  asynchronous function of an instance: it waits up to three times, for answers
  that come at any time, also to an instance that is disposed of.

  The inputs of the hook count from the first effect on, which hands them to
  the closures.

  Main results:
    * `check_kept`, `resume_kept`, `retryNow_kept` — what one closure does;
    * `opened_once` — every run of the hook.
-/
import Mathlib.Data.List.Basic

namespace WebBuilder.Frontend.PreviewLifecycle

/-! ## §1. The state. -/

def STARTUP_TIMEOUT_MS : Nat := 200000
def STARTUP_POLL_INTERVAL_MS : Nat := 3000
def ACTIVE_POLL_INTERVAL_MS : Nat := 60000

inductive PreviewState where
  | active
  | sleeping
  | opening
  | building
  deriving DecidableEq

structure PreviewStatus where
  state : PreviewState
  url : Option String
  revisionId : Option String

inductive PreviewPhase where
  | status (state : PreviewState)
  | checking
  | error

structure Entry where
  attempted : Bool
  waitingUntil : Nat
  failure : Option String

structure Controls where
  enabled : Bool
  isBuilding : Bool

/-- What a check waits for. -/
inductive Awaiting where
  | status
  | opening
  /-- The status after an `open` that failed. -/
  | observing

/-- One run of the second effect. -/
structure Instance where
  projectId : String
  revisionId : String
  disposed : Bool
  checking : Bool
  active : Bool
  /-- When the timer fires. -/
  timer : Option Nat
  /-- The checks in flight. -/
  checks : List Awaiting

/-- A call of `previewService.open`, and what was so when it was made. -/
structure OpenCall where
  projectId : String
  controls : Controls
  visible : Bool
  disposed : Bool

/-- The refs, the page, and what was set and called. -/
structure Shared where
  /-- `Date.now()`. -/
  now : Nat
  /-- `document.visibilityState`. -/
  visible : Bool
  entry : Entry
  controls : Controls
  previousRevision : Option String
  phase : PreviewPhase
  error : Option String
  /-- The last argument of `onPreviewOpen`. -/
  preview : Option String
  opens : List OpenCall
  /-- The retries that were accepted. -/
  retries : Nat

structure Hook where
  shared : Shared
  instances : List Instance
  /-- The instance whose closures are in `checkNow` and `retryNow`, and whose
  listener the page has. -/
  live : Option Nat

/-- The first render. -/
def Hook.mounted (controls : Controls) (visible : Bool) (now : Nat) : Hook :=
  ⟨⟨now, visible, ⟨false, 0, none⟩, controls, none, .checking, none, none, [], 0⟩, [], none⟩

/-! ## §2. The closures of an instance. -/

def eligible (me : Instance) (s : Shared) : Bool := !me.disposed && s.controls.enabled && s.visible

def fail (message : String) (s : Shared) : Shared :=
  { s with
    entry := { s.entry with failure := some message, waitingUntil := 0 }
    error := some message
    phase := .error
    preview := none }

/-- A value of `url` that is not empty. -/
def truthy (url : Option String) : Bool := url ≠ none && url ≠ some ""

def observe (status : PreviewStatus) (me : Instance) (s : Shared) : Instance × Shared :=
  if status.state = .opening ∨ status.state = .building then
    let waitingUntil := if s.entry.waitingUntil = 0 then s.now + STARTUP_TIMEOUT_MS else s.entry.waitingUntil
    let s := { s with entry := { s.entry with attempted := true, waitingUntil := waitingUntil } }
    if waitingUntil ≤ s.now then
      ({ me with active := false }, fail ("The preview is taking longer than expected. " ++
        "Your saved files are available; try again later.") s)
    else ({ me with active := false }, { s with phase := .status status.state, preview := none })
  else if status.state = .active ∧ truthy status.url then
    if status.revisionId ≠ some me.revisionId then
      (me, fail ("The saved project changed while opening. " ++
        "Reopen the project to view its latest version.") s)
    else
      ({ me with active := true },
        { s with
          entry := ⟨true, 0, none⟩
          error := none
          phase := .status .active
          preview := status.url })
  else
    let s := { s with preview := none }
    if s.entry.waitingUntil ≠ 0 then
      ({ me with active := false }, fail "Preview could not start. Your saved files are still available." s)
    else ({ me with active := false }, { s with phase := .status .sleeping })

/-- The outer `catch`. -/
def caught (me : Instance) (s : Shared) : Instance × Shared :=
  if !me.disposed && !me.active then
    (me, fail "Preview is temporarily unavailable. Your saved files are still available. Please retry." s)
  else (me, s)

/-- `finally`. -/
def finish (check : Instance × Shared) : Instance × Shared :=
  let (me, s) := check
  let delay := if s.entry.waitingUntil ≠ 0 then STARTUP_POLL_INTERVAL_MS else ACTIVE_POLL_INTERVAL_MS
  if !me.disposed && s.entry.failure.isNone then
    ({ me with checking := false, timer := some (s.now + delay) }, s)
  else ({ me with checking := false }, s)

/-- `check`, up to its first `await`. -/
def check (me : Instance) (s : Shared) : Instance × Shared :=
  if me.checking || !eligible me s || s.entry.failure.isSome then (me, s)
  else
    let me := { me with timer := none, checking := true }
    if s.controls.isBuilding then finish (observe ⟨.building, none, none⟩ me s)
    else ({ me with checks := me.checks ++ [.status] }, s)

/-- `previewService.open`, and what is set before it. -/
def openPreview (me : Instance) (s : Shared) : Instance × Shared :=
  ({ me with checks := me.checks ++ [.opening] },
    { s with
      entry := { s.entry with attempted := true, waitingUntil := s.now + STARTUP_TIMEOUT_MS }
      phase := .status .opening
      error := none
      preview := none
      opens := s.opens ++ [⟨me.projectId, s.controls, s.visible, me.disposed⟩] })

/-- `check`, behind an `await` that is answered, or failed. -/
def resume (me : Instance) (s : Shared) : Awaiting → Option PreviewStatus → Instance × Shared
  | .status, some current =>
      if !eligible me s || s.controls.isBuilding then finish (me, s)
      else if current.state ≠ .sleeping ∨ s.entry.attempted = true then finish (observe current me s)
      else openPreview me s
  | .status, none => finish (caught me s)
  | .opening, some data =>
      if !me.disposed && !s.controls.isBuilding then finish (observe { data with state := .active } me s)
      else finish (me, s)
  | .opening, none =>
      if me.disposed then finish (me, s)
      else ({ me with checks := me.checks ++ [.observing] }, s)
  | .observing, some current => if !me.disposed then finish (observe current me s) else finish (me, s)
  | .observing, none => finish (caught me s)

def retryNow (me : Instance) (s : Shared) : Instance × Shared :=
  if me.checking || !eligible me s || s.controls.isBuilding then (me, s)
  else check me { s with entry := ⟨false, 0, none⟩, error := none, phase := .checking, retries := s.retries + 1 }

/-- The timer fires, if it is due. -/
def fire (me : Instance) (s : Shared) : Instance × Shared :=
  if me.timer.any fun due => due ≤ s.now then check { me with timer := none } s else (me, s)

/-- A request of a check is answered, or has failed. -/
def settle (k : Nat) (answer : Option PreviewStatus) (me : Instance) (s : Shared) : Instance × Shared :=
  match me.checks[k]? with
  | some awaiting => resume { me with checks := me.checks.eraseIdx k } s awaiting answer
  | none => (me, s)

/-! ## §3. The hook. -/

/-- A closure of an instance runs. -/
def Hook.act (h : Hook) (i : Nat) (f : Instance → Shared → Instance × Shared) : Hook :=
  match h.instances[i]? with
  | some me => { h with shared := (f me h.shared).2, instances := h.instances.set i (f me h.shared).1 }
  | none => h

def Hook.actLive (h : Hook) (f : Instance → Shared → Instance × Shared) : Hook :=
  match h.live with
  | some i => h.act i f
  | none => h

/-- The cleanup of the second effect. -/
def Hook.cleanup (h : Hook) : Hook :=
  { h.actLive fun me s => ({ me with disposed := true, timer := none }, s) with live := none }

/-- The first effect. -/
def Hook.firstEffect (h : Hook) (controls : Controls) : Hook :=
  let wasBuilding := h.shared.controls.isBuilding
  let s := { h.shared with controls := controls }
  let s := if controls.isBuilding || wasBuilding then { s with entry := ⟨true, 0, none⟩, error := none } else s
  { h with shared := s }.actLive check

/-- The second effect. -/
def Hook.secondEffect (h : Hook) (projectId : String) (revisionId : Option String) : Hook :=
  match revisionId with
  | none => h
  | some revisionId =>
      if revisionId = "" then h
      else
        let s := h.shared
        let s := if s.previousRevision ≠ some revisionId then
            { s with
              previousRevision := some revisionId
              entry := { s.entry with failure := none, waitingUntil := 0 } }
          else s
        { shared := { s with
            error := s.entry.failure
            phase := if s.entry.failure.isSome then .error else .checking }
          instances := h.instances ++ [⟨projectId, revisionId, false, false, false, some s.now, []⟩]
          live := some h.instances.length }

inductive Event where
  /-- The effects after a render: those whose dependencies have changed. -/
  | effects (controls : Option Controls) (revision : Option (String × Option String))
  | unmount
  | visibilityChange (visible : Bool)
  | elapse (ms : Nat)
  | tick (i : Nat)
  | retry
  | answer (i k : Nat) (answer : Option PreviewStatus)

def Hook.step (h : Hook) : Event → Hook
  | .effects controls revision =>
      -- cleanups come before effects
      let h := if revision.isSome then h.cleanup else h
      let h := match controls with
        | some controls => h.firstEffect controls
        | none => h
      match revision with
      | some (projectId, revisionId) => h.secondEffect projectId revisionId
      | none => h
  | .unmount => h.cleanup
  | .visibilityChange visible => { h with shared := { h.shared with visible := visible } }.actLive check
  | .elapse ms => { h with shared := { h.shared with now := h.shared.now + ms } }
  | .tick i => h.act i fire
  | .retry => h.actLive retryNow
  | .answer i k answer => h.act i (settle k answer)

def Hook.run (h : Hook) (events : List Event) : Hook := events.foldl Hook.step h

/-! ## §4. What observing a status leaves. -/

/-- A start was allowed: the panel was there, and no run. -/
structure OpenCall.Allowed (call : OpenCall) : Prop where
  enabled : call.controls.enabled = true
  idle : call.controls.isBuilding = false
  visible : call.visible = true
  mounted : call.disposed = false

/-- The starts so far, and the one that is still allowed. -/
structure Budgeted (s : Shared) : Prop where
  count : s.opens.length + (if s.entry.attempted then 0 else 1) ≤ 1 + s.retries
  allowed : ∀ call ∈ s.opens, call.Allowed

/-- The flag of an instance is that of its check. -/
def Single (me : Instance) : Prop := me.checks.length = if me.checking then 1 else 0

/-- No start, no retry, and an attempt is not forgotten. -/
structure Quiet (s s' : Shared) : Prop where
  opens : s'.opens = s.opens
  retries : s'.retries = s.retries
  attempted : s.entry.attempted = true → s'.entry.attempted = true

theorem Quiet.budgeted {s s' : Shared} (h : Quiet s s') (hs : Budgeted s) : Budgeted s' := by
  refine ⟨?_, by rw [h.opens]; exact hs.allowed⟩
  have hcount := hs.count
  rw [h.opens, h.retries]
  by_cases hattempted : s.entry.attempted = true
  · rw [if_pos hattempted] at hcount
    rw [if_pos (h.attempted hattempted)]
    exact hcount
  · rw [if_neg hattempted] at hcount
    split
    · omega
    · exact hcount

theorem quiet_fail (message : String) (s : Shared) : Quiet s (fail message s) := ⟨rfl, rfl, id⟩

/-- **Observing a status** starts nothing. -/
theorem observe_quiet (status : PreviewStatus) (me : Instance) (s : Shared) :
    (observe status me s).1.checks = me.checks ∧ Quiet s (observe status me s).2 := by
  unfold observe
  split
  · dsimp only
    generalize (if s.entry.waitingUntil = 0 then s.now + STARTUP_TIMEOUT_MS else s.entry.waitingUntil) = waitingUntil
    split
    · exact ⟨rfl, ⟨rfl, rfl, fun _ => rfl⟩⟩
    · exact ⟨rfl, ⟨rfl, rfl, fun _ => rfl⟩⟩
  split
  · split
    · exact ⟨rfl, quiet_fail _ s⟩
    · exact ⟨rfl, ⟨rfl, rfl, fun _ => rfl⟩⟩
  · dsimp only
    split
    · exact ⟨rfl, ⟨rfl, rfl, id⟩⟩
    · exact ⟨rfl, ⟨rfl, rfl, id⟩⟩

theorem caught_quiet (me : Instance) (s : Shared) : (caught me s).1.checks = me.checks ∧ Quiet s (caught me s).2 := by
  unfold caught
  split
  · exact ⟨rfl, quiet_fail _ s⟩
  · exact ⟨rfl, ⟨rfl, rfl, id⟩⟩

/-! ## §5. One closure. -/

/-- What every closure keeps. -/
def Kept (p : Instance × Shared) : Prop := Single p.1 ∧ Budgeted p.2

/-- A check that ends leaves none behind. -/
theorem finish_kept {me : Instance} {s : Shared} (hme : me.checks = []) (hs : Budgeted s) : Kept (finish (me, s)) := by
  unfold finish
  dsimp only
  split
  · exact ⟨by show me.checks.length = 0; rw [hme]; rfl, hs⟩
  · exact ⟨by show me.checks.length = 0; rw [hme]; rfl, hs⟩

theorem finish_quiet {me : Instance} {s : Shared} {p : Instance × Shared} (hme : me.checks = []) (hs : Budgeted s)
    (h : p.1.checks = me.checks ∧ Quiet s p.2) : Kept (finish p) :=
  finish_kept (h.1.trans hme) (h.2.budgeted hs)

theorem check_kept {me : Instance} {s : Shared} (hme : Single me) (hs : Budgeted s) : Kept (check me s) := by
  unfold check
  split
  · exact ⟨hme, hs⟩
  · rename_i hstart
    simp only [Bool.or_eq_true, not_or, Bool.not_eq_true] at hstart
    unfold Single at hme
    rw [hstart.1.1] at hme
    have hnone : me.checks = [] := List.eq_nil_of_length_eq_zero hme
    dsimp only
    split
    · have hobserve := observe_quiet ⟨.building, none, none⟩ { me with timer := none, checking := true } s
      exact finish_quiet hnone hs hobserve
    · refine ⟨?_, hs⟩
      show (me.checks ++ [Awaiting.status]).length = 1
      rw [hnone]
      rfl

/-- **A start** uses up the attempt. -/
theorem openPreview_kept {me : Instance} {s : Shared} (hme : me.checks = []) (hchecking : me.checking = true)
    (hs : Budgeted s) (heligible : eligible me s = true) (hidle : s.controls.isBuilding = false)
    (hattempted : s.entry.attempted = false) : Kept (openPreview me s) := by
  unfold eligible at heligible
  simp only [Bool.and_eq_true, Bool.not_eq_true'] at heligible
  refine ⟨?_, ?_, ?_⟩
  · show (me.checks ++ [Awaiting.opening]).length = if me.checking then 1 else 0
    rw [hme, hchecking]
    rfl
  · have hcount := hs.count
    rw [hattempted] at hcount
    show (s.opens ++ _).length + 0 ≤ 1 + s.retries
    rw [List.length_append, List.length_singleton]
    exact hcount
  · intro call hcall
    rcases List.mem_append.mp hcall with hcall | hcall
    · exact hs.allowed call hcall
    · rw [List.mem_singleton.mp hcall]
      exact ⟨heligible.1.2, hidle, heligible.2, heligible.1.1⟩

/-- **Behind an `await`**: a start needs that all that was so is still so. -/
theorem resume_kept {me : Instance} {s : Shared} (hme : me.checks = []) (hchecking : me.checking = true)
    (hs : Budgeted s) (awaiting : Awaiting) (answer : Option PreviewStatus) : Kept (resume me s awaiting answer) := by
  have hwait : ∀ awaiting, Kept ({ me with checks := me.checks ++ [awaiting] }, s) := by
    intro awaiting
    refine ⟨?_, hs⟩
    show (me.checks ++ [awaiting]).length = if me.checking then 1 else 0
    rw [hme, hchecking]
    rfl
  cases awaiting with
  | status =>
      cases answer with
      | none => exact finish_quiet hme hs (caught_quiet me s)
      | some current =>
          rw [resume]
          split
          · exact finish_kept hme hs
          · rename_i hagain
            simp only [Bool.or_eq_true, Bool.not_eq_true', not_or, Bool.not_eq_true, Bool.not_eq_false] at hagain
            split
            · exact finish_quiet hme hs (observe_quiet current me s)
            · rename_i hfirst
              have hattempted := (not_or.mp hfirst).2
              rw [Bool.not_eq_true] at hattempted
              exact openPreview_kept hme hchecking hs hagain.1 hagain.2 hattempted
  | opening =>
      cases answer with
      | none =>
          rw [resume]
          split
          · exact finish_kept hme hs
          · exact hwait .observing
      | some data =>
          rw [resume]
          split
          · exact finish_quiet hme hs (observe_quiet _ me s)
          · exact finish_kept hme hs
  | observing =>
      cases answer with
      | none => exact finish_quiet hme hs (caught_quiet me s)
      | some current =>
          rw [resume]
          split
          · exact finish_quiet hme hs (observe_quiet current me s)
          · exact finish_kept hme hs

theorem fire_kept {me : Instance} {s : Shared} (hme : Single me) (hs : Budgeted s) : Kept (fire me s) := by
  unfold fire
  split
  · exact check_kept hme hs
  · exact ⟨hme, hs⟩

/-- The check that is answered is the only one. -/
theorem settle_kept {me : Instance} {s : Shared} (hme : Single me) (hs : Budgeted s) (k : Nat)
    (answer : Option PreviewStatus) : Kept (settle k answer me s) := by
  unfold settle
  split
  · rename_i awaiting hawaiting
    obtain ⟨hk, _⟩ := List.getElem?_eq_some_iff.mp hawaiting
    unfold Single at hme
    have hchecking : me.checking = true := by
      by_contra hnot
      rw [if_neg hnot] at hme
      omega
    rw [if_pos hchecking] at hme
    have hnone : me.checks.eraseIdx k = [] := by
      refine List.eq_nil_of_length_eq_zero ?_
      rw [List.length_eraseIdx_of_lt hk, hme]
    exact @resume_kept { me with checks := me.checks.eraseIdx k } s hnone hchecking hs awaiting answer
  · exact ⟨hme, hs⟩

/-- An accepted retry allows one more start. -/
theorem retryNow_kept {me : Instance} {s : Shared} (hme : Single me) (hs : Budgeted s) : Kept (retryNow me s) := by
  unfold retryNow
  split
  · exact ⟨hme, hs⟩
  · refine check_kept hme ⟨?_, hs.allowed⟩
    have hcount := hs.count
    show s.opens.length + 1 ≤ 1 + (s.retries + 1)
    omega

/-! ## §6. Every run. -/

/-- What holds of a hook. -/
structure Sound (h : Hook) : Prop where
  budgeted : Budgeted h.shared
  single : ∀ me ∈ h.instances, Single me

theorem Sound.act {h : Hook} (hs : Sound h) (i : Nat) {f : Instance → Shared → Instance × Shared}
    (hf : ∀ me, Single me → Kept (f me h.shared)) : Sound (h.act i f) := by
  unfold Hook.act
  split
  · rename_i me hme
    have hkept := hf me (hs.single me (List.mem_of_getElem? hme))
    refine ⟨hkept.2, fun me' hme' => ?_⟩
    rcases List.mem_or_eq_of_mem_set hme' with hme' | rfl
    · exact hs.single me' hme'
    · exact hkept.1
  · exact hs

theorem Sound.actLive {h : Hook} (hs : Sound h) {f : Instance → Shared → Instance × Shared}
    (hf : ∀ me, Single me → Kept (f me h.shared)) : Sound (h.actLive f) := by
  unfold Hook.actLive
  split
  · exact hs.act _ hf
  · exact hs

theorem Sound.cleanup {h : Hook} (hs : Sound h) : Sound h.cleanup := by
  have hdisposed := hs.actLive (f := fun me s => ({ me with disposed := true, timer := none }, s))
    fun me hme => ⟨hme, hs.budgeted⟩
  exact ⟨hdisposed.budgeted, hdisposed.single⟩

theorem Sound.firstEffect {h : Hook} (hs : Sound h) (controls : Controls) : Sound (h.firstEffect controls) := by
  unfold Hook.firstEffect
  dsimp only
  have hquiet : Quiet h.shared (if (controls.isBuilding || h.shared.controls.isBuilding) = true then
      { h.shared with controls := controls, entry := ⟨true, 0, none⟩, error := none }
      else { h.shared with controls := controls }) := by
    split
    · exact ⟨rfl, rfl, fun _ => rfl⟩
    · exact ⟨rfl, rfl, id⟩
  have hbudgeted := hquiet.budgeted hs.budgeted
  have hsound : Sound { h with shared := if (controls.isBuilding || h.shared.controls.isBuilding) = true then
      { h.shared with controls := controls, entry := ⟨true, 0, none⟩, error := none }
      else { h.shared with controls := controls } } := ⟨hbudgeted, hs.single⟩
  exact hsound.actLive fun me hme => check_kept hme hbudgeted

theorem Sound.secondEffect {h : Hook} (hs : Sound h) (projectId : String) (revisionId : Option String) :
    Sound (h.secondEffect projectId revisionId) := by
  unfold Hook.secondEffect
  split
  · exact hs
  split
  · exact hs
  · rename_i revisionId _
    dsimp only
    refine ⟨?_, fun me hme => ?_⟩
    · refine Quiet.budgeted ?_ hs.budgeted
      split
      · exact ⟨rfl, rfl, id⟩
      · exact ⟨rfl, rfl, id⟩
    · rcases List.mem_append.mp hme with hme | hme
      · exact hs.single me hme
      · rw [List.mem_singleton.mp hme]
        rfl

/-- **One event.** -/
theorem Sound.step {h : Hook} (hs : Sound h) (event : Event) : Sound (h.step event) := by
  cases event with
  | effects controls revision =>
      have hcleanup : Sound (if revision.isSome then h.cleanup else h) := by
        split
        · exact hs.cleanup
        · exact hs
      unfold Hook.step
      dsimp only
      generalize (if revision.isSome then h.cleanup else h) = h' at hcleanup
      cases controls with
      | none =>
          cases revision with
          | none => exact hcleanup
          | some r => exact hcleanup.secondEffect r.1 r.2
      | some controls =>
          cases revision with
          | none => exact hcleanup.firstEffect controls
          | some r => exact (hcleanup.firstEffect controls).secondEffect r.1 r.2
  | unmount => exact hs.cleanup
  | visibilityChange visible =>
      have hsound : Sound { h with shared := { h.shared with visible := visible } } :=
        ⟨⟨hs.budgeted.count, hs.budgeted.allowed⟩, hs.single⟩
      exact hsound.actLive fun me hme => check_kept hme hsound.budgeted
  | elapse ms => exact ⟨⟨hs.budgeted.count, hs.budgeted.allowed⟩, hs.single⟩
  | tick i => exact hs.act i fun me hme => fire_kept hme hs.budgeted
  | retry => exact hs.actLive fun me hme => retryNow_kept hme hs.budgeted
  | answer i k answer => exact hs.act i fun me hme => settle_kept hme hs.budgeted k answer

theorem Sound.run {h : Hook} (hs : Sound h) (events : List Event) : Sound (h.run events) := by
  unfold Hook.run
  induction events generalizing h with
  | nil => exact hs
  | cons event events ih =>
      rw [List.foldl_cons]
      exact ih (hs.step event)

theorem sound_mounted (controls : Controls) (visible : Bool) (now : Nat) : Sound (.mounted controls visible now) :=
  ⟨⟨Nat.le_refl _, fun _ hcall => absurd hcall List.not_mem_nil⟩, fun _ hme => absurd hme List.not_mem_nil⟩

/-- **A preview is started at most once**, and once more for each accepted
retry; only while the panel is shown and no run builds; and an instance has at
most one check in flight. -/
theorem opened_once (controls : Controls) (visible : Bool) (now : Nat) (events : List Event) :
    ((Hook.mounted controls visible now).run events).shared.opens.length ≤
        1 + ((Hook.mounted controls visible now).run events).shared.retries ∧
      (∀ call ∈ ((Hook.mounted controls visible now).run events).shared.opens, call.Allowed) ∧
      ∀ me ∈ ((Hook.mounted controls visible now).run events).instances, me.checks.length ≤ 1 := by
  have hsound := (sound_mounted controls visible now).run events
  generalize (Hook.mounted controls visible now).run events = h at hsound
  refine ⟨?_, hsound.budgeted.allowed, fun me hme => ?_⟩
  · have hcount := hsound.budgeted.count
    omega
  · have hsingle := hsound.single me hme
    unfold Single at hsingle
    rw [hsingle]
    split
    · exact Nat.le_refl 1
    · exact Nat.zero_le 1

end WebBuilder.Frontend.PreviewLifecycle
