/-
  WebBuilder.Run.Freshness — browser checks never look at a stale server.

  The workspace counts its mutations and remembers the count at the last
  successful restart of the preview server.  Every trace of a run is watched
  by a monitor that notes whether a mutation or a failed restart came after
  the last successful restart.

  Main results:
    * `tracks_runTool`, `tracks_verify` — tools and verifications keep the two
      counters apart as long as the server is behind;
    * `checks_see_current_server` — read off along a trace of `execute`.
-/
import WebBuilder.Run.Outcomes

namespace WebBuilder.Run

open WebBuilder.Async WebBuilder.Store

variable {α β : Type} {cfg : Config} {runId chatId : Nat}

/-! ## §1. What makes a server stale. -/

/-- An upload of `write_files`, or a command of `execute_command`. -/
def mutates (st : WStep) : Bool :=
  match st.op.op with
  | .upload | .command .tool => true
  | _ => false

def isRestart (st : WStep) : Bool := st.op.op = .command (.preview .restart)

/-- A restart that has completed successfully. -/
def restarted (st : WStep) : Bool := isRestart st && decide (st.answer = .ok (.check true))

/-- A mutation, or a restart that has failed. -/
def spoils (st : WStep) : Bool := mutates st || (isRestart st && !restarted st)

/-- The browser check of `inspect_preview` or of a verification. -/
def looksAtServer (st : WStep) : Bool :=
  match st.op.op with
  | .command (.browser .inspection) | .command (.browser .smoke) => true
  | _ => false

/-! ## §2. The monitor. -/

/-- It notes whether the server is behind. -/
def servers : Monitor World Label Exc Datum Bool where
  next behind st := (behind && !restarted st) || spoils st
  ok behind st := looksAtServer st = true → behind = false

/-- The last successful restart is after everything that spoils the server. -/
def Current (steps : List WStep) : Prop :=
  (∀ s ∈ steps, spoils s = false) ∨
    ∃ pre r post, steps = pre ++ r :: post ∧ restarted r = true ∧ ∀ s ∈ post, spoils s = false

theorem current_snoc {steps : List WStep} {st : WStep} (hst : spoils st = false)
    (h : Current steps ∨ restarted st = true) : Current (steps ++ [st]) := by
  rcases h with (h | ⟨pre, r, post, rfl, hr, h⟩) | h
  · refine .inl fun s hs => ?_
    rcases List.mem_append.mp hs with hs | hs
    · exact h s hs
    · exact List.mem_singleton.mp hs ▸ hst
  · refine .inr ⟨pre, r, post ++ [st], by simp, hr, fun s hs => ?_⟩
    rcases List.mem_append.mp hs with hs | hs
    · exact h s hs
    · exact List.mem_singleton.mp hs ▸ hst
  · exact .inr ⟨steps, st, [], rfl, h, by simp⟩

theorem after_snoc (behind : Bool) (steps : List WStep) (st : WStep) :
    servers.after behind (steps ++ [st]) = servers.next (servers.after behind steps) st := by
  simp [Monitor.after]

/-- **What the monitor notes**. -/
theorem current_of_after {steps : List WStep} (h : servers.after false steps = false) : Current steps := by
  induction steps using List.reverseRecOn with
  | nil => exact .inl (by simp)
  | append_singleton steps st ih =>
      rw [after_snoc] at h
      obtain ⟨hbefore, hst⟩ := Bool.or_eq_false_iff.mp h
      refine current_snoc hst ?_
      rcases Bool.and_eq_false_iff.mp hbefore with hbefore | hr
      · exact .inl (ih hbefore)
      · exact .inr (by simpa using hr)

/-! ## §3. Steps outside commands. -/

theorem mutates_quiet {st : WStep} (h : Quiet st) : mutates st = false := by
  obtain ⟨⟨op, scopes⟩, a, e, w, w'⟩ := st
  obtain ⟨hcommand, hupload⟩ := h
  cases op
  case command c => exact absurd rfl (hcommand c)
  case upload => exact absurd rfl hupload
  all_goals rfl

theorem looksAtServer_quiet {st : WStep} (h : Quiet st) : looksAtServer st = false := by
  obtain ⟨⟨op, scopes⟩, a, e, w, w'⟩ := st
  obtain ⟨hcommand, hupload⟩ := h
  cases op
  case command c => exact absurd rfl (hcommand c)
  all_goals rfl

/-- The server is as it was. -/
theorem next_quiet {behind : Bool} {st : WStep} (h : Quiet st) : servers.next behind st = behind := by
  have hrestart : isRestart st = false := decide_eq_false fun hop => h.1 _ hop
  simp [servers, spoils, restarted, mutates_quiet h, hrestart]

/-- A coroutine outside commands leaves the server as it is. -/
theorem unchanged_quiet {p : Act α} (hp : p.All Quiet) (w : World) (behind : Bool) :
    Watched Anything servers p (fun _ _ b => b = behind) w behind := by
  refine Watched.mono (Watched.of_each (P := fun _ b => b = behind) (fun _ _ _ _ h => h) ?_ hp rfl)
    fun _ _ _ h => h.2
  rintro st b hst rfl
  refine ⟨fun hlooks => ?_, next_quiet hst⟩
  rw [looksAtServer_quiet hst] at hlooks
  cases hlooks

/-! ## §4. Commands. -/

/-- A command of the host that is no restart and does not look at the pages. -/
def Aside (command : Command) : Prop :=
  command = .build ∨ command = .preview .stop ∨ command = .preview .start ∨ command = .browser .preflight

/-- A command, by what its step does to the server. -/
theorem watched_runCommand {P : Bool → Prop} {behind : Bool} (id : Nat) (command : Command)
    (h : ∀ st : WStep, st.op.op = .command command → servers.ok behind st ∧ P (servers.next behind st)) (w : World) :
    Watched Anything servers (runCommand id command) (fun _ _ => P) w behind :=
  Watched.await fun _ _ _ _ _ _ => h _ rfl

theorem unchanged_runCommand (id : Nat) {command : Command} (haside : Aside command) (w : World)
    (behind : Bool) : Watched Anything servers (runCommand id command) (fun _ _ b => b = behind) w behind := by
  refine watched_runCommand id command (fun st hst => ⟨fun hlooks => ?_, ?_⟩) w
  · rw [looksAtServer, hst] at hlooks
    rcases haside with rfl | rfl | rfl | rfl <;> cases hlooks
  · show ((behind && !restarted st) || spoils st) = behind
    rw [spoils, restarted, mutates, isRestart, hst]
    rcases haside with rfl | rfl | rfl | rfl <;> simp

/-- A check of a current server. -/
theorem current_checkBrowser (id : Nat) (check : BrowserCheck) (w : World) :
    Watched Anything servers (checkBrowser id check) (fun _ _ b => b = false) w false := by
  refine watched_runCommand id _ (fun st hst => ⟨fun _ => rfl, ?_⟩) w
  show spoils st = false
  rw [spoils, mutates, isRestart, hst]
  rfl

/-- A command that has succeeded was seen to. -/
theorem answer_of_ok {id : Nat} {command : Command} (hcommand : command ≠ .tool) {answer : Answer Exc Datum}
    {w w' : World} (h : (match answer with
      | .ok d => ((w.e2b.box? id).bind fun b => b.ended command d).map fun r => (.ok r.1, w.setBox r.2)
      | .lost e d =>
          if providerFault e then
            ((w.e2b.box? id).bind fun b => b.ended command d).map fun r => (.error e, w.setBox r.2)
          else none
      | .fail (.commandState m) =>
          some (.error (.commandState m), if command = .tool then w.unsettle id else w)
      | .fail e =>
          if interruption e then some (.error e, if command = .tool then w.unsettle id else w) else none
      | .late _ _ => none) = some (Except.ok true, w')) : answer = .ok (.check true) := by
  split at h
  · simp only [Option.map_eq_some_iff, Prod.mk.injEq, Except.ok.injEq] at h
    obtain ⟨x, hx, hok, _⟩ := h
    obtain ⟨b, _, hended⟩ := Option.bind_eq_some_iff.mp hx
    unfold Box.ended at hended
    split at hended
    · rw [if_neg hcommand] at hended
      cases hended
    · rw [if_neg hcommand] at hended
      obtain rfl := Option.some.inj hended
      exact congrArg Answer.ok (congrArg Datum.check hok)
    · cases hended
  · simp only [Option.ite_none_right_eq_some, Option.map_eq_some_iff, Prod.mk.injEq] at h
    obtain ⟨_, x, _, h, _⟩ := h
    cases h
  all_goals simp at h

/-- **A restart** that returns has succeeded. -/
theorem restart_controlPreview (id : Nat) (w : World) (behind : Bool) :
    Watched Anything servers (controlPreview id .restart) (fun r _ b => r = .ok () → b = false) w behind := by
  refine Watched.bind (P := fun r _ b => r = .ok true → b = false) ?_ (fun ok w b h => ?_) fun e w b _ hx => by cases hx
  · refine Watched.await fun w₁ _ a r w₂ hact => ⟨(fun hlooks => by cases hlooks), fun hr => ?_⟩
    subst hr
    obtain rfl := answer_of_ok (by simp) hact
    show ((behind && !restarted _) || spoils _) = false
    simp [restarted, spoils, mutates, isRestart]
  · split
    · rename_i hok
      exact fun _ => h (by rw [hok])
    · exact fun hx => by cases hx

/-! ## §5. The workspace. -/

/-- The counters differ as long as the server is behind. -/
structure Tracks (ws : Workspace) (behind : Bool) : Prop where
  le : ws.previewRevision ≤ ws.revision
  apart : behind = true → ws.previewRevision ≠ ws.revision

theorem Tracks.current {ws : Workspace} {behind : Bool} (h : Tracks ws behind)
    (heq : ws.previewRevision = ws.revision) : behind = false :=
  Bool.eq_false_iff.mpr fun hb => h.apart hb heq

/-- Counters that differ track any server. -/
theorem Tracks.of_ne {ws : Workspace} {behind : Bool} (h : Tracks ws behind)
    (hne : ws.previewRevision ≠ ws.revision) (behind' : Bool) : Tracks ws behind' := ⟨h.le, fun _ => hne⟩

/-- So do the counters after a mutation. -/
theorem Tracks.mutated {ws : Workspace} {behind : Bool} (h : Tracks ws behind) (behind' : Bool) :
    Tracks { ws with revision := ws.revision + 1 } behind' := by
  have hle := h.le
  refine ⟨?_, fun _ => ?_⟩
  · show ws.previewRevision ≤ ws.revision + 1
    omega
  · show ws.previewRevision ≠ ws.revision + 1
    omega

/-- `ensure_preview_current`: the server is current, or the workspace still says that it is not. -/
def Ensured (ws : Workspace) (r : Except Exc Workspace) (_ : World) (behind : Bool) : Prop :=
  match r with
  | .ok ws' => behind = false ∧ Tracks ws' false
  | .error _ => Tracks ws behind

theorem ensured_ensurePreviewCurrent (id : Nat) {ws : Workspace} {behind : Bool} (hws : Tracks ws behind)
    (w : World) : Watched Anything servers (ensurePreviewCurrent id ws) (Ensured ws) w behind := by
  unfold ensurePreviewCurrent
  split
  · rename_i hne
    refine Watched.bind (restart_controlPreview id w behind) (fun x w b h => ?_) fun e w b _ => hws.of_ne hne b
    exact ⟨h rfl, le_refl _, fun hb => by cases hb⟩
  · rename_i heq
    rw [not_not] at heq
    exact ⟨hws.current heq, hws.le, fun hb => by cases hb⟩

/-- The value of a caught outcome. -/
theorem watched_caughtValue {p : Act α} {P : Except Exc α → World → Bool → Prop} {w : World} {behind : Bool}
    (hp : Watched Anything servers p P w behind) :
    Watched Anything servers (caught p) (fun r w b => ∀ x, r = .ok x → P x w b) w behind := by
  refine Watched.tryCatch (P := fun r w b => match r with
      | .ok x => P x w b
      | .error e => P (.error e) w b) ?_ (fun x w b h y hy => Except.ok.inj hy ▸ h) fun e w b h => ?_
  · exact Watched.bind hp (fun a w b h => h) fun e w b h => h
  · split
    · exact fun x hx => Except.ok.inj hx ▸ h
    · exact fun x hx => by cases hx

/-- A verification leaves a workspace that tracks the server. -/
theorem tracks_verify (id : Nat) {ws : Workspace} {behind : Bool} (hws : Tracks ws behind) (w : World) :
    Watched Anything servers (verify id ws) (fun r _ b => ∀ x, r = .ok x → Tracks x.2 b) w behind := by
  refine Watched.bind (unchanged_runCommand id (.inl rfl) w behind) (fun build w b hb => ?_) fun _ _ _ _ x hx => by cases hx
  subst hb
  split
  · refine Watched.bind (ensured_ensurePreviewCurrent id hws w) (fun ws' w b h => ?_) fun _ _ _ _ x hx => by cases hx
    obtain ⟨rfl, hws'⟩ := h
    refine Watched.bind (current_checkBrowser id .smoke w) (fun ok w b hb => ?_) fun _ _ _ _ x hx => by cases hx
    subst hb
    exact fun x hx => Except.ok.inj hx ▸ hws'
  · exact fun x hx => Except.ok.inj hx ▸ hws

/-! ## §6. Tools. -/

/-- What a tool leaves tracks the server. -/
def ToolTracks (r : Except Exc ToolOutcome) (_ : World) (behind : Bool) : Prop :=
  ∀ x, r = .ok x → Tracks x.2 behind

theorem toolTracks_done {x : ToolOutcome} {behind : Bool} (h : Tracks x.2 behind) (w : World) :
    Watched Anything servers (.done (.ok x) : Act ToolOutcome) ToolTracks w behind :=
  fun _ hx => Except.ok.inj hx ▸ h

theorem looks_inspectCurrent (id : Nat) (screenshot : Bool) (w : World) :
    Watched Anything servers (inspectCurrent id screenshot) (fun _ _ b => b = false) w false := by
  have hremove : removeFile.All Quiet := All.mono (fun _ h => quiet_of_plain h.plain)
    (Each.all (each_removeFile : removeFile.Each (OwnStep 0 0) _))
  unfold inspectCurrent
  split
  · refine Watched.onExit (P := fun _ _ b => b = false) ?_ fun r w b hb => ?_
    · refine Watched.bind (current_checkBrowser id .inspection w) (fun ok w b hb => ?_) fun _ _ _ h => h
      subst hb
      exact Watched.bind (unchanged_quiet (all_caught quiet_toolRequest) w false) (fun _ _ _ h => h) fun _ _ _ h => h
    · subst hb
      exact (unchanged_quiet hremove w false).mono fun r w b h => by cases r <;> exact h
  · exact current_checkBrowser id .inspection w

theorem tracks_inspectPreview (id : Nat) (valid screenshot : Bool) {ws : Workspace} {behind : Bool}
    (hws : Tracks ws behind) (w : World) :
    Watched Anything servers (inspectPreview id valid screenshot ws) ToolTracks w behind := by
  have hattempt : Tracks (if screenshot = true then
      { ws with screenshotAttempts := ws.screenshotAttempts + 1 } else ws) behind := by
    split
    · exact ⟨hws.le, hws.apart⟩
    · exact hws
  unfold inspectPreview
  split
  · split
    · exact toolTracks_done hws w
    · refine Watched.bind (watched_caughtValue (ensured_ensurePreviewCurrent id hattempt w)) (fun current w b h => ?_)
        fun _ _ _ _ x hx => by cases hx
      have hensured := h current rfl
      cases current with
      | error e =>
          have hws' : Tracks _ b := hensured
          exact toolTracks_done hws' w
      | ok ws' =>
          obtain ⟨rfl, hws'⟩ := hensured
          refine Watched.bind (watched_caughtValue (looks_inspectCurrent id screenshot w)) (fun r w b h => ?_)
            fun _ _ _ _ x hx => by cases hx
          obtain rfl : b = false := h r rfl
          exact toolTracks_done hws' w
  · exact toolTracks_done hws w

/-- A tool that mutates, whatever comes of it. -/
theorem tracks_mutation {p : Act α} {w : World} {behind : Bool} {ws : Workspace} (hws : Tracks ws behind)
    (hp : Watched Anything servers p (fun _ _ _ => True) w behind) (f : Except Exc α → Except Exc Bool) :
    Watched Anything servers ((caught p).bind fun r => .done (.ok (f r, { ws with revision := ws.revision + 1 })))
      ToolTracks w behind :=
  Watched.bind (watched_caughtValue hp) (fun _ w b _ => toolTracks_done (hws.mutated b) w)
    fun _ _ _ _ x hx => by cases hx

/-- **A tool**: one lemma for each constructor. -/
theorem tracks_runTool (id : Nat) (call : ToolCall) {ws : Workspace} {behind : Bool} (hws : Tracks ws behind)
    (w : World) : Watched Anything servers (runTool id call ws) ToolTracks w behind := by
  have hread : Watched Anything servers ((caught toolRequest).bind fun r => .done (.ok (r, ws))) ToolTracks w behind :=
    Watched.bind (unchanged_quiet (all_caught quiet_toolRequest) w behind)
      (fun r w b hb => toolTracks_done (hb ▸ hws) w) fun _ _ _ _ x hx => by cases hx
  have htool : Watched Anything servers (runCommand id .tool) (fun _ _ _ => True) w behind :=
    watched_runCommand id .tool (fun st hst => ⟨fun h => (by rw [looksAtServer, hst] at h; cases h), trivial⟩) w
  have hupload : Watched Anything servers (uploadFiles id) (fun _ _ _ => True) w behind :=
    Watched.await fun _ _ _ _ _ _ => ⟨fun h => (by cases h), trivial⟩
  unfold runTool
  split
  case h_1 =>
    unfold writeFiles
    split
    · exact tracks_mutation hws hupload _
    · exact toolTracks_done hws w
  case h_2 =>
    unfold executeCommand
    split
    · exact tracks_mutation hws htool _
    · exact toolTracks_done hws w
  case h_3 => exact tracks_inspectPreview id _ _ hws w
  case h_7 => exact toolTracks_done hws w
  all_goals exact hread

/-! ## §7. The conversation. -/

/-- The workspace of the editor tracks the server. -/
def EditorTracks (r : Except Exc Editor) (_ : World) (behind : Bool) : Prop :=
  ∀ ed, r = .ok ed → Tracks ed.workspace behind

/-- Quiet parts come between. -/
theorem quiet_then {p : Act α} {f : α → Act β} {Q : Except Exc β → World → Bool → Prop} {w : World} {behind : Bool}
    (hp : p.All Quiet) (hf : ∀ a w, Watched Anything servers (f a) Q w behind)
    (hQ : ∀ e w b, Q (.error e) w b) : Watched Anything servers (p.bind f) Q w behind :=
  Watched.bind (unchanged_quiet hp w behind) (fun a w _ hb => hb ▸ hf a w) fun e w b _ => hQ e w b

section Conversation

variable {emit : EventKind → String → Act Unit} {checkpoint : Bool → Act Unit}
  (hemit : ∀ kind message, (emit kind message).All Quiet) (hcheckpoint : ∀ dirty, (checkpoint dirty).All Quiet)

include hemit

theorem tracks_runCall (id : Nat) (call : ToolCall) {ed : Editor} {behind : Bool}
    (hed : Tracks ed.workspace behind) (w : World) :
    Watched Anything servers (runCall cfg emit id call ed) EditorTracks w behind := by
  have hfail : ∀ e w b, EditorTracks (.error e) w b := fun _ _ _ _ h => by cases h
  unfold runCall
  dsimp only
  split
  · exact hfail _ _ _
  · split
    · exact hfail _ _ _
    · refine quiet_then (hemit _ _) (fun _ w => ?_) hfail
      refine Watched.bind (tracks_runTool id call hed w) (fun x w b h => ?_) fun e w b _ => hfail e w b
      refine quiet_then (hemit _ _) (fun _ w => ?_) hfail
      have hx := h x rfl
      obtain ⟨r, ws⟩ := x
      cases r with
      | ok ok => exact fun ed' hed' => Except.ok.inj hed' ▸ hx
      | error e =>
          dsimp only
          split
          · exact hfail _ _ _
          · exact fun ed' hed' => Except.ok.inj hed' ▸ hx

theorem tracks_runCalls (id : Nat) : ∀ (calls : List ToolCall) {ed : Editor} {behind : Bool},
    Tracks ed.workspace behind → ∀ w : World,
      Watched Anything servers (runCalls cfg emit id calls ed) EditorTracks w behind
  | [], _, _, hed, _ => fun _ h => Except.ok.inj h ▸ hed
  | call :: calls, _, _, hed, w =>
      Watched.bind (tracks_runCall hemit id call hed w) (fun ed w _ h => tracks_runCalls id calls (h ed rfl) w)
        fun _ _ _ _ _ h => by cases h

include hcheckpoint

/-- What a turn leaves tracks the server. -/
def TurnTracks (r : Except Exc (Option String × Editor)) (_ : World) (behind : Bool) : Prop :=
  ∀ x, r = .ok x → Tracks x.2.workspace behind

theorem tracks_finalReply (id : Nat) (text : String) {ed : Editor} {behind : Bool}
    (hed : Tracks ed.workspace behind) (w : World) :
    Watched Anything servers (finalReply emit checkpoint id text ed) TurnTracks w behind := by
  have hfail : ∀ e w b, TurnTracks (.error e) w b := fun _ _ _ _ h => by cases h
  refine quiet_then (hemit _ _) (fun _ w => ?_) hfail
  refine Watched.bind (tracks_verify id hed w) (fun x w b h => ?_) fun e w b _ => hfail e w b
  refine quiet_then (hemit _ _) (fun _ w => ?_) hfail
  refine quiet_then (hcheckpoint _) (fun _ w => ?_) hfail
  split
  · exact fun y hy => Except.ok.inj hy ▸ h x rfl
  · split
    · exact hfail _ _ _
    · exact fun y hy => Except.ok.inj hy ▸ h x rfl

theorem tracks_runTurn (id : Nat) {ed : Editor} {behind : Bool} (hed : Tracks ed.workspace behind) (w : World) :
    Watched Anything servers (runTurn cfg emit checkpoint id ed) TurnTracks w behind := by
  have hfail : ∀ e w b, TurnTracks (.error e) w b := fun _ _ _ _ h => by cases h
  have hmodel : invokeModel.All Quiet :=
    All.mono (fun _ => RunStep.quiet) (all_invokeModel : invokeModel.All (RunStep cfg 0 0))
  refine quiet_then (hemit _ _) (fun _ w => ?_) hfail
  refine quiet_then (hcheckpoint _) (fun _ w => ?_) hfail
  refine quiet_then hmodel (fun reply w => ?_) hfail
  split
  · exact hfail _ _ _
  · exact hfail _ _ _
  · exact tracks_finalReply hemit hcheckpoint id _ hed w
  · refine Watched.bind (tracks_runCalls hemit id _ hed w) (fun after w b h => ?_) fun e w b _ => hfail e w b
    exact quiet_then (hcheckpoint _) (fun _ w x hx => Except.ok.inj hx ▸ h after rfl) hfail

theorem tracks_runTurns (id : Nat) : ∀ (turns : Nat) {ed : Editor} {behind : Bool},
    Tracks ed.workspace behind → ∀ w : World,
      Watched Anything servers (runTurns cfg emit checkpoint id turns ed) (fun _ _ _ => True) w behind
  | 0, _, _, _, _ => trivial
  | turns + 1, ed, _, hed, w => by
      refine Watched.bind (tracks_runTurn hemit hcheckpoint id hed w) (fun x w b h => ?_) fun _ _ _ _ => trivial
      obtain ⟨summary, ed'⟩ := x
      cases summary with
      | some text => trivial
      | none => exact tracks_runTurns id turns (h _ rfl) w

end Conversation

/-! ## §8. The run. -/

/-- The server is as it was, when the sandbox is ready. -/
def Unspoiled (r : Except Exc α) (_ : World) (behind : Bool) : Prop :=
  ∀ a, r = .ok a → behind = false

theorem Unspoiled.bind {p : Act α} {f : α → Act β} {w : World} (hp : Watched Anything servers p Unspoiled w false)
    (hf : ∀ a w, Watched Anything servers (f a) Unspoiled w false) :
    Watched Anything servers (p.bind f) Unspoiled w false :=
  Watched.bind hp (fun a w _ h => h a rfl ▸ hf a w) fun _ _ _ _ _ h => by cases h

theorem unspoiled_quiet {p : Act α} (hp : p.All Quiet) (w : World) :
    Watched Anything servers p Unspoiled w false :=
  (unchanged_quiet hp w false).mono fun _ _ _ h _ _ => h

theorem unspoiled_done (r : Except Exc α) (w : World) :
    Watched Anything servers (.done r : Act α) Unspoiled w false := fun _ _ => rfl

theorem unspoiled_controlPreview (id : Nat) {action : PreviewAction} (haside : Aside (.preview action)) (w : World) :
    Watched Anything servers (controlPreview id action) Unspoiled w false := by
  refine Unspoiled.bind ((unchanged_runCommand id haside w false).mono fun _ _ _ h _ _ => h) fun ok w => ?_
  split
  · exact unspoiled_done _ w
  · exact unspoiled_done _ w

theorem unspoiled_restoreRevision (id : Nat) (revision : ProjectRevision) (w : World) :
    Watched Anything servers (restoreRevision cfg id revision) Unspoiled w false := by
  refine Unspoiled.bind (unspoiled_controlPreview id (.inr (.inl rfl)) w) fun _ w => ?_
  refine Unspoiled.bind (unspoiled_quiet (quiet_storage all_archiveSlot) w) fun _ w => ?_
  refine Unspoiled.bind (unspoiled_quiet (quiet_storage (all_revisionBytes cfg revision)) w) fun data w => ?_
  refine Unspoiled.bind (unspoiled_quiet (quiet_restoreSandbox id data) w) fun _ w => ?_
  split
  · exact unspoiled_done _ w
  · have hcommand : (hostCommand id).All Quiet := quiet_sandbox (tend_sandbox (all_hostCommand id : (hostCommand id).All (TendStep 0)))
    refine Unspoiled.bind (unspoiled_quiet hcommand w) fun _ w => ?_
    exact unspoiled_controlPreview id (.inr (.inr (.inl rfl))) w

theorem unspoiled_getE2bSandbox (c : Nat) (w : World) :
    Watched Anything servers (getE2bSandbox cfg c) Unspoiled w false := by
  have hrevision : (ensureRevision cfg c).All Quiet := All.mono (fun _ => SaveStep.quiet) (all_ensureRevision cfg c)
  have hcommand : ∀ id, (hostCommand id).All (TendStep c) := all_hostCommand
  have htools : ∀ id, (checkArchiveTools id).All Quiet := fun id =>
    all_catchException (quiet_sandbox (tend_sandbox (hcommand id))) fun _ => trivial
  refine Unspoiled.bind (unspoiled_quiet hrevision w) fun revision w => ?_
  refine Unspoiled.bind (unspoiled_quiet (quiet_sandbox (all_acquire cfg c revision)) w) fun x w => ?_
  obtain ⟨id, restore⟩ := x
  dsimp only
  split
  · refine Unspoiled.bind (unspoiled_quiet (htools id) w) fun _ w => ?_
    refine Unspoiled.bind ?_ fun _ w => unspoiled_done _ w
    cases revision with
    | some revision => exact unspoiled_restoreRevision id revision w
    | none => exact unspoiled_done _ w
  · exact unspoiled_done _ w

/-- **A conversation** on a fresh workspace. -/
theorem tracks_runEditor (id : Nat) (w : World) :
    Watched Anything servers (runEditor cfg (emit runId) (checkpoint cfg runId) id) (fun _ _ _ => True) w false := by
  have hemit : ∀ kind message, (emit runId kind message).All Quiet := fun kind message =>
    All.mono (fun _ h => quiet_of_plain h.plain) (all_emit kind message : (emit runId kind message).All (OwnStep runId 0))
  have hcheckpoint : ∀ dirty, (checkpoint cfg runId dirty).All Quiet := fun dirty =>
    All.mono (fun _ => RunStep.quiet) (all_checkpoint dirty : (checkpoint cfg runId dirty).All (RunStep cfg runId 0))
  have hmodel : invokeModel.All Quiet :=
    All.mono (fun _ => RunStep.quiet) (all_invokeModel : invokeModel.All (RunStep cfg runId 0))
  have hfail : ∀ (e : Exc) (w : World) (b : Bool), True := fun _ _ _ => trivial
  have hcontext : buildContext.All Quiet := by
    refine All.bind (all_observe fun _ _ _ => quiet_of_plain rfl) fun compact => ?_
    split
    · exact All.bind hmodel fun _ => trivial
    · trivial
  refine quiet_then (hemit _ _) (fun _ w => ?_) hfail
  refine Watched.bind (unchanged_runCommand id (.inr (.inr (.inr rfl))) w false) (fun ok w b hb => ?_) fun _ _ _ _ => trivial
  subst hb
  split
  · refine quiet_then (hemit _ _) (fun _ w => ?_) hfail
    refine quiet_then hcontext (fun _ w => ?_) hfail
    refine quiet_then (all_observe fun _ _ _ => quiet_of_plain rfl) (fun paths w => ?_) hfail
    refine quiet_then (All.forEach _ fun _ _ => All.bind (all_caught quiet_toolRequest) fun _ => trivial)
      (fun _ w => ?_) hfail
    have hinitial : Tracks Editor.initial.workspace false := ⟨le_refl _, fun h => by cases h⟩
    exact Watched.bind (tracks_runTurns hemit hcheckpoint id cfg.runMaxTurns hinitial w) (fun _ _ _ _ => trivial)
      fun _ _ _ _ => trivial
  · exact quiet_then (hemit _ _) (fun _ _ => trivial) hfail

theorem current_executeBody (c : Nat) (w : World) :
    Watched Anything servers (executeBody cfg runId c) (fun _ _ _ => True) w false := by
  have hfail : ∀ (e : Exc) (w : World) (b : Bool), True := fun _ _ _ => trivial
  have hstart : (emit runId .runStarted "Starting your request").All Quiet :=
    All.mono (fun _ h => quiet_of_plain h.plain) (all_emit _ _ : (emit runId .runStarted _).All (OwnStep runId c))
  have hsave : (saveFiles cfg runId).All Quiet :=
    All.mono (fun _ => RunStep.quiet) (all_saveFiles : (saveFiles cfg runId).All (RunStep cfg runId c))
  refine Watched.tryCatch (P := fun _ _ _ => True) (Watched.relabel (fun _ _ => rfl) (fun m st h => h) ?_)
    (fun _ _ _ _ => trivial) fun e w m _ => ?_
  · refine quiet_then hstart (fun _ w => ?_) hfail
    refine Watched.bind (unspoiled_getE2bSandbox c w) (fun id w b h => ?_) fun _ _ _ _ => trivial
    rw [h id rfl]
    refine quiet_then (all_memory fun _ _ => quiet_of_plain rfl) (fun _ w => ?_) hfail
    refine quiet_then (quiet_sandbox (tend_sandbox (all_invalidate c))) (fun _ w => ?_) hfail
    refine Watched.bind (tracks_runEditor id w) (fun result w b _ => ?_) fun _ _ _ _ => trivial
    exact quiet_then hsave (fun _ _ => trivial) hfail
  · split <;> trivial

/-- The end of a run runs no command. -/
theorem quiet_conclude (t : Nat) (o : Outcome) : (conclude t runId chatId o).All Quiet := by
  have hkeep : (keepSandbox runId chatId).All (OwnStep runId chatId) := all_keepSandbox
  have hretire : (retireSandbox t chatId).All (CleanupStep runId chatId) := all_retireSandbox t
  have hcleanup : ∀ st, CleanupStep runId chatId st → Quiet st := fun _ h => quiet_of_plain h.plain
  refine All.bind (All.mono (fun _ h => quiet_of_plain h.plain) hkeep) fun sandbox => ?_
  refine All.bind ?_ fun o' => ?_
  · unfold cleanUpFailed
    split
    · trivial
    · rename_i hfailed
      have hclean : (cleanUpRun t chatId sandbox o).Each (CleanupStep runId chatId) _ := each_cleanUpRun hfailed
      exact All.mono hcleanup (Each.all hclean)
  · refine All.tryCatch (All.mono (fun _ h => h.1) (all_finish rfl o'.status _ _)) fun e => ?_
    split
    · exact All.bind (All.mono hcleanup hretire) fun _ => trivial
    · trivial

/-- **The monitor permits every step of a run.** -/
theorem current_execute (cfg : Config) (t runId : Nat) (w : World) :
    Watched Anything servers (execute cfg t runId) (fun _ _ _ => True) w false := by
  have hfail : ∀ (e : Exc) (w : World) (b : Bool), True := fun _ _ _ => trivial
  have hmemory : ∀ {γ : Type} {f : World → γ × World}, (memory f).All Quiet := all_memory fun _ _ => quiet_of_plain rfl
  refine quiet_then hmemory (fun live w => ?_) hfail
  cases live with
  | none => trivial
  | some live =>
      refine Watched.bind (P := fun _ _ _ => True) (Watched.attempt ?_) (fun r w b _ => ?_) fun _ _ _ _ => trivial
      · refine Watched.bind (P := fun _ _ _ => True) (Watched.attempt (current_executeBody live.chatId w))
          (fun r w b _ => ?_) fun _ _ _ _ => trivial
        refine quiet_then hmemory (fun stopping w => ?_) hfail
        exact (unchanged_quiet (quiet_conclude t _) w b).mono fun _ _ _ _ => trivial
      · exact (unchanged_quiet hmemory w b).mono fun _ _ _ _ => trivial

/-- **Browser checks never look at a stale server**: before each of them, the
last successful restart of the run came after every mutation and after every
failed restart, unless there was neither. -/
theorem checks_see_current_server (cfg : Config) (t runId : Nat) {w w' : World} {rest : Act Unit}
    {steps : List WStep} (h : Performs Anything w (execute cfg t runId) steps w' rest)
    (pre : List WStep) (st : WStep) (post : List WStep) (hsteps : steps = pre ++ st :: post)
    (hlooks : looksAtServer st = true) : Current pre :=
  current_of_after ((current_execute cfg t runId w).permitted h pre st post hsteps hlooks)

/-- The model runs a command and inspects the page; the server is restarted in between. -/
def inspection : List (Answer Exc Datum) :=
  answered 12 ++ .ok (.machine 1 1024 0 []) :: answered 4 ++ .ok (.check true) :: answered 6 ++
    .ok (.check true) :: answered 3 ++ .ok (.check false) :: .ok (.ids []) :: answered 4 ++
    .ok (.reply (.message [⟨0, .executeCommand, 0, true⟩, ⟨1, .inspectPreview false, 1, true⟩] "")) :: answered 3 ++
    .ok (.outcome true []) :: answered 6 ++ [.ok (.check true), .ok (.check true)]

theorem checks_see_current_server_inspection :
    ∃ steps w' rest, Performs Anything runWorld (execute Runtime.plainConfig 0 3) steps w' rest ∧
      ∃ pre st, steps = pre ++ [st] ∧ looksAtServer st = true ∧ (∃ s ∈ pre, mutates s = true) ∧ Current pre := by
  have hrun : (Co.perform inspection (execute Runtime.plainConfig 0 3) runWorld).any (fun out =>
      out.1.getLast?.any looksAtServer && out.1.dropLast.any mutates) = true := by
    decide
  obtain ⟨⟨steps, w', rest⟩, hperform, hend⟩ := (Option.any_eq_true _ _).mp hrun
  obtain ⟨hlast, hmutates⟩ := Bool.and_eq_true_iff.mp hend
  obtain ⟨st, hst, hlooks⟩ := (Option.any_eq_true _ _).mp hlast
  have hsteps : steps = steps.dropLast ++ [st] := (List.dropLast_append_getLast? st hst).symm
  have htrace := Co.perform_performs (R := Anything) (fun _ => trivial) _ hperform
  exact ⟨steps, w', rest, htrace, steps.dropLast, st, hsteps, hlooks, List.any_eq_true.mp hmutates,
    checks_see_current_server Runtime.plainConfig 0 3 htrace steps.dropLast st [] hsteps hlooks⟩

end WebBuilder.Run
