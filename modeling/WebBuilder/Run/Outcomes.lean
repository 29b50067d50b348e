/-
  WebBuilder.Run.Outcomes — unknown outcomes are never checkpointed.

  A command whose exit was not observed, or an upload that did not complete,
  may still change the files.  Every trace of `execute` is watched by a
  monitor that notes such outcomes and the two exceptions that report them.

  Main results:
    * `watched_execute` — the monitor permits every step of a run;
    * `unknown_never_checkpointed` — read off along a trace, with arbitrary
      interference: what is packed is known, and after `CommandStateError` or
      `FileWriteError` a run only cleans up.
-/
import WebBuilder.Run.Frames

namespace WebBuilder.Run

open WebBuilder.Async WebBuilder.Store

variable {α β : Type} {cfg : Config} {runId chatId : Nat}

/-! ## §1. What is observed. -/

/-- A command or an upload. -/
def Op.isIssued : Op → Bool
  | .command _ | .upload => true
  | _ => false

/-- The outcome of an answered operation is known: a command has been seen to
exit, an upload to complete. -/
def outcomeKnown (st : WStep) : Bool :=
  match st.op.op, st.answer with
  | .command _, .ok _ | .command _, .lost .. | .upload, .ok _ => true
  | .command _, _ | .upload, _ => false
  | _, _ => true

/-- A tool, a verification or a preview restart has raised `CommandStateError`
or `FileWriteError`. -/
def raisesFatal (st : WStep) : Bool :=
  Op.isIssued st.op.op && st.raised.any Exc.isFatal

/-- What a run may still do after that. -/
structure OnlyCleansUp (st : WStep) : Prop where
  /-- No call of the model or of a tool, and no checkpoint. -/
  plain : st.op.op.isPlain = true
  /-- No revision is recorded or promoted. -/
  revisions : st.after.db.revisions = st.before.db.revisions
  /-- No run turns `succeeded`. -/
  status : ∀ id r', st.after.db.runs.get? id = some r' → r'.status = .succeeded →
    ∃ r, st.before.db.runs.get? id = some r ∧ r.status = .succeeded
  /-- No runtime row turns reusable. -/
  reusable : ∀ c r', st.after.db.runtimes.get? c = some r' → r'.reusable = true →
    ∃ r, st.before.db.runtimes.get? c = some r ∧ r.operationId = r'.operationId ∧ r.reusable = true

/-! ## §2. The monitor. -/

structure Known where
  /-- The outcome of some command or upload is unknown. -/
  unknown : Bool
  fatal : Bool
  deriving DecidableEq

def Known.note (m : Known) (st : WStep) : Known :=
  ⟨m.unknown || !outcomeKnown st, m.fatal || raisesFatal st⟩

def outcomes : Monitor World Label Exc Datum Known where
  next := Known.note
  ok m st := (st.op.op = .pack → m.unknown = false) ∧ (m.fatal = true → OnlyCleansUp st)

/-- Every outcome is known. -/
def Known.clean : Known := ⟨false, false⟩

theorem after_unknown (m : Known) (steps : List WStep) :
    (outcomes.after m steps).unknown = (m.unknown || steps.any fun st => !outcomeKnown st) := by
  induction steps generalizing m with
  | nil => simp [Monitor.after]
  | cons st steps ih =>
      show (outcomes.after (m.note st) steps).unknown = _
      rw [ih, Known.note, List.any_cons, Bool.or_assoc]

theorem after_fatal (m : Known) (steps : List WStep) :
    (outcomes.after m steps).fatal = (m.fatal || steps.any raisesFatal) := by
  induction steps generalizing m with
  | nil => simp [Monitor.after]
  | cons st steps ih =>
      show (outcomes.after (m.note st) steps).fatal = _
      rw [ih, Known.note, List.any_cons, Bool.or_assoc]

theorem note_quiet {m : Known} {st : WStep} (h : Quiet st) : m.note st = m := by
  obtain ⟨⟨op, scopes⟩, a, e, w, w'⟩ := st
  obtain ⟨hcommand, hupload⟩ := h
  cases op
  case command c => exact absurd rfl (hcommand c)
  case upload => exact absurd rfl hupload
  all_goals simp [Known.note, outcomeKnown, raisesFatal, Op.isIssued]

/-! ## §3. Steps outside commands. -/

theorem onlyCleansUp_of_rows {st : WStep} (hplain : st.op.op.isPlain = true)
    (hrevisions : st.after.db.revisions = st.before.db.revisions)
    (hruns : st.after.db.runs = st.before.db.runs) (hruntimes : st.after.db.runtimes = st.before.db.runtimes) :
    OnlyCleansUp st :=
  ⟨hplain, hrevisions, fun _ r' h h' => ⟨r', hruns ▸ h, h'⟩, fun _ r' h h' => ⟨r', hruntimes ▸ h, rfl, h'⟩⟩

theorem OwnStep.onlyCleansUp {st : WStep} (h : OwnStep runId chatId st) : OnlyCleansUp st := by
  cases h with
  | storage h => exact onlyCleansUp_of_rows h.plain (by rw [h.db]) (by rw [h.db]) (by rw [h.db])
  | sandbox h =>
      refine ⟨h.plain, by rw [h.db], fun id r' hr hs => ⟨r', ?_, hs⟩, fun c r' hr hreuse => ?_⟩
      · rw [h.db] at hr
        exact hr
      · by_cases hc : c = chatId
        · subst hc
          exact h.reusable r' hr hreuse
        · exact ⟨r', h.rows c hc ▸ hr, rfl, hreuse⟩
  | event event hrun h =>
      obtain ⟨rfl, _⟩ := addEvent_eq h
      exact onlyCleansUp_of_rows rfl rfl rfl rfl
  | append w event => exact onlyCleansUp_of_rows rfl rfl rfl rfl
  | keep w sandbox => exact onlyCleansUp_of_rows rfl rfl rfl rfl

theorem CleanupStep.onlyCleansUp {st : WStep} (h : CleanupStep runId chatId st) : OnlyCleansUp st := by
  cases h with
  | own h => exact h.onlyCleansUp
  | lock w holder hop => exact onlyCleansUp_of_rows hop rfl rfl rfl

/-- Nobody else is restrained. -/
def Anything (_ _ : World) : Prop := True

/-- A coroutine outside commands leaves a clean run clean. -/
theorem watched_quiet {p : Act α} (hp : p.All Quiet) (w : World) :
    Watched Anything outcomes p (fun _ _ m => m = .clean) w .clean := by
  refine Watched.mono (Watched.of_each (P := fun _ m => m = Known.clean) (fun _ _ _ _ h => h) ?_ hp rfl)
    fun _ _ _ h => h.2
  rintro st m hst rfl
  exact ⟨⟨fun _ => rfl, fun h => by cases h⟩, note_quiet hst⟩

/-- A cleanup is permitted whatever has happened. -/
theorem watched_cleanup {Q : Except Exc α → Prop} {p : Act α}
    (hp : p.Each (CleanupStep runId chatId) Q) (w : World) (m : Known) :
    Watched Anything outcomes p (fun r _ m' => Q r ∧ m' = m) w m := by
  refine Watched.of_each (P := fun _ m' => m' = m) (fun _ _ _ _ h => h) ?_ hp rfl
  rintro st m' hst rfl
  refine ⟨⟨fun h => ?_, fun _ => hst.onlyCleansUp⟩, note_quiet (quiet_of_plain hst.plain)⟩
  exact absurd hst.plain (by rw [h]; simp [Op.isPlain])

theorem watched_own {Q : Except Exc α → Prop} {p : Act α} (hp : p.Each (OwnStep runId chatId) Q)
    (w : World) (m : Known) : Watched Anything outcomes p (fun r _ m' => Q r ∧ m' = m) w m :=
  watched_cleanup (Each.mono (fun _ => .own) (fun _ h => h) hp) w m

/-! ## §4. Commands. -/

/-- A result is known; so is an exception that the conversation may survive. -/
def Tidy (r : Except Exc α) (_ : World) (m : Known) : Prop :=
  match r with
  | .ok _ => m = .clean
  | .error e => e.isException = true → e.isFatal = true ∨ m = .clean

theorem tidy_of_clean {r : Except Exc α} {w : World} {m : Known} (h : m = .clean) : Tidy r w m := by
  cases r with
  | ok a => exact h
  | error e => exact fun _ => .inr h

theorem Tidy.bind {p : Act α} {f : α → Act β} {w : World}
    (hp : Watched Anything outcomes p Tidy w .clean)
    (hf : ∀ a w, Watched Anything outcomes (f a) Tidy w .clean) :
    Watched Anything outcomes (p.bind f) Tidy w .clean :=
  Watched.bind hp (fun a w m h => by obtain rfl : m = .clean := h; exact hf a w) fun _ _ _ h => h

theorem tidy_quiet {p : Act α} (hp : p.All Quiet) (w : World) :
    Watched Anything outcomes p Tidy w .clean :=
  (watched_quiet hp w).mono fun _ _ _ h => tidy_of_clean h

theorem tidy_run {p : Act α} (hp : p.All (RunStep cfg runId chatId)) (w : World) :
    Watched Anything outcomes p Tidy w .clean :=
  tidy_quiet (All.mono (fun _ => RunStep.quiet) hp) w

theorem tidy_done (r : Except Exc α) (w : World) :
    Watched Anything outcomes (.done r : Act α) Tidy w .clean := tidy_of_clean rfl

theorem not_fatal_of_provider {e : Exc} (h : providerFault e = true) : e.isFatal = false := by
  cases e <;> first | rfl | cases h

/-- **A command**: its result is known, or it reports that it is not. -/
theorem tidy_runCommand (id : Nat) (command : Command) (w : World) :
    Watched Anything outcomes (runCommand id command) Tidy w .clean := by
  refine Watched.await fun w₁ _ a r w₂ hact => ⟨⟨(fun h => by cases h), fun h => by cases h⟩, ?_⟩
  cases a with
  | ok d =>
      simp only [Option.map_eq_some_iff, Prod.mk.injEq] at hact
      obtain ⟨x, _, rfl, rfl⟩ := hact
      rfl
  | fail e =>
      have hr : r = .error e ∧ (e.isFatal = true ∨ e.isException = false) := by
        cases e
        case commandState m =>
          simp only [Option.some.injEq, Prod.mk.injEq] at hact
          exact ⟨hact.1.symm, .inl rfl⟩
        all_goals
          simp only [Option.ite_none_right_eq_some, Option.some.injEq, Prod.mk.injEq] at hact
          refine ⟨hact.2.1.symm, .inr ?_⟩
          first | rfl | cases hact.1
      obtain ⟨rfl, he⟩ := hr
      intro hx
      exact .inl (he.resolve_right (by rw [hx]; simp))
  | lost e d =>
      simp only [Option.ite_none_right_eq_some, Option.map_eq_some_iff, Prod.mk.injEq] at hact
      obtain ⟨he, x, _, rfl, rfl⟩ := hact
      refine tidy_of_clean ?_
      show Known.note _ _ = Known.clean
      simp [Known.note, Known.clean, outcomeKnown, raisesFatal, Op.isIssued, exception?,
        not_fatal_of_provider he]
  | late e d => simp at hact

theorem tidy_uploadFiles (id : Nat) (w : World) :
    Watched Anything outcomes (uploadFiles id) Tidy w .clean := by
  refine Watched.await fun w₁ _ a r w₂ hact => ⟨⟨(fun h => by cases h), fun h => by cases h⟩, ?_⟩
  split at hact
  · simp only [Option.some.injEq, Prod.mk.injEq] at hact
    obtain ⟨rfl, rfl⟩ := hact
    rfl
  · rename_i e
    simp only [Option.some.injEq, Prod.mk.injEq] at hact
    obtain ⟨rfl, rfl⟩ := hact
    intro hx
    cases he : e.isException with
    | true => exact .inl (by rw [if_pos rfl]; rfl)
    | false =>
        rw [he, if_neg Bool.false_ne_true, he] at hx
        cases hx
  · cases hact

/-- The value of a caught outcome: clean, unless it reports an unknown outcome. -/
def Caught (r : Except Exc (Except Exc α)) (_ : World) (m : Known) : Prop :=
  match r with
  | .ok (.ok _) => m = .clean
  | .ok (.error e) => e.isFatal = true ∨ m = .clean
  | .error e => e.isException = false

theorem watched_caught {p : Act α} {w : World} (hp : Watched Anything outcomes p Tidy w .clean) :
    Watched Anything outcomes (caught p) Caught w .clean := by
  refine Watched.tryCatch (P := fun r w m => match r with
      | .ok x => Caught (.ok x) w m
      | .error e => Tidy (.error e : Except Exc α) w m) ?_ (fun _ _ _ h => h) ?_
  · refine Watched.bind hp (fun a w m h => ?_) fun e w m h => h
    exact h
  · intro e w m h
    cases he : e.isException with
    | true => exact h he
    | false => exact he

theorem tidy_controlPreview (id : Nat) (action : PreviewAction) (w : World) :
    Watched Anything outcomes (controlPreview id action) Tidy w .clean := by
  refine Tidy.bind (tidy_runCommand id _ w) fun ok w => ?_
  split
  · exact tidy_done _ w
  · exact tidy_done _ w

theorem tidy_ensurePreviewCurrent (id : Nat) (ws : Workspace) (w : World) :
    Watched Anything outcomes (ensurePreviewCurrent id ws) Tidy w .clean := by
  unfold ensurePreviewCurrent
  split
  · exact Tidy.bind (tidy_controlPreview id .restart w) fun _ w => tidy_done _ w
  · exact tidy_done _ w

theorem tidy_verify (id : Nat) (ws : Workspace) (w : World) :
    Watched Anything outcomes (verify id ws) Tidy w .clean := by
  refine Tidy.bind (tidy_runCommand id .build w) fun build w => ?_
  split
  · refine Tidy.bind (tidy_ensurePreviewCurrent id ws w) fun ws w => ?_
    exact Tidy.bind (tidy_runCommand id _ w) fun ok w => tidy_done _ w
  · exact tidy_done _ w

/-! ## §5. Tools. -/

/-- The outcome of a tool is clean, unless it reports an unknown outcome. -/
def Tool (r : Except Exc ToolOutcome) (w : World) (m : Known) : Prop :=
  match r with
  | .ok (x, _) => Caught (.ok x) w m
  | .error e => e.isException = false

theorem tool_done (x : ToolOutcome) (w : World) :
    Watched Anything outcomes (.done (.ok x) : Act ToolOutcome) Tool w .clean := by
  obtain ⟨r, ws⟩ := x
  cases r with
  | ok b => exact (rfl : Known.clean = .clean)
  | error e => exact .inr rfl

/-- A tool that runs `p` and then looks at the workspace. -/
theorem tool_caught {p : Act α} {w : World} (hp : Watched Anything outcomes p Tidy w .clean)
    {f : Except Exc α → ToolOutcome} (hok : ∀ a, ∃ b, (f (.ok a)).1 = .ok b)
    (herr : ∀ e, (f (.error e)).1 = .error e) :
    Watched Anything outcomes ((caught p).bind fun r => .done (.ok (f r))) Tool w .clean := by
  refine Watched.bind (watched_caught hp) (fun r w m h => ?_) fun e w m h => h
  show Caught (.ok (f r).1) w m
  cases r with
  | ok a =>
      obtain ⟨b, hb⟩ := hok a
      rw [hb]
      exact h
  | error e =>
      rw [herr e]
      exact h

theorem quiet_toolRequest : toolRequest.All Quiet :=
  all_observe fun _ _ _ => ⟨(fun _ h => by cases h), fun h => by cases h⟩

theorem tidy_inspectCurrent (id : Nat) (screenshot : Bool) (w : World) :
    Watched Anything outcomes (inspectCurrent id screenshot) Tidy w .clean := by
  unfold inspectCurrent
  split
  · refine Watched.onExit (P := Tidy) (Tidy.bind (tidy_runCommand id _ w) fun ok w => ?_) fun r w m h => ?_
    · exact Tidy.bind (tidy_quiet (all_caught quiet_toolRequest) w) fun _ w => tidy_done _ w
    · refine (watched_own (each_removeFile : removeFile.Each (OwnStep 0 0) _) w m).mono ?_
      rintro (e | _) w m' ⟨he, rfl⟩
      · exact fun hx => absurd hx (by rw [he e rfl]; simp)
      · exact h
  · exact tidy_runCommand id _ w

theorem tool_inspectPreview (id : Nat) (valid screenshot : Bool) (ws : Workspace) (w : World) :
    Watched Anything outcomes (inspectPreview id valid screenshot ws) Tool w .clean := by
  unfold inspectPreview
  split
  · split
    · exact tool_done _ w
    · refine Watched.bind (watched_caught (tidy_ensurePreviewCurrent id _ w)) (fun current w m h => ?_)
        fun _ _ _ h => h
      cases current with
      | error e => exact h
      | ok ws =>
          obtain rfl : m = .clean := h
          exact tool_caught (tidy_inspectCurrent id screenshot w) (f := fun r => (r, ws))
            (fun a => ⟨a, rfl⟩) fun _ => rfl
  · exact tool_done _ w

/-- **A tool**: one lemma for each constructor. -/
theorem tool_runTool (id : Nat) (call : ToolCall) (ws : Workspace) (w : World) :
    Watched Anything outcomes (runTool id call ws) Tool w .clean := by
  have hread : Watched Anything outcomes ((caught toolRequest).bind fun r => .done (.ok (r, ws))) Tool w .clean :=
    tool_caught (tidy_quiet quiet_toolRequest w) (f := fun r => (r, ws)) (fun a => ⟨a, rfl⟩) fun _ => rfl
  unfold runTool
  split
  case h_1 =>
    unfold writeFiles
    split
    · exact tool_caught (tidy_uploadFiles id w) (fun _ => ⟨true, rfl⟩) fun _ => rfl
    · exact tool_done _ w
  case h_2 =>
    unfold executeCommand
    split
    · exact tool_caught (tidy_runCommand id .tool w) (fun a => ⟨a, rfl⟩) fun _ => rfl
    · exact tool_done _ w
  case h_3 => exact tool_inspectPreview id _ _ ws w
  case h_7 => exact tool_done _ w
  all_goals exact hread

/-! ## §6. The conversation. -/

/-- What has ended well is clean. -/
def Clean (r : Except Exc α) (_ : World) (m : Known) : Prop :=
  match r with
  | .ok _ => m = .clean
  | .error _ => True

theorem clean_of_tidy {p : Act α} {w : World} {m : Known} (h : Watched Anything outcomes p Tidy w m) :
    Watched Anything outcomes p Clean w m := by
  refine h.mono fun r w m h => ?_
  cases r with
  | ok a => exact h
  | error e => trivial

theorem clean_done (r : Except Exc α) (w : World) :
    Watched Anything outcomes (.done r : Act α) Clean w .clean := clean_of_tidy (tidy_done r w)

theorem Clean.bind {p : Act α} {f : α → Act β} {w : World} {m : Known}
    (hp : Watched Anything outcomes p Clean w m)
    (hf : ∀ a w, Watched Anything outcomes (f a) Clean w .clean) :
    Watched Anything outcomes (p.bind f) Clean w m :=
  Watched.bind hp (fun a w m h => by obtain rfl : m = .clean := h; exact hf a w) fun _ _ _ _ => trivial

theorem clean_quiet {p : Act α} (hp : p.All Quiet) (w : World) :
    Watched Anything outcomes p Clean w .clean := clean_of_tidy (tidy_quiet hp w)

section Conversation

variable {emit : EventKind → String → Act Unit} {checkpoint : Bool → Act Unit}
  (hemit : ∀ kind message, (emit kind message).All (OwnStep runId chatId))
  (hcheckpoint : ∀ dirty, (checkpoint dirty).All Quiet)

include hemit

theorem clean_emit (kind : EventKind) (message : String) (w : World) :
    Watched Anything outcomes (emit kind message) Clean w .clean :=
  clean_quiet (All.mono (fun _ h => quiet_of_plain h.plain) (hemit kind message)) w

theorem clean_runCall (id : Nat) (call : ToolCall) (ed : Editor) (w : World) :
    Watched Anything outcomes (runCall cfg emit id call ed) Clean w .clean := by
  unfold runCall
  dsimp only
  split
  · trivial
  · split
    · trivial
    · refine Clean.bind (clean_emit hemit _ _ w) fun _ w => ?_
      refine Watched.bind (tool_runTool id call ed.workspace w) (fun x w m h => ?_) fun _ _ _ _ => trivial
      obtain ⟨r, ws⟩ := x
      refine Watched.bind (watched_own (hemit _ _) w m) (fun _ w m' h' => ?_) fun _ _ _ _ => trivial
      obtain rfl := h'.2
      cases r with
      | ok b => exact h
      | error e =>
          dsimp only
          split
          · trivial
          · rename_i hfatal
            exact h.resolve_left hfatal

theorem clean_runCalls (id : Nat) : ∀ (calls : List ToolCall) (ed : Editor) (w : World),
    Watched Anything outcomes (runCalls cfg emit id calls ed) Clean w .clean
  | [], _, w => clean_done _ w
  | call :: calls, ed, w =>
      Clean.bind (clean_runCall hemit id call ed w) fun ed w => clean_runCalls id calls ed w

include hcheckpoint

theorem clean_finalReply (id : Nat) (text : String) (ed : Editor) (w : World) :
    Watched Anything outcomes (finalReply emit checkpoint id text ed) Clean w .clean := by
  refine Clean.bind (clean_emit hemit _ _ w) fun _ w => ?_
  refine Clean.bind (clean_of_tidy (tidy_verify id ed.workspace w)) fun x w => ?_
  refine Clean.bind (clean_emit hemit _ _ w) fun _ w => ?_
  refine Clean.bind (clean_quiet (hcheckpoint _) w) fun _ w => ?_
  split
  · exact clean_done _ w
  · split
    · trivial
    · exact clean_done _ w

theorem clean_runTurn (id : Nat) (ed : Editor) (w : World) :
    Watched Anything outcomes (runTurn cfg emit checkpoint id ed) Clean w .clean := by
  refine Clean.bind (clean_emit hemit _ _ w) fun _ w => ?_
  refine Clean.bind (clean_quiet (hcheckpoint _) w) fun _ w => ?_
  refine Clean.bind (clean_quiet (All.mono (fun _ => RunStep.quiet)
    (all_invokeModel : invokeModel.All (RunStep cfg runId chatId))) w) fun reply w => ?_
  split
  · trivial
  · trivial
  · exact clean_finalReply hemit hcheckpoint id _ ed w
  · refine Clean.bind (clean_runCalls hemit id _ ed w) fun after w => ?_
    exact Clean.bind (clean_quiet (hcheckpoint _) w) fun _ w => clean_done _ w

theorem clean_runTurns (id : Nat) : ∀ (turns : Nat) (ed : Editor) (w : World),
    Watched Anything outcomes (runTurns cfg emit checkpoint id turns ed) Clean w .clean
  | 0, _, _ => trivial
  | turns + 1, ed, w => by
      refine Clean.bind (clean_runTurn hemit hcheckpoint id ed w) fun x w => ?_
      obtain ⟨summary, ed⟩ := x
      cases summary with
      | some text => exact clean_done _ w
      | none => exact clean_runTurns id turns ed w

end Conversation

/-! ## §7. The body of a run. -/

theorem quiet_plain {p : Act α} {S : WStep → Prop} (hS : ∀ st, S st → st.op.op.isPlain = true) (hp : p.All S) :
    p.All Quiet :=
  All.mono (fun st h => quiet_of_plain (hS st h)) hp

theorem quiet_sandbox {p : Act α} {c : Nat} (hp : p.All (SandboxStep c)) : p.All Quiet :=
  quiet_plain (fun _ h => h.plain) hp

theorem quiet_storage {p : Act α} (hp : p.All StorageStep) : p.All Quiet :=
  quiet_plain (fun _ h => h.plain) hp

theorem quiet_restoreSandbox (id : Nat) (data : Bytes) : (restoreSandbox cfg id data).All Quiet := by
  refine All.onExit ?_ (quiet_plain (fun _ h => h.plain) (Each.all (each_removeFile : removeFile.Each (OwnStep 0 0) _)))
  exact fun _ _ _ _ _ => ⟨quiet_of_plain rfl, trivial⟩

theorem clean_restoreRevision (id : Nat) (revision : ProjectRevision) (w : World) :
    Watched Anything outcomes (restoreRevision cfg id revision) Clean w .clean := by
  refine Clean.bind (clean_of_tidy (tidy_controlPreview id .stop w)) fun _ w => ?_
  refine Clean.bind (clean_quiet (quiet_storage all_archiveSlot) w) fun _ w => ?_
  refine Clean.bind (clean_quiet (quiet_storage (all_revisionBytes cfg revision)) w) fun data w => ?_
  refine Clean.bind (clean_quiet (quiet_restoreSandbox id data) w) fun _ w => ?_
  split
  · trivial
  · refine Clean.bind (clean_quiet (quiet_sandbox (tend_sandbox (all_hostCommand (c := 0) id))) w) fun _ w => ?_
    exact clean_of_tidy (tidy_controlPreview id .start w)

theorem clean_getE2bSandbox (c : Nat) (w : World) :
    Watched Anything outcomes (getE2bSandbox cfg c) Clean w .clean := by
  have hrevision : (ensureRevision cfg c).All Quiet := All.mono (fun _ => SaveStep.quiet) (all_ensureRevision cfg c)
  have htools : ∀ id, (checkArchiveTools id).All Quiet := fun id =>
    all_catchException (quiet_sandbox (tend_sandbox (all_hostCommand (c := c) id))) fun _ => trivial
  refine Clean.bind (clean_quiet hrevision w) fun revision w => ?_
  refine Clean.bind (clean_quiet (quiet_sandbox (all_acquire cfg c revision)) w) fun x w => ?_
  dsimp only
  split
  · refine Clean.bind (clean_quiet (htools _) w) fun _ w => ?_
    refine Clean.bind ?_ fun _ w => clean_done _ w
    cases revision with
    | some revision => exact clean_restoreRevision _ revision w
    | none => exact clean_done _ w
  · exact clean_done _ w

theorem clean_runEditor (id : Nat) (w : World) :
    Watched Anything outcomes (runEditor cfg (emit runId) (checkpoint cfg runId) id) Clean w .clean := by
  have hemit : ∀ kind message, (emit runId kind message).All (OwnStep runId 0) := all_emit
  have hcheckpoint : ∀ dirty, (checkpoint cfg runId dirty).All Quiet := fun dirty =>
    All.mono (fun _ => RunStep.quiet) (all_checkpoint dirty : (checkpoint cfg runId dirty).All (RunStep cfg runId 0))
  have hmodel : invokeModel.All Quiet :=
    All.mono (fun _ => RunStep.quiet) (all_invokeModel : invokeModel.All (RunStep cfg runId 0))
  refine Clean.bind (clean_emit hemit _ _ w) fun _ w => ?_
  refine Clean.bind (clean_of_tidy (tidy_runCommand id _ w)) fun ok w => ?_
  split
  · refine Clean.bind (clean_emit hemit _ _ w) fun _ w => ?_
    refine Clean.bind (clean_quiet (All.bind (all_observe fun _ _ _ => quiet_of_plain rfl) fun compact => ?_) w)
      fun _ w => ?_
    · split
      · exact All.bind hmodel fun _ => trivial
      · trivial
    refine Clean.bind (clean_quiet (all_observe fun _ _ _ => quiet_of_plain rfl) w) fun paths w => ?_
    refine Clean.bind (clean_quiet (All.forEach _ fun _ _ => ?_) w) fun _ w => ?_
    · exact All.bind (all_caught quiet_toolRequest) fun _ => trivial
    exact Clean.bind (clean_runTurns hemit hcheckpoint id _ _ w) fun _ w => clean_done _ w
  · exact Clean.bind (clean_emit hemit _ _ w) fun _ _ => trivial

theorem clean_withTimeout {scope : Scope} {p : Act α} {w : World}
    (hp : Watched Anything outcomes p Clean w .clean) :
    Watched Anything outcomes (withTimeout scope p) Clean w .clean := by
  refine Watched.tryCatch (Watched.relabel (fun _ _ => rfl) (fun m st h => ?_) hp) (fun _ _ _ h => h)
    fun e w m _ => ?_
  · exact ⟨h.1, fun hm => ⟨(h.2 hm).plain, (h.2 hm).revisions, (h.2 hm).status, (h.2 hm).reusable⟩⟩
  · split <;> trivial

theorem clean_executeBody (c : Nat) (w : World) :
    Watched Anything outcomes (executeBody cfg runId c) Clean w .clean := by
  have hemit : ∀ kind message, (emit runId kind message).All (OwnStep runId c) := all_emit
  refine clean_withTimeout ?_
  refine Clean.bind (clean_emit hemit _ _ w) fun _ w => ?_
  refine Clean.bind (clean_getE2bSandbox c w) fun id w => ?_
  refine Clean.bind (clean_quiet (all_memory fun _ _ => quiet_of_plain rfl) w) fun _ w => ?_
  refine Clean.bind (clean_quiet (quiet_sandbox (tend_sandbox (all_invalidate c))) w) fun _ w => ?_
  refine Clean.bind (clean_runEditor id w) fun result w => ?_
  refine Clean.bind (clean_quiet (All.mono (fun _ => RunStep.quiet)
    (all_saveFiles : (saveFiles cfg runId).All (RunStep cfg runId c))) w) fun _ w => clean_done _ w

/-! ## §8. The end of a run. -/

theorem outcomeOf_succeeded {stopping : Bool} {r : Except Exc (String × String)}
    (h : (outcomeOf stopping r).status = .succeeded) : ∃ x, r = .ok x := by
  cases r with
  | ok x => exact ⟨x, rfl⟩
  | error e =>
      exfalso
      cases e <;> simp [outcomeOf, Outcome.failed, stopStatus] at h
      all_goals
        cases stopping <;> simp at h

/-- A step of the end of a run with this status. -/
def EndStep (status : RunStatus) (st : WStep) : Prop :=
  Quiet st ∧ (status ≠ .succeeded → OnlyCleansUp st)

theorem CleanupStep.ends {status : RunStatus} {st : WStep} (h : CleanupStep runId chatId st) :
    EndStep status st := ⟨quiet_of_plain h.plain, fun _ => h.onlyCleansUp⟩

/-- **The last transaction**: an unsuccessful run leaves no success behind. -/
theorem finishRun_ends {live : LiveRun} {status : RunStatus} {reason : String} {url : Option String}
    {op : Op} {a : Answer Exc Datum} {e : Option Exc} {w w' : World} {v : Option Event}
    (hop : op.isPlain = true) (h : finishRun live status reason url w = .ok (v, w')) :
    EndStep status ⟨⟨op, []⟩, a, e, w, w'⟩ := by
  refine ⟨quiet_of_plain hop, fun hstatus => ?_⟩
  rcases finishRun_cases h with ⟨_, rfl, _⟩ | ⟨run, w₁, _, _, _, hmark, _, rfl⟩
  · exact onlyCleansUp_of_rows hop rfl rfl rfl
  · rw [verifiedBy, if_neg hstatus] at hmark
    obtain rfl := Except.ok.inj hmark
    refine ⟨hop, rfl, fun id r' hr hr' => ?_, fun c r' hr hr' => ⟨r', hr, rfl, hr'⟩⟩
    have hget : (w.db.runs.modify live.id fun r => r.close status reason w.now).get? id = some r' := hr
    rw [Table.get?_modify _ _ (fun r : Run => r.close status reason w.now) fun _ => rfl] at hget
    split at hget
    · obtain ⟨r, _, rfl⟩ := Option.map_eq_some_iff.mp hget
      exact absurd hr' hstatus
    · exact ⟨r', hget, hr'⟩

theorem all_finish {op : Op} (hop : op.isPlain = true) (status : RunStatus) (reason : String)
    (url : Option String) : (finish op runId status reason url).All (EndStep status) := by
  have hstill : ∀ {op : Op} {a e} {w : World}, op.isPlain = true →
      EndStep status ⟨⟨op, []⟩, a, e, w, w⟩ :=
    fun h => (CleanupStep.own (OwnStep.still h : OwnStep 0 0 _)).ends
  refine All.bind (all_memory fun _ _ => hstill rfl) fun live => ?_
  split
  · trivial
  · rename_i live
    refine All.bind (all_transaction (fun _ _ _ => hstill hop) fun _ _ _ _ _ h => finishRun_ends hop h)
      fun event => ?_
    split
    · trivial
    · have happend : ∀ event, (appendEvent runId event).All (OwnStep runId 0) := all_appendEvent
      exact All.mono (fun _ h => CleanupStep.ends (.own h)) (happend _)

/-- The end of a run is permitted, if a success comes from a clean one. -/
theorem watched_ends {p : Act α} {status : RunStatus} (hp : p.All (EndStep status)) (w : World) {m : Known}
    (hm : status = .succeeded → m = .clean) :
    Watched Anything outcomes p (fun _ _ m' => m' = m) w m := by
  refine Watched.mono (Watched.of_each (P := fun _ m' => m' = m) (fun _ _ _ _ h => h) ?_ hp rfl)
    fun _ _ _ h => h.2
  rintro st m' hst rfl
  refine ⟨⟨fun hpack => ?_, fun hfatal => hst.2 fun hs => ?_⟩, note_quiet hst.1⟩
  · by_cases hs : status = .succeeded
    · rw [hm hs]
      rfl
    · exact absurd (hst.2 hs).plain (by rw [hpack]; simp [Op.isPlain])
  · rw [hm hs] at hfatal
    cases hfatal

theorem watched_conclude (t : Nat) (o : Outcome) (w : World) (m : Known)
    (hm : o.status = .succeeded → m = .clean) :
    Watched Anything outcomes (conclude t runId chatId o) (fun _ _ _ => True) w m := by
  have hkeep : (keepSandbox runId chatId).All (OwnStep runId chatId) := all_keepSandbox
  refine Watched.bind (watched_own hkeep w m) (fun sandbox w m₁ h => ?_) fun _ _ _ _ => trivial
  obtain rfl := h.2
  refine Watched.bind (P := fun r _ m => ∀ o', r = .ok o' → o'.status = .succeeded → m = .clean) ?_
    (fun o' w m' h => ?_) fun _ _ _ _ => trivial
  · unfold cleanUpFailed
    split
    · intro o' ho hs
      exact hm (Except.ok.inj ho ▸ hs)
    · rename_i hfailed
      have hclean : (cleanUpRun t chatId sandbox o).Each (CleanupStep runId chatId) _ := each_cleanUpRun hfailed
      exact (watched_cleanup hclean w m₁).mono fun r w m' h o' ho hs => absurd hs (h.1 o' ho)
  · refine Watched.tryCatch (P := fun r _ m'' => m'' = m') ?_ (fun _ _ _ _ => trivial) fun e w m'' _ => ?_
    · exact watched_ends (all_finish rfl o'.status _ _) w (h o' rfl)
    · split
      · have hretire : (retireSandbox t chatId).All (CleanupStep runId chatId) := all_retireSandbox t
        exact Watched.bind (watched_cleanup hretire w m'') (fun _ _ _ _ => trivial) fun _ _ _ _ => trivial
      · trivial

theorem endTask_db (w : World) (c : Nat) (completed : Bool) : (w.endTask runId c completed).db = w.db := by
  unfold World.endTask World.touch
  cases completed <;> dsimp only [World.modifyLive] <;> split <;> first | rfl | (split <;> rfl)

/-- A step on memory is permitted whatever has happened. -/
theorem watched_memory {f : World → α × World} (hf : ∀ w, (f w).2.db = w.db) (w : World) (m : Known) :
    Watched Anything outcomes (memory f) (fun _ _ m' => m' = m) w m := by
  have hend : (memory f).All (EndStep .failed) := all_memory fun a w =>
    ⟨quiet_of_plain rfl, fun _ => onlyCleansUp_of_rows rfl (by rw [hf]) (by rw [hf]) (by rw [hf])⟩
  exact watched_ends hend w (fun h => by cases h)

/-- **The monitor permits every step of a run.** -/
theorem watched_execute (cfg : Config) (t runId : Nat) (w : World) :
    Watched Anything outcomes (execute cfg t runId) (fun _ _ _ => True) w .clean := by
  refine Watched.bind (watched_memory (fun _ => rfl) w .clean) (fun live w m h => ?_) fun _ _ _ _ => trivial
  subst h
  cases live with
  | none => trivial
  | some live =>
      dsimp only
      refine Watched.bind (P := fun _ _ _ => True) (Watched.attempt ?_) (fun r w m _ => ?_) fun _ _ _ _ => trivial
      · refine Watched.bind (P := fun r w m => ∀ x, r = .ok x → Clean x w m) (Watched.attempt ?_)
          (fun r w m h => ?_) fun _ _ _ _ => trivial
        · exact (clean_executeBody live.chatId w).mono fun r w m h x hx => Except.ok.inj hx ▸ h
        refine Watched.bind (watched_memory (fun _ => rfl) w m) (fun stopping w m' hm => ?_) fun _ _ _ _ => trivial
        subst hm
        refine watched_conclude t _ w m' fun hs => ?_
        obtain ⟨x, rfl⟩ := outcomeOf_succeeded hs
        exact h _ rfl
      · exact (watched_memory (fun w => endTask_db w _ _) w m).mono fun _ _ _ _ => trivial

/-- **Unknown outcomes are never checkpointed**: in every trace of a run,
whatever others do in between, only known outcomes are packed, and after the
first `CommandStateError` or `FileWriteError` the run only cleans up. -/
theorem unknown_never_checkpointed (cfg : Config) (t runId : Nat) {w w' : World} {rest : Act Unit}
    {steps : List WStep} (h : Performs Anything w (execute cfg t runId) steps w' rest)
    (pre : List WStep) (st : WStep) (post : List WStep) (hsteps : steps = pre ++ st :: post) :
    (st.op.op = .pack → ∀ s ∈ pre, outcomeKnown s = true) ∧
      ((∃ s ∈ pre, raisesFatal s = true) → OnlyCleansUp st) := by
  obtain ⟨hpack, hfatal⟩ := (watched_execute cfg t runId w).permitted h pre st post hsteps
  refine ⟨fun hop s hs => ?_, fun ⟨s, hs, hraised⟩ => hfatal ?_⟩
  · have hknown := hpack hop
    rw [after_unknown, Known.clean, Bool.false_or, List.any_eq_false] at hknown
    simpa using hknown s hs
  · rw [after_fatal, Known.clean, Bool.false_or, List.any_eq_true]
    exact ⟨s, hs, hraised⟩

/-- A sandbox is created, the browser starts, the model runs a command, and
the exit of that command is not observed. -/
def unobservedCommand : List (Answer Exc Datum) :=
  answered 12 ++ .ok (.machine 1 1024 0 []) :: answered 4 ++ .ok (.check true) :: answered 6 ++
    .ok (.check true) :: answered 3 ++ .ok (.check false) :: .ok (.ids []) :: answered 4 ++
    .ok (.reply (.message [⟨0, .executeCommand, 0, true⟩] "")) :: answered 3 ++
    .fail (.commandState "") :: answered 20

theorem unknown_never_checkpointed_unobservedCommand :
    ∃ steps w', Performs Anything runWorld (execute Runtime.plainConfig 0 3) steps w' (.done (.ok ())) ∧
      (∃ s ∈ steps, raisesFatal s = true) ∧
      ∀ pre st post, steps = pre ++ st :: post →
        (st.op.op = .pack → ∀ s ∈ pre, outcomeKnown s = true) ∧
          ((∃ s ∈ pre, raisesFatal s = true) → OnlyCleansUp st) := by
  have hrun : (Co.perform unobservedCommand (execute Runtime.plainConfig 0 3) runWorld).any (fun out =>
      out.1.any raisesFatal && out.2.2.returned) = true := by
    decide
  obtain ⟨⟨steps, w', rest⟩, hperform, hend⟩ := (Option.any_eq_true _ _).mp hrun
  obtain ⟨hfatal, hrest⟩ := Bool.and_eq_true_iff.mp hend
  dsimp only at hfatal hrest
  unfold Co.returned at hrest
  split at hrest
  · have htrace := Co.perform_performs (R := Anything) (fun _ => trivial) _ hperform
    exact ⟨steps, w', htrace, List.any_eq_true.mp hfatal,
      unknown_never_checkpointed Runtime.plainConfig 0 3 htrace⟩
  · cases hrest

end WebBuilder.Run
