/-
  WebBuilder.Model.Runner — one editing conversation and its tools.

  `runner.py`, `tools.py`, `commands.py`, `browser.py` and `preview.py`.  A
  turn asks the model for tool calls and runs them one by one; a reply
  without calls is verified by a production build and a browser check on a
  server that is no older than the last mutation.

  Prompts, file contents and the texts of tool results go to the model only;
  its replies are arbitrary anyway, so they are left out.  `run_command` is
  one await: its stream, its one reconnect and its deadline decide between
  an observed exit and an unknown outcome.
-/
import WebBuilder.Model.Sandbox

namespace WebBuilder

open WebBuilder.Async WebBuilder.Store

/-! ## §1. Awaits without effects on the world. -/

/-- An await that changes nothing here: `answer` reads its result. -/
def observe {α : Type} (op : Op) (fault : Exc → Bool) (answer : Datum → Option α) : Act α :=
  .await ⟨op, []⟩
    (fun a w =>
      match a with
      | .ok d => (answer d).map fun r => (.ok r, w)
      | .fail e => if fault e then some (.error e, w) else none
      | _ => none)
    .done

/-- Everything but the two exceptions that `run_command` and `write_files`
keep for unknown outcomes. -/
def knownFault : Exc → Bool
  | .commandState _ | .fileWrite _ => false
  | _ => true

/-- `(CommandStateError, FileWriteError)`. -/
def Exc.isFatal : Exc → Bool
  | .commandState _ | .fileWrite _ => true
  | _ => false

/-- The outcome of `p` as a value, where `except Exception` catches it. -/
def caught {α : Type} (p : Act α) : Act (Except Exc α) :=
  catchException (p.bind fun a => pure (.ok a)) fun e => pure (.error e)

/-! ## §2. Commands. -/

/-- What an ended command leaves: only those of the model change project files. -/
def Box.ended (b : Box) (command : Command) : Datum → Option (Bool × Box)
  | .outcome ok files => if command = .tool then some (ok, { b with files }) else none
  | .check ok => if command = .tool then none else some (ok, b)
  | _ => none

/-- A command or an upload may still be at work. -/
def World.unsettle (w : World) (id : Nat) : World :=
  match w.e2b.box? id with
  | some b => w.setBox { b with unsettled := true }
  | none => w

/-- `run_command`: whether the command exited with `0`.  When its exit was
not observed, it raises `CommandStateError` or is interrupted; disconnecting
after an observed exit can still raise. -/
def runCommand (id : Nat) (command : Command) : Act Bool :=
  .await ⟨.command command, []⟩
    (fun answer w =>
      match answer with
      | .ok d => ((w.e2b.box? id).bind fun b => b.ended command d).map fun r => (.ok r.1, w.setBox r.2)
      | .lost e d =>
          if providerFault e then
            ((w.e2b.box? id).bind fun b => b.ended command d).map fun r => (.error e, w.setBox r.2)
          else none
      | .fail (.commandState m) =>
          some (.error (.commandState m), if command = .tool then w.unsettle id else w)
      | .fail e =>
          if interruption e then some (.error e, if command = .tool then w.unsettle id else w) else none
      | .late _ _ => none)
    .done

/-- `control_preview(sandbox, action)`. -/
def controlPreview (id : Nat) (action : PreviewAction) : Act Unit := do
  let ok ← runCommand id (.preview action)
  if ok then pure ()
  else Co.raise (.preview ("Preview server could not "
    ++ (match action with | .stop => "stop" | .start => "start" | .restart => "restart")
    ++ ". Saved project files are preserved."))

/-- `check_browser(workspace, …)['ok']`. -/
def checkBrowser (id : Nat) (check : BrowserCheck) : Act Bool := runCommand id (.browser check)

/-! ## §3. The workspace. -/

/-- The counters of `WorkspaceTools`. -/
structure Workspace where
  revision : Nat
  previewRevision : Nat
  screenshotAttempts : Nat
  deriving DecidableEq

def Workspace.initial : Workspace := ⟨0, 0, 0⟩

/-- `ensure_preview_current(workspace)`: the workspace afterwards. -/
def ensurePreviewCurrent (id : Nat) (ws : Workspace) : Act Workspace :=
  if ws.previewRevision ≠ ws.revision then do
    -- Advance only after restart succeeds; failed restarts must remain retryable.
    controlPreview id .restart
    pure { ws with previewRevision := ws.revision }
  else pure ws

/-- `verify(workspace)['ok']`. -/
def verify (id : Nat) (ws : Workspace) : Act (Bool × Workspace) := do
  let build ← runCommand id .build
  if build then do
    let ws ← ensurePreviewCurrent id ws
    let browser ← checkBrowser id .smoke
    pure (browser, ws)
  else pure (false, ws)

/-! ## §4. Tools. -/

/-- A request of a tool that reads: whether its result is `ok`. -/
def toolRequest : Act Bool :=
  observe .tool knownFault fun d => match d with | .check ok => some ok | _ => none

/-- The upload of `write_files`. -/
def uploadFiles (id : Nat) : Act Unit :=
  .await ⟨.upload, []⟩
    (fun answer w =>
      match answer, w.e2b.box? id with
      | .ok (.outcome _ files), some b => some (.ok (), w.setBox { b with files })
      | .fail e, _ =>
          some (.error (if e.isException then
            .fileWrite "File upload did not complete; sandbox cleanup is required" else e), w.unsettle id)
      | _, _ => none)
    .done

/-- What a tool does: its outcome, and the workspace, which keeps the changes
made before an exception. -/
abbrev ToolOutcome := Except Exc Bool × Workspace

/-- A tool refuses its arguments: a `ValueError`, whose text goes to the model. -/
def refused (ws : Workspace) : ToolOutcome := (.error (.value ""), ws)

def writeFiles (id : Nat) (valid : Bool) (ws : Workspace) : Act ToolOutcome :=
  if valid then do
    let r ← caught (uploadFiles id)
    pure (r.map fun _ => true, { ws with revision := ws.revision + 1 })
  else pure (refused ws)

def executeCommand (id : Nat) (valid : Bool) (ws : Workspace) : Act ToolOutcome :=
  if valid then do
    let r ← caught (runCommand id .tool)
    -- Shell can modify files even on failed commands.
    pure (r, { ws with revision := ws.revision + 1 })
  else pure (refused ws)

/-- `sandbox.files.remove(…)` of a temporary file, whose failure is swallowed. -/
def removeFile : Act Unit := do
  let _ ← caught (observe .provider knownFault fun _ => some ())

/-- The part of `inspect_preview` on a current server. -/
def inspectCurrent (id : Nat) (screenshot : Bool) : Act Bool :=
  if screenshot then
    (do
      let ok ← checkBrowser id .inspection
      let _ ← caught toolRequest
      pure ok).onExit removeFile
  else checkBrowser id .inspection

def inspectPreview (id : Nat) (valid screenshot : Bool) (ws : Workspace) : Act ToolOutcome :=
  if valid then
    if screenshot ∧ 2 ≤ ws.screenshotAttempts then pure (refused ws)
    else do
      let ws := if screenshot then { ws with screenshotAttempts := ws.screenshotAttempts + 1 } else ws
      let current ← caught (ensurePreviewCurrent id ws)
      match current with
      | .error e => pure (.error e, ws)
      | .ok ws => do
          let r ← caught (inspectCurrent id screenshot)
          pure (r, ws)
  else pure (refused ws)

def runTool (id : Nat) (call : ToolCall) (ws : Workspace) : Act ToolOutcome :=
  match call.tool with
  | .writeFiles => writeFiles id call.valid ws
  | .executeCommand => executeCommand id call.valid ws
  | .inspectPreview screenshot => inspectPreview id call.valid screenshot ws
  | .readFiles | .readSkill | .searchHistory => do
      let r ← caught toolRequest
      pure (r, ws)
  | .unknown => pure (refused ws)

/-! ## §5. The conversation. -/

/-- A call of the model. -/
def invokeModel : Act Reply :=
  observe .model knownFault fun d => match d with | .reply r => some r | _ => none

/-- `memory.build(…)`: it may ask the model for one summary. -/
def buildContext : Act Unit := do
  let compact ← observe .query knownFault fun d => match d with | .check b => some b | _ => none
  if compact then do
    let _ ← invokeModel
    pure ()
  else pure ()

/-- `list_files(sandbox)`, as the files that `choose_files` picks of them. -/
def listFiles : Act (List Nat) :=
  observe .provider knownFault fun d => match d with | .ids ids => some (ids.take 8) | _ => none

/-- What the loop carries from turn to turn. -/
structure Editor where
  workspace : Workspace
  toolCalls : Nat
  repeated : List (Nat × Nat)
  repairs : Nat
  deriving DecidableEq

def Editor.initial : Editor := ⟨.initial, 0, [], 0⟩

/-- The key under which repetitions of a call are counted. -/
def ToolCall.key (call : ToolCall) (ws : Workspace) : Nat × Nat :=
  match call.tool with
  | .readFiles | .inspectPreview _ => (call.fingerprint, ws.revision)
  | _ => (call.fingerprint, 0)

section Editor

variable (cfg : Config) (emit : EventKind → String → Act Unit) (checkpoint : Bool → Act Unit) (id : Nat)

/-- One round of the loop over `response.tool_calls`. -/
def runCall (call : ToolCall) (ed : Editor) : Act Editor :=
  let calls := ed.toolCalls + 1
  if cfg.runMaxToolCalls < calls then Co.raise (.runLimit "Tool-call budget reached")
  else
    -- Reads are deduplicated until a mutation; other repeated operations are bounded globally.
    let repeated := call.key ed.workspace :: ed.repeated
    if 3 ≤ repeated.count (call.key ed.workspace) then
      Co.raise (.runLimit "Stopped repetitive tool calls without progress")
    else do
      emit (.toolStarted call.id) ""
      let (r, ws) ← runTool id call ed.workspace
      emit (.toolCompleted call.id (match r with | .ok ok => ok | .error _ => false)) ""
      match r with
      | .error e =>
          -- Never checkpoint or edit while a command/upload may still mutate files.
          if e.isFatal then Co.raise e
          else pure { ed with workspace := ws, toolCalls := calls, repeated }
      | .ok _ => pure { ed with workspace := ws, toolCalls := calls, repeated }

def runCalls : List ToolCall → Editor → Act Editor
  | [], ed => pure ed
  | call :: calls, ed => do
      let ed ← runCall cfg emit id call ed
      runCalls calls ed

/-- `response.text()[:1500] or 'Application updated.'` -/
def summaryOf (text : String) : String :=
  if text = "" then "Application updated." else String.ofList (text.toList.take 1500)

/-- A reply without tool calls: `some` summary, or another turn. -/
def finalReply (text : String) (ed : Editor) : Act (Option String × Editor) := do
  emit .stage "Checking production build and browser"
  let (ok, ws) ← verify id ed.workspace
  emit (.verification ok) (if ok then "Build and browser smoke passed" else "Verification failed")
  checkpoint false
  if ok then pure (some (summaryOf text), { ed with workspace := ws })
  else if 2 ≤ ed.repairs then
    Co.raise (.verification "Build or browser checks still fail after two repair passes")
  else pure (none, { ed with workspace := ws, repairs := ed.repairs + 1 })

/-- One turn. -/
def runTurn (ed : Editor) : Act (Option String × Editor) := do
  emit .stage (if ed.repairs = 0 then "Implementing changes" else "Repairing verification errors")
  checkpoint false
  let reply ← invokeModel
  match reply with
  | .limit m => Co.raise (.runLimit m)
  | .invalid => Co.raise (.verification "Model returned an invalid tool call")
  | .message [] text => finalReply emit checkpoint id text ed
  | .message calls _ => do
      let after ← runCalls cfg emit id calls ed
      checkpoint (decide (after.workspace.revision ≠ ed.workspace.revision))
      pure (none, after)

/-- The loop over the turns that are left. -/
def runTurns : Nat → Editor → Act String
  | 0, _ => Co.raise (.runLimit "Model-turn budget reached")
  | turns + 1, ed => do
      let (summary, ed) ← runTurn cfg emit checkpoint id ed
      match summary with
      | some text => pure text
      | none => runTurns turns ed

/-- What `preflight_failure` says of a failure that is no timeout and no missing tool. -/
def preflightFailure : String :=
  "The sandbox browser startup check failed. Inspect the recorded diagnostic before changing "
    ++ "the template. No model request was made."

/-- `run_editor(…)`: the summary and the address of the preview. -/
def runEditor : Act (String × String) := do
  emit .stage "Checking sandbox browser tools"
  let ok ← checkBrowser id .preflight
  if ok then do
    emit (.verification true) "Sandbox browser startup check passed"
    buildContext
    let paths ← listFiles
    Co.forEach paths fun _ => do
      let _ ← caught toolRequest
    let summary ← runTurns cfg emit checkpoint id cfg.runMaxTurns .initial
    pure (summary, "https://" ++ cfg.getHost id)
  else do
    emit (.verification false) preflightFailure
    Co.raise (.sandboxSetup preflightFailure)

end Editor

end WebBuilder
