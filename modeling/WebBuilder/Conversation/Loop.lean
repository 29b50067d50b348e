/-
  WebBuilder.Conversation.Loop — one editing conversation, message by message.

  `run_editor` of `runner.py` with the budgets it shares with
  `ProjectContext.build` and `compact` of `context.py`, `record_usage` of
  `usage.py`, and `emit`, `checkpoint` and `save_files` of `service.py`.
  `Model.Runner` has the conversation as the sandbox and the database see it;
  here are the messages, the token counters and the activity log.

  The state is what the task of one run owns: its metrics, its events and the
  revision of its workspace.  The model, the tools, the checks and the
  database answer whatever they like.  Of a history row only its encoded size
  is kept, of the files of the project only what is sent along.

  Main definitions:
    * `estimateInputTokens`, `Metrics.outputLimit` — the bounds of a request;
    * `compact` — the summary of the history, with its reservation;
    * `runCall`, `runTurn`, `runTurns`, `runEditor` — the loop;
    * `run` — the events before it and the checkpoint after it.
-/
import WebBuilder.Model.Runner
import WebBuilder.Async.Monitor

namespace WebBuilder.Conversation

open WebBuilder.Async

/-! ## §1. Messages. -/

inductive Block where
  | text (text : String)
  /-- A block of type `image_url`. -/
  | image (url : String)
  deriving DecidableEq

def Block.isImage : Block → Bool
  | image _ => true
  | text _ => false

/-- The content of a message: a string or a list of blocks. -/
inductive Content where
  | plain (text : String)
  | blocks (blocks : List Block)
  deriving DecidableEq

/-- The text that a message shows. -/
def Content.text : Content → String
  | plain text => text
  | blocks bs => String.join (bs.map fun b => match b with | .text t => t | .image _ => "")

structure Call where
  id : String
  name : String
  /-- `json.dumps(call['args'], sort_keys=True)`. -/
  args : String
  deriving DecidableEq

/-- `usage_metadata`. -/
structure Usage where
  inputTokens : Int
  outputTokens : Int
  totalTokens : Int
  deriving DecidableEq

/-- An `AIMessage`. -/
structure Response where
  content : Content
  toolCalls : List Call
  /-- `invalid_tool_calls` is not empty. -/
  invalidCalls : Bool
  /-- It ends at the output limit. -/
  truncated : Bool
  usage : Option Usage
  /-- `record_usage` fails on the details, after the totals. -/
  oddDetails : Bool
  deriving DecidableEq

structure ToolMessage where
  content : Content
  callId : String
  ok : Bool
  deriving DecidableEq

inductive Message where
  | system (text : String)
  | human (text : String)
  | assistant (response : Response)
  | tool (message : ToolMessage)
  deriving DecidableEq

def Message.content : Message → Content
  | system text | human text => .plain text
  | assistant response => response.content
  | tool message => message.content

def Message.toolCalls : Message → List Call
  | assistant response => response.toolCalls
  | _ => []

def Content.screenshots : Content → List Block
  | plain _ => []
  | blocks bs => bs.filter Block.isImage

/-- The screenshots of a message.  Only tools send some. -/
def Message.screenshots : Message → List Block
  | tool message => message.content.screenshots
  | _ => []

def Content.withoutImages : Content → Content
  | plain text => plain text
  | blocks bs => blocks (bs.filter fun b => !b.isImage)

def ToolMessage.withoutImages (message : ToolMessage) : ToolMessage :=
  { message with content := message.content.withoutImages }

def Message.withoutImages : Message → Message
  | tool message => tool message.withoutImages
  | message => message

/-- `without_preview_images`. -/
def withoutPreviewImages (messages : List Message) : List Message := messages.map Message.withoutImages

/-! ## §2. The state of a run. -/

/-- `metrics['token_budget']`. -/
inductive TokenStop where
  | preflight (used reserved : Int) (estimatedInput : Nat) (tokenizer : Bool)
  | providerUsage (used reserved : Int)
  | modelOutput (used outputLimit : Int)
  deriving DecidableEq

/-- `metrics['compaction']`. -/
inductive Compaction where
  | skippedBudget
  | attempted
  | saved
  | failedPreviousRetained
  deriving DecidableEq

/-- The counters of `live.metrics`. -/
structure Metrics where
  turns : Nat
  toolCalls : Nat
  repairs : Nat
  previewScreenshots : Nat
  inputTokens : Int
  outputTokens : Int
  totalTokens : Int
  reservedTokens : Int
  tokenBudget : Option TokenStop
  compaction : Option Compaction
  deriving DecidableEq

def Metrics.empty : Metrics := ⟨0, 0, 0, 0, 0, 0, 0, 0, none, none⟩

/-- What the task of a run owns. -/
structure Live where
  metrics : Metrics
  /-- `len(live.events)`. -/
  events : Nat
  /-- The `RunEvent` rows that are committed, except the terminal one. -/
  rows : Nat
  /-- `workspace.revision`. -/
  revision : Nat
  deriving DecidableEq

def Live.initial : Live := ⟨.empty, 0, 0, 0⟩

inductive Event where
  | runStarted
  | stage (message : String)
  | verification (ok : Bool) (message : String)
  | toolStarted (callId name : String)
  | toolCompleted (callId name : String) (ok : Bool)
  deriving DecidableEq

/-- The awaits of a conversation. -/
inductive Op where
  | memory
  | emit (event : Event)
  | checkpoint
  | latestRevision
  | pack
  | saveRevision
  /-- `get_e2b_sandbox`, with everything it does. -/
  | sandbox
  | invalidate
  | preflight
  | history
  | search
  /-- The summary of `rows`, latest first. -/
  | summarize (previous : Option Nat) (rows : List Nat)
  | publish
  | listFiles
  | read (path : String)
  | invoke (messages : List Message) (maxTokens : Int)
  | execute (call : Call)
  | verify
  deriving DecidableEq

/-- The evidence that `build` reads: how many recent messages there are, the
encoded sizes of the rows since the last summary, and that of the summary. -/
structure History where
  recent : Nat
  pending : List Nat
  previous : Option Nat

/-- What a tool returns, without `_image`, and that image. -/
structure ToolResult where
  ok : Bool
  serialized : String
  image : Option String
  deriving DecidableEq

/-- What the environment chooses. -/
inductive Reply where
  | served
  | check (ok : Bool) (report : String)
  | history (history : History)
  | text (text : String)
  | paths (paths chosen : List String)
  | response (response : Response)
  | result (result : ToolResult) (revision : Nat)
  | saved (new : Bool)

abbrev Edit (α : Type) := Co Live Op Exc Reply α

/-- What the awaits raise by themselves.  A `RunLimitError` is raised by the
loop and by the activity log only. -/
def fault : Exc → Bool
  | .runLimit _ => false
  | _ => true

/-- The code between two awaits. -/
def memory {α : Type} (f : Live → α × Live) : Edit α := Co.memory .memory f

/-- A step on the metrics without a result. -/
def record (f : Metrics → Metrics) : Edit Unit :=
  memory fun s => ((), { s with metrics := f s.metrics })

/-- An await that changes nothing here. -/
def observe {α : Type} (op : Op) (answer : Reply → Option α) : Edit α :=
  .await op
    (fun a s =>
      match a with
      | .ok d => (answer d).map fun r => (.ok r, s)
      | .fail e => if fault e then some (.error e, s) else none
      | _ => none)
    .done

/-- An await whose result is not used. -/
def perform (op : Op) : Edit Unit := observe op fun _ => some ()

def check (op : Op) : Edit (Bool × String) :=
  observe op fun d => match d with | .check ok report => some (ok, report) | _ => none

def receive (op : Op) : Edit String :=
  observe op fun d => match d with | .text text => some text | _ => none

/-- The outcome of `p` as a value, where `except Exception` catches it. -/
def caught {α : Type} (p : Edit α) : Edit (Except Exc α) :=
  (p.bind fun a => .done (.ok (.ok a))).tryCatch fun e => if e.isException then .done (.ok (.error e)) else Co.raise e

/-- `if c: p`. -/
def onlyIf (c : Prop) [Decidable c] (p : Edit Unit) : Edit Unit := if c then p else .done (.ok ())

/-! ## §3. The activity log. -/

/-- The row of an event is committed before the event is counted. -/
def emitStep (answer : Answer Exc Reply) (s : Live) : Option (Except Exc Unit × Live) :=
  if 200 ≤ s.events then
    match answer with
    | .ok _ => some (.error (.runLimit "Activity budget reached"), s)
    | _ => none
  else
    match answer with
    | .ok _ => some (.ok (), { s with events := s.events + 1, rows := s.rows + 1 })
    | .fail e => if databaseFault e then some (.error e, s) else none
    | .lost e _ => if databaseFault e then some (.error e, { s with rows := s.rows + 1 }) else none
    | .late _ _ => none

/-- `emit`. -/
def emit (event : Event) : Edit Unit := .await (.emit event) emitStep .done

/-- `save_revision` commits an event too, if the contents are new. -/
def saveRevisionStep (answer : Answer Exc Reply) (s : Live) : Option (Except Exc Unit × Live) :=
  match answer with
  | .ok (.saved true) => some (.ok (), { s with events := s.events + 1, rows := s.rows + 1 })
  | .ok (.saved false) => some (.ok (), s)
  | .lost e (.saved true) => if fault e then some (.error e, { s with rows := s.rows + 1 }) else none
  | .fail e => if fault e then some (.error e, s) else none
  | _ => none

def saveRevision : Edit Unit := .await .saveRevision saveRevisionStep .done

/-- `save_files`. -/
def saveFiles : Edit Unit := do
  let events ← memory fun s => (s.events, s)
  if 200 ≤ events then Co.raise (.runLimit "Activity budget reached before checkpoint")
  else do
    perform .latestRevision
    perform .pack
    saveRevision

/-- `checkpoint(dirty)`. -/
def checkpoint (dirty : Bool) : Edit Unit := do
  onlyIf dirty saveFiles
  perform .checkpoint

/-! ## §4. Settings and estimates. -/

/-- The settings of a run, and the texts that depend on the libraries. -/
structure Settings where
  /-- `RUN_MAX_TURNS`; a negative one is as good as `0`. -/
  maxTurns : Nat
  /-- `RUN_MAX_TOOL_CALLS`; a negative one is as good as `0`. -/
  maxToolCalls : Nat
  /-- `RUN_MAX_TOKENS`. -/
  tokenBudget : Int
  /-- `MEMORY_COMPACTION_ENABLED`. -/
  compaction : Bool
  /-- There is a `ProjectContext`. -/
  memory : Bool
  /-- The names of the tools. -/
  tools : List String
  /-- The tokenizer, on the messages and the tool schema; it may have no answer. -/
  numTokens : List Message → Option Nat
  /-- `len(tool_schema.encode())`. -/
  schemaBytes : Nat
  /-- `str(message.content)`. -/
  contentText : Content → String
  /-- `str(message.tool_calls)`. -/
  callsText : List Call → String
  /-- The result of a tool that raised. -/
  errorResult : Exc → String
  systemPrompt : String
  /-- `json.dumps` of the context, the request, the excerpts and the paths. -/
  request : String → List (String × Option String) → List String → String
  /-- `encoded_size(json.loads(text))`. -/
  summarySize : String → Option Nat
  host : String

/-- Default settings with a tokenizer that answers. -/
def defaults (tokenBudget : Int) : Settings where
  maxTurns := 16
  maxToolCalls := 32
  tokenBudget := tokenBudget
  compaction := true
  memory := true
  tools := ["read_files", "write_files", "execute_command", "inspect_preview"]
  numTokens := fun messages => some (1000 * messages.length)
  schemaBytes := 4000
  contentText := Content.text
  callsText := fun _ => "[]"
  errorResult := Exc.text
  systemPrompt := "Edit the project."
  request := fun context _ _ => context
  summarySize := fun text => some text.utf8ByteSize
  host := "localhost"

/-- `len(str(getattr(message, 'tool_calls', '')).encode())`. -/
def Message.callBytes (cfg : Settings) : Message → Nat
  | assistant response => (cfg.callsText response.toolCalls).utf8ByteSize
  | _ => 0

/-- `estimate_input_tokens`, and whether the tokenizer answered. -/
def estimateInputTokens (cfg : Settings) (messages : List Message) : Nat × Bool :=
  let images := (messages.flatMap Message.screenshots).length
  let messages := withoutPreviewImages messages
  match cfg.numTokens messages with
  | some count => (count + 2000 + images * 4096, true)
  | none =>
      let count := (messages.map fun m =>
        (cfg.contentText m.content).utf8ByteSize + m.callBytes cfg + 100).sum + cfg.schemaBytes
      (count + 2000 + images * 4096, false)

/-- `output_limit`. -/
def Metrics.outputLimit (m : Metrics) (cfg : Settings) (estimatedInput : Nat) : Int :=
  min 8192 (cfg.tokenBudget - m.totalTokens - m.reservedTokens - estimatedInput - 1)

/-- The totals of `record_usage`. -/
def Metrics.addUsage (m : Metrics) : Option Usage → Metrics
  | none => m
  | some usage =>
      { m with
        inputTokens := m.inputTokens + usage.inputTokens
        outputTokens := m.outputTokens + usage.outputTokens
        totalTokens := m.totalTokens + usage.totalTokens }

/-- `record_usage`. -/
def recordUsage (response : Response) : Edit Unit := do
  record fun m => m.addUsage response.usage
  if response.oddDetails then Co.raise .other else return

/-! ## §5. The summary of the history. -/

def MAX_CONTEXT_BYTES : Nat := 48000

def RECENT_MESSAGES : Nat := 6

def MAX_SUMMARY_INPUT : Nat := 24000

/-- `encoded_size` of a list of rows: brackets, and `", "` between them. -/
def encodedSize (rows : List Nat) : Nat := 2 + rows.sum + 2 * (rows.length - 1)

/-- `encoded_size(previous)`; `null` when there is none. -/
def previousSize (previous : Option Nat) : Nat := previous.getD 4

/-- `encoded_size({'previous': previous, 'messages': rows})`. -/
def inputSize (previous : Option Nat) (rows : List Nat) : Nat := 28 + previousSize previous + encodedSize rows

/-- `encoded_size({'previous_summary': previous, 'messages': rows})`. -/
def payloadSize (previous : Option Nat) (rows : List Nat) : Nat := 36 + previousSize previous + encodedSize rows

/-- `len(instructions.encode())`. -/
def instructionBytes : Nat := 585

/-- The provider client may retry once: two attempts are reserved. -/
def reservation (previous : Option Nat) (rows : List Nat) : Nat :=
  2 * (payloadSize previous rows + instructionBytes + 4096)

/-- The rows that fit into one summary, latest first; `rows` are those before. -/
def takeRows (previous : Option Nat) : List Nat → List Nat → List Nat
  | rows, [] => rows
  | rows, row :: pending =>
      if MAX_SUMMARY_INPUT < inputSize previous (row :: rows) then rows
      else takeRows previous (row :: rows) pending

/-- A reservation fits, and leaves room for the context and one reply. -/
def Metrics.affords (m : Metrics) (cfg : Settings) (reserved : Nat) : Prop :=
  m.totalTokens + m.reservedTokens + reserved + MAX_CONTEXT_BYTES + 8192 < cfg.tokenBudget

instance (m : Metrics) (cfg : Settings) (reserved : Nat) : Decidable (m.affords cfg reserved) :=
  inferInstanceAs (Decidable (_ < _))

/-- Drop the latest rows until the reservation fits. -/
def dropRows (cfg : Settings) (m : Metrics) (previous : Option Nat) : List Nat → List Nat
  | [] => []
  | row :: rows =>
      if m.affords cfg (reservation previous (row :: rows)) then row :: rows
      else dropRows cfg m previous rows

/-- Debit conservatively before awaiting. -/
def Metrics.reserve (m : Metrics) (cfg : Settings) (previous : Option Nat) (rows : List Nat) : Metrics :=
  match dropRows cfg m previous rows with
  | [] => { m with compaction := some .skippedBudget }
  | row :: rows =>
      { m with
        reservedTokens := m.reservedTokens + reservation previous (row :: rows)
        compaction := some .attempted }

/-- What was reserved and is in the totals now. -/
def Metrics.credit (m : Metrics) (reserved : Nat) : Option Usage → Metrics
  | some usage =>
      if 0 ≤ usage.totalTokens then
        { m with reservedTokens := m.reservedTokens - min usage.totalTokens reserved }
      else m
  | none => m

/-- The request for a summary and its publication. -/
def summarize (cfg : Settings) (previous : Option Nat) (rows : List Nat) : Edit Unit := do
  let response ← observe (.summarize previous rows) fun d => match d with | .response r => some r | _ => none
  record fun m => m.credit (reservation previous rows) response.usage
  recordUsage response
  match cfg.summarySize response.content.text with
  | none => Co.raise (.value "")
  | some size =>
      if 10000 < size then Co.raise (.context "Summary is too large")
      else do
        let new ← observe .publish fun d => match d with | .saved new => some new | _ => none
        if new then record fun m => { m with compaction := some .saved } else return

/-- `compact`. -/
def compact (cfg : Settings) (history : History) : Edit Unit :=
  match takeRows history.previous [] history.pending with
  | [] => return
  | rows => do
      let rows ← memory fun s =>
        (dropRows cfg s.metrics history.previous rows,
          { s with metrics := s.metrics.reserve cfg history.previous rows })
      match rows with
      | [] => return
      | rows =>
          (summarize cfg history.previous rows).tryCatch fun e =>
            if e.isException then record fun m => { m with compaction := some .failedPreviousRetained }
            else Co.raise e

/-- One bounded compaction call at a request boundary. -/
def compactionDue (cfg : Settings) (history : History) : Prop :=
  cfg.compaction = true ∧ history.recent = RECENT_MESSAGES ∧ history.pending ≠ [] ∧
    (12 < history.pending.length ∨ 12000 < encodedSize history.pending)

instance (cfg : Settings) (history : History) : Decidable (compactionDue cfg history) :=
  inferInstanceAs (Decidable (_ ∧ _ ∧ _ ∧ _))

/-- `ProjectContext.build`: the assembled context. -/
def build (cfg : Settings) : Edit String := do
  let history ← observe .history fun d => match d with | .history h => some h | _ => none
  onlyIf (compactionDue cfg history) (compact cfg history)
  receive .search

/-! ## §6. The loop. -/

/-- The key under which repetitions of a call are counted. -/
structure Key where
  name : String
  args : String
  revision : Nat
  deriving DecidableEq

/-- Reads are deduplicated until a mutation; other operations are bounded globally. -/
def Call.key (call : Call) (revision : Nat) : Key :=
  ⟨call.name, call.args, if call.name ∈ ["read_files", "inspect_preview"] then revision else 0⟩

/-- What the loop carries from turn to turn. -/
structure Editor where
  messages : List Message
  repeated : List Key
  repairs : Nat

/-- `tools[name].ainvoke(args)`.  It may fail after it has changed files. -/
def executeStep (answer : Answer Exc Reply) (s : Live) : Option (Except Exc ToolResult × Live) :=
  match answer with
  | .ok (.result result revision) =>
      if s.revision ≤ revision then some (.ok result, { s with revision }) else none
  | .lost e (.result _ revision) =>
      if fault e ∧ s.revision ≤ revision then some (.error e, { s with revision }) else none
  | .fail e => if fault e then some (.error e, s) else none
  | _ => none

def execute (call : Call) : Edit ToolResult := .await (.execute call) executeStep .done

def callTool (cfg : Settings) (call : Call) : Edit (Except Exc ToolResult) :=
  if call.name ∈ cfg.tools then caught (execute call) else .done (.ok (.error (.value "Unknown tool")))

/-- The result that the model and the activity log see. -/
def resultOf (cfg : Settings) : Except Exc ToolResult → ToolResult
  | .ok result => result
  | .error e => ⟨false, cfg.errorResult e, none⟩

/-- Only `inspect_preview` sends an image. -/
def imageOf (call : Call) (result : ToolResult) : Option String :=
  if call.name = "inspect_preview" then result.image else none

/-- A screenshot is sent beside the text of its result. -/
def contentOf (call : Call) (result : ToolResult) : Content :=
  match imageOf call result with
  | some url => .blocks [.text result.serialized, .image url]
  | none => .plain result.serialized

def toolMessage (call : Call) (result : ToolResult) : ToolMessage := ⟨contentOf call result, call.id, result.ok⟩

/-- The rest of a round, after the tool. -/
def finishCall (cfg : Settings) (call : Call) (outcome : Except Exc ToolResult) : Edit ToolMessage := do
  let result := resultOf cfg outcome
  emit (.toolCompleted call.id call.name result.ok)
  match outcome with
  | .error e =>
      -- Never checkpoint or edit while a command/upload may still mutate files.
      if e.isFatal then Co.raise e else return toolMessage call result
  | .ok _ =>
      record fun m => { m with
        previewScreenshots := m.previewScreenshots + (if (imageOf call result).isSome then 1 else 0) }
      return toolMessage call result

/-- One round of the loop over `response.tool_calls`. -/
def runCall (cfg : Settings) (call : Call) (ed : Editor) : Edit Editor := do
  let (calls, revision) ← memory fun s =>
    ((s.metrics.toolCalls + 1, s.revision),
      { s with metrics := { s.metrics with toolCalls := s.metrics.toolCalls + 1 } })
  if cfg.maxToolCalls < calls then Co.raise (.runLimit "Tool-call budget reached")
  else if 3 ≤ (call.key revision :: ed.repeated).count (call.key revision) then
    Co.raise (.runLimit "Stopped repetitive tool calls without progress")
  else do
    emit (.toolStarted call.id call.name)
    let outcome ← callTool cfg call
    let message ← finishCall cfg call outcome
    return { ed with repeated := call.key revision :: ed.repeated, messages := ed.messages ++ [.tool message] }

def runCalls (cfg : Settings) : List Call → Editor → Edit Editor
  | [], ed => return ed
  | call :: calls, ed => do
      let ed ← runCall cfg call ed
      runCalls cfg calls ed

/-- A reply without tool calls: `some` summary, or another turn. -/
def finalReply (response : Response) (ed : Editor) : Edit (Option String × Editor) := do
  emit (.stage "Checking production build and browser")
  let (ok, report) ← check .verify
  emit (.verification ok (if ok then "Build and browser smoke passed" else "Verification failed"))
  checkpoint false
  if ok then return (some (summaryOf response.content.text), ed)
  else if 2 ≤ ed.repairs then
    Co.raise (.verification "Build or browser checks still fail after two repair passes")
  else do
    record fun m => { m with repairs := ed.repairs + 1 }
    return (none, { ed with
      repairs := ed.repairs + 1
      messages := ed.messages ++ [.human ("Fix only these verification errors: " ++ report)] })

/-- The room for one reply; `none` is the stop before a request. -/
def admitReply (cfg : Settings) (messages : List Message) : Edit (Option Int) :=
  memory fun s =>
    let estimate := estimateInputTokens cfg messages
    let limit := s.metrics.outputLimit cfg estimate.1
    if limit < 1024 then
      (none, { s with metrics := { s.metrics with
        tokenBudget := some (.preflight s.metrics.totalTokens s.metrics.reservedTokens estimate.1 estimate.2) } })
    else (some limit, s)

/-- The stop after a request: the reported usage is over the budget. -/
def overBudget (cfg : Settings) : Edit Bool :=
  memory fun s =>
    if cfg.tokenBudget ≤ s.metrics.totalTokens + s.metrics.reservedTokens then
      (true, { s with metrics := { s.metrics with
        tokenBudget := some (.providerUsage s.metrics.totalTokens s.metrics.reservedTokens) } })
    else (false, s)

def invoke (messages : List Message) (maxTokens : Int) : Edit Response :=
  observe (.invoke messages maxTokens) fun d => match d with | .response r => some r | _ => none

/-- The model request of a turn. -/
def askModel (cfg : Settings) (messages : List Message) : Edit Response :=
  -- Bound growing conversation inputs as well as measured provider usage.
  if 180000 < ((withoutPreviewImages messages).map fun m => (cfg.contentText m.content).length).sum then
    Co.raise (.runLimit "Context budget reached; request a smaller change")
  else do
    let limit ← admitReply cfg messages
    match limit with
    | none => Co.raise (.runLimit "Token budget reached")
    | some limit => do
        let response ← invoke messages limit
        recordUsage response
        let overrun ← overBudget cfg
        if overrun then Co.raise (.runLimit "Token budget reached")
        else if response.truncated then do
          record fun m => { m with tokenBudget := some (.modelOutput m.totalTokens limit) }
          Co.raise (.runLimit "Model output budget reached; request a smaller change")
        else return response

/-- The tools of a reply, and a checkpoint of what they changed. -/
def runTools (cfg : Settings) (calls : List Call) (ed : Editor) : Edit (Option String × Editor) := do
  let before ← memory fun s => (s.revision, s)
  let ed ← runCalls cfg calls ed
  let after ← memory fun s => (s.revision, s)
  checkpoint (decide (after ≠ before))
  return (none, ed)

/-- One turn. -/
def runTurn (cfg : Settings) (turn : Nat) (ed : Editor) : Edit (Option String × Editor) := do
  record fun m => { m with turns := turn }
  emit (.stage (if ed.repairs = 0 then "Implementing changes" else "Repairing verification errors"))
  checkpoint false
  let response ← askModel cfg ed.messages
  let ed := { ed with messages := withoutPreviewImages ed.messages ++ [.assistant response] }
  if response.invalidCalls then Co.raise (.verification "Model returned an invalid tool call")
  else if response.toolCalls = [] then finalReply response ed
  else runTools cfg response.toolCalls ed

/-- The loop over the turns that are left. -/
def runTurns (cfg : Settings) : Nat → Editor → Edit String
  | 0, _ => Co.raise (.runLimit "Model-turn budget reached")
  | turns + 1, ed => do
      let (summary, ed) ← runTurn cfg (cfg.maxTurns - turns) ed
      match summary with
      | some text => return text
      | none => runTurns cfg turns ed

/-- `list_files`, and the paths that `choose_files` picks of them. -/
def listFiles : Edit (List String × List String) :=
  observe .listFiles fun d =>
    match d with
    | .paths paths chosen => if chosen ⊆ paths ∧ chosen.length ≤ 8 then some (paths, chosen) else none
    | _ => none

/-- The initial files; one that cannot be read is for the model to inspect. -/
def readInitial : List String → Edit (List (String × Option String))
  | [] => return []
  | path :: paths => do
      let content ← caught (receive (.read path))
      let rest ← readInitial paths
      return (path, content.toOption) :: rest

/-- The messages of the first request. -/
def opening (cfg : Settings) (context : String) (files : List (String × Option String)) (paths : List String) :
    List Message :=
  [.system cfg.systemPrompt, .human (cfg.request context files paths)]

/-- The browser check before the first model request. -/
def checkSandbox : Edit Unit := do
  emit (.stage "Checking sandbox browser tools")
  let (ok, explanation) ← check .preflight
  if ok then emit (.verification true "Sandbox browser startup check passed")
  else do
    emit (.verification false explanation)
    Co.raise (.sandboxSetup explanation)

def contextOf (cfg : Settings) : Edit String := if cfg.memory then build cfg else return "\x7b\x7d"

/-- `run_editor`: the summary and the address of the preview. -/
def runEditor (cfg : Settings) : Edit (String × String) := do
  checkSandbox
  let context ← contextOf cfg
  let (paths, chosen) ← listFiles
  let files ← readInitial chosen
  let summary ← runTurns cfg cfg.maxTurns ⟨opening cfg context files paths, [], 0⟩
  return (summary, "https://" ++ cfg.host)

/-- The run that `execute` puts under its deadline. -/
def run (cfg : Settings) : Edit (String × String) := do
  emit .runStarted
  perform .sandbox
  perform .invalidate
  let result ← runEditor cfg
  saveFiles
  return result

end WebBuilder.Conversation
