/-
  WebBuilder.Run.Command — one command in a sandbox.

  `run_command` of `commands.py`: it starts a process, waits for its exit,
  and reconnects once to the same process when the stream breaks.  Every call
  of the SDK may succeed, raise, or be cut off by the deadline or by a
  cancellation of the task; the output callbacks may exceed their limit.

  An exit that was not observed leaves a process that may still be running,
  and only a `CommandStateError` makes the caller retire the sandbox.

  Main results:
    * `watched_runCommand` — one start, one reconnect, to the process that was
      started, and what the outcome tells about the calls;
    * `unobserved_exit_escapes` — the `disconnect` of the `finally` block can
      replace the `CommandStateError`;
    * `observed_exit_iff` — the calls for which the outcome can be trusted.
-/
import WebBuilder.Async.Monitor

namespace WebBuilder.Command

open WebBuilder.Async

/-! ## §1. The calls of the SDK. -/

def MAX_OUTPUT : Nat := 12000

def MAX_STREAM_OUTPUT : Nat := 256000

/-- `CommandResult`, and the payload of `CommandExitException`. -/
structure CommandResult where
  exitCode : Int
  stdout : List Char
  stderr : List Char
  deriving DecidableEq

/-- What can be raised at an await of `run_command`. -/
inductive CommandExc where
  /-- `asyncio.CancelledError`, after `task.cancel()`. -/
  | cancelled
  /-- `asyncio.CancelledError`, thrown in by the expired `asyncio.timeout`. -/
  | deadline
  /-- `CommandExitException`. -/
  | exit (result : CommandResult)
  /-- `CommandStateError`. -/
  | state (message : String)
  /-- `TimeoutError`. -/
  | timeout
  /-- Any other `Exception`. -/
  | other
  deriving DecidableEq

/-- Whether `except Exception` catches it. -/
def CommandExc.isException : CommandExc → Bool
  | cancelled | deadline => false
  | _ => true

/-- `ProcessInfo`. -/
structure Process where
  pid : Nat
  cmd : String
  args : List String
  cwd : String
  deriving DecidableEq

/-- What a call answers.  The lengths of the chunks are what the callbacks
were given until then. -/
inductive Reply where
  | handle (pid : Nat)
  | exited (chunks : List Nat) (result : CommandResult)
  | processes (running : List Process)
  | closed
  deriving DecidableEq

inductive SdkCall where
  /-- `sandbox.commands.run(command, background=True, …)`. -/
  | start (command cwd : String) (timeout requestTimeout : Nat)
  | wait
  /-- `handle.disconnect()` before the reconnect. -/
  | disconnect
  | list
  | connect (pid timeout : Nat)
  /-- `handle.disconnect()` in the `finally` block. -/
  | close
  /-- The code between two awaits. -/
  | memory
  deriving DecidableEq

/-- The local variables of `run_command`. -/
structure Locals where
  handle : Option Nat := none
  received : Nat := 0
  reconnected : Bool := false
  deriving DecidableEq

abbrev Running (α : Type) := Co Locals SdkCall CommandExc Reply α

/-! ## §2. `run_command`. -/

/-- `limit_output`, for one chunk after the other, until it raises. -/
def limitOutput : Nat → List Nat → Except Nat Nat
  | received, [] => .ok received
  | received, chunk :: chunks =>
      if MAX_STREAM_OUTPUT < received + chunk then .error (received + chunk)
      else limitOutput (received + chunk) chunks

/-- A call whose reply is stored by `set`.  It can fail, or succeed unseen. -/
def call (fault : CommandExc → Bool) (op : SdkCall) (set : Reply → Locals → Option (α × Locals)) : Running α :=
  .await op
    (fun answer s =>
      match answer with
      | .ok reply => (set reply s).map fun x => (.ok x.1, x.2)
      | .fail e => if fault e then some (.error e, s) else none
      | .lost e _ => if fault e then some (.error e, s) else none
      | .late e _ => if fault e then some (.error e, s) else none)
    .done

/-- Inside the deadline, any exception can be raised. -/
def anyFault : CommandExc → Bool := fun _ => true

/-- Outside, the deadline is over. -/
def undatedFault (e : CommandExc) : Bool := e ≠ .deadline

def start (command cwd : String) (timeout : Nat) : Running Unit :=
  call anyFault (.start command cwd timeout (min timeout 10)) fun reply s =>
    match reply with
    | .handle pid => some ((), { s with handle := some pid })
    | _ => none

/-- `handle.wait()`.  A callback that raises ends it with its exception. -/
def wait : Running CommandResult :=
  .await .wait
    (fun answer s =>
      match answer with
      | .ok (.exited chunks result) =>
          match limitOutput s.received chunks with
          | .ok received => some (.ok result, { s with received })
          | .error received => some (.error (.state
              "Command output limit reached; sandbox cleanup is required"), { s with received })
      | .lost e (.exited chunks _) =>
          match limitOutput s.received chunks with
          | .ok received => some (.error e, { s with received })
          | .error received => some (.error (.state
              "Command output limit reached; sandbox cleanup is required"), { s with received })
      | .fail e => some (.error e, s)
      | _ => none)
    .done

def disconnect (fault : CommandExc → Bool) (op : SdkCall) : Running Unit :=
  call fault op fun reply s =>
    match reply with
    | .closed => some ((), s)
    | _ => none

def listProcesses : Running (List Process) :=
  call anyFault .list fun reply s =>
    match reply with
    | .processes running => some (running, s)
    | _ => none

/-- `connect`, whose handle replaces the first. -/
def connect (pid timeout : Nat) : Running Unit :=
  call anyFault (.connect pid timeout) fun reply s =>
    match reply with
    | .handle pid => some ((), { s with handle := some pid, reconnected := true })
    | _ => none

def locals : Running Locals := Co.memory .memory fun s => (s, s)

/-- The process is a shell of this invocation. -/
def Process.isOurs (pid : Nat) (command cwd : String) (p : Process) : Bool :=
  p.pid = pid && p.cmd = "/bin/bash" && p.args = ["-l", "-c", command] && p.cwd = cwd

/-- `async with asyncio.timeout(timeout)`. -/
def withTimeout (p : Running α) : Running α :=
  p.tryCatch fun e => Co.raise (if e = .deadline then .timeout else e)

/-- The inner `except Exception`: only reconnect to this invocation's process. -/
def reconnect (command cwd : String) (timeout : Nat) : Running CommandResult := do
  let s ← locals
  match s.handle with
  | none => Co.raise .other
  | some pid =>
      disconnect anyFault .disconnect
      let running ← listProcesses
      if !running.any (Process.isOurs pid command cwd) then
        Co.raise (.state "Command exit could not be confirmed; sandbox cleanup is required")
      else
        connect pid timeout
        wait

def observe (command cwd : String) (timeout : Nat) : Running CommandResult :=
  withTimeout do
    start command cwd timeout
    wait.tryCatch fun e =>
      match e with
      | .exit result => Co.raise (.exit result)
      | .state message => Co.raise (.state message)
      | e => if e.isException then reconnect command cwd timeout else Co.raise e

/-- The outer `except` clauses. -/
def classify : CommandExc → Running CommandResult
  | .exit result => return result
  | .state message => Co.raise (.state message)
  | .timeout => Co.raise (.state
      "Command timed out; its process may still be running. Sandbox cleanup is required")
  | .other => Co.raise (.state
      "Command connection lost; its outcome is unknown. Sandbox cleanup is required")
  | e => Co.raise e

/-- The `finally` block. -/
def closeHandle : Running Unit := do
  let s ← locals
  match s.handle with
  | none => return
  | some _ => disconnect undatedFault .close

/-- The dictionary that `run_command` returns. -/
structure CommandReport where
  ok : Bool
  pid : Nat
  exitCode : Int
  reconnected : Bool
  outputMayBeIncomplete : Bool
  stdout : List Char
  stderr : List Char
  errorType : Option String
  deriving DecidableEq

/-- `text[-MAX_OUTPUT:]`. -/
def tail (text : List Char) : List Char := text.drop (text.length - MAX_OUTPUT)

def report (pid : Nat) (reconnected : Bool) (result : CommandResult) : CommandReport where
  ok := result.exitCode = 0
  pid := pid
  exitCode := result.exitCode
  reconnected := reconnected
  outputMayBeIncomplete := reconnected
  stdout := tail result.stdout
  stderr := tail result.stderr
  errorType := if result.exitCode = 0 then none else some "CommandExitException"

/-- The `return` statement. -/
def returnReport (result : CommandResult) : Running CommandReport := do
  let s ← locals
  match s.handle with
  -- `handle.pid` of `None`
  | none => Co.raise .other
  | some pid => return report pid s.reconnected result

def runCommand (command cwd : String) (timeout : Nat) : Running CommandReport := do
  let result ← ((observe command cwd timeout).tryCatch classify).onExit closeHandle
  returnReport result

/-! ## §3. What the calls of a run were like. -/

abbrev CommandStep := Step Locals SdkCall CommandExc Reply

/-- A fold over the calls of one `run_command`. -/
structure Summary where
  starts : Nat := 0
  connects : Nat := 0
  /-- The process that was started. -/
  started : Option Nat := none
  cancelled : Bool := false
  /-- The exits that `wait` observed. -/
  exits : List CommandResult := []
  /-- Another call than `wait` raised a `CommandExitException`. -/
  strayExit : Bool := false
  /-- What the `disconnect` of the `finally` block raised. -/
  closing : Option CommandExc := none

def isExit : Option CommandExc → Bool
  | some (.exit _) => true
  | _ => false

/-- The exit that a `wait` observed. -/
def observedExit (st : CommandStep) : List CommandResult :=
  match st.raised, st.answer with
  | none, .ok (.exited _ result) => [result]
  | some (.exit result), _ => [result]
  | _, _ => []

def Summary.next (m : Summary) (st : CommandStep) : Summary :=
  let m := { m with cancelled := m.cancelled || st.raised = some .cancelled }
  match st.op with
  | .start _ _ _ _ =>
      { m with
        starts := m.starts + 1
        started := match st.answer with
          | .ok (.handle pid) => some pid
          | _ => none
        strayExit := m.strayExit || isExit st.raised }
  | .wait => { m with exits := observedExit st ++ m.exits }
  | .disconnect => { m with strayExit := m.strayExit || isExit st.raised }
  | .list => { m with strayExit := m.strayExit || isExit st.raised }
  | .connect _ _ => { m with connects := m.connects + 1, strayExit := m.strayExit || isExit st.raised }
  | .close => { m with closing := st.raised }
  | .memory => m

/-- One start, and one reconnect to the process that was started. -/
def Permitted (m : Summary) (st : CommandStep) : Prop :=
  match st.op with
  | .start _ _ _ _ => m.starts = 0
  | .connect pid _ => m.connects = 0 ∧ m.started = some pid
  | _ => True

def calls : Monitor Locals SdkCall CommandExc Reply Summary := ⟨Summary.next, Permitted⟩

def summary (steps : List CommandStep) : Summary := steps.foldl Summary.next {}

/-- Nobody else sees the local variables. -/
def Own (s s' : Locals) : Prop := s' = s

/-- A result is that of an observed exit; otherwise a `CommandStateError` is
raised, unless the task was cancelled. -/
def Reported (m : Summary) : Except CommandExc CommandReport → Prop
  | .ok report => ∃ result ∈ m.exits, report.exitCode = result.exitCode
  | .error e => m.cancelled = true ∨ ∃ message, e = .state message

/-- The last `disconnect` raised nothing, or a `CommandStateError` of its own,
and nothing but `wait` raised a `CommandExitException`. -/
def Orderly (m : Summary) : Prop :=
  m.cancelled = true ∨ (∃ message, m.closing = some (.state message)) ∨
    (m.closing = none ∧ m.strayExit = false)

/-! ## §4. The deadline block. -/

/-- Nothing has gone wrong, and no exit was seen. -/
structure Unsettled (m : Summary) : Prop where
  cancelled : m.cancelled = false
  exits : m.exits = []
  strayExit : m.strayExit = false
  closing : m.closing = none

/-- How the deadline block ends. -/
inductive Ending (s : Locals) (m : Summary) : Except CommandExc CommandResult → Prop where
  /-- The exit was observed. -/
  | seen (result : CommandResult) : m.cancelled = false → m.strayExit = false → m.closing = none →
      result ∈ m.exits → s.handle.isSome → Ending s m (.ok result)
  | failed (result : CommandResult) : m.cancelled = false → m.strayExit = false → m.closing = none →
      result ∈ m.exits → s.handle.isSome → Ending s m (.error (.exit result))
  /-- Something else raised a `CommandExitException`. -/
  | stray (result : CommandResult) : m.cancelled = false → m.strayExit = true → m.closing = none →
      m.exits = [] → Ending s m (.error (.exit result))
  | cancelled : m.cancelled = true → m.closing = none → Ending s m (.error .cancelled)
  /-- The outcome of the process is unknown. -/
  | unknown (e : CommandExc) : m.cancelled = false → m.strayExit = false → m.closing = none →
      e ≠ .cancelled → (∀ result, e ≠ .exit result) → Ending s m (.error e)

section Calls

variable {s : Locals} {m : Summary}

/-- **The rule of one call**. -/
theorem watched_call {fault : CommandExc → Bool} {op : SdkCall} {set : Reply → Locals → Option (α × Locals)}
    {Q : Except CommandExc α → Locals → Summary → Prop}
    (hok : ∀ reply a s', set reply s = some (a, s') → calls.ok m ⟨op, .ok reply, none, s, s'⟩ ∧
      Q (.ok a) s' (calls.next m ⟨op, .ok reply, none, s, s'⟩))
    (herr : ∀ answer e, fault e = true → (∀ reply, answer ≠ .ok reply) → calls.ok m ⟨op, answer, some e, s, s⟩ ∧
      Q (.error e) s (calls.next m ⟨op, answer, some e, s, s⟩)) :
    Watched Own calls (call fault op set) Q s m := by
  intro s₁ hown answer r s₂ hact
  obtain rfl : s₁ = s := hown
  cases answer with
  | ok reply =>
      obtain ⟨⟨a, s'⟩, hset, heq⟩ := Option.map_eq_some_iff.mp hact
      simp only [Prod.mk.injEq] at heq
      obtain ⟨rfl, rfl⟩ := heq
      exact hok reply a s' hset
  | fail e =>
      simp only [Option.ite_none_right_eq_some, Option.some.injEq, Prod.mk.injEq] at hact
      obtain ⟨hfault, rfl, rfl⟩ := hact
      exact herr _ e hfault nofun
  | lost e d =>
      simp only [Option.ite_none_right_eq_some, Option.some.injEq, Prod.mk.injEq] at hact
      obtain ⟨hfault, rfl, rfl⟩ := hact
      exact herr _ e hfault nofun
  | late e d =>
      simp only [Option.ite_none_right_eq_some, Option.some.injEq, Prod.mk.injEq] at hact
      obtain ⟨hfault, rfl, rfl⟩ := hact
      exact herr _ e hfault nofun

/-- The local variables are read at once. -/
theorem watched_locals {Q : Except CommandExc Locals → Locals → Summary → Prop} (h : Q (.ok s) s m) :
    Watched Own calls locals Q s m := by
  refine Watched.memory fun s₁ d hown => ?_
  obtain rfl : s₁ = s := hown
  have hnext : calls.next m ⟨.memory, .ok d, none, s₁, s₁⟩ = m := by
    simp [calls, Summary.next]
  refine ⟨trivial, ?_⟩
  show Q (.ok s₁) s₁ (calls.next m ⟨.memory, .ok d, none, s₁, s₁⟩)
  rw [hnext]
  exact h

/-- The calls of the deadline block, other than `wait`. -/
def SdkCall.isPlain : SdkCall → Bool
  | start _ _ _ _ | disconnect | list | connect _ _ => true
  | _ => false

theorem next_plain {op : SdkCall} (hop : op.isPlain = true) {answer : Answer CommandExc Reply} {raised : Option CommandExc}
    {before after : Locals} :
    (calls.next m ⟨op, answer, raised, before, after⟩).cancelled = (m.cancelled || raised = some .cancelled) ∧
      (calls.next m ⟨op, answer, raised, before, after⟩).exits = m.exits ∧
      (calls.next m ⟨op, answer, raised, before, after⟩).strayExit = (m.strayExit || isExit raised) ∧
      (calls.next m ⟨op, answer, raised, before, after⟩).closing = m.closing := by
  cases op with
  | start | disconnect | list | connect => exact ⟨rfl, rfl, rfl, rfl⟩
  | wait | close | memory => cases hop

/-- One that raises ends the block. -/
theorem ending_plain (hm : Unsettled m) {op : SdkCall} (hop : op.isPlain = true) (answer : Answer CommandExc Reply)
    (e : CommandExc) {before after s' : Locals} :
    Ending s' (calls.next m ⟨op, answer, some e, before, after⟩) (.error e) := by
  obtain ⟨hcancelled, hexits, hstray, hclosing⟩ := @next_plain m op hop answer (some e) before after
  rw [hm.cancelled] at hcancelled
  rw [hm.exits] at hexits
  rw [hm.strayExit] at hstray
  rw [hm.closing] at hclosing
  cases e with
  | cancelled => exact .cancelled (by simpa using hcancelled) hclosing
  | exit result => exact .stray result (by simpa using hcancelled) (by simpa [isExit] using hstray) hclosing hexits
  | deadline | state | timeout | other =>
      exact .unknown _ (by simpa using hcancelled) (by simpa [isExit] using hstray) hclosing nofun nofun

/-- One that succeeds leaves the block unsettled. -/
theorem unsettled_plain (hm : Unsettled m) {op : SdkCall} (hop : op.isPlain = true) (answer : Answer CommandExc Reply)
    {before after : Locals} : Unsettled (calls.next m ⟨op, answer, none, before, after⟩) := by
  obtain ⟨hcancelled, hexits, hstray, hclosing⟩ := @next_plain m op hop answer none before after
  exact ⟨by rw [hcancelled, hm.cancelled]; rfl, hexits.trans hm.exits, by rw [hstray, hm.strayExit]; rfl,
    hclosing.trans hm.closing⟩

/-- A `wait` that raises anything else has observed nothing. -/
theorem next_wait_unknown {answer : Answer CommandExc Reply} {e : CommandExc} {before after : Locals}
    (hc : e ≠ .cancelled) (hx : ∀ result, e ≠ .exit result) :
    calls.next m ⟨.wait, answer, some e, before, after⟩ = m := by
  have hobserved : observedExit ⟨.wait, answer, some e, before, after⟩ = [] := by
    cases e with
    | exit result => exact absurd rfl (hx result)
    | cancelled | deadline | state | timeout | other => rfl
  cases m
  simp [calls, Summary.next, hobserved, hc]

theorem wait_raised (hm : Unsettled m) (answer : Answer CommandExc Reply) (e : CommandExc) {before after s' : Locals}
    (hhandle : s'.handle.isSome) :
    Ending s' (calls.next m ⟨.wait, answer, some e, before, after⟩) (.error e) := by
  by_cases hx : ∃ result, e = .exit result
  · obtain ⟨result, rfl⟩ := hx
    refine .failed result ?_ hm.strayExit hm.closing (List.mem_cons_self ..) hhandle
    simp [calls, Summary.next, hm.cancelled]
  · by_cases hc : e = .cancelled
    · subst hc
      exact .cancelled (by simp [calls, Summary.next]) hm.closing
    · have hx : ∀ result, e ≠ .exit result := fun result he => hx ⟨result, he⟩
      rw [next_wait_unknown hc hx]
      exact .unknown e hm.cancelled hm.strayExit hm.closing hc hx

/-- **`wait`** observes the exit, or it remains unknown. -/
theorem watched_wait (hm : Unsettled m) (hhandle : s.handle.isSome) :
    Watched Own calls wait (fun r s' m' => Ending s' m' r ∧ s'.handle = s.handle ∧
      ∀ e, r = .error e → e ≠ .cancelled → (∀ result, e ≠ .exit result) → m' = m) s m := by
  have hraised : ∀ answer e (received : Nat), calls.ok m ⟨.wait, answer, some e, s, { s with received }⟩ ∧
      Ending { s with received } (calls.next m ⟨.wait, answer, some e, s, { s with received }⟩) (.error e) ∧
      s.handle = s.handle ∧ ∀ e', (.error e : Except CommandExc CommandResult) = .error e' → e' ≠ .cancelled →
        (∀ result, e' ≠ .exit result) → calls.next m ⟨.wait, answer, some e, s, { s with received }⟩ = m := by
    intro answer e received
    refine ⟨trivial, wait_raised hm answer e hhandle, rfl, fun e' he' hc hx => ?_⟩
    obtain rfl := Except.error.inj he'
    exact next_wait_unknown hc hx
  intro s₁ hown answer r s₂ hact
  obtain rfl : s₁ = s := hown
  cases answer with
  | ok reply =>
      cases reply with
      | exited chunks result =>
          simp only at hact
          split at hact
          · simp only [Option.some.injEq, Prod.mk.injEq] at hact
            obtain ⟨rfl, rfl⟩ := hact
            refine ⟨trivial, .seen result ?_ hm.strayExit hm.closing (List.mem_cons_self ..) hhandle, rfl, nofun⟩
            simp [calls, Summary.next, hm.cancelled]
          · simp only [Option.some.injEq, Prod.mk.injEq] at hact
            obtain ⟨rfl, rfl⟩ := hact
            exact hraised _ _ _
      | handle | processes | closed => cases hact
  | lost e reply =>
      cases reply with
      | exited chunks result =>
          simp only at hact
          split at hact <;> simp only [Option.some.injEq, Prod.mk.injEq] at hact <;> obtain ⟨rfl, rfl⟩ := hact
          · exact hraised _ _ _
          · exact hraised _ _ _
      | handle | processes | closed => cases hact
  | fail e =>
      simp only [Option.some.injEq, Prod.mk.injEq] at hact
      obtain ⟨rfl, rfl⟩ := hact
      exact hraised (.fail e) e s₁.received
  | late e d => cases hact

/-- The block goes on after a call that succeeds, and ends with one that raises. -/
theorem watched_then {op : SdkCall} {set : Reply → Locals → Option (α × Locals)} {f : α → Running CommandResult}
    (hm : Unsettled m) (hop : op.isPlain = true)
    (hpermitted : ∀ answer raised after, Permitted m ⟨op, answer, raised, s, after⟩)
    (hf : ∀ reply a s', set reply s = some (a, s') → Watched Own calls (f a) (fun r s' m' => Ending s' m' r) s'
      (calls.next m ⟨op, .ok reply, none, s, s'⟩)) :
    Watched Own calls ((call anyFault op set).bind f) (fun r s' m' => Ending s' m' r) s m := by
  refine Watched.bind (P := fun r s' m' => match r with
    | .ok a => Watched Own calls (f a) (fun r s' m' => Ending s' m' r) s' m'
    | .error e => Ending s' m' (.error e)) (watched_call ?_ ?_) (fun _ _ _ h => h) fun _ _ _ h => h
  · exact fun reply a s' hset => ⟨hpermitted _ _ _, hf reply a s' hset⟩
  · exact fun answer e _ _ => ⟨hpermitted _ _ _, ending_plain hm hop answer e⟩

/-- The reconnect, after a process was started and nothing was seen of it. -/
theorem watched_reconnect (command cwd : String) (timeout : Nat) {pid : Nat} (hm : Unsettled m)
    (hhandle : s.handle = some pid) (hstarted : m.started = some pid) (hconnects : m.connects = 0) :
    Watched Own calls (reconnect command cwd timeout) (fun r s' m' => Ending s' m' r) s m := by
  refine Watched.bind (P := fun r s' m' => r = .ok s ∧ s = s' ∧ m = m') (watched_locals ⟨rfl, rfl, rfl⟩) ?_ ?_
  · rintro _ _ _ ⟨hs, rfl, rfl⟩
    obtain rfl := Except.ok.inj hs.symm
    rw [hhandle]
    refine watched_then hm rfl (fun _ _ _ => trivial) fun reply _ s₁ hset => ?_
    obtain ⟨rfl, rfl⟩ : reply = .closed ∧ s = s₁ := by
      cases reply <;> simp at hset
      exact ⟨rfl, hset⟩
    refine watched_then (unsettled_plain hm rfl _) rfl (fun _ _ _ => trivial) fun reply running s₂ hset => ?_
    obtain rfl : s = s₂ := by
      cases reply <;> simp at hset
      exact hset.2
    have hlisted : Unsettled (calls.next (calls.next m ⟨.disconnect, .ok .closed, none, s, s⟩)
        ⟨.list, .ok reply, none, s, s⟩) := unsettled_plain (unsettled_plain hm rfl _) rfl _
    split
    · exact .unknown _ hlisted.cancelled hlisted.strayExit hlisted.closing nofun nofun
    · refine watched_then hlisted rfl (fun _ _ _ => ⟨hconnects, hstarted⟩) fun reply _ s₃ hset => ?_
      have hconnected : s₃.handle.isSome = true := by
        cases reply <;> simp at hset
        rw [← hset]
        rfl
      exact (watched_wait (unsettled_plain hlisted rfl _) hconnected).mono fun _ _ _ h => h.1
  · rintro e s' m' ⟨h, _⟩
    cases h

/-- How `asyncio.timeout` ends: its own cancellation becomes a `TimeoutError`. -/
theorem Ending.convert {e : CommandExc} (h : Ending s m (.error e)) :
    Ending s m (.error (if e = .deadline then .timeout else e)) := by
  split
  · rename_i he
    subst he
    cases h with
    | unknown _ hcancelled hstray hclosing _ _ => exact .unknown _ hcancelled hstray hclosing nofun nofun
  · exact h

/-- **The deadline block** ends in one of the five ways, and its own deadline
does not escape. -/
theorem watched_observe (command cwd : String) (timeout : Nat) :
    Watched Own calls (observe command cwd timeout) (fun r s' m' => Ending s' m' r ∧ r ≠ .error .deadline) {} {} := by
  have hm : Unsettled {} := ⟨rfl, rfl, rfl, rfl⟩
  refine Watched.tryCatch (P := fun r s' m' => Ending s' m' r) ?_ (fun _ _ _ h => ⟨h, nofun⟩) fun e _ _ h => ?_
  · refine watched_then hm rfl (fun _ _ _ => rfl) fun reply _ s₁ hset => ?_
    cases reply with
    | handle pid =>
        simp only [Option.some.injEq, Prod.mk.injEq, true_and] at hset
        subst hset
        refine Watched.tryCatch (watched_wait (unsettled_plain hm rfl _) rfl) (fun _ _ _ h => h.1) ?_
        rintro e s' m' ⟨hending, hhandle, hsame⟩
        split
        · exact hending
        · exact hending
        · rename_i hexit hstate
          split
          · rename_i hexception
            have hc : e ≠ .cancelled := by
              rintro rfl
              cases hexception
            obtain rfl := hsame e rfl hc hexit
            exact watched_reconnect command cwd timeout (unsettled_plain hm rfl _) hhandle rfl rfl
          · exact hending
    | exited | processes | closed => simp at hset
  · refine ⟨h.convert, ?_⟩
    split
    · nofun
    · rename_i he
      exact fun hd => he (Except.error.inj hd)

/-! ## §5. The outcome. -/

/-- How the `except` clauses leave the outcome of the block. -/
inductive Classified (s : Locals) (m : Summary) : Except CommandExc CommandResult → Prop where
  | seen (result : CommandResult) : m.cancelled = false → m.strayExit = false → m.closing = none →
      result ∈ m.exits → s.handle.isSome → Classified s m (.ok result)
  | stray (result : CommandResult) : m.cancelled = false → m.strayExit = true → m.closing = none →
      m.exits = [] → Classified s m (.ok result)
  | cancelled : m.cancelled = true → m.closing = none → Classified s m (.error .cancelled)
  | unknown (message : String) : m.cancelled = false → m.strayExit = false → m.closing = none →
      Classified s m (.error (.state message))

theorem classified_of_ending {e : CommandExc} (h : Ending s m (.error e)) (hdeadline : e ≠ .deadline) :
    Watched Own calls (classify e) (fun r s' m' => Classified s' m' r) s m := by
  cases h with
  | failed result hcancelled hstray hclosing hexits hhandle => exact .seen result hcancelled hstray hclosing hexits hhandle
  | stray result hcancelled hstray hclosing hexits => exact .stray result hcancelled hstray hclosing hexits
  | cancelled hcancelled hclosing => exact .cancelled hcancelled hclosing
  | unknown _ hcancelled hstray hclosing hc hx =>
      cases e with
      | state | timeout | other => exact .unknown _ hcancelled hstray hclosing
      | cancelled => exact absurd rfl hc
      | deadline => exact absurd rfl hdeadline
      | exit result => exact absurd rfl (hx result)

theorem watched_classified (command cwd : String) (timeout : Nat) :
    Watched Own calls ((observe command cwd timeout).tryCatch classify) (fun r s' m' => Classified s' m' r) {} {} := by
  refine Watched.tryCatch (watched_observe command cwd timeout) ?_ ?_
  · rintro result s m ⟨h, _⟩
    cases h with
    | seen _ hcancelled hstray hclosing hexits hhandle => exact .seen result hcancelled hstray hclosing hexits hhandle
  · rintro e s m ⟨h, hdeadline⟩
    exact classified_of_ending h fun he => hdeadline (he ▸ rfl)

/-- A result comes from an observed exit, or there is a `CommandStateError`,
exactly in the orderly runs. -/
def Judged (r : Except CommandExc CommandReport) (m : Summary) : Prop := Reported m r ↔ Orderly m

/-- The outcome after the `finally` block raised nothing. -/
theorem judged_error {e : CommandExc} (h : Classified s m (.error e)) : Judged (.error e) m := by
  cases h with
  | cancelled hcancelled hclosing => exact ⟨fun _ => .inl hcancelled, fun _ => .inl hcancelled⟩
  | unknown message hcancelled hstray hclosing =>
      exact ⟨fun _ => .inr (.inr ⟨hclosing, hstray⟩), fun _ => .inr ⟨message, rfl⟩⟩

theorem judged_report {result : CommandResult} (h : Classified s m (.ok result)) :
    Watched Own calls (returnReport result) (fun r _ m => Judged r m) s m := by
  refine Watched.bind (P := fun r s' m' => r = .ok s ∧ m = m') (watched_locals ⟨rfl, rfl⟩) ?_ ?_
  · rintro _ s' _ ⟨hs, rfl⟩
    obtain rfl := Except.ok.inj hs.symm
    cases h with
    | seen _ hcancelled hstray hclosing hexits hhandle =>
        obtain ⟨pid, hpid⟩ := Option.isSome_iff_exists.mp hhandle
        rw [hpid]
        exact ⟨fun _ => .inr (.inr ⟨hclosing, hstray⟩), fun _ => ⟨result, hexits, rfl⟩⟩
    | stray _ hcancelled hstray hclosing hexits =>
        have hdisorderly : ¬ Orderly m := by
          simp [Orderly, hcancelled, hclosing, hstray]
        split
        · refine ⟨fun h => ?_, fun h => absurd h hdisorderly⟩
          simp [Reported, hcancelled] at h
        · refine ⟨fun h => ?_, fun h => absurd h hdisorderly⟩
          simp [Reported, hexits] at h
  · rintro e _ _ ⟨he, _⟩
    cases he

/-- The outcome when the `finally` block raises: its exception replaces it. -/
theorem judged_closing {answer : Answer CommandExc Reply} {e : CommandExc} {before after : Locals} :
    Judged (.error e) (calls.next m ⟨.close, answer, some e, before, after⟩) := by
  refine or_congr Iff.rfl ?_
  show (∃ message, e = .state message) ↔ (∃ message, some e = some (.state message)) ∨ (some e = none ∧ _)
  simp

/-- **The outcome of a command**, for whatever its calls did. -/
theorem watched_runCommand (command cwd : String) (timeout : Nat) :
    Watched Own calls (runCommand command cwd timeout) (fun r _ m => Judged r m) {} {} := by
  have hclosed : ∀ (r : Except CommandExc CommandResult) s m, Classified s m r →
      Watched Own calls closeHandle (fun r' s' m' => match r' with
        | .ok _ => Classified s' m' r
        | .error e => Judged (.error e) m') s m := by
    intro r s m h
    refine Watched.bind (P := fun r s' m' => r = .ok s ∧ s = s' ∧ m = m') (watched_locals ⟨rfl, rfl, rfl⟩) ?_ ?_
    · rintro _ _ _ ⟨hs, rfl, rfl⟩
      obtain rfl := Except.ok.inj hs.symm
      split
      · exact h
      · refine watched_call (fun reply _ s' hset => ⟨trivial, ?_⟩) fun answer e hfault _ => ⟨trivial, judged_closing⟩
        obtain rfl : s = s' := by
          cases reply <;> simp at hset
          exact hset
        have hclosing : m.closing = none := by
          cases h <;> assumption
        have hnext : calls.next m ⟨.close, .ok reply, none, s, s⟩ = m := by
          cases m
          simp_all [calls, Summary.next]
        rw [hnext]
        exact h
    · rintro e _ _ ⟨he, _⟩
      cases he
  refine Watched.bind (P := fun r s m => match r with
    | .ok result => Classified s m (.ok result)
    | .error e => Judged (.error e) m) ?_ (fun result s m h => ?_) fun _ _ _ h => h
  · refine Watched.onExit (watched_classified command cwd timeout) fun r s m h => (hclosed r s m h).mono ?_
    intro r' s' m' h'
    cases r' with
    | error e => exact h'
    | ok _ =>
        cases r with
        | ok result => exact h'
        | error e => exact judged_error h'
  · exact judged_report h

end Calls

/-! ## §6. Runs. -/

/-- **A reported exit was observed**, and every other outcome but a
cancellation is a `CommandStateError`, exactly in the orderly runs.  In every
run there is one start, and one reconnect to the process that was started. -/
theorem observed_exit_iff (command cwd : String) (timeout : Nat) {steps : List CommandStep} {s' : Locals}
    {rest : Running CommandReport} (h : Performs Own {} (runCommand command cwd timeout) steps s' rest) :
    (∀ pre st post, steps = pre ++ st :: post → Permitted (summary pre) st) ∧
      ∀ r, rest = .done r → (Reported (summary steps) r ↔ Orderly (summary steps)) := by
  have hwatched := watched_runCommand command cwd timeout
  refine ⟨hwatched.permitted h, ?_⟩
  rintro r rfl
  exact hwatched.performs h

/-- A build that exits with `1`; its exit is reported. -/
theorem observed_exit_iff_build : ∃ steps s' report,
    Performs Own {} (runCommand "npm run build" "/home/user/react-app" 60) steps s' (.done (.ok report)) ∧
      (Reported (summary steps) (.ok report) ↔ Orderly (summary steps)) ∧ report.exitCode = 1 := by
  have hrun : ∃ steps s' report, Co.perform [.ok (.handle 7), .fail (.exit ⟨1, [], []⟩), .ok .closed, .ok .closed,
      .ok .closed] (runCommand "npm run build" "/home/user/react-app" 60) {}
        = some (steps, s', .done (.ok report)) ∧ report.exitCode = 1 := ⟨_, _, _, rfl, rfl⟩
  obtain ⟨steps, s', report, hperform, hcode⟩ := hrun
  have htrace := Co.perform_performs (R := Own) (fun _ => rfl) _ hperform
  exact ⟨steps, s', report, htrace,
    (observed_exit_iff "npm run build" "/home/user/react-app" 60 htrace).2 _ rfl, hcode⟩

/-- The deadline cuts off the `wait`, and then the `disconnect` of the
`finally` block fails: an ordinary exception escapes, although the process
may still be running. -/
theorem unobserved_exit_escapes :
    ¬ ∀ (command cwd : String) (timeout : Nat) (steps : List CommandStep) (s' : Locals)
        (r : Except CommandExc CommandReport),
      Performs Own {} (runCommand command cwd timeout) steps s' (.done r) → Reported (summary steps) r := by
  intro hall
  have hrun : ∃ steps s', Co.perform [.ok (.handle 7), .fail .deadline, .ok .closed, .fail .other]
      (runCommand "npm run build" "/home/user/react-app" 60) {} = some (steps, s', .done (.error .other)) ∧
        (summary steps).cancelled = false := ⟨_, _, rfl, rfl⟩
  obtain ⟨steps, s', hperform, hcancelled⟩ := hrun
  have htrace := Co.perform_performs (R := Own) (fun _ => rfl) _ hperform
  rcases hall _ _ _ _ _ _ htrace with hc | ⟨message, hmessage⟩
  · rw [hcancelled] at hc
    cases hc
  · cases hmessage

end WebBuilder.Command
