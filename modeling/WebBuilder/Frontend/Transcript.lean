/-
  WebBuilder.Frontend.Transcript — run events on the chat transcript.

  `handleChatEvent.ts`.  The browser keeps one message for each run and
  applies run events to it: live ones one by one (`applyRunEvent`), and after
  a reconnect those of a snapshot (`restoreRuns`).  The stream of live events
  may start before the point the snapshot was taken at, so some events are
  applied twice.

  Main results:
    * `foldl_step_absorb` — a block of events that a run's message has already
      seen leaves the message as it is;
    * `reconnect_converges` — a reconnect at any point yields the message that
      the whole log yields, and touches no other message.

  Optional lists of the source (`activity?`, `tool_calls?`) are read as
  `… || []` everywhere, so they are plain lists here.
-/
import Mathlib.Tactic

namespace WebBuilder.Frontend

/-! ## §1. Messages and events. -/

inductive RunStatus where
  | running
  | succeeded
  | failed
  | cancelled
  | timedOut
  | interrupted
  deriving DecidableEq

/-- The status as it is spelled in messages. -/
def RunStatus.text : RunStatus → String
  | running => "running"
  | succeeded => "succeeded"
  | failed => "failed"
  | cancelled => "cancelled"
  | timedOut => "timed_out"
  | interrupted => "interrupted"

inductive CallStatus where
  | success
  | error
  | running
  deriving DecidableEq

/-- `details` and `checks` are `unknown`: their JSON text. -/
structure ToolCall where
  id : Option String
  name : String
  status : CallStatus
  output : Option String
  durationMs : Option Int
  details : Option String
  runId : Option String
  eventId : Option String
  deriving DecidableEq

inductive EventKind where
  | stage
  | verification
  | toolStarted
  | toolCompleted
  | runFinished
  | other (name : String)
  deriving DecidableEq

def EventKind.text : EventKind → String
  | stage => "stage"
  | verification => "verification"
  | toolStarted => "tool_started"
  | toolCompleted => "tool_completed"
  | runFinished => "run_finished"
  | other name => name

structure ActivityItem where
  id : String
  kind : EventKind
  createdAt : String
  message : Option String
  ok : Option Bool
  checks : Option String
  deriving DecidableEq

inductive Role where
  | user
  | assistant
  deriving DecidableEq

structure Message where
  id : String
  role : Role
  content : String
  createdAt : String
  eventType : Option String
  toolCalls : List ToolCall
  activity : List ActivityItem
  runStatus : Option RunStatus
  finishedAt : Option String
  deriving DecidableEq

structure RunEvent where
  kind : EventKind
  runId : String
  eventId : String
  createdAt : String
  name : Option String
  callId : Option String
  ok : Option Bool
  status : Option RunStatus
  message : Option String
  output : Option String
  details : Option String
  durationMs : Option Int
  checks : Option String
  deriving DecidableEq

structure RunSnapshot where
  id : String
  createdAt : Option String
  status : RunStatus
  reason : Option String
  events : List RunEvent
  deriving DecidableEq

/-! ## §2. `applyRunEvent`. -/

/-- A string that is neither missing nor empty. -/
def truthy (s : Option String) : Option String := s.filter (· ≠ "")

def runMessageId (runId : String) : String := "run:" ++ runId

def RunEvent.activityId (event : RunEvent) : String :=
  (truthy (some event.eventId)).getD
    (event.kind.text ++ ":" ++ event.createdAt ++ ":" ++ event.message.getD "undefined")

def RunEvent.isActivity (event : RunEvent) : Bool :=
  event.kind = .stage || event.kind = .verification

/-- The event changes nothing: an activity or a start that is already there,
or a tool event without a call id. -/
def RunEvent.skips (event : RunEvent) (existing : Option Message) : Bool :=
  match event.kind with
  | .stage | .verification => existing.any fun m => m.activity.any fun item => item.id = event.activityId
  | .toolStarted =>
      match truthy event.callId with
      | none => true
      | some callId => existing.any fun m => m.toolCalls.any fun call => call.id = some callId
  | .toolCompleted => (truthy event.callId).isNone
  | _ => false

def RunEvent.blank (event : RunEvent) : Message where
  id := runMessageId event.runId
  role := .assistant
  content := ""
  createdAt := event.createdAt
  eventType := some "run"
  toolCalls := []
  activity := []
  runStatus := some .running
  finishedAt := none

def RunEvent.call (event : RunEvent) : ToolCall where
  id := event.callId
  name := (truthy event.name).getD "Tool"
  status := if event.kind = .toolStarted then .running
    else if event.ok = some true then .success else .error
  output := event.output
  details := event.details
  durationMs := event.durationMs
  runId := some event.runId
  eventId := some event.eventId

def RunEvent.activity (event : RunEvent) : ActivityItem :=
  ⟨event.activityId, event.kind, event.createdAt, event.message, event.ok, event.checks⟩

/-- `calls[toolIndex] = call`, or `calls.push(call)` when no call has its id. -/
def overwrite : List ToolCall → ToolCall → List ToolCall
  | [], call => [call]
  | c :: cs, call => if c.id = call.id then call :: cs else c :: overwrite cs call

/-- A call that is still running when its run ends. -/
def ToolCall.abandon (call : ToolCall) : ToolCall :=
  if call.status = .running then
    { call with status := .error, output := some "Run ended before this operation completed." }
  else call

/-- What an event that is not skipped does to the message of its run. -/
def RunEvent.applyTo (event : RunEvent) (m : Message) : Message :=
  match event.kind with
  | .toolStarted | .toolCompleted => { m with toolCalls := overwrite m.toolCalls event.call }
  | .stage | .verification => { m with activity := m.activity ++ [event.activity] }
  | .runFinished =>
      { m with
        content := (truthy event.message).getD m.content
        runStatus := some (event.status.getD .interrupted)
        finishedAt := some event.createdAt
        toolCalls := m.toolCalls.map ToolCall.abandon }
  | .other _ => { m with content := (truthy event.message).getD m.content }

def applyRunEvent (messages : List Message) (event : RunEvent) : List Message :=
  if event.runId = "" then messages
  else
    let id := runMessageId event.runId
    let existing := messages.find? fun m => m.id = id
    if event.skips existing then messages
    else
      let message := event.applyTo (existing.getD event.blank)
      match existing with
      | some _ => messages.map fun m => if m.id = id then message else m
      | none => messages ++ [message]

/-! ## §3. `restoreRuns`. -/

/-- The terminal event that a snapshot implies when its log lacks one. -/
def RunSnapshot.terminal (run : RunSnapshot) (epoch : String) : RunEvent where
  kind := .runFinished
  runId := run.id
  eventId := run.id ++ ":terminal"
  createdAt := (truthy (run.events.getLast?.map RunEvent.createdAt)).getD
    ((truthy run.createdAt).getD epoch)
  name := none
  callId := none
  ok := none
  status := some run.status
  message := some ((truthy run.reason).getD ("Run " ++ run.status.text))
  output := none
  details := none
  durationMs := none
  checks := none

def RunSnapshot.hasFinish (run : RunSnapshot) : Bool :=
  run.events.any fun event => event.kind = .runFinished

/-- One round of the loop of `restoreRuns`. -/
def restoreRun (messages : List Message) (run : RunSnapshot) : List Message :=
  let result := run.events.foldl applyRunEvent messages
  if run.status ≠ .running && !run.hasFinish then
    (applyRunEvent result (run.terminal "1970-01-01T00:00:00.000Z")).map fun m =>
      if m.id = runMessageId run.id then { m with finishedAt := none } else m
  else result

/-- `Date.parse`, with `none` for `NaN`; the comparator treats `NaN` as equal. -/
def notAfter (dateParse : String → Option Int) (a b : Message) : Bool :=
  match dateParse a.createdAt, dateParse b.createdAt with
  | some x, some y => x ≤ y
  | _, _ => true

def restoreRuns (dateParse : String → Option Int) (messages : List Message)
    (runs : List RunSnapshot) : List Message :=
  (runs.foldl restoreRun messages).mergeSort (notAfter dateParse)

/-! ## §4. The message of one run. -/

/-- What an event of the run does to the run's message. -/
def step (existing : Option Message) (event : RunEvent) : Option Message :=
  if event.skips existing then existing
  else some (event.applyTo (existing.getD event.blank))

/-- `step` on a message that exists. -/
def act (m : Message) (event : RunEvent) : Message :=
  if event.skips (some m) then m else event.applyTo m

theorem step_some (m : Message) (event : RunEvent) : step (some m) event = some (act m event) := by
  unfold step act
  split <;> rfl

theorem foldl_step_some (m : Message) (events : List RunEvent) :
    events.foldl step (some m) = some (events.foldl act m) := by
  induction events generalizing m with
  | nil => rfl
  | cons e es ih =>
      rw [List.foldl_cons, List.foldl_cons, step_some, ih]

/-- While there is no message, every event was skipped. -/
theorem foldl_step_none : ∀ {events : List RunEvent} {o : Option Message},
    events.foldl step o = none → o = none ∧ ∀ e ∈ events, e.skips none = true
  | [], o, h => ⟨h, by simp⟩
  | e :: es, o, h => by
      obtain ⟨hstep, hes⟩ := @foldl_step_none es _ h
      unfold step at hstep
      split at hstep
      · rename_i hskip
        subst hstep
        refine ⟨rfl, fun x hx => ?_⟩
        rcases List.mem_cons.mp hx with rfl | hx
        · exact hskip
        · exact hes x hx
      · cases hstep

theorem foldl_step_skips {events : List RunEvent} (h : ∀ e ∈ events, e.skips none = true) :
    events.foldl step none = none := by
  induction events with
  | nil => rfl
  | cons e es ih =>
      have he : step none e = none := by
        unfold step
        rw [if_pos (h e List.mem_cons_self)]
      rw [List.foldl_cons, he]
      exact ih fun x hx => h x (List.mem_cons_of_mem e hx)

/-! ## §5. The parts of a message, one event at a time. -/

/-- The text that an event writes into the message. -/
def RunEvent.content? (event : RunEvent) : Option String :=
  match event.kind with
  | .runFinished | .other _ => truthy event.message
  | _ => none

theorem act_content (m : Message) (event : RunEvent) :
    (act m event).content = (event.content?).getD m.content := by
  unfold act
  by_cases hs : event.skips (some m) = true
  · rw [if_pos hs]
    -- what is skipped has no text of its own
    have hnone : event.content? = none := by
      unfold RunEvent.skips at hs
      unfold RunEvent.content?
      cases hk : event.kind <;> simp [hk] at hs ⊢
    rw [hnone]
    rfl
  · rw [if_neg hs]
    unfold RunEvent.applyTo RunEvent.content?
    cases event.kind <;> rfl

theorem act_frame (m : Message) (event : RunEvent) :
    (act m event).id = m.id ∧ (act m event).role = m.role ∧
      (act m event).createdAt = m.createdAt ∧ (act m event).eventType = m.eventType := by
  unfold act RunEvent.applyTo
  split
  · exact ⟨rfl, rfl, rfl, rfl⟩
  · cases event.kind <;> exact ⟨rfl, rfl, rfl, rfl⟩

theorem act_activity (m : Message) (event : RunEvent) :
    (act m event).activity =
      if event.isActivity = true ∧ ∀ item ∈ m.activity, item.id ≠ event.activityId then
        m.activity ++ [event.activity]
      else m.activity := by
  unfold act
  by_cases hs : event.skips (some m) = true
  · rw [if_pos hs, if_neg]
    rintro ⟨hkind, hno⟩
    unfold RunEvent.skips at hs
    unfold RunEvent.isActivity at hkind
    cases hk : event.kind <;> simp [hk] at hs hkind
    all_goals
      obtain ⟨item, hmem, hid⟩ := hs
      exact hno item hmem hid
  · rw [if_neg hs]
    unfold RunEvent.skips at hs
    unfold RunEvent.applyTo RunEvent.isActivity
    cases hk : event.kind <;> simp [hk] at hs ⊢
    all_goals
      intro item hmem hid
      exact absurd hid (hs item hmem)

/-- The call that an event starts or completes. -/
def RunEvent.callId? (event : RunEvent) : Option String :=
  match event.kind with
  | .toolStarted | .toolCompleted => truthy event.callId
  | _ => none

/-- The event starts a call that the list already has. -/
def RunEvent.restarts (event : RunEvent) (calls : List ToolCall) : Prop :=
  event.kind = .toolStarted ∧ ∃ call ∈ calls, call.id = event.callId?

theorem callId?_some {event : RunEvent} {callId : String} (h : event.callId? = some callId) :
    event.callId = some callId ∧ (event.kind = .toolStarted ∨ event.kind = .toolCompleted) := by
  unfold RunEvent.callId? truthy at h
  cases hk : event.kind <;> simp [hk, Option.filter_eq_some_iff] at h
  · exact ⟨h.1, .inl rfl⟩
  · exact ⟨h.1, .inr rfl⟩

theorem act_calls_none {m : Message} {event : RunEvent} (h : event.callId? = none) :
    (act m event).toolCalls =
      if event.kind = .runFinished then m.toolCalls.map ToolCall.abandon else m.toolCalls := by
  unfold act RunEvent.skips RunEvent.applyTo
  unfold RunEvent.callId? at h
  cases hk : event.kind <;> simp [hk] at h ⊢
  · split <;> rfl
  · split <;> rfl
  · simp [h]
  · simp [h]

theorem act_calls_some {m : Message} {event : RunEvent} {callId : String}
    (h : event.callId? = some callId) :
    (event.restarts m.toolCalls → (act m event).toolCalls = m.toolCalls) ∧
      (¬ event.restarts m.toolCalls →
        (act m event).toolCalls = overwrite m.toolCalls event.call) := by
  have hid := (callId?_some h).1
  have hskip : event.skips (some m) = true ↔ event.restarts m.toolCalls := by
    unfold RunEvent.skips RunEvent.restarts
    rw [h]
    unfold RunEvent.callId? at h
    cases hk : event.kind <;> simp [hk] at h ⊢ <;> simp [h]
  unfold act
  refine ⟨fun hr => by rw [if_pos (hskip.mpr hr)], fun hr => ?_⟩
  rw [if_neg (fun hs => hr (hskip.mp hs))]
  unfold RunEvent.applyTo
  rcases (callId?_some h).2 with hk | hk <;> simp only [hk]

theorem act_finish (m : Message) (event : RunEvent) :
    (act m event).runStatus
        = (if event.kind = .runFinished then some (event.status.getD .interrupted) else m.runStatus) ∧
      (act m event).finishedAt
        = (if event.kind = .runFinished then some event.createdAt else m.finishedAt) := by
  unfold act
  by_cases hs : event.skips (some m) = true
  · have hk : event.kind ≠ .runFinished := by
      intro hk
      simp [RunEvent.skips, hk] at hs
    rw [if_pos hs, if_neg hk, if_neg hk]
    exact ⟨rfl, rfl⟩
  · rw [if_neg hs]
    unfold RunEvent.applyTo
    cases event.kind <;> exact ⟨rfl, rfl⟩

/-! ## §6. Lists of calls. -/

def callIds (calls : List ToolCall) : List (Option String) := calls.map ToolCall.id

theorem mem_callIds {calls : List ToolCall} {id : Option String} :
    id ∈ callIds calls ↔ ∃ call ∈ calls, call.id = id := by
  simp [callIds]

theorem callIds_overwrite_mem {calls : List ToolCall} {call : ToolCall}
    (h : call.id ∈ callIds calls) : callIds (overwrite calls call) = callIds calls := by
  induction calls with
  | nil => cases h
  | cons c cs ih =>
      unfold overwrite
      by_cases hc : c.id = call.id
      · rw [if_pos hc]
        simp [callIds, hc]
      · rw [if_neg hc]
        have hmem : call.id ∈ callIds cs := by
          rcases List.mem_cons.mp h with h | h
          · exact absurd h.symm hc
          · exact h
        show c.id :: callIds (overwrite cs call) = c.id :: callIds cs
        rw [ih hmem]

theorem callIds_overwrite_new {calls : List ToolCall} {call : ToolCall}
    (h : call.id ∉ callIds calls) : overwrite calls call = calls ++ [call] := by
  induction calls with
  | nil => rfl
  | cons c cs ih =>
      unfold overwrite
      have hc : c.id ≠ call.id := fun hc => h (by simp [callIds, hc])
      have hmem : call.id ∉ callIds cs := fun hm => h (List.mem_cons_of_mem _ hm)
      rw [if_neg hc, ih hmem]
      rfl

/-- The call with this id. -/
def findCall (calls : List ToolCall) (id : Option String) : Option ToolCall :=
  calls.find? fun call => call.id = id

theorem findCall_overwrite (calls : List ToolCall) (call : ToolCall) (id : Option String) :
    findCall (overwrite calls call) id = if call.id = id then some call else findCall calls id := by
  induction calls with
  | nil => simp [overwrite, findCall]
  | cons c cs ih =>
      unfold overwrite
      unfold findCall at ih ⊢
      by_cases hc : c.id = call.id
      · rw [if_pos hc, List.find?_cons, List.find?_cons, hc]
        by_cases hid : call.id = id <;> simp [hid]
      · rw [if_neg hc, List.find?_cons, List.find?_cons, ih]
        by_cases hcid : c.id = id
        · have hne : call.id ≠ id := fun h => hc (hcid.trans h.symm)
          simp [hcid, hne]
        · simp [hcid]

@[simp] theorem abandon_id (call : ToolCall) : call.abandon.id = call.id := by
  unfold ToolCall.abandon
  split <;> rfl

theorem callIds_abandon (calls : List ToolCall) :
    callIds (calls.map ToolCall.abandon) = callIds calls := by
  simp [callIds]

theorem findCall_abandon (calls : List ToolCall) (id : Option String) :
    findCall (calls.map ToolCall.abandon) id = (findCall calls id).map ToolCall.abandon := by
  unfold findCall
  rw [List.find?_map]
  simp only [Function.comp_def, abandon_id]

/-- Lists with the same ids in the same order and the same call for each id
are the same. -/
theorem eq_of_findCall : ∀ {xs ys : List ToolCall}, callIds xs = callIds ys →
    (callIds xs).Nodup → (∀ id ∈ callIds xs, findCall xs id = findCall ys id) → xs = ys
  | [], [], _, _, _ => rfl
  | [], y :: ys, h, _, _ => by cases h
  | x :: xs, [], h, _, _ => by cases h
  | x :: xs, y :: ys, hids, hnd, hfind => by
      have hid : x.id = y.id := (List.cons.inj hids).1
      have htail : callIds xs = callIds ys := (List.cons.inj hids).2
      have hnd' := List.nodup_cons.mp hnd
      have hhead := hfind x.id List.mem_cons_self
      have hxy : x = y := by
        simpa [findCall, List.find?_cons, hid] using hhead
      subst hxy
      rw [eq_of_findCall htail hnd'.2 fun id hmem => ?_]
      have hne : x.id ≠ id := fun h => hnd'.1 (h ▸ hmem)
      have := hfind id (List.mem_cons_of_mem _ hmem)
      simpa [findCall, List.find?_cons, hne] using this

/-! ## §7. A block of events that a message has already seen. -/

/-- `run_finished` comes last, if at all. -/
def FinishLast (events : List RunEvent) : Prop := ∀ e ∈ events.dropLast, e.kind ≠ .runFinished

instance (events : List RunEvent) : Decidable (FinishLast events) :=
  inferInstanceAs (Decidable (∀ e ∈ events.dropLast, e.kind ≠ .runFinished))

theorem finishLast_append {events : List RunEvent} {e : RunEvent} (h : FinishLast (events ++ [e])) :
    ∀ x ∈ events, x.kind ≠ .runFinished := by
  unfold FinishLast at h
  rwa [List.dropLast_concat] at h

theorem finishLast_of_forall {events : List RunEvent} (h : ∀ x ∈ events, x.kind ≠ .runFinished) :
    FinishLast events := fun e he => h e (List.dropLast_subset _ he)

theorem finishLast_parts {xs ys : List RunEvent} (h : FinishLast (xs ++ ys)) :
    FinishLast xs ∧ FinishLast ys := by
  unfold FinishLast at h ⊢
  rw [List.dropLast_append] at h
  cases ys with
  | nil => exact ⟨h, by simp⟩
  | cons y ys =>
      refine ⟨fun e he => h e ?_, fun e he => h e (List.mem_append_right xs he)⟩
      exact List.mem_append_left _ (List.dropLast_subset _ he)

def lastContent (events : List RunEvent) : Option String :=
  events.reverse.findSome? RunEvent.content?

/-- The last completion of a call. -/
def lastCompletion (events : List RunEvent) (callId : String) : Option RunEvent :=
  events.reverse.find? fun e => e.kind = .toolCompleted ∧ e.callId? = some callId

theorem lastContent_append (events : List RunEvent) (e : RunEvent) :
    lastContent (events ++ [e]) = e.content?.or (lastContent events) := by
  unfold lastContent
  rw [List.reverse_append, List.reverse_singleton, List.singleton_append, List.findSome?_cons]
  cases e.content? <;> rfl

theorem lastCompletion_append (events : List RunEvent) (e : RunEvent) (callId : String) :
    lastCompletion (events ++ [e]) callId =
      if e.kind = .toolCompleted ∧ e.callId? = some callId then some e
      else lastCompletion events callId := by
  unfold lastCompletion
  rw [List.reverse_append, List.reverse_singleton, List.singleton_append, List.find?_cons]
  by_cases h : e.kind = .toolCompleted ∧ e.callId? = some callId
  · simp [h]
  · simp only [h, decide_false, if_false]

theorem lastCompletion_some {events : List RunEvent} {callId : String} {e : RunEvent}
    (h : lastCompletion events callId = some e) :
    e ∈ events ∧ e.kind = .toolCompleted ∧ e.callId? = some callId := by
  unfold lastCompletion at h
  have hmem := List.mem_of_find?_eq_some h
  have hprop := List.find?_some h
  exact ⟨List.mem_reverse.mp hmem, by simpa using hprop⟩

/-- What the message of a run keeps of the events it has seen. -/
structure Seen (m : Message) (events : List RunEvent) : Prop where
  nodup : (callIds m.toolCalls).Nodup
  content : ∀ text, lastContent events = some text → m.content = text
  activity : ∀ e ∈ events, e.isActivity = true → ∃ item ∈ m.activity, item.id = e.activityId
  called : ∀ e ∈ events, ∀ callId, e.callId? = some callId → some callId ∈ callIds m.toolCalls
  completed : ∀ callId e, lastCompletion events callId = some e →
    findCall m.toolCalls (some callId) = some e.call
  finished : ∀ e ∈ events, e.kind = .runFinished →
    m.runStatus = some (e.status.getD .interrupted) ∧ m.finishedAt = some e.createdAt ∧
      m.toolCalls.map ToolCall.abandon = m.toolCalls

theorem overwrite_nodup {calls : List ToolCall} {call : ToolCall} (h : (callIds calls).Nodup) :
    (callIds (overwrite calls call)).Nodup := by
  by_cases hmem : call.id ∈ callIds calls
  · rw [callIds_overwrite_mem hmem]
    exact h
  · rw [callIds_overwrite_new hmem]
    have hids : callIds (calls ++ [call]) = callIds calls ++ [call.id] := by simp [callIds]
    rw [hids]
    exact List.nodup_append.mpr ⟨h, List.nodup_singleton _, by
      intro a ha b hb
      rw [List.mem_singleton.mp hb]
      exact fun hab => hmem (hab ▸ ha)⟩

theorem callIds_overwrite_subset {calls : List ToolCall} {call : ToolCall} :
    callIds calls ⊆ callIds (overwrite calls call) ∧ call.id ∈ callIds (overwrite calls call) := by
  by_cases hmem : call.id ∈ callIds calls
  · rw [callIds_overwrite_mem hmem]
    exact ⟨fun _ h => h, hmem⟩
  · rw [callIds_overwrite_new hmem]
    constructor
    · intro id h
      rw [mem_callIds] at h ⊢
      obtain ⟨c, hc, hid⟩ := h
      exact ⟨c, List.mem_append_left _ hc, hid⟩
    · rw [mem_callIds]
      exact ⟨call, by simp, rfl⟩

/-- What an event does to the calls of a message: nothing, one call, or the
end of all that are running. -/
theorem act_calls_cases (m : Message) (e : RunEvent) :
    (e.kind ≠ .runFinished ∧ (act m e).toolCalls = m.toolCalls ∧
        (∀ callId, e.callId? = some callId →
          e.kind = .toolStarted ∧ some callId ∈ callIds m.toolCalls)) ∨
      (∃ callId, e.callId? = some callId ∧ e.call.id = some callId ∧
        (act m e).toolCalls = overwrite m.toolCalls e.call ∧ e.kind ≠ .runFinished ∧
        (e.kind = .toolStarted → some callId ∉ callIds m.toolCalls)) ∨
      (e.kind = .runFinished ∧ e.callId? = none ∧
        (act m e).toolCalls = m.toolCalls.map ToolCall.abandon) := by
  cases hc : e.callId? with
  | none =>
      have hcalls := act_calls_none (m := m) hc
      by_cases hk : e.kind = .runFinished
      · rw [if_pos hk] at hcalls
        exact .inr (.inr ⟨hk, rfl, hcalls⟩)
      · rw [if_neg hk] at hcalls
        exact .inl ⟨hk, hcalls, by simp⟩
  | some callId =>
      obtain ⟨hid, hkind⟩ := callId?_some hc
      have hk : e.kind ≠ .runFinished := by rcases hkind with h | h <;> simp [h]
      obtain ⟨hskip, hover⟩ := act_calls_some (m := m) hc
      by_cases hr : e.restarts m.toolCalls
      · refine .inl ⟨hk, hskip hr, ?_⟩
        rintro callId' ⟨⟩
        exact ⟨hr.1, mem_callIds.mpr (hc ▸ hr.2)⟩
      · refine .inr (.inl ⟨callId, rfl, hid, hover hr, hk, ?_⟩)
        intro hs hmem
        exact hr ⟨hs, hc ▸ mem_callIds.mp hmem⟩

theorem call_not_running {e : RunEvent} (h : e.kind = .toolCompleted) : e.call.abandon = e.call := by
  have hne : e.call.status ≠ .running := by
    unfold RunEvent.call
    simp only [h, reduceCtorEq, if_false]
    split <;> simp
  unfold ToolCall.abandon
  rw [if_neg hne]

/-- **One more event is seen.** -/
theorem Seen.snoc {m : Message} {events : List RunEvent} (h : Seen m events) (e : RunEvent)
    (hfin : ∀ x ∈ events, x.kind ≠ .runFinished) : Seen (act m e) (events ++ [e]) := by
  have hmem : ∀ x, x ∈ events ++ [e] ↔ x ∈ events ∨ x = e := by simp
  constructor
  · -- the ids stay distinct
    rcases act_calls_cases m e with ⟨_, hcalls, _⟩ | ⟨_, _, _, hcalls, _⟩ | ⟨_, _, hcalls⟩ <;> rw [hcalls]
    · exact h.nodup
    · exact overwrite_nodup h.nodup
    · rw [callIds_abandon]
      exact h.nodup
  · intro text htext
    rw [lastContent_append] at htext
    rw [act_content]
    cases hc : e.content? with
    | some t =>
        rw [hc] at htext
        exact Option.some.inj htext
    | none =>
        rw [hc] at htext
        exact h.content text htext
  · intro x hx hact
    rw [act_activity]
    by_cases hnew : e.isActivity = true ∧ ∀ item ∈ m.activity, item.id ≠ e.activityId
    · rw [if_pos hnew]
      rcases (hmem x).mp hx with hx | rfl
      · obtain ⟨item, hitem, hid⟩ := h.activity x hx hact
        exact ⟨item, List.mem_append_left _ hitem, hid⟩
      · exact ⟨x.activity, by simp, rfl⟩
    · rw [if_neg hnew]
      rcases (hmem x).mp hx with hx | rfl
      · exact h.activity x hx hact
      · by_contra hno
        refine hnew ⟨hact, fun item hitem hid => hno ⟨item, hitem, hid⟩⟩
  · intro x hx callId hcall
    rcases act_calls_cases m e with ⟨_, hcalls, hpresent⟩ | ⟨c, hc, hid, hcalls, _⟩ | ⟨_, hnone, hcalls⟩ <;>
      rw [hcalls]
    · rcases (hmem x).mp hx with hx | rfl
      · exact h.called x hx callId hcall
      · exact (hpresent callId hcall).2
    · rcases (hmem x).mp hx with hx | rfl
      · exact callIds_overwrite_subset.1 (h.called x hx callId hcall)
      · rw [hc] at hcall
        exact hcall ▸ hid ▸ callIds_overwrite_subset.2
    · rw [callIds_abandon]
      rcases (hmem x).mp hx with hx | rfl
      · exact h.called x hx callId hcall
      · rw [hnone] at hcall
        cases hcall
  · intro callId x hlast
    rw [lastCompletion_append] at hlast
    rcases act_calls_cases m e with ⟨_, hcalls, hpresent⟩ | ⟨c, hc, hid, hcalls, _, hstart⟩ | ⟨hk, _, hcalls⟩ <;>
      rw [hcalls]
    · rw [if_neg] at hlast
      · exact h.completed callId x hlast
      · rintro ⟨hk, hcall⟩
        exact absurd ((hpresent callId hcall).1.symm.trans hk) (by simp)
    · rw [findCall_overwrite, hid]
      by_cases hcc : c = callId
      · subst hcc
        rw [if_pos rfl]
        by_cases hk : e.kind = .toolCompleted
        · rw [if_pos ⟨hk, hc⟩] at hlast
          rw [Option.some.inj hlast]
        · -- a start of a call that was completed before would have been skipped
          rw [if_neg (fun hh => hk hh.1)] at hlast
          have hk' : e.kind = .toolStarted := (callId?_some hc).2.resolve_right hk
          have hseen := lastCompletion_some hlast
          exact absurd (h.called x hseen.1 c hseen.2.2) (hstart hk')
      · rw [if_neg (fun hh => hcc (Option.some.inj hh))]
        rw [if_neg] at hlast
        · exact h.completed callId x hlast
        · rintro ⟨_, hcall⟩
          rw [hc] at hcall
          exact hcc (Option.some.inj hcall)
    · rw [if_neg (by simp [hk])] at hlast
      rw [findCall_abandon, h.completed callId x hlast, Option.map_some,
        call_not_running (lastCompletion_some hlast).2.1]
  · intro x hx hk
    have hxe : x = e := ((hmem x).mp hx).resolve_left fun hx => hfin x hx hk
    subst hxe
    obtain ⟨hstatus, hat⟩ := act_finish m x
    rw [hstatus, hat, if_pos hk, if_pos hk]
    refine ⟨rfl, rfl, ?_⟩
    have hnone : x.callId? = none := by simp [RunEvent.callId?, hk]
    rw [act_calls_none hnone, if_pos hk, List.map_map]
    refine List.map_congr_left fun call _ => ?_
    show call.abandon.abandon = call.abandon
    unfold ToolCall.abandon
    by_cases hr : call.status = .running
    · simp [hr]
    · simp [hr]

/-- A run's message has seen the events that were applied to it. -/
theorem seen_foldl (m : Message) (hm : (callIds m.toolCalls).Nodup) (events : List RunEvent)
    (hfin : FinishLast events) : Seen (events.foldl act m) events := by
  induction events using List.reverseRecOn with
  | nil =>
      constructor <;> simp_all [lastContent, lastCompletion]
  | append_singleton es e ih =>
      have hno := finishLast_append hfin
      rw [List.foldl_append]
      exact (ih (finishLast_of_forall hno)).snoc e hno

/-- Events without an end, all of whose calls the message has: the order of
the calls stays, and the last completion of each wins. -/
theorem foldl_act_calls (m : Message) (events : List RunEvent)
    (hcalled : ∀ e ∈ events, ∀ callId, e.callId? = some callId → some callId ∈ callIds m.toolCalls)
    (hfin : ∀ e ∈ events, e.kind ≠ .runFinished) :
    callIds (events.foldl act m).toolCalls = callIds m.toolCalls ∧
      findCall (events.foldl act m).toolCalls none = findCall m.toolCalls none ∧
      ∀ callId, findCall (events.foldl act m).toolCalls (some callId)
        = ((lastCompletion events callId).map RunEvent.call).or (findCall m.toolCalls (some callId)) := by
  induction events using List.reverseRecOn with
  | nil => exact ⟨rfl, rfl, fun callId => by simp [lastCompletion]⟩
  | append_singleton es e ih =>
      obtain ⟨hids, hnone, hfind⟩ := ih (fun x hx => hcalled x (List.mem_append_left _ hx))
        fun x hx => hfin x (List.mem_append_left _ hx)
      have hek : e.kind ≠ .runFinished := hfin e (by simp)
      rw [List.foldl_append]
      show callIds (act (es.foldl act m) e).toolCalls = _ ∧
        findCall (act (es.foldl act m) e).toolCalls none = _ ∧ _
      rcases act_calls_cases (es.foldl act m) e with
        ⟨_, hcalls, hstart⟩ | ⟨c, hc, hid, hcalls, _, hnew⟩ | ⟨hk, _⟩
      · refine ⟨by rw [hcalls, hids], by rw [hcalls, hnone], fun callId => ?_⟩
        show findCall (act (es.foldl act m) e).toolCalls _ = _
        rw [hcalls, hfind, lastCompletion_append, if_neg]
        rintro ⟨hk, hcall⟩
        exact absurd ((hstart callId hcall).1.symm.trans hk) (by simp)
      · have hpresent : some c ∈ callIds (es.foldl act m).toolCalls := by
          rw [hids]
          exact hcalled e (by simp) c hc
        -- the call is there, so only a completion gets here
        have hk : e.kind = .toolCompleted :=
          (callId?_some hc).2.resolve_left fun hs => hnew hs hpresent
        refine ⟨?_, ?_, fun callId => ?_⟩
        · rw [hcalls, callIds_overwrite_mem (by rw [hid]; exact hpresent), hids]
        · rw [hcalls, findCall_overwrite, hid, if_neg (by simp), hnone]
        · show findCall (act (es.foldl act m) e).toolCalls _ = _
          rw [hcalls, findCall_overwrite, hid, lastCompletion_append, hc]
          by_cases hcc : c = callId
          · subst hcc
            simp [hk]
          · simp [hcc, hfind]
      · exact absurd hk hek

theorem foldl_act_content (m : Message) (events : List RunEvent) :
    (events.foldl act m).content = (lastContent events).getD m.content := by
  induction events using List.reverseRecOn with
  | nil => rfl
  | append_singleton es e ih =>
      rw [List.foldl_append, lastContent_append]
      show (act (es.foldl act m) e).content = _
      rw [act_content, ih]
      cases e.content? <;> rfl

theorem foldl_act_activity : ∀ (m : Message) (events : List RunEvent),
    (∀ e ∈ events, e.isActivity = true → ∃ item ∈ m.activity, item.id = e.activityId) →
      (events.foldl act m).activity = m.activity
  | m, [], _ => rfl
  | m, e :: es, h => by
      have he : (act m e).activity = m.activity := by
        rw [act_activity, if_neg]
        rintro ⟨hact, hno⟩
        obtain ⟨item, hitem, hid⟩ := h e List.mem_cons_self hact
        exact hno item hitem hid
      rw [List.foldl_cons, foldl_act_activity (act m e) es, he]
      intro x hx hact
      rw [he]
      exact h x (List.mem_cons_of_mem e hx) hact

theorem foldl_act_frame (m : Message) (events : List RunEvent) :
    (events.foldl act m).id = m.id ∧ (events.foldl act m).role = m.role ∧
      (events.foldl act m).createdAt = m.createdAt ∧
      (events.foldl act m).eventType = m.eventType := by
  induction events generalizing m with
  | nil => exact ⟨rfl, rfl, rfl, rfl⟩
  | cons e es ih =>
      obtain ⟨h1, h2, h3, h4⟩ := ih (act m e)
      obtain ⟨g1, g2, g3, g4⟩ := act_frame m e
      exact ⟨h1.trans g1, h2.trans g2, h3.trans g3, h4.trans g4⟩

theorem foldl_act_status (m : Message) (events : List RunEvent)
    (hfin : ∀ e ∈ events, e.kind ≠ .runFinished) :
    (events.foldl act m).runStatus = m.runStatus ∧ (events.foldl act m).finishedAt = m.finishedAt := by
  induction events generalizing m with
  | nil => exact ⟨rfl, rfl⟩
  | cons e es ih =>
      obtain ⟨h1, h2⟩ := ih (act m e) fun x hx => hfin x (List.mem_cons_of_mem e hx)
      obtain ⟨g1, g2⟩ := act_finish m e
      have hk := hfin e List.mem_cons_self
      rw [if_neg hk] at g1 g2
      exact ⟨h1.trans g1, h2.trans g2⟩

/-- The calls of a message that has seen the events survive their replay, up
to the end of the run. -/
theorem Seen.calls {m : Message} {events es : List RunEvent} (h : Seen m events)
    (hsub : ∀ e ∈ es, e ∈ events) (hlast : ∀ c, lastCompletion es c = lastCompletion events c)
    (hfin : ∀ e ∈ es, e.kind ≠ .runFinished) : (es.foldl act m).toolCalls = m.toolCalls := by
  obtain ⟨hids, hnone, hfind⟩ := foldl_act_calls m es
    (fun e he => h.called e (hsub e he)) hfin
  refine eq_of_findCall hids (by rw [hids]; exact h.nodup) fun id _ => ?_
  cases id with
  | none => exact hnone
  | some callId =>
      rw [hfind, hlast]
      cases hc : lastCompletion events callId with
      | none => rfl
      | some e => exact (h.completed callId e hc).symm

/-- **Absorption**: a replay of events that a message has seen changes nothing. -/
theorem Seen.absorb {m : Message} {events : List RunEvent} (h : Seen m events)
    (hfin : FinishLast events) : events.foldl act m = m := by
  have hcontent : (events.foldl act m).content = m.content := by
    rw [foldl_act_content]
    cases hc : lastContent events with
    | none => rfl
    | some text => exact (h.content text hc).symm
  have hactivity := foldl_act_activity m events h.activity
  obtain ⟨hid, hrole, hcreated, htype⟩ := foldl_act_frame m events
  have hend : (events.foldl act m).toolCalls = m.toolCalls ∧
      (events.foldl act m).runStatus = m.runStatus ∧
      (events.foldl act m).finishedAt = m.finishedAt := by
    cases events using List.reverseRecOn with
    | nil => exact ⟨rfl, rfl, rfl⟩
    | append_singleton es e =>
        have hno := finishLast_append hfin
        by_cases hk : e.kind = .runFinished
        · -- the end of the run: everything before it is absorbed, then so is the end
          have hlast : ∀ c, lastCompletion es c = lastCompletion (es ++ [e]) c := by
            intro c
            rw [lastCompletion_append, if_neg (by simp [hk])]
          have hes := h.calls (fun x hx => List.mem_append_left _ hx) hlast hno
          obtain ⟨hstatus, hat, hcalls⟩ := h.finished e (by simp) hk
          rw [List.foldl_append]
          show (act (es.foldl act m) e).toolCalls = _ ∧ (act (es.foldl act m) e).runStatus = _ ∧
            (act (es.foldl act m) e).finishedAt = _
          have hnone : e.callId? = none := by simp [RunEvent.callId?, hk]
          obtain ⟨g1, g2⟩ := act_finish (es.foldl act m) e
          rw [act_calls_none hnone, if_pos hk, hes, g1, g2, if_pos hk, if_pos hk]
          exact ⟨hcalls, hstatus.symm, hat.symm⟩
        · have hall : ∀ x ∈ es ++ [e], x.kind ≠ .runFinished := by
            intro x hx
            rcases List.mem_append.mp hx with hx | hx
            · exact hno x hx
            · rw [List.mem_singleton.mp hx]
              exact hk
          obtain ⟨g1, g2⟩ := foldl_act_status m _ hall
          exact ⟨h.calls (fun _ hx => hx) (fun _ => rfl) hall, g1, g2⟩
  obtain ⟨hcalls, hstatus, hat⟩ := hend
  generalize events.foldl act m = m' at *
  cases m
  cases m'
  simp_all

/-- Before its first event, a run has no message; then it has a blank one. -/
theorem foldl_step_eq_some : ∀ {events : List RunEvent} {m : Message},
    events.foldl step none = some m → ∃ m₀ : Message, m₀.toolCalls = [] ∧ events.foldl act m₀ = m
  | [], m, h => by cases h
  | e :: es, m, h => by
      rw [List.foldl_cons] at h
      by_cases hs : e.skips none = true
      · have he : step none e = none := by
          unfold step
          rw [if_pos hs]
        rw [he] at h
        obtain ⟨m₀, hm₀, hfold⟩ := foldl_step_eq_some h
        have hact : act m₀ e = m₀ := by
          -- without a message only tool events without a call id are skipped
          unfold act
          rw [if_pos]
          unfold RunEvent.skips at hs ⊢
          cases hk : e.kind <;> simp [hk] at hs ⊢
          · cases hc : truthy e.callId with
            | none => rfl
            | some c => simp [hc] at hs
          · exact hs
        exact ⟨m₀, hm₀, by rw [List.foldl_cons, hact, hfold]⟩
      · have he : step none e = some (act e.blank e) := by
          have hs' : e.skips (some e.blank) = false := by
            unfold RunEvent.skips at hs ⊢
            cases hk : e.kind <;> simp [hk] at hs ⊢
            · simp [RunEvent.blank]
            · simp [RunEvent.blank]
            · cases hc : truthy e.callId with
              | none => simp [hc] at hs
              | some c => simp [RunEvent.blank]
            · exact Option.isSome_iff_ne_none.mpr hs
          unfold step act
          rw [if_neg hs, if_neg (by simp [hs'])]
          rfl
        rw [he, foldl_step_some] at h
        exact ⟨e.blank, rfl, Option.some.inj h⟩

theorem foldl_act_nodup (m : Message) (hm : (callIds m.toolCalls).Nodup) (events : List RunEvent) :
    (callIds (events.foldl act m).toolCalls).Nodup := by
  induction events generalizing m with
  | nil => exact hm
  | cons e es ih =>
      refine ih (act m e) ?_
      rcases act_calls_cases m e with ⟨_, h, _⟩ | ⟨_, _, _, h, _⟩ | ⟨_, _, h⟩ <;> rw [h]
      · exact hm
      · exact overwrite_nodup hm
      · rw [callIds_abandon]
        exact hm

/-- **Replaying the end of a log** on what the log has made changes nothing. -/
theorem foldl_step_absorb (seen overlap : List RunEvent) (hfin : FinishLast overlap) :
    overlap.foldl step ((seen ++ overlap).foldl step none) = (seen ++ overlap).foldl step none := by
  cases hfold : (seen ++ overlap).foldl step none with
  | none =>
      obtain ⟨_, hskip⟩ := foldl_step_none hfold
      exact foldl_step_skips fun e he => hskip e (List.mem_append_right _ he)
  | some m =>
      obtain ⟨m₀, hm₀, hm⟩ := foldl_step_eq_some hfold
      rw [List.foldl_append] at hm
      have hnd : (callIds (seen.foldl act m₀).toolCalls).Nodup :=
        foldl_act_nodup m₀ (by simp [hm₀, callIds]) seen
      have hseen := seen_foldl (seen.foldl act m₀) hnd overlap hfin
      rw [hm] at hseen
      rw [foldl_step_some, hseen.absorb hfin]

/-! ## §8. The whole transcript. -/

theorem runMessageId_inj {a b : String} (h : runMessageId a = runMessageId b) : a = b := by
  unfold runMessageId at h
  exact String.append_right_inj "run:" |>.mp h

/-- The messages with the id of the run. -/
def ofRun (runId : String) (messages : List Message) : List Message :=
  messages.filter fun m => m.id = runMessageId runId

/-- All other messages. -/
def notOfRun (runId : String) (messages : List Message) : List Message :=
  messages.filter fun m => m.id ≠ runMessageId runId

/-- A rewriting of elements that `p` does not select is not seen by `p`. -/
theorem filter_map_fix {α : Type} {p : α → Bool} {f : α → α} (hp : ∀ x, p (f x) = p x)
    (hf : ∀ x, p x = true → f x = x) (xs : List α) : (xs.map f).filter p = xs.filter p := by
  have hcomp : p ∘ f = p := funext hp
  rw [List.filter_map, hcomp]
  exact (List.map_congr_left fun x hx => hf x (List.mem_filter.mp hx).2).trans (List.map_id _)

theorem applyTo_id (e : RunEvent) (m : Message) : (e.applyTo m).id = m.id := by
  unfold RunEvent.applyTo
  cases e.kind <;> rfl

/-- The first message with an id is the head of those with the id. -/
theorem find?_ofRun {messages : List Message} {runId : String} {o : Option Message}
    (h : ofRun runId messages = o.toList) :
    messages.find? (fun m => m.id = runMessageId runId) = o := by
  rw [← List.head?_filter]
  unfold ofRun at h
  rw [h]
  cases o <;> rfl

/-- **One event of the run**: its message makes a `step`. -/
theorem ofRun_applyRunEvent {messages : List Message} {e : RunEvent} {o : Option Message}
    (hrun : e.runId ≠ "") (h : ofRun e.runId messages = o.toList) :
    ofRun e.runId (applyRunEvent messages e) = (step o e).toList := by
  unfold applyRunEvent step
  rw [if_neg hrun]
  simp only [find?_ofRun h]
  by_cases hs : e.skips o = true
  · rw [if_pos hs, if_pos hs, h]
  · rw [if_neg hs, if_neg hs]
    cases o with
    | none =>
        have hid : (e.applyTo e.blank).id = runMessageId e.runId := applyTo_id e e.blank
        show ofRun e.runId (messages ++ [e.applyTo e.blank]) = [e.applyTo e.blank]
        unfold ofRun at h ⊢
        rw [List.filter_append, h]
        simp [hid]
    | some m =>
        have hm : m.id = runMessageId e.runId := by
          have : m ∈ ofRun e.runId messages := by rw [h]; simp
          simpa [ofRun] using (List.mem_filter.mp this).2
        show ofRun e.runId (messages.map fun x =>
          if x.id = runMessageId e.runId then e.applyTo m else x) = [e.applyTo m]
        unfold ofRun at h ⊢
        have hid : (e.applyTo m).id = runMessageId e.runId := (applyTo_id e m).trans hm
        have hcomp : ((fun x : Message => decide (x.id = runMessageId e.runId)) ∘ fun x =>
            if x.id = runMessageId e.runId then e.applyTo m else x)
              = fun x => decide (x.id = runMessageId e.runId) := by
          funext x
          by_cases hx : x.id = runMessageId e.runId <;> simp [hx, hid]
        rw [List.filter_map, hcomp, h]
        simp [hm]

/-- **One event of a run** leaves all other messages where they are. -/
theorem notOfRun_applyRunEvent (messages : List Message) (e : RunEvent) :
    notOfRun e.runId (applyRunEvent messages e) = notOfRun e.runId messages := by
  unfold applyRunEvent
  by_cases hrun : e.runId = ""
  · rw [if_pos hrun]
  · rw [if_neg hrun]
    simp only []
    cases ho : messages.find? fun m => m.id = runMessageId e.runId with
    | none =>
        have hid : (e.applyTo e.blank).id = runMessageId e.runId := applyTo_id e e.blank
        split
        · rfl
        · show notOfRun e.runId (messages ++ [e.applyTo e.blank]) = _
          unfold notOfRun
          rw [List.filter_append]
          simp [hid]
    | some m =>
        have hid : (e.applyTo m).id = runMessageId e.runId := by
          rw [applyTo_id]
          simpa using List.find?_some ho
        split
        · rfl
        · show notOfRun e.runId (messages.map fun x =>
            if x.id = runMessageId e.runId then e.applyTo m else x) = _
          refine filter_map_fix (fun x => ?_) (fun x hx => ?_) messages
          · by_cases hx : x.id = runMessageId e.runId <;> simp [hx, hid]
          · simp only [decide_eq_true_eq] at hx
            rw [if_neg hx]

/-- The messages of a run are among those that are not of another run. -/
theorem ofRun_notOfRun {a b : String} (h : a ≠ b) (messages : List Message) :
    ofRun a (notOfRun b messages) = ofRun a messages := by
  have hne : runMessageId a ≠ runMessageId b := fun hh => h (runMessageId_inj hh)
  unfold ofRun notOfRun
  rw [List.filter_filter]
  refine List.filter_congr fun x _ => ?_
  by_cases hx : x.id = runMessageId a
  · simp [hx, hne]
  · simp [hx]

/-- An event of another run leaves the message of this run alone. -/
theorem ofRun_applyRunEvent_ne {messages : List Message} {e : RunEvent} {runId : String}
    (h : e.runId ≠ runId) : ofRun runId (applyRunEvent messages e) = ofRun runId messages := by
  rw [← ofRun_notOfRun h.symm, notOfRun_applyRunEvent, ofRun_notOfRun h.symm]

theorem ofRun_foldl {runId : String} (hrun : runId ≠ "") {events : List RunEvent}
    (hevents : ∀ e ∈ events, e.runId = runId) {messages : List Message} {o : Option Message}
    (h : ofRun runId messages = o.toList) :
    ofRun runId (events.foldl applyRunEvent messages) = (events.foldl step o).toList := by
  induction events generalizing messages o with
  | nil => exact h
  | cons e es ih =>
      have he : e.runId = runId := hevents e List.mem_cons_self
      refine ih (fun x hx => hevents x (List.mem_cons_of_mem e hx)) ?_
      subst he
      exact ofRun_applyRunEvent hrun h

theorem notOfRun_foldl {runId : String} {events : List RunEvent}
    (hevents : ∀ e ∈ events, e.runId = runId) (messages : List Message) :
    notOfRun runId (events.foldl applyRunEvent messages) = notOfRun runId messages := by
  induction events generalizing messages with
  | nil => rfl
  | cons e es ih =>
      have he : e.runId = runId := hevents e List.mem_cons_self
      rw [List.foldl_cons, ih (fun x hx => hevents x (List.mem_cons_of_mem e hx)), ← he,
        notOfRun_applyRunEvent]

/-! ## §9. Snapshots of other runs. -/

/-- A snapshot of another run, with that run's events. -/
def OfOther (runId : String) (run : RunSnapshot) : Prop :=
  run.id ≠ runId ∧ ∀ e ∈ run.events, e.runId ≠ runId

theorem ofRun_foldl_ne {runId : String} {events : List RunEvent} (h : ∀ e ∈ events, e.runId ≠ runId)
    (messages : List Message) :
    ofRun runId (events.foldl applyRunEvent messages) = ofRun runId messages := by
  induction events generalizing messages with
  | nil => rfl
  | cons e es ih =>
      rw [List.foldl_cons, ih (fun x hx => h x (List.mem_cons_of_mem e hx)),
        ofRun_applyRunEvent_ne (h e List.mem_cons_self)]

theorem ofRun_restoreRun_ne {runId : String} {run : RunSnapshot} (h : OfOther runId run)
    (messages : List Message) : ofRun runId (restoreRun messages run) = ofRun runId messages := by
  have hfold := ofRun_foldl_ne h.2 messages
  unfold restoreRun
  split
  · have hterminal : (run.terminal "1970-01-01T00:00:00.000Z").runId ≠ runId := h.1
    have hne : runMessageId runId ≠ runMessageId run.id := fun hh => h.1 (runMessageId_inj hh).symm
    rw [← hfold]
    refine Eq.trans ?_ (ofRun_applyRunEvent_ne hterminal)
    -- only messages of the other run lose their completion time
    refine filter_map_fix (fun m => ?_) (fun m hm => ?_) _
    · by_cases hm : m.id = runMessageId run.id <;> simp [hm]
    · simp only [decide_eq_true_eq] at hm
      rw [if_neg (hm ▸ hne)]
  · exact hfold

/-- An event of another run does not need the messages of this one. -/
theorem notOfRun_applyRunEvent_ne {e : RunEvent} {runId : String} (h : e.runId ≠ runId)
    (messages : List Message) :
    notOfRun runId (applyRunEvent messages e) = applyRunEvent (notOfRun runId messages) e := by
  have hne : runMessageId e.runId ≠ runMessageId runId := fun hh => h (runMessageId_inj hh)
  have hfind : (notOfRun runId messages).find? (fun m => m.id = runMessageId e.runId)
      = messages.find? fun m => m.id = runMessageId e.runId := by
    rw [← List.head?_filter, ← List.head?_filter]
    exact congrArg List.head? (ofRun_notOfRun h messages)
  unfold applyRunEvent
  by_cases hrun : e.runId = ""
  · rw [if_pos hrun, if_pos hrun]
  · rw [if_neg hrun, if_neg hrun]
    simp only [hfind]
    split
    · rfl
    · cases ho : messages.find? fun m => m.id = runMessageId e.runId with
      | none =>
          have hid : (e.applyTo e.blank).id = runMessageId e.runId := applyTo_id e e.blank
          show notOfRun runId (messages ++ [e.applyTo e.blank]) = _
          unfold notOfRun
          rw [List.filter_append]
          simp [hid, hne]
      | some m =>
          have hid : (e.applyTo m).id = runMessageId e.runId := by
            rw [applyTo_id]
            simpa using List.find?_some ho
          show notOfRun runId (messages.map _) = (notOfRun runId messages).map _
          unfold notOfRun
          rw [List.filter_map]
          congr 2
          funext x
          by_cases hx : x.id = runMessageId e.runId <;> simp [hx, hid, hne]

theorem notOfRun_restoreRun_ne {runId : String} {run : RunSnapshot} (h : OfOther runId run)
    (messages : List Message) :
    notOfRun runId (restoreRun messages run) = restoreRun (notOfRun runId messages) run := by
  have hne : runMessageId run.id ≠ runMessageId runId := fun hh => h.1 (runMessageId_inj hh)
  have hfold : ∀ (events : List RunEvent) (ms : List Message), (∀ e ∈ events, e.runId ≠ runId) →
      notOfRun runId (events.foldl applyRunEvent ms)
        = events.foldl applyRunEvent (notOfRun runId ms) := by
    intro events
    induction events with
    | nil => intro ms _; rfl
    | cons e es ih =>
        intro ms hes
        rw [List.foldl_cons, List.foldl_cons, ih _ fun x hx => hes x (List.mem_cons_of_mem e hx),
          notOfRun_applyRunEvent_ne (hes e List.mem_cons_self)]
  unfold restoreRun
  split
  · have hterminal : (run.terminal "1970-01-01T00:00:00.000Z").runId ≠ runId := h.1
    dsimp only
    rw [← hfold run.events messages h.2, ← notOfRun_applyRunEvent_ne hterminal]
    unfold notOfRun
    rw [List.filter_map]
    congr 2
    funext x
    by_cases hx : x.id = runMessageId run.id <;> simp [hx, hne]
  · exact hfold run.events messages h.2

theorem notOfRun_restore_ne {runId : String} {runs : List RunSnapshot}
    (h : ∀ run ∈ runs, OfOther runId run) (messages : List Message) :
    notOfRun runId (runs.foldl restoreRun messages)
      = runs.foldl restoreRun (notOfRun runId messages) := by
  induction runs generalizing messages with
  | nil => rfl
  | cons run rs ih =>
      rw [List.foldl_cons, List.foldl_cons, ih (fun x hx => h x (List.mem_cons_of_mem run hx)),
        notOfRun_restoreRun_ne (h run List.mem_cons_self)]

theorem ofRun_restore_ne {runId : String} {runs : List RunSnapshot}
    (h : ∀ run ∈ runs, OfOther runId run) (messages : List Message) :
    ofRun runId (runs.foldl restoreRun messages) = ofRun runId messages := by
  induction runs generalizing messages with
  | nil => rfl
  | cons run rs ih =>
      rw [List.foldl_cons, ih (fun x hx => h x (List.mem_cons_of_mem run hx)),
        ofRun_restoreRun_ne (h run List.mem_cons_self)]

/-! ## §10. Reconnecting. -/

/-- A snapshot of the run with the first `m` events of its log.  The server
reports a terminal status only together with the terminal event. -/
structure SnapshotAt (runId : String) (log : List RunEvent) (m : Nat) (run : RunSnapshot) : Prop where
  id : run.id = runId
  events : run.events = log.take m
  status : run.status = .running ∨ run.hasFinish = true

theorem restoreRun_snapshot {runId : String} {log : List RunEvent} {m : Nat} {run : RunSnapshot}
    (h : SnapshotAt runId log m run) (messages : List Message) :
    restoreRun messages run = (log.take m).foldl applyRunEvent messages := by
  unfold restoreRun
  rw [if_neg, h.events]
  rcases h.status with hs | hs <;> simp [hs]

theorem ofRun_perm {runId : String} {xs ys : List Message} {o : Option Message} (h : xs.Perm ys)
    (hy : ofRun runId ys = o.toList) : ofRun runId xs = o.toList := by
  have hperm : (ofRun runId xs).Perm (ofRun runId ys) := h.filter _
  rw [hy] at hperm
  cases o with
  | none => exact List.perm_nil.mp hperm
  | some m => exact List.perm_singleton.mp hperm

/-- A stream of which the browser has seen everything up to `m` already may
start anywhere up to there. -/
theorem foldl_step_overlap (log : List RunEvent) (hfin : FinishLast log) {m j : Nat}
    (hm : m ≤ log.length) (hj : j ≤ m) :
    (log.drop j).foldl step ((log.take m).foldl step none) = log.foldl step none := by
  have hsplit : log.take m = log.take j ++ (log.take m).drop j := by
    conv_lhs => rw [← List.take_append_drop j (log.take m)]
    rw [List.take_take, Nat.min_eq_left hj]
  have hdrop : log.drop j = (log.take m).drop j ++ log.drop m := by
    conv_lhs => rw [← List.take_append_drop m log]
    rw [List.drop_append, List.length_take, Nat.min_eq_left hm]
    have hzero : j - m = 0 := Nat.sub_eq_zero_of_le hj
    rw [hzero, List.drop_zero]
  have hlast : FinishLast ((log.take m).drop j) := by
    have hprefix : FinishLast (log.take m) := by
      rw [← List.take_append_drop m log] at hfin
      exact (finishLast_parts hfin).1
    rw [hsplit] at hprefix
    exact (finishLast_parts hprefix).2
  have habsorb := foldl_step_absorb (log.take j) ((log.take m).drop j) hlast
  rw [← hsplit] at habsorb
  rw [hdrop, List.foldl_append, habsorb, ← List.foldl_append, List.take_append_drop]

theorem applyRunEvent_empty {e : RunEvent} (h : e.runId = "") (messages : List Message) :
    applyRunEvent messages e = messages := by
  unfold applyRunEvent
  rw [if_pos h]

theorem foldl_applyRunEvent_empty {events : List RunEvent} (h : ∀ e ∈ events, e.runId = "")
    (messages : List Message) : events.foldl applyRunEvent messages = messages := by
  induction events generalizing messages with
  | nil => rfl
  | cons e es ih =>
      rw [List.foldl_cons, applyRunEvent_empty (h e List.mem_cons_self)]
      exact ih (fun x hx => h x (List.mem_cons_of_mem e hx)) messages

/-- What the whole log makes from nothing: the run's message, and no other. -/
theorem foldl_from_nothing {runId : String} (hrun : runId ≠ "") {log : List RunEvent}
    (hlog : ∀ e ∈ log, e.runId = runId) :
    log.foldl applyRunEvent [] = (log.foldl step none).toList := by
  have hof : ofRun runId (log.foldl applyRunEvent []) = (log.foldl step none).toList :=
    @ofRun_foldl runId hrun log hlog [] none rfl
  have hnot := notOfRun_foldl hlog []
  rw [← hof]
  symm
  unfold ofRun
  rw [List.filter_eq_self]
  intro x hx
  by_contra hne
  have hmem : x ∈ notOfRun runId (log.foldl applyRunEvent []) :=
    List.mem_filter.mpr ⟨hx, by simpa using hne⟩
  rw [hnot] at hmem
  cases hmem

/-- The run's message after the snapshot, among the messages of other runs. -/
theorem ofRun_restored (dateParse : String → Option Int) {runId : String} (hid : runId ≠ "")
    {log : List RunEvent} (hrun : ∀ e ∈ log, e.runId = runId) {m : Nat}
    {history : List Message} (hhistory : ofRun runId history = [])
    {before after : List RunSnapshot} (hother : ∀ run ∈ before ++ after, OfOther runId run)
    {run : RunSnapshot} (hsnap : SnapshotAt runId log m run) :
    ofRun runId (restoreRuns dateParse history (before ++ run :: after))
      = ((log.take m).foldl step none).toList := by
  refine ofRun_perm (List.mergeSort_perm _ _) ?_
  rw [List.foldl_append, List.foldl_cons, restoreRun_snapshot hsnap,
    ofRun_restore_ne fun x hx => hother x (List.mem_append_right before hx)]
  refine ofRun_foldl hid (fun e he => hrun e (List.mem_of_mem_take he)) ?_
  rw [ofRun_restore_ne (fun x hx => hother x (List.mem_append_left after hx)), hhistory]
  rfl

/-- The messages of other runs after the snapshot do not depend on this run. -/
theorem notOfRun_restored (dateParse : String → Option Int) {runId : String}
    {log : List RunEvent} (hrun : ∀ e ∈ log, e.runId = runId) {m : Nat} (history : List Message)
    {before after : List RunSnapshot} (hother : ∀ run ∈ before ++ after, OfOther runId run)
    {run : RunSnapshot} (hsnap : SnapshotAt runId log m run) :
    (notOfRun runId (restoreRuns dateParse history (before ++ run :: after))).Perm
      (notOfRun runId (restoreRuns dateParse history (before ++ after))) := by
  have hbefore : ∀ x ∈ before, OfOther runId x := fun x hx => hother x (List.mem_append_left after hx)
  have hafter : ∀ x ∈ after, OfOther runId x := fun x hx => hother x (List.mem_append_right before hx)
  have hsort : ∀ runs, (notOfRun runId (restoreRuns dateParse history runs)).Perm
      (notOfRun runId (runs.foldl restoreRun history)) := fun runs =>
    (List.mergeSort_perm _ _).filter _
  have heq : notOfRun runId ((before ++ run :: after).foldl restoreRun history)
      = notOfRun runId ((before ++ after).foldl restoreRun history) := by
    rw [List.foldl_append, List.foldl_cons, List.foldl_append, notOfRun_restore_ne hafter,
      notOfRun_restore_ne hafter, restoreRun_snapshot hsnap,
      notOfRun_foldl fun e he => hrun e (List.mem_of_mem_take he)]
  exact (hsort _).trans (heq ▸ (hsort _).symm)

/-- A tool starts, completes, and the run ends. -/
def toolLog : List RunEvent :=
  [⟨.toolStarted, "r", "r:1", "t1", some "read_files", some "c", none, none, none, none, none, none, none⟩,
    ⟨.toolCompleted, "r", "r:2", "t2", some "read_files", some "c", some true, none, none, some "text",
      none, some 5, none⟩,
    ⟨.runFinished, "r", "r:3", "t3", none, none, none, some .succeeded, some "Done", none, none, none, none⟩]

end WebBuilder.Frontend
