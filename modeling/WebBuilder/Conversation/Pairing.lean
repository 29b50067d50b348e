/-
  WebBuilder.Conversation.Pairing — the transcript of every model request.

  The list of messages is rebuilt after each request and appended to on three
  paths: the reply, one message for each tool call, or the errors to repair.
  A provider refuses a reply with tool calls whose results do not follow it.
  A screenshot is sent once, its text with every later request.

  A monitor remembers the last request, its reply and the screenshots taken
  since, all read off the trace, and permits a request only if it carries on
  from there (`Follows`).

  Main results:
    * `paired_append`, `paired_withoutPreviewImages` — what keeps the pairing;
    * `follows_runCall`, `follows_runTurn` — one call and one turn;
    * `transcript_well_formed` — every request of every conversation.
-/
import WebBuilder.Conversation.Rules

namespace WebBuilder.Conversation

open WebBuilder.Async

/-! ## §1. Well-formed transcripts. -/

/-- After each reply come the results of its tool calls, one for each and in
their order, before any other message. -/
def Paired (messages : List Message) : Prop :=
  ∀ pre reply post, messages = pre ++ .assistant reply :: post →
    ∃ (results : List ToolMessage) (rest : List Message), post = results.map .tool ++ rest ∧
      results.map ToolMessage.callId = reply.toolCalls.map Call.id ∧ ∀ message, rest.head? ≠ some (.tool message)

/-- What answers a reply: the results of its calls, or the errors to repair. -/
def Answers (reply : Response) (added : List Message) : Prop :=
  (reply.toolCalls = [] ∧ ∃ errors, added = [.human errors]) ∨
    (reply.toolCalls ≠ [] ∧ ∃ results : List ToolMessage, added = results.map .tool ∧
      results.map ToolMessage.callId = reply.toolCalls.map Call.id)

/-- The texts of a message, without its screenshots. -/
def Message.texts (message : Message) : List String :=
  match message.content with
  | .plain text => [text]
  | .blocks bs => bs.filterMap fun b => match b with | .text t => some t | .image _ => none

/-- The last request with its reply, and the screenshots taken since. -/
structure Thread where
  last : Option (List Message × Response)
  taken : List Block

def Thread.start : Thread := ⟨none, []⟩

/-- A request carries on from the last one. -/
structure Follows (m : Thread) (messages : List Message) : Prop where
  paired : Paired messages
  /-- Exactly the screenshots taken since the last request. -/
  screenshots : messages.flatMap Message.screenshots = m.taken
  /-- The first request has nothing to carry on from. -/
  first : m.last = none → ∃ system request, messages = [.system system, .human request]
  /-- No message is lost or reordered. -/
  continued : ∀ sent reply, m.last = some (sent, reply) → ∃ added,
    messages = withoutPreviewImages sent ++ .assistant reply :: added ∧ Answers reply added
  /-- All texts stay. -/
  texts : ∀ sent reply, m.last = some (sent, reply) → sent.map Message.texts <+: messages.map Message.texts

/-- The screenshot of a result. -/
def shot (call : Call) (result : ToolResult) : List Block := (imageOf call result).toList.map Block.image

def thread : Monitor Live Op Exc Reply Thread where
  next m st :=
    match st.op, st.answer with
    | .invoke messages _, .ok (.response reply) => ⟨some (messages, reply), []⟩
    | .execute call, .ok (.result result _) => { m with taken := m.taken ++ shot call result }
    | _, _ => m
  ok m st := ∀ messages limit, st.op = .invoke messages limit → Follows m messages

/-! ## §2. Lists of messages. -/

/-- A list that does not begin with a result can follow. -/
theorem paired_append {messages added : List Message} (h : Paired messages) (hadded : Paired added)
    (hhead : ∀ message, added.head? ≠ some (.tool message)) : Paired (messages ++ added) := by
  intro pre reply post heq
  rcases List.append_eq_append_iff.mp heq with ⟨mid, rfl, hmid⟩ | ⟨mid, rfl, hmid⟩
  · -- the reply is in what is added
    exact hadded mid reply post hmid
  · cases mid with
    | nil =>
        obtain ⟨results, rest, hpost, hids, hrest⟩ := hadded [] reply post hmid.symm
        exact ⟨results, rest, hpost, hids, hrest⟩
    | cons message mid =>
        simp only [List.cons_append, List.cons.injEq] at hmid
        obtain ⟨rfl, rfl⟩ := hmid
        obtain ⟨results, rest, rfl, hids, hrest⟩ := h pre reply mid rfl
        refine ⟨results, rest ++ added, List.append_assoc _ _ _, hids, fun message => ?_⟩
        cases rest with
        | nil => exact hhead message
        | cons first rest => exact hrest message

/-- A reply and its answers. -/
theorem paired_exchange {reply : Response} {added : List Message} (h : Answers reply added) :
    Paired (.assistant reply :: added) := by
  intro pre reply' post heq
  cases pre with
  | nil =>
      simp only [List.nil_append, List.cons.injEq, Message.assistant.injEq] at heq
      obtain ⟨rfl, rfl⟩ := heq
      rcases h with ⟨hnone, errors, rfl⟩ | ⟨_, results, rfl, hids⟩
      · exact ⟨[], _, rfl, by rw [hnone]; rfl, nofun⟩
      · exact ⟨results, [], (List.append_nil _).symm, hids, nofun⟩
  | cons message pre =>
      -- there is no second reply
      simp only [List.cons_append, List.cons.injEq] at heq
      have hmem : Message.assistant reply' ∈ added := by
        rw [heq.2]
        exact List.mem_append_right _ List.mem_cons_self
      rcases h with ⟨_, errors, rfl⟩ | ⟨_, results, rfl, _⟩
      · simp at hmem
      · simp at hmem

theorem paired_opening (system request : String) : Paired [.system system, .human request] := by
  intro pre reply post heq
  have hmem : Message.assistant reply ∈ [Message.system system, .human request] := by
    rw [heq]
    exact List.mem_append_right _ List.mem_cons_self
  simp at hmem

theorem withoutImages_eq_assistant {message : Message} {reply : Response}
    (h : message.withoutImages = .assistant reply) : message = .assistant reply := by
  cases message with
  | system | human | tool => cases h
  | assistant => exact h

/-- Dropping the screenshots keeps the pairing. -/
theorem paired_withoutPreviewImages {messages : List Message} (h : Paired messages) :
    Paired (withoutPreviewImages messages) := by
  intro pre reply post heq
  obtain ⟨before, after, rfl, rfl, hafter⟩ := List.map_eq_append_iff.mp heq
  obtain ⟨message, post', rfl, hmessage, rfl⟩ := List.map_eq_cons_iff.mp hafter
  obtain rfl := withoutImages_eq_assistant hmessage
  obtain ⟨results, rest, rfl, hids, hrest⟩ := h before reply post' rfl
  refine ⟨results.map ToolMessage.withoutImages, withoutPreviewImages rest, ?_, ?_, fun message => ?_⟩
  · simp only [List.map_append, List.map_map]
    rfl
  · rw [← hids, List.map_map]
    rfl
  · cases rest with
    | nil => nofun
    | cons first rest =>
        intro hfirst
        cases first with
        | tool result => exact hrest result rfl
        | system | human | assistant => simp [withoutPreviewImages, Message.withoutImages] at hfirst

theorem screenshots_withoutImages (message : Message) : message.withoutImages.screenshots = [] := by
  cases message with
  | tool result =>
      obtain ⟨content, callId, ok⟩ := result
      cases content with
      | plain text => rfl
      | blocks bs => simp [Message.withoutImages, Message.screenshots, ToolMessage.withoutImages, Content.withoutImages,
          Content.screenshots, List.filter_filter]
  | system | human | assistant => rfl

/-- No screenshot is sent twice. -/
theorem screenshots_withoutPreviewImages (messages : List Message) :
    (withoutPreviewImages messages).flatMap Message.screenshots = [] := by
  induction messages with
  | nil => rfl
  | cons message messages ih =>
      show message.withoutImages.screenshots ++ (withoutPreviewImages messages).flatMap Message.screenshots = []
      rw [screenshots_withoutImages, ih]
      rfl

theorem texts_withoutImages (message : Message) : message.withoutImages.texts = message.texts := by
  cases message with
  | tool result =>
      obtain ⟨content, callId, ok⟩ := result
      cases content with
      | plain text => rfl
      | blocks bs =>
          show (bs.filter fun b => !b.isImage).filterMap _ = bs.filterMap _
          rw [List.filterMap_filter]
          refine List.filterMap_congr fun b _ => ?_
          cases b <;> rfl
  | system | human | assistant => rfl

theorem texts_withoutPreviewImages (messages : List Message) :
    (withoutPreviewImages messages).map Message.texts = messages.map Message.texts := by
  rw [withoutPreviewImages, List.map_map]
  exact List.map_congr_left fun message _ => texts_withoutImages message

/-- **The next request**: what was sent, the reply and its answers. -/
theorem follows_next {sent added : List Message} {reply : Response} {taken : List Block} (hsent : Paired sent)
    (h : Answers reply added) (htaken : added.flatMap Message.screenshots = taken) :
    Follows ⟨some (sent, reply), taken⟩ (withoutPreviewImages sent ++ .assistant reply :: added) where
  paired := paired_append (paired_withoutPreviewImages hsent) (paired_exchange h) nofun
  screenshots := by
    rw [List.flatMap_append, screenshots_withoutPreviewImages, List.flatMap_cons, htaken]
    rfl
  first := nofun
  continued := by
    intro sent' reply' heq
    obtain ⟨rfl, rfl⟩ := Prod.mk.inj (Option.some.inj heq)
    exact ⟨added, rfl, h⟩
  texts := by
    intro sent' reply' heq
    obtain ⟨rfl, rfl⟩ := Prod.mk.inj (Option.some.inj heq)
    rw [List.map_append, texts_withoutPreviewImages]
    exact List.prefix_append _ _

/-! ## §3. The constructs. -/

/-- The editor sends nothing and no tool runs. -/
def Silent (st : EditStep) : Prop :=
  match st.op with
  | .invoke .. | .execute _ => False
  | _ => True

theorem silent_of_idle {st : EditStep} (h : Idle st) : Silent st := by
  have hop := h.1
  unfold Silent
  split <;> simp_all

theorem silent_record (f : Metrics → Metrics) : (record f).All Silent :=
  each_memory (fun _ _ => trivial) fun _ => trivial

theorem silent_observe {α : Type} {op : Op} {answer : Reply → Option α}
    (hop : match op with
      | .invoke .. | .execute _ => False
      | _ => True) : (observe op answer).All Silent :=
  fun _ _ _ _ _ => ⟨hop, trivial⟩

theorem silent_recordUsage (response : Response) : (recordUsage response).All Silent := by
  refine All.bind (silent_record _) fun _ => ?_
  split
  · exact all_raise _
  · exact all_done _

theorem silent_summarize (cfg : Settings) (previous : Option Nat) (rows : List Nat) :
    (summarize cfg previous rows).All Silent := by
  refine All.bind (silent_observe trivial) fun response => ?_
  refine All.bind (silent_record _) fun _ => All.bind (silent_recordUsage response) fun _ => ?_
  split
  · exact all_raise _
  · split
    · exact all_raise _
    · refine All.bind (silent_observe trivial) fun new => ?_
      split
      · exact silent_record _
      · exact all_done _

theorem silent_compact (cfg : Settings) (history : History) : (compact cfg history).All Silent := by
  unfold compact
  split
  · exact all_done _
  · refine All.bind (each_memory (fun _ _ => trivial) fun _ => trivial) fun rows => ?_
    split
    · exact all_done _
    · refine All.tryCatch (silent_summarize cfg _ _) fun e => ?_
      split
      · exact silent_record _
      · exact all_raise _

theorem silent_contextOf (cfg : Settings) : (contextOf cfg).All Silent := by
  unfold contextOf
  split
  · refine All.bind (silent_observe trivial) fun history => All.bind ?_ fun _ => silent_observe trivial
    unfold onlyIf
    split
    · exact silent_compact cfg history
    · exact all_done _
  · exact all_done _

section Pairing

variable {cfg : Settings} {s : Live} {m : Thread}

/-- Nothing is shown of a run that has raised. -/
def Ended : Exc → Live → Thread → Prop := fun _ _ _ => True

theorem thread_silent {st : EditStep} (h : Silent st) : thread.ok m st ∧ thread.next m st = m := by
  obtain ⟨op, answer, raised, before, after⟩ := st
  cases op with
  | invoke | execute => exact h.elim
  | _ => exact ⟨nofun, rfl⟩

theorem leads_silent {α : Type} {p : Edit α} (hp : p.All Silent) :
    Leads Alone thread Ended p (fun _ _ m' => m = m') s m := by
  refine Leads.of_all hp (fun _ _ _ _ h => h) (fun st m' hst hm => ?_) (fun _ _ _ _ => trivial) rfl
  obtain ⟨hok, hnext⟩ := @thread_silent m' st hst
  rw [hnext]
  exact ⟨hok, hm⟩

theorem leads_unsent {α : Type} {p : Edit α} (hp : p.All Idle) :
    Leads Alone thread Ended p (fun _ _ m' => m = m') s m :=
  leads_silent (All.mono (fun _ => silent_of_idle) hp)

/-- **A request**: it follows, and a new thread begins. -/
theorem leads_asked (messages : List Message) (h : Follows m messages) :
    Leads Alone thread Ended (askModel cfg messages) (fun reply _ m' => m' = ⟨some (messages, reply), []⟩) s m := by
  unfold askModel
  split
  · trivial
  · refine Leads.bind (leads_silent (each_memory (fun _ _ => trivial) fun _ => trivial)) ?_
    rintro limit s₁ m₁ rfl
    cases limit with
    | none => trivial
    | some limit =>
        refine Leads.bind (P := fun reply _ m' => m' = ⟨some (messages, reply), []⟩) ?_ ?_
        · have hok : ∀ ms l, Op.invoke messages limit = .invoke ms l → Follows m ms := by
            intro ms l heq
            rw [← (Op.invoke.inj heq).1]
            exact h
          refine leads_observe (fun d reply hanswer => ⟨hok, ?_⟩) fun e _ => ⟨hok, trivial⟩
          cases d with
          | response r =>
              obtain rfl := Option.some.inj hanswer
              rfl
          | served | check | history | text | paths | result | saved => cases hanswer
        · rintro reply s₂ m₂ hm₂
          refine Leads.bind (leads_silent (silent_recordUsage reply)) ?_
          rintro _ s₃ m₃ rfl
          refine Leads.bind (leads_silent (each_memory (fun _ _ => trivial) fun _ => trivial)) ?_
          rintro overrun s₄ m₄ rfl
          split
          · trivial
          · split
            · exact Leads.bind (leads_silent (silent_record _)) fun _ _ _ _ => trivial
            · exact hm₂

theorem thread_failed {call : Call} {a : Answer Exc Reply} {raised : Option Exc} {before after : Live}
    (h : ∀ result revision, a ≠ .ok (.result result revision)) :
    thread.next m ⟨.execute call, a, raised, before, after⟩ = m := by
  cases a with
  | ok d =>
      cases d with
      | result result revision => exact absurd rfl (h result revision)
      | served | check | history | text | paths | response | saved => rfl
  | fail | lost | late => rfl

/-- **A tool**: what it shows is taken. -/
theorem leads_callTool (call : Call) : Leads Alone thread Ended (callTool cfg call) (fun outcome _ m' =>
    m' = { m with taken := m.taken ++ shot call (resultOf cfg outcome) }) s m := by
  have hnone : ∀ e, ({ m with taken := m.taken ++ shot call (resultOf cfg (.error e)) } : Thread) = m := by
    intro e
    have hshot : shot call (resultOf cfg (.error e)) = [] := by simp [shot, imageOf, resultOf]
    rw [hshot, List.append_nil]
  unfold callTool
  split
  · refine leads_caught (Watched.await fun s₁ _ a r s₂ hact => ⟨nofun, ?_⟩)
    rcases (executeStep_cases hact).2 with ⟨result, revision, rfl, rfl⟩ | ⟨e, _, rfl, hanswer⟩
    · rfl
    · have hnext := @thread_failed m call a (some e) s₁ s₂ hanswer
      show if e.isException then _ else _
      split
      · exact hnext.trans (hnone e).symm
      · trivial
  · exact (hnone _).symm

theorem screenshots_toolMessage (call : Call) (result : ToolResult) :
    (Message.tool (toolMessage call result)).screenshots = shot call result := by
  show (contentOf call result).screenshots = shot call result
  unfold contentOf shot
  split
  · rename_i url hurl
    rw [hurl]
    rfl
  · rename_i hnone
    rw [hnone]
    rfl

/-- **One call**: its message is appended, with its id and its screenshot. -/
theorem follows_runCall (call : Call) (ed : Editor) : Leads Alone thread Ended (runCall cfg call ed) (fun ed' _ m' =>
    ∃ message, ed'.messages = ed.messages ++ [.tool message] ∧ message.callId = call.id ∧
      m' = { m with taken := m.taken ++ (Message.tool message).screenshots }) s m := by
  refine Leads.bind (leads_silent (each_memory (fun _ _ => trivial) fun _ => trivial)) ?_
  rintro ⟨calls, revision⟩ s₁ m₁ rfl
  dsimp only
  split
  · trivial
  · split
    · trivial
    · refine Leads.bind (leads_unsent (all_emit _)) ?_
      rintro _ s₂ m₂ rfl
      refine Leads.bind (leads_callTool call) ?_
      rintro outcome s₃ m₃ rfl
      refine Leads.bind (P := fun message _ m' => message = toolMessage call (resultOf cfg outcome) ∧
        m' = { m with taken := m.taken ++ shot call (resultOf cfg outcome) }) ?_ ?_
      · refine Leads.bind (leads_unsent (all_emit _)) ?_
        rintro _ s₄ m₄ rfl
        split
        · split
          · trivial
          · exact ⟨rfl, rfl⟩
        · refine Leads.bind (leads_silent (silent_record _)) ?_
          rintro _ s₅ m₅ rfl
          exact ⟨rfl, rfl⟩
      · rintro _ s₄ m₄ ⟨rfl, rfl⟩
        refine ⟨_, rfl, rfl, ?_⟩
        rw [screenshots_toolMessage]

/-- **All calls of a reply**, by induction on them. -/
theorem follows_runCalls (calls : List Call) (ed : Editor) :
    Leads Alone thread Ended (runCalls cfg calls ed) (fun ed' _ m' => ∃ results : List ToolMessage,
      ed'.messages = ed.messages ++ results.map .tool ∧ results.map ToolMessage.callId = calls.map Call.id ∧
        m' = { m with taken := m.taken ++ (results.map Message.tool).flatMap Message.screenshots }) s m := by
  induction calls generalizing s m ed with
  | nil => exact ⟨[], (List.append_nil _).symm, rfl, by simp⟩
  | cons call calls ih =>
      refine Leads.bind (follows_runCall call ed) ?_
      rintro ed₁ s₁ _ ⟨message, hmessages, hid, rfl⟩
      refine (ih ed₁).mono ?_
      rintro ed₂ s₂ _ ⟨results, hresults, hids, rfl⟩
      refine ⟨message :: results, ?_, ?_, ?_⟩
      · rw [hresults, hmessages, List.append_assoc]
        rfl
      · rw [List.map_cons, List.map_cons, hid, hids]
      · rw [List.map_cons, List.flatMap_cons, List.append_assoc]

/-- **Step lemma**: what a turn leaves follows again. -/
theorem follows_runTurn (turn : Nat) (ed : Editor) (h : Follows m ed.messages) :
    Leads Alone thread Ended (runTurn cfg turn ed)
      (fun next _ m' => next.1 = none → Follows m' next.2.messages) s m := by
  refine Leads.bind (leads_silent (silent_record _)) ?_
  rintro _ s₁ m₁ rfl
  refine Leads.bind (leads_unsent (all_emit _)) ?_
  rintro _ s₂ m₂ rfl
  refine Leads.bind (leads_unsent (all_checkpoint false)) ?_
  rintro _ s₃ m₃ rfl
  refine Leads.bind (leads_asked ed.messages h) ?_
  rintro reply s₄ _ rfl
  split
  · trivial
  · split
    · -- a final reply: the errors are the answer
      rename_i hcalls
      refine Leads.bind (leads_unsent (all_emit _)) ?_
      rintro _ s₅ m₅ rfl
      refine Leads.bind (leads_unsent (all_check trivial)) ?_
      rintro checks s₆ m₆ rfl
      refine Leads.bind (leads_unsent (all_emit _)) ?_
      rintro _ s₇ m₇ rfl
      refine Leads.bind (leads_unsent (all_checkpoint false)) ?_
      rintro _ s₈ m₈ rfl
      split
      · exact nofun
      · split
        · trivial
        · refine Leads.bind (leads_silent (silent_record _)) ?_
          rintro _ s₉ m₉ rfl
          intro _
          show Follows _ (withoutPreviewImages ed.messages ++ [.assistant reply] ++ [.human _])
          rw [List.append_assoc]
          exact follows_next h.paired (.inl ⟨hcalls, _, rfl⟩) rfl
    · rename_i hcalls
      refine Leads.bind (leads_unsent (all_read _)) ?_
      rintro before s₅ m₅ rfl
      refine Leads.bind (follows_runCalls reply.toolCalls _) ?_
      rintro ed₁ s₆ _ ⟨results, hmessages, hids, rfl⟩
      refine Leads.bind (leads_unsent (all_read _)) ?_
      rintro after s₇ m₇ rfl
      refine Leads.bind (leads_unsent (all_checkpoint _)) ?_
      rintro _ s₈ m₈ rfl
      intro _
      show Follows _ ed₁.messages
      rw [hmessages, List.append_assoc]
      exact follows_next h.paired (.inr ⟨hcalls, results, rfl, hids⟩) rfl

/-- **Run lemma.** -/
theorem follows_runTurns (turns : Nat) (ed : Editor) (h : Follows m ed.messages) :
    Leads Alone thread Ended (runTurns cfg turns ed) (fun _ _ _ => True) s m := by
  induction turns generalizing s m ed with
  | zero => trivial
  | succ turns ih =>
      refine Leads.bind (follows_runTurn (cfg.maxTurns - turns) ed h) ?_
      rintro ⟨summary, ed'⟩ s₁ m₁ hnext
      cases summary with
      | some text => trivial
      | none => exact ih ed' (hnext rfl)

theorem follows_opening (context : String) (files : List (String × Option String)) (paths : List String) :
    Follows Thread.start (opening cfg context files paths) where
  paired := paired_opening _ _
  screenshots := rfl
  first _ := ⟨_, _, rfl⟩
  continued := nofun
  texts := nofun

theorem follows_runEditor :
    Leads Alone thread Ended (runEditor cfg) (fun _ _ _ => True) s Thread.start := by
  refine Leads.bind (leads_unsent all_checkSandbox) ?_
  rintro _ s₁ _ rfl
  refine Leads.bind (leads_silent (silent_contextOf cfg)) ?_
  rintro context s₂ _ rfl
  refine Leads.bind (leads_unsent (all_observe trivial)) ?_
  rintro ⟨paths, chosen⟩ s₃ _ rfl
  refine Leads.bind (leads_unsent (all_readInitial chosen)) ?_
  rintro files s₄ _ rfl
  exact Leads.bind (follows_runTurns cfg.maxTurns _ (follows_opening _ _ _)) fun _ _ _ _ => trivial

end Pairing

/-! ## §4. Runs. -/

/-- **Every request carries a well-formed transcript**: it is paired, it
carries on from the last one and its reply, and it shows exactly the
screenshots taken in between. -/
theorem transcript_well_formed (cfg : Settings) {s s' : Live} {steps pre post : List EditStep} {st : EditStep}
    {q : Edit (String × String)} (h : Performs Alone s (runEditor cfg) steps s' q) (hsteps : steps = pre ++ st :: post)
    {messages : List Message} {maxTokens : Int} (hop : st.op = .invoke messages maxTokens) :
    Follows (thread.after Thread.start pre) messages :=
  Watched.permitted h follows_runEditor pre st post hsteps messages maxTokens hop

/-- A screenshot is taken, and the next request shows it. -/
theorem transcript_well_formed_screenshot : ∃ steps s' q pre st post messages,
    Performs Alone Live.initial (runEditor (defaults 200000)) steps s' q ∧ steps = pre ++ st :: post ∧
      st.op = .invoke messages 8192 ∧ messages.length = 4 ∧
      messages.flatMap Message.screenshots = [.image "data:image/png;base64,"] ∧
      Follows (thread.after Thread.start pre) messages := by
  let reply : Response := ⟨.plain "", [⟨"1", "inspect_preview", "[]"⟩], false, false, none, false⟩
  let result : ToolResult := ⟨true, "page", some "data:image/png;base64,"⟩
  let answers : List (Answer Exc Reply) := [.ok .served, .ok (.check true ""), .ok .served,
    .ok (.history ⟨0, [], none⟩), .ok (.text "context"), .ok (.paths [] []),
    .ok .served, .ok .served, .ok .served, .ok .served, .ok (.response reply), .ok .served, .ok .served,
    .ok .served, .ok .served, .ok .served, .ok (.result result 0), .ok .served, .ok .served, .ok .served, .ok .served,
    .ok .served, .ok .served, .ok .served, .ok .served, .ok (.response reply)]
  let shown (st : EditStep) : Bool :=
    match st.op with
    | .invoke messages limit => limit = 8192 ∧ messages.length = 4 ∧
        messages.flatMap Message.screenshots = [.image "data:image/png;base64,"]
    | _ => false
  have hrun : (Co.perform answers (runEditor (defaults 200000)) Live.initial).any (fun out => out.1.any shown) = true := by
    decide
  obtain ⟨⟨steps, s', q⟩, hperform, hany⟩ := (Option.any_eq_true _ _).mp hrun
  obtain ⟨st, hst, hshown⟩ := List.any_eq_true.mp hany
  have hperforms := Co.perform_performs (R := Alone) (fun _ => rfl) _ hperform
  obtain ⟨pre, post, hsteps⟩ := List.append_of_mem hst
  obtain ⟨messages, hop, hlength, hshots⟩ : ∃ messages, st.op = .invoke messages 8192 ∧ messages.length = 4 ∧
      messages.flatMap Message.screenshots = [.image "data:image/png;base64,"] := by
    unfold shown at hshown
    split at hshown
    · rename_i messages limit hop
      obtain ⟨rfl, hlength, hshots⟩ := of_decide_eq_true hshown
      exact ⟨messages, hop, hlength, hshots⟩
    · cases hshown
  exact ⟨steps, s', q, pre, st, post, messages, hperforms, hsteps, hop, hlength, hshots,
    transcript_well_formed (defaults 200000) hperforms hsteps hop⟩

end WebBuilder.Conversation
