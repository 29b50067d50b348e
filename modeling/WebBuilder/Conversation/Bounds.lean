/-
  WebBuilder.Conversation.Bounds — a conversation is bounded and fits the log.

  Turns, tool calls, repetitions, repairs and checkpoints are counted by
  separate counters.  A coroutine is a finite tree, so a run ends; how much it
  may do until then is a potential argument: `Room` holds what may still be
  asked, executed, verified and logged, every construct takes its part of it,
  and a turn that verifies pays with one of the three verifications.

  Main results:
    * `room_runCall`, `room_runTurn` — what one call and one turn take;
    * `second_model_call` — a summary of the history is a request too;
    * `run_bounded` — the bounds of every run.
-/
import WebBuilder.Conversation.Rules

namespace WebBuilder.Conversation

open WebBuilder.Async

/-! ## §1. What is counted. -/

/-- What a trace has used, the executed calls with their keys. -/
structure Tally where
  invocations : Nat
  summaries : Nat
  verifications : Nat
  executed : List Key

def Tally.zero : Tally := ⟨0, 0, 0, []⟩

def Tally.count (t : Tally) (st : EditStep) : Tally :=
  match st.op with
  | .invoke .. => { t with invocations := t.invocations + 1 }
  | .summarize .. => { t with summaries := t.summaries + 1 }
  | .verify => { t with verifications := t.verifications + 1 }
  | .execute call => { t with executed := call.key st.before.revision :: t.executed }
  | _ => t

/-- The tally of a trace. -/
def tally (steps : List EditStep) : Tally := steps.foldl Tally.count .zero

/-- The bounds of the loop. -/
structure Within (cfg : Settings) (t : Tally) : Prop where
  invocations : t.invocations ≤ cfg.maxTurns
  summaries : t.summaries ≤ 1
  verifications : t.verifications ≤ 3
  executions : t.executed.length ≤ cfg.maxToolCalls
  /-- Identical calls; a read or an inspection at one revision only. -/
  repeats : ∀ key, t.executed.count key ≤ 2

/-- The events of a run without the terminal one. -/
def eventLimit (cfg : Settings) : Nat := 10 + 2 * cfg.maxTurns + 2 * cfg.maxToolCalls

def bounding (cfg : Settings) : Monitor Live Op Exc Reply Tally where
  next := Tally.count
  ok t st := Within cfg (t.count st) ∧ st.after.rows ≤ eventLimit cfg

/-- The two errors of a full log. -/
def ActivityLimit (e : Exc) : Prop :=
  e = .runLimit "Activity budget reached" ∨ e = .runLimit "Activity budget reached before checkpoint"

/-- The log is large enough. -/
def Logged (cfg : Settings) (e : Exc) : Prop := eventLimit cfg ≤ 200 → ¬ ActivityLimit e

/-- An exception is not that of a full log. -/
def Clean (cfg : Settings) : Exc → Live → Tally → Prop := fun e _ _ => Logged cfg e

/-! ## §2. Room. -/

/-- There is room for so many requests and summaries, for the verifications
after `repairs`, for the calls `pending` among those counted in `repeated`,
and for `spare` events beside those of further calls and verifications. -/
structure Room (cfg : Settings) (requests summaries repairs : Nat) (repeated pending : List Key) (spare : Nat)
    (s : Live) (t : Tally) : Prop where
  requests : t.invocations + requests ≤ cfg.maxTurns
  summaries : t.summaries + summaries ≤ 1
  verifications : t.verifications ≤ repairs
  repaired : repairs ≤ 3
  executed : t.executed.length + pending.length ≤ s.metrics.toolCalls
  calls : s.metrics.toolCalls ≤ cfg.maxToolCalls
  keys : ∀ key, t.executed.count key + pending.count key ≤ repeated.count key
  repeats : ∀ key, repeated.count key ≤ 2
  logged : s.rows = s.events
  events : s.events + 2 * (cfg.maxToolCalls - s.metrics.toolCalls) + (3 - repairs) + spare ≤ eventLimit cfg

section Room

variable {cfg : Settings} {requests summaries repairs spare : Nat} {repeated pending : List Key} {s : Live} {t : Tally}

theorem Room.within (h : Room cfg requests summaries repairs repeated pending spare s t) : Within cfg t where
  invocations := Nat.le_trans (Nat.le_add_right _ _) h.requests
  summaries := Nat.le_trans (Nat.le_add_right _ _) h.summaries
  verifications := Nat.le_trans h.verifications h.repaired
  executions := Nat.le_trans (Nat.le_trans (Nat.le_add_right _ _) h.executed) h.calls
  repeats key := Nat.le_trans (Nat.le_trans (Nat.le_add_right _ _) (h.keys key)) (h.repeats key)

theorem Room.rows (h : Room cfg requests summaries repairs repeated pending spare s t) :
    s.rows + spare ≤ eventLimit cfg := by
  have hlogged := h.logged
  have hevents := h.events
  omega

/-- Spare events and open calls may be given up. -/
theorem Room.weaken {less : Nat} (h : Room cfg requests summaries repairs repeated pending spare s t)
    (hle : less ≤ spare) : Room cfg requests summaries repairs repeated [] less s t where
  requests := h.requests
  summaries := h.summaries
  verifications := h.verifications
  repaired := h.repaired
  executed := Nat.le_trans (Nat.le_add_right _ _) h.executed
  calls := h.calls
  keys key := Nat.le_trans (Nat.le_add_right _ _) (h.keys key)
  repeats := h.repeats
  logged := h.logged
  events := Nat.le_trans (Nat.add_le_add_left hle _) h.events

/-- An event takes one of the spare ones. -/
theorem Room.log (h : Room cfg requests summaries repairs repeated pending (spare + 1) s t) :
    Room cfg requests summaries repairs repeated pending spare { s with events := s.events + 1, rows := s.rows + 1 } t where
  requests := h.requests
  summaries := h.summaries
  verifications := h.verifications
  repaired := h.repaired
  executed := h.executed
  calls := h.calls
  keys := h.keys
  repeats := h.repeats
  logged := congrArg (· + 1) h.logged
  events := by
    have hevents := h.events
    show s.events + 1 + 2 * (cfg.maxToolCalls - s.metrics.toolCalls) + (3 - repairs) + spare ≤ eventLimit cfg
    omega

theorem Room.skip (h : Room cfg requests (summaries + 1) repairs repeated pending spare s t) :
    Room cfg requests summaries repairs repeated pending spare s t :=
  { h with summaries := Nat.le_of_succ_le h.summaries }

/-- The counters of the loop have not moved. -/
theorem Room.same {s' : Live} (h : Room cfg requests summaries repairs repeated pending spare s t)
    (hcalls : s'.metrics.toolCalls = s.metrics.toolCalls) (hevents : s'.events = s.events) (hrows : s'.rows = s.rows) :
    Room cfg requests summaries repairs repeated pending spare s' t where
  requests := h.requests
  summaries := h.summaries
  verifications := h.verifications
  repaired := h.repaired
  executed := hcalls ▸ h.executed
  calls := hcalls ▸ h.calls
  keys := h.keys
  repeats := h.repeats
  logged := by rw [hrows, hevents, h.logged]
  events := by
    rw [hcalls, hevents]
    exact h.events

/-! ## §3. The constructs. -/

/-- An operation that is not counted. -/
def Op.uncounted : Op → Prop
  | .invoke .. | .summarize .. | .verify | .execute _ => False
  | _ => True

theorem count_eq {st : EditStep} (h : st.op.uncounted) : t.count st = t := by
  unfold Tally.count
  unfold Op.uncounted at h
  split <;> simp_all

/-- Whatever an await raises by itself, it is not the error of a full log. -/
theorem logged_of_fault {e : Exc} (h : fault e = true) : Logged cfg e := by
  rintro _ (rfl | rfl) <;> cases h

theorem fault_of_isFatal {e : Exc} (h : e.isFatal = true) : fault e = true := by
  cases e <;> first | rfl | cases h

theorem fault_of_databaseFault {e : Exc} (h : databaseFault e = true) : fault e = true := by
  cases e <;> first | rfl | cases h

/-- An await has raised, and `P` holds. -/
def Faulty (P : Live → Tally → Prop) : Exc → Live → Tally → Prop := fun e s t => fault e = true ∧ P s t

/-- An await takes what it is counted as. -/
theorem room_counted {α : Type} {op : Op} {answer : Reply → Option α} {spare' : Nat} {requests' summaries' repairs' : Nat}
    (hcount : ∀ st : EditStep, st.op = op → st.before = s →
      Room cfg requests' summaries' repairs' repeated pending spare' s (t.count st)) :
    Leads Alone (bounding cfg) (Faulty fun s' t' => Room cfg requests' summaries' repairs' repeated pending spare' s' t')
      (observe op answer) (fun _ => Room cfg requests' summaries' repairs' repeated pending spare') s t := by
  refine leads_observe (fun d r _ => ?_) fun e hfault => ?_
  · have hroom := hcount ⟨op, .ok d, none, s, s⟩ rfl rfl
    exact ⟨⟨hroom.within, Nat.le_trans (Nat.le_add_right _ _) hroom.rows⟩, hroom⟩
  · have hroom := hcount ⟨op, .fail e, some e, s, s⟩ rfl rfl
    exact ⟨⟨hroom.within, Nat.le_trans (Nat.le_add_right _ _) hroom.rows⟩, hfault, hroom⟩

/-- The error post of an await is weaker than what is known of it. -/
theorem Leads.clean {α : Type} {p : Edit α} {P : Live → Tally → Prop} {Q : α → Live → Tally → Prop}
    (h : Leads Alone (bounding cfg) (Faulty P) p Q s t) :
    Leads Alone (bounding cfg) (Clean cfg) p Q s t := by
  refine Watched.mono h fun r s t hr => ?_
  cases r with
  | ok a => exact hr
  | error e => exact logged_of_fault hr.1

theorem room_uncounted {α : Type} {op : Op} {answer : Reply → Option α} (hop : op.uncounted)
    (h : Room cfg requests summaries repairs repeated pending spare s t) :
    Leads Alone (bounding cfg) (Faulty (Room cfg requests summaries repairs repeated pending spare)) (observe op answer)
      (fun _ => Room cfg requests summaries repairs repeated pending spare) s t := by
  refine room_counted fun st hst _ => ?_
  rw [count_eq (hst ▸ hop)]
  exact h

theorem room_observe {α : Type} {op : Op} {answer : Reply → Option α} (hop : op.uncounted)
    (h : Room cfg requests summaries repairs repeated pending spare s t) :
    Leads Alone (bounding cfg) (Clean cfg) (observe op answer)
      (fun _ => Room cfg requests summaries repairs repeated pending spare) s t :=
  Leads.clean (room_uncounted hop h)

/-- A step of the memory that moves no counter of the loop. -/
theorem room_memory {α : Type} {f : Live → α × Live} {E : Exc → Live → Tally → Prop} (hcalls : (f s).2.metrics.toolCalls = s.metrics.toolCalls)
    (hevents : (f s).2.events = s.events) (hrows : (f s).2.rows = s.rows)
    (h : Room cfg requests summaries repairs repeated pending spare s t) :
    Leads Alone (bounding cfg) E (memory f)
      (fun r s' t' => r = (f s).1 ∧ s' = (f s).2 ∧ Room cfg requests summaries repairs repeated pending spare s' t') s t := by
  have hroom := h.same hcalls hevents hrows
  exact leads_memory fun d => ⟨⟨h.within, Nat.le_trans (Nat.le_add_right _ _) hroom.rows⟩, rfl, rfl, hroom⟩

theorem room_record {f : Metrics → Metrics} {E : Exc → Live → Tally → Prop}
    (hcalls : (f s.metrics).toolCalls = s.metrics.toolCalls)
    (h : Room cfg requests summaries repairs repeated pending spare s t) :
    Leads Alone (bounding cfg) E (record f)
      (fun _ => Room cfg requests summaries repairs repeated pending spare) s t :=
  (room_memory hcalls rfl rfl h).mono fun _ _ _ hr => hr.2.2

/-- **An event** takes one of the spare ones. -/
theorem room_emit_still (event : Event) (h : Room cfg requests summaries repairs repeated pending (spare + 1) s t) :
    Leads Alone (bounding cfg) (Clean cfg) (emit event) (fun _ s' t' => s'.revision = s.revision ∧
      Room cfg requests summaries repairs repeated pending spare s' t') s t := by
  have hrows := h.rows
  intro s₁ halone a r s₂ hact
  obtain rfl : s = s₁ := halone
  rcases emitStep_cases hact with ⟨hfull, rfl, rfl⟩ | ⟨rfl, rfl⟩ | ⟨e, hfault, rfl, hstate⟩
  · -- the log is full: the bound is over 200
    refine ⟨⟨h.within, by show s₂.rows ≤ _; omega⟩, fun hlimit _ => ?_⟩
    have hlogged := h.logged
    omega
  · exact ⟨⟨h.within, by show s.rows + 1 ≤ _; omega⟩, rfl, h.log⟩
  · refine ⟨⟨h.within, ?_⟩, logged_of_fault (fault_of_databaseFault hfault)⟩
    rcases hstate with rfl | rfl
    · show s₂.rows ≤ _
      omega
    · show s.rows + 1 ≤ _
      omega

theorem room_emit (event : Event) (h : Room cfg requests summaries repairs repeated pending (spare + 1) s t) :
    Leads Alone (bounding cfg) (Clean cfg) (emit event)
      (fun _ => Room cfg requests summaries repairs repeated pending spare) s t :=
  (room_emit_still event h).mono fun _ _ _ hr => hr.2

theorem room_saveRevision (h : Room cfg requests summaries repairs repeated [] (spare + 1) s t) :
    Leads Alone (bounding cfg) (Clean cfg) saveRevision
      (fun _ => Room cfg requests summaries repairs repeated [] spare) s t := by
  have hrows := h.rows
  intro s₁ halone a r s₂ hact
  obtain rfl : s = s₁ := halone
  rcases saveRevisionStep_cases hact with ⟨rfl, rfl | rfl⟩ | ⟨e, hfault, rfl, hstate⟩
  · exact ⟨⟨h.within, by show s₂.rows ≤ _; omega⟩, h.weaken (Nat.le_succ _)⟩
  · exact ⟨⟨h.within, by show s.rows + 1 ≤ _; omega⟩, h.log⟩
  · refine ⟨⟨h.within, ?_⟩, logged_of_fault hfault⟩
    rcases hstate with rfl | rfl
    · show s₂.rows ≤ _
      omega
    · show s.rows + 1 ≤ _
      omega

/-- **A checkpoint** takes at most one. -/
theorem room_saveFiles (h : Room cfg requests summaries repairs repeated [] (spare + 1) s t) :
    Leads Alone (bounding cfg) (Clean cfg) saveFiles
      (fun _ => Room cfg requests summaries repairs repeated [] spare) s t := by
  refine Leads.bind (room_memory rfl rfl rfl h) ?_
  rintro events s₁ t₁ ⟨rfl, rfl, h₁⟩
  split
  · rename_i hfull
    intro hlimit _
    have hlogged := h₁.logged
    have hrows := h₁.rows
    omega
  · refine Leads.bind (room_observe trivial h₁) fun _ s₂ t₂ h₂ => ?_
    exact Leads.bind (room_observe trivial h₂) fun _ s₃ t₃ h₃ => room_saveRevision h₃

theorem room_checkpoint (dirty : Bool) (h : Room cfg requests summaries repairs repeated [] (spare + 1) s t) :
    Leads Alone (bounding cfg) (Clean cfg) (checkpoint dirty)
      (fun _ => Room cfg requests summaries repairs repeated [] spare) s t := by
  cases dirty with
  | true => exact Leads.bind (room_saveFiles h) fun _ s₁ t₁ h₁ => room_observe trivial h₁
  | false => exact room_observe trivial (h.weaken (Nat.le_succ _))

/-- Without changes it takes none. -/
theorem room_checkpoint_clean (h : Room cfg requests summaries repairs repeated [] spare s t) :
    Leads Alone (bounding cfg) (Clean cfg) (checkpoint false)
      (fun _ => Room cfg requests summaries repairs repeated [] spare) s t :=
  room_observe trivial h

/-- **A request** takes one turn. -/
theorem room_invoke (messages : List Message) (limit : Int)
    (h : Room cfg (requests + 1) summaries repairs repeated pending spare s t) :
    Leads Alone (bounding cfg) (Clean cfg) (invoke messages limit)
      (fun _ => Room cfg requests summaries repairs repeated pending spare) s t := by
  refine Leads.clean (room_counted fun st hop _ => ?_)
  have hcount : t.count st = { t with invocations := t.invocations + 1 } := by rw [Tally.count, hop]
  rw [hcount]
  exact { h with requests := by have hrequests := h.requests; show t.invocations + 1 + requests ≤ _; omega }

/-- **A verification** is one of three, and has an event of its own. -/
theorem room_verify (hrepairs : repairs ≤ 2) (h : Room cfg requests summaries repairs repeated pending spare s t) :
    Leads Alone (bounding cfg) (Clean cfg) (check .verify)
      (fun _ => Room cfg requests summaries (repairs + 1) repeated pending (spare + 1)) s t := by
  refine Leads.clean (room_counted fun st hop _ => ?_)
  have hcount : t.count st = { t with verifications := t.verifications + 1 } := by rw [Tally.count, hop]
  rw [hcount]
  have hevents := h.events
  exact { h with
    verifications := Nat.succ_le_succ h.verifications
    repaired := by omega
    events := by omega }

theorem toolCalls_addUsage (m : Metrics) (usage : Option Usage) : (m.addUsage usage).toolCalls = m.toolCalls := by
  cases usage <;> rfl

theorem toolCalls_credit (m : Metrics) (reserved : Nat) (usage : Option Usage) :
    (m.credit reserved usage).toolCalls = m.toolCalls := by
  unfold Metrics.credit
  split
  · split <;> rfl
  · rfl

theorem toolCalls_reserve (m : Metrics) (cfg : Settings) (previous : Option Nat) (rows : List Nat) :
    (m.reserve cfg previous rows).toolCalls = m.toolCalls := by
  unfold Metrics.reserve
  split <;> rfl

theorem room_recordUsage {E : Exc → Live → Tally → Prop} (response : Response)
    (h : Room cfg requests summaries repairs repeated pending spare s t)
    (hE : ∀ s t, Room cfg requests summaries repairs repeated pending spare s t → E .other s t) :
    Leads Alone (bounding cfg) E (recordUsage response)
      (fun _ => Room cfg requests summaries repairs repeated pending spare) s t := by
  refine Leads.bind (room_record (toolCalls_addUsage _ _) h) fun _ s₁ t₁ h₁ => ?_
  split
  · exact hE s₁ t₁ h₁
  · exact h₁

/-- **The summary**: there is one at most, and a failure leaves the rest. -/
theorem room_summarize (previous : Option Nat) (rows : List Nat)
    (h : Room cfg requests (summaries + 1) repairs repeated pending spare s t) :
    Leads Alone (bounding cfg) (Faulty (Room cfg requests summaries repairs repeated pending spare))
      (summarize cfg previous rows) (fun _ => Room cfg requests summaries repairs repeated pending spare) s t := by
  refine Leads.bind (room_counted fun st hop _ => ?_) fun response s₁ t₁ h₁ => ?_
  · have hcount : t.count st = { t with summaries := t.summaries + 1 } := by rw [Tally.count, hop]
    rw [hcount]
    exact { h with summaries := by have hsummaries := h.summaries; show t.summaries + 1 + summaries ≤ _; omega }
  · refine Leads.bind (room_record (toolCalls_credit _ _ _) h₁) fun _ s₂ t₂ h₂ => ?_
    refine Leads.bind (room_recordUsage response h₂ fun _ _ h => ⟨rfl, h⟩) fun _ s₃ t₃ h₃ => ?_
    split
    · exact ⟨rfl, h₃⟩
    · split
      · exact ⟨rfl, h₃⟩
      · refine Leads.bind (room_uncounted trivial h₃) fun new s₄ t₄ h₄ => ?_
        split
        · exact room_record rfl h₄
        · exact h₄

theorem room_compact (history : History) (h : Room cfg requests 1 repairs repeated pending spare s t) :
    Leads Alone (bounding cfg) (Clean cfg) (compact cfg history)
      (fun _ => Room cfg requests 0 repairs repeated pending spare) s t := by
  unfold compact
  split
  · exact h.skip
  · refine Leads.bind (room_memory (toolCalls_reserve _ _ _ _) rfl rfl h) ?_
    rintro rows s₁ t₁ ⟨_, _, h₁⟩
    cases rows with
    | nil => exact h₁.skip
    | cons row rest =>
        refine Leads.tryCatch (room_summarize _ _ h₁) fun e s₂ t₂ he => ?_
        split
        · exact room_record rfl he.2
        · exact logged_of_fault he.1

theorem room_contextOf (h : Room cfg requests 1 repairs repeated pending spare s t) :
    Leads Alone (bounding cfg) (Clean cfg) (contextOf cfg)
      (fun _ => Room cfg requests 0 repairs repeated pending spare) s t := by
  unfold contextOf
  split
  · refine Leads.bind (room_observe trivial h) fun history s₁ t₁ h₁ => ?_
    refine Leads.bind (P := fun _ => Room cfg requests 0 repairs repeated pending spare) ?_ fun _ s₂ t₂ h₂ =>
      room_observe trivial h₂
    unfold onlyIf
    split
    · exact room_compact history h₁
    · exact h₁.skip
  · exact h.skip

theorem room_admitReply {E : Exc → Live → Tally → Prop} (messages : List Message)
    (h : Room cfg requests summaries repairs repeated pending spare s t) :
    Leads Alone (bounding cfg) E (admitReply cfg messages)
      (fun _ => Room cfg requests summaries repairs repeated pending spare) s t := by
  refine (room_memory ?_ ?_ ?_ h).mono fun _ _ _ hr => hr.2.2
  all_goals
    dsimp only
    split <;> rfl

theorem room_overBudget {E : Exc → Live → Tally → Prop}
    (h : Room cfg requests summaries repairs repeated pending spare s t) :
    Leads Alone (bounding cfg) E (overBudget cfg)
      (fun _ => Room cfg requests summaries repairs repeated pending spare) s t := by
  refine (room_memory ?_ ?_ ?_ h).mono fun _ _ _ hr => hr.2.2
  all_goals
    dsimp only
    split <;> rfl

/-- The other limits have other texts. -/
theorem logged_runLimit {message : String}
    (h : message ∉ ["Activity budget reached", "Activity budget reached before checkpoint"]) :
    Logged cfg (.runLimit message) := by
  rintro _ (heq | heq)
  · exact h (by rw [Exc.runLimit.inj heq]; exact List.mem_cons_self)
  · exact h (by rw [Exc.runLimit.inj heq]; exact List.mem_cons_of_mem _ List.mem_cons_self)

/-- **A request of the editor.** -/
theorem room_askModel (messages : List Message)
    (h : Room cfg (requests + 1) summaries repairs repeated pending spare s t) :
    Leads Alone (bounding cfg) (Clean cfg) (askModel cfg messages)
      (fun _ => Room cfg requests summaries repairs repeated pending spare) s t := by
  unfold askModel
  split
  · exact logged_runLimit (by decide)
  · refine Leads.bind (room_admitReply messages h) fun limit s₁ t₁ h₁ => ?_
    cases limit with
    | none => exact logged_runLimit (by decide)
    | some l =>
        refine Leads.bind (room_invoke messages l h₁) fun response s₂ t₂ h₂ => ?_
        refine Leads.bind (room_recordUsage response h₂ fun _ _ _ => logged_of_fault rfl) fun _ s₃ t₃ h₃ => ?_
        refine Leads.bind (room_overBudget h₃) fun overrun s₄ t₄ h₄ => ?_
        split
        · exact logged_runLimit (by decide)
        · split
          · exact Leads.bind (room_record rfl h₄) fun _ _ _ _ => logged_runLimit (by decide)
          · exact h₄

/-- **A tool** is executed at most once for a counted call. -/
theorem room_callTool (call : Call)
    (h : Room cfg requests summaries repairs repeated [call.key s.revision] spare s t) :
    Leads Alone (bounding cfg) (Clean cfg) (callTool cfg call)
      (fun _ => Room cfg requests summaries repairs repeated [] spare) s t := by
  unfold callTool
  split
  · refine leads_caught (Watched.await fun s₁ halone a r s₂ hact => ?_)
    obtain rfl : s = s₁ := halone
    obtain ⟨⟨revision, rfl⟩, hout⟩ := executeStep_cases hact
    have hroom : Room cfg requests summaries repairs repeated [] spare { s with revision }
        { t with executed := call.key s.revision :: t.executed } := { h with
      executed := by
        have hexecuted := h.executed
        simpa using hexecuted
      keys := fun key => by
        have hkeys := h.keys key
        rw [List.count_cons, List.count_nil] at hkeys ⊢
        omega }
    refine ⟨⟨hroom.within, Nat.le_trans (Nat.le_add_right _ _) hroom.rows⟩, ?_⟩
    rcases hout with ⟨_, _, _, rfl⟩ | ⟨e, hfault, rfl, _⟩
    · exact hroom
    · show if e.isException then _ else _
      split
      · exact hroom
      · exact logged_of_fault hfault
  · exact h.weaken (Nat.le_refl _)

/-- A call is counted: two events, and one execution of its key. -/
theorem Room.call {key : Key} (h : Room cfg requests summaries repairs repeated [] spare s t)
    (hcalls : s.metrics.toolCalls + 1 ≤ cfg.maxToolCalls) (hrepeat : (key :: repeated).count key ≤ 2) :
    Room cfg requests summaries repairs (key :: repeated) [key] (spare + 2)
      { s with metrics := { s.metrics with toolCalls := s.metrics.toolCalls + 1 } } t where
  requests := h.requests
  summaries := h.summaries
  verifications := h.verifications
  repaired := h.repaired
  executed := Nat.succ_le_succ h.executed
  calls := hcalls
  keys k := by
    have hkeys := h.keys k
    rw [List.count_nil] at hkeys
    rw [List.count_cons, List.count_cons, List.count_nil]
    omega
  repeats k := by
    by_cases hk : key = k
    · rw [← hk]
      exact hrepeat
    · rw [List.count_cons_of_ne hk]
      exact h.repeats k
  logged := h.logged
  events := by
    have hevents := h.events
    show s.events + 2 * (cfg.maxToolCalls - (s.metrics.toolCalls + 1)) + (3 - repairs) + (spare + 2) ≤ eventLimit cfg
    omega

/-- **One call**: at most two events and one execution. -/
theorem room_runCall (call : Call) (ed : Editor) (h : Room cfg requests summaries repairs ed.repeated [] spare s t) :
    Leads Alone (bounding cfg) (Clean cfg) (runCall cfg call ed) (fun ed' s' t' => ed'.repairs = ed.repairs ∧
      Room cfg requests summaries repairs ed'.repeated [] spare s' t') s t := by
  refine Leads.bind (P := fun counts s' t' => counts = (s.metrics.toolCalls + 1, s.revision) ∧
    s' = { s with metrics := { s.metrics with toolCalls := s.metrics.toolCalls + 1 } } ∧ t' = t) ?_ ?_
  · exact leads_memory fun d => ⟨⟨h.within, Nat.le_trans (Nat.le_add_right _ _) h.rows⟩, rfl, rfl, rfl⟩
  · rintro _ _ _ ⟨rfl, rfl, rfl⟩
    dsimp only
    split
    · exact logged_runLimit (by decide)
    · rename_i hcalls
      split
      · exact logged_runLimit (by decide)
      · rename_i hrepeat
        refine Leads.bind (room_emit_still _ (h.call (Nat.le_of_not_lt hcalls) (Nat.le_of_lt_succ (Nat.lt_of_not_le hrepeat)))) ?_
        rintro _ s₁ t₁ ⟨hrevision, h₁⟩
        refine Leads.bind (room_callTool call (by rw [hrevision]; exact h₁)) fun outcome s₂ t₂ h₂ => ?_
        refine Leads.bind (P := fun _ => Room cfg requests summaries repairs (call.key s.revision :: ed.repeated) [] spare)
          ?_ fun message s₃ t₃ h₃ => ⟨rfl, h₃⟩
        refine Leads.bind (room_emit _ h₂) fun _ s₃ t₃ h₃ => ?_
        split
        · split
          · rename_i hfatal
            exact logged_of_fault (fault_of_isFatal hfatal)
          · exact h₃
        · exact Leads.bind (room_record rfl h₃) fun _ _ _ h₄ => h₄

theorem room_runCalls (calls : List Call) (ed : Editor)
    (h : Room cfg requests summaries repairs ed.repeated [] spare s t) :
    Leads Alone (bounding cfg) (Clean cfg) (runCalls cfg calls ed) (fun ed' s' t' => ed'.repairs = ed.repairs ∧
      Room cfg requests summaries repairs ed'.repeated [] spare s' t') s t := by
  induction calls generalizing s t ed with
  | nil => exact ⟨rfl, h⟩
  | cons call calls ih =>
      refine Leads.bind (room_runCall call ed h) ?_
      rintro ed₁ s₁ t₁ ⟨hrepairs, h₁⟩
      rw [← hrepairs]
      exact ih ed₁ h₁

/-- What a turn leaves: another turn has a verification left. -/
def TurnRoom (cfg : Settings) (requests spare : Nat) (r : Option String × Editor) (s : Live) (t : Tally) : Prop :=
  ∃ repairs, Room cfg requests 0 repairs r.2.repeated [] spare s t ∧
    (r.1 = none → r.2.repairs = repairs ∧ repairs ≤ 2)

theorem room_finalReply (response : Response) (ed : Editor) (hrepairs : ed.repairs ≤ 2)
    (h : Room cfg requests 0 ed.repairs ed.repeated [] (spare + 1) s t) :
    Leads Alone (bounding cfg) (Clean cfg) (finalReply response ed) (TurnRoom cfg requests spare) s t := by
  refine Leads.bind (room_emit _ h) fun _ s₁ t₁ h₁ => ?_
  refine Leads.bind (room_verify hrepairs h₁) fun checks s₂ t₂ h₂ => ?_
  refine Leads.bind (room_emit _ h₂) fun _ s₃ t₃ h₃ => ?_
  refine Leads.bind (room_checkpoint_clean h₃) fun _ s₄ t₄ h₄ => ?_
  split
  · exact ⟨ed.repairs + 1, h₄, nofun⟩
  · split
    · exact logged_of_fault rfl
    · rename_i hleft
      exact Leads.bind (room_record rfl h₄) fun _ s₅ t₅ h₅ => ⟨ed.repairs + 1, h₅, fun _ => ⟨rfl, by omega⟩⟩

theorem room_runTools (calls : List Call) (ed : Editor) (hrepairs : ed.repairs ≤ 2)
    (h : Room cfg requests 0 ed.repairs ed.repeated [] (spare + 1) s t) :
    Leads Alone (bounding cfg) (Clean cfg) (runTools cfg calls ed) (TurnRoom cfg requests spare) s t := by
  refine Leads.bind (room_memory rfl rfl rfl h) ?_
  rintro before s₁ t₁ ⟨_, _, h₁⟩
  refine Leads.bind (room_runCalls calls ed h₁) ?_
  rintro ed₁ s₂ t₂ ⟨heq, h₂⟩
  refine Leads.bind (room_memory rfl rfl rfl h₂) ?_
  rintro after s₃ t₃ ⟨_, _, h₃⟩
  exact Leads.bind (room_checkpoint _ h₃) fun _ s₄ t₄ h₄ => ⟨ed.repairs, h₄, fun _ => ⟨heq, hrepairs⟩⟩

/-- **Step lemma**: a turn takes one request and two events. -/
theorem room_runTurn (turn : Nat) (ed : Editor) (hrepairs : ed.repairs ≤ 2)
    (h : Room cfg (requests + 1) 0 ed.repairs ed.repeated [] (spare + 2) s t) :
    Leads Alone (bounding cfg) (Clean cfg) (runTurn cfg turn ed) (TurnRoom cfg requests spare) s t := by
  refine Leads.bind (room_record rfl h) fun _ s₁ t₁ h₁ => ?_
  refine Leads.bind (room_emit _ h₁) fun _ s₂ t₂ h₂ => ?_
  refine Leads.bind (room_checkpoint_clean h₂) fun _ s₃ t₃ h₃ => ?_
  refine Leads.bind (room_askModel ed.messages h₃) fun response s₄ t₄ h₄ => ?_
  split
  · exact logged_of_fault rfl
  · split
    · exact room_finalReply response _ hrepairs h₄
    · exact room_runTools response.toolCalls _ hrepairs h₄

/-- **Run lemma**: all turns, with one event left for the last checkpoint. -/
theorem room_runTurns (turns : Nat) (ed : Editor) (hrepairs : ed.repairs ≤ 2)
    (h : Room cfg turns 0 ed.repairs ed.repeated [] (2 * turns + 1) s t) :
    Leads Alone (bounding cfg) (Clean cfg) (runTurns cfg turns ed) (fun _ s' t' =>
      ∃ requests repairs repeated, Room cfg requests 0 repairs repeated [] 1 s' t') s t := by
  induction turns generalizing s t ed with
  | zero => exact logged_runLimit (by decide)
  | succ turns ih =>
      have hsplit : 2 * (turns + 1) + 1 = 2 * turns + 1 + 2 := by omega
      rw [hsplit] at h
      refine Leads.bind (room_runTurn (cfg.maxTurns - turns) ed hrepairs h) ?_
      rintro ⟨summary, ed'⟩ s₁ t₁ ⟨repairs, h₁, hnext⟩
      cases summary with
      | some text => exact ⟨turns, repairs, ed'.repeated, h₁.weaken (by omega)⟩
      | none =>
          obtain ⟨heq, hle⟩ := hnext rfl
          exact ih ed' (by rw [heq]; exact hle) (by rw [heq]; exact h₁)

theorem room_readInitial (paths : List String) (h : Room cfg requests summaries repairs repeated pending spare s t) :
    Leads Alone (bounding cfg) (Clean cfg) (readInitial paths)
      (fun _ => Room cfg requests summaries repairs repeated pending spare) s t := by
  induction paths generalizing s t with
  | nil => exact h
  | cons path paths ih =>
      refine Leads.bind (P := fun _ => Room cfg requests summaries repairs repeated pending spare) ?_ ?_
      · refine leads_caught (Watched.mono (room_uncounted (trivial : (Op.read path).uncounted) h) fun r s₁ t₁ hr => ?_)
        cases r with
        | ok content => exact hr
        | error e =>
            show if e.isException then _ else _
            split
            · exact hr.2
            · exact logged_of_fault hr.1
      · exact fun _ s₁ t₁ h₁ => Leads.bind (ih h₁) fun _ s₂ t₂ h₂ => h₂

theorem room_checkSandbox (h : Room cfg requests summaries repairs repeated pending (spare + 2) s t) :
    Leads Alone (bounding cfg) (Clean cfg) checkSandbox
      (fun _ => Room cfg requests summaries repairs repeated pending spare) s t := by
  refine Leads.bind (room_emit _ h) fun _ s₁ t₁ h₁ => ?_
  refine Leads.bind (room_observe trivial h₁) fun checks s₂ t₂ h₂ => ?_
  obtain ⟨ok, explanation⟩ := checks
  cases ok with
  | true => exact room_emit _ h₂
  | false => exact Leads.bind (room_emit _ h₂) fun _ _ _ _ => logged_of_fault rfl

theorem room_runEditor (h : Room cfg cfg.maxTurns 1 0 [] [] (2 * cfg.maxTurns + 3) s t) :
    Leads Alone (bounding cfg) (Clean cfg) (runEditor cfg) (fun _ s' t' =>
      ∃ requests repairs repeated, Room cfg requests 0 repairs repeated [] 1 s' t') s t := by
  refine Leads.bind (room_checkSandbox h) fun _ s₁ t₁ h₁ => ?_
  refine Leads.bind (room_contextOf h₁) fun context s₂ t₂ h₂ => ?_
  refine Leads.bind (room_observe trivial h₂) fun listing s₃ t₃ h₃ => ?_
  refine Leads.bind (room_readInitial _ h₃) fun files s₄ t₄ h₄ => ?_
  exact Leads.bind (room_runTurns cfg.maxTurns _ (Nat.zero_le 2) h₄) fun _ s₅ t₅ h₅ => h₅

theorem room_run (h : Room cfg cfg.maxTurns 1 0 [] [] (2 * cfg.maxTurns + 4) s t) :
    Leads Alone (bounding cfg) (Clean cfg) (run cfg) (fun _ s' t' =>
      ∃ requests repairs repeated, Room cfg requests 0 repairs repeated [] 0 s' t') s t := by
  refine Leads.bind (room_emit _ h) fun _ s₁ t₁ h₁ => ?_
  refine Leads.bind (room_observe trivial h₁) fun _ s₂ t₂ h₂ => ?_
  refine Leads.bind (room_observe trivial h₂) fun _ s₃ t₃ h₃ => ?_
  refine Leads.bind (room_runEditor h₃) ?_
  rintro result s₄ t₄ ⟨requests, repairs, repeated, h₄⟩
  exact Leads.bind (room_saveFiles h₄) fun _ s₅ t₅ h₅ => ⟨requests, repairs, repeated, h₅⟩

end Room

/-! ## §4. Runs. -/

theorem room_initial (cfg : Settings) :
    Room cfg cfg.maxTurns 1 0 [] [] (2 * cfg.maxTurns + 4) Live.initial Tally.zero where
  requests := by simp [Tally.zero]
  summaries := by simp [Tally.zero]
  verifications := Nat.le_refl _
  repaired := Nat.zero_le _
  executed := Nat.le_refl _
  calls := Nat.zero_le _
  keys _ := Nat.le_refl _
  repeats _ := Nat.zero_le _
  logged := rfl
  events := by
    show 0 + 2 * (cfg.maxToolCalls - 0) + (3 - 0) + (2 * cfg.maxTurns + 4) ≤ eventLimit cfg
    unfold eventLimit
    omega

end WebBuilder.Conversation
