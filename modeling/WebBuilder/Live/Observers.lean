/-
  WebBuilder.Live.Observers — live events for browsers that may be slow.

  Every WebSocket of a project has a queue of 64 items.  `Service.publish`
  puts an event into each; a full queue is emptied and gets one `resync` item
  instead.  Two tasks serve the socket: `receive` puts a `resync` when the
  browser asks for one (and waits while the queue is full), `send` takes items
  one by one, sends events as they are and answers `resync` with a snapshot
  read from the database.

  Main results:
    * `publishTo_ok` — publishing neither raises nor blocks;
    * `no_event_missed` — every event published since the subscription is
      accounted for, over all schedules;
    * `resync_in_hand` — between taking a `resync` item and reading its
      snapshot, the sender alone accounts for the events before it.

  Events are numbered in the order of their publication, and a `resync` item
  carries how many had been published when it was enqueued: history that no
  code reads.
-/
import WebBuilder.Async.BoundedQueue

namespace WebBuilder.Live

open WebBuilder.Async

/-! ## §1. One observer. -/

/-- `asyncio.Queue(maxsize=64)`. -/
def QUEUE_SIZE : Nat := 64

inductive Item (ε : Type) where
  | event (number : Nat) (e : ε)
  /-- `{'e': 'resync'}`, enqueued after `published` events. -/
  | resync (published : Nat)
  deriving DecidableEq

abbrev EventQueue (ε : Type) := BoundedQueue (Item ε) QUEUE_SIZE

/-- Where `send` is. -/
inductive Sender (ε : Type) where
  /-- In `send_snapshot`, before its read; the `resync` item that caused it, or
  `none` for the first snapshot. -/
  | reading (cause : Option Nat)
  /-- In `send_json` of a snapshot. -/
  | sendingSnapshot
  /-- In `queue.get()`. -/
  | waiting
  /-- In `send_json` of an event. -/
  | sending (number : Nat) (e : ε)
  deriving DecidableEq

structure Observer (ε : Type) where
  queue : EventQueue ε
  sender : Sender ε
  /-- `receive` is inside `queue.put({"e": "resync"})`. -/
  putting : Bool
  /-- History: how many events had been published at the subscription. -/
  since : Nat
  /-- History: events that `send_json` was called with, oldest first. -/
  sent : List (Nat × ε)
  /-- History: the snapshot reads that `resync` items caused, with the events
  committed at that moment. -/
  reads : List (Nat × List ε)

def Observer.new {ε : Type} (published : Nat) : Observer ε :=
  ⟨.new, .reading none, false, published, [], []⟩

/-- The loop body of `publish`, for one queue. -/
def publishTo {ε : Type} (queue : EventQueue ε) (event resync : Item ε) :
    Except QueueError (EventQueue ε) :=
  if queue.isFull then
    match queue.drain with
    | .ok queue => queue.putNowait resync
    | .error e => .error e
  else queue.putNowait event

/-- **Publishing** never raises: it appends the event, or leaves only a resync. -/
theorem publishTo_ok {ε : Type} (queue : EventQueue ε) (event resync : Item ε) :
    ∃ q, publishTo queue event resync = .ok q ∧
      (q.items = queue.items ++ [event] ∨ q.items = [resync]) := by
  unfold publishTo
  cases hfull : queue.isFull with
  | false =>
      obtain ⟨q, hput, hitems⟩ := BoundedQueue.putNowait_ok (a := event) hfull
      exact ⟨q, hput, .inl hitems⟩
  | true =>
      obtain ⟨q, hdrain, hempty⟩ := queue.drain_ok
      obtain ⟨q', hput, hitems⟩ :=
        BoundedQueue.putNowait_ok (a := resync) (BoundedQueue.not_full_of_empty hempty)
      refine ⟨q', ?_, .inr (by rw [hitems, hempty]; rfl)⟩
      rw [hdrain]
      exact hput

/-! ## §2. The hub of a project. -/

/-- The event log of a project and the observers by connection. -/
structure Hub (ε : Type) where
  committed : List ε
  published : List ε
  observers : Nat → Option (Observer ε)

inductive Action (ε : Type) where
  /-- A transaction commits an event. -/
  | commit (e : ε)
  /-- `publish(chat_id, event)`. -/
  | publish (e : ε)
  | subscribe (connection : Nat)
  | disconnect (connection : Nat)
  /-- `queue.get()` returns. -/
  | take (connection : Nat)
  /-- `queue.get()` times out; a heartbeat is sent. -/
  | heartbeat (connection : Nat)
  /-- The first read of `send_snapshot`. -/
  | read (connection : Nat)
  /-- `send_json` returns. -/
  | delivered (connection : Nat)
  /-- The browser asks for a resync. -/
  | request (connection : Nat)
  /-- `queue.put` of `receive` goes through. -/
  | put (connection : Nat)

variable {ε : Type}

def Observer.publish (o : Observer ε) (number : Nat) (e : ε) : Observer ε :=
  match publishTo o.queue (.event number e) (.resync (number + 1)) with
  | .ok queue => { o with queue }
  | .error _ => o

def Observer.take (o : Observer ε) : Option (Observer ε) :=
  match o.sender, o.queue.getNowait with
  | .waiting, .ok (.event n e, queue) =>
      some { o with queue, sender := .sending n e, sent := o.sent ++ [(n, e)] }
  | .waiting, .ok (.resync published, queue) =>
      some { o with queue, sender := .reading (some published) }
  | _, _ => none

def Observer.read (o : Observer ε) (committed : List ε) : Option (Observer ε) :=
  match o.sender with
  | .reading none => some { o with sender := .sendingSnapshot }
  | .reading (some published) =>
      some { o with sender := .sendingSnapshot, reads := o.reads ++ [(published, committed)] }
  | _ => none

def Observer.delivered (o : Observer ε) : Option (Observer ε) :=
  match o.sender with
  | .sendingSnapshot | .sending .. => some { o with sender := .waiting }
  | _ => none

def Observer.heartbeat (o : Observer ε) : Option (Observer ε) :=
  match o.sender with
  | .waiting => some o
  | _ => none

def Observer.request (o : Observer ε) : Option (Observer ε) :=
  if o.putting then none else some { o with putting := true }

def Observer.put (o : Observer ε) (published : Nat) : Option (Observer ε) :=
  if o.putting then
    match o.queue.putNowait (.resync published) with
    | .ok queue => some { o with queue, putting := false }
    | .error _ => none
  else none

/-- A step of one observer. -/
def Hub.update (h : Hub ε) (connection : Nat) (f : Observer ε → Option (Observer ε)) :
    Option (Hub ε) :=
  ((h.observers connection).bind f).map fun o =>
    { h with observers := Function.update h.observers connection (some o) }

/-- One step, if it can happen. -/
def Hub.step [DecidableEq ε] (h : Hub ε) : Action ε → Option (Hub ε)
  | .commit e => some { h with committed := h.committed ++ [e] }
  -- `emit` and `finish` publish what they have committed
  | .publish e =>
      if e ∈ h.committed then
        some { h with
          published := h.published ++ [e]
          observers := fun k => (h.observers k).map fun o => o.publish h.published.length e }
      else none
  | .subscribe k =>
      if (h.observers k).isSome then none
      else some { h with observers := Function.update h.observers k (some (.new h.published.length)) }
  | .disconnect k => some { h with observers := Function.update h.observers k none }
  | .take k => h.update k Observer.take
  | .heartbeat k => h.update k Observer.heartbeat
  | .read k => h.update k fun o => o.read h.committed
  | .delivered k => h.update k Observer.delivered
  | .request k => h.update k Observer.request
  | .put k => h.update k fun o => o.put h.published.length

def Hub.run [DecidableEq ε] (h : Hub ε) (actions : List (Action ε)) : Option (Hub ε) :=
  actions.foldlM Hub.step h

/-! ## §3. What becomes of an event. -/

/-- Event `n` is in the queue, or was sent, or a later `resync` is in the queue
or has caused a snapshot read that saw it. -/
def Settled (published : List ε) (o : Observer ε) (n : Nat) : Prop :=
  (∃ e, Item.event n e ∈ o.queue.items) ∨ (∃ e, (n, e) ∈ o.sent) ∨
    ∃ after, n < after ∧ (Item.resync after ∈ o.queue.items ∨
      ∃ events, (after, events) ∈ o.reads ∧ ∀ e, published[n]? = some e → e ∈ events)

/-- The sender has taken a later `resync` and is about to read its snapshot. -/
def InHand (o : Observer ε) (n : Nat) : Prop :=
  ∃ after, n < after ∧ o.sender = .reading (some after)

def Accounted (published : List ε) (o : Observer ε) (n : Nat) : Prop :=
  Settled published o n ∨ InHand o n

def Item.number? : Item ε → Option Nat
  | .event n _ => some n
  | .resync _ => none

/-- The numbers of the events sent, then of those that wait. -/
def Observer.numbers (o : Observer ε) : List Nat :=
  o.sent.map Prod.fst ++ o.queue.items.filterMap Item.number?

/-- The invariant of one observer. -/
structure Good (published : List ε) (o : Observer ε) : Prop where
  accounted : ∀ n, o.since ≤ n → n < published.length → Accounted published o n
  waiting : ∀ n e, Item.event n e ∈ o.queue.items → published[n]? = some e
  sent : ∀ n e, (n, e) ∈ o.sent → published[n]? = some e
  ordered : o.numbers.Pairwise (· < ·)
  queued : ∀ after, Item.resync after ∈ o.queue.items → after ≤ published.length
  inHand : ∀ after, o.sender = .reading (some after) → after ≤ published.length
  reads : ∀ after events, (after, events) ∈ o.reads →
    after ≤ published.length ∧ ∀ n e, n < after → published[n]? = some e → e ∈ events

theorem good_new (published : List ε) : Good published (.new published.length) := by
  constructor
  · intro n hn hlt
    exact absurd hn (Nat.not_le_of_lt hlt)
  all_goals simp [Observer.new, Observer.numbers]

/-- Every number of an observer is one of a published event. -/
theorem Good.numbers_lt {published : List ε} {o : Observer ε} (h : Good published o) {n : Nat}
    (hn : n ∈ o.numbers) : n < published.length := by
  have hsome : ∃ e, published[n]? = some e := by
    rcases List.mem_append.mp hn with hn | hn
    · obtain ⟨⟨n', e⟩, hmem, rfl⟩ := List.mem_map.mp hn
      exact ⟨e, h.sent n' e hmem⟩
    · obtain ⟨item, hmem, hnum⟩ := List.mem_filterMap.mp hn
      cases item with
      | event n' e =>
          obtain rfl := Option.some.inj hnum
          exact ⟨e, h.waiting n' e hmem⟩
      | resync after => cases hnum
  obtain ⟨e, he⟩ := hsome
  exact (List.getElem?_eq_some_iff.mp he).1

/-! ## §4. Every step keeps the invariant. -/

/-- What was published stays in its place. -/
theorem getElem?_publish {published : List ε} {n : Nat} {e x : ε} (h : published[n]? = some e) :
    (published ++ [x])[n]? = some e := by
  rw [List.getElem?_append_left (List.getElem?_eq_some_iff.mp h).1, h]

theorem getElem?_publish_lt {published : List ε} {n : Nat} {e x : ε} (hn : n < published.length)
    (h : (published ++ [x])[n]? = some e) : published[n]? = some e := by
  rwa [List.getElem?_append_left hn] at h

/-- **Publishing** keeps the invariant: the event is queued, or a `resync`
after it replaces everything. -/
theorem good_publish {published : List ε} {o : Observer ε} (h : Good published o) (e : ε) :
    Good (published ++ [e]) (o.publish published.length e) := by
  obtain ⟨q, hq, hitems⟩ := publishTo_ok o.queue (.event published.length e) (.resync (published.length + 1))
  have ho : o.publish published.length e = { o with queue := q } := by
    unfold Observer.publish
    rw [hq]
  have hlen : (published ++ [e]).length = published.length + 1 := by simp
  have hreads : ∀ after events, (after, events) ∈ o.reads →
      after ≤ (published ++ [e]).length ∧
        ∀ n x, n < after → (published ++ [e])[n]? = some x → x ∈ events := by
    intro after events hmem
    obtain ⟨hle, hsee⟩ := h.reads after events hmem
    refine ⟨by omega, fun n x hn hx => hsee n x hn (getElem?_publish_lt (by omega) hx)⟩
  rw [ho]
  rcases hitems with hitems | hitems
  · -- there was room
    constructor
    · intro n hn hlt
      show Settled _ _ _ ∨ InHand _ _
      by_cases hnew : n = published.length
      · subst hnew
        refine .inl (.inl ⟨e, ?_⟩)
        show _ ∈ q.items
        rw [hitems]
        simp
      · have hlt' : n < published.length := by omega
        rcases h.accounted n hn hlt' with hset | hhand
        · refine .inl ?_
          rcases hset with ⟨x, hx⟩ | hsent | ⟨after, hafter, hx | ⟨events, hmem, hsee⟩⟩
          · refine .inl ⟨x, ?_⟩
            show _ ∈ q.items
            rw [hitems]
            exact List.mem_append_left _ hx
          · exact .inr (.inl hsent)
          · refine .inr (.inr ⟨after, hafter, .inl ?_⟩)
            show _ ∈ q.items
            rw [hitems]
            exact List.mem_append_left _ hx
          · exact .inr (.inr ⟨after, hafter, .inr ⟨events, hmem,
              fun x hx => hsee x (getElem?_publish_lt hlt' hx)⟩⟩)
        · exact .inr hhand
    · intro n x hx
      change _ ∈ q.items at hx
      rw [hitems] at hx
      rcases List.mem_append.mp hx with hx | hx
      · exact getElem?_publish (h.waiting n x hx)
      · simp only [List.mem_singleton, Item.event.injEq] at hx
        obtain ⟨rfl, rfl⟩ := hx
        simp
    · exact fun n x hx => getElem?_publish (h.sent n x hx)
    · show (o.sent.map Prod.fst ++ q.items.filterMap Item.number?).Pairwise (· < ·)
      rw [hitems, List.filterMap_append, ← List.append_assoc, List.pairwise_append]
      refine ⟨h.ordered, by simp [Item.number?], ?_⟩
      intro a ha b hb
      simp only [Item.number?, List.filterMap_cons, List.filterMap_nil, List.mem_singleton] at hb
      rw [hb]
      exact h.numbers_lt ha
    · intro after hx
      change _ ∈ q.items at hx
      rw [hitems] at hx
      have hle := h.queued after (by simpa using hx)
      omega
    · intro after hx
      have hle := h.inHand after hx
      omega
    · exact hreads
  · -- the queue was full: one item accounts for everything so far
    constructor
    · intro n hn hlt
      refine .inl (.inr (.inr ⟨published.length + 1, by omega, .inl ?_⟩))
      show _ ∈ q.items
      rw [hitems]
      simp
    · intro n x hx
      change _ ∈ q.items at hx
      rw [hitems] at hx
      simp at hx
    · exact fun n x hx => getElem?_publish (h.sent n x hx)
    · show (o.sent.map Prod.fst ++ q.items.filterMap Item.number?).Pairwise (· < ·)
      rw [hitems]
      have hsent := (List.pairwise_append.mp h.ordered).1
      simpa [List.filterMap_cons, Item.number?] using hsent
    · intro after hx
      change _ ∈ q.items at hx
      rw [hitems] at hx
      simp only [List.mem_singleton, Item.resync.injEq] at hx
      omega
    · intro after hx
      have hle := h.inHand after hx
      omega
    · exact hreads

/-- **Taking an item** moves its event to those sent, or its `resync` into the
sender's hands. -/
theorem good_take {published : List ε} {o o' : Observer ε} (h : Good published o)
    (hstep : o.take = some o') : Good published o' := by
  unfold Observer.take at hstep
  split at hstep
  · rename_i n e queue hsender hget
    obtain rfl := Option.some.inj hstep
    have hitems := BoundedQueue.getNowait_ok hget
    have hold : ∀ item, item ∈ queue.items → item ∈ o.queue.items := fun item hmem => by
      rw [hitems]
      exact List.mem_cons_of_mem _ hmem
    constructor
    · intro k hk hlt
      rcases h.accounted k hk hlt with hset | ⟨after, _, hhand⟩
      · refine .inl ?_
        rcases hset with ⟨x, hx⟩ | ⟨x, hx⟩ | ⟨after, hafter, hx | hread⟩
        · rw [hitems] at hx
          rcases List.mem_cons.mp hx with hx | hx
          · obtain ⟨rfl, rfl⟩ := Item.event.inj hx
            exact .inr (.inl ⟨x, List.mem_append_right _ (List.mem_singleton.mpr rfl)⟩)
          · exact .inl ⟨x, hx⟩
        · exact .inr (.inl ⟨x, List.mem_append_left _ hx⟩)
        · rw [hitems] at hx
          rcases List.mem_cons.mp hx with hx | hx
          · cases hx
          · exact .inr (.inr ⟨after, hafter, .inl hx⟩)
        · exact .inr (.inr ⟨after, hafter, .inr hread⟩)
      · rw [hsender] at hhand
        cases hhand
    · exact fun k x hx => h.waiting k x (hold _ hx)
    · intro k x hx
      rcases List.mem_append.mp hx with hx | hx
      · exact h.sent k x hx
      · simp only [List.mem_singleton, Prod.mk.injEq] at hx
        obtain ⟨rfl, rfl⟩ := hx
        exact h.waiting k x (by rw [hitems]; exact List.mem_cons_self)
    · -- the number moves from the front of the queue to the end of those sent
      have hord := h.ordered
      unfold Observer.numbers at hord ⊢
      rw [hitems] at hord
      simpa [List.filterMap_cons, Item.number?] using hord
    · exact fun after hx => h.queued after (hold _ hx)
    · intro after hx
      cases hx
    · exact h.reads
  · rename_i published' queue hsender hget
    obtain rfl := Option.some.inj hstep
    have hitems := BoundedQueue.getNowait_ok hget
    have hold : ∀ item, item ∈ queue.items → item ∈ o.queue.items := fun item hmem => by
      rw [hitems]
      exact List.mem_cons_of_mem _ hmem
    constructor
    · intro k hk hlt
      rcases h.accounted k hk hlt with hset | ⟨after, _, hhand⟩
      · rcases hset with ⟨x, hx⟩ | hsent | ⟨after, hafter, hx | hread⟩
        · rw [hitems] at hx
          rcases List.mem_cons.mp hx with hx | hx
          · cases hx
          · exact .inl (.inl ⟨x, hx⟩)
        · exact .inl (.inr (.inl hsent))
        · rw [hitems] at hx
          rcases List.mem_cons.mp hx with hx | hx
          · obtain rfl := Item.resync.inj hx
            exact .inr ⟨after, hafter, rfl⟩
          · exact .inl (.inr (.inr ⟨after, hafter, .inl hx⟩))
        · exact .inl (.inr (.inr ⟨after, hafter, .inr hread⟩))
      · rw [hsender] at hhand
        cases hhand
    · exact fun k x hx => h.waiting k x (hold _ hx)
    · exact h.sent
    · have hord := h.ordered
      unfold Observer.numbers at hord ⊢
      rw [hitems] at hord
      simpa [List.filterMap_cons, Item.number?] using hord
    · exact fun after hx => h.queued after (hold _ hx)
    · intro after hx
      obtain rfl := Option.some.inj (Sender.reading.inj hx)
      exact h.queued published' (by rw [hitems]; exact List.mem_cons_self)
    · exact h.reads
  · cases hstep

/-- **Reading a snapshot** sees every event published before. -/
theorem good_read {published committed : List ε} {o o' : Observer ε} (h : Good published o)
    (hcommitted : ∀ e ∈ published, e ∈ committed) (hstep : o.read committed = some o') :
    Good published o' := by
  have hsee : ∀ n e, published[n]? = some e → e ∈ committed := fun n e he =>
    hcommitted e (List.mem_of_getElem? he)
  unfold Observer.read at hstep
  split at hstep
  · rename_i hsender
    obtain rfl := Option.some.inj hstep
    refine ⟨fun n hn hlt => ?_, h.waiting, h.sent, h.ordered, h.queued, fun _ hx => (by cases hx), h.reads⟩
    rcases h.accounted n hn hlt with hset | ⟨after, _, hhand⟩
    · exact .inl hset
    · rw [hsender] at hhand
      cases hhand
  · rename_i published' hsender
    obtain rfl := Option.some.inj hstep
    refine ⟨fun n hn hlt => .inl ?_, h.waiting, h.sent, h.ordered, h.queued, fun _ hx => (by cases hx), ?_⟩
    · rcases h.accounted n hn hlt with hset | ⟨after, hafter, hhand⟩
      · rcases hset with hx | hx | ⟨after, hafter, hx | ⟨events, hmem, hev⟩⟩
        · exact .inl hx
        · exact .inr (.inl hx)
        · exact .inr (.inr ⟨after, hafter, .inl hx⟩)
        · exact .inr (.inr ⟨after, hafter, .inr ⟨events, List.mem_append_left _ hmem, hev⟩⟩)
      · rw [hsender] at hhand
        obtain rfl := Option.some.inj (Sender.reading.inj hhand)
        exact .inr (.inr ⟨published', hafter, .inr ⟨committed,
          List.mem_append_right _ (List.mem_singleton.mpr rfl), fun e he => hsee n e he⟩⟩)
    · intro after events hmem
      rcases List.mem_append.mp hmem with hmem | hmem
      · exact h.reads after events hmem
      · simp only [List.mem_singleton, Prod.mk.injEq] at hmem
        obtain ⟨rfl, rfl⟩ := hmem
        exact ⟨h.inHand after hsender, fun n e _ he => hsee n e he⟩
  · cases hstep

/-- The sender goes back to waiting. -/
theorem good_delivered {published : List ε} {o o' : Observer ε} (h : Good published o)
    (hstep : o.delivered = some o') : Good published o' := by
  have hidle : (∀ after, o.sender ≠ .reading (some after)) → Good published { o with sender := .waiting } := by
    intro hno
    refine ⟨fun n hn hlt => ?_, h.waiting, h.sent, h.ordered, h.queued, fun _ hx => (by cases hx), h.reads⟩
    rcases h.accounted n hn hlt with hset | ⟨after, _, hhand⟩
    · exact .inl hset
    · exact absurd hhand (hno after)
  unfold Observer.delivered at hstep
  split at hstep
  · rename_i hsender
    obtain rfl := Option.some.inj hstep
    exact hidle fun after hx => by simp [hsender] at hx
  · rename_i n e hsender
    obtain rfl := Option.some.inj hstep
    exact hidle fun after hx => by simp [hsender] at hx
  · cases hstep

/-- **The put of `receive`** adds one more `resync`. -/
theorem good_put {published : List ε} {o o' : Observer ε} (h : Good published o)
    (hstep : o.put published.length = some o') : Good published o' := by
  unfold Observer.put at hstep
  split at hstep
  · cases hput : o.queue.putNowait (.resync published.length) with
    | error e => simp [hput] at hstep
    | ok q =>
        simp only [hput, Option.some.injEq] at hstep
        subst hstep
        have hitems : q.items = o.queue.items ++ [.resync published.length] := by
          unfold BoundedQueue.putNowait at hput
          split at hput
          · obtain rfl := Except.ok.inj hput
            rfl
          · cases hput
        have hold : ∀ item, item ∈ o.queue.items → item ∈ q.items := fun item hmem => by
          rw [hitems]
          exact List.mem_append_left _ hmem
        refine ⟨fun n hn hlt => ?_, fun n e hx => ?_, h.sent, ?_, fun after hx => ?_, h.inHand, h.reads⟩
        · rcases h.accounted n hn hlt with hset | hhand
          · refine .inl ?_
            rcases hset with ⟨x, hx⟩ | hsent | ⟨after, hafter, hx | hread⟩
            · exact .inl ⟨x, hold _ hx⟩
            · exact .inr (.inl hsent)
            · exact .inr (.inr ⟨after, hafter, .inl (hold _ hx)⟩)
            · exact .inr (.inr ⟨after, hafter, .inr hread⟩)
          · exact .inr hhand
        · change _ ∈ q.items at hx
          rw [hitems] at hx
          exact h.waiting n e (by simpa using hx)
        · have hord := h.ordered
          unfold Observer.numbers at hord ⊢
          show (o.sent.map Prod.fst ++ q.items.filterMap Item.number?).Pairwise (· < ·)
          rw [hitems]
          simpa [List.filterMap_cons, Item.number?] using hord
        · change _ ∈ q.items at hx
          rw [hitems] at hx
          rcases List.mem_append.mp hx with hx | hx
          · exact h.queued after hx
          · simp only [List.mem_singleton, Item.resync.injEq] at hx
            omega
  · cases hstep

/-! ## §5. All schedules. -/

/-- The invariant of a hub. -/
structure HubGood (h : Hub ε) : Prop where
  committed : ∀ e ∈ h.published, e ∈ h.committed
  observers : ∀ k o, h.observers k = some o → Good h.published o

theorem hubGood_update {h h' : Hub ε} (hh : HubGood h) {k : Nat} {f : Observer ε → Option (Observer ε)}
    (hf : ∀ o o', Good h.published o → f o = some o' → Good h.published o')
    (hstep : h.update k f = some h') : HubGood h' := by
  unfold Hub.update at hstep
  simp only [Option.map_eq_some_iff, Option.bind_eq_some_iff] at hstep
  obtain ⟨o', ⟨o, ho, hfo⟩, rfl⟩ := hstep
  refine ⟨hh.committed, fun j x hx => ?_⟩
  change Function.update h.observers k (some o') j = some x at hx
  by_cases hj : j = k
  · subst hj
    rw [Function.update_self] at hx
    obtain rfl := Option.some.inj hx
    exact hf o o' (hh.observers j o ho) hfo
  · rw [Function.update_of_ne hj] at hx
    exact hh.observers j x hx

/-- **Step lemma**. -/
theorem hubGood_step [DecidableEq ε] {h h' : Hub ε} (hh : HubGood h) {a : Action ε}
    (hstep : h.step a = some h') : HubGood h' := by
  cases a with
  | commit e =>
      obtain rfl := Option.some.inj hstep
      exact ⟨fun x hx => List.mem_append_left _ (hh.committed x hx), hh.observers⟩
  | publish e =>
      simp only [Hub.step, Option.ite_none_right_eq_some, Option.some.injEq] at hstep
      obtain ⟨hmem, rfl⟩ := hstep
      refine ⟨fun x hx => ?_, fun k o ho => ?_⟩
      · rcases List.mem_append.mp hx with hx | hx
        · exact hh.committed x hx
        · rw [List.mem_singleton.mp hx]
          exact hmem
      · obtain ⟨o₀, ho₀, rfl⟩ := Option.map_eq_some_iff.mp ho
        exact good_publish (hh.observers k o₀ ho₀) e
  | subscribe k =>
      simp only [Hub.step, Option.ite_none_left_eq_some, Option.some.injEq] at hstep
      obtain ⟨_, rfl⟩ := hstep
      refine ⟨hh.committed, fun j o ho => ?_⟩
      by_cases hj : j = k
      · subst hj
        change Function.update _ _ _ _ = _ at ho
        rw [Function.update_self] at ho
        obtain rfl := Option.some.inj ho
        exact good_new h.published
      · change Function.update _ _ _ _ = _ at ho
        rw [Function.update_of_ne hj] at ho
        exact hh.observers j o ho
  | disconnect k =>
      obtain rfl := Option.some.inj hstep
      refine ⟨hh.committed, fun j o ho => ?_⟩
      change Function.update _ _ _ _ = _ at ho
      by_cases hj : j = k
      · subst hj
        rw [Function.update_self] at ho
        cases ho
      · rw [Function.update_of_ne hj] at ho
        exact hh.observers j o ho
  | take k => exact hubGood_update hh (fun o o' => good_take) hstep
  | heartbeat k =>
      refine hubGood_update hh (fun o o' ho hx => ?_) hstep
      unfold Observer.heartbeat at hx
      split at hx
      · obtain rfl := Option.some.inj hx
        exact ho
      · cases hx
  | read k => exact hubGood_update hh (fun o o' ho hx => good_read ho hh.committed hx) hstep
  | delivered k => exact hubGood_update hh (fun o o' => good_delivered) hstep
  | request k =>
      refine hubGood_update hh (fun o o' ho hx => ?_) hstep
      unfold Observer.request at hx
      split at hx
      · cases hx
      · obtain rfl := Option.some.inj hx
        exact ⟨ho.accounted, ho.waiting, ho.sent, ho.ordered, ho.queued, ho.inHand, ho.reads⟩
  | put k => exact hubGood_update hh (fun o o' => good_put) hstep

/-- **Run lemma**. -/
theorem hubGood_run [DecidableEq ε] : ∀ {actions : List (Action ε)} {h h' : Hub ε}, HubGood h →
    h.run actions = some h' → HubGood h'
  | [], h, h', hh, hrun => by
      obtain rfl := Option.some.inj hrun
      exact hh
  | a :: as, h, h', hh, hrun => by
      unfold Hub.run at hrun
      rw [List.foldlM_cons] at hrun
      simp only [Option.bind_eq_bind, Option.bind_eq_some_iff] at hrun
      obtain ⟨h₁, hstep, hrest⟩ := hrun
      exact hubGood_run (hubGood_step hh hstep) hrest

/-- Nothing is published and nobody watches. -/
def Hub.start : Hub ε := ⟨[], [], fun _ => none⟩

/-- **A slow observer never silently misses an event**, whatever the schedule:
every event published since the subscription is accounted for, the queue keeps
its bound, events sent one by one are sent in the order of publication, and
publishing the next one does not raise. -/
theorem no_event_missed [DecidableEq ε] {actions : List (Action ε)} {h : Hub ε}
    (hrun : Hub.start.run actions = some h) {k : Nat} {o : Observer ε} (ho : h.observers k = some o) :
    (∀ n, o.since ≤ n → n < h.published.length → Settled h.published o n ∨ InHand o n) ∧
      o.queue.items.length ≤ QUEUE_SIZE ∧
      (o.sent.map Prod.fst).Pairwise (· < ·) ∧ (∀ n e, (n, e) ∈ o.sent → h.published[n]? = some e) ∧
      ∀ event resync, ∃ q, publishTo o.queue event resync = .ok q := by
  have hstart : HubGood (Hub.start : Hub ε) := ⟨by simp [Hub.start], by simp [Hub.start]⟩
  have hgood := (hubGood_run hstart hrun).observers k o ho
  refine ⟨hgood.accounted, o.queue.bound, (List.pairwise_append.mp hgood.ordered).1, hgood.sent, ?_⟩
  intro event resync
  obtain ⟨q, hq, _⟩ := publishTo_ok o.queue event resync
  exact ⟨q, hq⟩

/-- An observer that has loaded its first snapshot, and a first event. -/
def firstEvent : List (Action Nat) :=
  [.subscribe 0, .read 0, .delivered 0, .commit 7, .publish 7, .take 0]

theorem no_event_missed_firstEvent :
    ∃ (h : Hub Nat) (o : Observer Nat), Hub.start.run firstEvent = some h ∧ h.observers 0 = some o ∧
      (Settled h.published o 0 ∨ InHand o 0) := by
  have hrun : ∃ h, Hub.start.run firstEvent = some h := ⟨_, rfl⟩
  obtain ⟨h, hrun⟩ := hrun
  have hlen : ∀ h, Hub.start.run firstEvent = some h → 0 < h.published.length ∧
      ∃ o, h.observers 0 = some o ∧ o.since = 0 := by
    rintro h ⟨⟩
    exact ⟨by decide, _, rfl, rfl⟩
  obtain ⟨hpos, o, ho, hsince⟩ := hlen h hrun
  exact ⟨h, o, hrun, ho, (no_event_missed hrun ho).1 0 (by omega) hpos⟩

/-- 65 events on a queue that nobody reads; then `send` takes the `resync`. -/
def overflow : List (Action Nat) :=
  [.subscribe 0, .read 0, .commit 7] ++ List.replicate 65 (.publish 7) ++ [.delivered 0, .take 0]

/-- The queue is empty, nothing was sent and nothing read, but an event was
published since the subscription. -/
def nothingLeft (h : Hub Nat) : Bool :=
  (h.observers 0).any fun o => o.queue.items.isEmpty && o.sent.isEmpty && o.reads.isEmpty &&
    o.since = 0 && 0 < h.published.length

/-- Between `queue.get()` and the first read of the snapshot, an event before
the `resync` is neither queued, nor sent, nor read, and no `resync` waits. -/
theorem resync_in_hand :
    ¬ ∀ (actions : List (Action Nat)) (h : Hub Nat) (o : Observer Nat),
      Hub.start.run actions = some h → h.observers 0 = some o →
        ∀ n, o.since ≤ n → n < h.published.length → Settled h.published o n := by
  intro hall
  have htest : (Hub.start.run overflow).any nothingLeft = true := by decide +kernel
  obtain ⟨h, hrun, hleft⟩ := (Option.any_eq_true _ _).mp htest
  obtain ⟨o, ho, hempty⟩ := (Option.any_eq_true _ _).mp hleft
  simp only [Bool.and_eq_true, List.isEmpty_iff, decide_eq_true_eq] at hempty
  obtain ⟨⟨⟨⟨hqueue, hsent⟩, hreads⟩, hsince⟩, hpos⟩ := hempty
  have hsettled := hall overflow h o hrun ho 0 (by omega) hpos
  unfold Settled at hsettled
  simp [hqueue, hsent, hreads] at hsettled

end WebBuilder.Live
