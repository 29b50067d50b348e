/-
  WebBuilder.Context.Isolation — project context is project-scoped.

  `ProjectContext` with its queries.  A request is tied to a project, a user
  and a message; what it is told about the past is selected by `history`, which
  stops before that message.  Optional compaction is off, and the two sessions
  of `build` read one state of the database.

  Main results:
    * `isolated` — two databases that agree on what belongs to the request
      give the same context and the same answers to every search.
-/
import WebBuilder.Context.Evidence

namespace WebBuilder.Context

open WebBuilder.Store

variable {Rank : Type} [LinearOrder Rank]

/-! ## §1. Scope and history. -/

structure ProjectContext where
  chatId : String
  userId : Nat
  messageId : String
  deriving DecidableEq

namespace ProjectContext

/-- The select of `scope` for the project. -/
def ownChat (p : ProjectContext) (db : Database) : Option Chat :=
  (db.chats.get? p.chatId).filter fun chat =>
    chat.userId = p.userId ∧ (db.users.get? chat.userId).any User.emailVerified

/-- The select of `scope` for the message. -/
def ownMessage (p : ProjectContext) (db : Database) : Option Message :=
  (db.messages.get? p.messageId).filter fun m => m.chatId = p.chatId ∧ m.role = "user"

def scope (p : ProjectContext) (db : Database) : Except Exc (Chat × Message) :=
  match p.ownChat db with
  | none => .error (.context "Project history is unavailable for this request")
  | some chat =>
      match p.ownMessage db with
      | none => .error (.context "Project history is unavailable for this request")
      | some current => .ok (chat, current)

/-- The conditions of `history`. -/
def inHistory (p : ProjectContext) (current m : Message) : Bool :=
  m.chatId = p.chatId ∧ m.role ∈ ["user", "assistant"] ∧ m.order < current.order ∧
    (m.eventType = none ∨ m.eventType = some "run_summary")

/-- The messages that `history` selects; its columns are `historyRow`. -/
def history (p : ProjectContext) (db : Database) (current : Message) : List Message :=
  db.messages.rows.filter (p.inHistory current)

/-! ## §2. `search`. -/

/-- The loop of `search` over the records. -/
def bounded (records : List Record) : List Record :=
  records.foldl (fun selected row =>
    if 24000 < encodedSize (.arr ((selected ++ [row]).map Record.toJson)) then selected
    else selected ++ [row]) []

structure SearchResult where
  messages : List Record
  guidance : Option String
  deriving DecidableEq

def terms (L : Libraries Rank) (query : String) : List String :=
  (L.findall "\\w\x7b3,\x7d" (L.lower query)).eraseDups.take 12

/-- The ranked select of `search`. -/
def ranked (p : ProjectContext) (L : Libraries Rank) (db : Database) (current : Message)
    (tsquery : String) : List Message :=
  (orderByDesc (fun m => toLex (L.tsRank m.content tsquery, m.order))
    ((p.history db current).filter fun m => L.tsMatches m.content tsquery)).take 8

def search (p : ProjectContext) (L : Libraries Rank) (db : Database) (query : String) :
    Except Exc SearchResult := do
  let terms := terms L query
  let (_, current) ← p.scope db
  if terms = [] then .ok ⟨[], none⟩
  else do
    let tsquery ← L.toTsquery (" | ".intercalate terms)
    let records := (p.ranked L db current tsquery).map fun m => record L m.historyRow
    .ok ⟨orderBy Record.order (bounded records), some
      "Quotes are historical; later instructions can supersede them. Refine the query if needed."⟩

inductive ToolReply where
  | refused (error : String)
  | found (result : SearchResult)
  deriving DecidableEq

/-- The tool `search_project_history`. -/
def searchProjectHistory (p : ProjectContext) (L : Libraries Rank) (db : Database) (query : String) :
    Except Exc ToolReply :=
  if 1 ≤ (L.strip query).length ∧ (L.strip query).length ≤ 200 then
    (p.search L db query).map .found
  else .ok (.refused "Use a history query of 1–200 characters")

/-! ## §3. `build`. -/

/-- The last messages, newest first. -/
def recentRows (p : ProjectContext) (db : Database) (current : Message) : List Message :=
  (orderByDesc Message.order (p.history db current)).take RECENT_MESSAGES

def firstRow (p : ProjectContext) (db : Database) (current : Message) : Option Message :=
  (orderBy Message.order ((p.history db current).filter fun m => m.role = "user")).head?

/-- `q.get('message_id')` of the quotes of a stored summary, as parameters of
a query: a value that is no text is a driver error, and NULL matches nothing. -/
def citedId : Json → Except Exc (Option String)
  | .obj fields =>
      match Json.field fields "message_id" with
      | none | some .null => .ok none
      | some (.str id) => .ok (some id)
      | some _ => .error .database
  | _ => .error .other

def citedIds : Json → Except Exc (List (Option String))
  | .obj fields =>
      match Json.field fields "user_decisions" with
      | none => .ok []
      | some (.arr items) => items.mapM citedId
      -- iterating over an empty text or dictionary is no error
      | some (.str "") | some (.obj []) => .ok []
      | some _ => .error .other
  | _ => .error .other

/-- The summary of a memory, unless its evidence is no longer there. -/
def storedSummary (p : ProjectContext) (L : Libraries Rank) (db : Database) (current : Message)
    (memory : ProjectMemory) : Except Exc (Option DerivedSummary) := do
  let covered := (p.history db current).find? fun m => m.id = memory.coveredMessageId
  let ids ← citedIds memory.summary
  let sourceRows := (p.history db current).filter fun m => some m.id ∈ ids
  let checked :=
    if covered.any fun m => m.id ≠ "" then
      validateSummary memory.summary (sourceRows.map fun m => record L m.historyRow)
    else .error (.context "Summary cutoff is outside the current project history")
  match checked with
  | .ok summary => .ok (some ⟨summary, memory.coveredMessageId, memory.revisionId⟩)
  | .error (.value _) | .error (.context _) => .ok none
  | .error e => .error e

/-- The last finished run before the message. -/
def lastRow (p : ProjectContext) (db : Database) (current : Message) : Option Run :=
  (orderByDesc Run.order (db.runs.rows.filter fun r =>
    r.chatId = p.chatId ∧ r.status ≠ "running" ∧ r.createdAt < current.createdAt)).head?

/-- `metrics['context']`. -/
structure ContextMetrics where
  bytes : Nat
  recentMessages : Nat
  retrievedMessages : Nat
  hasSummary : Bool
  deriving DecidableEq

def build (p : ProjectContext) (L : Libraries Rank) (db : Database) (prompt : String) :
    Except Exc (Assembled × ContextMetrics) := do
  let (chat, current) ← p.scope db
  let recent := (p.recentRows db current).reverse.map fun m => record L m.historyRow
  let first := (p.firstRow db current).map fun m => record L m.historyRow
  let summary ← match db.memories.get? p.chatId with
    | some memory => p.storedSummary L db current memory
    | none => .ok none
  let lastRun := (p.lastRow db current).map fun r =>
    (⟨r.id, r.status, redact L (r.reason.getD "") (some 4000)⟩ : LastRun)
  let found ← p.search L db prompt
  let result ← assemble recent found.messages first summary chat.latestSavedRevisionId lastRun p.messageId
  .ok (result, ⟨encodedSize result.toJson, recent.length, result.olderMatches.length, summary.isSome⟩)

/-! ## §4. Databases that agree on a request. -/

/-- The two databases have the same rows of the request's user, project and
memory, the same current message, and the same messages and runs of the project
before it.  Nothing is said of any other row. -/
structure Agree (p : ProjectContext) (db db' : Database) : Prop where
  user : db.users.get? p.userId = db'.users.get? p.userId
  chat : db.chats.get? p.chatId = db'.chats.get? p.chatId
  memory : db.memories.get? p.chatId = db'.memories.get? p.chatId
  current : p.ownMessage db = p.ownMessage db'
  messages : ∀ current, p.ownMessage db = some current → ∀ m : Message, m.chatId = p.chatId →
    m.order < current.order → (m ∈ db.messages.rows ↔ m ∈ db'.messages.rows)
  runs : ∀ current, p.ownMessage db = some current → ∀ r : Run, r.chatId = p.chatId →
    r.createdAt < current.createdAt → (r ∈ db.runs.rows ↔ r ∈ db'.runs.rows)

variable {p : ProjectContext} {db db' : Database} {current : Message}

theorem scope_eq (h : Agree p db db') : p.scope db = p.scope db' := by
  have hchat : p.ownChat db = p.ownChat db' := by
    unfold ownChat
    rw [h.chat]
    cases db'.chats.get? p.chatId with
    | none => rfl
    | some chat =>
        by_cases huser : chat.userId = p.userId
        · simp only [Option.filter, huser, h.user]
        · simp [Option.filter, huser]
  unfold scope
  rw [hchat, h.current]

/-- The current message of a scope. -/
theorem scope_ok {chat : Chat} (h : p.scope db = .ok (chat, current)) : p.ownMessage db = some current := by
  unfold scope at h
  cases hchat : p.ownChat db with
  | none =>
      rw [hchat] at h
      cases h
  | some chat' =>
      rw [hchat] at h
      cases hmsg : p.ownMessage db with
      | none =>
          rw [hmsg] at h
          cases h
      | some current' =>
          rw [hmsg] at h
          obtain ⟨_, rfl⟩ := Prod.mk.inj (Except.ok.inj h)
          rfl

/-- The histories have the same messages. -/
theorem history_perm (h : Agree p db db') (hc : p.ownMessage db = some current) :
    (p.history db current).Perm (p.history db' current) := by
  refine filter_perm fun m hm => ?_
  unfold inHistory at hm
  rw [decide_eq_true_eq] at hm
  exact h.messages current hc m hm.1 hm.2.2.1

/-- Messages of a history differ in their ids. -/
theorem history_inj (db : Database) : ∀ a ∈ p.history db current, ∀ b ∈ p.history db current,
    a.id = b.id → a = b := by
  intro a ha b hb hab
  exact List.inj_on_of_nodup_map db.messages.nodup (List.mem_of_mem_filter ha) (List.mem_of_mem_filter hb) hab

theorem order_inj (db : Database) : ∀ a ∈ p.history db current, ∀ b ∈ p.history db current,
    a.order = b.order → a = b := by
  intro a ha b hb hab
  exact history_inj db a ha b hb (congrArg (fun o => (ofLex o).2) hab)

/-- A row that is told apart by `f` is found in any order. -/
theorem find?_perm {α : Type} {l l' : List α} {cond : α → Bool} (h : l.Perm l')
    (hinj : ∀ a ∈ l, ∀ b ∈ l, cond a = true → cond b = true → a = b) : l.find? cond = l'.find? cond := by
  cases hfind : l.find? cond with
  | none =>
      rw [List.find?_eq_none] at hfind
      exact (List.find?_eq_none.mpr fun x hx => hfind x (h.mem_iff.mpr hx)).symm
  | some a =>
      have ha := List.mem_of_find?_eq_some hfind
      have hca := List.find?_some hfind
      cases hfind' : l'.find? cond with
      | none =>
          rw [List.find?_eq_none] at hfind'
          exact absurd hca (hfind' a (h.mem_iff.mp ha))
      | some b =>
          have hb := h.mem_iff.mpr (List.mem_of_find?_eq_some hfind')
          rw [hinj a ha b hb hca (List.find?_some hfind')]

/-! ## §5. Every query sees what the databases agree on. -/

theorem recentRows_eq (h : Agree p db db') (hc : p.ownMessage db = some current) :
    p.recentRows db current = p.recentRows db' current := by
  unfold recentRows
  rw [orderByDesc_eq (history_perm h hc) (order_inj db)]

theorem firstRow_eq (h : Agree p db db') (hc : p.ownMessage db = some current) :
    p.firstRow db current = p.firstRow db' current := by
  unfold firstRow
  rw [orderBy_eq ((history_perm h hc).filter _) fun a ha b hb hab =>
    order_inj db a (List.mem_of_mem_filter ha) b (List.mem_of_mem_filter hb) hab]

theorem ranked_eq (L : Libraries Rank) (h : Agree p db db') (hc : p.ownMessage db = some current)
    (tsquery : String) : p.ranked L db current tsquery = p.ranked L db' current tsquery := by
  unfold ranked
  rw [orderByDesc_eq ((history_perm h hc).filter _) fun a ha b hb hab => ?_]
  have horder : a.order = b.order := congrArg (fun o => (ofLex o).2) hab
  exact order_inj db a (List.mem_of_mem_filter ha) b (List.mem_of_mem_filter hb) horder

theorem lastRow_eq (h : Agree p db db') (hc : p.ownMessage db = some current) :
    p.lastRow db current = p.lastRow db' current := by
  unfold lastRow
  rw [orderByDesc_eq (filter_perm fun r hr => ?_) fun a ha b hb hab => ?_]
  · rw [decide_eq_true_eq] at hr
    exact h.runs current hc r hr.1 hr.2.2
  · have hid : a.id = b.id := congrArg (fun o => (ofLex o).2) hab
    exact List.inj_on_of_nodup_map db.runs.nodup (List.mem_of_mem_filter ha) (List.mem_of_mem_filter hb) hid

/-- Provenance is checked against the same sources. -/
theorem validateSummary_perm {value : Json} {sources sources' : List Record} (h : sources.Perm sources')
    (hinj : ∀ a ∈ sources, ∀ b ∈ sources, a.id = b.id → a = b) :
    validateSummary value sources = validateSummary value sources' := by
  have hsupported : supported sources = supported sources' := by
    funext item
    unfold supported
    rw [find?_perm h fun a ha b hb hca hcb => hinj a ha b hb ?_]
    rw [decide_eq_true_eq] at hca hcb
    rw [hca, hcb]
  unfold validateSummary
  rw [hsupported]

omit [LinearOrder Rank] in
theorem storedSummary_eq (L : Libraries Rank) (h : Agree p db db') (hc : p.ownMessage db = some current)
    (memory : ProjectMemory) : p.storedSummary L db current memory = p.storedSummary L db' current memory := by
  have hperm := history_perm h hc
  have hcovered : (p.history db current).find? (fun m => m.id = memory.coveredMessageId)
      = (p.history db' current).find? fun m => m.id = memory.coveredMessageId := by
    refine find?_perm hperm fun a ha b hb hca hcb => history_inj db a ha b hb ?_
    rw [decide_eq_true_eq] at hca hcb
    rw [hca, hcb]
  have hsources : ∀ ids : List (Option String),
      validateSummary memory.summary (((p.history db current).filter fun m => some m.id ∈ ids).map
          fun m => record L m.historyRow)
        = validateSummary memory.summary (((p.history db' current).filter fun m => some m.id ∈ ids).map
          fun m => record L m.historyRow) := by
    intro ids
    refine validateSummary_perm ((hperm.filter _).map _) ?_
    intro a ha b hb hab
    obtain ⟨m, hm, rfl⟩ := List.mem_map.mp ha
    obtain ⟨m', hm', rfl⟩ := List.mem_map.mp hb
    rw [history_inj db m (List.mem_of_mem_filter hm) m' (List.mem_of_mem_filter hm') hab]
  unfold storedSummary
  simp only [hcovered, hsources]

theorem search_eq (L : Libraries Rank) (h : Agree p db db') (query : String) :
    p.search L db query = p.search L db' query := by
  unfold search
  dsimp only
  rw [← scope_eq h]
  cases hscope : p.scope db with
  | error e => rfl
  | ok own =>
      obtain ⟨chat, current⟩ := own
      have hc := scope_ok hscope
      show (if terms L query = [] then _ else _) = (if terms L query = [] then _ else _)
      simp only [ranked_eq L h hc]

/-- **Isolation.**  Whatever else is in the database, the context and every
search answer are the same. -/
theorem isolated (L : Libraries Rank) (h : Agree p db db') :
    (∀ prompt, p.build L db prompt = p.build L db' prompt) ∧
      ∀ query, p.searchProjectHistory L db query = p.searchProjectHistory L db' query := by
  constructor
  · intro prompt
    unfold build
    rw [← scope_eq h]
    cases hscope : p.scope db with
    | error e => rfl
    | ok own =>
        obtain ⟨chat, current⟩ := own
        have hc := scope_ok hscope
        have hstored : ∀ memory, p.storedSummary L db current memory = p.storedSummary L db' current memory :=
          storedSummary_eq L h hc
        simp only [bind, Except.bind, recentRows_eq h hc, firstRow_eq h hc, lastRow_eq h hc,
          search_eq L h prompt, h.memory, hstored]
  · intro query
    unfold searchProjectHistory
    rw [search_eq L h query]

/-! The libraries on texts without secrets, and two databases for one request. -/

def helloLibraries : Libraries Nat where
  findall _ text := [text]
  sub _ _ text := text
  lower text := text
  strip text := text
  isoformat _ := "1970-01-01T00:00:01+00:00"
  environ := []
  toTsquery text := .ok ("'" ++ text ++ "'")
  tsMatches content _ := contains content "hello"
  tsRank _ _ := 607927

def helloContext : ProjectContext := ⟨"c1", 1, "m2"⟩

def helloMessages : List Message :=
  [⟨"m1", "c1", "user", "say hello", none, 1⟩, ⟨"m2", "c1", "user", "hello again", none, 2⟩]

/-- A message of another project, and a later one. -/
def otherMessages : List Message :=
  [⟨"m3", "c2", "user", "hello secret", none, 1⟩, ⟨"m4", "c1", "user", "hello later", none, 3⟩]

def helloDatabase : Database where
  users := ⟨[⟨1, true⟩], by decide⟩
  chats := ⟨[⟨"c1", 1, none⟩], by decide⟩
  messages := ⟨helloMessages, by decide⟩
  runs := .empty
  memories := .empty

def otherDatabase : Database where
  users := ⟨[⟨2, true⟩, ⟨1, true⟩], by decide⟩
  chats := ⟨[⟨"c2", 2, none⟩, ⟨"c1", 1, none⟩], by decide⟩
  messages := ⟨otherMessages ++ helloMessages, by decide⟩
  runs := ⟨[⟨"r1", "c2", "failed", some "hello", 1⟩], by decide⟩
  memories := ⟨[⟨"c2", "m3", none, .null, 1⟩], by decide⟩

theorem isolated_hello :
    helloContext.build helloLibraries helloDatabase "hello"
        = helloContext.build helloLibraries otherDatabase "hello" ∧
      helloDatabase.messages.rows ≠ otherDatabase.messages.rows := by
  have hcurrent : ∀ current, helloContext.ownMessage helloDatabase = some current →
      current = ⟨"m2", "c1", "user", "hello again", none, 2⟩ := by
    intro current hc
    have hown : helloContext.ownMessage helloDatabase
        = some ⟨"m2", "c1", "user", "hello again", none, 2⟩ := by decide
    rw [hown] at hc
    exact (Option.some.inj hc).symm
  have hagree : Agree helloContext helloDatabase otherDatabase := by
    refine ⟨by decide, by decide, rfl, by decide, ?_, ?_⟩
    · intro current hc m hchat horder
      rw [hcurrent current hc] at horder
      show m ∈ helloMessages ↔ m ∈ otherMessages ++ helloMessages
      rw [List.mem_append]
      constructor
      · exact .inr
      · rintro (hm | hm)
        · -- neither is an earlier message of this project
          rcases List.mem_cons.mp hm with rfl | hm
          · exact absurd hchat (by decide)
          · rw [List.mem_singleton.mp hm] at horder
            exact absurd horder (by decide)
        · exact hm
    · intro current hc r hchat _
      show r ∈ [] ↔ r ∈ [(⟨"r1", "c2", "failed", some "hello", 1⟩ : Run)]
      rw [List.mem_singleton]
      constructor
      · intro hr
        cases hr
      · rintro rfl
        exact absurd hchat (by decide)
  exact ⟨(isolated helloLibraries hagree).1 "hello", by decide⟩

end ProjectContext

end WebBuilder.Context
