/-
  WebBuilder.Context.Evidence — what a request is told about its project.

  The pure part of `context.py`: records of history rows, stored summaries and
  their provenance, and the assembly of the context under its size limit.
  Regular expressions, Unicode case folding, date formats and PostgreSQL's text
  search are parameters.
-/
import Mathlib.Data.String.Basic
import WebBuilder.Model.Exceptions
import WebBuilder.Store.Query

namespace WebBuilder.Context

open WebBuilder.Store

/-! ## §1. JSON. -/

inductive Json where
  | null
  | bool (value : Bool)
  | num (literal : String)
  | str (value : String)
  | arr (items : List Json)
  | obj (fields : List (String × Json))

/-- The escapes of `json.dumps(…, ensure_ascii=False)`. -/
def escaped (c : Char) : String :=
  if c = '"' then "\\\""
  else if c = '\\' then "\\\\"
  else if c = '\n' then "\\n"
  else if c = '\r' then "\\r"
  else if c = '\t' then "\\t"
  else if c.toNat = 8 then "\\b"
  else if c.toNat = 12 then "\\f"
  else if c.toNat < 16 then "\\u000" ++ String.ofList (Nat.toDigits 16 c.toNat)
  else if c.toNat < 32 then "\\u00" ++ String.ofList (Nat.toDigits 16 c.toNat)
  else String.ofList [c]

def quoted (s : String) : String := "\"" ++ String.join (s.toList.map escaped) ++ "\""

mutual

/-- `json.dumps(value, ensure_ascii=False)`. -/
def dumps : Json → String
  | .null => "null"
  | .bool value => if value then "true" else "false"
  | .num literal => literal
  | .str value => quoted value
  | .arr items => "[" ++ ", ".intercalate (dumpsItems items) ++ "]"
  | .obj fields => "\x7b" ++ ", ".intercalate (dumpsFields fields) ++ "\x7d"

def dumpsItems : List Json → List String
  | [] => []
  | item :: items => dumps item :: dumpsItems items

def dumpsFields : List (String × Json) → List String
  | [] => []
  | (name, value) :: fields => (quoted name ++ ": " ++ dumps value) :: dumpsFields fields

end

def encodedSize (value : Json) : Nat := (dumps value).utf8ByteSize

/-- `value.get(name)` of a dictionary. -/
def Json.field (fields : List (String × Json)) (name : String) : Option Json :=
  (fields.find? fun f => f.1 = name).map Prod.snd

def optional (value : Option Json) : Json := value.getD .null

/-! ## §2. Rows. -/

structure User where
  id : Nat
  emailVerified : Bool
  deriving DecidableEq

structure Chat where
  id : String
  userId : Nat
  latestSavedRevisionId : Option String
  deriving DecidableEq

structure Message where
  id : String
  chatId : String
  role : String
  content : String
  eventType : Option String
  createdAt : Nat
  deriving DecidableEq

structure Run where
  id : String
  chatId : String
  status : String
  reason : Option String
  createdAt : Nat
  deriving DecidableEq

structure ProjectMemory where
  chatId : String
  coveredMessageId : String
  revisionId : Option String
  summary : Json
  version : Nat

instance : Keyed User Nat := ⟨User.id⟩
instance : Keyed Chat String := ⟨Chat.id⟩
instance : Keyed Message String := ⟨Message.id⟩
instance : Keyed Run String := ⟨Run.id⟩
instance : Keyed ProjectMemory String := ⟨ProjectMemory.chatId⟩

structure Database where
  users : Table User
  chats : Table Chat
  messages : Table Message
  runs : Table Run
  memories : Table ProjectMemory

/-- `(created_at, id)`. -/
def Message.order (m : Message) : Nat ×ₗ String := toLex (m.createdAt, m.id)

def Run.order (r : Run) : Nat ×ₗ String := toLex (r.createdAt, r.id)

/-! ## §3. Libraries. -/

/-- What the module uses of Python's libraries and of PostgreSQL. -/
structure Libraries (Rank : Type) where
  /-- `re.findall(pattern, text)`. -/
  findall : String → String → List String
  /-- `re.sub(pattern, replacement, text)`. -/
  sub : String → String → String → String
  lower : String → String
  strip : String → String
  isoformat : Nat → String
  /-- `os.environ`. -/
  environ : List (String × String)
  /-- `to_tsquery('simple', text)`. -/
  toTsquery : String → Except Exc String
  /-- `to_tsvector('simple', content) @@ tsquery`. -/
  tsMatches : String → String → Bool
  /-- `ts_rank(to_tsvector('simple', content), tsquery)`. -/
  tsRank : String → String → Rank

variable {Rank : Type}

/-- `part in text`. -/
def contains (text part : String) : Bool := decide (part.toList <:+: text.toList)

def secretMarks : List String := ["KEY", "SECRET", "TOKEN", "PASSWORD", "DATABASE_URL"]

/-- `redact` of a string. -/
def redact (L : Libraries Rank) (value : String) (maxLength : Option Nat) : String :=
  let value := L.environ.foldl (fun value (entry : String × String) =>
    if 8 ≤ entry.2.length ∧ secretMarks.any (contains entry.1) then
      value.replace entry.2 "[redacted]"
    else value) value
  let value := L.sub
    "(?i)(bearer\\s+|(?:api[_-]?key|password|secret|token)\\s*[=:]\\s*)[^\\s,;\"']+"
    "\\1[redacted]" value
  let value := L.sub "\\b(?:sk-[\\w-]\x7b12,\x7d|gh[pousr]_[\\w]+|AIza[\\w-]+)\\b" "[redacted]" value
  let value := L.sub "(\\w+://)[^\\s/@]+:[^\\s/@]+@" "\\1[redacted]@" value
  match maxLength with
  | none => value
  | some n => String.ofList (value.toList.take n)

/-! ## §4. Records. -/

/-- A row of `history`. -/
structure HistoryRow where
  id : String
  role : String
  content : String
  createdAt : Nat
  eventType : Option String
  truncated : Bool
  deriving DecidableEq

/-- The columns that `history` selects. -/
def Message.historyRow (m : Message) : HistoryRow where
  id := m.id
  role := m.role
  content := String.ofList (m.content.toList.take 12000)
  createdAt := m.createdAt
  eventType := m.eventType
  truncated := 12000 < m.content.length

structure Record where
  id : String
  role : String
  content : String
  createdAt : String
  truncated : Bool
  kind : String
  deriving DecidableEq

def record (L : Libraries Rank) (row : HistoryRow) : Record where
  id := row.id
  role := row.role
  content := redact L row.content none
  createdAt := L.isoformat row.createdAt
  truncated := row.truncated
  kind := match row.eventType with
    | some "" | none => "message"
    | some kind => kind

def Record.toJson (r : Record) : Json :=
  .obj [("id", .str r.id), ("role", .str r.role), ("content", .str r.content),
    ("created_at", .str r.createdAt), ("truncated", .bool r.truncated), ("kind", .str r.kind)]

/-- `(r['created_at'], r['id'])`. -/
def Record.order (r : Record) : String ×ₗ String := toLex (r.createdAt, r.id)

/-! ## §5. Stored summaries. -/

structure Evidence where
  messageId : String
  quote : String
  deriving DecidableEq

structure Summary where
  overview : String
  userDecisions : List Evidence
  unresolved : String
  deriving DecidableEq

/-- `extra='forbid'`. -/
def onlyFields (fields : List (String × Json)) (names : List String) : Bool :=
  fields.all fun f => f.1 ∈ names

/-- A field of type `str`. -/
def textField (fields : List (String × Json)) (name : String) (minLength maxLength : Nat) :
    Option String :=
  match Json.field fields name with
  | some (.str s) => if minLength ≤ s.length ∧ s.length ≤ maxLength then some s else none
  | _ => none

def parseEvidence : Json → Option Evidence
  | .obj fields =>
      if onlyFields fields ["message_id", "quote"] then
        match Json.field fields "message_id", textField fields "quote" 1 1500 with
        | some (.str messageId), some quote => some ⟨messageId, quote⟩
        | _, _ => none
      else none
  | _ => none

/-- `Summary.model_validate(value)`; `none` is a `ValidationError`. -/
def parseSummary : Json → Option Summary
  | .obj fields =>
      if onlyFields fields ["overview", "user_decisions", "unresolved"] then
        match textField fields "overview" 0 4000, Json.field fields "user_decisions",
          textField fields "unresolved" 0 1500 with
        | some overview, some (.arr items), some unresolved =>
            if items.length ≤ 16 then
              (items.mapM parseEvidence).map fun decisions => ⟨overview, decisions, unresolved⟩
            else none
        | _, _, _ => none
      else none
  | _ => none

/-- The evidence is a quote of a user message among the sources. -/
def supported (sources : List Record) (item : Evidence) : Bool :=
  match sources.find? fun r => r.id = item.messageId with
  | some source => source.role = "user" && contains source.content item.quote
  | none => false

/-- `validate_summary(value, sources)`; the sources have distinct ids. -/
def validateSummary (value : Json) (sources : List Record) : Except Exc Summary :=
  match parseSummary value with
  | none => .error (.value "validation error")
  | some parsed =>
      if parsed.userDecisions.all (supported sources) then .ok parsed
      else .error (.context "Summary refers to missing or invented user evidence")

/-- A summary as the context reports it, with `derived_untrusted`. -/
structure DerivedSummary where
  summary : Summary
  coveredMessageId : String
  revisionIdAtSummary : Option String
  deriving DecidableEq

def Evidence.toJson (e : Evidence) : Json :=
  .obj [("message_id", .str e.messageId), ("quote", .str e.quote)]

def DerivedSummary.toJson (d : DerivedSummary) : Json :=
  .obj [("overview", .str d.summary.overview),
    ("user_decisions", .arr (d.summary.userDecisions.map Evidence.toJson)),
    ("unresolved", .str d.summary.unresolved), ("covered_message_id", .str d.coveredMessageId),
    ("revision_id_at_summary", optional (d.revisionIdAtSummary.map .str)),
    ("derived_untrusted", .bool true)]

/-! ## §6. Assembly. -/

def MAX_CONTEXT_BYTES : Nat := 48000
def RECENT_MESSAGES : Nat := 6

structure LastRun where
  id : String
  status : String
  reason : String
  deriving DecidableEq

def LastRun.toJson (r : LastRun) : Json :=
  .obj [("id", .str r.id), ("status", .str r.status), ("reason", .str r.reason)]

/-- The result of `assemble`, with `history_is_partial` and `guidance`. -/
structure Assembled where
  revisionId : Option String
  historyBeforeMessageId : String
  recentMessages : List Record
  olderMatches : List Record
  initialRequest : Option Record
  olderSummary : Option DerivedSummary
  previousRun : Option LastRun
  deriving DecidableEq

def Assembled.toJson (a : Assembled) : Json :=
  .obj [("revision_id", optional (a.revisionId.map .str)),
    ("history_before_message_id", .str a.historyBeforeMessageId),
    ("recent_messages", .arr (a.recentMessages.map Record.toJson)),
    ("older_matches", .arr (a.olderMatches.map Record.toJson)),
    ("initial_request", optional (a.initialRequest.map Record.toJson)),
    ("older_summary", optional (a.olderSummary.map DerivedSummary.toJson)),
    ("previous_run", optional (a.previousRun.map LastRun.toJson)),
    ("history_is_partial", .bool true),
    ("guidance", .str "Older quotes may be superseded. Search history for missing references.")]

/-- The loop of `assemble` over the retrieved rows. -/
def addMatches (seen : List String) (result : Assembled) : List Record → Assembled
  | [] => result
  | row :: rows =>
      if row.id ∈ seen then addMatches seen result rows
      else
        let longer := { result with olderMatches := result.olderMatches ++ [row] }
        if MAX_CONTEXT_BYTES < encodedSize longer.toJson then result
        else addMatches (row.id :: seen) longer rows

def assemble (recent retrieved : List Record) (first : Option Record) (summary : Option DerivedSummary)
    (revisionId : Option String) (lastRun : Option LastRun) (cutoff : String) : Except Exc Assembled :=
  let result : Assembled := ⟨revisionId, cutoff, recent, [], first, summary, lastRun⟩
  if MAX_CONTEXT_BYTES < encodedSize result.toJson then
    .error (.context "Recent project context is too large; narrow the request or start a new project")
  else
    let seen := recent.map Record.id ++ (first.map Record.id).toList
    let filled := addMatches seen result retrieved
    .ok { filled with olderMatches := orderBy Record.order filled.olderMatches }

end WebBuilder.Context
