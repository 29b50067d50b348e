/-
  WebBuilder.Frontend.Client — the session of a browser tab and its requests.

  `lib/auth/session.ts` and `lib/http/client.ts`.  Every call of `apiClient` is
  a coroutine over the tab: its interceptors run to their next `await` without
  interruption, and between two awaits other requests, sign-ins and sign-outs
  may do anything.  A promise that has settled resumes those who wait for it
  in any order.

  The request interceptor and the dispatch of Axios are one step: only their
  own microtasks run between them.  The cache of file contents, `user_data`
  and the pages that the browser is sent to are left out; leaving a page ends
  its requests.

  Main definitions:
    * `Storage` — the three keys of `localStorage`;
    * `interceptRequest`, `onResponse`, `onError` — the interceptors;
    * `beginRenewal`, `finishRenewal`, `release` — `renewSession`;
    * `request`, `browser` — a call of `apiClient`, and the tab.
-/
import WebBuilder.Async.Pool

namespace WebBuilder.Frontend.Client

open WebBuilder.Async

/-! ## §1. `localStorage`. -/

structure Storage where
  authToken : Option String
  refreshToken : Option String
  authSessionId : Option String
  deriving DecidableEq

/-- What `login` and `refresh` return; a token that is missing is empty. -/
structure LoginResponse where
  accessToken : String
  refreshToken : String

/-- A value that is there and not empty. -/
def present (value : Option String) : Option String := value.filter (· ≠ "")

namespace Storage

def getSessionId (s : Storage) : Option String :=
  match present s.authToken with
  | none => none
  -- Older sessions have only an access token and cannot renew automatically.
  | some token => some ((present s.authSessionId).getD token)

def clearSession (_ : Storage) : Storage := ⟨none, none, none⟩

def storeTokens (s : Storage) (session : LoginResponse) : Except String Storage :=
  if session.accessToken = "" ∨ session.refreshToken = "" then
    .error "The server returned an incomplete login session."
  else .ok { s with refreshToken := some session.refreshToken, authToken := some session.accessToken }

/-- `saveSession`, with what `crypto.randomUUID` returns. -/
def saveSession (s : Storage) (session : LoginResponse) (uuid : String) : Storage :=
  match s.storeTokens session with
  | .ok s => { s with authSessionId := some uuid }
  | .error _ => s.clearSession

end Storage

/-! ## §2. The tab. -/

/-- `pendingRefresh`; a promise has the number of the request that made it. -/
structure Pending where
  sessionId : String
  promise : Nat
  deriving DecidableEq

/-- Why a request clears the credentials. -/
inductive Reason where
  | noRefreshToken
  /-- `refresh` was answered with this status. -/
  | refreshRefused (status : Nat)
  /-- The re-sent request was answered with this status; it carried the token. -/
  | refusedAgain (status : Nat) (token : Option String)
  /-- The server asks for a verified e-mail address. -/
  | verifyEmail
  deriving DecidableEq

inductive Deed where
  | sent (retry : Bool)
  /-- The response is returned to the caller. -/
  | delivered
  /-- The caller is told how the server has failed the request. -/
  | rejected
  | refreshSent (token : String)
  /-- New tokens are stored; the old one was sent. -/
  | stored (token : String)
  | cleared (reason : Reason)
  deriving DecidableEq

/-- What a request did, for which session, and what `localStorage` held at
that moment. -/
structure Entry where
  request : Nat
  session : Option String
  before : Storage
  deed : Deed
  deriving DecidableEq

structure Tab where
  storage : Storage
  pendingRefresh : Option Pending
  /-- The promises that have settled. -/
  promises : List (Nat × Except String Unit)
  /-- The session ids that `crypto.randomUUID` has returned. -/
  sessions : List String
  requests : List Nat
  /-- The refresh requests without an answer: promise and session. -/
  flights : List (Nat × String)
  /-- The latest entry first. -/
  log : List Entry

/-- `detail` of a response. -/
inductive Detail where
  | text (detail : String)
  /-- The `msg` of every item, where it is a string. -/
  | items (messages : List (Option String))
  | other

inductive Reply where
  /-- The code goes on. -/
  | turn
  | success (session : LoginResponse)
  | failure (status : Nat) (detail : Detail) (message : String)
  /-- No response. -/
  | network (message : String)
  | signIn (session : LoginResponse) (uuid : String)
  | signOut
  /-- Another tab has renewed the session. -/
  | renewed (session : LoginResponse)

inductive TabOp where
  | dispatch
  | answer
  /-- The request for new tokens: promise, session and refresh token. -/
  | refresh (promise : Nat) (sessionId refreshToken : String)
  | join (promise : Nat)
  | release

abbrev Call (α : Type) := Co Tab TabOp String Reply α

/-- The code between two awaits. -/
def sync {α : Type} (op : TabOp) (f : Tab → Except String α × Tab) : Call α :=
  .await op
    (fun a s =>
      match a with
      | .ok .turn => some (f s)
      | _ => none)
    .done

/-- What the network answers. -/
def Reply.isAnswer : Reply → Bool
  | success _ | failure .. | network _ => true
  | _ => false

/-- An await on the network. -/
def fetch {α : Type} (op : TabOp) (f : Reply → Tab → Except String α × Tab) : Call α :=
  .await op
    (fun a s =>
      match a with
      | .ok reply => if reply.isAnswer then some (f reply s) else none
      | _ => none)
    .done

/-! ## §3. Requests. -/

/-- `SessionRequest`. -/
structure Config where
  number : Nat
  url : String
  sessionId : Option String
  accessToken : Option String
  retriedAfterRefresh : Bool

def publicAuthPaths : List String :=
  ["/auth/login", "/auth/register", "/auth/options", "/auth/refresh", "/auth/oauth/exchange",
    "/auth/verification/confirm", "/auth/verification/request"]

def sessionChanged : String := "Your session changed. Try again."

def Tab.note (s : Tab) (config : Config) (before : Storage) (deed : Deed) : Tab :=
  { s with log := ⟨config.number, config.sessionId, before, deed⟩ :: s.log }

/-- `endSession`; the page it leads to is left out. -/
def Tab.endSession (s : Tab) (config : Config) (sessionId : String) (reason : Reason) : Tab :=
  if s.storage.getSessionId ≠ some sessionId then s
  else { s.note config s.storage (.cleared reason) with storage := s.storage.clearSession }

/-- The request interceptor. -/
def interceptRequest (config : Config) (storage : Storage) : Except String Config :=
  if config.url ∈ publicAuthPaths then .ok config
  else if config.retriedAfterRefresh ∧ config.sessionId ≠ storage.getSessionId then .error sessionChanged
  else .ok { config with sessionId := storage.getSessionId, accessToken := storage.authToken }

def dispatch (config : Config) : Call Config :=
  sync .dispatch fun s =>
    match interceptRequest config s.storage with
    | .ok config => (.ok config, s.note config s.storage (.sent config.retriedAfterRefresh))
    | .error message => (.error message, s)

/-- `request.sessionId && request.sessionId !== getSessionId()`. -/
def Config.stale (config : Config) (storage : Storage) : Bool :=
  config.sessionId ≠ none ∧ config.sessionId ≠ storage.getSessionId

/-- How a response interceptor leaves a request. -/
inductive Verdict where
  | delivered
  /-- `return apiClient.request(request)`. -/
  | resend
  /-- `await pendingRefresh.promise`, and then the same. -/
  | join (promise : Nat)
  /-- The renewal is its own. -/
  | lead (sessionId refreshToken : String)

/-- The response interceptor. -/
def onResponse (config : Config) (s : Tab) : Except String Verdict × Tab :=
  if config.stale s.storage then (.error sessionChanged, s)
  else (.ok .delivered, s.note config s.storage .delivered)

/-- `renewSession`, up to its first `await`. -/
def beginRenewal (config : Config) (sessionId : String) (s : Tab) : Except String Verdict × Tab :=
  if s.storage.getSessionId ≠ some sessionId then (.error sessionChanged, s)
  else
    match s.pendingRefresh.filter (·.sessionId = sessionId) with
    | some pending => (.ok (.join pending.promise), s)
    | none =>
        match present s.storage.refreshToken with
        | none => (.error "Please sign in again to continue.", s.endSession config sessionId .noRefreshToken)
        | some refreshToken =>
            (.ok (.lead sessionId refreshToken),
              { s.note config s.storage (.refreshSent refreshToken) with
                pendingRefresh := some ⟨sessionId, config.number⟩
                flights := (config.number, sessionId) :: s.flights })

/-- White space of JavaScript. -/
def isSpace (c : Char) : Bool :=
  let n := c.toNat
  (9 ≤ n && n ≤ 13) || (0x2000 ≤ n && n ≤ 0x200A) ||
    [0x20, 0xA0, 0x1680, 0x2028, 0x2029, 0x202F, 0x205F, 0x3000, 0xFEFF].contains n

def trim (text : String) : String :=
  String.ofList ((text.toList.dropWhile isSpace).reverse.dropWhile isSpace).reverse

/-- What the caller is told of an error. -/
def errorMessage (config : Config) (reply : Reply) : String :=
  let orElse (message : String) : String :=
    if message = "" then "Something went wrong. Please try again." else message
  match reply with
  | .failure status detail message =>
      if config.url = "/auth/verification/confirm" ∧ status = 422 then
        "This verification link is invalid or expired. Request a new one."
      else
        match detail with
        | .text detail => if trim detail = "" then orElse message else detail
        | .items messages =>
            let messages := messages.filterMap fun m => present (m.map trim)
            if messages = [] then orElse message else " ".intercalate messages
        | .other => orElse message
  | .network message => orElse message
  | _ => orElse ""

def Tab.reject (s : Tab) (config : Config) (before : Storage) (reply : Reply) : Except String Verdict × Tab :=
  (.error (errorMessage config reply), s.note config before .rejected)

/-- The server wants a verified e-mail address. -/
def Reply.asksToVerify : Reply → Bool
  | failure status (.text detail) _ => status = 403 && detail.startsWith "Verify your email"
  | _ => false

def Reply.status : Reply → Option Nat
  | failure status .. => some status
  | _ => none

/-- The interceptor of errors. -/
def onError (config : Config) (reply : Reply) (s : Tab) : Except String Verdict × Tab :=
  if config.stale s.storage then (.error sessionChanged, s)
  else
    match config.sessionId with
    | none => s.reject config s.storage reply
    | some sessionId =>
        if reply.asksToVerify then (s.endSession config sessionId .verifyEmail).reject config s.storage reply
        else if reply.status = some 401 ∧ present config.accessToken ≠ none then
          if config.retriedAfterRefresh then
            if s.storage.authToken = config.accessToken then
              (s.endSession config sessionId (.refusedAgain 401 config.accessToken)).reject config s.storage reply
            else s.reject config s.storage reply
          -- A late 401 may belong to a token another request has already renewed.
          else if s.storage.authToken = config.accessToken then beginRenewal config sessionId s
          else (.ok .resend, s)
        else s.reject config s.storage reply

/-- The answer of a request. -/
def respond (config : Config) : Call Verdict :=
  fetch .answer fun reply s =>
    match reply with
    | .success _ => onResponse config s
    | _ => onError config reply s

/-! ## §4. Renewal. -/

/-- The `try` block; it throws a status, if Axios reports one. -/
def tryRenewal (config : Config) (sessionId refreshToken : String) (reply : Reply) (s : Tab) :
    Except (Option Nat) Tab :=
  match reply with
  | .success session =>
      if s.storage.getSessionId ≠ some sessionId then .error none
      -- Another tab may have renewed this session while this request was pending.
      else if s.storage.refreshToken ≠ some refreshToken then .ok s
      else
        match s.storage.storeTokens session with
        | .ok storage => .ok { s.note config s.storage (.stored refreshToken) with storage }
        | .error _ => .error none
  | _ => .error reply.status

def catchRenewal (config : Config) (sessionId refreshToken : String) (status : Option Nat) (s : Tab) :
    Except String Unit × Tab :=
  if s.storage.getSessionId = some sessionId ∧ s.storage.refreshToken ≠ some refreshToken then (.ok (), s)
  else
    match status.filter (· ∈ [401, 403]) with
    | some status =>
        (.error "Your session has expired. Please sign in again.",
          s.endSession config sessionId (.refreshRefused status))
    -- A network outage or server error must not erase valid credentials.
    | none => (.error "Could not renew your session. Please try again.", s)

/-- The body of the promise, after the answer of `refresh`. -/
def renewal (config : Config) (sessionId refreshToken : String) (reply : Reply) (s : Tab) : Except String Unit × Tab :=
  match tryRenewal config sessionId refreshToken reply s with
  | .ok s => (.ok (), s)
  | .error status => catchRenewal config sessionId refreshToken status s

/-- The promise settles with a result. -/
def Tab.settle (s : Tab) (promise : Nat) (result : Except String Unit) : Tab :=
  { s with
    promises := (promise, result) :: s.promises
    flights := s.flights.filter fun x => x.1 ≠ promise }

def finishRenewal (config : Config) (sessionId refreshToken : String) (reply : Reply) (s : Tab) :
    Except String Unit × Tab :=
  let r := renewal config sessionId refreshToken reply s
  (r.1, r.2.settle config.number r.1)

/-- `finally`. -/
def release (config : Config) (sessionId : String) (s : Tab) : Tab :=
  if s.pendingRefresh = some ⟨sessionId, config.number⟩ then { s with pendingRefresh := none } else s

/-- `renewSession`, by the request that sends `refresh`. -/
def lead (config : Config) (sessionId refreshToken : String) : Call Unit :=
  (fetch (.refresh config.number sessionId refreshToken) (finishRenewal config sessionId refreshToken)).onExit
    (sync .release fun s => (.ok (), release config sessionId s))

/-- `await` of a promise. -/
def join (promise : Nat) : Call Unit :=
  .await (.join promise)
    (fun a s =>
      match a with
      | .ok .turn => (s.promises.find? fun x => x.1 = promise).map fun x => (x.2, s)
      | _ => none)
    .done

/-! ## §5. The system. -/

def Config.retried (config : Config) : Config := { config with retriedAfterRefresh := true }

/-- A request, its answer, and the renewal that it asks for. -/
def round (config : Config) : Call (Option Config) := do
  let config ← dispatch config
  let verdict ← respond config
  match verdict with
  | .delivered => return none
  | .resend => return some config.retried
  | .join promise => do
      join promise
      return some config.retried
  | .lead sessionId refreshToken => do
      lead config sessionId refreshToken
      return some config.retried

/-- `apiClient.request`.  The second round asks for no third one: it is of a
request that was re-sent. -/
def request (config : Config) : Call Unit := do
  let again ← round config
  match again with
  | none => return
  | some config => do
      let _ ← round config
      return

/-- A tab with its requests; people sign in and out, and leave the page. -/
def browser : System Nat String Tab TabOp String Reply where
  body n url := request ⟨n, url, none, none, false⟩
  enter n _ s := if n ∉ s.requests then some { s with requests := n :: s.requests } else none
  deliver _ _ _ _ := true
  env d s :=
    match d with
    | .signIn session uuid =>
        if uuid ∉ s.sessions ∧ uuid ≠ "" then
          some { s with storage := s.storage.saveSession session uuid, sessions := uuid :: s.sessions }
        else none
    | .signOut => some { s with storage := s.storage.clearSession }
    | .renewed session =>
        match s.storage.storeTokens session with
        | .ok storage => if s.storage.getSessionId ≠ none then some { s with storage } else none
        | .error _ => none
    | _ => none
  crash _ s := some { s with pendingRefresh := none, promises := [], flights := [] }

/-- A page is opened. -/
def Tab.start (storage : Storage) (sessions : List String) : Tab := ⟨storage, none, [], sessions, [], [], []⟩

end WebBuilder.Frontend.Client
