/-
  WebBuilder.Auth.Social — accounts, their e-mails and external identities.

  `social.py` with the routes of `router.py` that create or verify accounts
  and the tokens of `verification.py`.  A request has a database session of
  its own: its inserts are checked against the unique keys when they are
  flushed, wait for a conflicting row of another session, and become visible
  with its commit.  What is read is what is committed at that moment.

  An await on the database raises an `IntegrityError` or any fault, and then
  nothing of the session is committed.  The providers answer what they like.

  Names, password hashes and the times of tokens' creation are left out; the
  rate limits of `send_verification` are for the environment to choose.

  Main definitions:
    * `resolveIdentity`, `oauthCallback` — the four branches and the handler;
    * `register`, `confirmVerification`, `startOauth`, … — the other requests;
    * `auth` — the system of all requests.
-/
import WebBuilder.Async.Pool
import WebBuilder.Store.Transactions

namespace WebBuilder.Auth

open WebBuilder.Async WebBuilder.Store

/-! ## §1. The database. -/

structure User where
  id : Nat
  email : String
  emailVerified : Bool
  deriving DecidableEq

/-- `auth_identities`: the primary key is (`provider`, `subject`), and
(`user_id`, `provider`) is unique. -/
structure AuthIdentity where
  provider : String
  subject : String
  userId : Nat
  deriving DecidableEq

structure AuthToken where
  /-- The token whose digest is stored. -/
  token : String
  purpose : String
  userId : Nat
  expiresAt : Nat
  consumed : Bool
  deriving DecidableEq

structure Db where
  users : List User
  identities : List AuthIdentity
  tokens : List AuthToken

/-- A flushed statement. -/
inductive Change where
  | user (user : User)
  | identity (identity : AuthIdentity)
  /-- `user.email_verified = True`. -/
  | verified (userId : Nat)
  | token (token : AuthToken)
  /-- `consumed_at` is set. -/
  | consumed (token : String)
  | consumedAll (userId : Nat) (purpose : String)
  /-- Tokens that expired before are deleted. -/
  | expired (time : Nat)

def User.verify (u : User) : User := { u with emailVerified := true }

def AuthToken.consume (t : AuthToken) : AuthToken := { t with consumed := true }

def Db.apply (db : Db) : Change → Db
  | .user u => { db with users := db.users ++ [u] }
  | .identity i => { db with identities := db.identities ++ [i] }
  | .verified id => { db with users := db.users.map fun u => if u.id = id then u.verify else u }
  | .token t => { db with tokens := db.tokens ++ [t] }
  | .consumed token => { db with tokens := db.tokens.map fun t => if t.token = token then t.consume else t }
  | .consumedAll id purpose =>
      { db with tokens := db.tokens.map fun t => if t.userId = id ∧ t.purpose = purpose then t.consume else t }
  | .expired time => { db with tokens := db.tokens.filter fun t => time ≤ t.expiresAt }

/-- `db.get(User, id)`. -/
def Db.user? (db : Db) (id : Nat) : Option User := db.users.find? fun u => u.id = id

/-- `db.get(AuthIdentity, (provider, subject))`. -/
def Db.identity? (db : Db) (provider subject : String) : Option AuthIdentity :=
  db.identities.find? fun i => i.provider = provider ∧ i.subject = subject

/-- Who owns a pair (`provider`, `subject`). -/
def Db.owner (db : Db) (provider subject : String) : Option Nat :=
  (db.identity? provider subject).map AuthIdentity.userId

/-! ## §2. The service. -/

structure Config where
  /-- `str.lower`. -/
  lower : String → String
  /-- `func.lower`, of the database. -/
  dbLower : String → String
  emailConfigured : Bool
  providerEnabled : String → Bool

/-- What the provider proves: the subject and a verified e-mail address. -/
structure Profile where
  subject : String
  email : String
  deriving DecidableEq

/-- The signed cookie between `start_oauth` and `oauth_callback`. -/
structure Session where
  provider : String
  linkUser : Option Nat
  deriving DecidableEq

/-- What the browser is told by `oauth_callback`. -/
inductive Outcome where
  /-- `#connected`, or a ticket for this user. -/
  | signedIn (profile : Profile) (userId : Nat)
  /-- `#error`. -/
  | failed (code : String)
  /-- The exception leaves the route. -/
  | raised
  deriving DecidableEq

/-- A callback and its outcome. -/
structure Response where
  request : Nat
  session : Session
  outcome : Outcome

/-- The database, the sequence of user ids, and what requests have left. -/
structure Accounts where
  store : Transactional Db Change
  nextUser : Nat
  requests : List Nat
  sessions : List Session
  responses : List Response

inductive AuthExc where
  /-- `ValueError`, with its text. -/
  | value (message : String)
  | integrity
  /-- `OAuthError`, `JoseError` or `httpx.HTTPError`. -/
  | provider
  | http (status : Nat)
  /-- Anything else that the database raises. -/
  | database
  | cancelled
  deriving DecidableEq

inductive AuthOp where
  | read
  | flush (c : Change)
  | consume (token purpose : String)
  | commit
  | rollback
  /-- `authorize_access_token` and `verified_identity`. -/
  | authorize
  /-- The e-mail that `send_verification` sends. -/
  | mail
  | limits
  | memory
  | respond

/-- What the environment chooses. -/
inductive AuthReply where
  | served
  | profile (profile : Profile)
  | time (now : Nat)
  /-- `secrets.token_urlsafe` at a time. -/
  | secret (token : String) (now : Nat)
  /-- `send_verification` sends: nothing, or a new link; `none` is the limit. -/
  | limits (send : Option Bool)

abbrev Request (α : Type) := Co Accounts AuthOp AuthExc AuthReply α

def fault : AuthExc → Bool
  | .database | .cancelled => true
  | _ => false

/-- A read of what is committed.  Requests read before they insert. -/
def query {α : Type} (f : Db → α) : Request α := Co.query fault .read fun s => f s.store.db

/-- An await on the environment; it may raise anything but an `IntegrityError`. -/
def ask {α : Type} (op : AuthOp) (answer : AuthReply → Option α) : Request α :=
  .await op
    (fun a s =>
      match a with
      | .ok d => (answer d).map fun r => (.ok r, s)
      | .fail e => if e = .integrity then none else some (.error e, s)
      | _ => none)
    .done

def Accounts.setStore (s : Accounts) (store : Transactional Db Change) : Accounts := { s with store }

/-- Two rows that a unique key of `auth_identities` does not let coexist. -/
def AuthIdentity.clashes (i j : AuthIdentity) : Bool :=
  (i.provider = j.provider ∧ i.subject = j.subject) ∨ (i.userId = j.userId ∧ i.provider = j.provider)

/-- The identities that are flushed. -/
def Change.identities : Change → List AuthIdentity
  | identity i => [i]
  | _ => []

def Change.users : Change → List User
  | user u => [u]
  | _ => []

/-- An insert waits for the rows of open transactions that clash with it. -/
def waits {R : Type} (new : Change → List R) (clashes : R → Bool) (s : Accounts) (t : Nat) : Bool :=
  s.store.pending.any fun x => x.1 ≠ t && (new x.2).any clashes

/-- The rows that refuse an insert: committed ones, and those of its own
transaction. -/
def refuses {R : Type} (rows : Db → List R) (new : Change → List R) (clashes : R → Bool) (s : Accounts) (t : Nat) :
    Bool :=
  (rows s.store.db ++ (s.store.own t).flatMap new).any clashes

section Requests

variable (cfg : Config) (t : Nat)

/-- A flush of a statement that no key can refuse. -/
def flush (c : Change) : Request Unit :=
  Co.transaction fault (.flush c) fun s => .ok ((), s.setStore (s.store.flush t c))

/-- A flushed `INSERT INTO auth_identities`. -/
def insertIdentityStep (i : AuthIdentity) (a : Answer AuthExc AuthReply) (s : Accounts) :
    Option (Except AuthExc Unit × Accounts) :=
  match a with
  | .ok _ =>
      if waits Change.identities i.clashes s t then none
      else if refuses Db.identities Change.identities i.clashes s t then some (.error .integrity, s)
      else some (.ok (), s.setStore (s.store.flush t (.identity i)))
  | .fail e => if fault e then some (.error e, s) else none
  | _ => none

def insertIdentity (i : AuthIdentity) : Request Unit := .await (.flush (.identity i)) (insertIdentityStep t i) .done

/-- A flushed `INSERT INTO users`: the next id is taken in any case. -/
def insertUserStep (email : String) (emailVerified : Bool) (a : Answer AuthExc AuthReply) (s : Accounts) :
    Option (Except AuthExc User × Accounts) :=
  match a with
  | .ok _ =>
      if waits Change.users (fun u => u.email = email) s t then none
      else if refuses Db.users Change.users (fun u => u.email = email) s t then
        some (.error .integrity, { s with nextUser := s.nextUser + 1 })
      else
        some (.ok ⟨s.nextUser, email, emailVerified⟩,
          { s with
            store := s.store.flush t (.user ⟨s.nextUser, email, emailVerified⟩)
            nextUser := s.nextUser + 1 })
  | .fail e => if fault e then some (.error e, s) else none
  | _ => none

def insertUser (email : String) (emailVerified : Bool) : Request User :=
  .await (.flush (.user ⟨0, email, emailVerified⟩)) (insertUserStep t email emailVerified) .done

/-- `db.commit()`.  One that fails is a rollback. -/
def commitStep (a : Answer AuthExc AuthReply) (s : Accounts) : Option (Except AuthExc Unit × Accounts) :=
  match a with
  | .ok _ => some (.ok (), s.setStore (s.store.commit Db.apply t))
  | .fail e => if fault e then some (.error e, s.setStore (s.store.drop t)) else none
  | _ => none

def commit : Request Unit := .await .commit (commitStep t) .done

/-- `db.rollback()`: the session is gone, also when it raises. -/
def rollbackStep (a : Answer AuthExc AuthReply) (s : Accounts) : Option (Except AuthExc Unit × Accounts) :=
  match a with
  | .ok _ => some (.ok (), s.setStore (s.store.drop t))
  | .lost e _ => if fault e then some (.error e, s.setStore (s.store.drop t)) else none
  | _ => none

def rollback : Request Unit := .await .rollback (rollbackStep t) .done

/-- `issue_token`. -/
def issueToken (userId : Nat) (purpose : String) (minutes : Nat) : Request String := do
  let (token, now) ← ask .memory fun d => match d with | .secret token now => some (token, now) | _ => none
  flush t (.expired (now - 24 * 60))
  flush t (.token ⟨token, purpose, userId, now + minutes, false⟩)
  return token

/-- `consume_token`: the row is locked, so another request that consumes it
makes this one wait. -/
def consumeStep (token purpose : String) (a : Answer AuthExc AuthReply) (s : Accounts) :
    Option (Except AuthExc Nat × Accounts) :=
  match a with
  | .ok (.time now) =>
      if s.store.pending.any fun x => x.1 ≠ t && (match x.2 with | .consumed token' => token' = token | _ => false)
      then none
      else
        match s.store.db.tokens.find? fun row =>
          row.token = token ∧ row.purpose = purpose ∧ row.consumed = false ∧ now < row.expiresAt with
        | some row => some (.ok row.userId, s.setStore (s.store.flush t (.consumed token)))
        | none => some (.error (.http 400), s)
  | .fail e => if fault e then some (.error e, s) else none
  | _ => none

def consumeToken (token purpose : String) : Request Nat :=
  .await (.consume token purpose) (consumeStep t token purpose) .done

/-- `send_verification`. -/
def sendVerification (userId : Nat) : Request Unit :=
  if ¬ cfg.emailConfigured then Co.raise (.http 503)
  else do
    let send ← ask .limits fun d => match d with | .limits send => some send | _ => none
    match send with
    | none => Co.raise (.http 429)
    | some false => return
    | some true => do
        let _ ← issueToken t userId "verify_email" 30
        ask .mail fun _ => some ()

/-- `register_user`. -/
def register (address : String) : Request Unit :=
  if ¬ cfg.emailConfigured then Co.raise (.http 503)
  else do
    let email := cfg.lower address
    let existing ← query fun db => db.users.any fun u => cfg.dbLower u.email = email
    if existing then Co.raise (.http 400)
    else do
      let user ← (insertUser t email false).tryCatch fun e =>
        if e = .integrity then Co.raise (.http 409) else Co.raise e
      sendVerification cfg t user.id
      commit t

/-- `request_verification`. -/
def requestVerification (address : String) : Request Unit :=
  if ¬ cfg.emailConfigured then Co.raise (.http 503)
  else do
    let user ← query fun db => db.users.find? fun u => cfg.dbLower u.email = cfg.lower address
    match user with
    | none => return
    | some user =>
        if user.emailVerified then return
        else do
          sendVerification cfg t user.id
          commit t

/-- `confirm_verification`. -/
def confirmVerification (token : String) : Request Unit := do
  let userId ← consumeToken t token "verify_email"
  let user ← query fun db => db.user? userId
  match user with
  | none => Co.raise (.http 400)
  | some user => do
      flush t (.verified user.id)
      flush t (.consumedAll userId "verify_email")
      commit t

/-- `link_provider`, for a user who is signed in. -/
def linkProvider (provider : String) (userId : Nat) : Request Unit :=
  if ¬ cfg.providerEnabled provider then Co.raise (.http 503)
  else do
    let _ ← issueToken t userId ("link_" ++ provider) 5
    commit t

/-- `start_oauth`: the session remembers whose ticket it was. -/
def startOauth (provider : String) (ticket : Option String) : Request Unit :=
  if ¬ cfg.providerEnabled provider then Co.raise (.http 503)
  else
    match ticket with
    | none => do
        commit t
        Co.memory .memory fun s => ((), { s with sessions := ⟨provider, none⟩ :: s.sessions })
    | some ticket => do
        let linkUser ← consumeToken t ticket ("link_" ++ provider)
        commit t
        Co.memory .memory fun s => ((), { s with sessions := ⟨provider, some linkUser⟩ :: s.sessions })

/-! ## §3. The callback. -/

/-- The user of an identity, and the row that is added for it. -/
def findUser (provider : String) (profile : Profile) (linkUser : Option Nat) :
    Request (Option User × List AuthIdentity) := do
  let identity ← query fun db => db.identity? provider profile.subject
  match identity, linkUser with
  | some identity, linkUser =>
      if linkUser ≠ none ∧ linkUser ≠ some identity.userId then Co.raise (.value "account_conflict")
      else do
        let user ← query fun db => db.user? identity.userId
        return (user, [])
  | none, some linkUser => do
      let user ← query fun db => db.user? linkUser
      match user with
      | none => Co.raise (.value "account_conflict")
      | some user => return (some user, [⟨provider, profile.subject, user.id⟩])
  | none, none => do
      let existing ← query fun db => db.users.any fun u => cfg.dbLower u.email = profile.email
      -- Never silently link by email: authenticate the existing account first.
      if existing then Co.raise (.value "link_required")
      else do
        let user ← insertUser t profile.email true
        return (some user, [⟨provider, profile.subject, user.id⟩])

/-- The provider has verified the address of the account. -/
def proveEmail (user : User) (profile : Profile) : Request Unit :=
  if cfg.lower user.email = profile.email then flush t (.verified user.id) else .done (.ok ())

/-- `resolve_identity`. -/
def resolveIdentity (provider : String) (profile : Profile) (linkUser : Option Nat) : Request User := do
  let (user, added) ← findUser cfg t provider profile linkUser
  match user with
  | none => Co.raise (.value "account_conflict")
  | some user => do
      Co.forEach added (insertIdentity t)
      proveEmail cfg t user profile
      return user

/-- The `try` block of `oauth_callback`. -/
def tryCallback (session : Session) : Request (Profile × Nat) := do
  let profile ← ask .authorize fun d =>
    match d with
    | .profile p => some ⟨p.subject, cfg.lower p.email⟩
    | _ => none
  let user ← resolveIdentity cfg t session.provider profile session.linkUser
  match session.linkUser with
  | some _ => do
      commit t
      return (profile, user.id)
  | none => do
      let _ ← issueToken t user.id "oauth_exchange" 1
      commit t
      return (profile, user.id)

/-- `code` of the redirect. -/
def errorCode : AuthExc → String
  | .value message =>
      if message ∈ ["link_required", "verified_email_required", "account_conflict"] then message else "oauth_failed"
  | _ => "oauth_failed"

/-- The exceptions that `oauth_callback` turns into a redirect. -/
def AuthExc.isRedirected : AuthExc → Bool
  | value _ | integrity | provider => true
  | _ => false

def respond (session : Session) (outcome : Outcome) : Request Unit :=
  Co.memory .respond fun s => ((), { s with responses := ⟨t, session, outcome⟩ :: s.responses })

/-- What the browser is told. -/
def outcomeOf : Except AuthExc (Profile × Nat) → Outcome
  | .ok (profile, userId) => .signedIn profile userId
  | .error e => if e.isRedirected then .failed (errorCode e) else .raised

/-- `oauth_callback`.  The session of the database ends before the response. -/
def oauthCallback (session : Session) : Request Unit :=
  if ¬ cfg.providerEnabled session.provider then Co.raise (.http 503)
  else do
    let result ← (tryCallback cfg t session).attempt
    match result with
    | .ok (profile, userId) => respond t session (.signedIn profile userId)
    | .error e => do
        let ended ← (rollback t).attempt
        match ended with
        | .ok () => respond t session (outcomeOf (.error e))
        | .error _ => respond t session .raised

end Requests

/-! ## §4. The system. -/

inductive Call where
  | register (address : String)
  | requestVerification (address : String)
  | confirmVerification (token : String)
  | linkProvider (provider : String) (userId : Nat)
  | startOauth (provider : String) (ticket : Option String)
  | oauthCallback (session : Session)

/-- A route, and the end of its database session in `get_db`. -/
def serve (cfg : Config) (t : Nat) : Call → Request Unit
  | .register address => (register cfg t address).onExit (rollback t)
  | .requestVerification address => (requestVerification cfg t address).onExit (rollback t)
  | .confirmVerification token => (confirmVerification t token).onExit (rollback t)
  | .linkProvider provider userId => (linkProvider cfg t provider userId).onExit (rollback t)
  | .startOauth provider ticket => (startOauth cfg t provider ticket).onExit (rollback t)
  | .oauthCallback session => oauthCallback cfg t session

/-- A callback needs a cookie that was issued. -/
def Call.authentic (s : Accounts) : Call → Bool
  | oauthCallback session => session ∈ s.sessions
  | _ => true

/-- All requests, each with a number and a database session of its own. -/
def auth (cfg : Config) : System Nat Call Accounts AuthOp AuthExc AuthReply where
  body := serve cfg
  enter t k s := if t ∉ s.requests ∧ k.authentic s then some { s with requests := t :: s.requests } else none
  deliver _ _ _ _ := true
  env _ _ := none
  crash _ s := some { s with store := { s.store with pending := [] } }

/-- Nothing has happened yet. -/
def Accounts.start (db : Db) (nextUser : Nat) : Accounts := ⟨⟨db, [], []⟩, nextUser, [], [], []⟩

end WebBuilder.Auth
