/-
  WebBuilder.Auth.Verification — verification mail.

  `verification.py` with the routes of `router.py` that send mail.  A request
  has a database session of its own: its statements see what is committed at
  that moment and what it has flushed itself, and the locks that they take are
  held until it commits or rolls back.  A lock that another session holds
  makes the statement wait, for as long as it takes.

  The clock never goes back, and may move between any two awaits.  The times
  are microseconds.  Names, password hashes and the text of the mail are left
  out; `lockId` is the hash of the client's address.

  Main definitions:
    * `sendVerification`, `issueToken` — the limits and the token;
    * `registerUser`, `requestVerification` — who calls them;
    * `verification` — the system of all requests, with those that verify an
      address or issue other tokens meanwhile.
-/
import WebBuilder.Auth.Social
import WebBuilder.Store.Query

namespace WebBuilder.Auth.Verification

open WebBuilder.Async WebBuilder.Store

/-! ## §1. The database. -/

def second : Nat := 1000000
def minute : Nat := 60 * second
def day : Nat := 24 * 60 * minute

structure AuthToken where
  /-- The token whose digest is stored. -/
  token : String
  purpose : String
  userId : Nat
  requestIp : String
  createdAt : Nat
  expiresAt : Nat
  deriving DecidableEq

structure Db where
  users : List User
  tokens : List AuthToken

/-- A flushed statement. -/
inductive Change where
  | user (user : User)
  /-- `user.email_verified = True`. -/
  | verified (userId : Nat)
  | token (token : AuthToken)
  /-- The rows that a `DELETE` has found. -/
  | deleted (tokens : List AuthToken)

def Db.apply (db : Db) : Change → Db
  | .user u => { db with users := db.users ++ [u] }
  | .verified id => { db with users := db.users.map fun u => if u.id = id then u.verify else u }
  | .token x => { db with tokens := db.tokens ++ [x] }
  | .deleted xs => { db with tokens := db.tokens.filter fun x => x ∉ xs }

/-- `db.get(User, id)`. -/
def Db.user? (db : Db) (id : Nat) : Option User := db.users.find? fun u => u.id = id

/-! ## §2. The service. -/

structure Config where
  /-- `str.lower`. -/
  lower : String → String
  /-- `func.lower`, of the database. -/
  dbLower : String → String
  /-- `str.strip`. -/
  strip : String → String
  emailConfigured : Bool
  /-- The first eight bytes of the SHA-256 of an address. -/
  lockId : String → Int

structure Server where
  clock : Nat
  store : Transactional Db Change
  nextUser : Nat
  /-- `pg_advisory_xact_lock`. -/
  addresses : Locks Int
  /-- The locked rows of `users`. -/
  rows : Locks Nat
  requests : List Nat

inductive Op where
  | clock
  | secret
  | read
  | lock
  | flush
  | commit
  | rollback
  | close
  /-- The mail to this address. -/
  | mail (recipient : String)

/-- What the environment chooses. -/
inductive Reply where
  | served
  /-- `secrets.token_urlsafe`. -/
  | secret (token : String)
  | elapsed (time : Nat)

abbrev Request (α : Type) := Co Server Op AuthExc Reply α

/-- What the session `t` sees. -/
def Server.view (s : Server) (t : Nat) : Db := (s.store.own t).foldl Db.apply s.store.db

def Server.setStore (s : Server) (store : Transactional Db Change) : Server := { s with store }

/-- The session `t` is over: its locks are free. -/
def Server.finish (s : Server) (t : Nat) (store : Transactional Db Change) : Server :=
  { s with store, addresses := s.addresses.release t, rows := s.rows.release t }

/-- A statement that waits while `busy`. -/
def statement {α : Type} (op : Op) (busy : Server → Bool) (body : Server → Except AuthExc α × Server) : Request α :=
  .await op
    (fun a s =>
      match a with
      | .ok _ => if busy s then none else some (body s)
      | .fail e => if fault e then some (.error e, s) else none
      | .lost e _ => if fault e ∧ busy s = false then some (.error e, (body s).2) else none
      | .late _ _ => none)
    .done

/-- `datetime.now(timezone.utc)`. -/
def readClock : Request Nat := Co.memory .clock fun s => (s.clock, s)

/-- `secrets.token_urlsafe(32)`. -/
def tokenUrlsafe : Request String :=
  .await .secret
    (fun a s =>
      match a with
      | .ok (.secret token) => some (.ok token, s)
      | _ => none)
    .done

/-- `client.post` and `raise_for_status`: any answer, any exception. -/
def post (recipient : String) : Request Unit :=
  .await (.mail recipient)
    (fun a s =>
      match a with
      | .ok _ => some (.ok (), s)
      | .fail e => some (.error e, s)
      | _ => none)
    .done

/-- An insert of a user with this address. -/
def Change.inserts (email : String) : Change → Bool
  | user u => u.email = email
  | _ => false

/-- An insert of this token. -/
def Change.issues (secret : String) : Change → Bool
  | token x => x.token = secret
  | _ => false

section Requests

variable (cfg : Config) (t : Nat)

/-- A read. -/
def query {α : Type} (f : Db → α) : Request α :=
  statement .read (fun _ => false) fun s => (.ok (f (s.view t)), s)

/-- `SELECT pg_advisory_xact_lock(:key)`. -/
def lockAddress (requestIp : String) : Request Unit :=
  statement .lock (fun s => s.addresses.busy t (cfg.lockId requestIp))
    fun s => (.ok (), { s with addresses := s.addresses.take t (cfg.lockId requestIp) })

/-- `db.refresh(user, with_for_update=True)`. -/
def refreshForUpdate (userId : Nat) : Request User :=
  statement .lock (fun s => s.rows.busy t userId) fun s =>
    match (s.view t).user? userId with
    | some user => (.ok user, { s with rows := s.rows.take t userId })
    | none => (.error .database, s)

/-- A flushed `INSERT INTO users`: the address is unique, and the next id is
taken in any case.  Nobody else can lock the row before it is committed. -/
def insertUser (email : String) (emailVerified : Bool) : Request User :=
  statement .flush (fun s => s.store.pending.any fun x => x.1 ≠ t && x.2.inserts email) fun s =>
    if (s.view t).users.any fun u => u.email = email then (.error .integrity, { s with nextUser := s.nextUser + 1 })
    else
      (.ok ⟨s.nextUser, email, emailVerified⟩,
        { s with
          store := s.store.flush t (.user ⟨s.nextUser, email, emailVerified⟩)
          nextUser := s.nextUser + 1
          rows := s.rows.take t s.nextUser })

/-- A flushed `user.email_verified = True`, which locks the row. -/
def markVerified (userId : Nat) : Request Unit :=
  statement .flush (fun s => s.rows.busy t userId) fun s =>
    match (s.view t).user? userId with
    | some _ => (.ok (), { s with store := s.store.flush t (.verified userId), rows := s.rows.take t userId })
    | none => (.error .database, s)

/-- `delete(AuthToken).where(AuthToken.expires_at < now - timedelta(days=1))`. -/
def deleteExpired (now : Nat) : Request Unit :=
  statement .flush (fun _ => false) fun s =>
    (.ok (), s.setStore (s.store.flush t (.deleted ((s.view t).tokens.filter fun x => x.expiresAt + day < now))))

/-- A flushed `INSERT INTO auth_tokens`: the digest is the primary key. -/
def insertToken (x : AuthToken) : Request Unit :=
  statement .flush (fun s => s.store.pending.any fun y => y.1 ≠ t && y.2.issues x.token) fun s =>
    if (s.view t).tokens.any fun y => y.token = x.token then (.error .integrity, s)
    else (.ok (), s.setStore (s.store.flush t (.token x)))

/-- `db.commit()`.  One that fails is a rollback, unless only its answer is
lost. -/
def commitStep (a : Answer AuthExc Reply) (s : Server) : Option (Except AuthExc Unit × Server) :=
  match a with
  | .ok _ => some (.ok (), s.finish t (s.store.commit Db.apply t))
  | .fail e => if fault e then some (.error e, s.finish t (s.store.drop t)) else none
  | .lost e _ => if fault e then some (.error e, s.finish t (s.store.commit Db.apply t)) else none
  | .late _ _ => none

def commit : Request Unit := .await .commit (commitStep t) .done

def rollbackStep (a : Answer AuthExc Reply) (s : Server) : Option (Except AuthExc Unit × Server) :=
  match a with
  | .ok _ => some (.ok (), s.finish t (s.store.drop t))
  | .fail e => if fault e then some (.error e, s) else none
  | .lost e _ => if fault e then some (.error e, s.finish t (s.store.drop t)) else none
  | .late _ _ => none

def rollback : Request Unit := .await .rollback (rollbackStep t) .done

/-- `session.close()`: the session is gone, also when it raises. -/
def closeStep (a : Answer AuthExc Reply) (s : Server) : Option (Except AuthExc Unit × Server) :=
  match a with
  | .ok _ => some (.ok (), s.finish t (s.store.drop t))
  | .lost e _ => if fault e then some (.error e, s.finish t (s.store.drop t)) else none
  | _ => none

def close : Request Unit := .await .close (closeStep t) .done

/-- `issue_token`.  `created_at` is filled in when the row is flushed. -/
def issueToken (userId : Nat) (purpose : String) (minutes : Nat) (requestIp : String) : Request String := do
  let now ← readClock
  deleteExpired t now
  let token ← tokenUrlsafe
  let createdAt ← readClock
  insertToken t ⟨token, purpose, userId, requestIp, createdAt, now + minutes * minute⟩
  return token

/-- The tokens that count against a client's address. -/
def Db.recent (db : Db) (requestIp : String) (now : Nat) : Nat :=
  (db.tokens.filter fun x =>
    x.purpose = "verify_email" ∧ x.requestIp = requestIp ∧ now < x.createdAt + 15 * minute).length

/-- `created_at` of the last token of a user. -/
def Db.last (db : Db) (userId : Nat) : Option Nat :=
  (orderByDesc AuthToken.createdAt
    (db.tokens.filter fun x => x.userId = userId ∧ x.purpose = "verify_email")).head?.map AuthToken.createdAt

/-- `send_verification`. -/
def sendVerification (userId : Nat) (requestIp : String) : Request Unit :=
  if ¬ cfg.emailConfigured then Co.raise (.http 503)
  else do
    let now ← readClock
    -- Serialize rate-limit checks across workers, including different target emails.
    lockAddress cfg t requestIp
    let user ← refreshForUpdate t userId
    if user.emailVerified then return
    else do
      let recent ← query t fun db => db.recent requestIp now
      if 5 ≤ recent then Co.raise (.http 429)
      else do
        let last ← query t fun db => db.last userId
        if last.any fun time => now < time + 60 * second then return
        else do
          let _ ← issueToken t userId "verify_email" 30 requestIp
          (post user.email).tryCatch fun e => Co.raise (if e = .provider then .http 503 else e)

/-- `register_user`. -/
def registerUser (address name : String) (client : Option String) : Request Unit :=
  if ¬ cfg.emailConfigured then Co.raise (.http 503)
  else do
    let email := cfg.lower address
    let existing ← query t fun db => db.users.any fun u => cfg.dbLower u.email = email
    if existing then Co.raise (.http 400)
    else if cfg.strip name = "" then Co.raise (.http 422)
    else do
      let user ← (insertUser t email false).tryCatch fun e =>
        if e = .integrity then do
          rollback t
          Co.raise (.http 409)
        else Co.raise e
      sendVerification cfg t user.id (client.getD "unknown")
      commit t

/-- `request_verification`. -/
def requestVerification (address : String) (client : Option String) : Request Unit :=
  if ¬ cfg.emailConfigured then Co.raise (.http 503)
  else do
    let user ← query t fun db => db.users.find? fun u => cfg.dbLower u.email = cfg.lower address
    match user with
    | none => return
    | some user =>
        if user.emailVerified then return
        else do
          sendVerification cfg t user.id (client.getD "unknown")
          commit t

/-- What `confirm_verification` does to the user of a token. -/
def confirmVerification (userId : Nat) : Request Unit := do
  markVerified t userId
  commit t

/-- `link_provider`, for an enabled provider and a user who is signed in. -/
def linkProvider (provider : String) (userId : Nat) : Request Unit := do
  let _ ← issueToken t userId ("link_" ++ provider) 5 ""
  commit t

/-- The user of an identity, or a new one. -/
def resolveUser (account : Option Nat) (email : String) : Request Nat :=
  match account with
  | some userId => return userId
  | none => do
      let user ← insertUser t email true
      return user.id

/-- The provider may have verified the address of the account. -/
def proveEmail (userId : Nat) (proved : Bool) : Request Unit := if proved then markVerified t userId else return

/-- What `oauth_callback` does to users and tokens, with a ticket or without. -/
def oauthCallback (account : Option Nat) (email : String) (proved ticket : Bool) : Request Unit := do
  let userId ← resolveUser t account email
  proveEmail t userId proved
  if ticket then do
    let _ ← issueToken t userId "oauth_exchange" 1 ""
    commit t
  else commit t

end Requests

/-! ## §3. The system. -/

inductive Call where
  | registerUser (address name : String) (client : Option String)
  | requestVerification (address : String) (client : Option String)
  | confirmVerification (userId : Nat)
  | linkProvider (provider : String) (userId : Nat)
  | oauthCallback (account : Option Nat) (email : String) (proved ticket : Bool)

def route (cfg : Config) (t : Nat) : Call → Request Unit
  | .registerUser address name client => registerUser cfg t address name client
  | .requestVerification address client => requestVerification cfg t address client
  | .confirmVerification userId => confirmVerification t userId
  | .linkProvider provider userId => linkProvider t provider userId
  | .oauthCallback account email proved ticket => oauthCallback t account email proved ticket

/-- `get_db` around a route: `except Exception` leaves a cancellation alone. -/
def getDb (t : Nat) (route : Request Unit) : Request Unit :=
  ((route.bind fun _ => commit t).tryCatch fun e =>
    if e = .cancelled then Co.raise e
    else do
      rollback t
      Co.raise e).onExit (close t)

/-- All requests of all workers, each with a number and a session of its own. -/
def verification (cfg : Config) : System Nat Call Server Op AuthExc Reply where
  body t k := getDb t (route cfg t k)
  enter t _ s := if t ∉ s.requests then some { s with requests := t :: s.requests } else none
  deliver _ _ _ _ := true
  env d s :=
    match d with
    | .elapsed time => some { s with clock := s.clock + time }
    | _ => none
  crash _ s :=
    some { s with store := { s.store with pending := [] }, addresses := fun _ => none, rows := fun _ => none }

/-- These users, and no token yet. -/
def Server.start (users : List User) (clock : Nat) : Server where
  clock := clock
  store := ⟨⟨users, []⟩, [], []⟩
  nextUser := (users.map User.id).foldr max 0 + 1
  addresses := fun _ => none
  rows := fun _ => none
  requests := []

end WebBuilder.Auth.Verification
