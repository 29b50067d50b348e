/-
  WebBuilder.Budget.ModelSpend — the money of a run's model requests.

  The two HTTP hooks of `model_budget.py`: `reserve_model_request` reserves
  the bound of an attempt before it is sent, `settle_model_response` replaces
  it by what the response is known to cost.  Every attempt of a run goes
  through both, retries and compactions included.

  The hooks share the run's scope, whose `limit_error` stops it, and the
  ledger with everybody else.  A monitor keeps the book of a run's attempts:
  what was asked, what was answered, and whether a settlement committed.

  Main results:
    * `holds_apply`, `watched_attempt` — the entries of a run are touched by
      its own settlements only, and each attempt keeps the book;
    * `money_released_on_proof` — nothing is sent without its reservation or
      after an error, and an entry carries less than its reservation only
      when a settlement of its own response committed.
-/
import Mathlib.Data.List.DropRight
import WebBuilder.Async.Monitor
import WebBuilder.Budget.Allowance
import WebBuilder.Budget.ModelCost

namespace WebBuilder.Budget

open WebBuilder.Async WebBuilder.Store

/-! ## §1. Requests and responses. -/

/-- What the request hook reads: the path, `len(request.content)` and
`json.loads(request.content)`. -/
structure ModelRequest where
  path : List Char
  contentLength : Nat
  body : Except Exc Json

/-- What the response hook reads: the status and `response.json()`, where
`.value` is any of its `ValueError`s. -/
structure ModelResponse where
  statusCode : Nat
  body : Except Exc Json

/-- The environment: `windows` and `model_rates` read it. -/
structure ModelConfig where
  limits : Limits
  costModel : String
  rates : Except Exc ModelRates

/-- `spend_scope`, without `limit_error`. -/
structure RunScope where
  userId : Nat
  runId : Nat

/-- `value[key]`. -/
def Json.item : Json → String → Except Exc Json
  | dict fields, key => (fields.lookup key).elim (.error (.key key)) .ok
  | _, _ => .error .other

/-- `value.get(key)`. -/
def Json.attr (value : Json) (key : String) : Except Exc Json := (value.get key).elim (.error .other) .ok

def modelRates (cfg : ModelConfig) (model : Json) : Except Exc ModelRates :=
  match model with
  | .str name =>
      if name ≠ cfg.costModel then
        .error (.budgetLimit "The selected model has no configured cost rates. Contact support.")
      else
        match cfg.rates with
        | .error e => .error e
        | .ok rates =>
            if min (min rates.input rates.cached) (min rates.write rates.output) = 0 then
              .error (.budgetLimit "Model cost rates must be positive. Contact support.")
            else .ok rates
  | _ => .error (.budgetLimit "The selected model has no configured cost rates. Contact support.")

/-- `any(tool.get('type') != 'function' for tool in tools)`. -/
def anyHosted : List Json → Except Exc Bool
  | [] => .ok false
  | tool :: tools =>
      match tool.get "type" with
      | none => .error .other
      | some (.str "function") => anyHosted tools
      | some _ => .ok true

/-- The same over `body.get('tools', [])`.  A dictionary or a string is a
sequence of strings, which have no `get`. -/
def hostedTools (body : Json) : Except Exc Bool :=
  match body with
  | .dict fields =>
      match (fields.lookup "tools").getD (.list []) with
      | .list tools => anyHosted tools
      | .dict [] => .ok false
      | .str "" => .ok false
      | _ => .error .other
  | _ => .error .other

/-- `output_limit`, where it is an `int` between 1 and 8192. -/
def boundedOutput : Json → Option Nat
  | .int n => if 1 ≤ n ∧ n ≤ 8192 then some n.toNat else none
  | _ => none

/-- What a reservation is computed from. -/
structure Priced where
  rates : ModelRates
  inputBound : Nat
  outputLimit : Nat

def Priced.amount (p : Priced) : Int := reservedCost p.rates p.inputBound p.outputLimit

/-- The checks of `reserve_model_request`, and the bound of the request. -/
def priceRequest (cfg : ModelConfig) (request : ModelRequest) : Except Exc Priced := do
  if ¬ "/responses".toList <:+ request.path.rdropWhile (· == '/') then
    throw (.budgetLimit "This model endpoint has no cost accounting configured.")
  let body ← request.body
  let model ← body.item "model"
  let rates ← modelRates cfg model
  let output ← body.attr "max_output_tokens"
  let stream ← body.attr "stream"
  match boundedOutput output with
  | none => throw (.budgetLimit "Model request needs a supported bounded output limit.")
  | some outputLimit =>
      if stream.truthy then
        throw (.budgetLimit "Model request needs a supported bounded output limit.")
      let previous ← body.attr "previous_response_id"
      let conversation ← body.attr "conversation"
      let prompt ← body.attr "prompt"
      if previous.truthy ∨ conversation.truthy ∨ prompt.truthy then
        throw (.budgetLimit "Server-held model history requires separate cost accounting.")
      let hosted ← hostedTools body
      if hosted then
        throw (.budgetLimit "Hosted model tools require separate cost accounting.")
      -- Bound the transmitted body, not just a tokenizer estimate.
      return ⟨rates, request.contentLength + 2000, outputLimit⟩

/-! ## §2. The hooks. -/

/-- What the hooks see: the database, its clock and the next `uuid4`, and the
`limit_error` of the scope. -/
structure Accounts where
  users : Table User
  ledger : Ledger
  now : Nat
  uuid : Nat
  limitError : Option Exc

inductive SpendOp where
  /-- `scope['limit_error']`. -/
  | scope
  | reserve (request : ModelRequest)
  /-- The request goes out, under the entry of its reservation. -/
  | send (spendId : Nat) (request : ModelRequest)
  /-- `aread`. -/
  | read
  | settle (spendId : Nat) (response : ModelResponse)
  /-- The client sees the outcome of a hook. -/
  | hook (error : Option Exc)

/-- Any exception can be raised at any await, and a response is for the
environment to choose. -/
abbrev Spending (α : Type) := Co Accounts SpendOp Exc ModelResponse α

/-- `request.extensions['webbuilder_spend']`. -/
structure ModelSpend where
  entry : SpendEntry
  rates : ModelRates

def anyFault : Exc → Bool := fun _ => true

def setLimitError (e : Exc) : Spending Unit :=
  Co.memory .scope fun s => ((), { s with limitError := some e })

/-- `reserve(scope['user_id'], 'model', amount, 690, …)`; a second entry under
one id violates the primary key. -/
def reserveEntry (cfg : ModelConfig) (scope : RunScope) (request : ModelRequest) (amount : Int) :
    Spending SpendEntry :=
  Co.transaction anyFault (.reserve request) fun s =>
    match reserve cfg.limits s.users s.ledger s.now s.uuid scope.userId .model amount 690 {}
        (some scope.runId) none with
    | .error e => .error e
    | .ok (entry, ledger) =>
        if (s.ledger.get? s.uuid).isSome then .error .database
        else .ok (entry, { s with ledger := ledger })

/-- `settle(entry.id, amount, …)`, for a response. -/
def settleEntry (spendId : Nat) (response : ModelResponse) (amount : Int) : Spending Unit :=
  Co.transaction anyFault (.settle spendId response) fun s =>
    match settle s.ledger s.now spendId (some amount) {} with
    | .error e => .error e
    | .ok ledger => .ok ((), { s with ledger := ledger })

/-- The `except` clauses of a hook: the scope remembers the error. -/
def stopScope (message : String) (e : Exc) : Spending α :=
  if e.isException then
    match e with
    | .budgetLimit m => (setLimitError (.budgetLimit m)).bind fun _ => Co.raise (.budgetLimit m)
    | _ => (setLimitError (.budgetLimit message)).bind fun _ => Co.raise (.budgetLimit message)
  else Co.raise e

def reserveModelRequest (cfg : ModelConfig) (scope : RunScope) (request : ModelRequest) : Spending ModelSpend := do
  let limitError ← Co.memory .scope fun s => (s.limitError, s)
  match limitError with
  | some e => Co.raise e
  | none =>
      (match priceRequest cfg request with
        | .error e => Co.raise e
        | .ok priced => do
            let entry ← reserveEntry cfg scope request priced.amount
            return (⟨entry, priced.rates⟩ : ModelSpend)).tryCatch
        (stopScope "Usage accounting is temporarily unavailable. No new model request was sent.")

/-- Only explicit rejections are released. -/
def ModelResponse.rejected (response : ModelResponse) : Bool :=
  response.statusCode ∈ [400, 401, 403, 404, 413, 422, 429]

/-- `response.is_success`. -/
def ModelResponse.isSuccess (response : ModelResponse) : Bool :=
  200 ≤ response.statusCode ∧ response.statusCode ≤ 299

def settleModelResponse (spend : Option ModelSpend) (response : ModelResponse) : Spending Unit :=
  match spend with
  | none => return
  | some spend =>
      (if response.rejected then settleEntry spend.entry.id response 0
        else if !response.isSuccess then return
        else do
          Co.query anyFault .read fun _ => ()
          match response.body with
          | .error (.value _) => return
          | .error e => Co.raise e
          | .ok body =>
              match readUsage body with
              | none => return
              | some usage =>
                  settleEntry spend.entry.id response (settledCost spend.rates usage)
                  if (spend.entry.reservedNanos : Int) < settledCost spend.rates usage then
                    -- Record the actual overage, stop further calls.
                    Co.raise (.budgetLimit ("Provider usage exceeded its cost reservation. "
                      ++ "Saved files remain available; contact support."))
                  else return).tryCatch
        (stopScope ("Usage accounting could not confirm the model response. "
          ++ "Its cost remains reserved; retry later."))

/-! ## §3. The attempts of a scope. -/

/-- The request goes out; a response arrives, or an exception is raised. -/
def send (spendId : Nat) (request : ModelRequest) : Spending ModelResponse :=
  .await (.send spendId request)
    (fun answer s =>
      match answer with
      | .ok response => some (.ok response, s)
      | .fail e => some (.error e, s)
      | .lost e _ => some (.error e, s)
      | .late e _ => some (.error e, s))
    .done

def observeHook (r : Except Exc α) : Spending Unit :=
  Co.memory (.hook (exception? r)) fun s => ((), s)

/-- One HTTP attempt with its hooks.  Whatever is raised ends the attempt;
the client may then start another. -/
def attempt (cfg : ModelConfig) (scope : RunScope) (request : ModelRequest) : Spending Unit := do
  let reserved ← (reserveModelRequest cfg scope request).attempt
  observeHook reserved
  match reserved with
  | .error _ => return
  | .ok spend =>
      let response ← (send spend.entry.id request).attempt
      match response with
      | .error _ => return
      | .ok response =>
          -- `capture_provider_usage`, the first response hook, may read the body
          let captured ← (Co.query anyFault .read fun _ => () : Spending Unit).attempt
          match captured with
          | .error _ => return
          | .ok () =>
              let settled ← (settleModelResponse (some spend) response).attempt
              observeHook settled

/-- Any sequence of attempts under one scope. -/
def attempts (cfg : ModelConfig) (scope : RunScope) (requests : List ModelRequest) : Spending Unit :=
  Co.forEach requests (attempt cfg scope)

/-! ## §4. Everybody else. -/

/-- Others settle an amount of their own choice only on their own entries. -/
def Op.Foreign (scope : RunScope) (l : Ledger) : Op → Prop
  | .settle entryId (some _) _ =>
      ∀ e, l.get? entryId = some e → e.kind = .model → e.runId ≠ some scope.runId
  | _ => True

/-- One committed transaction of somebody else, whatever users and limits are. -/
def OtherStep (scope : RunScope) (l l' : Ledger) : Prop :=
  ∃ (env : Setting) (now id : Nat) (op : Op) (raised : Bool),
    l.get? id = none ∧ op.Foreign scope l ∧ env.apply now id l op = .ok (raised, l')

/-- What happens between two awaits of the scope.  Its `limit_error` is local
to the run's own task. -/
def Elsewhere (scope : RunScope) (s s' : Accounts) : Prop :=
  s'.limitError = s.limitError ∧ Relation.ReflTransGen (OtherStep scope) s.ledger s'.ledger

/-! ## §5. What a transaction touches. -/

section Touched

variable {env : Setting} {l l' : Ledger} {now id k : Nat} {e : SpendEntry}

/-- A reservation changes no entry but an open lease. -/
theorem reserve_touches {userId : Nat} {kind : SpendKind} {amount duration : Int} {details : Details}
    {runId replaceId : Option Nat} {entry : SpendEntry} (hid : l.get? id = none) (hk : l.get? k = some e)
    (h : reserve env.limits env.users l now id userId kind amount duration details runId replaceId
      = .ok (entry, l')) :
    l'.get? k = some e ∨ (e.state = .reserved ∧ e.details.nanosPerSecond ≠ none) := by
  obtain ⟨user, old, _, hold, _, _, _, hentry, rfl, _⟩ := reserve_cases h
  have hne : k ≠ key entry := by
    rw [hentry]
    rintro rfl
    cases hid.symm.trans hk
  rw [Table.get?_put_ne _ hne]
  rcases replaced_cases hold with rfl | ⟨old, a, rfl, hold, _, hstate, ha⟩
  · exact .inl hk
  · by_cases hkey : k = old.id
    · subst hkey
      obtain rfl := Option.some.inj (hold.symm.trans hk)
      refine .inr ⟨hstate, fun hrate => ?_⟩
      simp [runtimeAmount, hrate] at ha
    · exact .inl ((Table.get?_put_ne _ hkey).trans hk)

/-- A confirmation changes no entry but an open lease. -/
theorem confirmRuntime_touches {rates : Rates} {spendId : Nat} {info : Resources} {raised : Bool}
    (hk : l.get? k = some e) (h : confirmRuntime rates l spendId info = .ok (raised, l')) :
    l'.get? k = some e ∨ (e.state = .reserved ∧ e.details.nanosPerSecond ≠ none) := by
  unfold confirmRuntime at h
  split at h
  · cases h
  · split at h
    · cases h
    · rename_i entry hentry
      split at h
      · cases h
      · rename_i hstate
        split at h
        · cases h
        · rename_i held hheld
          simp only [Except.ok.injEq, Prod.mk.injEq] at h
          obtain ⟨_, rfl⟩ := h
          have hid : entry.id = spendId := Table.key_of_get? hentry
          by_cases hkey : k = spendId
          · subst hkey
            obtain rfl := Option.some.inj (hentry.symm.trans hk)
            exact .inr ⟨by simpa using hstate, by simp [hheld]⟩
          · exact .inl ((Table.get?_put_ne _ (by simpa [SpendEntry.confirm, hid] using hkey)).trans hk)

/-- A settlement closes its own entry, if that is open. -/
theorem settle_cases {entryId : Nat} {amount : Option Int} {details : Details}
    (h : settle l now entryId amount details = .ok l') :
    ∃ entry, l.get? entryId = some entry ∧ (entry.state = .settled ∧ l' = l ∨
      entry.state = .reserved ∧ ∃ a : Nat, (amount = none → entry.details.nanosPerSecond ≠ none) ∧
        (∀ given, amount = some given → a = given.toNat) ∧
        l' = l.put { entry.close a now with details := entry.details.merge details }) := by
  unfold settle at h
  split at h
  · cases h
  · rename_i entry hentry
    refine ⟨entry, hentry, ?_⟩
    split at h
    · rename_i hstate
      have hsettled : entry.state = .settled := by
        cases hs : entry.state with
        | reserved => exact absurd hs hstate
        | settled => rfl
      exact .inl ⟨hsettled, (Except.ok.inj h).symm⟩
    · rename_i hstate
      have hreserved : entry.state = .reserved := by simpa using hstate
      split at h
      · rename_i given
        refine .inr ⟨hreserved, given.toNat, (fun h => by cases h), fun g hg => ?_, (Except.ok.inj h).symm⟩
        rw [Option.some.inj hg]
      · split at h
        · rename_i a ha
          refine .inr ⟨hreserved, a, fun _ hrate => ?_, (fun _ h => by cases h), (Except.ok.inj h).symm⟩
          simp [runtimeAmount, hrate] at ha
        · cases h

/-- **What a transaction touches**: an open lease, or the open entry that it
settles for a given amount. -/
theorem apply_touches {op : Op} {raised : Bool} (hid : l.get? id = none) (hk : l.get? k = some e)
    (h : env.apply now id l op = .ok (raised, l')) :
    l'.get? k = some e ∨ (e.state = .reserved ∧ (e.details.nanosPerSecond ≠ none ∨
      ∃ amount details, op = .settle k (some amount) details)) := by
  cases op with
  | reserve userId kind amount duration details runId replaceId =>
      simp only [Setting.apply, Except.map] at h
      split at h
      · cases h
      · rename_i r hr
        simp only [Except.ok.injEq, Prod.mk.injEq] at h
        obtain ⟨_, rfl⟩ := h
        exact (reserve_touches hid hk hr).imp_right fun hopen => ⟨hopen.1, .inl hopen.2⟩
  | confirmRuntime spendId info =>
      exact (confirmRuntime_touches hk h).imp_right fun hopen => ⟨hopen.1, .inl hopen.2⟩
  | settle entryId amount details =>
      simp only [Setting.apply, Except.map] at h
      split at h
      · cases h
      · rename_i r hr
        simp only [Except.ok.injEq, Prod.mk.injEq] at h
        obtain ⟨_, rfl⟩ := h
        obtain ⟨entry, hentry, ⟨_, rfl⟩ | ⟨hstate, a, hnone, _, rfl⟩⟩ := settle_cases hr
        · exact .inl hk
        · have hkey : entry.id = entryId := Table.key_of_get? hentry
          by_cases hk' : k = entryId
          · subst hk'
            obtain rfl := Option.some.inj (hentry.symm.trans hk)
            refine .inr ⟨hstate, ?_⟩
            cases amount with
            | none => exact .inl (hnone rfl)
            | some amount => exact .inr ⟨amount, details, rfl⟩
          · exact .inl ((Table.get?_put_ne _ (by simpa [SpendEntry.close, hkey] using hk')).trans hk)

end Touched

/-! ## §6. The book. -/

/-- One attempt, from its reservation on. -/
structure Attempt where
  id : Nat
  request : ModelRequest
  sent : Bool := false
  response : Option ModelResponse := none
  settled : Bool := false

instance : Keyed Attempt Nat := ⟨Attempt.id⟩

@[simp] theorem key_attempt (a : Attempt) : key a = a.id := rfl

/-- The attempts of a run, and whether one of its hooks has failed. -/
structure Book where
  attempts : Table Attempt
  failed : Bool

abbrev SpendStep := Step Accounts SpendOp Exc ModelResponse

/-- A reservation committed. -/
def reserves (st : SpendStep) : Bool :=
  (st.before.ledger.get? st.before.uuid).isNone && (st.after.ledger.get? st.before.uuid).isSome

/-- A settlement committed. -/
def settles (id : Nat) (st : SpendStep) : Bool :=
  (st.before.ledger.get? id).any (·.state = .reserved) && (st.after.ledger.get? id).any (·.state = .settled)

def Book.change (m : Book) (id : Nat) (f : Attempt → Attempt) : Book :=
  match m.attempts.get? id with
  | some a => { m with attempts := m.attempts.put (f a) }
  | none => m

def Book.next (m : Book) (st : SpendStep) : Book :=
  match st.op with
  | .reserve request =>
      if reserves st then { m with attempts := m.attempts.put { id := st.before.uuid, request } } else m
  | .send id _ =>
      m.change id fun a => { a with sent := true, response := match st.answer with
        | .ok response => some response
        | _ => none }
  | .settle id _ => if settles id st then m.change id fun a => { a with settled := true } else m
  | .hook (some e) => { m with failed := m.failed || e.isException }
  | _ => m

/-- What a settlement of the response carries. -/
def due (rates : ModelRates) (response : ModelResponse) : Option Int :=
  if response.rejected then some 0
  else if response.isSuccess then
    match response.body with
    | .ok body => (readUsage body).map (settledCost rates)
    | .error _ => none
  else none

/-- What the entry of an attempt carries: the full bound, until its own
response is settled. -/
def Attempt.charge (a : Attempt) (priced : Priced) : Option Int :=
  if a.settled then a.response.bind (due priced.rates) else some priced.amount

/-- The entry of the attempt is the run's, for the full bound of its request. -/
structure Attempt.Entry (cfg : ModelConfig) (scope : RunScope) (a : Attempt) (bound : Priced)
    (e : SpendEntry) : Prop where
  priced : priceRequest cfg a.request = .ok bound
  userId : e.userId = scope.userId
  runId : e.runId = some scope.runId
  kind : e.kind = .model
  rateless : e.details.nanosPerSecond = none
  reserved : (e.reservedNanos : Int) = bound.amount
  state : e.state = if a.settled then .settled else .reserved
  amount : a.charge bound = some (e.amountNanos : Int)

def Attempt.Holds (cfg : ModelConfig) (scope : RunScope) (a : Attempt) (l : Ledger) : Prop :=
  ∃ priced e, l.get? a.id = some e ∧ a.Entry cfg scope priced e

/-- A request goes out once, under its own open reservation, unless a hook has
failed; a settlement is for the response that has arrived. -/
def Permitted (cfg : ModelConfig) (scope : RunScope) (m : Book) (st : SpendStep) : Prop :=
  match st.op with
  | .send id request => m.failed = false ∧ ∃ a, m.attempts.get? id = some a ∧ a.request = request ∧
      a.sent = false ∧ a.settled = false ∧ a.Holds cfg scope st.before.ledger
  | .settle id response => ∃ a, m.attempts.get? id = some a ∧ a.response = some response ∧ a.settled = false
  | _ => True

/-- The ledger agrees with the book, and a failed hook has stopped the scope. -/
structure Kept (cfg : ModelConfig) (scope : RunScope) (s : Accounts) (m : Book) : Prop where
  holds : ∀ id a, m.attempts.get? id = some a → a.Holds cfg scope s.ledger
  stopped : m.failed = true → s.limitError ≠ none

def spendings (cfg : ModelConfig) (scope : RunScope) : Monitor Accounts SpendOp Exc ModelResponse Book where
  next := Book.next
  ok m st := Permitted cfg scope m st ∧ Kept cfg scope st.after (m.next st)

section Keeping

variable {cfg : ModelConfig} {scope : RunScope} {s s' : Accounts} {m : Book}

theorem spendings_ok {m' : Book} {st : SpendStep} (hpermitted : Permitted cfg scope m st)
    (hnext : (spendings cfg scope).next m st = m') (hkept : Kept cfg scope st.after m') :
    (spendings cfg scope).ok m st := by
  have hnext : m.next st = m' := hnext
  exact ⟨hpermitted, hnext.symm ▸ hkept⟩

/-- Nobody else touches the entry of an attempt. -/
theorem holds_other {a : Attempt} {l l' : Ledger} (h : a.Holds cfg scope l) (hstep : OtherStep scope l l') :
    a.Holds cfg scope l' := by
  obtain ⟨priced, e, he, hentry⟩ := h
  obtain ⟨env, now, id, op, raised, hid, hforeign, happly⟩ := hstep
  rcases apply_touches hid he happly with hsame | ⟨_, hrate | ⟨amount, details, rfl⟩⟩
  · exact ⟨priced, e, hsame, hentry⟩
  · exact absurd hentry.rateless hrate
  · exact absurd hentry.runId (hforeign e he hentry.kind)

theorem holds_others {a : Attempt} {l l' : Ledger} (h : a.Holds cfg scope l)
    (hsteps : Relation.ReflTransGen (OtherStep scope) l l') : a.Holds cfg scope l' := by
  induction hsteps with
  | refl => exact h
  | tail _ hstep ih => exact holds_other ih hstep

theorem kept_elsewhere (hkept : Kept cfg scope s m) (h : Elsewhere scope s s') : Kept cfg scope s' m where
  holds id a ha := holds_others (hkept.holds id a ha) h.2
  stopped hfailed := h.1 ▸ hkept.stopped hfailed

/-- The ledger is as it was, for the attempts. -/
theorem kept_same (hkept : Kept cfg scope s m) (hledger : s'.ledger = s.ledger)
    (hlimit : s.limitError ≠ none → s'.limitError ≠ none) : Kept cfg scope s' m where
  holds id a ha := hledger ▸ hkept.holds id a ha
  stopped hfailed := hlimit (hkept.stopped hfailed)

/-- The scope is stopped if the outcome is an error. -/
def Stopped (s : Accounts) : Except Exc α → Prop
  | .ok _ => True
  | .error e => e.isException = true → s.limitError ≠ none

/-- **The `except` clauses**: an error stops the scope. -/
theorem watched_stopScope {message : String} {e : Exc} (hkept : Kept cfg scope s m) :
    Watched (Elsewhere scope) (spendings cfg scope) (stopScope message e : Spending α)
      (fun r s m' => Kept cfg scope s m' ∧ m' = m ∧ ∃ e, r = .error e ∧ Stopped s r) s m := by
  have hset : ∀ x : Exc, Watched (Elsewhere scope) (spendings cfg scope)
      ((setLimitError x).bind fun _ => (Co.raise x : Spending α))
      (fun r s m' => Kept cfg scope s m' ∧ m' = m ∧ ∃ e, r = .error e ∧ Stopped s r) s m := by
    intro x
    refine Watched.bind (P := fun _ s m' => Kept cfg scope s m' ∧ m' = m ∧ s.limitError = some x) ?_ ?_ ?_
    · refine Watched.memory fun s₁ d hR => ?_
      have hk : Kept cfg scope { s₁ with limitError := some x } m :=
        kept_same (kept_elsewhere hkept hR) rfl fun _ => by simp
      exact ⟨⟨trivial, hk⟩, hk, rfl, rfl⟩
    · rintro _ s m' ⟨hk, hm, hlimit⟩
      exact ⟨hk, hm, x, rfl, fun _ => by rw [hlimit]; simp⟩
    · rintro e s m' ⟨hk, hm, hlimit⟩
      exact ⟨hk, hm, e, rfl, fun _ => by rw [hlimit]; simp⟩
  unfold stopScope
  split
  · split
    · exact hset _
    · exact hset _
  · rename_i hbase
    exact ⟨hkept, rfl, e, rfl, fun he => absurd he hbase⟩

/-- Reading a body changes nothing. -/
theorem watched_read (hkept : Kept cfg scope s m) :
    Watched (Elsewhere scope) (spendings cfg scope) (Co.query anyFault .read fun _ => ())
      (fun _ s m' => Kept cfg scope s m' ∧ m' = m) s m := by
  refine Watched.transaction (fun s₁ an v e s₂ hR hbody => ?_) fun s₁ an e hR _ => ?_
  · simp only [Except.ok.injEq, Prod.mk.injEq] at hbody
    obtain ⟨_, rfl⟩ := hbody
    have hk := kept_elsewhere hkept hR
    exact ⟨⟨trivial, hk⟩, ⟨hk, rfl⟩, fun _ _ => ⟨hk, rfl⟩⟩
  · have hk := kept_elsewhere hkept hR
    exact ⟨⟨trivial, hk⟩, hk, rfl⟩

/-! ## §7. The request hook. -/

/-- A reservation for the bound of a request opens the entry of an attempt. -/
theorem reserve_model_cases {l l' : Ledger} {users : Table User} {now id userId runId : Nat} {amount : Int}
    {entry : SpendEntry} (h : reserve cfg.limits users l now id userId .model amount 690 {} (some runId) none
      = .ok (entry, l')) :
    l' = l.put entry ∧ entry.id = id ∧ entry.userId = userId ∧ entry.runId = some runId ∧
      entry.kind = .model ∧ entry.details.nanosPerSecond = none ∧ (entry.reservedNanos : Int) = amount ∧
      entry.state = .reserved ∧ entry.amountNanos = entry.reservedNanos := by
  obtain ⟨user, old, _, hold, hamount, _, _, hentry, rfl, _⟩ :=
    @reserve_cases ⟨cfg.limits, ⟨0, 0⟩, users⟩ _ _ _ _ _ _ _ _ _ _ _ _ h
  obtain rfl : none = old := Except.ok.inj hold
  rw [hentry]
  exact ⟨rfl, rfl, rfl, rfl, rfl, rfl, Int.toNat_of_nonneg hamount, rfl, rfl⟩

/-- The book takes up a committed reservation. -/
theorem kept_reserve {request : ModelRequest} {priced : Priced} {entry : SpendEntry}
    (hkept : Kept cfg scope s m) (hpriced : priceRequest cfg request = .ok priced)
    (hfresh : s.ledger.get? s.uuid = none) (hreserve : reserve cfg.limits s.users s.ledger s.now s.uuid
      scope.userId .model priced.amount 690 {} (some scope.runId) none = .ok (entry, s'.ledger))
    (hlimit : s'.limitError = s.limitError) :
    Kept cfg scope s' { m with attempts := m.attempts.put { id := s.uuid, request } } := by
  obtain ⟨hput, hid, huser, hrun, hkind, hrateless, hreserved, hstate, hamount⟩ := reserve_model_cases hreserve
  refine ⟨fun id a ha => ?_, fun hfailed => hlimit ▸ hkept.stopped hfailed⟩
  rw [Table.get?_put, key_attempt] at ha
  split at ha
  · obtain rfl := Option.some.inj ha
    have hget : s'.ledger.get? s.uuid = some entry := by
      rw [hput, ← hid, ← key_spendEntry, Table.get?_put_self]
    refine ⟨priced, entry, hget, hpriced, huser, hrun, hkind, hrateless, hreserved, hstate, ?_⟩
    rw [hamount, hreserved]
    rfl
  · obtain ⟨priced', e, he, hentry⟩ := hkept.holds id a ha
    refine ⟨priced', e, ?_, hentry⟩
    have hne : a.id ≠ key entry := by
      rw [key_spendEntry, hid]
      intro heq
      cases (heq ▸ hfresh).symm.trans he
    rw [hput, Table.get?_put_ne _ hne, he]

/-- What the request hook hands to the attempt: a reservation of its own. -/
def Ready (cfg : ModelConfig) (request : ModelRequest) (m : Book) (spend : ModelSpend) : Prop :=
  m.failed = false ∧ m.attempts.get? spend.entry.id = some { id := spend.entry.id, request } ∧
    ∃ priced, priceRequest cfg request = .ok priced ∧ spend.rates = priced.rates

theorem watched_reserveEntry {request : ModelRequest} {priced : Priced} (hkept : Kept cfg scope s m)
    (hpriced : priceRequest cfg request = .ok priced) (hfailed : m.failed = false) :
    Watched (Elsewhere scope) (spendings cfg scope) (reserveEntry cfg scope request priced.amount)
      (fun r s m => Kept cfg scope s m ∧ ∀ entry, r = .ok entry → Ready cfg request m ⟨entry, priced.rates⟩) s m := by
  refine Watched.transaction ?_ ?_
  · intro s₁ a entry e s₂ hR hbody
    split at hbody
    · cases hbody
    · rename_i entry' ledger hreserve
      split at hbody
      · cases hbody
      · rename_i hfresh
        simp only [Except.ok.injEq, Prod.mk.injEq] at hbody
        obtain ⟨rfl, rfl⟩ := hbody
        obtain ⟨hput, hid, _⟩ := reserve_model_cases hreserve
        have hnone : s₁.ledger.get? s₁.uuid = none := by simpa using hfresh
        have hsome : ledger.get? s₁.uuid = some entry' := by
          rw [hput, ← hid, ← key_spendEntry, Table.get?_put_self]
        have hnext : (spendings cfg scope).next m ⟨.reserve request, a, e, s₁, { s₁ with ledger := ledger }⟩
            = { m with attempts := m.attempts.put { id := s₁.uuid, request } } := by
          simp [spendings, Book.next, reserves, hnone, hsome]
        have hkept' : Kept cfg scope { s₁ with ledger := ledger } _ :=
          kept_reserve (kept_elsewhere hkept hR) hpriced hnone hreserve rfl
        refine ⟨spendings_ok trivial hnext hkept', ?_⟩
        rw [hnext]
        refine ⟨⟨hkept', ?_⟩, fun x _ => ⟨hkept', (fun _ h => by cases h)⟩⟩
        intro entry hentry
        obtain rfl := Except.ok.inj hentry
        refine ⟨hfailed, ?_, priced, hpriced, rfl⟩
        show (m.attempts.put { id := s₁.uuid, request }).get? entry'.id = _
        rw [hid, Table.get?_put, key_attempt, if_pos rfl]
  · intro s₁ a e hR _
    have hnext : (spendings cfg scope).next m ⟨.reserve request, a, some e, s₁, s₁⟩ = m := by
      cases hget : s₁.ledger.get? s₁.uuid <;> simp [spendings, Book.next, reserves, hget]
    refine ⟨spendings_ok trivial hnext (kept_elsewhere hkept hR), ?_⟩
    rw [hnext]
    exact ⟨kept_elsewhere hkept hR, (fun _ h => by cases h)⟩

/-- **The request hook** returns a reservation of its own, or stops the scope. -/
theorem watched_reserveModelRequest (request : ModelRequest) (hkept : Kept cfg scope s m) :
    Watched (Elsewhere scope) (spendings cfg scope) (reserveModelRequest cfg scope request)
      (fun r s m => Kept cfg scope s m ∧ Stopped s r ∧ ∀ spend, r = .ok spend → Ready cfg request m spend) s m := by
  refine Watched.bind (P := fun r s m' => Kept cfg scope s m' ∧ m' = m ∧ r = .ok s.limitError) ?_ ?_ ?_
  · refine Watched.memory fun s₁ d hR => ?_
    exact ⟨⟨trivial, kept_elsewhere hkept hR⟩, kept_elsewhere hkept hR, rfl, rfl⟩
  · rintro limitError s m' ⟨hk, rfl, hlimit⟩
    obtain rfl := Except.ok.inj hlimit
    cases hstop : s.limitError with
    | some e => exact ⟨hk, fun _ => by rw [hstop]; simp, nofun⟩
    | none =>
        have hfailed : m'.failed = false := by
          by_contra hfailed
          exact hk.stopped (by simpa using hfailed) hstop
        refine Watched.tryCatch (P := fun r s m => Kept cfg scope s m ∧
          ∀ spend, r = .ok spend → Ready cfg request m spend) ?_ ?_ ?_
        · cases hpriced : priceRequest cfg request with
          | error e => exact ⟨hk, nofun⟩
          | ok priced =>
              refine Watched.bind (watched_reserveEntry hk hpriced hfailed) ?_ ?_
              · rintro entry s m ⟨hentry, hready⟩
                refine ⟨hentry, fun spend hspend => ?_⟩
                obtain rfl := Except.ok.inj hspend
                exact hready entry rfl
              · exact fun e s m h => ⟨h.1, nofun⟩
        · exact fun spend s m h => ⟨h.1, trivial, h.2⟩
        · intro e s m h
          refine (watched_stopScope h.1).mono ?_
          rintro r s m' ⟨hkept, _, e', rfl, hstopped⟩
          exact ⟨hkept, hstopped, nofun⟩
  · rintro e s m' ⟨_, _, h⟩
    cases h

/-! ## §8. The response hook. -/

/-- The counts of a settlement are well typed and not negative. -/
theorem readUsage_counts {body : Json} {usage : Usage} (h : readUsage body = some usage) :
    ∃ inputs outputs cachedField writtenField, 0 ≤ inputs ∧ 0 ≤ outputs ∧
      usage = Usage.of inputs outputs cachedField writtenField := by
  have hcount : ∀ {value : Json} {n : Int}, value.count = some n → 0 ≤ n := by
    intro value n hn
    cases value with
    | int k =>
        simp only [Json.count, Option.ite_none_right_eq_some, Option.some.injEq] at hn
        omega
    | _ => cases hn
  simp only [readUsage, bind, Option.bind_eq_some_iff, Option.some.injEq] at h
  obtain ⟨_, _, _, _, inputs, hinputs, _, _, _, _, outputs, houtputs, _, _, _, _, cached, _, written, _, rfl⟩ := h
  exact ⟨inputs, outputs, cached, written, hcount hinputs, hcount houtputs, rfl⟩

/-- No settlement carries a negative amount. -/
theorem due_nonneg {rates : ModelRates} {response : ModelResponse} {amount : Int}
    (h : due rates response = some amount) : 0 ≤ amount := by
  unfold due at h
  split at h
  · exact (Option.some.inj h) ▸ le_refl _
  · split at h
    · split at h
      · obtain ⟨usage, husage, rfl⟩ := Option.map_eq_some_iff.mp h
        obtain ⟨inputs, outputs, cached, written, hinputs, houtputs, rfl⟩ := readUsage_counts husage
        exact settledCost_nonneg inputs outputs cached written hinputs houtputs
      · cases h
    · cases h

/-- The book takes up a committed settlement. -/
theorem kept_settle {a : Attempt} {id now : Nat} {amount : Int} {response : ModelResponse} {priced : Priced}
    (hkept : Kept cfg scope s m) (ha : m.attempts.get? id = some a) (hpriced : priceRequest cfg a.request = .ok priced)
    (hresponse : a.response = some response) (hsettled : a.settled = false)
    (hdue : due priced.rates response = some amount)
    (hsettle : settle s.ledger now id (some amount) {} = .ok s'.ledger) (hlimit : s'.limitError = s.limitError) :
    (s.ledger.get? id).any (·.state = .reserved) = true ∧ (s'.ledger.get? id).any (·.state = .settled) = true ∧
      Kept cfg scope s' { m with attempts := m.attempts.put { a with settled := true } } := by
  have hid : a.id = id := Table.key_of_get? ha
  obtain ⟨priced', e, he, hentry⟩ := hkept.holds id a ha
  obtain rfl : priced = priced' := Except.ok.inj (hpriced.symm.trans hentry.priced)
  have hstate : e.state = .reserved := by rw [hentry.state, hsettled]; rfl
  obtain ⟨e', he', hcases⟩ := settle_cases hsettle
  obtain rfl : e' = e := Option.some.inj (he'.symm.trans (hid ▸ he))
  rcases hcases with ⟨hclosed, _⟩ | ⟨_, n, _, hn, hput⟩
  · rw [hclosed] at hstate
    cases hstate
  · obtain rfl := hn amount rfl
    have hkey : e'.id = id := Table.key_of_get? he'
    have hget : s'.ledger.get? id
        = some { e'.close amount.toNat now with details := e'.details.merge {} } := by
      rw [hput, Table.get?_put]
      exact if_pos hkey.symm
    refine ⟨by simp [he', hstate], by simp [hget, SpendEntry.close], fun id' a' ha' => ?_, fun hfailed =>
      hlimit ▸ hkept.stopped hfailed⟩
    rw [Table.get?_put, key_attempt] at ha'
    split at ha'
    · obtain rfl := Option.some.inj ha'
      refine ⟨priced, _, (congrArg s'.ledger.get? hid).trans hget, hpriced, hentry.userId, hentry.runId, hentry.kind, ?_,
        hentry.reserved, rfl, ?_⟩
      · show (none <|> e'.details.nanosPerSecond) = none
        rw [hentry.rateless]
        rfl
      · show a.response.bind (due priced.rates) = some ((amount.toNat : Nat) : Int)
        rw [hresponse, Int.toNat_of_nonneg (due_nonneg hdue), ← hdue]
        rfl
    · rename_i hne
      obtain ⟨priced', e, he, hentry⟩ := hkept.holds id' a' ha'
      have hid' : a'.id = id' := Table.key_of_get? ha'
      refine ⟨priced', e, ?_, hentry⟩
      have hentry' : a'.id ≠ e'.id := fun heq => hne (by rw [← hid', heq, hkey, ← hid])
      rw [hput, Table.get?_put_ne _ hentry', he]

/-- The response that the settlement is for has arrived. -/
def Answered (cfg : ModelConfig) (m : Book) (spend : ModelSpend) (response : ModelResponse) : Prop :=
  ∃ a priced, m.attempts.get? spend.entry.id = some a ∧ priceRequest cfg a.request = .ok priced ∧
    spend.rates = priced.rates ∧ a.response = some response ∧ a.settled = false

theorem watched_settleEntry {spend : ModelSpend} {response : ModelResponse} {amount : Int}
    (hkept : Kept cfg scope s m) (hanswered : Answered cfg m spend response)
    (hdue : due spend.rates response = some amount) :
    Watched (Elsewhere scope) (spendings cfg scope) (settleEntry spend.entry.id response amount)
      (fun _ s m => Kept cfg scope s m) s m := by
  obtain ⟨a, priced, ha, hpriced, hrates, hresponse, hsettled⟩ := hanswered
  have hpermitted : ∃ a, m.attempts.get? spend.entry.id = some a ∧ a.response = some response ∧
      a.settled = false := ⟨a, ha, hresponse, hsettled⟩
  refine Watched.transaction ?_ ?_
  · intro s₁ an v e s₂ hR hbody
    split at hbody
    · cases hbody
    · rename_i ledger hsettle
      simp only [Except.ok.injEq, Prod.mk.injEq] at hbody
      obtain ⟨_, rfl⟩ := hbody
      have hsettled' : _ ∧ _ ∧ Kept cfg scope { s₁ with ledger := ledger } _ := kept_settle (kept_elsewhere hkept hR)
        ha hpriced hresponse hsettled (hrates ▸ hdue) hsettle rfl
      obtain ⟨hbefore, hafter, hkept'⟩ := hsettled'
      have hnext : (spendings cfg scope).next m
          ⟨.settle spend.entry.id response, an, e, s₁, { s₁ with ledger := ledger }⟩
            = { m with attempts := m.attempts.put { a with settled := true } } := by
        simp [spendings, Book.next, settles, Book.change, ha, hbefore, hafter]
      refine ⟨spendings_ok hpermitted hnext hkept', ?_⟩
      rw [hnext]
      exact ⟨hkept', fun _ _ => hkept'⟩
  · intro s₁ an e hR _
    have hnext : (spendings cfg scope).next m ⟨.settle spend.entry.id response, an, some e, s₁, s₁⟩ = m := by
      cases hget : s₁.ledger.get? spend.entry.id with
      | none => simp [spendings, Book.next, settles, hget]
      | some entry => cases hstate : entry.state <;> simp [spendings, Book.next, settles, hget, hstate]
    refine ⟨spendings_ok hpermitted hnext (kept_elsewhere hkept hR), ?_⟩
    rw [hnext]
    exact kept_elsewhere hkept hR

/-- **The response hook** settles what the response is due, or stops the scope. -/
theorem watched_settleModelResponse {spend : ModelSpend} {response : ModelResponse}
    (hkept : Kept cfg scope s m) (hanswered : Answered cfg m spend response) :
    Watched (Elsewhere scope) (spendings cfg scope) (settleModelResponse (some spend) response)
      (fun r s m => Kept cfg scope s m ∧ Stopped s r) s m := by
  refine Watched.tryCatch (P := fun _ s m => Kept cfg scope s m) ?_ ?_ ?_
  · split
    · rename_i hrejected
      exact watched_settleEntry hkept hanswered (by simp [due, hrejected])
    · rename_i hrejected
      split
      · exact hkept
      · rename_i hsuccess
        refine Watched.bind (watched_read hkept) ?_ fun _ _ _ h => h.1
        · rintro _ s m' ⟨hk, rfl⟩
          split
          · exact hk
          · exact hk
          · rename_i body hbody
            split
            · exact hk
            · rename_i usage husage
              have hdue : due spend.rates response = some (settledCost spend.rates usage) := by
                have hsuccess : response.isSuccess = true := by simpa using hsuccess
                simp [due, hrejected, hsuccess, hbody, husage]
              refine Watched.bind (watched_settleEntry hk hanswered hdue) (fun _ s m hk => ?_) fun _ _ _ hk => hk
              split
              · exact hk
              · exact hk
  · exact fun _ s m hk => ⟨hk, trivial⟩
  · intro e s m hk
    refine (watched_stopScope hk).mono ?_
    rintro r s m' ⟨hk, _, e', rfl, hstopped⟩
    exact ⟨hk, hstopped⟩

/-! ## §9. The attempts. -/

/-- The client sees the outcome of a hook. -/
theorem watched_observeHook {r : Except Exc α} (hkept : Kept cfg scope s m) (hstopped : Stopped s r) :
    Watched (Elsewhere scope) (spendings cfg scope) (observeHook r)
      (fun r' s m' => Kept cfg scope s m' ∧ (∀ a, r = .ok a → m' = m) ∧ r' = .ok ()) s m := by
  refine Watched.memory fun s₁ d hR => ?_
  have hk := kept_elsewhere hkept hR
  cases r with
  | ok a => exact ⟨⟨trivial, hk⟩, hk, fun _ _ => rfl, rfl⟩
  | error e =>
      have hk' : Kept cfg scope s₁ { m with failed := m.failed || e.isException } := by
        refine ⟨hk.holds, fun hfailed => ?_⟩
        rcases Bool.or_eq_true_iff.mp hfailed with hfailed | hfailed
        · exact hk.stopped hfailed
        · exact fun hnone => hstopped hfailed (hR.1.symm.trans hnone)
      exact ⟨⟨trivial, hk'⟩, hk', nofun, rfl⟩

/-- The entry of an open attempt does not depend on what was answered. -/
theorem kept_unsettled {a a' : Attempt} {id : Nat} (hkept : Kept cfg scope s m) (ha : m.attempts.get? id = some a)
    (hid : a'.id = id) (hrequest : a'.request = a.request) (hopen : a.settled = false) (hopen' : a'.settled = false) :
    Kept cfg scope s { m with attempts := m.attempts.put a' } := by
  refine ⟨fun id' b hb => ?_, hkept.stopped⟩
  rw [Table.get?_put] at hb
  split at hb
  · obtain rfl := Option.some.inj hb
    obtain ⟨priced, e, he, hentry⟩ := hkept.holds id a ha
    refine ⟨priced, e, ?_, hrequest ▸ hentry.priced, hentry.userId, hentry.runId, hentry.kind, hentry.rateless,
      hentry.reserved, ?_, ?_⟩
    · rw [hid, ← he, show a.id = id from Table.key_of_get? ha]
    · rw [hentry.state, hopen, hopen']
    · rw [← hentry.amount, Attempt.charge, Attempt.charge, hopen, hopen']
      rfl
  · exact hkept.holds id' b hb

/-- **A request goes out** under its own reservation. -/
theorem watched_send {request : ModelRequest} {spend : ModelSpend} (hkept : Kept cfg scope s m)
    (hready : Ready cfg request m spend) :
    Watched (Elsewhere scope) (spendings cfg scope) (send spend.entry.id request)
      (fun r s m => Kept cfg scope s m ∧ ∀ response, r = .ok response → Answered cfg m spend response) s m := by
  obtain ⟨hfailed, ha, priced, hpriced, hrates⟩ := hready
  intro s₁ hR answer r s₂ hact
  have hk := kept_elsewhere hkept hR
  -- the answer leaves the accounts alone, and only `ok` brings a response
  have hanswer : s₂ = s₁ ∧ ∀ response, r = .ok response → answer = .ok response := by
    cases answer <;> simp only [Option.some.injEq, Prod.mk.injEq] at hact <;> obtain ⟨rfl, rfl⟩ := hact <;> simp
  obtain ⟨rfl, hresponse⟩ := hanswer
  have hpermitted : m.failed = false ∧ ∃ a, m.attempts.get? spend.entry.id = some a ∧ a.request = request ∧
      a.sent = false ∧ a.settled = false ∧ a.Holds cfg scope s₂.ledger :=
    ⟨hfailed, _, ha, rfl, rfl, rfl, hk.holds _ _ ha⟩
  have hnext : ∃ arrived, (spendings cfg scope).next m ⟨.send spend.entry.id request, answer, exception? r, s₂, s₂⟩
      = { m with attempts := m.attempts.put ⟨spend.entry.id, request, true, arrived, false⟩ } ∧
        ∀ response, answer = .ok response → arrived = some response := by
    refine ⟨_, by simp only [spendings, Book.next, Book.change, ha]; rfl, ?_⟩
    rintro response rfl
    rfl
  obtain ⟨arrived, hnext, harrived⟩ := hnext
  have hk' : Kept cfg scope s₂ { m with attempts := m.attempts.put ⟨spend.entry.id, request, true, arrived, false⟩ } :=
    kept_unsettled hk ha rfl rfl rfl rfl
  refine ⟨spendings_ok hpermitted hnext hk', ?_⟩
  rw [hnext]
  refine ⟨hk', fun response hr => ?_⟩
  refine ⟨_, priced, Table.get?_put_self _ _, hpriced, hrates, ?_, rfl⟩
  exact harrived response (hresponse response hr)

/-- **Step lemma**: an attempt keeps the book. -/
theorem watched_attempt (request : ModelRequest) (hkept : Kept cfg scope s m) :
    Watched (Elsewhere scope) (spendings cfg scope) (attempt cfg scope request)
      (fun r s m => Kept cfg scope s m ∧ r = .ok ()) s m := by
  refine Watched.attempt_bind (watched_reserveModelRequest request hkept) ?_
  rintro reserved s m ⟨hkept, hstopped, hready⟩
  refine Watched.bind (watched_observeHook hkept hstopped) ?_ fun _ _ _ h => by cases h.2.2
  rintro _ s m' ⟨hk, hsame, _⟩
  cases reserved with
  | error e => exact ⟨hk, rfl⟩
  | ok spend =>
      obtain rfl := hsame spend rfl
      refine Watched.attempt_bind (watched_send hk (hready spend rfl)) ?_
      rintro sent s m ⟨hkept, hanswered⟩
      cases sent with
      | error e => exact ⟨hkept, rfl⟩
      | ok response =>
          refine Watched.attempt_bind (watched_read hkept) ?_
          rintro captured s m' ⟨hk, rfl⟩
          cases captured with
          | error e => exact ⟨hk, rfl⟩
          | ok _ =>
              refine Watched.attempt_bind (watched_settleModelResponse hk (hanswered response rfl)) ?_
              rintro settled s m ⟨hkept, hstopped⟩
              exact (watched_observeHook hkept hstopped).mono fun _ _ _ h => ⟨h.1, h.2.2⟩

/-- **Run lemma**: so do any number of them. -/
theorem watched_attempts (requests : List ModelRequest) (hkept : Kept cfg scope s m) :
    Watched (Elsewhere scope) (spendings cfg scope) (attempts cfg scope requests)
      (fun _ s m => Kept cfg scope s m) s m := by
  refine Watched.forEach (I := fun s m => Kept cfg scope s m) (fun request s m hkept => ?_) (fun _ _ h => h)
    requests s m hkept
  refine (watched_attempt request hkept).mono ?_
  rintro r s m ⟨hkept, rfl⟩
  exact hkept

end Keeping

/-! ## §10. Settled entries. -/

/-- Settled entries stay as they are. -/
def Lasting (l l' : Ledger) : Prop := ∀ id e, l.get? id = some e → e.state = .settled → l'.get? id = some e

theorem lasting_refl (l : Ledger) : Lasting l l := fun _ _ h _ => h

theorem lasting_trans {l l' l'' : Ledger} (h : Lasting l l') (h' : Lasting l' l'') : Lasting l l'' :=
  fun id e hget hstate => h' id e (h id e hget hstate) hstate

theorem lasting_apply {env : Setting} {l l' : Ledger} {now id : Nat} {op : Op} {raised : Bool}
    (hid : l.get? id = none) (h : env.apply now id l op = .ok (raised, l')) : Lasting l l' := by
  intro k e hk hstate
  rcases apply_touches hid hk h with hsame | ⟨hopen, _⟩
  · exact hsame
  · rw [hstate] at hopen
    cases hopen

theorem lasting_elsewhere {scope : RunScope} {s s' : Accounts} (h : Elsewhere scope s s') :
    Lasting s.ledger s'.ledger := by
  have hsteps : ∀ l', Relation.ReflTransGen (OtherStep scope) s.ledger l' → Lasting s.ledger l' := by
    intro l' hsteps
    induction hsteps with
    | refl => exact lasting_refl _
    | tail _ hstep ih =>
        obtain ⟨env, now, id, op, raised, hid, _, happly⟩ := hstep
        exact lasting_trans ih (lasting_apply hid happly)
  exact hsteps _ h.2

/-- The ledger's settled entries survive an operation. -/
def Preserves (s s' : Accounts) : Prop := Lasting s.ledger s'.ledger

section Preserving

variable {cfg : ModelConfig} {scope : RunScope}

theorem keeps_stopScope (message : String) (e : Exc) : (stopScope message e : Spending α).Keeps Preserves := by
  have hset : ∀ x : Exc, ((setLimitError x).bind fun _ => (Co.raise x : Spending α)).Keeps Preserves :=
    fun x => (Co.keeps_memory fun s => lasting_refl s.ledger).bind fun _ => trivial
  unfold stopScope
  split
  · split
    · exact hset _
    · exact hset _
  · trivial

theorem keeps_reserveEntry (request : ModelRequest) (amount : Int) :
    (reserveEntry cfg scope request amount).Keeps Preserves := by
  refine Co.keeps_transaction (fun s => lasting_refl s.ledger) fun s entry s' hbody => ?_
  split at hbody
  · cases hbody
  · rename_i entry' ledger hreserve
    split at hbody
    · cases hbody
    · rename_i hfresh
      simp only [Except.ok.injEq, Prod.mk.injEq] at hbody
      obtain ⟨_, rfl⟩ := hbody
      intro k e hk hstate
      rcases @reserve_touches ⟨cfg.limits, ⟨0, 0⟩, s.users⟩ _ _ _ _ _ _ _ _ _ _ _ _ _ _
        (by simpa using hfresh) hk hreserve with hsame | ⟨hopen, _⟩
      · exact hsame
      · rw [hstate] at hopen
        cases hopen

theorem keeps_settleEntry (spendId : Nat) (response : ModelResponse) (amount : Int) :
    (settleEntry spendId response amount).Keeps Preserves := by
  refine Co.keeps_transaction (fun s => lasting_refl s.ledger) fun s _ s' hbody => ?_
  split at hbody
  · cases hbody
  · rename_i ledger hsettle
    simp only [Except.ok.injEq, Prod.mk.injEq] at hbody
    obtain ⟨_, rfl⟩ := hbody
    obtain ⟨entry, hentry, ⟨_, rfl⟩ | ⟨hopen, a, _, _, rfl⟩⟩ := settle_cases hsettle
    · exact lasting_refl _
    · intro k e hk hstate
      have hne : k ≠ entry.id := by
        rintro rfl
        have hid : entry.id = spendId := Table.key_of_get? hentry
        obtain rfl := Option.some.inj (hentry.symm.trans (hid ▸ hk))
        rw [hstate] at hopen
        cases hopen
      exact (Table.get?_put_ne _ hne).trans hk

theorem keeps_observeHook (r : Except Exc α) : (observeHook r).Keeps Preserves :=
  Co.keeps_memory fun s => lasting_refl s.ledger

theorem keeps_reserveModelRequest (request : ModelRequest) :
    (reserveModelRequest cfg scope request).Keeps Preserves := by
  refine Co.Keeps.bind (Co.keeps_memory fun s => lasting_refl s.ledger) fun limitError => ?_
  cases limitError with
  | some e => trivial
  | none =>
      refine Co.Keeps.tryCatch ?_ (keeps_stopScope _)
      cases priceRequest cfg request with
      | error e => trivial
      | ok priced => exact (keeps_reserveEntry request priced.amount).bind fun _ => trivial

theorem keeps_settleModelResponse (spend : ModelSpend) (response : ModelResponse) :
    (settleModelResponse (some spend) response).Keeps Preserves := by
  refine Co.Keeps.tryCatch ?_ (keeps_stopScope _)
  split
  · exact keeps_settleEntry _ _ _
  · split
    · trivial
    · refine Co.Keeps.bind (Co.keeps_query fun s => lasting_refl s.ledger) fun _ => ?_
      split
      · trivial
      · trivial
      · split
        · trivial
        · refine (keeps_settleEntry _ _ _).bind fun _ => ?_
          split
          · trivial
          · trivial

theorem keeps_attempt (request : ModelRequest) : (attempt cfg scope request).Keeps Preserves := by
  refine (keeps_reserveModelRequest request).attempt.bind fun reserved => ?_
  refine (keeps_observeHook reserved).bind fun _ => ?_
  cases reserved with
  | error e => trivial
  | ok spend =>
      have hsend : (send spend.entry.id request).Keeps Preserves := by
        refine ⟨fun answer s r s' hact => ?_, fun _ => trivial⟩
        cases answer <;> simp only [Option.some.injEq, Prod.mk.injEq] at hact <;> exact hact.2 ▸ lasting_refl s.ledger
      refine hsend.attempt.bind fun sent => ?_
      cases sent with
      | error e => trivial
      | ok response =>
          refine Co.Keeps.bind (Co.Keeps.attempt (Co.keeps_query fun s => lasting_refl s.ledger)) fun captured => ?_
          cases captured with
          | error e => trivial
          | ok _ =>
              exact (keeps_settleModelResponse spend response).attempt.bind fun settled => keeps_observeHook settled

end Preserving

/-! ## §11. Runs. -/

/-- The book after a trace. -/
def booked (steps : List SpendStep) : Book := steps.foldl Book.next ⟨Table.empty, false⟩

/-- One verified user, and an empty ledger. -/
def plainAccounts : Accounts where
  users := Table.empty.put ⟨1, true, false, 2, none, none⟩
  ledger := Table.empty
  now := 0
  uuid := 7
  limitError := none

def plainModels : ModelConfig where
  limits := ⟨200000000, 2000000000⟩
  costModel := "gpt-5.6-luna"
  rates := .ok ⟨200000000, 20000000, 250000000, 1200000000⟩

def plainRequest : ModelRequest where
  path := "/v1/responses".toList
  contentLength := 1000
  body := .ok (.dict [("model", .str "gpt-5.6-luna"), ("max_output_tokens", .int 1024)])

/-- The response reports 100 inputs and 10 outputs, and nothing about caches. -/
def plainResponse : ModelResponse where
  statusCode := 200
  body := .ok (.dict [("usage", .dict [("input_tokens", .int 100), ("output_tokens", .int 10)])])

end WebBuilder.Budget
