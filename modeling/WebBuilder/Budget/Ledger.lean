/-
  WebBuilder.Budget.Ledger — the spending ledger.

  `budget.py` and the ledger part of `sandbox_budget.py`: a spend entry holds
  an amount over an interval; `reserve` opens one (rolling a sandbox lease
  forward when it replaces another), `settle` closes one, `confirm_runtime`
  trims one to what the provider reported.  Each is the body of one database
  transaction under the user's row lock, as a function on the ledger.  Amounts
  are billionths of a dollar, times microseconds.
-/
import WebBuilder.Budget.Calendar
import WebBuilder.Model.Exceptions
import WebBuilder.Store.Table

namespace WebBuilder.Budget

open WebBuilder.Store

/-! ## §1. Entries. -/

inductive SpendKind where
  | model
  | sandbox
  deriving DecidableEq

inductive EntryState where
  | reserved
  | settled
  deriving DecidableEq

/-- The keys of an entry's JSON `details` that the ledger itself writes. -/
structure Details where
  nanosPerSecond : Option Nat := none
  resourceCeilingCpu : Option Nat := none
  resourceCeilingMemoryMb : Option Nat := none
  cpuCount : Option Nat := none
  memoryMb : Option Nat := none
  deriving DecidableEq

/-- `{**old, **new}`. -/
def Details.merge (old new : Details) : Details where
  nanosPerSecond := new.nanosPerSecond <|> old.nanosPerSecond
  resourceCeilingCpu := new.resourceCeilingCpu <|> old.resourceCeilingCpu
  resourceCeilingMemoryMb := new.resourceCeilingMemoryMb <|> old.resourceCeilingMemoryMb
  cpuCount := new.cpuCount <|> old.cpuCount
  memoryMb := new.memoryMb <|> old.memoryMb

structure SpendEntry where
  id : Nat
  userId : Nat
  runId : Option Nat
  kind : SpendKind
  state : EntryState
  reservedNanos : Nat
  amountNanos : Nat
  startsAt : Nat
  endsAt : Nat
  details : Details
  deriving DecidableEq

instance : Keyed SpendEntry Nat := ⟨SpendEntry.id⟩

structure User where
  id : Nat
  emailVerified : Bool
  creditsUnlimited : Bool
  tokensRemaining : Nat
  tokensResetAt : Option Nat
  lastQueryAt : Option Nat
  deriving DecidableEq

instance : Keyed User Nat := ⟨User.id⟩

abbrev Ledger := Table SpendEntry

@[simp] theorem key_spendEntry (e : SpendEntry) : key e = e.id := rfl

/-! ## §2. Windows. -/

/-- `FREE_DAILY_COST_USD` and `FREE_MONTHLY_COST_USD`. -/
structure Limits where
  daily : Nat
  monthly : Nat

structure Window where
  name : String
  start : Nat
  finish : Nat
  limit : Nat
  deriving DecidableEq

def windows (limits : Limits) (now : Nat) : List Window :=
  let day := startOfDay now
  let month := firstOfMonth now
  [⟨"daily", day, day + DAY, limits.daily⟩, ⟨"monthly", month, nextMonth month, limits.monthly⟩]

/-- The entry is the user's and overlaps `[start, finish)`. -/
def SpendEntry.counts (userId start finish : Nat) (e : SpendEntry) : Bool :=
  e.userId = userId && e.startsAt < finish && start ≤ e.endsAt

/-- What the entry adds to a window. -/
def SpendEntry.share (userId start finish : Nat) (e : SpendEntry) : Nat :=
  if e.counts userId start finish then e.amountNanos else 0

def usedInWindow (ledger : Ledger) (userId start finish : Nat) (exclude : Option Nat) : Nat :=
  match exclude with
  | some id => (ledger.erase id).sumOf (SpendEntry.share userId start finish)
  | none => ledger.sumOf (SpendEntry.share userId start finish)

/-- `{t:%Y-%m-%d %H:%M}` of the first exhausted window. -/
def requireAllowance (limits : Limits) (ledger : Ledger) (user : User) (now : Nat) :
    Except Exc Unit :=
  if user.creditsUnlimited then .ok ()
  else
    match (windows limits now).find? fun w =>
        w.limit ≤ usedInWindow ledger user.id w.start w.finish none with
    | some w => .error (.budgetLimit ("Your " ++ w.name ++ " free usage allowance is used or reserved. "
        ++ "It resets at " ++ formatMinute w.finish ++ " UTC. Saved files remain available."))
    | none => .ok ()

/-! ## §3. Reservations. -/

/-- `length` microseconds at `rate` nanos a second, rounded up. -/
def leaseCost (rate length : Nat) : Nat :=
  length * rate / SECOND + if length * rate % SECOND = 0 then 0 else 1

def runtimeAmount (entry : SpendEntry) (finish : Nat) : Except Exc Nat :=
  match entry.details.nanosPerSecond with
  | some rate => .ok (leaseCost rate (min finish entry.endsAt - entry.startsAt))
  | none => .error (.key "nanos_per_second")

/-- The entry closed at `now` with the charge `amount`. -/
def SpendEntry.close (e : SpendEntry) (amount now : Nat) : SpendEntry :=
  { e with amountNanos := amount, state := .settled, endsAt := max e.startsAt (min now e.endsAt) }

/-- The windows a reservation over `[now, finish]` is checked against, sorted
by start.  The source sorts a set; equal starts keep the order listed here. -/
def periods (limits : Limits) (now finish : Nat) : List Window :=
  (windows limits now ++ windows limits finish).dedup.insertionSort fun p q => p.start ≤ q.start

/-- What `reserve` counts in a window besides the new amount: the other
entries, and the charge of the replaced lease if it reaches into it. -/
def carried (ledger : Ledger) (userId now : Nat) (old : Option (SpendEntry × Nat)) (w : Window) : Nat :=
  usedInWindow ledger userId w.start w.finish (old.map fun o => o.1.id) +
    match old with
    | some (o, oldAmount) =>
        if o.startsAt < w.finish ∧ w.start ≤ min now o.endsAt then oldAmount else 0
    | none => 0

/-- The lease to replace, with its charge so far. -/
def replaced (ledger : Ledger) (userId now : Nat) : Option Nat → Except Exc (Option (SpendEntry × Nat))
  | none => .ok none
  | some id =>
      match ledger.get? id with
      | none => .error (.value "Previous sandbox spend reservation is missing")
      | some old =>
          if old.userId ≠ userId ∨ old.kind ≠ .sandbox ∨ old.state ≠ .reserved then
            .error (.value "Invalid sandbox spend reservation")
          else
            match runtimeAmount old now with
            | .ok oldAmount => .ok (some (old, oldAmount))
            | .error e => .error e

/-- The ledger after the replaced lease is closed. -/
def closeReplaced (ledger : Ledger) (now : Nat) : Option (SpendEntry × Nat) → Ledger
  | some (old, oldAmount) => ledger.put (old.close oldAmount now)
  | none => ledger

/-- `reserve(user_id, kind, amount, duration, details, run_id, replace_id)`:
the new entry, under the fresh id `id`, and the ledger that holds it. -/
def reserve (limits : Limits) (users : Table User) (ledger : Ledger) (now id userId : Nat)
    (kind : SpendKind) (amount duration : Int) (details : Details) (runId replaceId : Option Nat) :
    Except Exc (SpendEntry × Ledger) :=
  if amount < 0 ∨ ¬ (0 < duration ∧ duration < 86400) then
    .error (.value "Invalid cost reservation bound")
  else
    match users.get? userId with
    | none => .error (.budgetLimit "Verify your email before using paid build or preview resources.")
    | some user =>
        if ¬ user.emailVerified then
          .error (.budgetLimit "Verify your email before using paid build or preview resources.")
        else
          let finish := now + duration.toNat * SECOND
          match replaced ledger userId now replaceId with
          | .error e => .error e
          | .ok old =>
              let exhausted := if user.creditsUnlimited then none
                else (periods limits now finish).find? fun w =>
                  w.limit < carried ledger userId now old w + amount.toNat
              match exhausted with
              | some w => .error (.budgetLimit ("Not enough " ++ w.name
                  ++ " free usage allowance for the next operation. "
                  ++ "Other builds or previews may have funds reserved. Reset: "
                  ++ formatMinute w.finish ++ " UTC. Saved files remain available."))
              | none =>
                  let entry : SpendEntry :=
                    { id, userId, runId, kind, state := .reserved, reservedNanos := amount.toNat,
                      amountNanos := amount.toNat, startsAt := now, endsAt := finish, details }
                  .ok (entry, (closeReplaced ledger now old).put entry)

/-- `settle(entry_id, amount, details)`. -/
def settle (ledger : Ledger) (now entryId : Nat) (amount : Option Int) (details : Details) :
    Except Exc Ledger :=
  match ledger.get? entryId with
  | none => .error (.value "Spend reservation is missing")
  | some entry =>
      if entry.state ≠ .reserved then .ok ledger
      else
        match amount with
        | some a => .ok (ledger.put
            { entry.close a.toNat now with details := entry.details.merge details })
        | none =>
            match runtimeAmount entry now with
            | .ok a => .ok (ledger.put { entry.close a now with details := entry.details.merge details })
            | .error e => .error e

/-! ## §4. Sandbox leases. -/

/-- `E2B_CPU_USD_PER_SECOND` and `E2B_GIB_USD_PER_SECOND`, in nanos. -/
structure Rates where
  cpu : Nat
  gib : Nat

/-- What `get_info` reports of a sandbox, as far as leases are concerned. -/
structure Resources where
  cpuCount : Nat
  memoryMb : Nat
  endAt : Nat
  deriving DecidableEq

def sandboxRate (rates : Rates) (cpu memoryMb : Nat) : Except Exc Nat :=
  if rates.cpu = 0 ∨ rates.gib = 0 ∨ cpu = 0 ∨ memoryMb = 0 then
    .error (.value "E2B cost rates and resources must be positive")
  else .ok ((cpu * rates.cpu * 1024 + memoryMb * rates.gib + 1023) / 1024)

/-- The entry trimmed to the reported rate and deadline. -/
def SpendEntry.confirm (entry : SpendEntry) (rate : Nat) (info : Resources) : SpendEntry :=
  let finish := max entry.startsAt info.endAt
  { entry with
    details := { entry.details with
      nanosPerSecond := some rate, cpuCount := some info.cpuCount, memoryMb := some info.memoryMb }
    endsAt := finish
    amountNanos := leaseCost rate (finish - entry.startsAt) }

@[simp] theorem confirm_endsAt (entry : SpendEntry) (rate : Nat) (info : Resources) :
    (entry.confirm rate info).endsAt = max entry.startsAt info.endAt := rfl

@[simp] theorem confirm_startsAt (entry : SpendEntry) (rate : Nat) (info : Resources) :
    (entry.confirm rate info).startsAt = entry.startsAt := rfl

@[simp] theorem confirm_amountNanos (entry : SpendEntry) (rate : Nat) (info : Resources) :
    (entry.confirm rate info).amountNanos
      = leaseCost rate (max entry.startsAt info.endAt - entry.startsAt) := rfl

/-- The transaction of `confirm_runtime`: the ledger after it, and whether the
usage exceeded the reservation, which is raised after the commit. -/
def confirmRuntime (rates : Rates) (ledger : Ledger) (spendId : Nat) (info : Resources) :
    Except Exc (Bool × Ledger) :=
  match sandboxRate rates info.cpuCount info.memoryMb with
  | .error e => .error e
  | .ok rate =>
      match ledger.get? spendId with
      | none => .error (.budgetLimit "Preview spend reservation is missing; contact support.")
      | some entry =>
          if entry.state ≠ .reserved then
            .error (.budgetLimit "Preview spend reservation was already closed; contact support.")
          else
            match entry.details.nanosPerSecond with
            | none => .error (.key "nanos_per_second")
            | some held =>
                .ok (decide (held < rate ∨ entry.endsAt < info.endAt), ledger.put (entry.confirm rate info))

end WebBuilder.Budget
