/-
  WebBuilder.Budget.Allowance — spending stays within the allowance.

  A run of the ledger is a sequence of reservations, replacements,
  confirmations and settlements at non-decreasing times.  `Within` is the
  invariant: no window, past or future, holds more than its limit, and every
  open entry holds at least its recorded rate times its length.

  Main results:
    * `apply_cases` — a step leaves the ledger, shrinks one entry, or opens a
      reservation that was checked;
    * `within_reserve` — the windows of `now` and `end` are all a reservation
      shorter than a day can touch;
    * `spending_within_allowance` — no reachable ledger exceeds a limit.
-/
import WebBuilder.Budget.Ledger

namespace WebBuilder.Budget

open WebBuilder.Store

/-! ## §1. Steps of the ledger. -/

inductive Op where
  | reserve (userId : Nat) (kind : SpendKind) (amount duration : Int) (details : Details)
      (runId replaceId : Option Nat)
  | confirmRuntime (spendId : Nat) (info : Resources)
  | settle (entryId : Nat) (amount : Option Int) (details : Details)
  deriving DecidableEq

/-- The fixed surroundings of a ledger. -/
structure Setting where
  limits : Limits
  rates : Rates
  users : Table User

/-- One step at time `now`; `id` is the `uuid4` a reservation would take.  The
flag says that `confirm_runtime` raises after its commit. -/
def Setting.apply (env : Setting) (now id : Nat) (ledger : Ledger) : Op → Except Exc (Bool × Ledger)
  | .reserve userId kind amount duration details runId replaceId =>
      (reserve env.limits env.users ledger now id userId kind amount duration details runId
        replaceId).map fun r => (false, r.2)
  | .confirmRuntime spendId info => confirmRuntime env.rates ledger spendId info
  | .settle entryId amount details => (settle ledger now entryId amount details).map fun l => (false, l)

/-- The ledgers that steps meeting `allowed` reach from the empty one, each
with the time of its last step.  A step that raises leaves the ledger alone. -/
inductive Setting.Reaches (env : Setting) (allowed : Ledger → Op → Prop) : Nat → Ledger → Prop where
  | empty : Reaches env allowed 0 Table.empty
  | step (now id : Nat) (op : Op) {t : Nat} {l l' : Ledger} : Reaches env allowed t l → t ≤ now →
      l.get? id = none → allowed l op → env.apply now id l op = .ok (false, l') →
      Reaches env allowed now l'

/-- No settled amount is larger than the entry's reservation. -/
def Op.WithinReservation (l : Ledger) : Op → Prop
  | .settle entryId (some amount) _ =>
      ∀ e, l.get? entryId = some e → amount.toNat ≤ e.reservedNanos
  | _ => True

/-- No settled amount is larger than what the entry holds, and a reservation
that records a rate holds at least rate times duration. -/
def Op.Covered (l : Ledger) : Op → Prop
  | .settle entryId (some amount) _ =>
      ∀ e, l.get? entryId = some e → amount.toNat ≤ e.amountNanos
  | .reserve _ _ amount duration details _ _ =>
      ∀ rate, details.nanosPerSecond = some rate → rate * duration ≤ amount
  | _ => True

/-! ## §2. Entries that only shrink. -/

theorem leaseCost_le {rate length amount : Nat} :
    leaseCost rate length ≤ amount ↔ length * rate ≤ amount * SECOND := by
  unfold leaseCost
  generalize length * rate = x
  simp only [SECOND]
  split <;> omega

theorem le_leaseCost (rate length : Nat) : length * rate ≤ leaseCost rate length * SECOND :=
  leaseCost_le.mp (Nat.le_refl _)

@[simp] theorem leaseCost_zero (rate : Nat) : leaseCost rate 0 = 0 := by
  simp [leaseCost, SECOND]

/-- `e'` is the same user's entry over a part of the interval of `e`, for no
more money. -/
structure SpendEntry.Shrinks (e e' : SpendEntry) : Prop where
  id : e'.id = e.id
  userId : e'.userId = e.userId
  startsAt : e'.startsAt = e.startsAt
  endsAt : e'.endsAt ≤ e.endsAt
  amount : e'.amountNanos ≤ e.amountNanos

theorem SpendEntry.Shrinks.share_le {e e' : SpendEntry} (h : e.Shrinks e') (u start finish : Nat) :
    e'.share u start finish ≤ e.share u start finish := by
  have := h.amount
  have := h.endsAt
  simp only [share, counts, h.userId, h.startsAt, Bool.and_eq_true, decide_eq_true_eq]
  split_ifs with h1 h2
  · assumption
  · exact absurd ⟨h1.1, by omega⟩ h2
  · exact Nat.zero_le _
  · exact Nat.le_refl _

theorem usedInWindow_shrink {l : Ledger} {e e' : SpendEntry} (he : l.get? e.id = some e)
    (h : e.Shrinks e') (u start finish : Nat) :
    usedInWindow (l.put e') u start finish none ≤ usedInWindow l u start finish none := by
  simp only [usedInWindow]
  rw [Table.sumOf_put, Table.sumOf_erase he, key_spendEntry, h.id]
  exact Nat.add_le_add_right (h.share_le u start finish) _

/-! ## §3. The invariant. -/

/-- Well-formed entries: ordered, and an open one with a rate holds the full
charge of its interval. -/
structure SpendEntry.Sane (e : SpendEntry) : Prop where
  ordered : e.startsAt ≤ e.endsAt
  held : e.state = .reserved → ∀ rate, e.details.nanosPerSecond = some rate →
    (e.endsAt - e.startsAt) * rate ≤ e.amountNanos * SECOND

structure Setting.Within (env : Setting) (l : Ledger) : Prop where
  sane : ∀ e ∈ l.rows, e.Sane
  bounded : ∀ u user, env.users.get? u = some user → user.creditsUnlimited = false →
    ∀ i, ∀ w ∈ windows env.limits i, usedInWindow l u w.start w.finish none ≤ w.limit

variable {env : Setting}

theorem within_empty : env.Within Table.empty where
  sane := by simp [Table.empty]
  bounded := by simp [usedInWindow, Table.sumOf, Table.empty]

/-- Shrinking an entry keeps the invariant. -/
theorem within_shrink {l : Ledger} (h : env.Within l) {e e' : SpendEntry}
    (he : l.get? e.id = some e) (hs : e.Shrinks e') (hsane : e'.Sane) : env.Within (l.put e') where
  sane x hx := by
    rcases Table.mem_put.mp hx with rfl | ⟨hx, _⟩
    · exact hsane
    · exact h.sane x hx
  bounded u user hu hlim i w hw :=
    Nat.le_trans (usedInWindow_shrink he hs u w.start w.finish) (h.bounded u user hu hlim i w hw)

theorem close_shrinks {e : SpendEntry} (h : e.Sane) {amount : Nat} (ha : amount ≤ e.amountNanos)
    (now : Nat) : e.Shrinks (e.close amount now) := by
  have := h.ordered
  refine ⟨rfl, rfl, rfl, ?_, ha⟩
  simp only [SpendEntry.close]
  omega

theorem close_sane (e : SpendEntry) (amount now : Nat) (details : Details) :
    SpendEntry.Sane { e.close amount now with details := details } where
  ordered := Nat.le_max_left _ _
  held := by simp [SpendEntry.close]

/-- What an open entry has cost so far is no more than it holds. -/
theorem runtimeAmount_le {e : SpendEntry} (h : e.Sane) (hr : e.state = .reserved) {now a : Nat}
    (ha : runtimeAmount e now = .ok a) : a ≤ e.amountNanos := by
  unfold runtimeAmount at ha
  split at ha
  · rename_i rate hrate
    obtain rfl := Except.ok.inj ha
    rw [leaseCost_le]
    exact Nat.le_trans (Nat.mul_le_mul_right _ (by omega)) (h.held hr rate hrate)
  · cases ha

/-- A lease that has not started to run costs nothing. -/
theorem runtimeAmount_eq_zero {e : SpendEntry} {now a : Nat} (ha : runtimeAmount e now = .ok a)
    (hnow : min now e.endsAt ≤ e.startsAt) : a = 0 := by
  unfold runtimeAmount at ha
  split at ha
  · obtain rfl := Except.ok.inj ha
    rw [show min now e.endsAt - e.startsAt = 0 by omega, leaseCost_zero]
  · cases ha

/-! ## §4. What one step can do. -/

/-- A replaced lease is an open one of the same user, with its charge so far. -/
theorem replaced_cases {l : Ledger} {userId now : Nat} {replaceId : Option Nat}
    {old : Option (SpendEntry × Nat)} (h : replaced l userId now replaceId = .ok old) :
    old = none ∨ ∃ e a, old = some (e, a) ∧ l.get? e.id = some e ∧ e.userId = userId ∧
      e.state = .reserved ∧ runtimeAmount e now = .ok a := by
  unfold replaced at h
  split at h
  · exact .inl (Except.ok.inj h).symm
  · split at h
    · cases h
    · rename_i id e he
      split at h
      · cases h
      · rename_i hok
        push Not at hok
        split at h
        · rename_i a ha
          have hid := Table.key_of_get? he
          rw [key_spendEntry] at hid
          exact .inr ⟨e, a, (Except.ok.inj h).symm, hid ▸ he, hok.1, hok.2.2, ha⟩
        · cases h

/-- A successful reservation: the lease it replaces, the bounds it meets and
the windows it was checked against. -/
theorem reserve_cases {l l' : Ledger} {now id userId : Nat} {kind : SpendKind}
    {amount duration : Int} {details : Details} {runId replaceId : Option Nat} {entry : SpendEntry}
    (h : reserve env.limits env.users l now id userId kind amount duration details runId replaceId
      = .ok (entry, l')) :
    ∃ user old, env.users.get? userId = some user ∧ replaced l userId now replaceId = .ok old ∧
      0 ≤ amount ∧ 0 < duration ∧ duration < 86400 ∧
      entry = { id, userId, runId, kind, state := .reserved, reservedNanos := amount.toNat,
                amountNanos := amount.toNat, startsAt := now,
                endsAt := now + duration.toNat * SECOND, details } ∧
      l' = (closeReplaced l now old).put entry ∧
      (user.creditsUnlimited = false → ∀ w ∈ periods env.limits now entry.endsAt,
        carried l userId now old w + amount.toNat ≤ w.limit) := by
  unfold reserve at h
  split at h
  · cases h
  · rename_i hbounds
    push Not at hbounds
    split at h
    · cases h
    · rename_i user huser
      split at h
      · cases h
      · simp only at h
        split at h
        · cases h
        · rename_i old hold
          split at h
          · cases h
          · rename_i hfind
            simp only [Except.ok.injEq, Prod.mk.injEq] at h
            obtain ⟨rfl, rfl⟩ := h
            refine ⟨user, old, huser, hold, hbounds.1, hbounds.2.1, hbounds.2.2, rfl, rfl, ?_⟩
            intro hlim w hw
            rw [hlim] at hfind
            have := List.find?_eq_none.mp hfind w hw
            simpa using this

/-! ## §5. Reservations. -/

/-- **Two windows are enough**: a window that an interval shorter than a day
touches is a window of one of its end points. -/
theorem windows_cover {limits : Limits} {now finish i : Nat} {w : Window}
    (hw : w ∈ windows limits i) (hlen : finish ≤ now + DAY) (h1 : now < w.finish)
    (h2 : w.start ≤ finish) : w ∈ periods limits now finish := by
  unfold periods
  rw [List.mem_insertionSort, List.mem_dedup, List.mem_append]
  simp only [windows, List.mem_cons, List.not_mem_nil, or_false] at hw ⊢
  rcases hw with rfl | rfl
  · rcases periodic_day.covers hlen h1 h2 with ⟨hs, _⟩ | ⟨hs, _⟩
    · exact .inl (.inl (by rw [hs]))
    · exact .inr (.inl (by rw [hs]))
  · rcases periodic_month.covers hlen h1 h2 with ⟨hs, _⟩ | ⟨hs, _⟩
    · exact .inl (.inr (by rw [hs]))
    · exact .inr (.inr (by rw [hs]))

/-- Closing the replaced lease leaves at most what `reserve` counted. -/
theorem usedInWindow_closeReplaced {l : Ledger} {userId now : Nat} {replaceId : Option Nat}
    {old : Option (SpendEntry × Nat)} (h : replaced l userId now replaceId = .ok old) (w : Window) :
    usedInWindow (closeReplaced l now old) userId w.start w.finish none ≤ carried l userId now old w := by
  rcases replaced_cases h with rfl | ⟨e, a, rfl, he, hu, _, ha⟩
  · simp [closeReplaced, carried]
  · have hput : usedInWindow (l.put (e.close a now)) userId w.start w.finish none
        = (e.close a now).share userId w.start w.finish
          + (l.erase e.id).sumOf (SpendEntry.share userId w.start w.finish) := by
      simp only [usedInWindow, Table.sumOf_put]
      rfl
    have hshare : (e.close a now).share userId w.start w.finish
        ≤ if e.startsAt < w.finish ∧ w.start ≤ min now e.endsAt then a else 0 := by
      simp only [SpendEntry.share, SpendEntry.counts, SpendEntry.close, hu, Bool.and_eq_true,
        decide_eq_true_eq]
      split_ifs with h1 h2
      · exact Nat.le_refl _
      · -- only the start of the lease lies in the window: nothing was charged
        have hzero := runtimeAmount_eq_zero ha (by omega)
        omega
      · exact Nat.zero_le _
      · exact Nat.le_refl _
    simp only [closeReplaced, carried, Option.map_some, hput]
    simp only [usedInWindow]
    omega

theorem within_closeReplaced {l : Ledger} (hl : env.Within l) {userId now : Nat}
    {replaceId : Option Nat} {old : Option (SpendEntry × Nat)}
    (h : replaced l userId now replaceId = .ok old) : env.Within (closeReplaced l now old) := by
  rcases replaced_cases h with rfl | ⟨e, a, rfl, he, hu, hr, ha⟩
  · exact hl
  · have hsane := hl.sane e (Table.mem_of_get? he)
    exact within_shrink hl he (close_shrinks hsane (runtimeAmount_le hsane hr ha) now)
      (close_sane e a now e.details)

theorem get?_closeReplaced {l : Ledger} {userId now id : Nat} {replaceId : Option Nat}
    {old : Option (SpendEntry × Nat)} (h : replaced l userId now replaceId = .ok old)
    (hid : l.get? id = none) : (closeReplaced l now old).get? id = none := by
  rcases replaced_cases h with rfl | ⟨e, a, rfl, he, _⟩
  · exact hid
  · have hne : id ≠ e.id := by
      rintro rfl
      simp [hid] at he
    rw [closeReplaced, Table.get?_put_ne _ hne, hid]

theorem day_eq : DAY = 86400 * SECOND := rfl

/-- An amount that covers whole seconds covers their smaller units. -/
theorem full_charge {length rate amount : Nat} (now unit : Nat) (h : length * rate ≤ amount) :
    (now + length * unit - now) * rate ≤ amount * unit := by
  calc (now + length * unit - now) * rate = length * rate * unit := by
        rw [Nat.add_sub_cancel_left]; ring
    _ ≤ amount * unit := Nat.mul_le_mul_right _ h

/-- **A reservation keeps the invariant.** -/
theorem within_reserve {l l' : Ledger} (hl : env.Within l) {now id userId : Nat} {kind : SpendKind}
    {amount duration : Int} {details : Details} {runId replaceId : Option Nat} {entry : SpendEntry}
    (hid : l.get? id = none)
    (hcov : ∀ rate, details.nanosPerSecond = some rate → rate * duration ≤ amount)
    (h : reserve env.limits env.users l now id userId kind amount duration details runId replaceId
      = .ok (entry, l')) : env.Within l' := by
  obtain ⟨user, old, huser, hold, hamt, hdur, hday, hentry, rfl, hcheck⟩ := reserve_cases h
  have hclosed := within_closeReplaced hl hold
  have hlen : entry.endsAt ≤ now + DAY := by
    rw [hentry, day_eq]
    exact Nat.add_le_add_left (Nat.mul_le_mul_right _ (by omega)) _
  have hsplit : ∀ u start finish, usedInWindow ((closeReplaced l now old).put entry) u start finish none
      = entry.share u start finish + usedInWindow (closeReplaced l now old) u start finish none := by
    intro u start finish
    have hfresh : (closeReplaced l now old).get? entry.id = none := by
      rw [hentry]
      exact get?_closeReplaced hold hid
    simp only [usedInWindow, Table.sumOf_put, key_spendEntry, Table.sumOf_erase_none hfresh]
  constructor
  · intro x hx
    rcases Table.mem_put.mp hx with rfl | ⟨hx, _⟩
    · subst hentry
      refine ⟨Nat.le_add_right _ _, fun _ rate hrate => ?_⟩
      have hrate' := hcov rate hrate
      have : duration.toNat * rate ≤ amount.toNat := by
        zify
        rw [Int.toNat_of_nonneg hamt, Int.toNat_of_nonneg (by omega)]
        linarith
      exact full_charge now SECOND this
    · exact hclosed.sane x hx
  · intro u user' hu hlim i w hw
    rw [hsplit]
    by_cases hcounts : entry.counts u w.start w.finish = true
    · -- the window holds the new entry: it is one of those that were checked
      simp only [SpendEntry.share, hcounts, if_true]
      simp only [SpendEntry.counts, Bool.and_eq_true, decide_eq_true_eq] at hcounts
      obtain ⟨⟨huid, h1⟩, h2⟩ := hcounts
      have huid' : userId = u := by rw [← huid, hentry]
      subst huid'
      have huser' : user = user' := by
        rw [huser] at hu
        exact Option.some.inj hu
      have hstart : entry.startsAt = now := by rw [hentry]
      have hmem := windows_cover hw hlen (hstart ▸ h1) h2
      have hle := hcheck (huser' ▸ hlim) w hmem
      have hused := usedInWindow_closeReplaced hold w
      have hamount : entry.amountNanos = amount.toNat := by rw [hentry]
      omega
    · simp only [SpendEntry.share, hcounts]
      have := hclosed.bounded u user' hu hlim i w hw
      simpa using this

/-! ## §6. Confirmation, settlement, runs. -/

theorem confirm_shrinks {e : SpendEntry} (he : e.Sane) (hr : e.state = .reserved) {rate held : Nat}
    {info : Resources} (hheld : e.details.nanosPerSecond = some held) (hrate : rate ≤ held)
    (hend : info.endAt ≤ e.endsAt) : e.Shrinks (e.confirm rate info) := by
  have hord := he.ordered
  have hle : max e.startsAt info.endAt ≤ e.endsAt := by omega
  refine ⟨rfl, rfl, rfl, hle, ?_⟩
  rw [confirm_amountNanos, leaseCost_le]
  calc (max e.startsAt info.endAt - e.startsAt) * rate
      ≤ (e.endsAt - e.startsAt) * held := Nat.mul_le_mul (by omega) hrate
    _ ≤ e.amountNanos * SECOND := he.held hr held hheld

theorem confirm_sane (e : SpendEntry) (rate : Nat) (info : Resources) : (e.confirm rate info).Sane where
  ordered := Nat.le_max_left _ _
  held := by
    intro _ r hr
    obtain rfl := Option.some.inj hr
    rw [confirm_endsAt, confirm_startsAt, confirm_amountNanos]
    exact le_leaseCost _ _

theorem within_confirmRuntime {l l' : Ledger} (hl : env.Within l) {spendId : Nat} {info : Resources}
    (h : confirmRuntime env.rates l spendId info = .ok (false, l')) : env.Within l' := by
  unfold confirmRuntime at h
  split at h
  · cases h
  · rename_i rate _
    split at h
    · cases h
    · rename_i e he
      split at h
      · cases h
      · rename_i hr
        split at h
        · cases h
        · rename_i held hheld
          simp only [Except.ok.injEq, Prod.mk.injEq, decide_eq_false_iff_not, not_or, Nat.not_lt] at h
          obtain ⟨⟨hrate, hend⟩, rfl⟩ := h
          have hid : e.id = spendId := Table.key_of_get? he
          have hsane := hl.sane e (Table.mem_of_get? he)
          exact within_shrink hl (hid ▸ he)
            (confirm_shrinks hsane (by simpa using hr) hheld hrate hend) (confirm_sane e rate info)

theorem within_settle {l l' : Ledger} (hl : env.Within l) {now entryId : Nat} {amount : Option Int}
    {details : Details}
    (hcov : ∀ a, amount = some a → ∀ e, l.get? entryId = some e → a.toNat ≤ e.amountNanos)
    (h : settle l now entryId amount details = .ok l') : env.Within l' := by
  unfold settle at h
  split at h
  · cases h
  · rename_i e he
    have hid : e.id = entryId := Table.key_of_get? he
    have hsane := hl.sane e (Table.mem_of_get? he)
    have hclose : ∀ a, a ≤ e.amountNanos → env.Within
        (l.put { e.close a now with details := e.details.merge details }) := by
      intro a ha
      obtain ⟨h1, h2, h3, h4, h5⟩ := close_shrinks hsane ha now
      exact within_shrink hl (hid ▸ he) ⟨h1, h2, h3, h4, h5⟩ (close_sane e a now _)
    split at h
    · exact Except.ok.inj h ▸ hl
    · rename_i hr
      split at h
      · rename_i a
        exact Except.ok.inj h ▸ hclose a.toNat (hcov a rfl e he)
      · split at h
        · rename_i a ha
          exact Except.ok.inj h ▸ hclose a (runtimeAmount_le hsane (by simpa using hr) ha)
        · cases h

/-- **Step lemma**: a covered step keeps the invariant. -/
theorem within_apply {l l' : Ledger} (hl : env.Within l) {now id : Nat} {op : Op}
    (hid : l.get? id = none) (hcov : op.Covered l) (h : env.apply now id l op = .ok (false, l')) :
    env.Within l' := by
  cases op with
  | reserve userId kind amount duration details runId replaceId =>
      simp only [Setting.apply, Except.map] at h
      split at h
      · cases h
      · rename_i r hr
        simp only [Except.ok.injEq, Prod.mk.injEq, true_and] at h
        exact h ▸ within_reserve hl hid hcov hr
  | confirmRuntime spendId info => exact within_confirmRuntime hl h
  | settle entryId amount details =>
      simp only [Setting.apply, Except.map] at h
      split at h
      · cases h
      · rename_i r hr
        simp only [Except.ok.injEq, Prod.mk.injEq, true_and] at h
        refine h ▸ within_settle hl ?_ hr
        rintro a rfl
        exact hcov

/-- **Run lemma**: every ledger that covered steps reach meets the invariant. -/
theorem within_reaches {t : Nat} {l : Ledger} (h : env.Reaches Op.Covered t l) : env.Within l := by
  induction h with
  | empty => exact within_empty
  | step now id op _ _ hid hcov happ ih => exact within_apply ih hid hcov happ

/-- **Spending never exceeds the allowance**: in every ledger that covered
steps reach, every day and every month of a user without unlimited credits
holds at most its limit. -/
theorem spending_within_allowance (env : Setting) {t : Nat} {l : Ledger}
    (h : env.Reaches Op.Covered t l) {u : Nat} {user : User} (hu : env.users.get? u = some user)
    (hlim : user.creditsUnlimited = false) (i : Nat) :
    ∀ w ∈ windows env.limits i, usedInWindow l u w.start w.finish none ≤ w.limit :=
  (within_reaches h).bounded u user hu hlim i

/-! ## §7. Where a reservation promises too little. -/

/-- One verified user with 100 nanos a day. -/
def tinySetting : Setting where
  limits := ⟨100, 1000⟩
  rates := ⟨1, 1⟩
  users := Table.empty.put ⟨1, true, false, 2, none, none⟩

/-- A lease of 60 nanos, as the resource ceiling asks, confirmed at 20. -/
def leaseOp : Op :=
  .reserve 1 .sandbox 60 10 { nanosPerSecond := some 6 } none none

def confirmOp (id : Nat) : Op := .confirmRuntime id ⟨1, 1024, 10 * SECOND⟩

/-- The ledger after a step. -/
def Setting.applied (env : Setting) (now id : Nat) (l : Ledger) (op : Op) : Ledger :=
  match env.apply now id l op with
  | .ok (_, l') => l'
  | .error _ => l

theorem Setting.Reaches.applied {allowed : Ledger → Op → Prop} (now id : Nat) (op : Op)
    {t : Nat} {l : Ledger} (h : env.Reaches allowed t l) (ht : t ≤ now) (hop : allowed l op)
    (hok : (l.get? id).isNone && (env.apply now id l op).toOption.any (fun r => !r.1) = true) :
    env.Reaches allowed now (env.applied now id l op) := by
  simp only [Bool.and_eq_true, Option.isNone_iff_eq_none] at hok
  refine .step now id op h ht hok.1 hop ?_
  unfold Setting.applied
  cases happ : env.apply now id l op with
  | error e => simp [happ, Except.toOption] at hok
  | ok r =>
      obtain ⟨b, l'⟩ := r
      have hb : b = false := by simpa [happ, Except.toOption] using hok.2
      rw [hb]

theorem spending_within_allowance_leaseOp :
    usedInWindow (tinySetting.applied 0 7 Table.empty leaseOp) 1 0 DAY none ≤ 100 := by
  have hcov : Op.Covered Table.empty leaseOp := by
    intro rate hrate
    obtain rfl := Option.some.inj hrate
    decide
  exact spending_within_allowance tinySetting
    (Setting.Reaches.empty.applied 0 7 leaseOp (Nat.le_refl 0) hcov (by decide))
    rfl rfl 0 _ (List.Mem.head _)

/-- Two ways past the limit although no settled amount is larger than its
reservation: settle a confirmed lease for what was reserved at first, or
record a rate that the reserved amount does not cover and confirm it. -/
theorem reservation_overspends :
    (∃ t l, tinySetting.Reaches Op.WithinReservation t l ∧
      ∃ w ∈ windows tinySetting.limits 0, w.limit < usedInWindow l 1 w.start w.finish none) ∧
    (∃ t l, tinySetting.Reaches (fun _ op => ∀ id a d, op ≠ .settle id a d) t l ∧
      ∃ w ∈ windows tinySetting.limits 0, w.limit < usedInWindow l 1 w.start w.finish none) := by
  constructor
  · have h1 := @Setting.Reaches.empty tinySetting Op.WithinReservation
    have h2 := h1.applied 0 7 leaseOp (Nat.le_refl 0) trivial
      (by decide)
    have h3 := h2.applied 0 9 (confirmOp 7) (Nat.le_refl 0) trivial
      (by decide)
    have h4 := h3.applied 0 8 (.reserve 1 .model 80 10 {} none none)
      (Nat.le_refl 0) trivial (by decide)
    have h5 := h4.applied 0 9 (.settle 7 (some 60) {}) (Nat.le_refl 0)
      (by
        intro e he
        obtain rfl := Option.some.inj he
        decide) (by decide)
    exact ⟨0, _, h5, _, List.Mem.head _, by decide⟩
  · have h1 := @Setting.Reaches.empty tinySetting fun _ op => ∀ id a d, op ≠ .settle id a d
    have h2 := h1.applied 0 7 (.reserve 1 .sandbox 1 10 { nanosPerSecond := some 6 } none none) (Nat.le_refl 0)
      (by simp) (by decide)
    have h3 := h2.applied 0 8 (.reserve 1 .model 99 10 {} none none)
      (Nat.le_refl 0) (by simp) (by decide)
    have h4 := h3.applied 0 9 (confirmOp 7) (Nat.le_refl 0)
      (by simp [confirmOp]) (by decide)
    exact ⟨0, _, h4, _, List.Mem.head _, by decide⟩

end WebBuilder.Budget
