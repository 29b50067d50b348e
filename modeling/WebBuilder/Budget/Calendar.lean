/-
  WebBuilder.Budget.Calendar — UTC days and Gregorian months.

  A time is a number of microseconds since 0001-01-01T00:00Z, the least
  `datetime`.  Months are numbered from January of the year 1; `monthStart`
  is the proleptic Gregorian day count and `monthOf` its inverse.

  Main results:
    * `monthStart_succ` — consecutive months abut;
    * `monthOf_spec` / `monthOf_unique` — `monthOf` finds the month of a day;
    * `Periodic.covers` — where every window is at least `L` long, an interval
      no longer than `L` meets only the windows of its two end points.
-/
import Mathlib.Tactic

namespace WebBuilder.Budget

/-- One second. -/
abbrev SECOND : Nat := 1000000

/-- One day. -/
abbrev DAY : Nat := 86400000000

/-! ## §1. The Gregorian calendar. -/

/-- Days before January 1st of the year `y + 1`. -/
def daysBeforeYear (y : Nat) : Nat := y * 365 + y / 4 - y / 100 + y / 400

def isLeap (year : Nat) : Bool :=
  year % 4 == 0 && (year % 100 != 0 || year % 400 == 0)

/-- Length of the month `m` (`0` is January). -/
def daysInMonth (leap : Bool) (m : Nat) : Nat :=
  match m with
  | 1 => if leap then 29 else 28
  | 3 | 5 | 8 | 10 => 30
  | _ => 31

/-- Days of the same year before the month `m`. -/
def daysBeforeMonth (leap : Bool) (m : Nat) : Nat :=
  let base :=
    match m with
    | 0 => 0 | 1 => 31 | 2 => 59 | 3 => 90 | 4 => 120 | 5 => 151
    | 6 => 181 | 7 => 212 | 8 => 243 | 9 => 273 | 10 => 304 | _ => 334
  if leap && 2 ≤ m then base + 1 else base

/-- The length of month number `k`, that is `12 * (year - 1) + (month - 1)`. -/
def monthLength (k : Nat) : Nat := daysInMonth (isLeap (k / 12 + 1)) (k % 12)

/-- The day number of the first day of month `k`. -/
def monthStart (k : Nat) : Nat :=
  daysBeforeYear (k / 12) + daysBeforeMonth (isLeap (k / 12 + 1)) (k % 12)

theorem daysBeforeYear_succ (y : Nat) :
    daysBeforeYear (y + 1) = daysBeforeYear y + (if isLeap (y + 1) then 366 else 365) := by
  have h4 : (y + 1) / 4 = y / 4 + if (y + 1) % 4 = 0 then 1 else 0 := by split <;> omega
  have h100 : (y + 1) / 100 = y / 100 + if (y + 1) % 100 = 0 then 1 else 0 := by split <;> omega
  have h400 : (y + 1) / 400 = y / 400 + if (y + 1) % 400 = 0 then 1 else 0 := by split <;> omega
  have hle : y / 100 ≤ y / 4 := by omega
  have hleap : isLeap (y + 1)
      = decide ((y + 1) % 4 = 0 ∧ ((y + 1) % 100 ≠ 0 ∨ (y + 1) % 400 = 0)) := by
    unfold isLeap
    grind
  rw [daysBeforeYear, daysBeforeYear, h4, h100, h400, hleap]
  simp only [decide_eq_true_eq]
  generalize y / 4 = a at *
  generalize y / 100 = b at *
  generalize y / 400 = c at *
  have i100 : (y + 1) % 100 = 0 → (y + 1) % 4 = 0 := by omega
  have i400 : (y + 1) % 400 = 0 → (y + 1) % 100 = 0 := by omega
  split_ifs <;> omega

theorem daysBeforeMonth_succ :
    ∀ leap, ∀ m < 11, daysBeforeMonth leap (m + 1) = daysBeforeMonth leap m + daysInMonth leap m := by
  decide

theorem daysBeforeMonth_december (leap : Bool) :
    daysBeforeMonth leap 11 + daysInMonth leap 11 = if leap then 366 else 365 := by
  cases leap <;> rfl

/-- Consecutive months abut. -/
theorem monthStart_succ (k : Nat) : monthStart (k + 1) = monthStart k + monthLength k := by
  by_cases hm : k % 12 < 11
  · have hdiv : (k + 1) / 12 = k / 12 := by omega
    have hmod : (k + 1) % 12 = k % 12 + 1 := by omega
    rw [monthStart, monthStart, monthLength, hdiv, hmod, daysBeforeMonth_succ _ _ hm]
    omega
  · have hdiv : (k + 1) / 12 = k / 12 + 1 := by omega
    have hmod : (k + 1) % 12 = 0 := by omega
    have hdec : k % 12 = 11 := by omega
    have hyear := daysBeforeMonth_december (isLeap (k / 12 + 1))
    rw [monthStart, monthStart, monthLength, hdiv, hmod, hdec, daysBeforeYear_succ, ← hyear]
    simp [daysBeforeMonth, Nat.add_assoc]

theorem monthLength_bounds (k : Nat) : 28 ≤ monthLength k ∧ monthLength k ≤ 31 := by
  unfold monthLength daysInMonth
  repeat' split
  all_goals decide

theorem monthStart_strictMono : StrictMono monthStart :=
  strictMono_nat_of_lt_succ fun k => by
    have := monthStart_succ k
    have := monthLength_bounds k
    omega

theorem le_monthStart (k : Nat) : 28 * k ≤ monthStart k := by
  induction k with
  | zero => simp
  | succ k ih =>
      have := monthStart_succ k
      have := monthLength_bounds k
      omega

/-- The month number of a day number. -/
def monthOf (day : Nat) : Nat :=
  Nat.findGreatest (fun k => monthStart k ≤ day) (day / 28)

theorem monthOf_spec (day : Nat) :
    monthStart (monthOf day) ≤ day ∧ day < monthStart (monthOf day + 1) := by
  constructor
  · exact Nat.findGreatest_spec (P := fun k => monthStart k ≤ day) (m := 0) (Nat.zero_le _)
      (by simp [monthStart, daysBeforeYear, daysBeforeMonth])
  · by_contra hlt
    have hle : monthStart (monthOf day + 1) ≤ day := Nat.le_of_not_lt hlt
    have hbound : monthOf day + 1 ≤ day / 28 := by
      have := le_monthStart (monthOf day + 1)
      omega
    have := Nat.le_findGreatest (P := fun k => monthStart k ≤ day) hbound hle
    unfold monthOf at this
    omega

theorem monthOf_unique {day k : Nat} (h : monthStart k ≤ day) (h' : day < monthStart (k + 1)) :
    monthOf day = k := by
  obtain ⟨h1, h2⟩ := monthOf_spec day
  have a := monthStart_strictMono.lt_iff_lt.mp (lt_of_le_of_lt h h2)
  have b := monthStart_strictMono.lt_iff_lt.mp (lt_of_le_of_lt h1 h')
  omega

/-! ## §2. Windows that tile the time line. -/

/-- A family of windows `[start, finish)` that tile the time line, each at
least `len` long. -/
structure Periodic (start finish : Nat → Nat) (len : Nat) : Prop where
  mem : ∀ t, start t ≤ t ∧ t < finish t
  same : ∀ t u, start t ≤ u → u < finish t → start u = start t ∧ finish u = finish t
  long : ∀ t, start t + len ≤ finish t

/-- **Short intervals meet few windows**: a window that meets `[a, b]` with
`b ≤ a + len` is the window of `a` or the window of `b`. -/
theorem Periodic.covers {start finish : Nat → Nat} {len : Nat}
    (h : Periodic start finish len) {a b t : Nat} (hlen : b ≤ a + len)
    (hstart : a < finish t) (hend : start t ≤ b) :
    (start t = start a ∧ finish t = finish a) ∨ (start t = start b ∧ finish t = finish b) := by
  have hlong := h.long t
  by_cases ha : start t ≤ a
  · obtain ⟨h1, h2⟩ := h.same t a ha hstart
    exact .inl ⟨h1.symm, h2.symm⟩
  · have hb : b < finish t := by omega
    obtain ⟨h1, h2⟩ := h.same t b hend hb
    exact .inr ⟨h1.symm, h2.symm⟩

/-- Midnight before `t`: `t.replace(hour=0, minute=0, second=0, microsecond=0)`. -/
def startOfDay (t : Nat) : Nat := t / DAY * DAY

/-- The first of the month: `day.replace(day=1)` at midnight. -/
def firstOfMonth (t : Nat) : Nat := monthStart (monthOf (t / DAY)) * DAY

/-- `(month.replace(day=28) + timedelta(days=4)).replace(day=1)`. -/
def nextMonth (month : Nat) : Nat := firstOfMonth (month + 27 * DAY + 4 * DAY)

theorem firstOfMonth_eq {t : Nat} {k : Nat} (h : monthStart k * DAY ≤ t)
    (h' : t < monthStart (k + 1) * DAY) : firstOfMonth t = monthStart k * DAY := by
  have hk : monthOf (t / DAY) = k := by
    refine monthOf_unique ?_ ?_
    · rw [Nat.le_div_iff_mul_le (by norm_num [DAY])]
      exact h
    · rw [Nat.div_lt_iff_lt_mul (by norm_num [DAY])]
      exact h'
  rw [firstOfMonth, hk]

theorem nextMonth_eq (k : Nat) : nextMonth (monthStart k * DAY) = monthStart (k + 1) * DAY := by
  have h1 := monthStart_succ k
  have h2 := monthStart_succ (k + 1)
  have h3 := monthLength_bounds k
  have h4 := monthLength_bounds (k + 1)
  refine firstOfMonth_eq ?_ ?_
  · calc monthStart (k + 1) * DAY = monthStart k * DAY + monthLength k * DAY := by rw [h1, Nat.add_mul]
      _ ≤ monthStart k * DAY + 31 * DAY := Nat.add_le_add_left (Nat.mul_le_mul_right _ h3.2) _
      _ = monthStart k * DAY + 27 * DAY + 4 * DAY := by rw [Nat.add_assoc, ← Nat.add_mul 27 4]
  · calc monthStart k * DAY + 27 * DAY + 4 * DAY = (monthStart k + 31) * DAY := by
          rw [Nat.add_assoc, ← Nat.add_mul 27 4, Nat.add_mul (monthStart k) 31]
      _ < monthStart (k + 1 + 1) * DAY := Nat.mul_lt_mul_of_pos_right (by omega) (by norm_num [DAY])

theorem periodic_day : Periodic startOfDay (fun t => startOfDay t + DAY) DAY where
  mem t := by
    simp only [startOfDay, DAY]
    omega
  same t u h h' := by
    simp only [startOfDay, DAY] at *
    constructor <;> omega
  long t := Nat.le_refl _

theorem periodic_month : Periodic firstOfMonth (fun t => nextMonth (firstOfMonth t)) DAY where
  mem t := by
    obtain ⟨h1, h2⟩ := monthOf_spec (t / DAY)
    simp only [firstOfMonth, nextMonth_eq]
    constructor
    · exact le_trans (Nat.mul_le_mul_right _ h1) (Nat.div_mul_le_self t DAY)
    · rw [← Nat.div_lt_iff_lt_mul (by norm_num [DAY])]
      exact h2
  same t u h h' := by
    simp only [firstOfMonth, nextMonth_eq] at h h'
    have hu : firstOfMonth u = firstOfMonth t := firstOfMonth_eq h h'
    exact ⟨hu, by rw [hu]⟩
  long t := by
    simp only [firstOfMonth, nextMonth_eq]
    rw [monthStart_succ, Nat.add_mul]
    have := monthLength_bounds (monthOf (t / DAY))
    have h : 1 * DAY ≤ monthLength (monthOf (t / DAY)) * DAY := Nat.mul_le_mul_right _ (by omega)
    simp only [DAY] at *
    omega

/-! ## §3. Printing. -/

/-- `{t:%Y-%m-%d %H:%M}`. -/
def formatMinute (t : Nat) : String :=
  let day := t / DAY
  let k := monthOf day
  let minute := t % DAY / (60 * SECOND)
  let pad (width n : Nat) := let s := toString n
    String.ofList (List.replicate (width - s.length) '0') ++ s
  pad 4 (k / 12 + 1) ++ "-" ++ pad 2 (k % 12 + 1) ++ "-" ++ pad 2 (day - monthStart k + 1)
    ++ " " ++ pad 2 (minute / 60) ++ ":" ++ pad 2 (minute % 60)

end WebBuilder.Budget
