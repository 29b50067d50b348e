/-
  WebBuilder.Async.BoundedQueue — a queue that cannot exceed its capacity.

  `asyncio.Queue(maxsize)` between two awaits: `put_nowait` raises on a full
  queue, `get_nowait` on an empty one.  The bound is a field, so a queue that
  is too long cannot be built.
-/
import Mathlib.Tactic

namespace WebBuilder.Async

inductive QueueError where
  | full
  | empty
  deriving DecidableEq

/-- At most `capacity` items, oldest first. -/
structure BoundedQueue (α : Type) (capacity : Nat) where
  items : List α
  bound : items.length ≤ capacity

namespace BoundedQueue

variable {α : Type} {capacity : Nat}

def new : BoundedQueue α capacity := ⟨[], Nat.zero_le _⟩

def isFull (q : BoundedQueue α capacity) : Bool := capacity ≤ q.items.length

def isEmpty (q : BoundedQueue α capacity) : Bool := q.items.isEmpty

def putNowait (q : BoundedQueue α capacity) (a : α) : Except QueueError (BoundedQueue α capacity) :=
  if h : q.items.length < capacity then
    .ok ⟨q.items ++ [a], by rw [List.length_append, List.length_singleton]; exact h⟩
  else .error .full

def getNowait (q : BoundedQueue α capacity) : Except QueueError (α × BoundedQueue α capacity) :=
  match q with
  | ⟨[], _⟩ => .error .empty
  | ⟨a :: as, h⟩ => .ok (a, ⟨as, Nat.le_of_succ_le h⟩)

/-- `while not queue.empty(): queue.get_nowait()`, for as many rounds as the
queue has items. -/
def drain (q : BoundedQueue α capacity) : Except QueueError (BoundedQueue α capacity) :=
  go q.items.length q
where
  go : Nat → BoundedQueue α capacity → Except QueueError (BoundedQueue α capacity)
    | 0, q => .ok q
    | n + 1, q =>
        if q.isEmpty then .ok q
        else
          match q.getNowait with
          | .ok (_, q') => go n q'
          | .error e => .error e

@[simp] theorem items_new : (new : BoundedQueue α capacity).items = [] := rfl

/-- **`put_nowait`** succeeds exactly when there is room. -/
theorem putNowait_ok {q : BoundedQueue α capacity} {a : α} (h : q.isFull = false) :
    ∃ q', q.putNowait a = .ok q' ∧ q'.items = q.items ++ [a] := by
  have hlt : q.items.length < capacity := by simpa [isFull] using h
  unfold putNowait
  rw [dif_pos hlt]
  exact ⟨_, rfl, rfl⟩

theorem getNowait_cons {q : BoundedQueue α capacity} {a : α} {as : List α} (h : q.items = a :: as) :
    ∃ q', q.getNowait = .ok (a, q') ∧ q'.items = as := by
  obtain ⟨items, hbound⟩ := q
  subst h
  exact ⟨_, rfl, rfl⟩

theorem getNowait_ok {q q' : BoundedQueue α capacity} {a : α} (h : q.getNowait = .ok (a, q')) :
    q.items = a :: q'.items := by
  obtain ⟨items, hbound⟩ := q
  cases items with
  | nil => cases h
  | cons x xs =>
      simp only [getNowait, Except.ok.injEq, Prod.mk.injEq] at h
      obtain ⟨rfl, rfl⟩ := h
      rfl

/-- **Draining** never raises and leaves nothing. -/
theorem drain_ok (q : BoundedQueue α capacity) : ∃ q', q.drain = .ok q' ∧ q'.items = [] := by
  have hgo : ∀ (n : Nat) (q : BoundedQueue α capacity), q.items.length = n →
      ∃ q', drain.go n q = .ok q' ∧ q'.items = [] := by
    intro n
    induction n with
    | zero => exact fun q hq => ⟨q, rfl, List.length_eq_zero_iff.mp hq⟩
    | succ n ih =>
        intro q hq
        cases hitems : q.items with
        | nil => simp [hitems] at hq
        | cons a as =>
            obtain ⟨q', hget, hq'⟩ := getNowait_cons hitems
            have hlen : q'.items.length = n := by
              rw [hitems] at hq
              rw [hq']
              exact Nat.succ.inj hq
            obtain ⟨q'', hdrain, hempty⟩ := ih q' hlen
            refine ⟨q'', ?_, hempty⟩
            show (if q.isEmpty then _ else _) = _
            have hne : q.isEmpty = false := by simp [isEmpty, hitems]
            rw [hne, hget]
            exact hdrain
  exact hgo _ q rfl

/-- Taking the oldest item out until nothing is left makes room. -/
theorem not_full_of_empty {q : BoundedQueue α (capacity + 1)} (h : q.items = []) :
    q.isFull = false := by
  simp [isFull, h]

end BoundedQueue

end WebBuilder.Async
