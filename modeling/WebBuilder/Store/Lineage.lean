/-
  WebBuilder.Store.Lineage — a pointer that moves by compare and swap.

  A value names the value that the pointer had when it was made, its parent,
  and it is installed only while the pointer still names that parent.  The
  history of such a pointer is a chain of swaps.  If every value is newer than
  its parent, the pointer moves forward only: nothing is installed twice, a
  value has one successor at most, and the pointer never returns.

  Main results:
    * `Chain.snoc` — one more swap;
    * `Chain.children_lt` — what is installed is newer every time;
    * `Chain.successor_unique` — two swaps with one parent are one swap;
    * `Chain.parent_ne_stop` — the pointer has left every parent for good.
-/
import Mathlib.Order.Basic
import Mathlib.Data.List.Pairwise
import Mathlib.Tactic

namespace WebBuilder.Store

variable {ι : Type}

/-! ## §1. Chains. -/

/-- The pointer moves from `parent` to `child`. -/
structure Swap (ι : Type) where
  parent : Option ι
  child : ι
  deriving DecidableEq

/-- From `start`, every swap finds the pointer at its parent; `stop` is where
the last one leaves it. -/
def Chain : Option ι → List (Swap ι) → Option ι → Prop
  | start, [], stop => start = stop
  | start, s :: rest, stop => s.parent = start ∧ Chain (some s.child) rest stop

@[simp] theorem chain_nil {start stop : Option ι} : Chain start [] stop ↔ start = stop := Iff.rfl

@[simp] theorem chain_cons {start stop : Option ι} {s : Swap ι} {rest : List (Swap ι)} :
    Chain start (s :: rest) stop ↔ s.parent = start ∧ Chain (some s.child) rest stop := Iff.rfl

/-- **One more swap**. -/
theorem Chain.snoc {start stop : Option ι} {swaps : List (Swap ι)} (h : Chain start swaps stop) {s : Swap ι}
    (hs : s.parent = stop) : Chain start (swaps ++ [s]) (some s.child) := by
  induction swaps generalizing start with
  | nil =>
      rw [chain_nil] at h
      exact ⟨hs.trans h.symm, rfl⟩
  | cons x rest ih => exact ⟨h.1, ih h.2⟩

/-- The pointer is where the last swap has left it. -/
theorem Chain.stop_eq {start stop : Option ι} {swaps : List (Swap ι)} (h : Chain start swaps stop) :
    stop = (swaps.getLast?.map Swap.child).or start := by
  induction swaps generalizing start with
  | nil => exact h.symm
  | cons x rest ih =>
      rw [ih h.2, List.getLast?_cons]
      cases rest.getLast? <;> rfl

/-! ## §2. New values. -/

variable [LinearOrder ι]

/-- The child is newer than its parent. -/
def Swap.Newer (s : Swap ι) : Prop := ∀ p, s.parent = some p → p < s.child

section Newer

variable {start stop : Option ι} {swaps : List (Swap ι)}

/-- Every child is newer than where the pointer started. -/
theorem Chain.start_lt (h : Chain start swaps stop) (hnew : ∀ s ∈ swaps, s.Newer) {p : ι} (hp : start = some p) :
    ∀ s ∈ swaps, p < s.child := by
  induction swaps generalizing start p with
  | nil => simp
  | cons x rest ih =>
      have hx : p < x.child := hnew x List.mem_cons_self p (h.1.trans hp)
      intro s hs
      rcases List.mem_cons.mp hs with rfl | hs
      · exact hx
      · exact hx.trans (ih h.2 (fun s hs => hnew s (List.mem_cons_of_mem x hs)) rfl s hs)

/-- **What is installed is newer every time**. -/
theorem Chain.children_lt (h : Chain start swaps stop) (hnew : ∀ s ∈ swaps, s.Newer) :
    (swaps.map Swap.child).Pairwise (· < ·) := by
  induction swaps generalizing start with
  | nil => exact List.Pairwise.nil
  | cons x rest ih =>
      have hrest : ∀ s ∈ rest, s.Newer := fun s hs => hnew s (List.mem_cons_of_mem x hs)
      refine List.Pairwise.cons (fun c hc => ?_) (ih h.2 hrest)
      obtain ⟨s, hs, rfl⟩ := List.mem_map.mp hc
      exact h.2.start_lt hrest rfl s hs

/-- The parents after the first swap are values that were installed. -/
theorem Chain.parent_le (h : Chain start swaps stop) (hnew : ∀ s ∈ swaps, s.Newer) {p : ι} (hp : start = some p) :
    ∀ s ∈ swaps, ∃ q, s.parent = some q ∧ p ≤ q := by
  induction swaps generalizing start p with
  | nil => simp
  | cons x rest ih =>
      intro s hs
      rcases List.mem_cons.mp hs with rfl | hs
      · exact ⟨p, h.1.trans hp, le_rfl⟩
      · have hx : p < x.child := hnew x List.mem_cons_self p (h.1.trans hp)
        obtain ⟨q, hq, hle⟩ := ih h.2 (fun s hs => hnew s (List.mem_cons_of_mem x hs)) rfl s hs
        exact ⟨q, hq, hx.le.trans hle⟩

/-- **A value has one successor at most**. -/
theorem Chain.successor_unique (h : Chain start swaps stop) (hnew : ∀ s ∈ swaps, s.Newer) {a b : Swap ι}
    (ha : a ∈ swaps) (hb : b ∈ swaps) (hab : a.parent = b.parent) : a = b := by
  induction swaps generalizing start with
  | nil => simp at ha
  | cons x rest ih =>
      have hrest : ∀ s ∈ rest, s.Newer := fun s hs => hnew s (List.mem_cons_of_mem x hs)
      -- a later swap has a newer parent than the first one
      have hlater : ∀ s ∈ rest, s.parent ≠ x.parent := fun s hs heq => by
        obtain ⟨q, hq, hle⟩ := h.2.parent_le hrest rfl s hs
        have hlt : q < x.child := hnew x List.mem_cons_self q (heq ▸ hq)
        exact absurd hle (not_le.mpr hlt)
      rcases List.mem_cons.mp ha with rfl | ha'
      · rcases List.mem_cons.mp hb with rfl | hb'
        · rfl
        · exact absurd hab.symm (hlater b hb')
      · rcases List.mem_cons.mp hb with rfl | hb'
        · exact absurd hab (hlater a ha')
        · exact ih h.2 hrest ha' hb'

/-- The pointer moves forward. -/
theorem Chain.start_le_stop (h : Chain start swaps stop) (hnew : ∀ s ∈ swaps, s.Newer) {p : ι} (hp : start = some p) :
    ∃ q, stop = some q ∧ p ≤ q := by
  induction swaps generalizing start p with
  | nil => exact ⟨p, h.symm.trans hp, le_rfl⟩
  | cons x rest ih =>
      obtain ⟨q, hq, hle⟩ := ih h.2 (fun s hs => hnew s (List.mem_cons_of_mem x hs)) rfl
      exact ⟨q, hq, (hnew x List.mem_cons_self p (h.1.trans hp)).le.trans hle⟩

/-- Nothing that was installed is newer than the pointer. -/
theorem Chain.child_le_stop (h : Chain start swaps stop) (hnew : ∀ s ∈ swaps, s.Newer) :
    ∀ s ∈ swaps, ∃ q, stop = some q ∧ s.child ≤ q := by
  induction swaps generalizing start with
  | nil => simp
  | cons x rest ih =>
      have hrest : ∀ s ∈ rest, s.Newer := fun s hs => hnew s (List.mem_cons_of_mem x hs)
      intro s hs
      rcases List.mem_cons.mp hs with rfl | hs
      · exact h.2.start_le_stop hrest rfl
      · exact ih h.2 hrest s hs

/-- **The pointer has left every parent for good**. -/
theorem Chain.parent_ne_stop (h : Chain start swaps stop) (hnew : ∀ s ∈ swaps, s.Newer) :
    ∀ s ∈ swaps, s.parent ≠ stop := by
  intro s hs heq
  obtain ⟨q, hq, hle⟩ := h.child_le_stop hnew s hs
  exact absurd hle (not_le.mpr (hnew s hs q (heq.trans hq)))

end Newer

end WebBuilder.Store
