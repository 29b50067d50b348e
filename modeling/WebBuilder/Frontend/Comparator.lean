/-
  WebBuilder.Frontend.Comparator — comparators that give numbers.

  `Array.prototype.sort` takes a function that gives a negative number, zero or
  a positive number.  A result that depends on the elements only needs more:
  the comparator has to be a total preorder, and it must tell the elements
  apart.  Total preorders are closed under the ways in which comparators are
  written: by a key, reversed, one after another with `||`, by the difference
  of two numbers, with missing keys last.

  Main results:
    * `TotalPreorder.ties`, `TotalPreorder.missing` — compositions;
    * `sorted_eq` — the same elements in any order are sorted alike.
-/
import Mathlib.Data.List.Sort
import Mathlib.Tactic

namespace WebBuilder.Frontend

variable {α β : Type}

/-! ## §1. Total preorders. -/

/-- `order || other`. -/
def orElse (order other : Int) : Int := if order = 0 then other else order

/-- Unknown keys come after known ones, and compare alike. -/
def unknownLast (compare : β → β → Int) : Option β → Option β → Int
  | some a, some b => compare a b
  | some _, none => -1
  | none, some _ => 1
  | none, none => 0

/-- A comparator that orders all elements, some of them alike. -/
structure TotalPreorder (compare : α → α → Int) : Prop where
  swap : ∀ a b, compare a b < 0 ↔ 0 < compare b a
  trans : ∀ a b c, compare a b ≤ 0 → compare b c ≤ 0 → compare a c ≤ 0

namespace TotalPreorder

variable {compare second : α → α → Int}

theorem zero_symm (h : TotalPreorder compare) {a b : α} (hab : compare a b = 0) : compare b a = 0 := by
  have hlt := h.swap a b
  have hgt := h.swap b a
  omega

theorem total (h : TotalPreorder compare) (a b : α) : compare a b ≤ 0 ∨ compare b a ≤ 0 := by
  have hlt := h.swap a b
  omega

/-- Elements that compare alike are exchangeable on the left. -/
theorem lt_of_le_of_lt (h : TotalPreorder compare) {a b c : α} (hab : compare a b ≤ 0) (hbc : compare b c < 0) :
    compare a c < 0 := by
  have hac := h.trans a b c hab (le_of_lt hbc)
  by_contra hnot
  -- then `c` is not after `a`, hence not after `b`
  have hca : compare c a ≤ 0 := by
    have := h.zero_symm (show compare a c = 0 by omega)
    omega
  have hcb := h.trans c a b hca hab
  have := (h.swap b c).mp hbc
  omega

theorem lt_of_lt_of_le (h : TotalPreorder compare) {a b c : α} (hab : compare a b < 0) (hbc : compare b c ≤ 0) :
    compare a c < 0 := by
  have hac := h.trans a b c (le_of_lt hab) hbc
  by_contra hnot
  have hca : compare c a ≤ 0 := by
    have := h.zero_symm (show compare a c = 0 by omega)
    omega
  have hba := h.trans b c a hbc hca
  have := (h.swap a b).mp hab
  omega

theorem lt_trans (h : TotalPreorder compare) {a b c : α} (hab : compare a b < 0) (hbc : compare b c < 0) :
    compare a c < 0 := h.lt_of_lt_of_le hab (le_of_lt hbc)

/-! ## §2. Compositions. -/

/-- By a key. -/
theorem on {compare : β → β → Int} (h : TotalPreorder compare) (key : α → β) :
    TotalPreorder fun a b => compare (key a) (key b) where
  swap a b := h.swap (key a) (key b)
  trans a b c := h.trans (key a) (key b) (key c)

theorem reverse (h : TotalPreorder compare) : TotalPreorder fun a b => -compare a b where
  swap a b := by
    have hba := h.swap b a
    omega
  trans a b c hab hbc := by
    have hba := h.swap b a
    have hcb := h.swap c b
    have hba' := h.swap a b
    have hcb' := h.swap b c
    have hca := h.trans c b a (by omega) (by omega)
    have := h.swap a c
    omega

/-- **A second comparator breaks the ties** of the first. -/
theorem ties (h : TotalPreorder compare) (h₂ : TotalPreorder second) :
    TotalPreorder fun a b => orElse (compare a b) (second a b) where
  swap a b := by
    have hlt := h.swap a b
    have hgt := h.swap b a
    have hsecond := h₂.swap a b
    unfold orElse
    split <;> split <;> omega
  trans a b c hab hbc := by
    unfold orElse at hab hbc ⊢
    split at hab
    · rename_i hab₀
      split at hbc
      · rename_i hbc₀
        have hac := h.trans a b c (by omega) (by omega)
        have hca := h.trans c b a (by have := h.zero_symm hbc₀; omega) (by have := h.zero_symm hab₀; omega)
        have hswap := h.swap c a
        have hac₀ : compare a c = 0 := by
          have := h.swap a c
          omega
        rw [if_pos hac₀]
        exact h₂.trans a b c hab hbc
      · have hac := h.lt_of_le_of_lt (show compare a b ≤ 0 by omega) (show compare b c < 0 by omega)
        rw [if_neg (by omega)]
        omega
    · have hbc' : compare b c ≤ 0 := by
        split at hbc <;> omega
      have hac := h.lt_of_lt_of_le (show compare a b < 0 by omega) hbc'
      rw [if_neg (by omega)]
      omega

/-- `first - second`. -/
theorem difference : TotalPreorder fun a b : Int => a - b where
  swap a b := by omega
  trans a b c hab hbc := by omega

theorem missing {compare : β → β → Int} (h : TotalPreorder compare) :
    TotalPreorder (unknownLast compare) where
  swap a b := by
    cases a with
    | none => cases b <;> simp [unknownLast]
    | some a =>
        cases b with
        | none => simp [unknownLast]
        | some b => exact h.swap a b
  trans a b c hab hbc := by
    cases c with
    | none => cases a <;> simp [unknownLast]
    | some c =>
        cases b with
        | none => exact absurd hbc (by simp [unknownLast])
        | some b =>
            cases a with
            | none => exact absurd hab (by simp [unknownLast])
            | some a => exact h.trans a b c hab hbc

end TotalPreorder

/-! ## §3. Sorting. -/

/-- `list.sort(compare)`, which is stable. -/
def sorted (compare : α → α → Int) (list : List α) : List α := list.insertionSort fun a b => compare a b ≤ 0

theorem sorted_perm (compare : α → α → Int) (list : List α) : (sorted compare list).Perm list :=
  List.perm_insertionSort _ list

theorem sorted_pairwise {compare : α → α → Int} (h : TotalPreorder compare) (list : List α) :
    (sorted compare list).Pairwise fun a b => compare a b ≤ 0 := by
  let le : α → α → Prop := fun a b => compare a b ≤ 0
  have : Std.Total le := ⟨h.total⟩
  have : IsTrans _ le := ⟨h.trans⟩
  exact List.pairwise_insertionSort le list

/-- **The order of the input does not matter** if no two elements compare alike. -/
theorem sorted_eq {compare : α → α → Int} (h : TotalPreorder compare) {list list' : List α} (hperm : list.Perm list')
    (hinj : ∀ a ∈ list, ∀ b ∈ list, compare a b = 0 → a = b) : sorted compare list = sorted compare list' := by
  refine List.Perm.eq_of_pairwise ?_ (sorted_pairwise h list) (sorted_pairwise h list')
    ((sorted_perm compare list).trans (hperm.trans (sorted_perm compare list').symm))
  intro a b ha hb hab hba
  have ha' : a ∈ list := (sorted_perm compare list).mem_iff.mp ha
  have hb' : b ∈ list := hperm.mem_iff.mpr ((sorted_perm compare list').mem_iff.mp hb)
  have hswap := h.swap a b
  exact hinj a ha' b hb' (by omega)

end WebBuilder.Frontend
