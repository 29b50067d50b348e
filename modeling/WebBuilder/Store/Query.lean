/-
  WebBuilder.Store.Query — `ORDER BY` and `LIMIT`.

  A database returns the selected rows in an order of its own choosing unless
  the query says which.  With a key that tells the rows apart, `ORDER BY`
  leaves no choice.

  Main results:
    * `orderBy_eq` — the same rows in any order give the same result;
    * `mem_take_orderBy` — a limit leaves no gap.
-/
import Mathlib.Data.Prod.Lex
import WebBuilder.Store.Table

namespace WebBuilder.Store

variable {ρ κ : Type} [LinearOrder κ]

/-- `ORDER BY f`. -/
def orderBy (f : ρ → κ) (rows : List ρ) : List ρ := rows.insertionSort fun a b => f a ≤ f b

/-- `ORDER BY f DESC`. -/
def orderByDesc (f : ρ → κ) (rows : List ρ) : List ρ := orderBy (fun r => OrderDual.toDual (f r)) rows

theorem orderBy_perm (f : ρ → κ) (rows : List ρ) : (orderBy f rows).Perm rows :=
  List.perm_insertionSort _ rows

theorem orderBy_sorted (f : ρ → κ) (rows : List ρ) : (orderBy f rows).Pairwise fun a b => f a ≤ f b := by
  let le : ρ → ρ → Prop := fun a b => f a ≤ f b
  have : Std.Total le := ⟨fun a b => le_total (f a) (f b)⟩
  have : IsTrans _ le := ⟨fun a b c hab hbc => le_trans hab hbc⟩
  exact List.pairwise_insertionSort le rows

/-- **Ordering by a key** depends on the rows only. -/
theorem orderBy_eq {f : ρ → κ} {rows rows' : List ρ} (h : rows.Perm rows')
    (hinj : ∀ a ∈ rows, ∀ b ∈ rows, f a = f b → a = b) : orderBy f rows = orderBy f rows' := by
  let le : ρ → ρ → Prop := fun a b => f a ≤ f b
  have : Std.Total le := ⟨fun a b => le_total (f a) (f b)⟩
  have : IsTrans _ le := ⟨fun a b c hab hbc => le_trans hab hbc⟩
  have hperm : (orderBy f rows).Perm (orderBy f rows') :=
    (orderBy_perm f rows).trans (h.trans (orderBy_perm f rows').symm)
  refine List.Perm.eq_of_pairwise ?_ (List.pairwise_insertionSort le rows)
    (List.pairwise_insertionSort le rows') hperm
  intro a b ha hb hab hba
  have ha' : a ∈ rows := (orderBy_perm f rows).mem_iff.mp ha
  have hb' : b ∈ rows := h.mem_iff.mpr ((orderBy_perm f rows').mem_iff.mp hb)
  exact hinj a ha' b hb' (le_antisymm hab hba)

theorem orderByDesc_eq {f : ρ → κ} {rows rows' : List ρ} (h : rows.Perm rows')
    (hinj : ∀ a ∈ rows, ∀ b ∈ rows, f a = f b → a = b) : orderByDesc f rows = orderByDesc f rows' :=
  orderBy_eq h fun a ha b hb hab => hinj a ha b hb (OrderDual.toDual_inj.mp hab)

/-- **A limit leaves no gap**: the rows up to the last one are all there. -/
theorem mem_take_orderBy {f : ρ → κ} {rows : List ρ} (hinj : ∀ a ∈ rows, ∀ b ∈ rows, f a = f b → a = b) {n : Nat}
    {a b : ρ} (hb : b ∈ (orderBy f rows).take n) (ha : a ∈ rows) (hab : f a ≤ f b) : a ∈ (orderBy f rows).take n := by
  have ha' : a ∈ orderBy f rows := (orderBy_perm f rows).mem_iff.mpr ha
  have hb' : b ∈ rows := (orderBy_perm f rows).mem_iff.mp (List.mem_of_mem_take hb)
  have hsorted := orderBy_sorted f rows
  rw [← List.take_append_drop n (orderBy f rows)] at ha' hsorted
  rcases List.mem_append.mp ha' with ha' | ha'
  · exact ha'
  · -- a row beyond the limit is not before `b`, so it is `b`
    have hba : f b ≤ f a := (List.pairwise_append.mp hsorted).2.2 b hb a ha'
    rw [hinj a ha b hb' (le_antisymm hab hba)]
    exact hb

/-- The rows of two tables that `cond` selects. -/
theorem filter_perm {ρ κ : Type} [DecidableEq κ] [Keyed ρ κ] {t t' : Table ρ} {cond : ρ → Bool}
    (h : ∀ r, cond r = true → (r ∈ t.rows ↔ r ∈ t'.rows)) :
    (t.rows.filter cond).Perm (t'.rows.filter cond) := by
  have hnd : ∀ t : Table ρ, (t.rows.filter cond).Nodup := fun t => t.nodup.of_map.filter _
  rw [List.perm_ext_iff_of_nodup (hnd t) (hnd t')]
  intro r
  rw [List.mem_filter, List.mem_filter]
  exact and_congr_left (h r)

end WebBuilder.Store
