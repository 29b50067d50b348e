/-
  WebBuilder.Store.Numbered — logs with numbered entries.

  The entries of a log are rows under the name of the log and a number.  A log
  is complete if its numbers are 1, 2, …, n.  A reader asks for the entries
  after the last number that it has seen; on a complete log it gets them in
  order, and going on from there it misses nothing and sees nothing twice, even
  if the log has grown in between.

  Main results:
    * `Numbered.put` — the next entry keeps a log complete;
    * `Numbered.after_numbers` — what a reader gets;
    * `Numbered.resume` — a reader that goes on from its cursor;
    * `Numbered.last` — the largest number is the length of the log.
-/
import WebBuilder.Store.Table

namespace WebBuilder.Store

variable {ι ρ : Type} [DecidableEq ι] [Keyed ρ (ι × Nat)]

/-! ## §1. Complete logs. -/

/-- The number of an entry in its log. -/
def number (r : ρ) : Nat := (key r).2

/-- The log `i` has the entries 1, …, `n`. -/
def Numbered (t : Table ρ) (i : ι) (n : Nat) : Prop := ∀ k, (t.get? (i, k)).isSome ↔ 1 ≤ k ∧ k ≤ n

theorem Numbered.congr {t t' : Table ρ} {i : ι} {n : Nat} (h : Numbered t i n)
    (hsame : ∀ k, t'.get? (i, k) = t.get? (i, k)) : Numbered t' i n := by
  intro k
  rw [hsame]
  exact h k

theorem Numbered.none_after {t : Table ρ} {i : ι} {n : Nat} (h : Numbered t i n) {k : Nat} (hk : n < k) :
    t.get? (i, k) = none := by
  rw [← Option.not_isSome_iff_eq_none, h k]
  omega

theorem Numbered.number_le {t : Table ρ} {i : ι} {n : Nat} (h : Numbered t i n) {k : Nat} {r : ρ}
    (hr : t.get? (i, k) = some r) : 1 ≤ k ∧ k ≤ n := (h k).mp (hr ▸ rfl)

/-- A log has one length. -/
theorem Numbered.unique {t : Table ρ} {i : ι} {n m : Nat} (h : Numbered t i n) (h' : Numbered t i m) : n = m := by
  have hn := (h n).symm.trans (h' n)
  have hm := (h m).symm.trans (h' m)
  omega

theorem numbered_zero {t : Table ρ} {i : ι} (h : ∀ k, t.get? (i, k) = none) : Numbered t i 0 := by
  intro k
  rw [h k]
  simp only [Option.isSome_none, Bool.false_eq_true, false_iff]
  omega

/-- **The next entry** keeps a log complete. -/
theorem Numbered.put {t : Table ρ} {i : ι} {n : Nat} {r : ρ} (h : Numbered t i n) (hr : key r = (i, n + 1)) :
    Numbered (t.put r) i (n + 1) := by
  intro k
  rw [Table.get?_put, hr]
  by_cases hk : k = n + 1
  · subst hk
    simp
  · have hne : (i, k) ≠ (i, n + 1) := fun heq => hk (congrArg Prod.snd heq)
    rw [if_neg hne, h k]
    omega

/-- An entry that is free and at most one too far is the next one. -/
theorem Numbered.next {t : Table ρ} {i : ι} {n k : Nat} (h : Numbered t i n) (hfree : t.get? (i, k) = none)
    (hk : 1 ≤ k) (hle : k ≤ n + 1) : k = n + 1 := by
  have hused := h k
  rw [hfree] at hused
  simp only [Option.isSome_none, Bool.false_eq_true, false_iff] at hused
  omega

/-- **The largest number** is the length of the log. -/
theorem Numbered.last {t : Table ρ} {i : ι} {n : Nat} (h : Numbered t i n) :
    ((t.rows.filter fun r => (key r).1 = i).map number).foldr max 0 = n := by
  have hmem : ∀ k, k ∈ (t.rows.filter fun r => (key r).1 = i).map number ↔ 1 ≤ k ∧ k ≤ n := fun k => by
    rw [← h k, Option.isSome_iff_exists]
    simp only [List.mem_map, List.mem_filter, decide_eq_true_eq]
    constructor
    · rintro ⟨r, ⟨hr, rfl⟩, rfl⟩
      exact ⟨r, Table.mem_iff.mp hr⟩
    · rintro ⟨r, hr⟩
      have hkey := Table.key_of_get? hr
      exact ⟨r, ⟨Table.mem_of_get? hr, congrArg Prod.fst hkey⟩, congrArg Prod.snd hkey⟩
  apply le_antisymm
  · exact List.max_le_of_forall_le _ n fun k hk => ((hmem k).mp hk).2
  · by_cases hn : n = 0
    · rw [hn]
      exact Nat.zero_le _
    · exact List.le_max_of_le ((hmem n).mpr ⟨by omega, le_refl n⟩) (le_refl n)

/-! ## §2. Readers. -/

/-- The entries of the log `i` after the number `a`, in order. -/
def Table.after (t : Table ρ) (i : ι) (a : Nat) : List ρ :=
  (t.rows.filter fun r => (key r).1 = i ∧ a < (key r).2).insertionSort fun r r' => (key r).2 ≤ (key r').2

theorem mem_after {t : Table ρ} {i : ι} {a : Nat} {r : ρ} :
    r ∈ t.after i a ↔ t.get? (i, number r) = some r ∧ a < number r := by
  unfold Table.after
  rw [List.mem_insertionSort, List.mem_filter, decide_eq_true_eq, Table.mem_iff]
  constructor
  · rintro ⟨hr, rfl, ha⟩
    exact ⟨hr, ha⟩
  · rintro ⟨hr, ha⟩
    have hkey : key r = (i, number r) := Table.key_of_get? hr
    exact ⟨by rw [hkey]; exact hr, congrArg Prod.fst hkey, ha⟩

/-- The numbers of a page increase. -/
theorem after_increasing (t : Table ρ) (i : ι) (a : Nat) : ((t.after i a).map number).Pairwise (· < ·) := by
  have hsorted : (t.after i a).Pairwise fun r r' => (key r).2 ≤ (key r').2 :=
    haveI : Std.Total fun r r' : ρ => (key r).2 ≤ (key r').2 := ⟨fun r r' => Nat.le_total _ _⟩
    haveI : IsTrans ρ fun r r' : ρ => (key r).2 ≤ (key r').2 := ⟨fun _ _ _ => Nat.le_trans⟩
    List.pairwise_insertionSort _ _
  have hnodup : (t.after i a).Nodup := (List.perm_insertionSort _ _).nodup_iff.mpr (t.nodup.of_map.filter _)
  rw [List.pairwise_map]
  refine (hsorted.and hnodup).imp_of_mem fun {r r'} hr hr' h => ?_
  refine lt_of_le_of_ne h.1 fun heq => h.2 ?_
  -- two entries of one number are one row
  have hsame : (i, number r) = (i, number r') := congrArg (Prod.mk i) heq
  exact Option.some.inj ((mem_after.mp hr).1.symm.trans (hsame ▸ (mem_after.mp hr').1))

/-- **What a reader gets**: the numbers after its cursor, without gaps. -/
theorem Numbered.after_numbers {t : Table ρ} {i : ι} {n : Nat} (h : Numbered t i n) (a : Nat) :
    (t.after i a).map number = List.range' (a + 1) (n - a) := by
  refine List.Pairwise.eq_of_mem_iff (after_increasing t i a) (List.pairwise_lt_range' 1 (by omega)) fun k => ?_
  rw [List.mem_range'_1, List.mem_map]
  constructor
  · rintro ⟨r, hr, rfl⟩
    obtain ⟨hget, ha⟩ := mem_after.mp hr
    have hle := h.number_le hget
    omega
  · intro hk
    obtain ⟨r, hr⟩ := Option.isSome_iff_exists.mp ((h k).mpr ⟨by omega, by omega⟩)
    have hnumber : number r = k := congrArg Prod.snd (Table.key_of_get? hr)
    exact ⟨r, mem_after.mpr ⟨by rw [hnumber]; exact hr, by omega⟩, hnumber⟩

/-- A page is read off the table, number by number. -/
theorem Numbered.after_eq {t : Table ρ} {i : ι} {n : Nat} (h : Numbered t i n) (a : Nat) :
    t.after i a = (List.range' (a + 1) (n - a)).filterMap fun k => t.get? (i, k) := by
  rw [← h.after_numbers a, List.filterMap_map]
  have hself : ∀ r ∈ t.after i a, ((fun k => t.get? (i, k)) ∘ number) r = some r := fun r hr => (mem_after.mp hr).1
  rw [List.filterMap_congr hself]
  exact (List.filterMap_some).symm

theorem Numbered.length_after {t : Table ρ} {i : ι} {n : Nat} (h : Numbered t i n) (a : Nat) :
    (t.after i a).length = n - a := by
  rw [← List.length_map number, h.after_numbers, List.length_range']

/-- The `k`-th entry of a page is the one with its number. -/
theorem Numbered.getElem?_after {t : Table ρ} {i : ι} {n : Nat} (h : Numbered t i n) (a k : Nat) :
    (t.after i a)[k]? = t.get? (i, a + 1 + k) := by
  by_cases hk : k < n - a
  · have hlt : k < (t.after i a).length := h.length_after a ▸ hk
    have hnumber : number (t.after i a)[k] = a + 1 + k := by
      have hnumbers := congrArg (fun xs : List Nat => xs[k]?) (h.after_numbers a)
      rw [List.getElem?_map, List.getElem?_eq_getElem hlt, List.getElem?_range' hk] at hnumbers
      have hnumbers := Option.some.inj hnumbers
      omega
    rw [List.getElem?_eq_getElem hlt, ← hnumber]
    exact (mem_after.mp (List.getElem_mem hlt)).1.symm
  · rw [List.getElem?_eq_none (by rw [h.length_after]; omega), h.none_after (by omega)]

/-- Where a reader stands after a page: its last number, or where it was. -/
def cursor (page : List ρ) (a : Nat) : Nat := (page.getLast?.map number).getD a

theorem Numbered.cursor_after {t : Table ρ} {i : ι} {n : Nat} (h : Numbered t i n) (a : Nat) :
    cursor (t.after i a) a = max a n := by
  unfold cursor
  rw [← List.getLast?_map, h.after_numbers, List.getLast?_range']
  split
  · show a = max a n
    omega
  · show a + 1 + (n - a) - 1 = max a n
    omega

/-- A log that keeps its entries does not get shorter. -/
theorem Numbered.le_of_kept {t t' : Table ρ} {i : ι} {n n' : Nat} (h : Numbered t i n) (h' : Numbered t' i n')
    (hkept : ∀ k r, t.get? (i, k) = some r → t'.get? (i, k) = some r) : n ≤ n' := by
  by_cases hn : n = 0
  · omega
  · obtain ⟨r, hr⟩ := Option.isSome_iff_exists.mp ((h n).mpr ⟨by omega, le_refl n⟩)
    exact (h'.number_le (hkept n r hr)).2

/-- **Going on from the cursor**, on a log that may have grown, gives the rest. -/
theorem Numbered.resume {t t' : Table ρ} {i : ι} {n n' : Nat} (h : Numbered t i n) (h' : Numbered t' i n')
    (hkept : ∀ k r, t.get? (i, k) = some r → t'.get? (i, k) = some r) (a : Nat) :
    t.after i a ++ t'.after i (cursor (t.after i a) a) = t'.after i a := by
  have hle := h.le_of_kept h' hkept
  have hold : t.after i a = (List.range' (a + 1) (n - a)).filterMap fun k => t'.get? (i, k) := by
    rw [h.after_eq]
    refine List.filterMap_congr fun k hk => ?_
    rw [List.mem_range'_1] at hk
    obtain ⟨r, hr⟩ := Option.isSome_iff_exists.mp ((h k).mpr ⟨by omega, by omega⟩)
    rw [hr, hkept k r hr]
  rw [h.cursor_after, hold, h'.after_eq, h'.after_eq, ← List.filterMap_append]
  congr 1
  by_cases ha : a ≤ n
  · rw [max_eq_right ha, show n + 1 = a + 1 + (n - a) by omega, List.range'_append_1]
    congr 1
    omega
  · rw [max_eq_left (by omega), show n - a = 0 by omega]
    rfl

end WebBuilder.Store
