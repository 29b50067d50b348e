/-
  WebBuilder.Store.Table — rows under unique keys.

  A `Table` is a list of rows in insertion order whose keys are distinct; the
  uniqueness is a field, so no lookup has to choose.  `put` replaces the row
  under its key in place, or appends it.

  Main results:
    * `Table.get?_put`, `Table.get?_erase`, `Table.get?_eraseIf` — lookups
      after each operation;
    * `Table.mem_iff` — a row is stored exactly when it is found under its key;
    * `Table.sumOf_put` — a sum over the rows after `put` is the new row's
      share plus the sum over the rows under other keys.
-/
import Mathlib.Tactic

namespace WebBuilder.Store

/-- Rows that carry their key. -/
class Keyed (ρ : Type) (κ : outParam Type) where
  key : ρ → κ

export Keyed (key)

/-- Rows under distinct keys, in insertion order. -/
structure Table (ρ : Type) {κ : outParam Type} [Keyed ρ κ] where
  rows : List ρ
  nodup : (rows.map key).Nodup

variable {ρ κ : Type} [DecidableEq κ] [Keyed ρ κ]

/-! ## §1. Lists of rows. -/

theorem map_key_replace (rows : List ρ) (r : ρ) :
    (rows.map fun x => if key x = key r then r else x).map key = rows.map key := by
  rw [List.map_map]
  refine List.map_congr_left fun x _ => ?_
  by_cases h : key x = key r <;> simp [h]

/-- The rows after `put`. -/
def putRows (rows : List ρ) (r : ρ) : List ρ :=
  if rows.any fun x => key x = key r then
    rows.map fun x => if key x = key r then r else x
  else rows ++ [r]

theorem nodup_putRows {rows : List ρ} (h : (rows.map key).Nodup) (r : ρ) :
    ((putRows rows r).map key).Nodup := by
  unfold putRows
  split
  · rwa [map_key_replace]
  · rename_i hany
    simp only [List.any_eq_true, decide_eq_true_eq, not_exists, not_and] at hany
    rw [List.map_append, List.nodup_append]
    refine ⟨h, by simp, ?_⟩
    intro a ha b hb
    obtain ⟨x, hx, rfl⟩ := List.mem_map.mp ha
    simp only [List.map_cons, List.map_nil, List.mem_singleton] at hb
    exact hb ▸ hany x hx

theorem mem_putRows {rows : List ρ} {r x : ρ} :
    x ∈ putRows rows r ↔ x = r ∨ (x ∈ rows ∧ key x ≠ key r) := by
  unfold putRows
  split
  · rename_i hany
    simp only [List.any_eq_true, decide_eq_true_eq] at hany
    obtain ⟨y, hy, hkey⟩ := hany
    simp only [List.mem_map]
    constructor
    · rintro ⟨z, hz, rfl⟩
      by_cases h : key z = key r
      · exact .inl (if_pos h)
      · exact .inr (by simpa [h] using hz)
    · rintro (rfl | ⟨hx, hne⟩)
      · exact ⟨y, hy, if_pos hkey⟩
      · exact ⟨x, hx, if_neg hne⟩
  · rename_i hany
    simp only [List.any_eq_true, decide_eq_true_eq, not_exists, not_and] at hany
    simp only [List.mem_append, List.mem_singleton]
    constructor
    · rintro (hx | rfl)
      · exact .inr ⟨hx, hany x hx⟩
      · exact .inl rfl
    · rintro (rfl | ⟨hx, _⟩)
      · exact .inr rfl
      · exact .inl hx

namespace Table

/-! ## §2. Operations. -/

def empty : Table ρ := ⟨[], List.nodup_nil⟩

instance : Inhabited (Table ρ) := ⟨empty⟩

/-- The row under `k`. -/
def get? (t : Table ρ) (k : κ) : Option ρ := t.rows.find? fun r => key r = k

/-- Insert or replace. -/
def put (t : Table ρ) (r : ρ) : Table ρ := ⟨putRows t.rows r, nodup_putRows t.nodup r⟩

/-- Delete the rows that `cond` selects. -/
def eraseIf (t : Table ρ) (cond : ρ → Bool) : Table ρ :=
  ⟨t.rows.filter fun r => !cond r, (List.filter_sublist.map key).nodup t.nodup⟩

/-- Delete the row under `k`. -/
def erase (t : Table ρ) (k : κ) : Table ρ := t.eraseIf fun r => key r = k

/-- Rewrite the row under `k`, if it is there. -/
def modify (t : Table ρ) (k : κ) (f : ρ → ρ) : Table ρ :=
  match t.get? k with
  | some r => t.put (f r)
  | none => t

/-- Rewrite every row, keeping its key. -/
def update (t : Table ρ) (f : ρ → ρ) (hf : ∀ r, key (f r) = key r) : Table ρ :=
  ⟨t.rows.map f, by
    have h : (key ∘ f : ρ → κ) = key := funext hf
    rw [List.map_map, h]
    exact t.nodup⟩

/-- The sum of `f` over all rows. -/
def sumOf (t : Table ρ) (f : ρ → Nat) : Nat := (t.rows.map f).sum

/-! ## §3. Lookups. -/

theorem key_of_get? {t : Table ρ} {k : κ} {r : ρ} (h : t.get? k = some r) : key r = k := by
  simpa using List.find?_some h

theorem mem_of_get? {t : Table ρ} {k : κ} {r : ρ} (h : t.get? k = some r) : r ∈ t.rows :=
  List.mem_of_find?_eq_some h

omit [DecidableEq κ] in
/-- Rows under one key are one row. -/
theorem eq_of_key {t : Table ρ} {r r' : ρ} (h : r ∈ t.rows) (h' : r' ∈ t.rows)
    (hk : key r = key r') : r = r' :=
  List.inj_on_of_nodup_map t.nodup h h' hk

/-- **Stored means found**. -/
theorem mem_iff {t : Table ρ} {r : ρ} : r ∈ t.rows ↔ t.get? (key r) = some r := by
  refine ⟨fun h => ?_, mem_of_get?⟩
  cases hf : t.get? (key r) with
  | none =>
      have := List.find?_eq_none.mp hf r h
      simp at this
  | some r' => rw [eq_of_key (mem_of_get? hf) h (key_of_get? hf)]

theorem get?_eq_some {t : Table ρ} {k : κ} {r : ρ} :
    t.get? k = some r ↔ r ∈ t.rows ∧ key r = k :=
  ⟨fun h => ⟨mem_of_get? h, key_of_get? h⟩, fun ⟨h, hk⟩ => hk ▸ mem_iff.mp h⟩

theorem get?_eq_none {t : Table ρ} {k : κ} :
    t.get? k = none ↔ ∀ r ∈ t.rows, key r ≠ k := by
  simp [get?]

/-- Two tables with the same rows answer every lookup alike. -/
theorem get?_congr {t : Table ρ} {k : κ} {o : Option ρ}
    (h : ∀ r, r ∈ t.rows ∧ key r = k ↔ o = some r) : t.get? k = o := by
  cases o with
  | none =>
      rw [get?_eq_none]
      exact fun r hr hk => by simpa using (h r).mp ⟨hr, hk⟩
  | some r => exact get?_eq_some.mpr ((h r).mpr rfl)

@[simp] theorem get?_empty (k : κ) : (empty : Table ρ).get? k = none := rfl

@[simp] theorem mem_put {t : Table ρ} {r x : ρ} :
    x ∈ (t.put r).rows ↔ x = r ∨ (x ∈ t.rows ∧ key x ≠ key r) := mem_putRows

omit [DecidableEq κ] in
@[simp] theorem mem_eraseIf {t : Table ρ} {cond : ρ → Bool} {x : ρ} :
    x ∈ (t.eraseIf cond).rows ↔ x ∈ t.rows ∧ cond x = false := by
  simp [eraseIf]

@[simp] theorem mem_erase {t : Table ρ} {k : κ} {x : ρ} :
    x ∈ (t.erase k).rows ↔ x ∈ t.rows ∧ key x ≠ k := by
  simp [erase]

theorem get?_put (t : Table ρ) (r : ρ) (k : κ) :
    (t.put r).get? k = if k = key r then some r else t.get? k := by
  refine get?_congr fun x => ?_
  rw [mem_put]
  by_cases h : k = key r
  · simp only [h, if_true, Option.some.injEq]
    constructor
    · rintro ⟨rfl | ⟨_, hne⟩, hk⟩
      · rfl
      · exact absurd hk hne
    · rintro rfl
      exact ⟨.inl rfl, rfl⟩
  · simp only [h, if_false, get?_eq_some]
    constructor
    · rintro ⟨rfl | ⟨hx, _⟩, hk⟩
      · exact absurd hk.symm h
      · exact ⟨hx, hk⟩
    · rintro ⟨hx, hk⟩
      exact ⟨.inr ⟨hx, fun he => h (hk ▸ he)⟩, hk⟩

@[simp] theorem get?_put_self (t : Table ρ) (r : ρ) : (t.put r).get? (key r) = some r := by
  rw [get?_put, if_pos rfl]

theorem get?_put_ne (t : Table ρ) {r : ρ} {k : κ} (h : k ≠ key r) :
    (t.put r).get? k = t.get? k := by
  rw [get?_put, if_neg h]

theorem get?_eraseIf (t : Table ρ) (cond : ρ → Bool) (k : κ) :
    (t.eraseIf cond).get? k = (t.get? k).filter fun r => !cond r := by
  refine get?_congr fun x => ?_
  simp only [mem_eraseIf, Option.filter_eq_some_iff, get?_eq_some, Bool.not_eq_true']
  tauto

/-- A row that does not meet the condition stays. -/
theorem get?_eraseIf_of_not {t : Table ρ} {cond : ρ → Bool} {k : κ} (h : ∀ r, t.get? k = some r → cond r = false) :
    (t.eraseIf cond).get? k = t.get? k := by
  rw [get?_eraseIf]
  cases hr : t.get? k with
  | none => rfl
  | some r => simp [Option.filter, h r hr]

theorem get?_erase (t : Table ρ) (k k' : κ) :
    (t.erase k).get? k' = if k' = k then none else t.get? k' := by
  refine get?_congr fun x => ?_
  by_cases h : k' = k
  · simp only [mem_erase, h, if_true, reduceCtorEq, iff_false]
    rintro ⟨⟨_, hne⟩, hk⟩
    exact hne hk
  · simp only [mem_erase, h, if_false, get?_eq_some]
    constructor
    · rintro ⟨⟨hx, _⟩, hk⟩
      exact ⟨hx, hk⟩
    · rintro ⟨hx, hk⟩
      exact ⟨⟨hx, hk ▸ h⟩, hk⟩

@[simp] theorem get?_erase_self (t : Table ρ) (k : κ) : (t.erase k).get? k = none := by
  rw [get?_erase, if_pos rfl]

/-- A rewrite that keeps keys, seen from a lookup. -/
theorem get?_modify (t : Table ρ) (k : κ) (f : ρ → ρ) (hf : ∀ r, key (f r) = key r)
    (k' : κ) :
    (t.modify k f).get? k' = if k' = k then (t.get? k).map f else t.get? k' := by
  unfold modify
  cases h : t.get? k with
  | none =>
      by_cases hk : k' = k
      · simp [hk, h]
      · simp [hk]
  | some r =>
      have hr : key (f r) = k := by rw [hf, key_of_get? h]
      simp only [get?_put, hr, Option.map_some]

omit [DecidableEq κ] in
@[simp] theorem mem_update {t : Table ρ} {f : ρ → ρ} {hf : ∀ r, key (f r) = key r} {x : ρ} :
    x ∈ (t.update f hf).rows ↔ ∃ r ∈ t.rows, f r = x := by
  simp [update]

theorem get?_update (t : Table ρ) (f : ρ → ρ) (hf : ∀ r, key (f r) = key r) (k : κ) :
    (t.update f hf).get? k = (t.get? k).map f := by
  refine get?_congr fun x => ?_
  simp only [mem_update, Option.map_eq_some_iff, get?_eq_some]
  constructor
  · rintro ⟨⟨r, hr, rfl⟩, hk⟩
    exact ⟨r, ⟨hr, by rw [← hf, hk]⟩, rfl⟩
  · rintro ⟨r, ⟨hr, hk⟩, rfl⟩
    exact ⟨⟨r, hr, rfl⟩, by rw [hf, hk]⟩

/-! ## §4. Sums. -/

theorem sum_replace {rows : List ρ} {r x : ρ} (f : ρ → Nat) (hnd : (rows.map key).Nodup)
    (hx : x ∈ rows) (hk : key x = key r) :
    ((rows.map fun y => if key y = key r then r else y).map f).sum
      = f r + ((rows.filter fun y => !decide (key y = key r)).map f).sum := by
  induction rows with
  | nil => simp at hx
  | cons y ys ih =>
      simp only [List.map_cons, List.nodup_cons] at hnd
      by_cases hy : key y = key r
      · -- the replaced row is at the head: no other row has its key
        have hrest : ∀ z ∈ ys, key z ≠ key r := fun z hz he =>
          hnd.1 (List.mem_map.mpr ⟨z, hz, he.trans hy.symm⟩)
        have hmap : (ys.map fun z => if key z = key r then r else z) = ys := by
          conv_rhs => rw [← List.map_id ys]
          exact List.map_congr_left fun z hz => if_neg (hrest z hz)
        have hfilter : (ys.filter fun z => !decide (key z = key r)) = ys :=
          List.filter_eq_self.mpr fun z hz => by simpa using hrest z hz
        simp [hy, hmap, hfilter]
      · have hxs : x ∈ ys := by
          rcases List.mem_cons.mp hx with rfl | h
          · exact absurd hk hy
          · exact h
        have := ih hnd.2 hxs
        simp only [List.map_cons, hy, if_false, List.sum_cons, this, List.filter_cons,
          decide_false, Bool.not_false, if_true]
        omega

/-- **A sum after `put`**: the new row's share, and the rows under other keys. -/
theorem sumOf_put (t : Table ρ) (r : ρ) (f : ρ → Nat) :
    (t.put r).sumOf f = f r + (t.erase (key r)).sumOf f := by
  unfold sumOf put putRows erase eraseIf
  split
  · rename_i hany
    simp only [List.any_eq_true, decide_eq_true_eq] at hany
    obtain ⟨x, hx, hk⟩ := hany
    exact sum_replace f t.nodup hx hk
  · rename_i hany
    simp only [List.any_eq_true, decide_eq_true_eq, not_exists, not_and] at hany
    have hfilter : (t.rows.filter fun y => !decide (key y = key r)) = t.rows :=
      List.filter_eq_self.mpr fun z hz => by simpa using hany z hz
    simp only [List.map_append, List.map_cons, List.map_nil, List.sum_append, List.sum_cons,
      List.sum_nil, hfilter]
    omega

/-- Putting back a stored row changes nothing. -/
theorem putRows_self {rows : List ρ} {r : ρ} (hnd : (rows.map key).Nodup) (hr : r ∈ rows) :
    putRows rows r = rows := by
  rw [putRows, if_pos (List.any_eq_true.mpr ⟨r, hr, by simp⟩)]
  conv_rhs => rw [← List.map_id rows]
  refine List.map_congr_left fun x hx => ?_
  by_cases hk : key x = key r
  · rw [if_pos hk]
    exact (List.inj_on_of_nodup_map hnd hx hr hk).symm
  · exact if_neg hk

/-- A stored row is one share of the sum. -/
theorem sumOf_erase {t : Table ρ} {k : κ} {r : ρ} (h : t.get? k = some r) (f : ρ → Nat) :
    t.sumOf f = f r + (t.erase k).sumOf f := by
  rw [← key_of_get? h, ← sumOf_put]
  simp only [sumOf, put, putRows_self t.nodup (mem_of_get? h)]

/-- Erasing under an unused key changes no sum. -/
theorem sumOf_erase_none {t : Table ρ} {k : κ} (h : t.get? k = none) (f : ρ → Nat) :
    (t.erase k).sumOf f = t.sumOf f := by
  have hfilter : (t.rows.filter fun y => !decide (key y = k)) = t.rows :=
    List.filter_eq_self.mpr fun z hz => by simpa using get?_eq_none.mp h z hz
  simp only [sumOf, erase, eraseIf, hfilter]

omit [DecidableEq κ] in
theorem sumOf_mono {t : Table ρ} {f g : ρ → Nat} (h : ∀ r ∈ t.rows, f r ≤ g r) :
    t.sumOf f ≤ t.sumOf g :=
  List.sum_le_sum h

omit [DecidableEq κ] in
/-- Rows with different keys, each found among `rows` with no smaller share. -/
theorem sum_dominated {f g : ρ → Nat} : ∀ {rows' rows : List ρ}, (rows'.map key).Nodup →
    (∀ r' ∈ rows', ∃ r ∈ rows, key r = key r' ∧ f r' ≤ g r) → (rows'.map f).sum ≤ (rows.map g).sum
  | [], _, _, _ => Nat.zero_le _
  | x :: rows', rows, hnd, h => by
      obtain ⟨r, hr, hk, hle⟩ := h x List.mem_cons_self
      obtain ⟨front, back, rfl⟩ := List.append_of_mem hr
      rw [List.map_cons, List.nodup_cons] at hnd
      have hrest : (rows'.map f).sum ≤ ((front ++ back).map g).sum := by
        refine sum_dominated hnd.2 fun y hy => ?_
        obtain ⟨z, hz, hzk, hzle⟩ := h y (List.mem_cons_of_mem x hy)
        refine ⟨z, ?_, hzk, hzle⟩
        have hne : z ≠ r := by
          rintro rfl
          exact hnd.1 (List.mem_map.mpr ⟨y, hy, hzk.symm.trans hk⟩)
        simp only [List.mem_append, List.mem_cons] at hz ⊢
        tauto
      simp only [List.map_cons, List.sum_cons, List.map_append, List.sum_append] at hrest ⊢
      omega

/-- **Sums are dominated row by row**. -/
theorem sumOf_le {t t' : Table ρ} {f g : ρ → Nat}
    (h : ∀ k r', t'.get? k = some r' → ∃ r, t.get? k = some r ∧ f r' ≤ g r) : t'.sumOf f ≤ t.sumOf g := by
  refine sum_dominated t'.nodup fun r' hr' => ?_
  obtain ⟨r, hr, hle⟩ := h (key r') r' (mem_iff.mp hr')
  exact ⟨r, mem_of_get? hr, key_of_get? hr, hle⟩

/-- A sum after a new row. -/
theorem sumOf_put_new {t : Table ρ} {r : ρ} (h : t.get? (key r) = none) (f : ρ → Nat) :
    (t.put r).sumOf f = f r + t.sumOf f := by
  rw [sumOf_put, sumOf_erase_none h]

end Table

end WebBuilder.Store
