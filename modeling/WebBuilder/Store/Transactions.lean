/-
  WebBuilder.Store.Transactions — transactions under unique keys.

  A transaction flushes changes that nobody else sees, and then commits all of
  them at once or drops them.  `Transactional` keeps the committed database,
  the flushed changes of every open transaction and the log of the commits.

  A key is unique over the committed rows and all flushed ones: a database
  refuses a row whose key is committed, and makes it wait while the key is
  flushed by another transaction.

  Main results:
    * `turn_flush`, `turn_commit`, `turn_drop` — what a transaction does to the
      others: nothing, until it commits;
    * `Unique.flush`, `Unique.commit`, `Unique.drop` — a key stays unique;
    * `take_held`, `kept_release` — the others keep the locks they hold.
-/
import Mathlib.Data.List.Perm.Basic
import Mathlib.Data.List.Nodup
import Mathlib.Tactic

namespace WebBuilder.Store

/-! ## §1. Open transactions. -/

/-- A committed transaction, with the databases around its commit. -/
structure Commit (D : Type) where
  txn : Nat
  before : D
  after : D

/-- A database `D` and its open transactions, whose changes are `C`. -/
structure Transactional (D C : Type) where
  db : D
  /-- What is flushed and not committed, with its transaction. -/
  pending : List (Nat × C)
  /-- The latest commit first. -/
  commits : List (Commit D)

variable {D C R K : Type}

namespace Transactional

/-- The changes of the transaction `t`. -/
def own (s : Transactional D C) (t : Nat) : List C := (s.pending.filter fun x => x.1 == t).map Prod.snd

def flush (s : Transactional D C) (t : Nat) (c : C) : Transactional D C :=
  { s with pending := s.pending ++ [(t, c)] }

def drop (s : Transactional D C) (t : Nat) : Transactional D C :=
  { s with pending := s.pending.filter fun x => !(x.1 == t) }

def commit (apply : D → C → D) (s : Transactional D C) (t : Nat) : Transactional D C where
  db := (s.own t).foldl apply s.db
  pending := s.pending.filter fun x => !(x.1 == t)
  commits := ⟨t, s.db, (s.own t).foldl apply s.db⟩ :: s.commits

@[simp] theorem own_flush_self (s : Transactional D C) (t : Nat) (c : C) : (s.flush t c).own t = s.own t ++ [c] := by
  simp [own, flush]

theorem own_flush_of_ne (s : Transactional D C) {t u : Nat} (c : C) (h : u ≠ t) : (s.flush t c).own u = s.own u := by
  simp [own, flush, Ne.symm h]

/-- What is left without the transaction `t`. -/
theorem own_without (xs : List (Nat × C)) {t u : Nat} (h : u ≠ t) :
    (xs.filter fun x => !(x.1 == t)).filter (fun x => x.1 == u) = xs.filter fun x => x.1 == u := by
  rw [List.filter_filter]
  refine List.filter_congr fun x _ => ?_
  by_cases hx : x.1 = u
  · simp [hx, h]
  · simp [hx]

theorem own_drop_of_ne (s : Transactional D C) {t u : Nat} (h : u ≠ t) : (s.drop t).own u = s.own u :=
  congrArg (List.map Prod.snd) (own_without s.pending h)

theorem own_commit_of_ne (apply : D → C → D) (s : Transactional D C) {t u : Nat} (h : u ≠ t) :
    (s.commit apply t).own u = s.own u :=
  congrArg (List.map Prod.snd) (own_without s.pending h)

theorem mem_own {s : Transactional D C} {t : Nat} {c : C} : c ∈ s.own t ↔ (t, c) ∈ s.pending := by
  simp [own]

end Transactional

open Transactional

/-! ## §2. The turn of one transaction. -/

/-- The transaction `t` moves: the flushed changes of the others stay, and the
database changes by a commit of its own only. -/
structure Turn (apply : D → C → D) (t : Nat) (s s' : Transactional D C) : Prop where
  others : ∀ u, u ≠ t → s'.own u = s.own u
  database : (s'.db = s.db ∧ s'.commits = s.commits) ∨
    (s'.db = (s.own t).foldl apply s.db ∧ s'.commits = ⟨t, s.db, s'.db⟩ :: s.commits)

variable {apply : D → C → D} {s s' : Transactional D C} {t : Nat}

theorem turn_refl (s : Transactional D C) : Turn apply t s s := ⟨fun _ _ => rfl, .inl ⟨rfl, rfl⟩⟩

theorem turn_flush (s : Transactional D C) (c : C) : Turn apply t s (s.flush t c) :=
  ⟨fun _ hu => own_flush_of_ne s c hu, .inl ⟨rfl, rfl⟩⟩

theorem turn_drop (s : Transactional D C) : Turn apply t s (s.drop t) :=
  ⟨fun _ hu => own_drop_of_ne s hu, .inl ⟨rfl, rfl⟩⟩

theorem turn_commit (s : Transactional D C) : Turn apply t s (s.commit apply t) :=
  ⟨fun _ hu => own_commit_of_ne apply s hu, .inr ⟨rfl, rfl⟩⟩

/-- A transaction commits for itself only. -/
theorem Turn.commits_of_ne (h : Turn apply t s s') {u : Nat} (hu : u ≠ t) (hs : ∀ c ∈ s.commits, c.txn ≠ u) :
    ∀ c ∈ s'.commits, c.txn ≠ u := by
  rcases h.database with ⟨_, hcommits⟩ | ⟨_, hcommits⟩
  · rw [hcommits]
    exact hs
  · rw [hcommits]
    intro c hc
    rcases List.mem_cons.mp hc with rfl | hc
    · exact Ne.symm hu
    · exact hs c hc

/-- The log of the commits only grows. -/
theorem Turn.commits_subset (h : Turn apply t s s') : ∀ c ∈ s.commits, c ∈ s'.commits := by
  intro c hc
  rcases h.database with ⟨_, hcommits⟩ | ⟨_, hcommits⟩
  · rwa [hcommits]
  · rw [hcommits]
    exact List.mem_cons_of_mem _ hc

/-! ## §3. Unique keys. -/

section Unique

variable (rows : D → List R) (new : C → List R) (key : R → K)

/-- The rows that are flushed. -/
def flushed (s : Transactional D C) : List R := s.pending.flatMap fun x => new x.2

/-- No two rows, committed or flushed, have the same key. -/
def Unique (s : Transactional D C) : Prop := ((rows s.db ++ flushed new s).map key).Nodup

variable {rows new key}

theorem flushed_flush (s : Transactional D C) (t : Nat) (c : C) : flushed new (s.flush t c) = flushed new s ++ new c := by
  simp [flushed, Transactional.flush]

/-- The flushed rows are those of one transaction and those of the others. -/
theorem flushed_perm (s : Transactional D C) (t : Nat) :
    ((s.own t).flatMap new ++ flushed new (s.drop t)).Perm (flushed new s) := by
  have hsplit : (s.pending.filter (fun x => x.1 == t) ++ s.pending.filter fun x => !(x.1 == t)).Perm s.pending :=
    List.filter_append_perm _ _
  have hrows := hsplit.flatMap_right fun x => new x.2
  rw [List.flatMap_append] at hrows
  have hown : (s.own t).flatMap new = (s.pending.filter fun x => x.1 == t).flatMap fun x => new x.2 := by
    rw [own, List.flatMap_map]
  rw [hown]
  exact hrows

/-- The committed rows have different keys. -/
theorem Unique.committed (h : Unique rows new key s) : ((rows s.db).map key).Nodup := by
  unfold Unique at h
  rw [List.map_append] at h
  exact List.Nodup.of_append_left h

/-- A flushed row has a key that no committed one has. -/
theorem Unique.ne_of_flushed (h : Unique rows new key s) {r r' : R} (hr : r ∈ rows s.db) (hr' : r' ∈ flushed new s) :
    key r ≠ key r' := by
  unfold Unique at h
  rw [List.map_append] at h
  intro heq
  exact List.disjoint_of_nodup_append h (List.mem_map_of_mem hr) (heq ▸ List.mem_map_of_mem hr')

/-- All open transactions are gone. -/
theorem Unique.crash (h : Unique rows new key s) : Unique rows new key { s with pending := [] } := by
  show ((rows s.db ++ []).map key).Nodup
  rw [List.append_nil]
  exact h.committed

/-- **A row whose key is new** may be flushed. -/
theorem Unique.flush (h : Unique rows new key s) {c : C} (hc : ((new c).map key).Nodup)
    (hnew : ∀ r ∈ new c, ∀ r' ∈ rows s.db ++ flushed new s, key r' ≠ key r) : Unique rows new key (s.flush t c) := by
  unfold Unique
  rw [flushed_flush, ← List.append_assoc, List.map_append]
  refine List.Nodup.append h hc fun k hk hk' => ?_
  obtain ⟨r', hr', rfl⟩ := List.mem_map.mp hk
  obtain ⟨r, hr, heq⟩ := List.mem_map.mp hk'
  exact hnew r hr r' hr' heq.symm

theorem Unique.drop (h : Unique rows new key s) : Unique rows new key (s.drop t) := by
  unfold Unique at h ⊢
  have hperm := ((@flushed_perm _ _ _ new s t).append_left (rows s.db)).map key
  have hall := hperm.nodup_iff.mpr h
  rw [List.map_append] at hall ⊢
  refine List.Nodup.append (List.Nodup.of_append_left hall) ?_ ?_
  · have hright := List.Nodup.of_append_right hall
    rw [List.map_append] at hright
    exact List.Nodup.of_append_right hright
  · intro k hk hk'
    refine List.disjoint_of_nodup_append hall hk ?_
    rw [List.map_append]
    exact List.mem_append_right _ hk'

/-- **A commit** moves the keys of its transaction to the committed ones. -/
theorem Unique.commit (happly : ∀ d c, (rows (apply d c)).map key = (rows d ++ new c).map key)
    (h : Unique rows new key s) : Unique rows new key (s.commit apply t) := by
  have hfold : ∀ (cs : List C) (d : D), (rows (cs.foldl apply d)).map key = (rows d ++ cs.flatMap new).map key := by
    intro cs
    induction cs with
    | nil => simp
    | cons c cs ih =>
        intro d
        rw [List.foldl_cons, ih, List.map_append, happly, ← List.map_append, List.append_assoc, List.flatMap_cons]
  have hperm := ((@flushed_perm _ _ _ new s t).append_left (rows s.db)).map key
  have hall := hperm.nodup_iff.mpr h
  have hcommit : Unique rows new key (s.commit apply t)
      = ((rows s.db ++ ((s.own t).flatMap new ++ flushed new (s.drop t))).map key).Nodup := by
    show ((rows ((s.own t).foldl apply s.db) ++ flushed new (s.drop t)).map key).Nodup = _
    rw [List.map_append, hfold, ← List.map_append, List.append_assoc]
  rw [hcommit]
  exact hall

end Unique

/-! ## §4. Locks that are held to the end of a transaction. -/

/-- Which transaction holds what. -/
abbrev Locks (K : Type) := K → Option Nat

namespace Locks

/-- Another transaction holds `k`. -/
def busy (l : Locks K) (t : Nat) (k : K) : Bool := (l k).any fun u => u ≠ t

def take [DecidableEq K] (l : Locks K) (t : Nat) (k : K) : Locks K := Function.update l k (some t)

/-- The transaction `t` has ended. -/
def release (l : Locks K) (t : Nat) : Locks K := fun k => if l k = some t then none else l k

/-- The transaction `t` moves, and the others keep what they hold. -/
def Kept (t : Nat) (l l' : Locks K) : Prop := ∀ u, u ≠ t → ∀ k, l k = some u → l' k = some u

variable {l : Locks K} {k : K}

@[simp] theorem take_self [DecidableEq K] : l.take t k k = some t := by
  rw [take, Function.update_self]

/-- **A lock that is not busy** may be taken: nobody loses one. -/
theorem take_held [DecidableEq K] (hfree : l.busy t k = false) {u : Nat} {j : K} (h : l j = some u) :
    l.take t k j = some u := by
  by_cases hj : j = k
  · rw [hj] at h ⊢
    unfold busy at hfree
    rw [h] at hfree
    rw [take_self, show u = t by simpa using hfree]
  · rw [take, Function.update_of_ne hj]
    exact h

theorem kept_release : Kept t l (l.release t) := by
  intro u hu k hk
  have hne : l k ≠ some t := fun h => hu (Option.some.inj (hk.symm.trans h))
  unfold release
  rw [if_neg hne]
  exact hk

theorem of_release (h : l.release t k ≠ none) : l k ≠ none := by
  intro hk
  unfold release at h
  rw [hk] at h
  exact h rfl

end Locks

end WebBuilder.Store
