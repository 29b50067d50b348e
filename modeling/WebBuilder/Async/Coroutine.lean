/-
  WebBuilder.Async.Coroutine — coroutines as trees of awaited operations.

  A cooperative task of a single-threaded event loop runs without
  interruption between two awaits.  All that other tasks, the database and
  remote services can observe is the sequence of its awaits, so a coroutine
  is modelled as the tree of those: a leaf is a returned value or a raised
  exception, a node is one awaited operation, and its children are what the
  coroutine does with the answer.

  The environment answers each await (`Answer`): the operation took effect
  and its result arrived, it had no effect and an exception is raised at the
  await, it took effect although an exception is raised (a lost
  acknowledgement, or a cancellation while waiting), or the request is left
  in flight.

  Main definitions:
    * `Co` — the coroutine monad, with exceptions (`Co.tryCatch`,
      `Co.onExit`) and loops over lists (`Co.forEach`);
    * `Co.transaction`, `Co.query`, `Co.memory` — the awaits of a service
      that talks to a database and to its own memory;
    * `Co.Keeps` — every single operation of a coroutine stays within a
      relation, whatever the state it starts from.
-/
import Mathlib.Tactic

namespace WebBuilder.Async

/-! ## §1. The tree of awaits. -/

/-- How the environment answers one awaited operation.  `ε` are the
exceptions, `δ` the data only the environment can choose. -/
inductive Answer (ε δ : Type) where
  /-- The operation takes effect and its result arrives. -/
  | ok (d : δ)
  /-- The operation has no effect; `e` is raised at the await. -/
  | fail (e : ε)
  /-- The operation takes effect, but `e` is raised at the await. -/
  | lost (e : ε) (d : δ)
  /-- `e` is raised at the await and the request stays in flight. -/
  | late (e : ε) (d : δ)
  deriving DecidableEq

/-- A coroutine over the shared state `σ` that returns an `α` or raises an
`ε`.  Every await carries a label `op : ω` that names it. -/
inductive Co (σ ω ε δ α : Type) : Type 1 where
  | done (r : Except ε α)
  | await {β : Type} (op : ω)
      (act : Answer ε δ → σ → Option (Except ε β × σ))
      (resume : Except ε β → Co σ ω ε δ α)

namespace Co

variable {σ ω ε δ α β : Type}

/-- Run `p`, hand its result to `f`; an exception skips `f`. -/
def bind : Co σ ω ε δ α → (α → Co σ ω ε δ β) → Co σ ω ε δ β
  | .done (.ok a), f => f a
  | .done (.error e), _ => .done (.error e)
  | .await op act k, f => .await op act (fun r => (k r).bind f)

instance : Monad (Co σ ω ε δ) where
  pure a := .done (.ok a)
  bind := bind

/-- Raise an exception. -/
def raise (e : ε) : Co σ ω ε δ α := .done (.error e)

/-- `try p except e: h e`. -/
def tryCatch : Co σ ω ε δ α → (ε → Co σ ω ε δ α) → Co σ ω ε δ α
  | .done (.ok a), _ => .done (.ok a)
  | .done (.error e), h => h e
  | .await op act k, h => .await op act (fun r => (k r).tryCatch h)

/-- The outcome of `p` as a value: nothing escapes. -/
def attempt : Co σ ω ε δ α → Co σ ω ε δ (Except ε α)
  | .done r => .done (.ok r)
  | .await op act k => .await op act (fun r => (k r).attempt)

/-- `try p finally: cleanup`.  An exception of `cleanup` replaces the
outcome of `p`. -/
def onExit (p : Co σ ω ε δ α) (cleanup : Co σ ω ε δ Unit) : Co σ ω ε δ α :=
  p.attempt.bind fun r => cleanup.bind fun _ => .done r

/-- `for x in xs: body(x)`. -/
def forEach {γ : Type} : List γ → (γ → Co σ ω ε δ Unit) → Co σ ω ε δ Unit
  | [], _ => .done (.ok ())
  | x :: xs, body => (body x).bind fun _ => forEach xs body

/-- Rename every operation of `p`. -/
def relabel (f : ω → ω) : Co σ ω ε δ α → Co σ ω ε δ α
  | .done r => .done r
  | .await op act k => .await (f op) act (fun r => (k r).relabel f)

@[simp] theorem pure_def (a : α) : (pure a : Co σ ω ε δ α) = .done (.ok a) := rfl

@[simp] theorem bind_def (p : Co σ ω ε δ α) (f : α → Co σ ω ε δ β) :
    p >>= f = p.bind f := rfl

@[simp] theorem done_ok_bind (a : α) (f : α → Co σ ω ε δ β) :
    (Co.done (.ok a) : Co σ ω ε δ α).bind f = f a := rfl

@[simp] theorem done_error_bind (e : ε) (f : α → Co σ ω ε δ β) :
    (Co.done (.error e) : Co σ ω ε δ α).bind f = .done (.error e) := rfl

@[simp] theorem raise_bind (e : ε) (f : α → Co σ ω ε δ β) :
    (raise e : Co σ ω ε δ α).bind f = raise e := rfl

/-! ## §2. The awaits of a database service. -/

/-- One committed database transaction, or one memory-and-clock step of a
remote service: `body` runs on the current state.  An exception raised by
`body` rolls it back.  `fault` are the exceptions the environment may raise
in its place, before or after the commit. -/
def transaction (fault : ε → Bool) (op : ω) (body : σ → Except ε (α × σ)) :
    Co σ ω ε δ α :=
  .await op
    (fun answer s =>
      match answer with
      | .ok _ =>
          match body s with
          | .ok (a, s') => some (.ok a, s')
          | .error e => some (.error e, s)
      | .fail e => if fault e then some (.error e, s) else none
      | .lost e _ =>
          if fault e then
            match body s with
            | .ok (_, s') => some (.error e, s')
            | .error _ => some (.error e, s)
          else none
      | .late _ _ => none)
    .done

/-- A read: nothing changes. -/
def query (fault : ε → Bool) (op : ω) (f : σ → α) : Co σ ω ε δ α :=
  transaction fault op fun s => .ok (f s, s)

/-- The code between two awaits, on the memory of the process: it runs at
once and cannot be interrupted. -/
def memory (op : ω) (f : σ → α × σ) : Co σ ω ε δ α :=
  .await op
    (fun answer s =>
      match answer with
      | .ok _ => some (.ok (f s).1, (f s).2)
      | _ => none)
    .done

/-- Whether the coroutine has returned a value. -/
def returned : Co σ ω ε δ α → Bool
  | .done (.ok _) => true
  | _ => false

/-! ## §3. Operations that stay within a relation. -/

/-- Every operation of `p`, from whatever state, moves within `G`. -/
def Keeps (G : σ → σ → Prop) : Co σ ω ε δ α → Prop
  | .done _ => True
  | .await _ act k =>
      (∀ a s r s', act a s = some (r, s') → G s s') ∧ ∀ r, Keeps G (k r)

section Keeps

variable {G : σ → σ → Prop}

@[simp] theorem keeps_done (r : Except ε α) : Keeps G (.done r : Co σ ω ε δ α) := trivial

@[simp] theorem keeps_raise (e : ε) : Keeps G (raise e : Co σ ω ε δ α) := trivial

theorem Keeps.bind {p : Co σ ω ε δ α} {f : α → Co σ ω ε δ β}
    (hp : Keeps G p) (hf : ∀ a, Keeps G (f a)) : Keeps G (p.bind f) := by
  induction p with
  | done r =>
      cases r with
      | ok a => exact hf a
      | error e => trivial
  | await op act k ih => exact ⟨hp.1, fun r => ih r (hp.2 r)⟩

theorem Keeps.tryCatch {p : Co σ ω ε δ α} {h : ε → Co σ ω ε δ α}
    (hp : Keeps G p) (hh : ∀ e, Keeps G (h e)) : Keeps G (p.tryCatch h) := by
  induction p with
  | done r =>
      cases r with
      | ok a => trivial
      | error e => exact hh e
  | await op act k ih => exact ⟨hp.1, fun r => ih r (hp.2 r)⟩

theorem Keeps.attempt {p : Co σ ω ε δ α} (hp : Keeps G p) : Keeps G p.attempt := by
  induction p with
  | done r => trivial
  | await op act k ih => exact ⟨hp.1, fun r => ih r (hp.2 r)⟩

theorem Keeps.onExit {p : Co σ ω ε δ α} {c : Co σ ω ε δ Unit}
    (hp : Keeps G p) (hc : Keeps G c) : Keeps G (p.onExit c) :=
  hp.attempt.bind fun _ => hc.bind fun _ => trivial

theorem Keeps.forEach {γ : Type} {body : γ → Co σ ω ε δ Unit} :
    ∀ (xs : List γ), (∀ x ∈ xs, Keeps G (body x)) → Keeps G (forEach xs body)
  | [], _ => trivial
  | x :: xs, h =>
      (h x List.mem_cons_self).bind fun _ =>
        Keeps.forEach xs fun y hy => h y (List.mem_cons_of_mem x hy)

theorem Keeps.relabel {f : ω → ω} {p : Co σ ω ε δ α} (hp : Keeps G p) : Keeps G (p.relabel f) := by
  induction p with
  | done r => trivial
  | await op act k ih => exact ⟨hp.1, fun r => ih r (hp.2 r)⟩

theorem Keeps.mono {H : σ → σ → Prop} (hGH : ∀ s s', G s s' → H s s')
    {p : Co σ ω ε δ α} (hp : Keeps G p) : Keeps H p := by
  induction p with
  | done r => trivial
  | await op act k ih =>
      exact ⟨fun a s r s' h => hGH s s' (hp.1 a s r s' h), fun r => ih r (hp.2 r)⟩

/-- A transaction stays within a reflexive relation as soon as its body does. -/
theorem keeps_transaction {fault : ε → Bool} {op : ω} {body : σ → Except ε (α × σ)}
    (hrefl : ∀ s, G s s) (h : ∀ s a s', body s = .ok (a, s') → G s s') :
    Keeps G (transaction fault op body : Co σ ω ε δ α) := by
  refine ⟨?_, fun _ => trivial⟩
  intro answer s r s' hact
  cases answer with
  | ok d =>
      cases hb : body s with
      | ok v =>
          simp only [hb, Option.some.injEq, Prod.mk.injEq] at hact
          exact hact.2 ▸ h s v.1 v.2 hb
      | error e =>
          simp only [hb, Option.some.injEq, Prod.mk.injEq] at hact
          exact hact.2 ▸ hrefl s
  | fail e =>
      simp only [Option.ite_none_right_eq_some, Option.some.injEq, Prod.mk.injEq] at hact
      exact hact.2.2 ▸ hrefl s
  | lost e d =>
      cases hb : body s with
      | ok v =>
          simp only [hb, Option.ite_none_right_eq_some, Option.some.injEq, Prod.mk.injEq] at hact
          exact hact.2.2 ▸ h s v.1 v.2 hb
      | error e =>
          simp only [hb, Option.ite_none_right_eq_some, Option.some.injEq, Prod.mk.injEq] at hact
          exact hact.2.2 ▸ hrefl s
  | late e d => simp at hact

theorem keeps_query {fault : ε → Bool} {op : ω} {f : σ → α} (hrefl : ∀ s, G s s) :
    Keeps G (query fault op f : Co σ ω ε δ α) :=
  keeps_transaction hrefl fun s a s' h => by
    simp only [Except.ok.injEq, Prod.mk.injEq] at h
    exact h.2 ▸ hrefl s

theorem keeps_memory {op : ω} {f : σ → α × σ} (h : ∀ s, G s (f s).2) :
    Keeps G (memory op f : Co σ ω ε δ α) := by
  refine ⟨?_, fun _ => trivial⟩
  intro answer s r s' hact
  cases answer <;> simp only [Option.some.injEq, Prod.mk.injEq, reduceCtorEq] at hact
  exact hact.2 ▸ h s

end Keeps

end Co

end WebBuilder.Async
