/-
  WebBuilder.Async.Rules — rules for coroutines that interfere.

  `Safe g p Q s` says: run from the shared state `s`, with the other tasks
  moving only within the rely of `g` between any two awaits, every pending
  operation of `p` finds what `g` needs, every answered one keeps the
  invariant and stays within the guarantee of `g`, and when `p` ends its
  outcome and the state at that moment meet `Q`.  Coroutines are
  finite trees, so `Safe` is a recursion on the tree.

  The rules follow the constructs: `Safe.await` for one operation (pick a
  stable assertion, look at the answers), `safe_bind`, `safe_tryCatch`,
  `safe_onExit` for composition, `Safe.forEach` for loops, and
  `Safe.of_keeps` for a coroutine whose operations all stay within a relation
  that the invariant and the assertion survive.
-/
import WebBuilder.Async.Coroutine

namespace WebBuilder.Async

/-! ## §1. What one task promises and assumes. -/

/-- The proof context of one task. -/
structure Guard (σ ω ε δ : Type) where
  /-- The invariant of the shared state. -/
  inv : σ → Prop
  /-- What one step of somebody else may do. -/
  rely : σ → σ → Prop
  /-- What one step of this task does. -/
  guar : σ → σ → Prop
  /-- Which answers are considered for which operation. -/
  allow : ω → Answer ε δ → σ → Prop
  /-- What has to hold whenever the operation is pending. -/
  need : ω → σ → Prop := fun _ _ => True
  /-- What is known already of a step of this task. -/
  known : σ → σ → Prop := fun _ _ => True

variable {σ ω ε δ α β : Type}

/-- One step of somebody else between two states of the invariant. -/
def Guard.Other (g : Guard σ ω ε δ) (s s' : σ) : Prop :=
  g.inv s ∧ g.inv s' ∧ g.rely s s'

/-- Any number of steps of others. -/
def Guard.After (g : Guard σ ω ε δ) : σ → σ → Prop :=
  Relation.ReflTransGen g.Other

/-- An assertion that no step of another task can break. -/
def Guard.Stable (g : Guard σ ω ε δ) (P : σ → Prop) : Prop :=
  ∀ s s', g.inv s → g.inv s' → g.rely s s' → P s → P s'

variable {g : Guard σ ω ε δ}

theorem Guard.Stable.after {P : σ → Prop} (hP : g.Stable P) {s s' : σ}
    (h : g.After s s') (hs : P s) : P s' := by
  induction h with
  | refl => exact hs
  | tail _ hstep ih => exact hP _ _ hstep.1 hstep.2.1 hstep.2.2 ih

theorem Guard.stable_true : g.Stable fun _ => True := fun _ _ _ _ _ _ => trivial

theorem Guard.Stable.and {P P' : σ → Prop} (h : g.Stable P) (h' : g.Stable P') :
    g.Stable fun s => P s ∧ P' s :=
  fun s s' hi hi' hr hp => ⟨h s s' hi hi' hr hp.1, h' s s' hi hi' hr hp.2⟩

theorem Guard.After.inv {s s' : σ} (h : g.After s s') (hs : g.inv s) : g.inv s' := by
  induction h with
  | refl => exact hs
  | tail _ hstep _ => exact hstep.2.1

/-! ## §2. Safety of a coroutine. -/

/-- The postcondition that asks `Q` of a value and `E` of an exception. -/
def OnOutcome (Q : α → σ → Prop) (E : ε → σ → Prop) : Except ε α → σ → Prop
  | .ok a, s => Q a s
  | .error e, s => E e s

/-- Every step of `p` from `s` on finds what it needs and keeps the invariant
and the guarantee, and the outcome meets `Q`. -/
def Safe (g : Guard σ ω ε δ) : Co σ ω ε δ α → (Except ε α → σ → Prop) → σ → Prop
  | .done r, Q, s => Q r s
  | .await op act k, Q, s =>
      ∀ s₁, g.After s s₁ → g.inv s₁ → g.need op s₁ ∧ ∀ a r s₂, g.allow op a s₁ →
        act a s₁ = some (r, s₂) → g.known s₁ s₂ →
          g.inv s₂ ∧ g.guar s₁ s₂ ∧ Safe g (k r) Q s₂

@[simp] theorem safe_done (r : Except ε α) (Q : Except ε α → σ → Prop) (s : σ) :
    Safe g (.done r) Q s ↔ Q r s := Iff.rfl

@[simp] theorem safe_raise (e : ε) (Q : Except ε α → σ → Prop) (s : σ) :
    Safe g (Co.raise e) Q s ↔ Q (.error e) s := Iff.rfl

/-- **The rule of one await**: from a stable assertion `P`, look at every
answer in every state that meets the invariant and `P`. -/
theorem Safe.await {γ : Type} {op : ω} {act : Answer ε δ → σ → Option (Except ε γ × σ)}
    {k : Except ε γ → Co σ ω ε δ α} {Q : Except ε α → σ → Prop} {s : σ}
    (P : σ → Prop) (hs : P s) (hP : g.Stable P)
    (h : ∀ s₁, g.inv s₁ → P s₁ → ∀ a r s₂, g.allow op a s₁ → act a s₁ = some (r, s₂) →
      g.inv s₂ ∧ g.guar s₁ s₂ ∧ Safe g (k r) Q s₂)
    (hneed : ∀ s₁, g.inv s₁ → P s₁ → g.need op s₁) :
    Safe g (.await op act k) Q s :=
  fun s₁ haft hinv => ⟨hneed s₁ hinv (hP.after haft hs),
    fun a r s₂ hok hact _ => h s₁ hinv (hP.after haft hs) a r s₂ hok hact⟩

/-- The same rule, for a proof that uses what is known of the step. -/
theorem Safe.await_known {γ : Type} {op : ω} {act : Answer ε δ → σ → Option (Except ε γ × σ)}
    {k : Except ε γ → Co σ ω ε δ α} {Q : Except ε α → σ → Prop} {s : σ}
    (P : σ → Prop) (hs : P s) (hP : g.Stable P)
    (h : ∀ s₁, g.inv s₁ → P s₁ → ∀ a r s₂, g.allow op a s₁ → act a s₁ = some (r, s₂) → g.known s₁ s₂ →
      g.inv s₂ ∧ g.guar s₁ s₂ ∧ Safe g (k r) Q s₂)
    (hneed : ∀ s₁, g.inv s₁ → P s₁ → g.need op s₁) :
    Safe g (.await op act k) Q s :=
  fun s₁ haft hinv => ⟨hneed s₁ hinv (hP.after haft hs),
    fun a r s₂ hok hact hknown => h s₁ hinv (hP.after haft hs) a r s₂ hok hact hknown⟩

/-- Weakening the postcondition. -/
theorem Safe.mono {p : Co σ ω ε δ α} {Q Q' : Except ε α → σ → Prop} {s : σ}
    (h : Safe g p Q s) (hQ : ∀ r s, Q r s → Q' r s) : Safe g p Q' s := by
  induction p generalizing s with
  | done r => exact hQ r s h
  | await op act k ih =>
      intro s₁ haft hinv
      refine ⟨(h s₁ haft hinv).1, fun a r s₂ hok hact hknown => ?_⟩
      obtain ⟨h1, h2, h3⟩ := (h s₁ haft hinv).2 a r s₂ hok hact hknown
      exact ⟨h1, h2, ih r h3⟩

/-- **Framing**: an assertion that neither others nor this task can break
holds at the end as well. -/
theorem Safe.frame {P : σ → Prop} (hP : g.Stable P)
    (hown : ∀ s s', g.inv s → g.inv s' → g.guar s s' → P s → P s')
    {p : Co σ ω ε δ α} {Q : Except ε α → σ → Prop} {s : σ} (h : Safe g p Q s) (hs : P s) :
    Safe g p (fun r s => Q r s ∧ P s) s := by
  induction p generalizing s with
  | done r => exact ⟨h, hs⟩
  | await op act k ih =>
      intro s₁ haft hinv
      refine ⟨(h s₁ haft hinv).1, fun a r s₂ hok hact hknown => ?_⟩
      obtain ⟨h1, h2, h3⟩ := (h s₁ haft hinv).2 a r s₂ hok hact hknown
      exact ⟨h1, h2, ih r h3 (hown s₁ s₂ hinv h1 h2 (hP.after haft hs))⟩

/-- Others may move first, if the postcondition does not mind. -/
theorem Safe.after {p : Co σ ω ε δ α} {Q : Except ε α → σ → Prop}
    (hQ : ∀ r, g.Stable (Q r)) {s s' : σ} (haft : g.After s s')
    (h : Safe g p Q s) : Safe g p Q s' := by
  cases p with
  | done r => exact (hQ r).after haft h
  | await op act k => exact fun s₁ h1 => h s₁ (haft.trans h1)

/-- The postcondition that runs `f` on a returned value. -/
def Then (g : Guard σ ω ε δ) (f : α → Co σ ω ε δ β) (Q : Except ε β → σ → Prop) :
    Except ε α → σ → Prop
  | .ok a, s => Safe g (f a) Q s
  | .error e, s => Q (.error e) s

@[simp] theorem then_ok (f : α → Co σ ω ε δ β) (Q : Except ε β → σ → Prop) (a : α) (s : σ) :
    Then g f Q (.ok a) s ↔ Safe g (f a) Q s := Iff.rfl

@[simp] theorem then_error (f : α → Co σ ω ε δ β) (Q : Except ε β → σ → Prop) (e : ε) (s : σ) :
    Then g f Q (.error e) s ↔ Q (.error e) s := Iff.rfl

/-- **Sequencing**. -/
theorem safe_bind (p : Co σ ω ε δ α) (f : α → Co σ ω ε δ β)
    (Q : Except ε β → σ → Prop) (s : σ) :
    Safe g (p.bind f) Q s ↔ Safe g p (Then g f Q) s := by
  induction p generalizing s with
  | done r =>
      cases r with
      | ok a => rfl
      | error e => rfl
  | await op act k ih =>
      simp only [Co.bind, Safe]
      refine forall_congr' fun s₁ => forall_congr' fun _ => forall_congr' fun _ =>
        and_congr_right fun _ => forall_congr' fun a => forall_congr' fun r =>
        forall_congr' fun s₂ => forall_congr' fun _ => forall_congr' fun _ => forall_congr' fun _ => ?_
      rw [ih r s₂]

/-- Sequencing, in the form specifications are used: `p` is known by `R`. -/
theorem Safe.bind {p : Co σ ω ε δ α} {f : α → Co σ ω ε δ β}
    {Q : Except ε β → σ → Prop} {R : Except ε α → σ → Prop} {s : σ}
    (hp : Safe g p R s) (hok : ∀ a s', R (.ok a) s' → Safe g (f a) Q s')
    (herr : ∀ e s', R (.error e) s' → Q (.error e) s') : Safe g (p.bind f) Q s := by
  rw [safe_bind]
  refine hp.mono fun r s' h => ?_
  cases r with
  | ok a => exact hok a s' h
  | error e => exact herr e s' h

/-- The postcondition that runs the handler on an exception. -/
def Else (g : Guard σ ω ε δ) (f : ε → Co σ ω ε δ α) (Q : Except ε α → σ → Prop) :
    Except ε α → σ → Prop
  | .ok a, s => Q (.ok a) s
  | .error e, s => Safe g (f e) Q s

/-- **Exception handling**. -/
theorem safe_tryCatch (p : Co σ ω ε δ α) (f : ε → Co σ ω ε δ α)
    (Q : Except ε α → σ → Prop) (s : σ) :
    Safe g (p.tryCatch f) Q s ↔ Safe g p (Else g f Q) s := by
  induction p generalizing s with
  | done r =>
      cases r with
      | ok a => rfl
      | error e => rfl
  | await op act k ih =>
      simp only [Co.tryCatch, Safe]
      refine forall_congr' fun s₁ => forall_congr' fun _ => forall_congr' fun _ =>
        and_congr_right fun _ => forall_congr' fun a => forall_congr' fun r =>
        forall_congr' fun s₂ => forall_congr' fun _ => forall_congr' fun _ => forall_congr' fun _ => ?_
      rw [ih r s₂]

theorem Safe.tryCatch {p : Co σ ω ε δ α} {f : ε → Co σ ω ε δ α}
    {Q R : Except ε α → σ → Prop} {s : σ}
    (hp : Safe g p R s) (hok : ∀ a s', R (.ok a) s' → Q (.ok a) s')
    (herr : ∀ e s', R (.error e) s' → Safe g (f e) Q s') : Safe g (p.tryCatch f) Q s := by
  rw [safe_tryCatch]
  refine hp.mono fun r s' h => ?_
  cases r with
  | ok a => exact hok a s' h
  | error e => exact herr e s' h

theorem safe_attempt (p : Co σ ω ε δ α) (Q : Except ε (Except ε α) → σ → Prop) (s : σ) :
    Safe g p.attempt Q s ↔ Safe g p (fun r => Q (.ok r)) s := by
  induction p generalizing s with
  | done r => rfl
  | await op act k ih =>
      simp only [Co.attempt, Safe]
      refine forall_congr' fun s₁ => forall_congr' fun _ => forall_congr' fun _ =>
        and_congr_right fun _ => forall_congr' fun a => forall_congr' fun r =>
        forall_congr' fun s₂ => forall_congr' fun _ => forall_congr' fun _ => forall_congr' fun _ => ?_
      rw [ih r s₂]

/-- **`try … finally`**: the cleanup runs after every outcome. -/
theorem safe_onExit (p : Co σ ω ε δ α) (c : Co σ ω ε δ Unit)
    (Q : Except ε α → σ → Prop) (s : σ) :
    Safe g (p.onExit c) Q s ↔
      Safe g p (fun r => Safe g c (Then g (fun _ => .done r) Q)) s := by
  rw [Co.onExit, safe_bind, safe_attempt]
  refine ⟨fun h => h.mono fun r s' h' => ?_, fun h => h.mono fun r s' h' => ?_⟩
  · exact (safe_bind c _ Q s').mp h'
  · exact (safe_bind c _ Q s').mpr h'

/-- Renamed operations are allowed, and need, what their new names do. -/
theorem safe_relabel (f : ω → ω) (p : Co σ ω ε δ α) (Q : Except ε α → σ → Prop) (s : σ) :
    Safe g (p.relabel f) Q s ↔
      Safe { g with allow := fun op => g.allow (f op), need := fun op => g.need (f op) } p Q s := by
  induction p generalizing s with
  | done r => rfl
  | await op act k ih =>
      simp only [Co.relabel, Safe]
      refine forall_congr' fun s₁ => forall_congr' fun _ => forall_congr' fun _ =>
        and_congr_right fun _ => forall_congr' fun a => forall_congr' fun r =>
        forall_congr' fun s₂ => forall_congr' fun _ => forall_congr' fun _ => forall_congr' fun _ => ?_
      rw [ih r s₂]

/-- **Loops**: `I` holds before and after every round. -/
theorem Safe.forEach {γ : Type} {body : γ → Co σ ω ε δ Unit} {I : σ → Prop}
    {Q : Except ε Unit → σ → Prop} :
    ∀ (xs : List γ) (s : σ), I s →
      (∀ x ∈ xs, ∀ s, I s → Safe g (body x) (fun r s' =>
        match r with
        | .ok _ => I s'
        | .error e => Q (.error e) s') s) →
      (∀ s, I s → Q (.ok ()) s) →
      Safe g (Co.forEach xs body) Q s
  | [], s, hs, _, hQ => hQ s hs
  | x :: xs, s, hs, hbody, hQ => by
      refine Safe.bind (hbody x List.mem_cons_self s hs) ?_ ?_
      · intro _ s' hs'
        exact Safe.forEach xs s' hs' (fun y hy => hbody y (List.mem_cons_of_mem x hy)) hQ
      · intro e s' hs'
        exact hs'

/-- A coroutine whose operations all stay within `G` is safe with the
assertion `P`, if the invariant, the guarantee and `P` survive `G`. -/
theorem Safe.of_keeps {G : σ → σ → Prop} {P : σ → Prop} (hP : g.Stable P)
    (hG : ∀ s s', g.inv s → P s → G s s' → g.inv s' ∧ g.guar s s' ∧ P s')
    {p : Co σ ω ε δ α} (hp : p.Keeps G) {s : σ} (hs : P s)
    (hneed : ∀ op s, g.inv s → P s → g.need op s) :
    Safe g p (fun _ => P) s := by
  induction p generalizing s with
  | done r => exact hs
  | await op act k ih =>
      refine Safe.await P hs hP ?_ fun s₁ => hneed op s₁
      intro s₁ hinv hs₁ a r s₂ _ hact
      obtain ⟨h1, h2, h3⟩ := hG s₁ s₂ hinv hs₁ (hp.1 a s₁ r s₂ hact)
      exact ⟨h1, h2, ih r (hp.2 r) h3⟩

/-! ## §3. The awaits of a database service. -/

/-- What a transaction can do: nothing but raise, or run its body, whose
result may be replaced by a fault. -/
theorem transaction_cases {fault : ε → Bool} {body : σ → Except ε (α × σ)}
    {answer : Answer ε δ} {s s' : σ} {r : Except ε α}
    (h : (match answer with
      | .ok _ =>
          match body s with
          | .ok (a, s') => some (.ok a, s')
          | .error e => some (.error e, s)
      | .fail e => if fault e then some (.error e, s) else none
      | .lost e _ =>
          if fault e then
            match body s with
            | .ok (_, s') => some (.error e, s')
            | .error _ => some (.error e, s)
          else none
      | .late _ _ => (none : Option (Except ε α × σ))) = some (r, s')) :
    (∃ a, body s = .ok (a, s') ∧ (r = .ok a ∨ ∃ e, r = .error e ∧ fault e = true)) ∨
      (s' = s ∧ ∃ e, r = .error e ∧ (fault e = true ∨ body s = .error e)) := by
  cases answer with
  | ok d =>
      cases hb : body s with
      | ok v =>
          simp only [hb, Option.some.injEq, Prod.mk.injEq] at h
          exact .inl ⟨v.1, by rw [← h.2], .inl h.1.symm⟩
      | error e =>
          simp only [hb, Option.some.injEq, Prod.mk.injEq] at h
          exact .inr ⟨h.2.symm, e, h.1.symm, .inr rfl⟩
  | fail e =>
      simp only [Option.ite_none_right_eq_some, Option.some.injEq, Prod.mk.injEq] at h
      exact .inr ⟨h.2.2.symm, e, h.2.1.symm, .inl h.1⟩
  | lost e d =>
      cases hb : body s with
      | ok v =>
          simp only [hb, Option.ite_none_right_eq_some, Option.some.injEq, Prod.mk.injEq] at h
          exact .inl ⟨v.1, by rw [← h.2.2], .inr ⟨e, h.2.1.symm, h.1⟩⟩
      | error e' =>
          simp only [hb, Option.ite_none_right_eq_some, Option.some.injEq, Prod.mk.injEq] at h
          exact .inr ⟨h.2.2.symm, e, h.2.1.symm, .inl h.1⟩
  | late e d => simp at h

/-- **The rule of one transaction**: its body keeps invariant and guarantee,
and the postcondition holds after the commit, with the result or with a
fault, and after a rollback. -/
theorem Safe.transaction {fault : ε → Bool} {op : ω} {body : σ → Except ε (α × σ)}
    {Q : Except ε α → σ → Prop} {s : σ}
    (P : σ → Prop) (hs : P s) (hP : g.Stable P)
    (hrefl : ∀ s, g.inv s → g.guar s s)
    (hcommit : ∀ s₁ a s₂, g.inv s₁ → P s₁ → (∃ an, g.allow op an s₁) → body s₁ = .ok (a, s₂) →
      g.inv s₂ ∧ g.guar s₁ s₂ ∧ Q (.ok a) s₂ ∧ ∀ e, fault e = true → Q (.error e) s₂)
    (habort : ∀ s₁ e, g.inv s₁ → P s₁ → fault e = true ∨ body s₁ = .error e →
      Q (.error e) s₁)
    (hneed : ∀ s₁, g.inv s₁ → P s₁ → g.need op s₁) :
    Safe g (Co.transaction fault op body) Q s := by
  refine Safe.await P hs hP ?_ hneed
  intro s₁ hinv hs₁ an r s₂ hal hact
  rcases transaction_cases hact with ⟨a, hb, hr⟩ | ⟨rfl, e, rfl, he⟩
  · obtain ⟨h1, h2, h3, h4⟩ := hcommit s₁ a s₂ hinv hs₁ ⟨an, hal⟩ hb
    refine ⟨h1, h2, ?_⟩
    rcases hr with rfl | ⟨e, rfl, he⟩
    · exact h3
    · exact h4 e he
  · exact ⟨hinv, hrefl _ hinv, habort _ e hinv hs₁ he⟩

theorem Safe.query {fault : ε → Bool} {op : ω} {f : σ → α}
    {Q : Except ε α → σ → Prop} {s : σ}
    (P : σ → Prop) (hs : P s) (hP : g.Stable P)
    (hrefl : ∀ s, g.inv s → g.guar s s)
    (hread : ∀ s₁, g.inv s₁ → P s₁ → Q (.ok (f s₁)) s₁)
    (hfault : ∀ s₁ e, g.inv s₁ → P s₁ → fault e = true → Q (.error e) s₁)
    (hneed : ∀ s₁, g.inv s₁ → P s₁ → g.need op s₁) :
    Safe g (Co.query fault op f) Q s := by
  refine Safe.transaction P hs hP hrefl ?_ ?_ hneed
  · intro s₁ a s₂ hinv hs₁ _ hb
    simp only [Except.ok.injEq, Prod.mk.injEq] at hb
    obtain ⟨rfl, rfl⟩ := hb
    exact ⟨hinv, hrefl _ hinv, hread _ hinv hs₁, fun e he => hfault _ e hinv hs₁ he⟩
  · intro s₁ e hinv hs₁ he
    exact hfault s₁ e hinv hs₁ (he.resolve_right (by simp))

theorem Safe.memory {op : ω} {f : σ → α × σ} {Q : Except ε α → σ → Prop} {s : σ}
    (P : σ → Prop) (hs : P s) (hP : g.Stable P)
    (h : ∀ s₁, g.inv s₁ → P s₁ → (∃ an, g.allow op an s₁) →
      g.inv (f s₁).2 ∧ g.guar s₁ (f s₁).2 ∧ Q (.ok (f s₁).1) (f s₁).2)
    (hneed : ∀ s₁, g.inv s₁ → P s₁ → g.need op s₁) :
    Safe g (Co.memory op f) Q s := by
  refine Safe.await P hs hP ?_ hneed
  intro s₁ hinv hs₁ an r s₂ hal hact
  cases an <;> simp only [Option.some.injEq, Prod.mk.injEq, reduceCtorEq] at hact
  obtain ⟨rfl, rfl⟩ := hact
  exact h s₁ hinv hs₁ ⟨_, hal⟩

end WebBuilder.Async
