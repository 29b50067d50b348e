/-
  WebBuilder.Async.Pool — many coroutines on one shared state.

  A `System` says which coroutine serves a call, when a call may start, which
  answers a task can receive, and what the environment and a crash of the
  process do to the shared state.  A `Pool` holds the shared state and the
  residual coroutine of every slot; `System.step` performs one event, and
  `System.Reaches` closes it over all interleavings.

  **Soundness** (`Sound.reaches`): if every call is `Safe` from the state it
  starts in, under a rely that covers the guarantees of all other slots and
  of the environment, then every reachable pool meets the invariant and every
  task in it is still safe.  `Sound.step` says what a single further step of
  such a pool does.
-/
import WebBuilder.Async.Rules

namespace WebBuilder.Async

/-! ## §1. Systems, pools and their steps. -/

/-- The calls of a service and its environment.  `τ` are the slots that run
tasks, `κ` the calls. -/
structure System (τ κ σ ω ε δ : Type) where
  /-- The coroutine that serves a call. -/
  body : τ → κ → Co σ ω ε δ Unit
  /-- Whether a call may start in this state, and what its start changes. -/
  enter : τ → κ → σ → Option σ
  /-- Whether a task can receive this answer in this state. -/
  deliver : κ → ω → Answer ε δ → σ → Bool
  /-- A step of the environment. -/
  env : δ → σ → Option σ
  /-- A crash of the process: all tasks are gone. -/
  crash : δ → σ → Option σ

/-- A shared state and the tasks that work on it. -/
structure Pool (τ κ σ ω ε δ : Type) where
  shared : σ
  tasks : τ → Option (κ × Co σ ω ε δ Unit)

/-- One event of a run. -/
inductive Event (τ κ ε δ : Type) where
  /-- Slot `t` starts to serve the call `k`. -/
  | enter (t : τ) (k : κ)
  /-- The await of slot `t` is answered. -/
  | resume (t : τ) (a : Answer ε δ)
  /-- The environment moves. -/
  | env (d : δ)
  /-- The process crashes. -/
  | crash (d : δ)

variable {τ κ σ ω ε δ : Type} [DecidableEq τ]

/-- A slot without a task, or whose task has ended. -/
def Pool.free (p : Pool τ κ σ ω ε δ) (t : τ) : Bool :=
  match p.tasks t with
  | none => true
  | some (_, .done _) => true
  | some (_, .await ..) => false

/-- No task at all. -/
def Pool.start (s : σ) : Pool τ κ σ ω ε δ := ⟨s, fun _ => none⟩

namespace System

variable (sys : System τ κ σ ω ε δ)

/-- One event, if it can happen. -/
def step (p : Pool τ κ σ ω ε δ) : Event τ κ ε δ → Option (Pool τ κ σ ω ε δ)
  | .enter t k =>
      if p.free t then
        (sys.enter t k p.shared).map fun s =>
          ⟨s, Function.update p.tasks t (some (k, sys.body t k))⟩
      else none
  | .resume t a =>
      match p.tasks t with
      | some (k, .await op act resume) =>
          if sys.deliver k op a p.shared then
            (act a p.shared).map fun rs =>
              ⟨rs.2, Function.update p.tasks t (some (k, resume rs.1))⟩
          else none
      | _ => none
  | .env d => (sys.env d p.shared).map fun s => { p with shared := s }
  | .crash d => (sys.crash d p.shared).map Pool.start

/-- The answer of the event passes the test `ok`, if it answers an operation. -/
def passes (ok : κ → ω → Answer ε δ → σ → Bool) (p : Pool τ κ σ ω ε δ) : Event τ κ ε δ → Bool
  | .resume t a =>
      match p.tasks t with
      | some (k, .await op _ _) => ok k op a p.shared
      | _ => true
  | _ => true

/-- A sequence of events, if all of them can happen in this order and pass the
test `ok`. -/
def run (ok : κ → ω → Answer ε δ → σ → Bool) :
    List (Event τ κ ε δ) → Pool τ κ σ ω ε δ → Option (Pool τ κ σ ω ε δ)
  | [], p => some p
  | e :: es, p => if passes ok p e then (sys.step p e).bind (run ok es) else none

/-- The event meets the condition `cond` on answered operations. -/
def Meets (cond : κ → ω → Answer ε δ → σ → Prop) (p : Pool τ κ σ ω ε δ) :
    Event τ κ ε δ → Prop
  | .resume t a => ∀ k op β (act : Answer ε δ → σ → Option (Except ε β × σ)) resume,
      p.tasks t = some (k, .await op act resume) → cond k op a p.shared
  | _ => True

/-- `q` is reached from `p` by events that all meet `cond`. -/
inductive Reaches (cond : κ → ω → Answer ε δ → σ → Prop) (p : Pool τ κ σ ω ε δ) :
    Pool τ κ σ ω ε δ → Prop where
  | refl : Reaches cond p p
  | step {q q' : Pool τ κ σ ω ε δ} (e : Event τ κ ε δ) : Reaches cond p q →
      Meets cond q e → sys.step q e = some q' → Reaches cond p q'

variable {sys}

theorem Reaches.trans {cond : κ → ω → Answer ε δ → σ → Prop} {p q r : Pool τ κ σ ω ε δ}
    (h : sys.Reaches cond p q) (h' : sys.Reaches cond q r) : sys.Reaches cond p r := by
  induction h' with
  | refl => exact h
  | step e _ hm hs ih => exact .step e ih hm hs

omit [DecidableEq τ] in
theorem meets_of_passes {ok : κ → ω → Answer ε δ → σ → Bool} {cond : κ → ω → Answer ε δ → σ → Prop}
    (hok : ∀ k op a s, ok k op a s = true → cond k op a s) {p : Pool τ κ σ ω ε δ}
    {e : Event τ κ ε δ} (h : passes ok p e = true) : Meets cond p e := by
  cases e with
  | resume t a =>
      intro k op β act resume ht
      simp only [passes, ht] at h
      exact hok k op a p.shared h
  | enter t k => trivial
  | env d => trivial
  | crash d => trivial

/-- What a run ends in is reachable. -/
theorem run_reaches {ok : κ → ω → Answer ε δ → σ → Bool} {cond : κ → ω → Answer ε δ → σ → Prop}
    (hok : ∀ k op a s, ok k op a s = true → cond k op a s) :
    ∀ (es : List (Event τ κ ε δ)) {p q : Pool τ κ σ ω ε δ},
      sys.run ok es p = some q → sys.Reaches cond p q
  | [], p, q, h => by
      simp only [run, Option.some.injEq] at h
      exact h ▸ .refl
  | e :: es, p, q, h => by
      simp only [run, Option.ite_none_right_eq_some, Option.bind_eq_some_iff] at h
      obtain ⟨hpass, p', hstep, hrun⟩ := h
      exact (Reaches.step e .refl (meets_of_passes hok hpass) hstep).trans (run_reaches hok es hrun)

end System

/-! ## §2. Disciplines: who may do what. -/

/-- An invariant of the shared state and the moves of every slot (`some t`)
and of the environment (`none`). -/
structure Discipline (τ κ σ ω : Type) where
  inv : σ → Prop
  guar : Option τ → σ → σ → Prop
  /-- What has to hold while an operation of a call is pending. -/
  need : κ → ω → σ → Prop := fun _ _ _ => True

/-- The proof context of the call `k` in slot `t`: everybody else keeps to
their part of the discipline. -/
def Discipline.at (D : Discipline τ κ σ ω) (sys : System τ κ σ ω ε δ)
    (cond : κ → ω → Answer ε δ → σ → Prop) (t : τ) (k : κ) : Guard σ ω ε δ where
  inv := D.inv
  rely s s' := ∃ u, u ≠ some t ∧ D.guar u s s'
  guar := D.guar (some t)
  allow op a s := sys.deliver k op a s = true ∧ cond k op a s
  need := D.need k

/-- What has to be shown of a system, call by call. -/
structure Sound (sys : System τ κ σ ω ε δ) (cond : κ → ω → Answer ε δ → σ → Prop)
    (D : Discipline τ κ σ ω) (post : τ → κ → Except ε Unit → σ → Prop) : Prop where
  env : ∀ d s s', D.inv s → sys.env d s = some s' → D.inv s' ∧ D.guar none s s'
  enter : ∀ t k s s', D.inv s → sys.enter t k s = some s' →
    D.inv s' ∧ D.guar (some t) s s' ∧
      Safe (D.at sys cond t k) (sys.body t k) (post t k) s'
  crash : ∀ d s s', D.inv s → sys.crash d s = some s' → D.inv s'
  post : ∀ t k r, (D.at sys cond t k).Stable (post t k r)

namespace Sound

variable {sys : System τ κ σ ω ε δ} {cond : κ → ω → Answer ε δ → σ → Prop}
  {D : Discipline τ κ σ ω} {post : τ → κ → Except ε Unit → σ → Prop}

/-- A pool whose state meets the invariant and whose tasks are all safe. -/
def Good (sys : System τ κ σ ω ε δ) (cond : κ → ω → Answer ε δ → σ → Prop)
    (D : Discipline τ κ σ ω) (post : τ → κ → Except ε Unit → σ → Prop)
    (p : Pool τ κ σ ω ε δ) : Prop :=
  D.inv p.shared ∧ ∀ t k co, p.tasks t = some (k, co) →
    Safe (D.at sys cond t k) co (post t k) p.shared

omit [DecidableEq τ] in
theorem good_start {s : σ} (hs : D.inv s) : Good sys cond D post (Pool.start s) :=
  ⟨hs, fun t k co h => by simp [Pool.start] at h⟩

omit [DecidableEq τ] in
/-- A task survives a step of somebody else. -/
theorem safe_other (h : Sound sys cond D post) {t : τ} {k : κ}
    {co : Co σ ω ε δ Unit} {s s' : σ} (hco : Safe (D.at sys cond t k) co (post t k) s)
    (hs : D.inv s) (hs' : D.inv s') {u : Option τ} (hu : u ≠ some t) (hg : D.guar u s s') :
    Safe (D.at sys cond t k) co (post t k) s' :=
  Safe.after (h.post t k) (.single ⟨hs, hs', u, hu, hg⟩) hco

/-- **What one step of a good pool does**: it leads to a good pool, and
unless it is a crash it is a move of the discipline. -/
theorem step (h : Sound sys cond D post) {p q : Pool τ κ σ ω ε δ} {e : Event τ κ ε δ}
    (hp : Good sys cond D post p) (hm : System.Meets cond p e) (hstep : sys.step p e = some q) :
    Good sys cond D post q ∧
      ((∃ d, e = .crash d) ∨ ∃ u, D.guar u p.shared q.shared) := by
  obtain ⟨hinv, htasks⟩ := hp
  cases e with
  | enter t k =>
      simp only [System.step, Option.ite_none_right_eq_some, Option.map_eq_some_iff] at hstep
      obtain ⟨_, s', hent, rfl⟩ := hstep
      obtain ⟨hinv', hg, hsafe⟩ := h.enter t k _ _ hinv hent
      refine ⟨⟨hinv', fun t' k' co hco => ?_⟩, .inr ⟨_, hg⟩⟩
      by_cases ht : t' = t
      · subst ht
        simp only [Function.update_self, Option.some.injEq, Prod.mk.injEq] at hco
        obtain ⟨rfl, rfl⟩ := hco
        exact hsafe
      · simp only [Function.update_of_ne ht] at hco
        exact h.safe_other (htasks t' k' co hco) hinv hinv'
          (fun hh => ht (Option.some.inj hh).symm) hg
  | resume t a =>
      cases ht : p.tasks t with
      | none => simp [System.step, ht] at hstep
      | some kc =>
          obtain ⟨k, co⟩ := kc
          cases co with
          | done r => simp [System.step, ht] at hstep
          | await op act resume =>
              simp only [System.step, ht, Option.ite_none_right_eq_some,
                Option.map_eq_some_iff] at hstep
              obtain ⟨hdel, ⟨r, s'⟩, hact, rfl⟩ := hstep
              obtain ⟨hinv', hg, hsafe⟩ := (htasks t k _ ht p.shared .refl hinv).2 a r s'
                ⟨hdel, hm k op _ act resume ht⟩ hact trivial
              refine ⟨⟨hinv', fun t' k' co hco => ?_⟩, .inr ⟨_, hg⟩⟩
              by_cases ht' : t' = t
              · subst ht'
                simp only [Function.update_self, Option.some.injEq, Prod.mk.injEq] at hco
                obtain ⟨rfl, rfl⟩ := hco
                exact hsafe
              · simp only [Function.update_of_ne ht'] at hco
                exact h.safe_other (htasks t' k' co hco) hinv hinv'
                  (fun hh => ht' (Option.some.inj hh).symm) hg
  | env d =>
      simp only [System.step, Option.map_eq_some_iff] at hstep
      obtain ⟨s', henv, rfl⟩ := hstep
      obtain ⟨hinv', hg⟩ := h.env d _ _ hinv henv
      exact ⟨⟨hinv', fun t k co hco => h.safe_other (htasks t k co hco) hinv hinv'
        (by simp) hg⟩, .inr ⟨_, hg⟩⟩
  | crash d =>
      simp only [System.step, Option.map_eq_some_iff] at hstep
      obtain ⟨s', hcr, rfl⟩ := hstep
      exact ⟨good_start (h.crash d _ _ hinv hcr), .inl ⟨d, rfl⟩⟩

/-- An answered operation is a move of its own task. -/
theorem Good.resume {p q : Pool τ κ σ ω ε δ} (hp : Good sys cond D post p) {t : τ} {a : Answer ε δ}
    (hm : System.Meets cond p (.resume t a)) (hstep : sys.step p (.resume t a) = some q) :
    D.guar (some t) p.shared q.shared := by
  obtain ⟨hinv, htasks⟩ := hp
  cases ht : p.tasks t with
  | none => simp [System.step, ht] at hstep
  | some kc =>
      obtain ⟨k, co⟩ := kc
      cases co with
      | done r => simp [System.step, ht] at hstep
      | await op act resume =>
          simp only [System.step, ht, Option.ite_none_right_eq_some, Option.map_eq_some_iff] at hstep
          obtain ⟨hdel, ⟨r, s'⟩, hact, rfl⟩ := hstep
          exact ((htasks t k _ ht p.shared .refl hinv).2 a r s' ⟨hdel, hm k op _ act resume ht⟩ hact trivial).2.1

/-- **Soundness**: every reachable pool is good. -/
theorem reaches (h : Sound sys cond D post) {p q : Pool τ κ σ ω ε δ}
    (hp : Good sys cond D post p) (hreach : sys.Reaches cond p q) :
    Good sys cond D post q := by
  induction hreach with
  | refl => exact hp
  | step e _ hm hstep ih => exact (h.step ih hm hstep).1

omit [DecidableEq τ] in
/-- A pending operation of a good pool finds what it needs. -/
theorem Good.need {p : Pool τ κ σ ω ε δ} (hp : Good sys cond D post p) {t : τ} {k : κ} {op : ω}
    {β : Type} {act : Answer ε δ → σ → Option (Except ε β × σ)} {resume : Except ε β → Co σ ω ε δ Unit}
    (ht : p.tasks t = some (k, .await op act resume)) : D.need k op p.shared :=
  (hp.2 t k _ ht p.shared .refl hp.1).1

end Sound

end WebBuilder.Async
