/-
  WebBuilder.Async.Monitor — traces of one coroutine, and monitors on them.

  A trace is the list of the operations that a coroutine has performed, each
  with its answer, the exception it raised, and the states around it.
  Between two of its operations the state moves within a relation `R`, which
  stands for everybody else.

  A monitor folds a trace into a state of its own and says which step is
  permitted in which monitor state.  `Watched` is the recursion on the tree
  of awaits that shows it of every trace (`Watched.permitted`); its rules
  follow the constructs, as those of `Safe` do.  `Co.Each` says that every
  step a coroutine can make, from whatever state, has a property, and so has
  its outcome.
-/
import WebBuilder.Async.Pool

namespace WebBuilder.Async

variable {σ ω ε δ α β μ : Type} {R : σ → σ → Prop}

/-! ## §1. Traces. -/

/-- One performed operation. -/
structure Step (σ ω ε δ : Type) where
  op : ω
  answer : Answer ε δ
  /-- The exception at the await. -/
  raised : Option ε
  before : σ
  after : σ

/-- The exception of an outcome. -/
def exception? : Except ε α → Option ε
  | .ok _ => none
  | .error e => some e

@[simp] theorem exception?_ok (a : α) : exception? (.ok a : Except ε α) = none := rfl

@[simp] theorem exception?_error (e : ε) : exception? (.error e : Except ε α) = some e := rfl

/-- From `s`, the coroutine `p` performs `steps` and has `q` left in `s'`,
while others move within `R`. -/
inductive Performs (R : σ → σ → Prop) :
    σ → Co σ ω ε δ α → List (Step σ ω ε δ) → σ → Co σ ω ε δ α → Prop where
  | nil (s : σ) (p : Co σ ω ε δ α) : Performs R s p [] s p
  | cons {s s₁ s₂ s' : σ} {β : Type} {op : ω} {act : Answer ε δ → σ → Option (Except ε β × σ)}
      {k : Except ε β → Co σ ω ε δ α} {a : Answer ε δ} {r : Except ε β}
      {steps : List (Step σ ω ε δ)} {q : Co σ ω ε δ α} :
      R s s₁ → act a s₁ = some (r, s₂) → Performs R s₂ (k r) steps s' q →
        Performs R s (.await op act k) (⟨op, a, exception? r, s₁, s₂⟩ :: steps) s' q

theorem Performs.eq_of_nil {p q : Co σ ω ε δ α} {s s' : σ} {steps : List (Step σ ω ε δ)}
    (h : Performs R s p steps s' q) (hsteps : steps = []) : s = s' := by
  induction h with
  | nil => rfl
  | cons => cases hsteps

/-- A trace ends in the state after its last operation. -/
theorem Performs.after_eq {p q : Co σ ω ε δ α} {s s' : σ} {steps pre : List (Step σ ω ε δ)} {st : Step σ ω ε δ}
    (h : Performs R s p steps s' q) (hsteps : steps = pre ++ [st]) : st.after = s' := by
  induction h generalizing pre with
  | nil s p => simp at hsteps
  | cons hR hact hrest ih =>
      cases pre with
      | nil =>
          simp only [List.nil_append, List.cons.injEq] at hsteps
          obtain ⟨rfl, hnil⟩ := hsteps
          exact hrest.eq_of_nil hnil
      | cons x pre =>
          simp only [List.cons_append, List.cons.injEq] at hsteps
          exact ih hsteps.2

namespace Co

/-- Perform the operations of `p` with the given answers, undisturbed. -/
def perform : List (Answer ε δ) → Co σ ω ε δ α → σ → Option (List (Step σ ω ε δ) × σ × Co σ ω ε δ α)
  | [], p, s => some ([], s, p)
  | a :: answers, .await op act k, s =>
      match act a s with
      | some (r, s') =>
          (perform answers (k r) s').map fun out => (⟨op, a, exception? r, s, s'⟩ :: out.1, out.2)
      | none => none
  | _ :: _, .done _, _ => none

/-- Nobody else has to move, in the states that are reached. -/
theorem perform_performs_of : ∀ (answers : List (Answer ε δ)) {p q : Co σ ω ε δ α} {s s' : σ}
    {steps : List (Step σ ω ε δ)}, perform answers p s = some (steps, s', q) →
      (∀ st ∈ steps, R st.before st.before) → Performs R s p steps s' q
  | [], p, q, s, s', steps, h, _ => by
      simp only [perform, Option.some.injEq, Prod.mk.injEq] at h
      obtain ⟨rfl, rfl, rfl⟩ := h
      exact .nil s p
  | a :: answers, .await op act k, q, s, s', steps, h, hR => by
      unfold perform at h
      split at h
      · rename_i r s₂ hact
        obtain ⟨out, hout, heq⟩ := Option.map_eq_some_iff.mp h
        obtain ⟨steps', s'', q'⟩ := out
        simp only [Prod.mk.injEq] at heq
        obtain ⟨rfl, rfl, rfl⟩ := heq
        exact .cons (hR _ List.mem_cons_self) hact
          (perform_performs_of answers hout fun st hst => hR st (List.mem_cons_of_mem _ hst))
      · cases h
  | _ :: _, .done _, _, _, _, _, h, _ => by cases h

theorem perform_performs (hR : ∀ s, R s s) (answers : List (Answer ε δ)) {p q : Co σ ω ε δ α} {s s' : σ}
    {steps : List (Step σ ω ε δ)} (h : perform answers p s = some (steps, s', q)) : Performs R s p steps s' q :=
  perform_performs_of answers h fun st _ => hR st.before

end Co

/-- A trace of a coroutine whose operations stay within a preorder stays
within it, if everybody else does. -/
theorem Co.Keeps.performs {G : σ → σ → Prop} (hrefl : ∀ s, G s s) (htrans : ∀ s t u, G s t → G t u → G s u)
    (hR : ∀ s s', R s s' → G s s') {p q : Co σ ω ε δ α} {s s' : σ} {steps : List (Step σ ω ε δ)}
    (h : Performs R s p steps s' q) (hp : p.Keeps G) : G s s' ∧ ∀ st ∈ steps, G st.after s' := by
  induction h with
  | nil s p => exact ⟨hrefl s, by simp⟩
  | cons hstep hact _ ih =>
      obtain ⟨hall, hsteps⟩ := ih (hp.2 _)
      refine ⟨htrans _ _ _ (hR _ _ hstep) (htrans _ _ _ (hp.1 _ _ _ _ hact) hall), fun st hst => ?_⟩
      rcases List.mem_cons.mp hst with rfl | hst
      · exact hall
      · exact hsteps st hst

/-! ## §2. Monitors. -/

/-- A fold over traces, and the steps it permits. -/
structure Monitor (σ ω ε δ μ : Type) where
  next : μ → Step σ ω ε δ → μ
  ok : μ → Step σ ω ε δ → Prop

/-- The monitor state after a trace. -/
def Monitor.after (M : Monitor σ ω ε δ μ) (m : μ) (steps : List (Step σ ω ε δ)) : μ :=
  steps.foldl M.next m

/-- The monitor that remembers the trace. -/
def Monitor.trace : Monitor σ ω ε δ (List (Step σ ω ε δ)) := ⟨fun steps st => steps ++ [st], fun _ _ => True⟩

theorem trace_after (steps rest : List (Step σ ω ε δ)) : Monitor.trace.after steps rest = steps ++ rest := by
  induction rest generalizing steps with
  | nil => exact (List.append_nil steps).symm
  | cons st rest ih =>
      show Monitor.trace.after (steps ++ [st]) rest = _
      rw [ih, List.append_assoc, List.singleton_append]

/-- The monitor permits every step of `p` from `s` on, and when `p` ends, its
outcome, the state and the monitor state meet `Q`. -/
def Watched (R : σ → σ → Prop) (M : Monitor σ ω ε δ μ) :
    Co σ ω ε δ α → (Except ε α → σ → μ → Prop) → σ → μ → Prop
  | .done r, Q, s, m => Q r s m
  | .await op act k, Q, s, m =>
      ∀ s₁, R s s₁ → ∀ a r s₂, act a s₁ = some (r, s₂) →
        M.ok m ⟨op, a, exception? r, s₁, s₂⟩ ∧
          Watched R M (k r) Q s₂ (M.next m ⟨op, a, exception? r, s₁, s₂⟩)

variable {M : Monitor σ ω ε δ μ} {s : σ} {m : μ}

@[simp] theorem watched_done (r : Except ε α) (Q : Except ε α → σ → μ → Prop) :
    Watched R M (.done r) Q s m ↔ Q r s m := Iff.rfl

@[simp] theorem watched_raise (e : ε) (Q : Except ε α → σ → μ → Prop) :
    Watched R M (Co.raise e) Q s m ↔ Q (.error e) s m := Iff.rfl

/-- **Soundness**: what is watched stays watched along a trace. -/
theorem Watched.performs {p q : Co σ ω ε δ α} {Q : Except ε α → σ → μ → Prop} {s' : σ}
    {steps : List (Step σ ω ε δ)} (h : Performs R s p steps s' q) (hw : Watched R M p Q s m) :
    Watched R M q Q s' (M.after m steps) := by
  induction h generalizing m with
  | nil s p => exact hw
  | cons hR hact _ ih => exact ih (hw _ hR _ _ _ hact).2

/-- **Every step of a trace is permitted** after the steps before it. -/
theorem Watched.permitted {p q : Co σ ω ε δ α} {Q : Except ε α → σ → μ → Prop} {s' : σ}
    {steps : List (Step σ ω ε δ)} (h : Performs R s p steps s' q) (hw : Watched R M p Q s m) :
    ∀ pre step post, steps = pre ++ step :: post → M.ok (M.after m pre) step := by
  induction h generalizing m with
  | nil s p =>
      intro pre step post he
      simp at he
  | cons hR hact _ ih =>
      intro pre step post he
      have hhead := hw _ hR _ _ _ hact
      cases pre with
      | nil =>
          simp only [List.nil_append, List.cons.injEq] at he
          exact he.1 ▸ hhead.1
      | cons x xs =>
          simp only [List.cons_append, List.cons.injEq] at he
          obtain ⟨rfl, hrest⟩ := he
          exact ih hhead.2 xs step post hrest

/-! ## §3. Rules. -/

/-- **The rule of one await**. -/
theorem Watched.await {γ : Type} {op : ω} {act : Answer ε δ → σ → Option (Except ε γ × σ)}
    {k : Except ε γ → Co σ ω ε δ α} {Q : Except ε α → σ → μ → Prop}
    (h : ∀ s₁, R s s₁ → ∀ a r s₂, act a s₁ = some (r, s₂) →
      M.ok m ⟨op, a, exception? r, s₁, s₂⟩ ∧
        Watched R M (k r) Q s₂ (M.next m ⟨op, a, exception? r, s₁, s₂⟩)) :
    Watched R M (.await op act k) Q s m := h

theorem Watched.mono {p : Co σ ω ε δ α} {Q Q' : Except ε α → σ → μ → Prop}
    (h : Watched R M p Q s m) (hQ : ∀ r s m, Q r s m → Q' r s m) : Watched R M p Q' s m := by
  induction p generalizing s m with
  | done r => exact hQ r s m h
  | await op act k ih =>
      intro s₁ hR a r s₂ hact
      obtain ⟨hok, hrest⟩ := h s₁ hR a r s₂ hact
      exact ⟨hok, ih r hrest⟩

/-- **Sequencing**. -/
theorem Watched.bind {p : Co σ ω ε δ α} {f : α → Co σ ω ε δ β}
    {Q : Except ε β → σ → μ → Prop} {P : Except ε α → σ → μ → Prop}
    (hp : Watched R M p P s m) (hok : ∀ a s m, P (.ok a) s m → Watched R M (f a) Q s m)
    (herr : ∀ e s m, P (.error e) s m → Q (.error e) s m) : Watched R M (p.bind f) Q s m := by
  induction p generalizing s m with
  | done r =>
      cases r with
      | ok a => exact hok a s m hp
      | error e => exact herr e s m hp
  | await op act k ih =>
      intro s₁ hR a r s₂ hact
      obtain ⟨hpermit, hrest⟩ := hp s₁ hR a r s₂ hact
      exact ⟨hpermit, ih r hrest⟩

/-- **Exception handling**. -/
theorem Watched.tryCatch {p : Co σ ω ε δ α} {f : ε → Co σ ω ε δ α}
    {Q P : Except ε α → σ → μ → Prop} (hp : Watched R M p P s m)
    (hok : ∀ a s m, P (.ok a) s m → Q (.ok a) s m)
    (herr : ∀ e s m, P (.error e) s m → Watched R M (f e) Q s m) :
    Watched R M (p.tryCatch f) Q s m := by
  induction p generalizing s m with
  | done r =>
      cases r with
      | ok a => exact hok a s m hp
      | error e => exact herr e s m hp
  | await op act k ih =>
      intro s₁ hR a r s₂ hact
      obtain ⟨hpermit, hrest⟩ := hp s₁ hR a r s₂ hact
      exact ⟨hpermit, ih r hrest⟩

theorem Watched.attempt {p : Co σ ω ε δ α} {Q : Except ε (Except ε α) → σ → μ → Prop}
    (hp : Watched R M p (fun r => Q (.ok r)) s m) : Watched R M p.attempt Q s m := by
  induction p generalizing s m with
  | done r => exact hp
  | await op act k ih =>
      intro s₁ hR a r s₂ hact
      obtain ⟨hpermit, hrest⟩ := hp s₁ hR a r s₂ hact
      exact ⟨hpermit, ih r hrest⟩

/-- The outcome of `p` is handed to `f`. -/
theorem Watched.attempt_bind {p : Co σ ω ε δ α} {f : Except ε α → Co σ ω ε δ β}
    {Q : Except ε β → σ → μ → Prop} {P : Except ε α → σ → μ → Prop} (hp : Watched R M p P s m)
    (hf : ∀ r s m, P r s m → Watched R M (f r) Q s m) : Watched R M (p.attempt.bind f) Q s m := by
  induction p generalizing s m with
  | done r => exact hf r s m hp
  | await op act k ih =>
      intro s₁ hR a r s₂ hact
      obtain ⟨hok, hrest⟩ := hp s₁ hR a r s₂ hact
      exact ⟨hok, ih r hrest⟩

/-- **`try … finally`**. -/
theorem Watched.onExit {p : Co σ ω ε δ α} {c : Co σ ω ε δ Unit}
    {Q P : Except ε α → σ → μ → Prop} (hp : Watched R M p P s m)
    (hc : ∀ r s m, P r s m → Watched R M c (fun r' s m =>
      match r' with
      | .ok _ => Q r s m
      | .error e => Q (.error e) s m) s m) : Watched R M (p.onExit c) Q s m := by
  refine Watched.bind (P := fun r s m => ∃ r', r = .ok r' ∧ P r' s m) ?_ ?_ ?_
  · exact Watched.attempt (hp.mono fun r s m h => ⟨r, rfl, h⟩)
  · rintro r s m ⟨r', heq, h⟩
    obtain rfl := Except.ok.inj heq
    exact Watched.bind (hc r s m h) (fun _ _ _ h => h) fun _ _ _ h => h
  · rintro e s m ⟨r', heq, _⟩
    cases heq

/-- **Loops**: `I` holds before and after every round. -/
theorem Watched.forEach {γ : Type} {body : γ → Co σ ω ε δ Unit} {I : σ → μ → Prop}
    {Q : Except ε Unit → σ → μ → Prop} (hbody : ∀ x s m, I s m → Watched R M (body x) (fun r s m =>
      match r with
      | .ok _ => I s m
      | .error e => Q (.error e) s m) s m)
    (hQ : ∀ s m, I s m → Q (.ok ()) s m) :
    ∀ (xs : List γ) (s : σ) (m : μ), I s m → Watched R M (Co.forEach xs body) Q s m
  | [], s, m, hs => hQ s m hs
  | x :: xs, s, m, hs =>
      Watched.bind (hbody x s m hs) (fun _ s m h => Watched.forEach hbody hQ xs s m h)
        fun _ _ _ h => h

/-- Renaming is invisible to a monitor that does not look at what is renamed. -/
theorem Watched.relabel {f : ω → ω} (hnext : ∀ m st, M.next m { st with op := f st.op } = M.next m st)
    (hok : ∀ m st, M.ok m st → M.ok m { st with op := f st.op }) {p : Co σ ω ε δ α}
    {Q : Except ε α → σ → μ → Prop} (hp : Watched R M p Q s m) : Watched R M (p.relabel f) Q s m := by
  induction p generalizing s m with
  | done r => exact hp
  | await op act k ih =>
      intro s₁ hR a r s₂ hact
      obtain ⟨hpermit, hrest⟩ := hp s₁ hR a r s₂ hact
      refine ⟨hok m ⟨op, a, exception? r, s₁, s₂⟩ hpermit, ?_⟩
      rw [hnext m ⟨op, a, exception? r, s₁, s₂⟩]
      exact ih r hrest

/-- **The rule of one transaction**: it commits, with its result or a fault, or
it rolls back. -/
theorem Watched.transaction {fault : ε → Bool} {op : ω} {body : σ → Except ε (α × σ)}
    {Q : Except ε α → σ → μ → Prop}
    (hcommit : ∀ s₁ a v e s₂, R s s₁ → body s₁ = .ok (v, s₂) → M.ok m ⟨op, a, e, s₁, s₂⟩ ∧
      Q (.ok v) s₂ (M.next m ⟨op, a, e, s₁, s₂⟩) ∧
      ∀ x, fault x = true → Q (.error x) s₂ (M.next m ⟨op, a, e, s₁, s₂⟩))
    (habort : ∀ s₁ a e, R s s₁ → fault e = true ∨ body s₁ = .error e →
      M.ok m ⟨op, a, some e, s₁, s₁⟩ ∧ Q (.error e) s₁ (M.next m ⟨op, a, some e, s₁, s₁⟩)) :
    Watched R M (Co.transaction fault op body) Q s m := by
  intro s₁ hR a r s₂ hact
  rcases transaction_cases hact with ⟨v, hb, rfl | ⟨e, rfl, he⟩⟩ | ⟨rfl, e, rfl, he⟩
  · obtain ⟨hok, hQ, _⟩ := hcommit s₁ a v none s₂ hR hb
    exact ⟨hok, hQ⟩
  · obtain ⟨hok, _, hQ⟩ := hcommit s₁ a v (some e) s₂ hR hb
    exact ⟨hok, hQ e he⟩
  · exact habort _ a e hR he

/-- The rule of one step of the memory. -/
theorem Watched.memory {op : ω} {f : σ → α × σ} {Q : Except ε α → σ → μ → Prop}
    (h : ∀ s₁ d, R s s₁ → M.ok m ⟨op, .ok d, none, s₁, (f s₁).2⟩ ∧
      Q (.ok (f s₁).1) (f s₁).2 (M.next m ⟨op, .ok d, none, s₁, (f s₁).2⟩)) :
    Watched R M (Co.memory op f) Q s m := by
  intro s₁ hR a r s₂ hact
  cases a with
  | ok d =>
      simp only [Option.some.injEq, Prod.mk.injEq] at hact
      obtain ⟨rfl, rfl⟩ := hact
      exact h s₁ d hR
  | fail e => simp at hact
  | lost e d => simp at hact
  | late e d => simp at hact

/-! ## §4. Properties of every step. -/

/-- Every step that `p` can make, from whatever states, is in `S`, and its
outcome is in `Q`. -/
def Co.Each (S : Step σ ω ε δ → Prop) : Co σ ω ε δ α → (Except ε α → Prop) → Prop
  | .done r, Q => Q r
  | .await op act k, Q =>
      ∀ a s r s', act a s = some (r, s') → S ⟨op, a, exception? r, s, s'⟩ ∧ Each S (k r) Q

/-- Every step that `p` can make is in `S`. -/
def Co.All (S : Step σ ω ε δ → Prop) (p : Co σ ω ε δ α) : Prop := p.Each S fun _ => True

section Each

variable {S : Step σ ω ε δ → Prop} {Q : Except ε α → Prop}

@[simp] theorem each_done (r : Except ε α) : Co.Each S (.done r : Co σ ω ε δ α) Q ↔ Q r := Iff.rfl

@[simp] theorem each_raise (e : ε) : Co.Each S (Co.raise e : Co σ ω ε δ α) Q ↔ Q (.error e) := Iff.rfl

@[simp] theorem all_done (r : Except ε α) : Co.All S (.done r : Co σ ω ε δ α) := trivial

@[simp] theorem all_raise (e : ε) : Co.All S (Co.raise e : Co σ ω ε δ α) := trivial

theorem Each.mono {S' : Step σ ω ε δ → Prop} {P : Except ε α → Prop} (hS : ∀ st, S st → S' st)
    (hQ : ∀ r, Q r → P r) {p : Co σ ω ε δ α} (hp : p.Each S Q) : p.Each S' P := by
  induction p with
  | done r => exact hQ r hp
  | await op act k ih =>
      intro a s r s' hact
      obtain ⟨hst, hrest⟩ := hp a s r s' hact
      exact ⟨hS _ hst, ih r hrest⟩

theorem Each.all {p : Co σ ω ε δ α} (hp : p.Each S Q) : p.All S :=
  Each.mono (fun _ h => h) (fun _ _ => trivial) hp

theorem All.mono {S' : Step σ ω ε δ → Prop} (hS : ∀ st, S st → S' st) {p : Co σ ω ε δ α}
    (hp : p.All S) : p.All S' :=
  Each.mono hS (fun _ h => h) hp

theorem Each.bind {P : Except ε β → Prop} {p : Co σ ω ε δ α} {f : α → Co σ ω ε δ β}
    (hp : p.Each S Q) (hok : ∀ a, Q (.ok a) → (f a).Each S P) (herr : ∀ e, Q (.error e) → P (.error e)) :
    (p.bind f).Each S P := by
  induction p with
  | done r =>
      cases r with
      | ok a => exact hok a hp
      | error e => exact herr e hp
  | await op act k ih =>
      intro a s r s' hact
      obtain ⟨hst, hrest⟩ := hp a s r s' hact
      exact ⟨hst, ih r hrest⟩

theorem All.bind {p : Co σ ω ε δ α} {f : α → Co σ ω ε δ β} (hp : p.All S) (hf : ∀ a, (f a).All S) :
    (p.bind f).All S :=
  Each.bind hp (fun a _ => hf a) fun _ _ => trivial

/-- Sequencing after a coroutine whose result is known. -/
theorem Each.bind_all {p : Co σ ω ε δ α} {f : α → Co σ ω ε δ β} (hp : p.Each S Q)
    (hf : ∀ a, Q (.ok a) → (f a).All S) : (p.bind f).All S :=
  Each.bind hp hf fun _ _ => trivial

theorem Each.tryCatch {P : Except ε α → Prop} {p : Co σ ω ε δ α} {h : ε → Co σ ω ε δ α}
    (hp : p.Each S Q) (hok : ∀ a, Q (.ok a) → P (.ok a)) (herr : ∀ e, Q (.error e) → (h e).Each S P) :
    (p.tryCatch h).Each S P := by
  induction p with
  | done r =>
      cases r with
      | ok a => exact hok a hp
      | error e => exact herr e hp
  | await op act k ih =>
      intro a s r s' hact
      obtain ⟨hst, hrest⟩ := hp a s r s' hact
      exact ⟨hst, ih r hrest⟩

theorem All.tryCatch {p : Co σ ω ε δ α} {h : ε → Co σ ω ε δ α} (hp : p.All S) (hh : ∀ e, (h e).All S) :
    (p.tryCatch h).All S :=
  Each.tryCatch hp (fun _ _ => trivial) fun e _ => hh e

theorem Each.attempt {P : Except ε (Except ε α) → Prop} {p : Co σ ω ε δ α}
    (hp : p.Each S fun r => P (.ok r)) : p.attempt.Each S P := by
  induction p with
  | done r => exact hp
  | await op act k ih =>
      intro a s r s' hact
      obtain ⟨hst, hrest⟩ := hp a s r s' hact
      exact ⟨hst, ih r hrest⟩

theorem All.attempt {p : Co σ ω ε δ α} (hp : p.All S) : p.attempt.All S := Each.attempt hp

theorem All.onExit {p : Co σ ω ε δ α} {c : Co σ ω ε δ Unit} (hp : p.All S) (hc : c.All S) :
    (p.onExit c).All S :=
  All.bind (All.attempt hp) fun _ => All.bind hc fun _ => trivial

theorem All.forEach {γ : Type} {body : γ → Co σ ω ε δ Unit} :
    ∀ (xs : List γ), (∀ x ∈ xs, (body x).All S) → (Co.forEach xs body).All S
  | [], _ => trivial
  | x :: xs, h =>
      All.bind (h x List.mem_cons_self) fun _ =>
        All.forEach xs fun y hy => h y (List.mem_cons_of_mem x hy)

theorem Each.relabel {f : ω → ω} (hf : ∀ st, S st → S { st with op := f st.op })
    {p : Co σ ω ε δ α} (hp : p.Each S Q) : (p.relabel f).Each S Q := by
  induction p with
  | done r => exact hp
  | await op act k ih =>
      intro a s r s' hact
      obtain ⟨hst, hrest⟩ := hp a s r s' hact
      exact ⟨hf _ hst, ih r hrest⟩

/-- What holds of every step holds of every step of a trace. -/
theorem All.performs {p q : Co σ ω ε δ α} {s' : σ} {steps : List (Step σ ω ε δ)}
    (h : Performs R s p steps s' q) (hp : p.All S) : ∀ st ∈ steps, S st := by
  induction h with
  | nil s p => simp
  | cons hR hact _ ih =>
      intro st hst
      obtain ⟨hhead, hrest⟩ := hp _ _ _ _ hact
      rcases List.mem_cons.mp hst with rfl | hst
      · exact hhead
      · exact ih hrest st hst

/-- A coroutine whose steps are all in `S` is watched, if `P` survives the
others and every step in `S`, which the monitor permits. -/
theorem Watched.of_each {P : σ → μ → Prop} (hR : ∀ s s₁ m, R s s₁ → P s m → P s₁ m)
    (hstep : ∀ st m, S st → P st.before m → M.ok m st ∧ P st.after (M.next m st))
    {p : Co σ ω ε δ α} (hp : p.Each S Q) (hs : P s m) :
    Watched R M p (fun r s m => Q r ∧ P s m) s m := by
  induction p generalizing s m with
  | done r => exact ⟨hp, hs⟩
  | await op act k ih =>
      intro s₁ hR₁ a r s₂ hact
      obtain ⟨hst, hrest⟩ := hp a s₁ r s₂ hact
      obtain ⟨hok, hP⟩ := hstep _ m hst (hR s s₁ m hR₁ hs)
      exact ⟨hok, ih r hrest hP⟩

/-- The same for the interference of a pool: the invariant, the guarantee and
`P` survive every step in `S`. -/
theorem Safe.of_each {g : Guard σ ω ε δ} {P : σ → Prop} (hP : g.Stable P)
    (hstep : ∀ st, S st → g.inv st.before → P st.before → g.known st.before st.after →
      g.inv st.after ∧ g.guar st.before st.after ∧ P st.after)
    {p : Co σ ω ε δ α} (hp : p.Each S Q) {s : σ} (hs : P s)
    (hneed : ∀ op s, g.inv s → P s → g.need op s) :
    Safe g p (fun r s => Q r ∧ P s) s := by
  induction p generalizing s with
  | done r => exact ⟨hp, hs⟩
  | await op act k ih =>
      refine Safe.await_known P hs hP ?_ fun s₁ => hneed op s₁
      intro s₁ hinv hs₁ a r s₂ _ hact hknown
      obtain ⟨hst, hrest⟩ := hp a s₁ r s₂ hact
      obtain ⟨h1, h2, h3⟩ := hstep _ hst hinv hs₁ hknown
      exact ⟨h1, h2, ih r hrest h3⟩

/-- A transaction makes one step: a rollback, or its body. -/
theorem each_transaction {fault : ε → Bool} {op : ω} {body : σ → Except ε (α × σ)}
    (hstill : ∀ a e s, S ⟨op, a, some e, s, s⟩) (hbody : ∀ a e s v s', body s = .ok (v, s') →
      S ⟨op, a, e, s, s'⟩ ∧ Q (.ok v))
    (hQ : ∀ e, Q (.error e)) : (Co.transaction fault op body : Co σ ω ε δ α).Each S Q := by
  intro an s r s' hact
  rcases transaction_cases hact with ⟨v, hb, rfl | ⟨e, rfl, _⟩⟩ | ⟨rfl, e, rfl, _⟩
  · exact hbody an none s v s' hb
  · exact ⟨(hbody an (some e) s v s' hb).1, hQ e⟩
  · exact ⟨hstill an e s', hQ e⟩

theorem each_query {fault : ε → Bool} {op : ω} {f : σ → α} (h : ∀ a e s, S ⟨op, a, e, s, s⟩)
    (hQ : ∀ s, Q (.ok (f s))) (hQe : ∀ e, Q (.error e)) :
    (Co.query fault op f : Co σ ω ε δ α).Each S Q :=
  each_transaction (fun a e s => h a (some e) s) (fun a e s v s' hb => by
    simp only [Except.ok.injEq, Prod.mk.injEq] at hb
    obtain ⟨rfl, rfl⟩ := hb
    exact ⟨h a e s, hQ s⟩) hQe

theorem each_memory {op : ω} {f : σ → α × σ} (h : ∀ a s, S ⟨op, a, none, s, (f s).2⟩)
    (hQ : ∀ s, Q (.ok (f s).1)) : (Co.memory op f : Co σ ω ε δ α).Each S Q := by
  intro a s r s' hact
  cases a <;> simp only [Option.some.injEq, Prod.mk.injEq, reduceCtorEq] at hact
  obtain ⟨rfl, rfl⟩ := hact
  exact ⟨h _ s, hQ s⟩

end Each

/-! ## §5. One error post for all exceptions. -/

/-- `p` is watched; if it returns, `Q` holds, and if it raises, `E` does. -/
def Leads (R : σ → σ → Prop) (M : Monitor σ ω ε δ μ) (E : ε → σ → μ → Prop) (p : Co σ ω ε δ α)
    (Q : α → σ → μ → Prop) (s : σ) (m : μ) : Prop :=
  Watched R M p (fun r s m =>
    match r with
    | .ok a => Q a s m
    | .error e => E e s m) s m

section Leads

variable {E : ε → σ → μ → Prop} {Q : α → σ → μ → Prop}

@[simp] theorem leads_done_ok (a : α) : Leads R M E (.done (.ok a)) Q s m ↔ Q a s m := Iff.rfl

@[simp] theorem leads_raise (e : ε) : Leads R M E (Co.raise e) Q s m ↔ E e s m := Iff.rfl

theorem Leads.mono {p : Co σ ω ε δ α} {Q' : α → σ → μ → Prop} (h : Leads R M E p Q s m)
    (hQ : ∀ a s m, Q a s m → Q' a s m) : Leads R M E p Q' s m := by
  refine Watched.mono h fun r s m hr => ?_
  cases r with
  | ok a => exact hQ a s m hr
  | error e => exact hr

/-- **Sequencing**: only what returns goes on. -/
theorem Leads.bind {p : Co σ ω ε δ α} {f : α → Co σ ω ε δ β} {P : α → σ → μ → Prop} {Q : β → σ → μ → Prop}
    (hp : Leads R M E p P s m) (hf : ∀ a s m, P a s m → Leads R M E (f a) Q s m) :
    Leads R M E (p.bind f) Q s m :=
  Watched.bind hp hf fun _ _ _ h => h

theorem Leads.tryCatch {p : Co σ ω ε δ α} {h : ε → Co σ ω ε δ α} {E' : ε → σ → μ → Prop}
    (hp : Leads R M E' p Q s m) (hh : ∀ e s m, E' e s m → Leads R M E (h e) Q s m) :
    Leads R M E (p.tryCatch h) Q s m :=
  Watched.tryCatch hp (fun _ _ _ hr => hr) hh

/-- A coroutine whose steps are all in `S` keeps what every such step keeps. -/
theorem Leads.of_all {S : Step σ ω ε δ → Prop} {P : σ → μ → Prop} {p : Co σ ω ε δ α}
    (hp : p.All S) (hR : ∀ s s₁ m, R s s₁ → P s m → P s₁ m)
    (hstep : ∀ st m, S st → P st.before m → M.ok m st ∧ P st.after (M.next m st))
    (hE : ∀ e s m, P s m → E e s m) (hs : P s m) : Leads R M E p (fun _ => P) s m := by
  refine Watched.mono (Watched.of_each hR hstep hp hs) fun r s m hr => ?_
  cases r with
  | ok a => exact hr.2
  | error e => exact hE e s m hr.2

end Leads

end WebBuilder.Async
