/-
  WebBuilder.Async.Closed — classes of coroutines that control flow keeps.

  Most of a coroutine is control flow around a few operations.  A class of
  coroutines is closed if it contains every finished one and sequencing,
  handlers and renaming do not lead out of it; then loops, `finally` blocks
  and captured outcomes do not either.  What holds of the operations holds of
  the whole, for any such class.

  Main results:
    * `closed_within` — the coroutines whose steps stay within a relation;
    * `closed_holds` — the coroutines that start and end in an assertion and
      keep the invariant between;
    * `System.invariant` — an invariant that every step of every call keeps
      holds in every reachable state;
    * `System.holds_sound` — so does one that every call keeps with what it knows
      when it takes the step;
    * `System.advances` — what every step respects, a whole run respects;
    * `Sound.over`, `SoundOver.of_holds` — disciplines on top of a sound one.
-/
import WebBuilder.Async.Layers
import WebBuilder.Async.Monitor

namespace WebBuilder.Async

variable {σ ω ε δ : Type}

/-! ## §1. Closed classes. -/

/-- Whatever `p` returns is in `Q`. -/
def Co.Returns {α : Type} (p : Co σ ω ε δ α) (Q : α → Prop) : Prop :=
  p.Each (fun _ => True) fun r => ∀ a, r = .ok a → Q a

/-- A class of coroutines that control flow does not leave. -/
structure Closed (Φ : ∀ {α : Type}, Co σ ω ε δ α → Prop) : Prop where
  done : ∀ {α : Type} (r : Except ε α), Φ (.done r : Co σ ω ε δ α)
  bindReturns : ∀ {α β : Type} {p : Co σ ω ε δ α} {f : α → Co σ ω ε δ β} (Q : α → Prop),
    Φ p → p.Returns Q → (∀ a, Q a → Φ (f a)) → Φ (p.bind f)
  tryCatch : ∀ {α : Type} {p : Co σ ω ε δ α} {h : ε → Co σ ω ε δ α}, Φ p → (∀ e, Φ (h e)) → Φ (p.tryCatch h)
  relabel : ∀ {α : Type} {p : Co σ ω ε δ α} (f : ω → ω), Φ p → Φ (p.relabel f)

/-- The outcome of `p` is captured by a handler. -/
theorem Co.attempt_eq {α : Type} (p : Co σ ω ε δ α) :
    p.attempt = (p.bind fun a => .done (.ok (.ok a))).tryCatch fun e => .done (.ok (.error e)) := by
  induction p with
  | done r => cases r <;> rfl
  | await op act k ih =>
      show Co.await op act _ = Co.await op act _
      exact congrArg _ (funext ih)

/-! ### Returned values. -/

section Returns

variable {α β : Type} {Q : α → Prop}

/-- Without a condition on steps and outcomes there is nothing to show. -/
theorem Each.of_pure {S : Step σ ω ε δ → Prop} {Q : Except ε α → Prop} (hS : ∀ st, S st) (hQ : ∀ r, Q r)
    (p : Co σ ω ε δ α) : p.Each S Q := by
  induction p with
  | done r => exact hQ r
  | await op act k ih => exact fun a s r s' _ => ⟨hS _, ih r⟩

theorem returns_true (p : Co σ ω ε δ α) : p.Returns fun _ => True :=
  Each.of_pure (fun _ => trivial) (fun _ _ _ => trivial) p

theorem returns_done (r : Except ε α) (h : ∀ a, r = .ok a → Q a) : (.done r : Co σ ω ε δ α).Returns Q := h

theorem returns_raise (e : ε) : (Co.raise e : Co σ ω ε δ α).Returns Q := fun _ h => by cases h

theorem Co.Returns.bind {P : β → Prop} {p : Co σ ω ε δ α} {f : α → Co σ ω ε δ β} (hp : p.Returns Q)
    (hf : ∀ a, Q a → (f a).Returns P) : (p.bind f).Returns P :=
  Each.bind hp (fun a ha => hf a (ha a rfl)) fun _ _ _ h => by cases h

theorem Co.Returns.tryCatch {p : Co σ ω ε δ α} {h : ε → Co σ ω ε δ α} (hp : p.Returns Q)
    (hh : ∀ e, (h e).Returns Q) : (p.tryCatch h).Returns Q :=
  Each.tryCatch hp (fun _ ha => ha) fun e _ => hh e

/-- What is known of the steps and what is known of the returned value. -/
theorem Each.returns {S : Step σ ω ε δ → Prop} {R : Except ε α → Prop} {p : Co σ ω ε δ α} (hp : p.Each S R)
    (hQ : p.Returns Q) : p.Each S fun r => R r ∧ ∀ a, r = .ok a → Q a := by
  induction p with
  | done r => exact ⟨hp, hQ⟩
  | await op act k ih =>
      intro a s r s' hact
      obtain ⟨hst, hrest⟩ := hp a s r s' hact
      exact ⟨hst, ih r hrest (hQ a s r s' hact).2⟩

theorem Safe.returns {g : Guard σ ω ε δ} {R : Except ε α → σ → Prop} {p : Co σ ω ε δ α} {s : σ}
    (hp : Safe g p R s) (hQ : p.Returns Q) : Safe g p (fun r s => R r s ∧ ∀ a, r = .ok a → Q a) s := by
  induction p generalizing s with
  | done r => exact ⟨hp, hQ⟩
  | await op act k ih =>
      intro s₁ haft hinv
      refine ⟨(hp s₁ haft hinv).1, fun a r s₂ hok hact hknown => ?_⟩
      obtain ⟨hinv', hguar, hrest⟩ := (hp s₁ haft hinv).2 a r s₂ hok hact hknown
      exact ⟨hinv', hguar, ih r hrest (hQ a s₁ r s₂ hact).2⟩

end Returns

namespace Closed

variable {Φ : ∀ {α : Type}, Co σ ω ε δ α → Prop} {α β γ : Type}

theorem bind (h : Closed Φ) {p : Co σ ω ε δ α} {f : α → Co σ ω ε δ β} (hp : Φ p) (hf : ∀ a, Φ (f a)) :
    Φ (p.bind f) :=
  h.bindReturns (fun _ => True) hp (returns_true p) fun a _ => hf a

theorem raise (h : Closed Φ) (e : ε) : Φ (Co.raise e : Co σ ω ε δ α) := h.done (.error e)

theorem attempt (h : Closed Φ) {p : Co σ ω ε δ α} (hp : Φ p) : Φ p.attempt := by
  rw [Co.attempt_eq]
  exact h.tryCatch (h.bind hp fun a => h.done _) fun e => h.done _

theorem onExit (h : Closed Φ) {p : Co σ ω ε δ α} {c : Co σ ω ε δ Unit} (hp : Φ p) (hc : Φ c) :
    Φ (p.onExit c) :=
  h.bind (h.attempt hp) fun r => h.bind hc fun _ => h.done r

theorem forEach (h : Closed Φ) {body : γ → Co σ ω ε δ Unit} :
    ∀ (xs : List γ), (∀ x ∈ xs, Φ (body x)) → Φ (Co.forEach xs body)
  | [], _ => h.done _
  | x :: xs, hbody =>
      h.bind (hbody x List.mem_cons_self) fun _ =>
        h.forEach xs fun y hy => hbody y (List.mem_cons_of_mem x hy)

end Closed

/-! ## §2. Steps within a relation. -/

/-- Every step that `p` can make moves within `G`. -/
abbrev Co.Within {α : Type} (G : σ → σ → Prop) (p : Co σ ω ε δ α) : Prop :=
  p.All fun st => G st.before st.after

theorem closed_within (G : σ → σ → Prop) : Closed (fun {α : Type} (p : Co σ ω ε δ α) => p.Within G) where
  done _ := trivial
  bindReturns _ hp hQ hf := Each.bind_all (Each.returns hp hQ) fun a ha => hf a (ha.2 a rfl)
  tryCatch hp hh := All.tryCatch hp hh
  relabel _ hp := Each.relabel (fun _ h => h) hp

theorem All.within {α : Type} {S : Step σ ω ε δ → Prop} {G : σ → σ → Prop}
    (hG : ∀ st, S st → G st.before st.after) {p : Co σ ω ε δ α} (hp : p.All S) : p.Within G :=
  All.mono hG hp

theorem Co.Within.mono {α : Type} {G H : σ → σ → Prop} (hGH : ∀ s s', G s s' → H s s')
    {p : Co σ ω ε δ α} (hp : p.Within G) : p.Within H :=
  All.mono (fun _ h => hGH _ _ h) hp

section Within

variable {G : σ → σ → Prop} {α : Type}

theorem within_transaction {fault : ε → Bool} {op : ω} {body : σ → Except ε (α × σ)} (hrefl : ∀ s, G s s)
    (h : ∀ s a s', body s = .ok (a, s') → G s s') : (Co.transaction fault op body : Co σ ω ε δ α).Within G :=
  each_transaction (fun _ _ s => hrefl s) (fun _ _ s a s' hb => ⟨h s a s' hb, trivial⟩) fun _ => trivial

theorem within_memory {op : ω} {f : σ → α × σ} (h : ∀ s, G s (f s).2) :
    (Co.memory op f : Co σ ω ε δ α).Within G :=
  each_memory (fun _ s => h s) fun _ => trivial

end Within

/-- Two things are known of every step. -/
theorem All.and {α : Type} {S S' : Step σ ω ε δ → Prop} {p : Co σ ω ε δ α} (h : p.All S) (h' : p.All S') :
    p.All fun st => S st ∧ S' st := by
  induction p with
  | done r => trivial
  | await op act k ih =>
      intro a s r s' hact
      obtain ⟨hst, hrest⟩ := h a s r s' hact
      obtain ⟨hst', hrest'⟩ := h' a s r s' hact
      exact ⟨⟨hst, hst'⟩, ih r hrest hrest'⟩

/-! ## §3. Assertions kept from start to end. -/

section Known

variable {α : Type} {g : Guard σ ω ε δ} {fault : ε → Bool} {op : ω} {Q : Except ε α → σ → Prop} {s : σ}

/-- The rule of a transaction, with what is known of its step. -/
theorem Safe.transaction_known {body : σ → Except ε (α × σ)} (P : σ → Prop) (hs : P s) (hP : g.Stable P)
    (hrefl : ∀ s, g.inv s → g.guar s s)
    (hcommit : ∀ s₁ a s₂, g.inv s₁ → P s₁ → g.known s₁ s₂ → body s₁ = .ok (a, s₂) →
      g.inv s₂ ∧ g.guar s₁ s₂ ∧ Q (.ok a) s₂ ∧ ∀ e, fault e = true → Q (.error e) s₂)
    (habort : ∀ s₁ e, g.inv s₁ → P s₁ → Q (.error e) s₁) (hneed : ∀ s₁, g.inv s₁ → P s₁ → g.need op s₁) :
    Safe g (Co.transaction fault op body) Q s := by
  refine Safe.await_known P hs hP (fun s₁ hinv hpre an r s₂ _ hact hknown => ?_) hneed
  rcases transaction_cases hact with ⟨a, hbody, hr⟩ | ⟨rfl, e, rfl, _⟩
  · obtain ⟨hinv', hguar, hok, herr⟩ := hcommit s₁ a s₂ hinv hpre hknown hbody
    refine ⟨hinv', hguar, ?_⟩
    rcases hr with rfl | ⟨e, rfl, he⟩
    · exact hok
    · exact herr e he
  · exact ⟨hinv, hrefl _ hinv, habort _ e hinv hpre⟩

/-- The rule of a query, with what is known of its step. -/
theorem Safe.query_known {f : σ → α} (P : σ → Prop) (hs : P s) (hP : g.Stable P) (hrefl : ∀ s, g.inv s → g.guar s s)
    (hread : ∀ s₁, g.inv s₁ → P s₁ → g.known s₁ s₁ → Q (.ok (f s₁)) s₁)
    (hfault : ∀ s₁ e, g.inv s₁ → P s₁ → Q (.error e) s₁) (hneed : ∀ s₁, g.inv s₁ → P s₁ → g.need op s₁) :
    Safe g (Co.query fault op f) Q s := by
  refine Safe.transaction_known P hs hP hrefl (fun s₁ a s₂ hinv hpre hknown hbody => ?_) hfault hneed
  simp only [Except.ok.injEq, Prod.mk.injEq] at hbody
  obtain ⟨rfl, rfl⟩ := hbody
  exact ⟨hinv, hrefl _ hinv, hread _ hinv hpre hknown, fun e _ => hfault _ e hinv hpre⟩

/-- The rule of a step on memory, with what is known of it. -/
theorem Safe.memory_known {f : σ → α × σ} (P : σ → Prop) (hs : P s) (hP : g.Stable P)
    (h : ∀ s₁, g.inv s₁ → P s₁ → g.known s₁ (f s₁).2 →
      g.inv (f s₁).2 ∧ g.guar s₁ (f s₁).2 ∧ Q (.ok (f s₁).1) (f s₁).2)
    (hneed : ∀ s₁, g.inv s₁ → P s₁ → g.need op s₁) : Safe g (Co.memory op f) Q s := by
  refine Safe.await_known P hs hP (fun s₁ hinv hpre an r s₂ _ hact hknown => ?_) hneed
  cases an <;> simp only [Option.some.injEq, Prod.mk.injEq, reduceCtorEq] at hact
  obtain ⟨rfl, rfl⟩ := hact
  exact h s₁ hinv hpre hknown

end Known

/-- Who knows more and suffers less is safe as well. -/
theorem Safe.strengthen {α : Type} {g h : Guard σ ω ε δ} (hinv : h.inv = g.inv) (hguar : h.guar = g.guar)
    (hrely : ∀ s s', h.rely s s' → g.rely s s') (hallow : ∀ op a s, h.allow op a s → g.allow op a s)
    (hneed : ∀ op s, g.need op s → h.need op s) (hknown : ∀ s s', h.known s s' → g.known s s')
    {p : Co σ ω ε δ α} {Q : Except ε α → σ → Prop} {s : σ} (hp : Safe g p Q s) : Safe h p Q s := by
  induction p generalizing s with
  | done r => exact hp
  | await op act k ih =>
      intro s₁ haft hi
      have haft' : g.After s s₁ := Relation.ReflTransGen.mono
        (fun a b hab => ⟨hinv ▸ hab.1, hinv ▸ hab.2.1, hrely a b hab.2.2⟩) _ _ haft
      obtain ⟨hn, hstep⟩ := hp s₁ haft' (hinv ▸ hi)
      refine ⟨hneed op s₁ hn, fun a r s₂ hok hact hk => ?_⟩
      obtain ⟨hi', hg', hrest⟩ := hstep a r s₂ (hallow op a s₁ hok) hact (hknown s₁ s₂ hk)
      exact ⟨hinv ▸ hi', hguar ▸ hg', ih r hrest⟩

/-- The context in which every answer is considered. -/
def Guard.open (g : Guard σ ω ε δ) (allow : ω → Answer ε δ → σ → Prop) : Guard σ ω ε δ :=
  { g with allow, need := fun _ _ => True }

/-- From `P` on, `p` keeps the invariant and the guarantee, and it ends in `P`. -/
def Holds {α : Type} (g : Guard σ ω ε δ) (P : σ → Prop) (p : Co σ ω ε δ α) : Prop :=
  ∀ allow s, P s → Safe (g.open allow) p (fun _ => P) s

theorem closed_holds (g : Guard σ ω ε δ) (P : σ → Prop) :
    Closed (fun {α : Type} (p : Co σ ω ε δ α) => Holds g P p) where
  done _ := fun _ _ hs => hs
  bindReturns _ hp hQ hf := fun allow s hs =>
    Safe.bind ((hp allow s hs).returns hQ) (fun a s' hs' => hf a (hs'.2 a rfl) allow s' hs'.1) fun _ _ hs' => hs'.1
  tryCatch hp hh := fun allow s hs =>
    Safe.tryCatch (hp allow s hs) (fun _ _ hs' => hs') fun e s' hs' => hh e allow s' hs'
  relabel f hp := fun allow s hs => (safe_relabel f _ _ s).mpr (hp (fun op => allow (f op)) s hs)

/-- A coroutine whose steps stay within a relation that the invariant, the
guarantee and `P` survive. -/
theorem Holds.of_within {α : Type} {g : Guard σ ω ε δ} {P : σ → Prop} {G : σ → σ → Prop} (hP : g.Stable P)
    (hG : ∀ s s', g.inv s → P s → g.known s s' → G s s' → g.inv s' ∧ g.guar s s' ∧ P s') {p : Co σ ω ε δ α}
    (hp : p.Within G) : Holds g P p := fun allow _ hs =>
  (Safe.of_each (g := g.open allow) hP (fun _ hst hinv hpre hknown => hG _ _ hinv hpre hknown hst) hp hs
    fun _ _ _ _ => trivial).mono fun _ _ h => h.2

/-! ## §4. Invariants of a system. -/

variable {τ κ : Type} [DecidableEq τ]

/-- **Invariants**: what every step of every call, the environment and a crash
keep holds in every reachable state. -/
theorem System.invariant {sys : System τ κ σ ω ε δ} {cond : κ → ω → Answer ε δ → σ → Prop} {I : σ → Prop}
    {G : σ → σ → Prop} (hG : ∀ s s', I s → G s s' → I s') (hbody : ∀ t k, (sys.body t k).Within G)
    (henter : ∀ t k s s', sys.enter t k s = some s' → G s s') (henv : ∀ d s s', sys.env d s = some s' → G s s')
    (hcrash : ∀ d s s', I s → sys.crash d s = some s' → I s') {p q : Pool τ κ σ ω ε δ} (hp : p = Pool.start p.shared)
    (hI : I p.shared) (h : sys.Reaches cond p q) : I q.shared := by
  have hsound : Sound sys cond ⟨I, fun _ _ _ => True, fun _ _ _ => True⟩ fun _ _ _ _ => True := by
    refine ⟨fun d s s' hs he => ⟨hG s s' hs (henv d s s' he), trivial⟩, fun t k s s' hs he => ?_, hcrash,
      fun _ _ _ => Guard.stable_true⟩
    refine ⟨hG s s' hs (henter t k s s' he), trivial, Safe.mono (Q := fun r _ => True ∧ True) ?_ fun _ _ _ => trivial⟩
    exact Safe.of_each Guard.stable_true (fun st hst hinv _ _ => ⟨hG _ _ hinv hst, trivial, trivial⟩)
      (hbody t k) trivial fun _ _ _ _ => trivial
  exact (hsound.reaches (hp ▸ Sound.good_start hI) h).1

/-- Everybody keeps `inv` and moves within `step`. -/
def Guard.common (inv : σ → Prop) (step : σ → σ → Prop) : Guard σ ω ε δ where
  inv := inv
  rely := step
  guar := step
  allow _ _ _ := True

omit [DecidableEq τ] in
/-- **A discipline with local reasoning**: every call keeps the invariant, given
that all others do and move within the same steps. -/
theorem System.holds_sound {sys : System τ κ σ ω ε δ} {cond : κ → ω → Answer ε δ → σ → Prop} {I : σ → Prop}
    {G : σ → σ → Prop} (hbody : ∀ t k, Holds (Guard.common I G) (fun _ => True) (sys.body t k))
    (henter : ∀ t k s s', I s → sys.enter t k s = some s' → I s' ∧ G s s')
    (henv : ∀ d s s', I s → sys.env d s = some s' → I s' ∧ G s s')
    (hcrash : ∀ d s s', I s → sys.crash d s = some s' → I s') :
    Sound sys cond ⟨I, fun _ => G, fun _ _ _ => True⟩ fun _ _ _ _ => True := by
  refine ⟨henv, fun t k s s' hs he => ?_, hcrash, fun _ _ _ => Guard.stable_true⟩
  obtain ⟨hI', hG⟩ := henter t k s s' hs he
  refine ⟨hI', hG, ?_⟩
  have hsafe := hbody t k (fun op a s => sys.deliver k op a s = true ∧ cond k op a s) s' trivial
  refine Safe.strengthen (h := Discipline.at ⟨I, fun _ => G, fun _ _ _ => True⟩ sys cond t k) (g := (Guard.common I G).open _)
    rfl rfl (fun a b hab => ?_) (fun _ _ _ h => h) (fun _ _ h => h) (fun _ _ h => h) hsafe
  obtain ⟨_, _, hg⟩ := hab
  exact hg

/-- **Progress of a system**: what every step of every call, the environment
and a crash respect, a whole run respects, from any reachable pool on. -/
theorem System.advances {sys : System τ κ σ ω ε δ} {cond : κ → ω → Answer ε δ → σ → Prop} {G R : σ → σ → Prop}
    (hrefl : ∀ s, R s s) (htrans : ∀ s s' s'', R s s' → R s' s'' → R s s'') (hG : ∀ s s', G s s' → R s s')
    (hbody : ∀ t k, (sys.body t k).Within G) (henter : ∀ t k s s', sys.enter t k s = some s' → G s s')
    (henv : ∀ d s s', sys.env d s = some s' → G s s') (hcrash : ∀ d s s', sys.crash d s = some s' → R s s')
    {s : σ} {p q : Pool τ κ σ ω ε δ} (hp : sys.Reaches cond (Pool.start s) p) (h : sys.Reaches cond p q) :
    R p.shared q.shared := by
  have hsound : Sound sys cond ⟨fun _ => True, fun _ => G, fun _ _ _ => True⟩ fun _ _ _ _ => True := by
    refine ⟨fun d s s' _ he => ⟨trivial, henv d s s' he⟩, fun t k s s' _ he => ⟨trivial, henter t k s s' he, ?_⟩,
      fun _ _ _ _ _ => trivial, fun _ _ _ => Guard.stable_true⟩
    refine Safe.mono (Q := fun _ _ => True ∧ True) ?_ fun _ _ _ => trivial
    exact Safe.of_each (S := fun st => G st.before st.after) Guard.stable_true
      (fun _ hst _ _ _ => ⟨trivial, hst, trivial⟩) (hbody t k) trivial fun _ _ _ _ => trivial
  have hgood := hsound.reaches (Sound.good_start trivial) hp
  induction h with
  | refl => exact hrefl _
  | step e hpre hm hs ih =>
      rcases (hsound.step (hsound.reaches hgood hpre) hm hs).2 with ⟨d, rfl⟩ | ⟨_, hg⟩
      · -- a crash starts from the state that it leaves
        simp only [System.step, Option.map_eq_some_iff] at hs
        obtain ⟨s', hs', rfl⟩ := hs
        exact htrans _ _ _ ih (hcrash d _ _ hs')
      · exact htrans _ _ _ ih (hG _ _ hg)

/-! ## §5. Disciplines on top of others. -/

section Layers

variable {sys : System τ κ σ ω ε δ} {cond : κ → ω → Answer ε δ → σ → Prop} {D D' : Discipline τ κ σ ω}

omit [DecidableEq τ] in
/-- A discipline that is sound by itself is sound on top of any other. -/
theorem Sound.over {post : τ → κ → Except ε Unit → σ → Prop} (h : Sound sys cond D' post) :
    SoundOver sys cond D D' post where
  env d s s' _ _ _ hi he := h.env d s s' hi he
  enter t k s s' _ _ _ hi he := by
    obtain ⟨hi', hg, hsafe⟩ := h.enter t k s s' hi he
    refine ⟨hi', hg, Safe.strengthen (g := D'.at sys cond t k) (h := D.over D' sys cond t k) rfl rfl (fun a b hab => ?_) (fun _ _ _ ha => ha.2)
      (fun _ _ hn _ => hn) (fun _ _ _ => trivial) hsafe⟩
    obtain ⟨_, _, u, hu, _, hg'⟩ := hab
    exact ⟨u, hu, hg'⟩
  crash d s s' _ _ hi hc := h.crash d s s' hi hc
  post t k r := by
    rintro s s' hi hi' ⟨_, _, u, hu, _, hg⟩ hp
    exact h.post t k r s s' hi hi' ⟨u, hu, hg⟩ hp

/-- The context of the slot `t` on top of `D`, for an invariant `I` and steps
`G`. -/
def Discipline.above (D : Discipline τ κ σ ω) (I : σ → Prop) (G : Option τ → σ → σ → Prop) (t : τ) :
    Guard σ ω ε δ where
  inv := I
  rely s s' := D.inv s ∧ D.inv s' ∧ ∃ u, u ≠ some t ∧ D.guar u s s' ∧ G u s s'
  guar := G (some t)
  allow _ _ _ := True
  known s s' := D.inv s ∧ D.inv s' ∧ D.guar (some t) s s'

omit [DecidableEq τ] in
/-- **A second discipline with local reasoning**: every call keeps `I` and moves
within `G`, from the assertion `P` on that holds when it starts. -/
theorem SoundOver.of_holds {I : σ → Prop} {G : Option τ → σ → σ → Prop} {P : τ → κ → σ → Prop}
    (hbody : ∀ t k s, P t k s → ∃ Q, ∀ allow, Safe ((D.above I G t).open allow) (sys.body t k) Q s)
    (henter : ∀ t k s s', D.inv s → D.inv s' → D.guar (some t) s s' → I s → sys.enter t k s = some s' →
      I s' ∧ G (some t) s s' ∧ P t k s')
    (henv : ∀ d s s', D.inv s → D.guar none s s' → I s → sys.env d s = some s' → I s' ∧ G none s s')
    (hcrash : ∀ d s s', D.inv s → D.inv s' → I s → sys.crash d s = some s' → I s') :
    SoundOver sys cond D ⟨I, G, fun _ _ _ => True⟩ fun _ _ _ _ => True where
  env d s s' hD _ hg hi he := henv d s s' hD hg hi he
  enter t k s s' hD hD' hg hi he := by
    obtain ⟨hi', hg', hP⟩ := henter t k s s' hD hD' hg hi he
    obtain ⟨Q, hsafe⟩ := hbody t k s' hP
    refine ⟨hi', hg', Safe.mono (Q := Q) ?_ fun _ _ _ => trivial⟩
    have hsafe := hsafe fun op a s => D.inv s ∧ sys.deliver k op a s = true ∧ cond k op a s
    exact Safe.strengthen (g := (D.above I G t).open _) (h := D.over ⟨I, G, fun _ _ _ => True⟩ sys cond t k) rfl rfl
      (fun _ _ h => h) (fun _ _ _ h => h) (fun _ _ _ _ => trivial) (fun _ _ h => h) hsafe
  crash d s s' hD hD' hi hc := hcrash d s s' hD hD' hi hc
  post _ _ _ := Guard.stable_true

end Layers

end WebBuilder.Async
