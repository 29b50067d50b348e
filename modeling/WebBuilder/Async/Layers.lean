/-
  WebBuilder.Async.Layers — one discipline on top of another.

  A second discipline is proved of a system whose first one is sound
  already.  Its proof context (`Discipline.over`) knows of every step, of
  others and of its own, that it keeps to the first one.

  **Layering** (`SoundOver.sound`): both disciplines together are sound.
-/
import WebBuilder.Async.Pool

namespace WebBuilder.Async

variable {τ κ σ ω ε δ α : Type}

/-! ## §1. Two disciplines. -/

/-- Both disciplines at once. -/
def Discipline.and (D D' : Discipline τ κ σ ω) : Discipline τ κ σ ω where
  inv s := D.inv s ∧ D'.inv s
  guar u s s' := D.guar u s s' ∧ D'.guar u s s'
  need k op s := D.need k op s ∧ D'.need k op s

/-- The proof context of `D'` for the call `k` in slot `t`, on top of `D`. -/
def Discipline.over (D D' : Discipline τ κ σ ω) (sys : System τ κ σ ω ε δ)
    (cond : κ → ω → Answer ε δ → σ → Prop) (t : τ) (k : κ) : Guard σ ω ε δ where
  inv := D'.inv
  rely s s' := D.inv s ∧ D.inv s' ∧ ∃ u, u ≠ some t ∧ D.guar u s s' ∧ D'.guar u s s'
  guar := D'.guar (some t)
  allow op a s := D.inv s ∧ sys.deliver k op a s = true ∧ cond k op a s
  need op s := D.inv s → D'.need k op s
  known s s' := D.inv s ∧ D.inv s' ∧ D.guar (some t) s s'

section Both

variable {sys : System τ κ σ ω ε δ} {cond : κ → ω → Answer ε δ → σ → Prop}
  {D D' : Discipline τ κ σ ω} {t : τ} {k : κ}

theorem Discipline.after_left {s s' : σ} (h : ((D.and D').at sys cond t k).After s s') :
    (D.at sys cond t k).After s s' := by
  refine Relation.ReflTransGen.mono (fun a b hab => ?_) _ _ h
  obtain ⟨hi, hi', u, hu, hg⟩ := hab
  exact ⟨hi.1, hi'.1, u, hu, hg.1⟩

theorem Discipline.after_right {s s' : σ} (h : ((D.and D').at sys cond t k).After s s') :
    (D.over D' sys cond t k).After s s' := by
  refine Relation.ReflTransGen.mono (fun a b hab => ?_) _ _ h
  obtain ⟨hi, hi', u, hu, hg⟩ := hab
  exact ⟨hi.2, hi'.2, hi.1, hi'.1, u, hu, hg⟩

/-- A coroutine that is safe in either context is safe in both. -/
theorem Safe.both {p : Co σ ω ε δ α} {Q Q' : Except ε α → σ → Prop} {s : σ}
    (h : Safe (D.at sys cond t k) p Q s) (h' : Safe (D.over D' sys cond t k) p Q' s) :
    Safe ((D.and D').at sys cond t k) p (fun r s => Q r s ∧ Q' r s) s := by
  induction p generalizing s with
  | done r => exact ⟨h, h'⟩
  | await op act k' ih =>
      intro s₁ haft hinv
      obtain ⟨hneed, hstep⟩ := h s₁ (Discipline.after_left haft) hinv.1
      obtain ⟨hneed', hstep'⟩ := h' s₁ (Discipline.after_right haft) hinv.2
      refine ⟨⟨hneed, hneed' hinv.1⟩, fun a r s₂ hallow hact _ => ?_⟩
      obtain ⟨hi, hg, hrest⟩ := hstep a r s₂ hallow hact trivial
      obtain ⟨hi', hg', hrest'⟩ := hstep' a r s₂ ⟨hinv.1, hallow⟩ hact ⟨hinv.1, hi, hg⟩
      exact ⟨⟨hi, hi'⟩, ⟨hg, hg'⟩, ih r hrest hrest'⟩

end Both

/-! ## §2. Soundness of the second. -/

/-- What has to be shown of `D'`, given that `D` is sound. -/
structure SoundOver (sys : System τ κ σ ω ε δ) (cond : κ → ω → Answer ε δ → σ → Prop)
    (D D' : Discipline τ κ σ ω) (post : τ → κ → Except ε Unit → σ → Prop) : Prop where
  env : ∀ d s s', D.inv s → D.inv s' → D.guar none s s' → D'.inv s → sys.env d s = some s' →
    D'.inv s' ∧ D'.guar none s s'
  enter : ∀ t k s s', D.inv s → D.inv s' → D.guar (some t) s s' → D'.inv s →
    sys.enter t k s = some s' → D'.inv s' ∧ D'.guar (some t) s s' ∧
      Safe (D.over D' sys cond t k) (sys.body t k) (post t k) s'
  crash : ∀ d s s', D.inv s → D.inv s' → D'.inv s → sys.crash d s = some s' → D'.inv s'
  post : ∀ t k r, (D.over D' sys cond t k).Stable (post t k r)

/-- **Layering**. -/
theorem SoundOver.sound {sys : System τ κ σ ω ε δ} {cond : κ → ω → Answer ε δ → σ → Prop}
    {D D' : Discipline τ κ σ ω} {post post' : τ → κ → Except ε Unit → σ → Prop}
    (h' : SoundOver sys cond D D' post') (h : Sound sys cond D post) :
    Sound sys cond (D.and D') fun t k r s => post t k r s ∧ post' t k r s where
  env d s s' hinv hstep := by
    obtain ⟨hi, hg⟩ := h.env d s s' hinv.1 hstep
    obtain ⟨hi', hg'⟩ := h'.env d s s' hinv.1 hi hg hinv.2 hstep
    exact ⟨⟨hi, hi'⟩, hg, hg'⟩
  enter t k s s' hinv hstep := by
    obtain ⟨hi, hg, hsafe⟩ := h.enter t k s s' hinv.1 hstep
    obtain ⟨hi', hg', hsafe'⟩ := h'.enter t k s s' hinv.1 hi hg hinv.2 hstep
    exact ⟨⟨hi, hi'⟩, ⟨hg, hg'⟩, Safe.both hsafe hsafe'⟩
  crash d s s' hinv hstep :=
    ⟨h.crash d s s' hinv.1 hstep,
      h'.crash d s s' hinv.1 (h.crash d s s' hinv.1 hstep) hinv.2 hstep⟩
  post t k r := by
    rintro s s' hinv hinv' ⟨u, hu, hg⟩ ⟨hp, hp'⟩
    exact ⟨h.post t k r s s' hinv.1 hinv'.1 ⟨u, hu, hg.1⟩ hp,
      h'.post t k r s s' hinv.2 hinv'.2 ⟨hinv.1, hinv'.1, u, hu, hg⟩ hp'⟩

end WebBuilder.Async
