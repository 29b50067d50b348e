/-
  WebBuilder.Model.Rules — proof rules for the awaits of the service.

  The rules of `Async.Rules`, for the awaits that `Model.World` defines: one
  rule for each kind, with the cases of its answers spelled out, and the
  corresponding frame rules (`keeps_…`).
-/
import WebBuilder.Model.World

namespace WebBuilder

open WebBuilder.Async

variable {α β : Type} {g : Guard World Label Exc Datum} {Q R : Except Exc α → World → Prop}
  {w : World}

/-! ## §1. Safety of one await. -/

theorem safe_query {f : World → α} (P : World → Prop) (hw : P w) (hP : g.Stable P)
    (hrefl : ∀ w, g.inv w → g.guar w w)
    (hread : ∀ w, g.inv w → P w → Q (.ok (f w)) w)
    (hfault : ∀ w e, g.inv w → P w → Q (.error e) w)
    (hneed : ∀ w, g.inv w → P w → g.need ⟨.query, []⟩ w) : Safe g (query f) Q w :=
  Safe.query P hw hP hrefl hread (fun w e hi hp _ => hfault w e hi hp) hneed

theorem safe_memory {f : World → α × World} (P : World → Prop) (hw : P w) (hP : g.Stable P)
    (h : ∀ w, g.inv w → P w → g.inv (f w).2 ∧ g.guar w (f w).2 ∧ Q (.ok (f w).1) (f w).2)
    (hneed : ∀ w, g.inv w → P w → g.need ⟨.memory, []⟩ w) : Safe g (memory f) Q w :=
  Safe.memory P hw hP (fun w hi hp _ => h w hi hp) hneed

theorem safe_transaction {op : Op} {body : World → Except Exc (α × World)} (P : World → Prop)
    (hw : P w) (hP : g.Stable P) (hrefl : ∀ w, g.inv w → g.guar w w)
    (hcommit : ∀ w a w', g.inv w → P w → (∃ an, g.allow ⟨op, []⟩ an w) → body w = .ok (a, w') →
      g.inv w' ∧ g.guar w w' ∧ Q (.ok a) w' ∧ ∀ e, databaseFault e = true → Q (.error e) w')
    (habort : ∀ w e, g.inv w → P w → databaseFault e = true ∨ body w = .error e → Q (.error e) w)
    (hneed : ∀ w, g.inv w → P w → g.need ⟨op, []⟩ w) :
    Safe g (transaction op body) Q w :=
  Safe.transaction P hw hP hrefl hcommit habort hneed

theorem safe_waitFor {op : Op} {ready : World → Option (Except Exc α × World)} (P : World → Prop)
    (hw : P w) (hP : g.Stable P) (hrefl : ∀ w, g.inv w → g.guar w w)
    (hready : ∀ w r w', g.inv w → P w → ready w = some (r, w') → g.inv w' ∧ g.guar w w' ∧ Q r w')
    (hstop : ∀ w e, g.inv w → P w → interruption e = true → Q (.error e) w)
    (hneed : ∀ w, g.inv w → P w → g.need ⟨op, []⟩ w) :
    Safe g (waitFor op ready) Q w := by
  refine Safe.await P hw hP ?_ hneed
  intro w₁ hi hp an r w₂ _ hact
  cases an with
  | ok d => exact hready w₁ r w₂ hi hp hact
  | fail e =>
      simp only [Option.ite_none_right_eq_some, Option.some.injEq, Prod.mk.injEq] at hact
      obtain ⟨he, rfl, rfl⟩ := hact
      exact ⟨hi, hrefl _ hi, hstop _ e hi hp he⟩
  | lost e d => simp at hact
  | late e d => simp at hact

/-- A request is served, refused, or left pending. -/
theorem safe_request {op : Op} {missing : World → Bool}
    {serve : Datum → World → Option (α × World)} {defer : World → Option World} (P : World → Prop)
    (hw : P w) (hP : g.Stable P)  (hrefl : ∀ w, g.inv w → g.guar w w)
    (hserve : ∀ w d a w', g.inv w → P w → (∃ an, g.allow ⟨op, []⟩ an w) → serve d w = some (a, w') →
      g.inv w' ∧ g.guar w w' ∧ Q (.ok a) w' ∧ ∀ e, providerFault e = true → Q (.error e) w')
    (hmissing : ∀ w, g.inv w → P w → missing w = true → Q (.error .notFound) w)
    (hrefuse : ∀ w e, g.inv w → P w → providerFault e = true ∨ e = .rejected → Q (.error e) w)
    (hdefer : ∀ w w' e, g.inv w → P w → (∃ an, g.allow ⟨op, []⟩ an w) → defer w = some w' →
      providerFault e = true → g.inv w' ∧ g.guar w w' ∧ Q (.error e) w')
    (hneed : ∀ w, g.inv w → P w → g.need ⟨op, []⟩ w) :
    Safe g (request op missing serve defer) Q w := by
  refine Safe.await P hw hP ?_ hneed
  intro w₁ hi hp an r w₂ hal hact
  cases an with
  | ok d =>
      simp only [Option.map_eq_some_iff, Prod.mk.injEq] at hact
      obtain ⟨⟨a, w'⟩, hs, rfl, rfl⟩ := hact
      obtain ⟨h1, h2, h3, _⟩ := hserve w₁ d a w' hi hp ⟨_, hal⟩ hs
      exact ⟨h1, h2, h3⟩
  | fail e =>
      cases e
      case notFound =>
        simp only [Option.ite_none_right_eq_some, Option.some.injEq, Prod.mk.injEq] at hact
        obtain ⟨hm, rfl, rfl⟩ := hact
        exact ⟨hi, hrefl _ hi, hmissing _ hi hp hm⟩
      all_goals
        simp only [Option.ite_none_right_eq_some, Option.some.injEq, Prod.mk.injEq, Bool.or_eq_true,
          decide_eq_true_eq] at hact
        obtain ⟨he, rfl, rfl⟩ := hact
        refine ⟨hi, hrefl _ hi, hrefuse _ _ hi hp ?_⟩
        first
          | exact he
          | exact .inr rfl
  | lost e d =>
      simp only [Option.ite_none_right_eq_some, Option.map_eq_some_iff, Prod.mk.injEq] at hact
      obtain ⟨he, ⟨a, w'⟩, hs, rfl, rfl⟩ := hact
      obtain ⟨h1, h2, _, h4⟩ := hserve w₁ d a w' hi hp ⟨_, hal⟩ hs
      exact ⟨h1, h2, h4 e he⟩
  | late e d =>
      simp only [Option.ite_none_right_eq_some, Option.map_eq_some_iff, Prod.mk.injEq] at hact
      obtain ⟨he, w', hd, rfl, rfl⟩ := hact
      exact hdefer w₁ w' e hi hp ⟨_, hal⟩ hd he

/-! ## §2. Timeouts and handlers. -/

/-- The guard inside an `asyncio.timeout` block. -/
def inScope (g : Guard World Label Exc Datum) (scope : Scope) : Guard World Label Exc Datum :=
  { g with
    allow := fun l => g.allow { l with scopes := scope :: l.scopes }
    need := fun l => g.need { l with scopes := scope :: l.scopes } }

@[simp] theorem inScope_inv (g : Guard World Label Exc Datum) (s : Scope) :
    (inScope g s).inv = g.inv := rfl

@[simp] theorem inScope_guar (g : Guard World Label Exc Datum) (s : Scope) :
    (inScope g s).guar = g.guar := rfl

@[simp] theorem inScope_stable (g : Guard World Label Exc Datum) (s : Scope) (P : World → Prop) :
    (inScope g s).Stable P ↔ g.Stable P := Iff.rfl

theorem safe_withTimeout {scope : Scope} {p : Act α} (hp : Safe (inScope g scope) p R w)
    (hok : ∀ a w, R (.ok a) w → Q (.ok a) w)
    (herr : ∀ e w, R (.error e) w → Q (.error (if e = .deadline scope then .timeout else e)) w) :
    Safe g (withTimeout scope p) Q w := by
  refine Safe.tryCatch ((safe_relabel _ _ _ _).mpr hp) hok fun e w h => ?_
  have := herr e w h
  split <;> simp_all

theorem safe_catchException {p : Act α} {h : Exc → Act α} (hp : Safe g p R w)
    (hok : ∀ a w, R (.ok a) w → Q (.ok a) w)
    (hcaught : ∀ e w, e.isException = true → R (.error e) w → Safe g (h e) Q w)
    (hescape : ∀ e w, e.isException = false → R (.error e) w → Q (.error e) w) :
    Safe g (catchException p h) Q w := by
  refine Safe.tryCatch hp hok fun e w hr => ?_
  cases he : e.isException with
  | true => simpa [he] using hcaught e w he hr
  | false => simpa [he] using hescape e w he hr

/-! ## §3. Frames. -/

variable {G : World → World → Prop}

theorem keeps_query' {f : World → α} (hrefl : ∀ w, G w w) : (query f).Keeps G :=
  Co.keeps_query hrefl

theorem keeps_memory' {f : World → α × World} (h : ∀ w, G w (f w).2) : (memory f).Keeps G :=
  Co.keeps_memory h

theorem keeps_transaction' {op : Op} {body : World → Except Exc (α × World)} (hrefl : ∀ w, G w w)
    (h : ∀ w a w', body w = .ok (a, w') → G w w') : (transaction op body).Keeps G :=
  Co.keeps_transaction hrefl h

theorem keeps_waitFor {op : Op} {ready : World → Option (Except Exc α × World)} (hrefl : ∀ w, G w w)
    (h : ∀ w r w', ready w = some (r, w') → G w w') : (waitFor op ready).Keeps G := by
  refine ⟨?_, fun _ => trivial⟩
  intro an w₁ r w₂ hact
  cases an with
  | ok d => exact h w₁ r w₂ hact
  | fail e =>
      simp only [Option.ite_none_right_eq_some, Option.some.injEq, Prod.mk.injEq] at hact
      exact hact.2.2 ▸ hrefl w₁
  | lost e d => simp at hact
  | late e d => simp at hact

theorem keeps_toThread {r : Except Exc α} (hrefl : ∀ w, G w w) : (toThread r).Keeps G :=
  keeps_waitFor hrefl fun w r' w' h => by
    simp only [Option.some.injEq, Prod.mk.injEq] at h
    exact h.2 ▸ hrefl w

theorem keeps_request {op : Op} {missing : World → Bool}
    {serve : Datum → World → Option (α × World)} {defer : World → Option World}
    (hrefl : ∀ w, G w w) (hserve : ∀ d w a w', serve d w = some (a, w') → G w w')
    (hdefer : ∀ w w', defer w = some w' → G w w') : (request op missing serve defer).Keeps G := by
  refine ⟨?_, fun _ => trivial⟩
  intro an w₁ r w₂ hact
  cases an with
  | ok d =>
      simp only [Option.map_eq_some_iff, Prod.mk.injEq] at hact
      obtain ⟨⟨a, w'⟩, hs, rfl, rfl⟩ := hact
      exact hserve d w₁ a w' hs
  | fail e =>
      cases e
      all_goals
        simp only [Option.ite_none_right_eq_some, Option.some.injEq, Prod.mk.injEq] at hact
        exact hact.2.2 ▸ hrefl w₁
  | lost e d =>
      simp only [Option.ite_none_right_eq_some, Option.map_eq_some_iff, Prod.mk.injEq] at hact
      obtain ⟨he, ⟨a, w'⟩, hs, rfl, rfl⟩ := hact
      exact hserve d w₁ a w' hs
  | late e d =>
      simp only [Option.ite_none_right_eq_some, Option.map_eq_some_iff, Prod.mk.injEq] at hact
      obtain ⟨he, w', hd, rfl, rfl⟩ := hact
      exact hdefer w₁ w' hd

theorem keeps_withTimeout {scope : Scope} {p : Act α} (hp : p.Keeps G) :
    (withTimeout scope p).Keeps G :=
  hp.relabel.tryCatch fun e => by split <;> trivial

theorem keeps_catchException {p : Act α} {h : Exc → Act α} (hp : p.Keeps G)
    (hh : ∀ e, (h e).Keeps G) : (catchException p h).Keeps G :=
  hp.tryCatch fun e => by
    split
    · exact hh e
    · trivial

theorem keeps_withAdmission {t : Nat} {p : Act α} (hrefl : ∀ w, G w w)
    (hset : ∀ w holder, G w (w.setAdmission holder)) (hp : p.Keeps G) : (withAdmission t p).Keeps G := by
  refine Co.Keeps.bind (keeps_waitFor hrefl ?_) fun _ => Co.Keeps.onExit hp ?_
  · intro w r w' h
    split at h
    · cases h
    · simp only [Option.some.injEq, Prod.mk.injEq] at h
      exact h.2 ▸ hset w (some t)
  · exact keeps_memory' fun w => hset w none

theorem keeps_onProject {c : Nat} {p : Act α} (hp : p.Keeps G) : (onProject c p).Keeps G := hp.relabel

end WebBuilder
