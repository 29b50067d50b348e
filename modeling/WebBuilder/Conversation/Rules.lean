/-
  WebBuilder.Conversation.Rules — the rules of a conversation's awaits.

  Nobody else touches what the task of a run owns, so the state before an
  await is the state at it (`Alone`).  Most awaits neither ask the model nor
  run a tool nor touch the counters; a coroutine that makes only such steps is
  `Idle`, and a monitor that ignores them passes over it at once.
-/
import WebBuilder.Conversation.Loop

namespace WebBuilder.Conversation

open WebBuilder.Async

abbrev EditStep := Step Live Op Exc Reply

/-- Only the task of the run changes its state. -/
def Alone (s s' : Live) : Prop := s = s'

/-! ## What one await can do. -/

theorem emitStep_cases {a : Answer Exc Reply} {s s' : Live} {r : Except Exc Unit}
    (h : emitStep a s = some (r, s')) :
    (200 ≤ s.events ∧ r = .error (.runLimit "Activity budget reached") ∧ s' = s) ∨
      (r = .ok () ∧ s' = { s with events := s.events + 1, rows := s.rows + 1 }) ∨
      ∃ e, databaseFault e = true ∧ r = .error e ∧ (s' = s ∨ s' = { s with rows := s.rows + 1 }) := by
  unfold emitStep at h
  split at h
  · rename_i hfull
    cases a with
    | ok d =>
        simp only [Option.some.injEq, Prod.mk.injEq] at h
        exact .inl ⟨hfull, h.1.symm, h.2.symm⟩
    | fail | lost | late => cases h
  · cases a with
    | ok d =>
        simp only [Option.some.injEq, Prod.mk.injEq] at h
        exact .inr (.inl ⟨h.1.symm, h.2.symm⟩)
    | fail e =>
        simp only [Option.ite_none_right_eq_some, Option.some.injEq, Prod.mk.injEq] at h
        exact .inr (.inr ⟨e, h.1, h.2.1.symm, .inl h.2.2.symm⟩)
    | lost e d =>
        simp only [Option.ite_none_right_eq_some, Option.some.injEq, Prod.mk.injEq] at h
        exact .inr (.inr ⟨e, h.1, h.2.1.symm, .inr h.2.2.symm⟩)
    | late => cases h

theorem saveRevisionStep_cases {a : Answer Exc Reply} {s s' : Live} {r : Except Exc Unit}
    (h : saveRevisionStep a s = some (r, s')) :
    (r = .ok () ∧ (s' = s ∨ s' = { s with events := s.events + 1, rows := s.rows + 1 })) ∨
      ∃ e, fault e = true ∧ r = .error e ∧ (s' = s ∨ s' = { s with rows := s.rows + 1 }) := by
  unfold saveRevisionStep at h
  split at h
  · simp only [Option.some.injEq, Prod.mk.injEq] at h
    exact .inl ⟨h.1.symm, .inr h.2.symm⟩
  · simp only [Option.some.injEq, Prod.mk.injEq] at h
    exact .inl ⟨h.1.symm, .inl h.2.symm⟩
  · simp only [Option.ite_none_right_eq_some, Option.some.injEq, Prod.mk.injEq] at h
    exact .inr ⟨_, h.1, h.2.1.symm, .inr h.2.2.symm⟩
  · simp only [Option.ite_none_right_eq_some, Option.some.injEq, Prod.mk.injEq] at h
    exact .inr ⟨_, h.1, h.2.1.symm, .inl h.2.2.symm⟩
  · cases h

/-- A tool returns or raises; either way only the revision may have moved. -/
theorem executeStep_cases {a : Answer Exc Reply} {s s' : Live} {r : Except Exc ToolResult}
    (h : executeStep a s = some (r, s')) :
    (∃ revision, s' = { s with revision }) ∧
      ((∃ result revision, a = .ok (.result result revision) ∧ r = .ok result) ∨
        ∃ e, fault e = true ∧ r = .error e ∧ ∀ result revision, a ≠ .ok (.result result revision)) := by
  unfold executeStep at h
  split at h
  · simp only [Option.ite_none_right_eq_some, Option.some.injEq, Prod.mk.injEq] at h
    exact ⟨⟨_, h.2.2.symm⟩, .inl ⟨_, _, rfl, h.2.1.symm⟩⟩
  · simp only [Option.ite_none_right_eq_some, Option.some.injEq, Prod.mk.injEq] at h
    exact ⟨⟨_, h.2.2.symm⟩, .inr ⟨_, h.1.1, h.2.1.symm, nofun⟩⟩
  · simp only [Option.ite_none_right_eq_some, Option.some.injEq, Prod.mk.injEq] at h
    exact ⟨⟨s.revision, h.2.2.symm⟩, .inr ⟨_, h.1, h.2.1.symm, nofun⟩⟩
  · cases h

/-! ## Rules. -/

section Rules

variable {α μ : Type} {M : Monitor Live Op Exc Reply μ} {E : Exc → Live → μ → Prop} {Q : α → Live → μ → Prop}
  {s : Live} {m : μ}

theorem leads_memory {f : Live → α × Live}
    (h : ∀ d, M.ok m ⟨.memory, .ok d, none, s, (f s).2⟩ ∧
      Q (f s).1 (f s).2 (M.next m ⟨.memory, .ok d, none, s, (f s).2⟩)) :
    Leads Alone M E (memory f) Q s m := by
  refine Watched.memory fun s₁ d halone => ?_
  obtain rfl : s = s₁ := halone
  exact h d

theorem leads_observe {op : Op} {answer : Reply → Option α}
    (hok : ∀ d r, answer d = some r → M.ok m ⟨op, .ok d, none, s, s⟩ ∧ Q r s (M.next m ⟨op, .ok d, none, s, s⟩))
    (herr : ∀ e, fault e = true →
      M.ok m ⟨op, .fail e, some e, s, s⟩ ∧ E e s (M.next m ⟨op, .fail e, some e, s, s⟩)) :
    Leads Alone M E (observe op answer) Q s m := by
  intro s₁ halone a r s₂ hact
  obtain rfl : s = s₁ := halone
  cases a with
  | ok d =>
      obtain ⟨v, hv, heq⟩ := Option.map_eq_some_iff.mp hact
      simp only [Prod.mk.injEq] at heq
      obtain ⟨rfl, rfl⟩ := heq
      exact hok d v hv
  | fail e =>
      simp only [Option.ite_none_right_eq_some, Option.some.injEq, Prod.mk.injEq] at hact
      obtain ⟨hfault, rfl, rfl⟩ := hact
      exact herr e hfault
  | lost => cases hact
  | late => cases hact

/-- What `except Exception` catches becomes a value. -/
theorem leads_caught {p : Edit α} {P : Except Exc α → Live → μ → Prop}
    (hp : Leads Alone M (fun e s m => if e.isException then P (.error e) s m else E e s m) p (fun a => P (.ok a)) s m) :
    Leads Alone M E (caught p) P s m := by
  refine Leads.tryCatch (Leads.bind hp fun a s m h => h) fun e s m h => ?_
  by_cases hexc : e.isException
  · rw [if_pos hexc] at h ⊢
    exact h
  · rw [if_neg hexc] at h ⊢
    exact h

end Rules

/-! ## Idle steps. -/

/-- The model is not asked, no tool runs and no counter moves. -/
def Idle (st : EditStep) : Prop :=
  (match st.op with
    | .invoke .. | .summarize .. | .execute _ => False
    | _ => True) ∧ st.before.metrics = st.after.metrics

/-- An await that changes nothing is idle, if its operation is. -/
theorem all_observe {α : Type} {op : Op} {answer : Reply → Option α}
    (hop : match op with
      | .invoke .. | .summarize .. | .execute _ => False
      | _ => True) : (observe op answer).All Idle := by
  intro a s r s' hact
  refine ⟨⟨hop, ?_⟩, trivial⟩
  cases a with
  | ok d =>
      obtain ⟨v, _, heq⟩ := Option.map_eq_some_iff.mp hact
      simp only [Prod.mk.injEq] at heq
      rw [heq.2]
  | fail e =>
      simp only [Option.ite_none_right_eq_some, Option.some.injEq, Prod.mk.injEq] at hact
      rw [hact.2.2]
  | lost => cases hact
  | late => cases hact

theorem all_receive {op : Op} (hop : match op with
      | .invoke .. | .summarize .. | .execute _ => False
      | _ => True) : (receive op).All Idle :=
  all_observe hop

theorem all_check {op : Op} (hop : match op with
      | .invoke .. | .summarize .. | .execute _ => False
      | _ => True) : (check op).All Idle :=
  all_observe hop

theorem all_read {α : Type} (f : Live → α) : (memory fun s => (f s, s)).All Idle :=
  each_memory (fun _ _ => ⟨trivial, rfl⟩) fun _ => trivial

theorem all_emit (event : Event) : (emit event).All Idle := by
  intro a s r s' hact
  refine ⟨⟨trivial, ?_⟩, trivial⟩
  rcases emitStep_cases hact with ⟨_, _, rfl⟩ | ⟨_, rfl⟩ | ⟨e, _, _, rfl | rfl⟩ <;> rfl

theorem all_saveRevision : saveRevision.All Idle := by
  intro a s r s' hact
  refine ⟨⟨trivial, ?_⟩, trivial⟩
  rcases saveRevisionStep_cases hact with ⟨_, rfl | rfl⟩ | ⟨e, _, _, rfl | rfl⟩ <;> rfl

theorem all_saveFiles : saveFiles.All Idle := by
  refine All.bind (all_read _) fun events => ?_
  split
  · exact all_raise _
  · exact All.bind (all_observe trivial) fun _ => All.bind (all_observe trivial) fun _ => all_saveRevision

theorem all_checkpoint (dirty : Bool) : (checkpoint dirty).All Idle := by
  cases dirty with
  | true => exact All.bind all_saveFiles fun _ => all_observe trivial
  | false => exact all_observe trivial

theorem all_caught {α : Type} {p : Edit α} (hp : p.All Idle) : (caught p).All Idle := by
  refine All.tryCatch (All.bind hp fun _ => all_done _) fun e => ?_
  split
  · exact all_done _
  · exact all_raise _

theorem all_readInitial (paths : List String) : (readInitial paths).All Idle := by
  induction paths with
  | nil => exact all_done _
  | cons path paths ih =>
      exact All.bind (all_caught (all_receive trivial)) fun _ => All.bind ih fun _ => all_done _

theorem all_checkSandbox : checkSandbox.All Idle := by
  refine All.bind (all_emit _) fun _ => All.bind (all_observe trivial) fun r => ?_
  obtain ⟨ok, explanation⟩ := r
  cases ok with
  | true => exact all_emit _
  | false => exact All.bind (all_emit _) fun _ => all_raise _

section Idle

variable {α μ : Type} {M : Monitor Live Op Exc Reply μ} {E : Exc → Live → μ → Prop} {P : Live → μ → Prop}
  {s : Live} {m : μ}

/-- **The rule of idle coroutines.** -/
theorem leads_idle {p : Edit α} (hp : p.All Idle)
    (hstep : ∀ st m, Idle st → P st.before m → M.ok m st ∧ P st.after (M.next m st))
    (hE : ∀ e s m, P s m → E e s m) (hs : P s m) : Leads Alone M E p (fun _ => P) s m := by
  refine Leads.of_all hp (fun s s₁ m halone h => ?_) hstep hE hs
  obtain rfl : s = s₁ := halone
  exact h

end Idle

end WebBuilder.Conversation
