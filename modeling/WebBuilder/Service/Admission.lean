/-
  WebBuilder.Service.Admission — one owner at a time.

  Main results:
    * `refused_unchanged` — an admission that answers with an HTTP error has
      changed nothing, whatever others did in between;
    * `one_owner` — in every reachable state of the worker a project has one
      active run or one opening at most, the bound on operations holds, and
      neither deletion nor housekeeping touches a busy project.
-/
import WebBuilder.Run.Outcomes
import WebBuilder.Service.Lock

namespace WebBuilder.Service

open WebBuilder.Async WebBuilder.Store WebBuilder.Run

variable {α β : Type} {cfg : Config}

/-! ## §1. Refusals. -/

/-- Credits, projects, runs, messages and operations are as before. -/
structure Unadmitted (st : WStep) : Prop where
  users : st.after.db.users = st.before.db.users
  chats : st.after.db.chats = st.before.db.chats
  runs : st.after.db.runs = st.before.db.runs
  messages : st.after.db.messages = st.before.db.messages
  active : st.after.mem.active = st.before.mem.active
  opening : st.after.mem.opening = st.before.mem.opening

/-- It notes whether anything has changed. -/
def admissions : Monitor World Label Exc Datum Prop where
  next changed st := changed ∨ ¬ Unadmitted st
  ok _ _ := True

theorem after_admissions (changed : Prop) (steps : List WStep) :
    admissions.after changed steps ↔ changed ∨ ∃ st ∈ steps, ¬ Unadmitted st := by
  induction steps generalizing changed with
  | nil => simp [Monitor.after]
  | cons st steps ih =>
      show admissions.after (changed ∨ ¬ Unadmitted st) steps ↔ _
      rw [ih, List.exists_mem_cons_iff, or_assoc]

theorem unadmitted_refl {l : Label} {a : Answer Exc Datum} {e : Option Exc} {w : World} :
    Unadmitted ⟨l, a, e, w, w⟩ := ⟨rfl, rfl, rfl, rfl, rfl, rfl⟩

/-- An HTTP error comes from an unchanged state. -/
def Refusal (r : Except Exc α) (_ : World) (changed : Prop) : Prop :=
  ∀ status detail, r = .error (.http status detail) → ¬ changed

section Refusals

variable {w : World}

/-- A part that changes nothing. -/
theorem unchanged_all {p : Act α} (hp : p.All Unadmitted) (w : World) :
    Watched Anything admissions p (fun _ _ changed => ¬ changed) w False := by
  refine (Watched.of_each (P := fun _ changed => ¬ changed) (fun _ _ _ _ h => h) ?_ hp id).mono fun _ _ _ h => h.2
  exact fun st changed hst hno => ⟨trivial, fun h => h.elim hno fun hn => hn hst⟩

/-- After a part that changes nothing. -/
theorem refusal_after {p : Act α} {f : α → Act β} (hp : p.All Unadmitted)
    (hf : ∀ a w, Watched Anything admissions (f a) Refusal w False) :
    Watched Anything admissions (p.bind f) Refusal w False := by
  refine Watched.bind (unchanged_all hp w) (fun a w changed h => ?_) fun _ _ _ h _ _ _ => h
  rw [eq_false h]
  exact hf a w

theorem unadmitted_memory {f : World → α × World} (hdb : ∀ w, (f w).2.db = w.db)
    (hactive : ∀ w, (f w).2.mem.active = w.mem.active) (hopening : ∀ w, (f w).2.mem.opening = w.mem.opening) :
    (memory f).All Unadmitted :=
  all_memory fun _ w => ⟨by rw [hdb], by rw [hdb], by rw [hdb], by rw [hdb], hactive w, hopening w⟩

theorem unadmitted_requireSandboxCapacity (chatId : Option Nat) :
    (requireSandboxCapacity cfg chatId).All Unadmitted := by
  refine All.bind (all_query fun _ _ _ => unadmitted_refl) fun rows => ?_
  refine All.bind (each_memory (fun _ _ => unadmitted_refl) fun _ => trivial) fun reserved => ?_
  refine All.bind ?_ fun row => ?_
  · unfold runtimeOf
    split
    · exact all_query fun _ _ _ => unadmitted_refl
    · trivial
  · dsimp only
    split <;> trivial

/-- A critical section refuses when its body does. -/
theorem refusal_withAdmission {t : Nat} {p : Act α}
    (hp : ∀ w, Watched Anything admissions p Refusal w False) (w : World) :
    Watched Anything admissions (withAdmission t p) Refusal w False := by
  refine refusal_after (all_waitFor (fun _ w r w' h => ?_) fun _ _ _ => unadmitted_refl) fun _ w => ?_
  · split at h
    · cases h
    · simp only [Option.some.injEq, Prod.mk.injEq] at h
      obtain ⟨_, rfl⟩ := h
      exact ⟨rfl, rfl, rfl, rfl, rfl, rfl⟩
  · refine Watched.onExit (hp w) fun r w changed h => ?_
    intro w₁ _ a r' w₂ hact
    cases a <;> simp only [Option.some.injEq, Prod.mk.injEq, reduceCtorEq] at hact
    obtain ⟨rfl, rfl⟩ := hact
    refine ⟨trivial, fun status detail hr hchanged => h status detail hr (hchanged.resolve_right ?_)⟩
    exact not_not.mpr ⟨rfl, rfl, rfl, rfl, rfl, rfl⟩

/-- A transaction that fails has changed nothing, unless its answer is lost. -/
theorem refusal_commit {scopes : List Scope} {body : World → Except Exc (α × World)} (w : World) :
    Watched Anything admissions (Co.transaction databaseFault ⟨.commit, scopes⟩ body)
      (fun r _ changed => ∀ e, r = .error e → databaseFault e = true ∨ ¬ changed) w False := by
  refine Watched.transaction (fun w₁ an v e w₂ _ _ => ⟨trivial, fun x h => ?_, fun x hx y hy => ?_⟩)
    (fun w₁ an e _ _ => ⟨trivial, fun _ _ => ?_⟩)
  · cases h
  · exact .inl (Except.error.inj hy ▸ hx)
  · right
    exact fun hchanged => hchanged.elim id fun h => h unadmitted_refl

theorem refusal_admitLocked (userId : Nat) (prompt : String) (chatId : Option Nat) (w : World) :
    Watched Anything admissions (admitLocked cfg userId prompt chatId) Refusal w False := by
  refine refusal_after (unadmitted_memory (fun _ => rfl) (fun _ => rfl) fun _ => rfl) fun full w => ?_
  split
  · exact fun _ _ _ => id
  refine refusal_after (unadmitted_requireSandboxCapacity chatId) fun _ w => ?_
  refine refusal_after (unadmitted_memory (fun _ => rfl) (fun _ => rfl) fun _ => rfl) fun busy w => ?_
  -- A fault at the commit is no refusal; after the commit nothing is refused.
  refine Watched.bind (refusal_commit w) (fun a w changed _ => ?_) fun e w changed h status detail he => ?_
  · refine Watched.bind (P := fun r _ _ => ∀ e, r ≠ .error e) ?_ (fun a w changed _ => ?_)
      (fun e _ _ h => absurd rfl (h e))
    · intro w₁ _ an r w₂ hact
      cases an <;> simp only [Option.some.injEq, Prod.mk.injEq, reduceCtorEq] at hact
      obtain ⟨rfl, rfl⟩ := hact
      exact ⟨trivial, fun e h => by cases h⟩
    · exact fun _ _ h => by cases h
  · obtain rfl := Except.error.inj he
    exact (h _ rfl).resolve_left (by simp [databaseFault])

theorem refusal_admitRun (cfg : Config) (t userId : Nat) (prompt : String) (chatId : Option Nat) (w : World) :
    Watched Anything admissions (admitRun cfg t userId prompt chatId) Refusal w False := by
  unfold admitRun
  dsimp only
  split
  · exact fun _ _ _ => id
  · exact refusal_withAdmission (refusal_admitLocked userId _ chatId) w

theorem refusal_reserveOpening (cfg : Config) (t c : Nat) (w : World) :
    Watched Anything admissions (withAdmission t (reserveOpening cfg t c)) Refusal w False := by
  refine refusal_withAdmission (fun w => ?_) w
  refine refusal_after (unadmitted_memory (fun _ => rfl) (fun _ => rfl) fun _ => rfl) fun refused w => ?_
  split
  · exact fun _ _ _ => id
  refine refusal_after (unadmitted_requireSandboxCapacity _) fun _ w => ?_
  intro w₁ _ an r w₂ hact
  cases an <;> simp only [Option.some.injEq, Prod.mk.injEq, reduceCtorEq] at hact
  obtain ⟨rfl, rfl⟩ := hact
  exact ⟨trivial, fun _ _ h => by cases h⟩

/-- **A refusal changes nothing**: no step before it has. -/
theorem Refusal.unchanged {p : Act α} {w w' : World} {steps : List WStep} {status : Nat} {detail : String}
    (hp : Watched Anything admissions p Refusal w False)
    (h : Performs Anything w p steps w' (.done (.error (.http status detail)))) : ∀ st ∈ steps, Unadmitted st := by
  have hclean : ¬ admissions.after False steps := (hp.performs h) status detail rfl
  rw [after_admissions, false_or] at hclean
  push Not at hclean
  exact hclean

end Refusals

/-! ## §2. One owner. -/

/-- The calls that look after idle sandboxes. -/
def ServiceCall.isHousekeeping : ServiceCall → Prop
  | .reap | .previewStatus _ _ => True
  | _ => False

/-- What holds of the projects of a worker. -/
structure OneOwner (cfg : Config) (p : Pool Nat ServiceCall World Label Exc Datum) : Prop where
  registered : ∀ r ∈ p.shared.mem.active, (p.shared.live? r).isSome
  active : p.shared.mem.active.Nodup
  opening : p.shared.mem.opening.Nodup
  /-- A project has one active run at most. -/
  run : ∀ r ∈ p.shared.mem.active, ∀ r' ∈ p.shared.mem.active, ∀ live live', p.shared.live? r = some live →
    p.shared.live? r' = some live' → live.chatId = live'.chatId → r = r'
  /-- A project with an active run is not being opened. -/
  apart : ∀ r ∈ p.shared.mem.active, ∀ live, p.shared.live? r = some live → live.chatId ∉ p.shared.mem.opening
  bound : p.shared.mem.active.length + p.shared.mem.opening.length ≤ cfg.maxConcurrentRuns
  /-- The step that deletes a project finds it idle. -/
  deletion : ∀ e q, (service cfg).step p e = some q → ∀ c, (p.shared.db.chats.get? c).isSome →
    (q.shared.db.chats.get? c).isNone → c ∉ p.shared.mem.busy
  /-- As long as housekeeping has an operation pending on a sandbox, its project is idle. -/
  housekeeping : ∀ t k l β (act : Answer Exc Datum → World → Option (Except Exc β × World)) resume,
    p.tasks t = some (k, .await l act resume) → k.isHousekeeping → ∀ c, project? l = some c →
      c ∉ p.shared.mem.busy

section Lists

variable {γ δ : Type} {f : γ → Option δ} {xs : List γ}

/-- Distinct images have distinct sources. -/
theorem nodup_of_filterMap (hf : ∀ x ∈ xs, (f x).isSome) (h : (xs.filterMap f).Nodup) : xs.Nodup := by
  rw [List.Nodup, List.pairwise_filterMap] at h
  refine List.Pairwise.imp_of_mem (fun {x y} hx _ hxy heq => ?_) h
  obtain ⟨b, hb⟩ := Option.isSome_iff_exists.mp (hf x hx)
  exact hxy b hb b (heq ▸ hb) rfl

theorem injective_of_filterMap (h : (xs.filterMap f).Nodup) {x y : γ} {b : δ} (hx : x ∈ xs) (hy : y ∈ xs)
    (hxb : f x = some b) (hyb : f y = some b) : x = y := by
  rw [List.Nodup, List.pairwise_filterMap] at h
  by_contra hne
  have hsymm : Std.Symm fun a a' => ∀ b, f a = some b → ∀ b', f a' = some b' → b ≠ b' :=
    ⟨fun a a' haa b hb b' hb' => (haa b' hb' b hb).symm⟩
  exact h.forall hx hy hne b hxb b hyb rfl

end Lists

/-- The lists of the worker, from its invariant. -/
theorem one_owner_of_good {p : Pool Nat ServiceCall World Label Exc Datum}
    (hp : Sound.Good (service cfg) Always (locking cfg) (fun _ _ => Any) p) : OneOwner cfg p := by
  have hinv : Locked cfg p.shared := hp.1
  have hnodup := List.nodup_append'.mp hinv.nodup
  have hchat : ∀ r live, p.shared.live? r = some live →
      (p.shared.mem.runs.get? r).map LiveRun.chatId = some live.chatId := fun r live h =>
    Option.map_eq_some_iff.mpr ⟨live, h, rfl⟩
  refine ⟨hinv.live, ?_, hnodup.2.1, ?_, ?_, hinv.bound, fun e q hstep c hc hc' => ?_, ?_⟩
  · exact nodup_of_filterMap (fun r hr => (Option.isSome_map ..).trans (hinv.live r hr)) hnodup.1
  · intro r hr r' hr' live live' hlive hlive' heq
    exact injective_of_filterMap hnodup.1 hr hr' (hchat r live hlive) (heq ▸ hchat r' live' hlive')
  · intro r hr live hlive
    exact hnodup.2.2 (List.mem_filterMap.mpr ⟨r, hr, hchat r live hlive⟩)
  · have hmeets : System.Meets Always p e := by
      cases e <;> simp [System.Meets, Always]
    rcases (Sound.step (lock_sound cfg) hp hmeets hstep).2 with ⟨d, rfl⟩ | ⟨u, hmoves⟩
    · cases hstep
    · exact hmoves.kept c hc hc'
  · intro t k l β act resume ht hk c hc
    have hneed := Sound.Good.need hp ht
    cases k with
    | reap => exact hneed c hc
    | previewStatus userId chatId => exact hneed c hc
    | _ => exact hk.elim

theorem locked_start {w : World} (hw : Started w) : Locked cfg w := by
  refine ⟨?_, ?_, ?_, ?_, hw.chats, ?_⟩
  all_goals simp [hw.mem, Memory.initial, Memory.busy, World.live?]

/-- **A project has one owner at a time**, in every reachable state; and a
refused request has changed nothing. -/
theorem one_owner (cfg : Config) {w₀ : World} (hw : Started w₀) :
    (∀ p, (service cfg).Reaches Always (Pool.start w₀) p → OneOwner cfg p) ∧
      (∀ t userId prompt chatId w steps w' status detail,
        Performs Anything w (admitRun cfg t userId prompt chatId) steps w' (.done (.error (.http status detail))) →
          ∀ st ∈ steps, Unadmitted st) ∧
      ∀ t c w steps w' status detail,
        Performs Anything w (withAdmission t (reserveOpening cfg t c)) steps w'
            (.done (.error (.http status detail))) →
          ∀ st ∈ steps, Unadmitted st := by
  refine ⟨fun p hreach => ?_, fun t userId prompt chatId w steps w' status detail h => ?_,
    fun t c w steps w' status detail h => ?_⟩
  · exact one_owner_of_good (Sound.reaches (lock_sound cfg) (Sound.good_start (locked_start hw)) hreach)
  · exact Refusal.unchanged (refusal_admitRun cfg t userId prompt chatId w) h
  · exact Refusal.unchanged (refusal_reserveOpening cfg t c w) h

/-- A request of the user `1` in the project `2` is admitted. -/
def admission : List (Async.Event Nat ServiceCall Exc Datum) :=
  .enter 0 (.admitRun 1 "x" (some 2)) :: List.replicate 9 (.resume 0 (.ok .none))

theorem started_plainWorld : Started Runtime.plainWorld := by
  refine ⟨rfl, fun c hc => ?_, (fun r hr => by cases hr), (fun v hv => by cases hv)⟩
  have hc : ((Table.empty.put _ : Table Chat).get? c).isSome := hc
  rw [Table.get?_put] at hc
  split at hc
  · rename_i heq
    exact heq ▸ Nat.lt_succ_self 2
  · cases hc

theorem one_owner_admission :
    ∃ p, (service Runtime.plainConfig).Reaches Always (Pool.start Runtime.plainWorld) p ∧
      p.shared.mem.active = [3] ∧ OneOwner Runtime.plainConfig p := by
  have hrun : ((service Runtime.plainConfig).run (fun _ _ _ _ => true) admission
      (Pool.start Runtime.plainWorld)).any (fun p => p.shared.mem.active = [3]) = true := by
    decide
  obtain ⟨p, hp, hactive⟩ := (Option.any_eq_true _ _).mp hrun
  have hreach : (service Runtime.plainConfig).Reaches Always _ p :=
    System.run_reaches (fun _ _ _ _ _ => trivial) admission hp
  exact ⟨p, hreach, of_decide_eq_true hactive, (one_owner Runtime.plainConfig started_plainWorld).1 p hreach⟩

end WebBuilder.Service
