/-
  WebBuilder.Auth.MailLimits — verification mail is rate limited.

  `sendVerification` reads the clock before it waits for its two locks, so its
  thresholds are old when it uses them, and the token is dated later still.
  Both errors are on the safe side: a row that the old threshold leaves out is
  in no window that the new token can fall into.  What has been counted stays,
  since nobody else sends for the same client or to the same user before the
  commit.

  Main results:
    * `safe_sendVerification` — a link is flushed only if it has room;
    * `mail_rate_limited` — all reachable states.
-/
import WebBuilder.Auth.Throttle

namespace WebBuilder.Auth.Verification

open WebBuilder.Async WebBuilder.Store

/-! ## §1. One await. -/

def discipline (cfg : Config) : Discipline Nat Call Server Op where
  inv := Inv cfg
  guar u s s' :=
    match u with
    | some t => Move t s s'
    | none => ∀ t, Move t s s'

abbrev sessionGuard (cfg : Config) (t : Nat) (k : Call) : Guard Server Op AuthExc Reply :=
  (discipline cfg).at (verification cfg) (fun _ _ _ _ => True) t k

/-- The request is open, and `A` holds. -/
def Running (t : Nat) (A : Server → Prop) (s : Server) : Prop := t ∈ s.requests ∧ A s

/-- What a part of a request leaves to the next one. -/
def Leaves {α : Type} (t : Nat) (Q : α → Server → Prop) (r : Except AuthExc α) (s : Server) : Prop :=
  Running t (fun s => ∀ a, r = .ok a → Q a s) s

section Awaits

variable {cfg : Config} {t : Nat} {k : Call} {s s' : Server} {α β : Type} {A : Server → Prop}

theorem stable_of_move (h : ∀ s s' u, Inv cfg s → u ≠ t → Move u s s' → A s → A s') :
    (sessionGuard cfg t k).Stable A := by
  intro s s' hinv _ hrely hA
  obtain ⟨u, hne, hmove⟩ := hrely
  cases u with
  | some u => exact h s s' u hinv (fun heq => hne (heq ▸ rfl)) hmove hA
  | none =>
      have hpass : ∀ u, Move u s s' := hmove
      exact h s s' (t + 1) hinv (Nat.succ_ne_self t) (hpass _) hA

theorem stable_running (hA : (sessionGuard cfg t k).Stable A) : (sessionGuard cfg t k).Stable (Running t A) :=
  (stable_of_move fun _ _ _ _ _ hmove h => hmove.requests t h).and hA

/-- Sequencing. -/
theorem safe_then {p : Request α} {f : α → Request β} {Q : α → Server → Prop} {R : β → Server → Prop}
    (hp : Safe (sessionGuard cfg t k) p (Leaves t Q) s)
    (hf : ∀ a s', Running t (Q a) s' → Safe (sessionGuard cfg t k) (f a) (Leaves t R) s') :
    Safe (sessionGuard cfg t k) (p.bind f) (Leaves t R) s := by
  refine Safe.bind hp (fun a s' h => hf a s' ⟨h.1, h.2 a rfl⟩) fun e s' h => ⟨h.1, fun b hb => ?_⟩
  cases hb

theorem leaves_ok {Q : α → Server → Prop} {a : α} (h : Running t (Q a) s) : Leaves t Q (.ok a) s :=
  ⟨h.1, fun _ heq => Except.ok.inj heq ▸ h.2⟩

theorem leaves_error {Q : α → Server → Prop} {e : AuthExc} (h : t ∈ s.requests) : Leaves t Q (.error e) s :=
  ⟨h, fun _ heq => by cases heq⟩

/-- **The rule of a statement**: what it does to a free state. -/
theorem safe_statement {op : Op} {busy : Server → Bool} {body : Server → Except AuthExc α × Server}
    {Q : α → Server → Prop} (hA : (sessionGuard cfg t k).Stable A)
    (hbody : ∀ s, Inv cfg s → A s → busy s = false → ∃ cs, Early t cs s (body s).2 ∧ Legal cfg t cs s (body s).2 ∧
      ∀ a, (body s).1 = .ok a → Q a (body s).2)
    (hs : Running t A s) : Safe (sessionGuard cfg t k) (statement op busy body) (Leaves t Q) s := by
  refine Safe.await (Running t A) hs (stable_running hA) ?_ fun _ _ _ => trivial
  intro s₁ hinv hs₁ a r s₂ _ hact
  have hdone : busy s₁ = false → s₂ = (body s₁).2 → (∀ v, r = .ok v → (body s₁).1 = .ok v) →
      Inv cfg s₂ ∧ Move t s₁ s₂ ∧ Leaves t Q r s₂ := by
    intro hfree hs₂ hr
    obtain ⟨cs, hearly, hlegal, hQ⟩ := hbody s₁ hinv hs₁.2 hfree
    rw [← hs₂] at hearly hlegal hQ
    exact ⟨hinv.early hearly hlegal hs₁.1, hearly.move, hearly.move.requests t hs₁.1, fun v hv => hQ v (hr v hv)⟩
  have hfail : ∀ e, r = .error e → s₂ = s₁ → Inv cfg s₂ ∧ Move t s₁ s₂ ∧ Leaves t Q r s₂ := by
    intro e hr hs₂
    rw [hs₂, hr]
    exact ⟨hinv, (hinv.pass le_rfl fun _ h => h).2 t, leaves_error hs₁.1⟩
  cases a with
  | ok d =>
      cases hbusy : busy s₁ with
      | true => simp [hbusy] at hact
      | false =>
          simp only [hbusy, Bool.false_eq_true, if_false, Option.some.injEq] at hact
          exact hdone hbusy (congrArg Prod.snd hact).symm fun v hv => (congrArg Prod.fst hact).trans hv
  | fail e =>
      simp only [Option.ite_none_right_eq_some, Option.some.injEq, Prod.mk.injEq] at hact
      exact hfail e hact.2.1.symm hact.2.2.symm
  | lost e d =>
      simp only [Option.ite_none_right_eq_some, Option.some.injEq, Prod.mk.injEq] at hact
      refine hdone hact.1.2 hact.2.2.symm fun v hv => ?_
      rw [← hact.2.1] at hv
      cases hv
  | late e d => cases hact

/-- An await that leaves the server alone. -/
theorem safe_still {op : Op} {act : Answer AuthExc Reply → Server → Option (Except AuthExc α × Server)}
    {Q : α → Server → Prop} (hA : (sessionGuard cfg t k).Stable A)
    (hact : ∀ a s r s', A s → act a s = some (r, s') → s' = s ∧ ∀ v, r = .ok v → Q v s)
    (hs : Running t A s) : Safe (sessionGuard cfg t k) (.await op act .done) (Leaves t Q) s := by
  refine Safe.await (Running t A) hs (stable_running hA) ?_ fun _ _ _ => trivial
  intro s₁ hinv hs₁ a r s₂ _ hstep
  obtain ⟨rfl, hQ⟩ := hact a s₁ r s₂ hs₁.2 hstep
  exact ⟨hinv, (hinv.pass le_rfl fun _ h => h).2 t, hs₁.1, hQ⟩

/-- `datetime.now`. -/
theorem safe_readClock {Q : Nat → Server → Prop} (hA : (sessionGuard cfg t k).Stable A)
    (hQ : ∀ s, A s → Q s.clock s) (hs : Running t A s) :
    Safe (sessionGuard cfg t k) readClock (Leaves t Q) s := by
  refine safe_still hA (fun a s r s' hs hact => ?_) hs
  cases a <;> simp only [Option.some.injEq, Prod.mk.injEq, reduceCtorEq] at hact
  refine ⟨hact.2.symm, fun v hv => ?_⟩
  rw [← hact.1] at hv
  exact Except.ok.inj hv ▸ hQ s hs

theorem early_refl (s : Server) : Early t [] s s where
  clock := rfl
  requests := rfl
  db := rfl
  commits := rfl
  pending := by simp
  nextUser := le_rfl
  addresses _ _ h := h
  rows _ _ h := h
  bound _ h := .inl h

/-- Locks are always legal. -/
theorem legal_nil (hinv : Inv cfg s) : Legal cfg t [] s s' where
  deleted _ h := by cases h
  room _ h := by cases h
  single := by
    rw [List.append_nil]
    exact hinv.flushed.single t
  touched _ h := by cases h
  verified _ h := by cases h

/-- What a single change needs. -/
theorem legal_one {c : Change} (hdeleted : ∀ xs, c = .deleted xs → ∀ x ∈ xs, x.expiresAt + day < s.clock)
    (hroom : ∀ x, c = .token x → x.isMail → Room cfg t x.requestIp x.userId x.createdAt s')
    (hsingle : (sending (s.store.own t ++ [c])).length ≤ 1) (htouched : ∀ id, c.touches id → s'.rows id = some t)
    (hverified : ∀ id, c = .verified id → sending (s.store.own t) = []) : Legal cfg t [c] s s' where
  deleted xs h := hdeleted xs (List.mem_singleton.mp h).symm
  room x h := hroom x (List.mem_singleton.mp h).symm
  single := hsingle
  touched _ h id htouch := htouched id (List.mem_singleton.mp h ▸ htouch)
  verified id h := hverified id (List.mem_singleton.mp h).symm

theorem early_flush (s : Server) (c : Change) : Early t [c] s (s.setStore (s.store.flush t c)) where
  clock := rfl
  requests := rfl
  db := rfl
  commits := rfl
  pending := rfl
  nextUser := le_rfl
  addresses _ _ h := h
  rows _ _ h := h
  bound _ h := .inl h

/-- A flushed statement that sends nothing. -/
theorem single_silent (hinv : Inv cfg s) {c : Change} (hc : c.tokens = []) :
    (sending (s.store.own t ++ [c])).length ≤ 1 := by
  have hnone : sending [c] = [] := by
    unfold sending
    rw [List.flatMap_singleton, hc, List.filter_nil]
  rw [sending_append, hnone, List.append_nil]
  exact hinv.flushed.single t

theorem safe_query {f : Db → α} {Q : α → Server → Prop} (hA : (sessionGuard cfg t k).Stable A)
    (hQ : ∀ s, Inv cfg s → A s → Q (f (s.view t)) s) (hs : Running t A s) :
    Safe (sessionGuard cfg t k) (query t f) (Leaves t Q) s := by
  refine safe_statement hA (fun s hinv hA _ => ⟨[], early_refl s, legal_nil hinv, fun a ha => ?_⟩) hs
  exact Except.ok.inj ha ▸ hQ s hinv hA

/-- **The end of a transaction**: a rollback, a commit, or neither. -/
theorem safe_end {op : Op} {act : Answer AuthExc Reply → Server → Option (Except AuthExc Unit × Server)}
    (hact : ∀ a s r s', act a s = some (r, s') →
      s' = s ∨ s' = s.finish t (s.store.drop t) ∨ s' = s.finish t (s.store.commit Db.apply t))
    (hs : t ∈ s.requests) :
    Safe (sessionGuard cfg t k) (.await op act .done) (Leaves t fun _ _ => True) s := by
  refine Safe.await (Running t fun _ => True) ⟨hs, trivial⟩ (stable_running Guard.stable_true) ?_ fun _ _ _ => trivial
  intro s₁ hinv hs₁ a r s₂ _ hstep
  rcases hact a s₁ r s₂ hstep with rfl | rfl | rfl
  · exact ⟨hinv, (hinv.pass le_rfl fun _ h => h).2 t, hs₁.1, fun _ _ => trivial⟩
  · exact ⟨hinv.drop, move_finish (turn_drop s₁.store), hs₁.1, fun _ _ => trivial⟩
  · exact ⟨hinv.commit, move_finish (turn_commit s₁.store), hs₁.1, fun _ _ => trivial⟩

theorem safe_commit (hs : t ∈ s.requests) :
    Safe (sessionGuard cfg t k) (commit t) (Leaves t fun _ _ => True) s := by
  refine safe_end (fun a s r s' hact => ?_) hs
  cases a <;> simp only [commitStep, Option.ite_none_right_eq_some, Option.some.injEq, Prod.mk.injEq, reduceCtorEq] at hact
  · exact .inr (.inr hact.2.symm)
  · exact .inr (.inl hact.2.2.symm)
  · exact .inr (.inr hact.2.2.symm)

theorem safe_rollback (hs : t ∈ s.requests) :
    Safe (sessionGuard cfg t k) (rollback t) (Leaves t fun _ _ => True) s := by
  refine safe_end (fun a s r s' hact => ?_) hs
  cases a <;>
    simp only [rollbackStep, Option.ite_none_right_eq_some, Option.some.injEq, Prod.mk.injEq, reduceCtorEq] at hact
  · exact .inr (.inl hact.2.symm)
  · exact .inl hact.2.2.symm
  · exact .inr (.inl hact.2.2.symm)

theorem safe_close (hs : t ∈ s.requests) :
    Safe (sessionGuard cfg t k) (close t) (Leaves t fun _ _ => True) s := by
  refine safe_end (fun a s r s' hact => ?_) hs
  cases a <;> simp only [closeStep, Option.ite_none_right_eq_some, Option.some.injEq, Prod.mk.injEq, reduceCtorEq] at hact
  · exact .inr (.inl hact.2.symm)
  · exact .inr (.inl hact.2.2.symm)

end Awaits

/-! ## §2. The statements. -/

/-- The session has only inserted users. -/
def OnlyUsers (t : Nat) (s : Server) : Prop := ∀ c ∈ s.store.own t, ∃ u, c = .user u

/-- A link may be sent, if the token is one. -/
def MaySend (cfg : Config) (t : Nat) (purpose requestIp : String) (userId : Nat) (s : Server) : Prop :=
  purpose = "verify_email" → sending (s.store.own t) = [] ∧
    ∃ since, since ≤ s.clock ∧ Room cfg t requestIp userId since s

/-- The link may be created at this time. -/
def MayDate (cfg : Config) (t : Nat) (x : AuthToken) (s : Server) : Prop :=
  x.isMail → sending (s.store.own t) = [] ∧ Room cfg t x.requestIp x.userId x.createdAt s

section Statements

variable {cfg : Config} {t : Nat} {k : Call} {s s' : Server} {requestIp : String} {userId : Nat}

theorem stable_clock {now : Nat} : (sessionGuard cfg t k).Stable fun s => now ≤ s.clock :=
  stable_of_move fun _ _ _ _ _ hmove h => h.trans hmove.clock

theorem stable_onlyUsers : (sessionGuard cfg t k).Stable (OnlyUsers t) := by
  refine stable_of_move fun s s' u _ hne hmove h => ?_
  unfold OnlyUsers
  rw [hmove.turn.others t (Ne.symm hne)]
  exact h

theorem stable_address : (sessionGuard cfg t k).Stable fun s => s.addresses (cfg.lockId requestIp) = some t :=
  stable_of_move fun _ _ _ _ hne hmove h => hmove.addresses t (Ne.symm hne) _ h

theorem stable_unverified : (sessionGuard cfg t k).Stable (Unverified t userId) :=
  stable_of_move fun _ _ _ hinv hne hmove h => h.move hinv hne hmove

theorem stable_slot : (sessionGuard cfg t k).Stable fun s => ∃ since, since ≤ s.clock ∧ Slot cfg t requestIp since s :=
  stable_of_move fun _ _ _ hinv hne hmove ⟨since, hle, h⟩ =>
    ⟨since, hle.trans hmove.clock, h.move hinv hne hmove⟩

theorem stable_maySend {purpose : String} : (sessionGuard cfg t k).Stable (MaySend cfg t purpose requestIp userId) := by
  refine stable_of_move fun s s' u hinv hne hmove h hpurpose => ?_
  obtain ⟨hnone, since, hle, hroom⟩ := h hpurpose
  exact ⟨by rw [hmove.turn.others t (Ne.symm hne)]; exact hnone, since, hle.trans hmove.clock,
    hroom.move hinv hne hmove⟩

theorem stable_mayDate {x : AuthToken} : (sessionGuard cfg t k).Stable (MayDate cfg t x) := by
  refine stable_of_move fun s s' u hinv hne hmove h hmail => ?_
  obtain ⟨hnone, hroom⟩ := h hmail
  exact ⟨by rw [hmove.turn.others t (Ne.symm hne)]; exact hnone, hroom.move hinv hne hmove⟩

theorem OnlyUsers.silent (h : OnlyUsers t s) : sending (s.store.own t) = [] := by
  rw [List.eq_nil_iff_forall_not_mem]
  intro x hx
  obtain ⟨u, hu⟩ := h _ (mem_sending.mp hx).1
  cases hu

theorem OnlyUsers.tokens (h : OnlyUsers t s) : (s.view t).tokens = s.store.db.tokens := by
  have hfold : ∀ (cs : List Change) (db : Db), (∀ c ∈ cs, ∃ u, c = .user u) →
      (cs.foldl Db.apply db).tokens = db.tokens := by
    intro cs
    induction cs with
    | nil => intros; rfl
    | cons c cs ih =>
        intro db hcs
        obtain ⟨u, rfl⟩ := hcs c List.mem_cons_self
        rw [List.foldl_cons, ih _ fun c hc => hcs c (List.mem_cons_of_mem _ hc)]
        rfl
  exact hfold _ _ h

/-- The ids that a session sees are taken. -/
theorem id_lt_of_view (hinv : Inv cfg s) {u : User} (h : (s.view t).user? userId = some u) :
    userId < s.nextUser ∧ u.id = userId := by
  obtain ⟨hu, hid⟩ := mem_of_user? h
  refine ⟨?_, hid⟩
  rw [← hid]
  rcases ids_foldl _ _ u hu with ⟨v, hv, hvid⟩ | ⟨v, hv, hvid⟩
  · rw [← hvid]
    exact hinv.ids v hv
  · have hrow := hinv.flushed.touched t _ v.id (Transactional.mem_own.mp hv) rfl
    rw [← hvid]
    exact hinv.flushed.bound v.id (by rw [hrow]; simp)

/-- A row that is free and exists may be locked. -/
theorem early_row (s : Server) (cs : List Change) (hpending : s'.store.pending = s.store.pending ++ cs.map fun c => (t, c))
    (hs' : s' = { s with store := s'.store, rows := s.rows.take t userId }) (hdb : s'.store.db = s.store.db)
    (hcommits : s'.store.commits = s.store.commits) (hfree : s.rows.busy t userId = false)
    (hid : userId < s.nextUser) : Early t cs s s' := by
  rw [hs']
  refine ⟨rfl, rfl, hdb, hcommits, hpending, le_rfl, fun _ _ h => h, fun _ _ h => Locks.take_held hfree h,
    fun id hheld => ?_⟩
  by_cases hsame : id = userId
  · exact .inr (hsame ▸ hid)
  · exact .inl (by simpa [Locks.take, Function.update_of_ne hsame] using hheld)

theorem safe_lockAddress {A : Server → Prop} (hA : (sessionGuard cfg t k).Stable A)
    (hkeep : ∀ s s', Early t [] s s' → A s → A s') (hs : Running t A s) :
    Safe (sessionGuard cfg t k) (lockAddress cfg t requestIp)
      (Leaves t fun _ s => A s ∧ s.addresses (cfg.lockId requestIp) = some t) s := by
  refine safe_statement hA (fun s hinv hA hfree => ?_) hs
  have hearly : Early t [] s { s with addresses := s.addresses.take t (cfg.lockId requestIp) } :=
    { early_refl s with addresses := fun _ _ h => Locks.take_held hfree h }
  exact ⟨[], hearly, legal_nil hinv, fun _ _ => ⟨hkeep _ _ hearly hA, Locks.take_self⟩⟩

/-- The refreshed user is the one that stays. -/
theorem safe_refreshForUpdate (userId : Nat) {A : Server → Prop} (hA : (sessionGuard cfg t k).Stable A)
    (hkeep : ∀ s s', Early t [] s s' → A s → A s') (hs : Running t A s) :
    Safe (sessionGuard cfg t k) (refreshForUpdate t userId)
      (Leaves t fun user s => A s ∧ (user.emailVerified = false → Unverified t userId s)) s := by
  refine safe_statement hA (fun s hinv hA hfree => ?_) hs
  cases hfind : (s.view t).user? userId with
  | none =>
      refine ⟨[], ?_, legal_nil hinv, fun user huser => ?_⟩
      · dsimp only
        exact early_refl s
      · dsimp only at huser
        cases huser
  | some u =>
      have hearly : Early t [] s { s with rows := s.rows.take t userId } :=
        early_row s [] (by simp) rfl rfl rfl hfree (id_lt_of_view hinv hfind).1
      refine ⟨[], ?_, legal_nil hinv, fun user huser => ?_⟩
      · dsimp only
        exact hearly
      · simp only [Except.ok.injEq] at huser ⊢
        refine ⟨hkeep _ _ hearly hA, fun hfalse => ⟨Locks.take_self, u, hfind, ?_⟩⟩
        rw [huser]
        exact hfalse

theorem safe_insertUser {email : String} {emailVerified : Bool} (hs : Running t (OnlyUsers t) s) :
    Safe (sessionGuard cfg t k) (insertUser t email emailVerified) (Leaves t fun _ => OnlyUsers t) s := by
  refine safe_statement stable_onlyUsers (fun s hinv hA _ => ?_) hs
  have hfree : s.rows.busy t s.nextUser = false := by
    cases hrow : s.rows s.nextUser with
    | none => simp [Locks.busy, hrow]
    | some u => exact absurd (hinv.flushed.bound s.nextUser (by rw [hrow]; simp)) (Nat.lt_irrefl _)
  split
  · -- the address is taken
    refine ⟨[], ?_, legal_nil hinv, fun a ha => by cases ha⟩
    exact { early_refl s with nextUser := Nat.le_succ _, bound := fun _ h => .inl h }
  · refine ⟨[.user ⟨s.nextUser, email, emailVerified⟩],
      ⟨rfl, rfl, rfl, rfl, rfl, Nat.le_succ _, fun _ _ h => h, fun _ _ h => Locks.take_held hfree h, fun id hheld => ?_⟩,
      legal_one (fun xs h => by cases h) (fun x h => by cases h) (single_silent hinv rfl) (fun id htouch => ?_)
        (fun id h => by cases h), fun a _ c hc => ?_⟩
    · by_cases hsame : id = s.nextUser
      · exact .inr (hsame ▸ Nat.lt_succ_self _)
      · exact .inl (by simpa [Locks.take, Function.update_of_ne hsame] using hheld)
    · have hid : s.nextUser = id := htouch
      rw [← hid]
      exact Locks.take_self
    · rw [Transactional.own_flush_self] at hc
      rcases List.mem_append.mp hc with hc | hc
      · exact hA c hc
      · exact ⟨_, List.mem_singleton.mp hc⟩

theorem safe_markVerified (hs : Running t (OnlyUsers t) s) :
    Safe (sessionGuard cfg t k) (markVerified t userId) (Leaves t fun _ _ => True) s := by
  refine safe_statement stable_onlyUsers (fun s hinv hA hfree => ?_) hs
  cases hfind : (s.view t).user? userId with
  | none =>
      refine ⟨[], ?_, legal_nil hinv, fun _ _ => trivial⟩
      dsimp only
      exact early_refl s
  | some u =>
      refine ⟨[.verified userId], ?_, ?_, fun _ _ => trivial⟩
      · dsimp only
        exact early_row s _ rfl rfl rfl rfl hfree (id_lt_of_view hinv hfind).1
      · dsimp only
        refine legal_one (fun xs h => by cases h) (fun x h => by cases h) (single_silent hinv rfl) (fun id htouch => ?_)
          fun _ _ => hA.silent
        have hid : userId = id := htouch
        rw [← hid]
        exact Locks.take_self

theorem safe_deleteExpired {now : Nat} {purpose : String}
    (hs : Running t (fun s => MaySend cfg t purpose requestIp userId s ∧ now ≤ s.clock) s) :
    Safe (sessionGuard cfg t k) (deleteExpired t now) (Leaves t fun _ => MaySend cfg t purpose requestIp userId) s := by
  refine safe_statement (stable_maySend.and stable_clock) (fun s hinv ⟨hsend, hnow⟩ _ => ?_) hs
  have hearly := @early_flush t s (.deleted ((s.view t).tokens.filter fun x => x.expiresAt + day < now))
  refine ⟨_, hearly, legal_one (fun xs h x hx => ?_) (fun x h => by cases h) (single_silent hinv rfl)
    (fun id htouch => False.elim htouch) (fun id h => by cases h), fun _ _ hpurpose => ?_⟩
  · obtain rfl := Change.deleted.inj h
    have hlate : x.expiresAt + day < now := by simpa using (List.mem_filter.mp hx).2
    omega
  · obtain ⟨hnone, since, hle, hroom⟩ := hsend hpurpose
    refine ⟨?_, since, hle, hroom.early hearly (by simp)⟩
    rw [hearly.own, sending_append, hnone]
    rfl

theorem safe_insertToken {x : AuthToken} (hs : Running t (MayDate cfg t x) s) :
    Safe (sessionGuard cfg t k) (insertToken t x) (Leaves t fun _ _ => True) s := by
  refine safe_statement stable_mayDate (fun s hinv hA _ => ?_) hs
  split
  · exact ⟨[], early_refl s, legal_nil hinv, fun _ _ => trivial⟩
  · have hearly := @early_flush t s (.token x)
    refine ⟨[.token x], hearly, legal_one (fun xs h => by cases h) (fun y h hmail => ?_) ?_
      (fun id htouch => False.elim htouch) (fun id h => by cases h), fun _ _ => trivial⟩
    · obtain rfl := Change.token.inj h
      exact (hA hmail).2.early hearly (by simp)
    · have hone : sending [.token x] = [x].filter AuthToken.isMail := rfl
      rw [sending_append, hone]
      by_cases hmail : x.isMail = true
      · rw [(hA hmail).1]
        exact List.length_filter_le _ _
      · rw [List.filter_singleton, Bool.eq_false_iff.mpr hmail]
        exact (List.append_nil _).symm ▸ hinv.flushed.single t

/-- **A token** is flushed where it may be. -/
theorem safe_issueToken {purpose : String} {minutes : Nat}
    (hs : Running t (MaySend cfg t purpose requestIp userId) s) :
    Safe (sessionGuard cfg t k) (issueToken t userId purpose minutes requestIp) (Leaves t fun _ _ => True) s := by
  unfold issueToken
  refine safe_then (safe_readClock (Q := fun now s => MaySend cfg t purpose requestIp userId s ∧ now ≤ s.clock)
    stable_maySend (fun s h => ⟨h, le_rfl⟩) hs) fun now s₁ hs₁ => ?_
  refine safe_then (safe_deleteExpired hs₁) fun _ s₂ hs₂ => ?_
  refine safe_then (Q := fun _ => MaySend cfg t purpose requestIp userId)
    (safe_still stable_maySend (fun a s r s' hA hact => ?_) hs₂) fun token s₃ hs₃ => ?_
  · cases a with
    | ok d =>
        cases d <;> simp only [Option.some.injEq, Prod.mk.injEq, reduceCtorEq] at hact
        exact ⟨hact.2.symm, fun v _ => hact.2 ▸ hA⟩
    | fail e => cases hact
    | lost e d => cases hact
    | late e d => cases hact
  refine safe_then (safe_readClock (Q := fun created => MayDate cfg t ⟨token, purpose, userId, requestIp, created,
    now + minutes * minute⟩) stable_maySend (fun s hsend hmail => ?_) hs₃) fun created s₄ hs₄ => ?_
  · obtain ⟨hnone, since, hle, hroom⟩ := hsend (of_decide_eq_true hmail)
    exact ⟨hnone, hroom.later hle⟩
  refine safe_then (safe_insertToken hs₄) fun _ s₅ hs₅ => ?_
  exact leaves_ok hs₅

end Statements

/-! ## §3. What the two checks leave. -/

section Checks

variable {cfg : Config} {t : Nat} {s : Server} {requestIp : String} {userId now : Nat} {x : AuthToken}

/-- A link that the table has lost is too old for every window. -/
theorem mem_tokensOf (hinv : Inv cfg s) {l : Scope} (hx : x ∈ tokensOf s l) :
    x.isMail = true ∧ (x ∈ s.store.db.tokens ∨ x.createdAt + 15 * minute < s.clock) := by
  cases l with
  | stored =>
      obtain ⟨hx, hmail⟩ := List.mem_filter.mp hx
      exact ⟨hmail, .inl hx⟩
  | ever =>
      obtain ⟨hx, hprompt⟩ := List.mem_filter.mp hx
      obtain ⟨c, _, hsent⟩ := List.mem_flatMap.mp hx
      have hmail : x.isMail = true := (of_decide_eq_true (List.mem_filter.mp hsent).2).1
      refine ⟨hmail, (hinv.gone x hx).imp_right fun hlate => ?_⟩
      have hle : x.createdAt + 15 * minute ≤ x.expiresAt + day := of_decide_eq_true hprompt
      omega

/-- **The first check**, although its threshold is old. -/
theorem slot_of_recent (hinv : Inv cfg s) (honly : OnlyUsers t s) (hheld : s.addresses (cfg.lockId requestIp) = some t)
    (hnow : now ≤ s.clock) (hrecent : (s.view t).recent requestIp now < 5) : Slot cfg t requestIp s.clock s := by
  refine ⟨hheld, fun l start hstart => ?_⟩
  unfold Db.recent at hrecent
  rw [honly.tokens] at hrecent
  refine Nat.le_of_lt_succ ((List.subperm_of_subset ((hinv.spaced l).nodup.filter _) fun x hx => ?_).length_le.trans_lt
    hrecent)
  -- what is in the window is in the table, and after the threshold
  obtain ⟨hx, hwindow⟩ := List.mem_filter.mp hx
  obtain ⟨hip, hle, hlt⟩ := of_decide_eq_true hwindow
  obtain ⟨hmail, hstored⟩ := mem_tokensOf hinv hx
  have hrow : x ∈ s.store.db.tokens := hstored.resolve_right (by omega)
  exact List.mem_filter.mpr ⟨hrow, decide_eq_true ⟨of_decide_eq_true hmail, hip, by omega⟩⟩

/-- No token of the user is after the last one. -/
theorem last_ge {db : Db} (hx : x ∈ db.tokens) (huser : x.userId = userId) (hmail : x.isMail = true) :
    ∃ time, db.last userId = some time ∧ x.createdAt ≤ time := by
  let rows := db.tokens.filter fun x => x.userId = userId ∧ x.purpose = "verify_email"
  have hmem : x ∈ orderByDesc AuthToken.createdAt rows := by
    refine (orderBy_perm _ rows).mem_iff.mpr (List.mem_filter.mpr ⟨hx, ?_⟩)
    exact decide_eq_true ⟨huser, of_decide_eq_true hmail⟩
  have hsorted := orderBy_sorted (fun r : AuthToken => OrderDual.toDual r.createdAt) rows
  have hlast : db.last userId = (orderByDesc AuthToken.createdAt rows).head?.map AuthToken.createdAt := rfl
  rw [hlast]
  cases hrows : orderByDesc AuthToken.createdAt rows with
  | nil =>
      rw [hrows] at hmem
      cases hmem
  | cons y ys =>
      refine ⟨y.createdAt, rfl, ?_⟩
      rw [hrows] at hmem
      rcases List.mem_cons.mp hmem with rfl | hx
      · exact le_rfl
      · have hpair : (y :: ys).Pairwise fun a b => OrderDual.toDual a.createdAt ≤ OrderDual.toDual b.createdAt := by
          rw [← hrows]
          exact hsorted
        exact OrderDual.toDual_le_toDual.mp ((List.pairwise_cons.mp hpair).1 x hx)

/-- **The second check**, likewise. -/
theorem pause_of_last (hinv : Inv cfg s) (honly : OnlyUsers t s) (hheld : s.rows userId = some t) (hnow : now ≤ s.clock)
    (hlast : (((s.view t).last userId).any fun time => now < time + 60 * second) = false) :
    Pause t userId s.clock s := by
  refine ⟨hheld, fun l x hx huser => ?_⟩
  have hminute : 60 * second ≤ 15 * minute := by
    unfold minute
    omega
  obtain ⟨hmail, hstored⟩ := mem_tokensOf hinv hx
  rcases hstored with hrow | hold
  · rw [← honly.tokens] at hrow
    obtain ⟨time, htime, hle⟩ := last_ge hrow huser hmail
    rw [htime, Option.any_some] at hlast
    have hago : ¬ now < time + 60 * second := of_decide_eq_false hlast
    omega
  · omega

end Checks

/-! ## §4. The requests. -/

section Requests

variable {cfg : Config} {t : Nat} {k : Call} {s s' : Server}

theorem OnlyUsers.early (h : OnlyUsers t s) (hearly : Early t [] s s') : OnlyUsers t s' := by
  unfold OnlyUsers
  rw [hearly.own, List.append_nil]
  exact h

theorem leaves_trivial {r : Except AuthExc Unit} {A : Server → Prop} (h : Running t A s) :
    Leaves t (fun _ _ => True) r s := ⟨h.1, fun _ _ => trivial⟩

/-- **Every link has room** when it is flushed. -/
theorem safe_sendVerification {userId : Nat} {requestIp : String} (hs : Running t (OnlyUsers t) s) :
    Safe (sessionGuard cfg t k) (sendVerification cfg t userId requestIp) (Leaves t fun _ _ => True) s := by
  unfold sendVerification
  split
  · exact leaves_error hs.1
  refine safe_then (safe_readClock (Q := fun now s => OnlyUsers t s ∧ now ≤ s.clock) stable_onlyUsers
    (fun s h => ⟨h, le_rfl⟩) hs) fun now s₁ hs₁ => ?_
  have hstable := (@stable_onlyUsers cfg t k).and (@stable_clock cfg t k now)
  have hearly : ∀ s s', Early t [] s s' → OnlyUsers t s ∧ now ≤ s.clock → OnlyUsers t s' ∧ now ≤ s'.clock :=
    fun s s' h hs => ⟨hs.1.early h, h.clock ▸ hs.2⟩
  refine safe_then (safe_lockAddress hstable hearly hs₁) fun _ s₂ hs₂ => ?_
  have hstable := hstable.and (@stable_address cfg t k requestIp)
  refine safe_then (safe_refreshForUpdate userId hstable
    (fun s s' h hs => ⟨hearly s s' h hs.1, h.addresses t _ hs.2⟩) hs₂) fun user s₃ hs₃ => ?_
  split
  · exact leaves_trivial hs₃
  rename_i hverified
  have hstable := hstable.and (@stable_unverified cfg t k userId)
  refine safe_then (safe_query (Q := fun recent s => ((OnlyUsers t s ∧ now ≤ s.clock) ∧ Unverified t userId s) ∧
    (recent < 5 → ∃ since, since ≤ s.clock ∧ Slot cfg t requestIp since s)) hstable (fun s hinv h => ?_)
    ⟨hs₃.1, hs₃.2.1, hs₃.2.2 (by simpa using hverified)⟩) fun recent s₄ hs₄ => ?_
  · obtain ⟨⟨⟨honly, hnow⟩, hheld⟩, hunverified⟩ := h
    exact ⟨⟨⟨honly, hnow⟩, hunverified⟩, fun hfew => ⟨s.clock, le_rfl, slot_of_recent hinv honly hheld hnow hfew⟩⟩
  split
  · exact leaves_error hs₄.1
  rename_i hfew
  have hstable := ((@stable_onlyUsers cfg t k).and (@stable_clock cfg t k now)).and (@stable_unverified cfg t k userId)
    |>.and (@stable_slot cfg t k requestIp)
  refine safe_then (safe_query (Q := fun last s => (last.any fun time => now < time + 60 * second) = false →
    MaySend cfg t "verify_email" requestIp userId s) hstable (fun s hinv h hlast _ => ?_)
    ⟨hs₄.1, hs₄.2.1, hs₄.2.2 (by omega)⟩) fun last s₅ hs₅ => ?_
  · obtain ⟨⟨⟨honly, hnow⟩, hunverified⟩, since, hsince, hslot⟩ := h
    have hpause := pause_of_last hinv honly hunverified.held hnow hlast
    exact ⟨honly.silent, s.clock, le_rfl, hslot.later hsince, hpause, hunverified⟩
  split
  · exact leaves_trivial hs₅
  rename_i hpause
  refine safe_then (safe_issueToken ⟨hs₅.1, hs₅.2 (by simpa using hpause)⟩) fun _ s₆ hs₆ => ?_
  -- the mail changes nothing here
  refine Safe.tryCatch (safe_still Guard.stable_true (fun a s r s' _ hact => ⟨?_, fun _ _ => trivial⟩) hs₆)
    (fun _ _ h => h) fun e s' h => leaves_error h.1
  cases a <;> simp only [Option.some.injEq, Prod.mk.injEq, reduceCtorEq] at hact
  · exact hact.2.symm
  · exact hact.2.symm

theorem safe_registerUser {address name : String} {client : Option String} (hs : Running t (OnlyUsers t) s) :
    Safe (sessionGuard cfg t k) (registerUser cfg t address name client) (Leaves t fun _ _ => True) s := by
  unfold registerUser
  split
  · exact leaves_error hs.1
  refine safe_then (safe_query (Q := fun _ => OnlyUsers t) stable_onlyUsers (fun _ _ h => h) hs) fun existing s₁ hs₁ => ?_
  split
  · exact leaves_error hs₁.1
  split
  · exact leaves_error hs₁.1
  refine safe_then (Q := fun _ => OnlyUsers t) (Safe.tryCatch (safe_insertUser hs₁) (fun _ _ h => h) fun e s₂ h => ?_)
    fun user s₂ hs₂ => ?_
  · split
    · exact safe_then (safe_rollback h.1) fun _ _ h => leaves_error h.1
    · exact leaves_error h.1
  · exact safe_then (safe_sendVerification hs₂) fun _ s₃ hs₃ => safe_commit hs₃.1

theorem safe_requestVerification {address : String} {client : Option String} (hs : Running t (OnlyUsers t) s) :
    Safe (sessionGuard cfg t k) (requestVerification cfg t address client) (Leaves t fun _ _ => True) s := by
  unfold requestVerification
  split
  · exact leaves_error hs.1
  refine safe_then (safe_query (Q := fun _ => OnlyUsers t) stable_onlyUsers (fun _ _ h => h) hs) fun user s₁ hs₁ => ?_
  split
  · exact leaves_trivial hs₁
  · split
    · exact leaves_trivial hs₁
    · exact safe_then (safe_sendVerification hs₁) fun _ s₂ hs₂ => safe_commit hs₂.1

theorem safe_confirmVerification {userId : Nat} (hs : Running t (OnlyUsers t) s) :
    Safe (sessionGuard cfg t k) (confirmVerification t userId) (Leaves t fun _ _ => True) s :=
  safe_then (safe_markVerified hs) fun _ _ hs₁ => safe_commit hs₁.1

/-- Other tokens may be issued at any time. -/
theorem safe_ticket {userId minutes : Nat} {purpose : String} (hpurpose : purpose ≠ "verify_email")
    (hs : t ∈ s.requests) : Safe (sessionGuard cfg t k)
      ((issueToken t userId purpose minutes "").bind fun _ => commit t) (Leaves t fun _ _ => True) s :=
  safe_then (safe_issueToken ⟨hs, fun h => absurd h hpurpose⟩) fun _ _ hs₁ => safe_commit hs₁.1

theorem link_ne_verify (provider : String) : "link_" ++ provider ≠ "verify_email" := by
  intro h
  have hlist := congrArg String.toList h
  rw [String.toList_append] at hlist
  exact absurd (congrArg List.head? hlist) (by simp)

theorem safe_oauthCallback {account : Option Nat} {email : String} {proved ticket : Bool}
    (hs : Running t (OnlyUsers t) s) :
    Safe (sessionGuard cfg t k) (oauthCallback t account email proved ticket) (Leaves t fun _ _ => True) s := by
  unfold oauthCallback
  refine safe_then (Q := fun _ => OnlyUsers t) ?_ fun userId s₁ hs₁ => ?_
  · unfold resolveUser
    split
    · exact leaves_ok hs
    · exact safe_then (safe_insertUser hs) fun _ _ h => leaves_ok h
  refine safe_then (Q := fun _ _ => True) ?_ fun _ s₂ hs₂ => ?_
  · unfold proveEmail
    split
    · exact safe_markVerified hs₁
    · exact leaves_trivial hs₁
  split
  · exact safe_ticket (by decide) hs₂.1
  · exact safe_commit hs₂.1

theorem safe_route (hs : Running t (OnlyUsers t) s) (call : Call) :
    Safe (sessionGuard cfg t k) (route cfg t call) (Leaves t fun _ _ => True) s := by
  cases call with
  | registerUser address name client => exact safe_registerUser hs
  | requestVerification address client => exact safe_requestVerification hs
  | confirmVerification userId => exact safe_confirmVerification hs
  | linkProvider provider userId => exact safe_ticket (link_ne_verify provider) hs.1
  | oauthCallback account email proved ticket => exact safe_oauthCallback hs

/-- A route in its session. -/
theorem safe_getDb {p : Request Unit} (hp : Safe (sessionGuard cfg t k) p (Leaves t fun _ _ => True) s) :
    Safe (sessionGuard cfg t k) (getDb t p) (fun _ _ => True) s := by
  unfold getDb
  rw [safe_onExit]
  refine Safe.mono (Q := Leaves t fun _ _ => True) ?_ fun r s₁ hs₁ => ?_
  · refine Safe.tryCatch (safe_then hp fun _ _ h => safe_commit h.1) (fun _ _ h => h) fun e s₁ h => ?_
    split
    · exact leaves_error h.1
    · exact safe_then (safe_rollback h.1) fun _ _ h => leaves_error h.1
  · refine (safe_close hs₁.1).mono fun r' s₂ _ => ?_
    cases r' with
    | ok v => trivial
    | error e => trivial

end Requests

/-! ## §5. All requests. -/

section System

variable {cfg : Config}

theorem verification_sound : Sound (verification cfg) (fun _ _ _ _ => True) (discipline cfg) fun _ _ _ _ => True where
  env d s s' hinv henv := by
    cases d with
    | served => cases henv
    | secret token => cases henv
    | elapsed time =>
        obtain rfl := Option.some.inj henv
        exact hinv.pass (Nat.le_add_right _ _) fun _ h => h
  enter t k s s' hinv hent := by
    simp only [verification, Option.ite_none_right_eq_some, Option.some.injEq] at hent
    obtain ⟨hfresh, rfl⟩ := hent
    obtain ⟨hinv', hmove⟩ := hinv.pass le_rfl fun r hr => List.mem_cons_of_mem t hr
    refine ⟨hinv', hmove t, safe_getDb (safe_route ⟨List.mem_cons_self, fun c hc => ?_⟩ k)⟩
    exact absurd (hinv.flushed.started _ (Transactional.mem_own.mp hc)) hfresh
  crash d s s' hinv hcr := Option.some.inj hcr ▸ hinv.crash
  post _ _ _ := Guard.stable_true

/-- **Verification mail is rate limited**, in every order of requests, lock
waits, commits, rollbacks and crashes.  Of the links in the table, and of all
that were ever committed, no fifteen minutes hold more than five of one client
and no minute two of one user; and a link is committed only for a user whose
address is not verified. -/
theorem mail_rate_limited {users : List User} {now : Nat} {p : Pool Nat Call Server Op AuthExc Reply}
    (hp : (verification cfg).Reaches (fun _ _ _ _ => True) (Pool.start (Server.start users now)) p) :
    (∀ l, RateLimited (tokensOf p.shared l) ∧ Spaced (tokensOf p.shared l)) ∧
      ∀ c ∈ p.shared.store.commits, Needed c := by
  have hgood := verification_sound.reaches (Sound.good_start (inv_start users now)) hp
  have hinv : Inv cfg p.shared := hgood.1
  exact ⟨fun l => ⟨hinv.limited l, hinv.spaced l⟩, hinv.needed⟩

def plainConfig : Config := ⟨id, id, id, true, fun _ => 0⟩

/-- Ada signs up and is sent a link. -/
def signUp : List (Async.Event Nat Call AuthExc Reply) :=
  .enter 0 (.registerUser "ada@example.org" "Ada" none) :: List.replicate 9 (.resume 0 (.ok .served)) ++
    .resume 0 (.ok (.secret "link")) :: List.replicate 6 (.resume 0 (.ok .served))

theorem mail_rate_limited_sign_up :
    ∃ p, (verification plainConfig).Reaches (fun _ _ _ _ => True) (Pool.start (Server.start [] 0)) p ∧
      p.shared.store.db.tokens.map AuthToken.token = ["link"] ∧
      RateLimited (p.shared.store.db.tokens.filter AuthToken.isMail) := by
  have hrun : ((verification plainConfig).run (fun _ _ _ _ => true) signUp (Pool.start (Server.start [] 0))).any
      (fun p => p.shared.store.db.tokens.map AuthToken.token = ["link"]) = true := by
    decide
  obtain ⟨p, hp, hsent⟩ := (Option.any_eq_true _ _).mp hrun
  have hreach : (verification plainConfig).Reaches (fun _ _ _ _ => True) _ p :=
    System.run_reaches (fun _ _ _ _ _ => trivial) signUp hp
  exact ⟨p, hreach, of_decide_eq_true hsent, ((mail_rate_limited hreach).1 .stored).1⟩

end System

end WebBuilder.Auth.Verification
