/-
  WebBuilder.Auth.Identities — external identities keep their owners.

  A callback reads before it writes, so what it has read must survive the
  others, in whatever order the requests of all browsers interleave: an owner
  stays (`owner_of_turn`), and of the addresses that others commit none equals
  a fresh one but for its case (`LowerFree`), since new accounts have
  lower-case addresses.  The unique keys do the rest when it commits
  (`paid_of_commit`).

  Main results:
    * `safe_findUser`, `safe_oauthCallback` — the callback;
    * `identities_never_reowned` — all reachable states.
-/
import WebBuilder.Auth.Requests

namespace WebBuilder.Auth

open WebBuilder.Async WebBuilder.Store

/-! ## §1. The callback. -/

/-- Every request keeps the invariant and moves for itself only. -/
def discipline (cfg : Config) : Discipline Nat Call Accounts AuthOp where
  inv := AuthInv cfg
  guar u s s' :=
    match u with
    | some t => Move t s s'
    | none => s = s'

abbrev requestGuard (cfg : Config) (t : Nat) (k : Call) : Guard Accounts AuthOp AuthExc AuthReply :=
  (discipline cfg).at (auth cfg) (fun _ _ _ _ => True) t k

/-- The request has committed nothing. -/
def NoCommit (t : Nat) (s : Accounts) : Prop := ∀ c ∈ s.store.commits, c.txn ≠ t

/-- No committed address differs from this one in case only. -/
def LowerFree (cfg : Config) (email : String) (s : Accounts) : Prop :=
  ∀ u ∈ s.store.db.users, cfg.dbLower u.email = email → u.email = email

/-- The request has flushed a new account for the profile. -/
def NewUser (cfg : Config) (t : Nat) (profile : Profile) (user : User) (s : Accounts) : Prop :=
  .user user ∈ s.store.own t ∧ user.email = profile.email ∧ LowerFree cfg profile.email s

/-- Why the pair may be given to the user: it is the user's already, the ticket
was the user's, or the user is new. -/
def Entitled (cfg : Config) (t : Nat) (session : Session) (profile : Profile) (user : User)
    (added : List AuthIdentity) (s : Accounts) : Prop :=
  (s.store.db.owner session.provider profile.subject = some user.id ∧ added = [] ∧
      ∀ u, session.linkUser = some u → user.id = u) ∨
    ((.identity ⟨session.provider, profile.subject, user.id⟩ ∈ s.store.own t ∨
        added = [⟨session.provider, profile.subject, user.id⟩]) ∧
      (session.linkUser = some user.id ∨ (session.linkUser = none ∧ NewUser cfg t profile user s)))

/-- What a response of success is owed. -/
def Paid (cfg : Config) (t : Nat) (session : Session) (profile : Profile) (userId : Nat) (s : Accounts) : Prop :=
  Justified cfg s ⟨t, session, .signedIn profile userId⟩

section Callback

variable {cfg : Config} {t : Nat} {k : Call} {s s' : Accounts} {session : Session} {profile : Profile} {user : User}
  {added : List AuthIdentity}

/-- A move of another request. -/
theorem rely_cases (h : (requestGuard cfg t k).rely s s') : s = s' ∨ ∃ u, u ≠ t ∧ Move u s s' := by
  obtain ⟨u, hne, hmove⟩ := h
  cases u with
  | none => exact .inl hmove
  | some u => exact .inr ⟨u, fun h => hne (h ▸ rfl), hmove⟩

theorem stable_of_move {P : Accounts → Prop} (h : ∀ s s' u, AuthInv cfg s → u ≠ t → Move u s s' → P s → P s') :
    (requestGuard cfg t k).Stable P := by
  intro s s' hinv _ hrely hP
  rcases rely_cases hrely with rfl | ⟨u, hne, hmove⟩
  · exact hP
  · exact h s s' u hinv hne hmove hP

theorem stable_running : (requestGuard cfg t k).Stable (Running t) := by
  refine stable_of_move fun s s' u _ hne hmove hrun => ⟨hmove.requests t hrun.started, fun r hr => ?_⟩
  rcases hmove.responses r hr with hr | hr
  · exact hrun.unanswered r hr
  · exact hr ▸ hne

theorem stable_noCommit : (requestGuard cfg t k).Stable (NoCommit t) :=
  stable_of_move fun _ _ _ _ hne hmove h => hmove.turn.commits_of_ne (Ne.symm hne) h

/-- **What others commit** has lower-case addresses. -/
theorem lowerFree_of_move {email : String} {u : Nat} (hinv : AuthInv cfg s) (hmove : Move u s s')
    (h : LowerFree cfg email s) : LowerFree cfg email s' := by
  rcases hmove.turn.database with ⟨hdb, _⟩ | ⟨hdb, _⟩
  · unfold LowerFree
    rw [hdb]
    exact h
  · unfold LowerFree
    rw [hdb]
    intro v hv hlower
    obtain ⟨w, hw, haddress⟩ := mem_users_foldl hv
    have hemail : w.email = v.email := congrArg Prod.snd haddress
    rw [← hemail] at hlower ⊢
    rcases List.mem_append.mp hw with hw | hw
    · exact h w hw hlower
    · rw [← hlower]
      exact (hinv.keys.lowered w (own_subset_flushed hw)).symm

theorem stable_entitled : (requestGuard cfg t k).Stable (Entitled cfg t session profile user added) := by
  refine stable_of_move fun s s' u hinv hne hmove h => ?_
  have hown : s'.store.own t = s.store.own t := hmove.turn.others t (Ne.symm hne)
  rcases h with ⟨howner, hadded⟩ | ⟨hidentity, hright⟩
  · exact .inl ⟨owner_of_turn hmove.turn howner, hadded⟩
  · refine .inr ⟨by rw [hown]; exact hidentity, ?_⟩
    rcases hright with hlink | ⟨hnone, hnew, hemail, hfree⟩
    · exact .inl hlink
    · exact .inr ⟨hnone, by rw [hown]; exact hnew, hemail, lowerFree_of_move hinv hmove hfree⟩

theorem stable_paid {userId : Nat} : (requestGuard cfg t k).Stable (Paid cfg t session profile userId) :=
  stable_of_move fun _ _ _ _ _ hmove ⟨c, hc, hpaid⟩ => ⟨c, hmove.turn.commits_subset c hc, hpaid⟩

theorem Early.noCommit (h : Early cfg t s s') (hs : NoCommit t s) : NoCommit t s' := by
  unfold NoCommit
  rw [h.commits]
  exact hs

theorem Early.entitled (h : Early cfg t s s') (hs : Entitled cfg t session profile user added s) :
    Entitled cfg t session profile user added s' := by
  rcases hs with ⟨howner, hadded⟩ | ⟨hidentity, hright⟩
  · exact .inl ⟨by rw [h.db]; exact howner, hadded⟩
  · refine .inr ⟨hidentity.imp_left (h.own _), ?_⟩
    rcases hright with hlink | ⟨hnone, hnew, hemail, hfree⟩
    · exact .inl hlink
    · refine .inr ⟨hnone, h.own _ hnew, hemail, ?_⟩
      unfold LowerFree
      rw [h.db]
      exact hfree

/-- The assertions of a request before its commit. -/
def Before (t : Nat) (A : Accounts → Prop) (s : Accounts) : Prop := Running t s ∧ NoCommit t s ∧ A s

theorem stable_before {A : Accounts → Prop} (hA : (requestGuard cfg t k).Stable A) :
    (requestGuard cfg t k).Stable (Before t A) :=
  stable_running.and (stable_noCommit.and hA)

/-- **The rule of one await before the commit.** -/
theorem safe_early {α : Type} {op : AuthOp} {act : Answer AuthExc AuthReply → Accounts → Option (Except AuthExc α × Accounts)}
    {A : Accounts → Prop} {Q : Except AuthExc α → Accounts → Prop} (hA : (requestGuard cfg t k).Stable A)
    (hact : ∀ a s r s', Before t A s → act a s = some (r, s') → Early cfg t s s' ∧ Q r s') (hs : Before t A s) :
    Safe (requestGuard cfg t k) (.await op act .done) (fun r => Before t (Q r)) s := by
  refine Safe.await (Before t A) hs (stable_before hA) (fun s₁ hinv hs₁ a r s₂ _ hstep => ?_) fun _ _ _ => trivial
  obtain ⟨hearly, hQ⟩ := hact a s₁ r s₂ hs₁ hstep
  obtain ⟨hinv', hmove, hrun'⟩ := hearly.kept hinv hs₁.1
  exact ⟨hinv', hmove, hrun', hearly.noCommit hs₁.2.1, hQ⟩

/-- Steps before the commit keep what they cannot break. -/
theorem safe_keeps {α : Type} {p : Request α} {A : Accounts → Prop} (hA : (requestGuard cfg t k).Stable A)
    (hkeep : ∀ s s', Early cfg t s s' → A s → A s') (hp : p.Keeps (Early cfg t)) (hs : Before t A s) :
    Safe (requestGuard cfg t k) p (fun _ => Before t A) s := by
  refine Safe.of_keeps (stable_before hA) (fun s s' hinv hs hearly => ?_) hp hs fun _ _ _ _ => trivial
  obtain ⟨hinv', hmove, hrun'⟩ := hearly.kept hinv hs.1
  exact ⟨hinv', hmove, hrun', hearly.noCommit hs.2.1, hkeep s s' hearly hs.2.2⟩

/-- A read. -/
theorem safe_read {α : Type} {f : Db → α} {A : Accounts → Prop} {Q : α → Accounts → Prop}
    (hA : (requestGuard cfg t k).Stable A) (hQ : ∀ s, Before t A s → Q (f s.store.db) s) (hs : Before t A s) :
    Safe (requestGuard cfg t k) (query f) (fun r => Before t fun s => ∀ v, r = .ok v → Q v s) s := by
  have hrefl : ∀ s, (requestGuard cfg t k).inv s → (requestGuard cfg t k).guar s s :=
    fun _ _ => ⟨turn_refl _, fun _ h => h, fun _ h => .inl h⟩
  refine Safe.query (Before t A) hs (stable_before hA) hrefl ?_ ?_ fun _ _ _ => trivial
  · intro s₁ _ hs₁
    exact ⟨hs₁.1, hs₁.2.1, fun v hv => Except.ok.inj hv ▸ hQ s₁ hs₁⟩
  · intro s₁ e _ hs₁ _
    exact ⟨hs₁.1, hs₁.2.1, nofun⟩

theorem stable_owner {provider subject : String} {u : Nat} :
    (requestGuard cfg t k).Stable fun s => s.store.db.owner provider subject = some u :=
  stable_of_move fun _ _ _ _ _ hmove h => owner_of_turn hmove.turn h

theorem stable_lowerFree {email : String} : (requestGuard cfg t k).Stable (LowerFree cfg email) :=
  stable_of_move fun _ _ _ hinv _ hmove h => lowerFree_of_move hinv hmove h

/-- What `findUser` returns. -/
def Found (cfg : Config) (t : Nat) (session : Session) (profile : Profile)
    (r : Except AuthExc (Option User × List AuthIdentity)) (s : Accounts) : Prop :=
  ∀ user added, r = .ok (some user, added) → Entitled cfg t session profile user added s

/-- **The four branches.** -/
theorem safe_findUser (hlower : cfg.dbLower profile.email = profile.email) (hs : Before t (fun _ => True) s) :
    Safe (requestGuard cfg t k) (findUser cfg t session.provider profile session.linkUser)
      (fun r => Before t (Found cfg t session profile r)) s := by
  unfold findUser
  refine Safe.bind (safe_read (Q := fun v s => ∀ i, v = some i → s.store.db.owner session.provider profile.subject
    = some i.userId) Guard.stable_true (fun s _ i hi => ?_) hs) ?_ (fun e s' h => ⟨h.1, h.2.1, nofun⟩)
  · exact Option.map_eq_some_iff.mpr ⟨i, hi, rfl⟩
  intro identity s₁ ⟨hrun, hno, hread⟩
  have hbefore : Before t (fun _ => True) s₁ := ⟨hrun, hno, trivial⟩
  have hknown := fun i hi => hread identity rfl i hi
  split
  · -- the identity is known
    rename_i identity
    split
    · exact ⟨hrun, hno, nofun⟩
    · rename_i hconflict
      refine Safe.bind (safe_read (Q := fun v s => s.store.db.owner session.provider profile.subject
        = some identity.userId ∧ ∀ user, v = some user → user.id = identity.userId) stable_owner
        (fun s h => ⟨h.2.2, fun user huser => ?_⟩) ⟨hrun, hno, hknown identity rfl⟩) ?_
        (fun e s' h => ⟨h.1, h.2.1, nofun⟩)
      · simpa using List.find?_some huser
      intro found s₂ ⟨hrun, hno, hread⟩
      obtain ⟨howner, huser⟩ := hread found rfl
      refine ⟨hrun, hno, fun user added heq => .inl ?_⟩
      obtain ⟨rfl, rfl⟩ := Prod.mk.inj (Except.ok.inj heq)
      have hid := huser user rfl
      refine ⟨by rw [howner, hid], rfl, fun u hu => ?_⟩
      by_cases hsame : some u = some identity.userId
      · rw [hid, Option.some.inj hsame]
      · exact absurd ⟨by rw [hu]; nofun, by rw [hu]; exact hsame⟩ hconflict
  · -- the user of the ticket
    rename_i linkUser hlink
    refine Safe.bind (safe_read (Q := fun v _ => ∀ user, v = some user → user.id = linkUser) Guard.stable_true
      (fun s _ user huser => ?_) hbefore) ?_ (fun e s' h => ⟨h.1, h.2.1, nofun⟩)
    · simpa using List.find?_some huser
    intro found s₂ ⟨hrun, hno, hread⟩
    split
    · exact ⟨hrun, hno, nofun⟩
    · rename_i user
      refine ⟨hrun, hno, fun user' added heq => .inr ?_⟩
      obtain ⟨huser, rfl⟩ := Prod.mk.inj (Except.ok.inj heq)
      obtain rfl := Option.some.inj huser
      exact ⟨.inr rfl, .inl (by rw [hlink, hread _ rfl user rfl])⟩
  · -- a new user, if the address belongs to nobody
    rename_i hlink
    refine Safe.bind (safe_read (Q := fun v s => v = false → LowerFree cfg profile.email s) Guard.stable_true
      (fun s _ hnone u hu hsame => ?_) hbefore) ?_ (fun e s' h => ⟨h.1, h.2.1, nofun⟩)
    · simp only [List.any_eq_false, decide_eq_true_eq] at hnone
      exact absurd hsame (hnone u hu)
    intro existing s₂ ⟨hrun, hno, hread⟩
    split
    · exact ⟨hrun, hno, nofun⟩
    · rename_i hexisting
      have hfree : LowerFree cfg profile.email s₂ := hread existing rfl (by simpa using hexisting)
      refine Safe.bind (safe_early (Q := fun r s => ∀ user, r = .ok user → NewUser cfg t profile user s)
        stable_lowerFree (fun a s r s' hs hact => ?_) ⟨hrun, hno, hfree⟩) ?_ (fun e s' h => ⟨h.1, h.2.1, nofun⟩)
      · obtain ⟨hearly, hresult⟩ := insertUserStep_cases hlower hact
        refine ⟨hearly, fun user huser => ?_⟩
        rcases hresult with ⟨e, rfl⟩ | ⟨user', rfl, hemail, hown⟩
        · cases huser
        · obtain rfl := Except.ok.inj huser
          refine ⟨hown, hemail, ?_⟩
          unfold LowerFree
          rw [hearly.db]
          exact hs.2.2
      intro user s₃ ⟨hrun, hno, hnew⟩
      refine ⟨hrun, hno, fun user' added heq => .inr ?_⟩
      obtain ⟨huser, rfl⟩ := Prod.mk.inj (Except.ok.inj heq)
      obtain rfl := Option.some.inj huser
      exact ⟨.inr rfl, .inr ⟨hlink, hnew user rfl⟩⟩

/-- Nothing is left to add. -/
abbrev Settled (cfg : Config) (t : Nat) (session : Session) (profile : Profile) (user : User) : Accounts → Prop :=
  Entitled cfg t session profile user []

theorem safe_addIdentities (hs : Before t (Entitled cfg t session profile user added) s) :
    Safe (requestGuard cfg t k) (Co.forEach added (insertIdentity t))
      (fun r => Before t fun s => r = .ok () → Settled cfg t session profile user s) s := by
  obtain ⟨hrun, hno, hentitled⟩ := hs
  rcases hentitled with ⟨howner, rfl, hlink⟩ | ⟨hown | rfl, hright⟩
  · exact ⟨hrun, hno, fun _ => .inl ⟨howner, rfl, hlink⟩⟩
  · -- the identity is flushed already
    have hsettled : Before t (Settled cfg t session profile user) s := ⟨hrun, hno, .inr ⟨.inl hown, hright⟩⟩
    have hkeep : (Co.forEach added (insertIdentity t)).Keeps (Early cfg t) :=
      Co.Keeps.forEach added fun i _ => ⟨fun _ _ _ _ hact => (insertIdentityStep_cases hact).1, fun _ => trivial⟩
    exact (safe_keeps stable_entitled (fun _ _ hearly => hearly.entitled) hkeep hsettled).mono
      fun _ _ h => ⟨h.1, h.2.1, fun _ => h.2.2⟩
  · refine Safe.bind (safe_early (Q := fun r s => r = .ok () → Settled cfg t session profile user s) stable_entitled
      (fun a s r s' hs hact => ?_) ⟨hrun, hno, .inr ⟨.inr rfl, hright⟩⟩) ?_ (fun e s' h => ⟨h.1, h.2.1, nofun⟩)
    · obtain ⟨hearly, hresult⟩ := insertIdentityStep_cases hact
      refine ⟨hearly, fun hr => ?_⟩
      rcases hresult with ⟨e, rfl⟩ | hown
      · cases hr
      · rcases hearly.entitled hs.2.2 with ⟨_, hnil, _⟩ | ⟨_, hright⟩
        · cases hnil
        · exact .inr ⟨.inl hown, hright⟩
    · intro _ s' h
      exact h

theorem early_proveEmail (user : User) (profile : Profile) : (proveEmail cfg t user profile).Keeps (Early cfg t) := by
  unfold proveEmail
  split
  · exact early_plain rfl rfl
  · trivial

/-- **What `resolve_identity` returns** is settled. -/
theorem safe_resolveIdentity (hlower : cfg.dbLower profile.email = profile.email) (hs : Before t (fun _ => True) s) :
    Safe (requestGuard cfg t k) (resolveIdentity cfg t session.provider profile session.linkUser)
      (fun r => Before t fun s => ∀ user, r = .ok user → Settled cfg t session profile user s) s := by
  refine Safe.bind (safe_findUser hlower hs) ?_ (fun e s' h => ⟨h.1, h.2.1, nofun⟩)
  rintro ⟨found, added⟩ s₁ ⟨hrun, hno, hfound⟩
  dsimp only
  split
  · exact ⟨hrun, hno, nofun⟩
  · rename_i user
    refine Safe.bind (safe_addIdentities ⟨hrun, hno, hfound user added rfl⟩) ?_ (fun e s' h => ⟨h.1, h.2.1, nofun⟩)
    intro _ s₂ ⟨hrun, hno, hsettled⟩
    refine Safe.bind (safe_keeps stable_entitled (fun _ _ hearly => hearly.entitled) (early_proveEmail user profile)
      ⟨hrun, hno, hsettled rfl⟩) ?_ (fun e s' h => ⟨h.1, h.2.1, nofun⟩)
    intro _ s₃ ⟨hrun, hno, hsettled⟩
    exact ⟨hrun, hno, fun user' heq => Except.ok.inj heq ▸ hsettled⟩

/-! ## §2. Its commit. -/

/-- **A commit pays**: the pair is the user's from now on, and a new user took
nobody's address. -/
theorem paid_of_commit (hinv : AuthInv cfg s) (hs : Settled cfg t session profile user s)
    (hcommit : s'.store = s.store.commit Db.apply t) : Paid cfg t session profile user.id s' := by
  have hkeys : Keys cfg s'.store s.nextUser := hcommit ▸ hinv.keys.commit
  have hturn : Turn Db.apply t s.store s'.store := hcommit ▸ turn_commit s.store
  have hdb : s'.store.db = (s.store.own t).foldl Db.apply s.store.db := by rw [hcommit]; rfl
  have hmem : (⟨t, s.store.db, s'.store.db⟩ : Commit Db) ∈ s'.store.commits := by
    rw [hcommit]
    exact List.mem_cons_self
  refine ⟨_, hmem, rfl, ?_⟩
  rcases hs with ⟨howner, _, hlink⟩ | ⟨hown | hnil, hright⟩
  · exact ⟨owner_of_turn hturn howner, hlink, fun _ => .inl howner⟩
  · have hidentity : (⟨session.provider, profile.subject, user.id⟩ : AuthIdentity) ∈ s'.store.db.identities := by
      rw [hdb, identities_foldl]
      exact List.mem_append_right _ (List.mem_flatMap.mpr ⟨_, hown, List.mem_cons_self⟩)
    refine ⟨owner_of_mem hidentity hkeys.pairs.committed, ?_, ?_⟩
    · intro u hu
      rcases hright with hlink | ⟨hnone, _⟩
      · exact Option.some.inj (hlink.symm.trans hu)
      · rw [hnone] at hu
        cases hu
    · intro hnone
      rcases hright with hlink | ⟨_, hnew, hemail, hfree⟩
      · rw [hnone] at hlink
        cases hlink
      · -- neither the id nor the address of the new user is a committed one
        have hflushed : user ∈ flushed Change.users s.store :=
          own_subset_flushed (List.mem_flatMap.mpr ⟨_, hnew, List.mem_cons_self⟩)
        refine .inr ⟨fun u hu => hinv.keys.ids.ne_of_flushed hu hflushed, fun u hu hsame => ?_, ?_⟩
        · exact hinv.keys.emails.ne_of_flushed hu hflushed ((hfree u hu hsame).trans hemail.symm)
        · have hown : user ∈ (s.store.own t).flatMap Change.users := List.mem_flatMap.mpr ⟨_, hnew, List.mem_cons_self⟩
          obtain ⟨v, hv, haddress⟩ := @exists_users_foldl _ s.store.db _ hown
          refine ⟨v, by show v ∈ s'.store.db.users; rw [hdb]; exact hv, congrArg Prod.fst haddress, ?_⟩
          exact (congrArg Prod.snd haddress).trans hemail
  · cases hnil

/-- What a callback owes when its `try` block ends. -/
def Ended (cfg : Config) (t : Nat) (session : Session) (r : Except AuthExc (Profile × Nat)) (s : Accounts) : Prop :=
  match r with
  | .ok (profile, userId) => Paid cfg t session profile userId s
  | .error _ => NoCommit t s

theorem safe_commit (hs : Before t (Settled cfg t session profile user) s) :
    Safe (requestGuard cfg t k) (commit t)
      (fun r s => Running t s ∧ Ended cfg t session (r.map fun _ => (profile, user.id)) s) s := by
  refine Safe.await (Before t (Settled cfg t session profile user)) hs (stable_before stable_entitled) ?_ fun _ _ _ => trivial
  intro s₁ hinv ⟨hrun, hno, hsettled⟩ a r s₂ _ hact
  obtain ⟨hkept, hresult⟩ := commitStep_cases hact
  obtain ⟨hinv', hmove, hrun'⟩ := hkept hinv hrun
  refine ⟨hinv', hmove, hrun', ?_⟩
  rcases hresult with ⟨rfl, hcommit⟩ | ⟨⟨e, rfl⟩, hdrop⟩
  · exact paid_of_commit hinv hsettled hcommit
  · show NoCommit t s₂
    unfold NoCommit
    rw [hdrop]
    exact hno

theorem safe_tryCallback (hlower : ∀ e, cfg.dbLower (cfg.lower e) = cfg.lower e) (hs : Before t (fun _ => True) s) :
    Safe (requestGuard cfg t k) (tryCallback cfg t session) (fun r s => Running t s ∧ Ended cfg t session r s) s := by
  unfold tryCallback
  refine Safe.bind (safe_early (Q := fun r _ => ∀ p, r = .ok p → cfg.dbLower p.email = p.email) Guard.stable_true
    (fun a s r s' _ hact => ?_) hs) ?_ (fun e s' h => ⟨h.1, h.2.1⟩)
  · refine ⟨(early_ask .authorize _).1 a s r s' hact, fun p hp => ?_⟩
    subst hp
    cases a with
    | ok d =>
        cases d with
        | profile q =>
            simp only [Option.map_some, Option.some.injEq, Prod.mk.injEq, Except.ok.injEq] at hact
            rw [← hact.1]
            exact hlower q.email
        | served | time | secret | limits => simp at hact
    | fail e => simp at hact
    | lost | late => simp at hact
  intro profile s₁ ⟨hrun, hno, hprofile⟩
  refine Safe.bind (safe_resolveIdentity (hprofile profile rfl) ⟨hrun, hno, trivial⟩) ?_ (fun e s' h => ⟨h.1, h.2.1⟩)
  intro user s₂ ⟨hrun, hno, hsettled⟩
  have hbefore : Before t (Settled cfg t session profile user) s₂ := ⟨hrun, hno, hsettled user rfl⟩
  split
  · exact Safe.bind (safe_commit hbefore) (fun _ _ h => h) (fun _ _ h => h)
  · refine Safe.bind (safe_keeps stable_entitled (fun _ _ hearly => hearly.entitled) (early_issueToken _ _ _) hbefore)
      ?_ (fun e s' h => ⟨h.1, h.2.1⟩)
    intro _ s₃ hbefore
    exact Safe.bind (safe_commit hbefore) (fun _ _ h => h) (fun _ _ h => h)

theorem safe_rollback (hs : Before t (fun _ => True) s) :
    Safe (requestGuard cfg t k) (rollback t) (fun _ s => Running t s ∧ NoCommit t s) s := by
  refine Safe.await (Before t fun _ => True) hs (stable_before Guard.stable_true) ?_ fun _ _ _ => trivial
  intro s₁ hinv ⟨hrun, hno, _⟩ a r s₂ _ hact
  obtain ⟨hkept, hdrop⟩ := rollbackStep_cases hact
  obtain ⟨hinv', hmove, hrun'⟩ := hkept hinv hrun
  refine ⟨hinv', hmove, hrun', ?_⟩
  unfold NoCommit
  rw [hdrop]
  exact hno

/-- A response that is justified may be given. -/
theorem safe_respond {outcome : Outcome} {A : Accounts → Prop} (hA : (requestGuard cfg t k).Stable A)
    (hjust : ∀ s, A s → Justified cfg s ⟨t, session, outcome⟩) (hrun : Running t s) (hs : A s) :
    Safe (requestGuard cfg t k) (respond t session outcome) (fun _ _ => True) s := by
  refine Safe.memory (fun s => Running t s ∧ A s) ⟨hrun, hs⟩ (stable_running.and hA) ?_ fun _ _ _ => trivial
  intro s₁ hinv ⟨hrun, hs₁⟩ _
  refine ⟨⟨hinv.keys, hinv.pending, hinv.commits, ?_, ?_⟩, ⟨turn_refl _, fun _ h => h, ?_⟩, trivial⟩
  · intro r hr
    rcases List.mem_cons.mp hr with rfl | hr
    · exact hrun.started
    · exact hinv.responses r hr
  · intro r hr
    rcases List.mem_cons.mp hr with rfl | hr
    · exact hjust s₁ hs₁
    · exact hinv.justified r hr
  · intro r hr
    rcases List.mem_cons.mp hr with rfl | hr
    · exact .inr rfl
    · exact .inl hr

theorem safe_oauthCallback (hlower : ∀ e, cfg.dbLower (cfg.lower e) = cfg.lower e)
    (hs : Before t (fun _ => True) s) :
    Safe (requestGuard cfg t k) (oauthCallback cfg t session) (fun _ _ => True) s := by
  unfold oauthCallback
  split
  · trivial
  · refine Safe.bind (R := fun r s => ∀ result, r = .ok result → Running t s ∧ Ended cfg t session result s)
      ((safe_attempt _ _ s).mpr ((safe_tryCallback hlower hs).mono fun r s' h result heq => ?_)) ?_
      (fun _ _ _ => trivial)
    · exact Except.ok.inj heq ▸ h
    intro result s₁ hended
    obtain ⟨hrun, hended⟩ := hended result rfl
    split
    · exact safe_respond stable_paid (fun _ h => h) hrun hended
    · rename_i e
      refine Safe.bind (R := fun _ s => Running t s ∧ NoCommit t s)
        ((safe_attempt _ _ s₁).mpr (safe_rollback ⟨hrun, hended, trivial⟩)) ?_ (fun _ _ _ => trivial)
      intro ended s₂ ⟨hrun, hno⟩
      split
      · refine safe_respond stable_noCommit (fun s h => ?_) hrun hno
        unfold outcomeOf
        dsimp only
        split <;> exact h
      · exact safe_respond stable_noCommit (fun _ h => h) hrun hno

end Callback

/-! ## §3. All requests. -/

section System

variable {cfg : Config} {t : Nat} {s s' : Accounts}

theorem kept_serve (hlower : ∀ e, cfg.dbLower (cfg.lower e) = cfg.lower e) (k : Call)
    (hk : ∀ session, k ≠ .oauthCallback session) : (serve cfg t k).Keeps (Kept cfg t) := by
  cases k with
  | register address => exact Co.Keeps.onExit (kept_register hlower address) kept_rollback
  | requestVerification address => exact Co.Keeps.onExit (kept_requestVerification address) kept_rollback
  | confirmVerification token => exact Co.Keeps.onExit (kept_confirmVerification token) kept_rollback
  | linkProvider provider userId => exact Co.Keeps.onExit (kept_linkProvider provider userId) kept_rollback
  | startOauth provider ticket => exact Co.Keeps.onExit (kept_startOauth provider ticket) kept_rollback
  | oauthCallback session => exact absurd rfl (hk session)

theorem safe_serve (hlower : ∀ e, cfg.dbLower (cfg.lower e) = cfg.lower e) (k : Call)
    (hs : Before t (fun _ => True) s) :
    Safe (requestGuard cfg t k) (serve cfg t k) (fun _ _ => True) s := by
  by_cases hk : ∃ session, k = .oauthCallback session
  · obtain ⟨session, rfl⟩ := hk
    exact safe_oauthCallback hlower hs
  · refine (Safe.of_keeps stable_running (fun s s' hinv hrun hkept => hkept hinv hrun)
      (kept_serve hlower k fun session heq => hk ⟨session, heq⟩) hs.1 fun _ _ _ _ => trivial).mono fun _ _ _ => trivial

/-- Its number is fresh. -/
theorem enter_request (hinv : AuthInv cfg s) (hfresh : t ∉ s.requests)
    (hs' : s' = { s with requests := t :: s.requests }) :
    AuthInv cfg s' ∧ Move t s s' ∧ Before t (fun _ => True) s' := by
  subst hs'
  refine ⟨⟨hinv.keys, fun x hx => ?_, fun c hc => ?_, fun r hr => ?_, hinv.justified⟩,
    ⟨turn_refl _, fun r hr => List.mem_cons_of_mem t hr, fun _ hr => .inl hr⟩,
    ⟨List.mem_cons_self, fun r hr heq => ?_⟩, fun c hc heq => ?_, trivial⟩
  · exact List.mem_cons_of_mem t (hinv.pending x hx)
  · exact List.mem_cons_of_mem t (hinv.commits c hc)
  · exact List.mem_cons_of_mem t (hinv.responses r hr)
  · exact hfresh (heq ▸ hinv.responses r hr)
  · exact hfresh (heq ▸ hinv.commits c hc)

/-- The database forgets what is not committed. -/
theorem crash_request (hinv : AuthInv cfg s) (hs' : s' = { s with store := { s.store with pending := [] } }) :
    AuthInv cfg s' := by
  subst hs'
  refine ⟨?_, nofun, hinv.commits, hinv.responses, hinv.justified⟩
  exact {
    emails := hinv.keys.emails.crash
    ids := hinv.keys.ids.crash
    pairs := hinv.keys.pairs.crash
    links := hinv.keys.links.crash
    sequence := fun u hu => hinv.keys.sequence u (List.mem_append_left _ (by simpa [flushed] using hu))
    lowered := nofun }

theorem auth_sound (hlower : ∀ e, cfg.dbLower (cfg.lower e) = cfg.lower e) :
    Sound (auth cfg) (fun _ _ _ _ => True) (discipline cfg) fun _ _ _ _ => True where
  env d s s' _ henv := by cases henv
  enter t k s s' hinv hent := by
    simp only [auth, Option.ite_none_right_eq_some, Option.some.injEq] at hent
    obtain ⟨⟨hfresh, _⟩, hs'⟩ := hent
    obtain ⟨hinv', hmove, hbefore⟩ := enter_request hinv hfresh hs'.symm
    exact ⟨hinv', hmove, safe_serve hlower k hbefore⟩
  crash d s s' hinv hcr := crash_request hinv (Option.some.inj hcr).symm
  post _ _ _ := Guard.stable_true

theorem auth_start {db : Db} {nextUser : Nat} (hdb : Keys cfg ⟨db, [], []⟩ nextUser) :
    AuthInv cfg (Accounts.start db nextUser) :=
  ⟨hdb, nofun, nofun, nofun, nofun⟩

/-- A pair keeps its owner over any further events. -/
theorem owner_of_reaches (hlower : ∀ e, cfg.dbLower (cfg.lower e) = cfg.lower e)
    {p q : Pool Nat Call Accounts AuthOp AuthExc AuthReply}
    (hp : Sound.Good (auth cfg) (fun _ _ _ _ => True) (discipline cfg) (fun _ _ _ _ => True) p)
    (hreach : (auth cfg).Reaches (fun _ _ _ _ => True) p q) {provider subject : String} {u : Nat}
    (howner : p.shared.store.db.owner provider subject = some u) :
    q.shared.store.db.owner provider subject = some u := by
  have hsound := auth_sound hlower
  induction hreach with
  | refl => exact howner
  | @step q q' e hreach hmeets hstep ih =>
      obtain ⟨_, hcrash | ⟨v, hguar⟩⟩ := hsound.step (hsound.reaches hp hreach) hmeets hstep
      · obtain ⟨d, rfl⟩ := hcrash
        simp only [System.step, auth, Option.map_some, Option.some.injEq] at hstep
        rw [← hstep]
        exact ih
      · cases v with
        | none => exact (show q.shared = q'.shared from hguar) ▸ ih
        | some t => exact owner_of_turn (show Move t q.shared q'.shared from hguar).turn ih

/-- `str.lower` of ASCII addresses. -/
def asciiLower (e : String) : String := String.ofList (e.toList.map Char.toLower)

def plainConfig : Config := ⟨asciiLower, asciiLower, true, fun _ => true⟩

theorem asciiLower_asciiLower (e : String) : asciiLower (asciiLower e) = asciiLower e := by
  have hchar : Char.toLower ∘ Char.toLower = Char.toLower := by
    funext c
    show c.toLower.toLower = c.toLower
    unfold Char.toLower
    grind
  unfold asciiLower
  rw [String.toList_ofList, List.map_map, hchar]

theorem keys_empty : Keys plainConfig ⟨⟨[], [], []⟩, [], []⟩ 1 where
  emails := List.nodup_nil
  ids := List.nodup_nil
  pairs := List.nodup_nil
  links := List.nodup_nil
  sequence := nofun
  lowered := nofun

/-- Somebody signs up with GitHub. -/
def signUp : List (Async.Event Nat Call AuthExc AuthReply) :=
  .enter 0 (.startOauth "github" none) :: List.replicate 3 (.resume 0 (.ok .served)) ++
    .enter 1 (.oauthCallback ⟨"github", none⟩) :: .resume 1 (.ok (.profile ⟨"42", "Ada@Example.org"⟩)) ::
      List.replicate 5 (.resume 1 (.ok .served)) ++
        .resume 1 (.ok (.secret "ticket" 0)) :: List.replicate 4 (.resume 1 (.ok .served))

end System

end WebBuilder.Auth
