/-
  WebBuilder.Auth.Requests — what every request keeps.

  The unique keys of the tables are unique over committed and flushed rows
  (`Keys`), and a callback has responded only what its commits justify
  (`AuthInv`).  Every await of a request keeps this and is a move of its own
  transaction (`Kept`); before the commit it only flushes (`Early`).

  Main results:
    * `owner_of_turn` — a pair that has an owner keeps it;
    * `Keys.insertIdentity`, `Keys.insertUser`, `Keys.commit` — the keys;
    * `kept_register`, `kept_confirmVerification`, … — the requests other than
      the callback.
-/
import WebBuilder.Auth.Social

namespace WebBuilder.Auth

open WebBuilder.Async WebBuilder.Store

/-! ## §1. What a change adds. -/

theorem identities_apply (db : Db) (c : Change) : (db.apply c).identities = db.identities ++ c.identities := by
  cases c <;> simp [Db.apply, Change.identities]

theorem identities_foldl (cs : List Change) (db : Db) :
    (cs.foldl Db.apply db).identities = db.identities ++ cs.flatMap Change.identities := by
  induction cs generalizing db with
  | nil => simp
  | cons c cs ih => rw [List.foldl_cons, ih, identities_apply, List.append_assoc, List.flatMap_cons]

/-- What no change of a user touches. -/
def User.address (u : User) : Nat × String := (u.id, u.email)

theorem addresses_apply (db : Db) (c : Change) :
    (db.apply c).users.map User.address = (db.users ++ c.users).map User.address := by
  cases c with
  | verified id =>
      simp only [Db.apply, Change.users, List.append_nil, List.map_map]
      refine List.map_congr_left fun u _ => ?_
      dsimp only [Function.comp]
      split <;> rfl
  | user | identity | token | consumed | consumedAll | expired => simp [Db.apply, Change.users]

theorem addresses_foldl (cs : List Change) (db : Db) :
    (cs.foldl Db.apply db).users.map User.address = (db.users ++ cs.flatMap Change.users).map User.address := by
  induction cs generalizing db with
  | nil => simp
  | cons c cs ih =>
      rw [List.foldl_cons, ih, List.map_append, addresses_apply, ← List.map_append, List.append_assoc,
        List.flatMap_cons]

/-- A user of the database after some changes is one of before or a new one. -/
theorem mem_users_foldl {cs : List Change} {db : Db} {u : User} (hu : u ∈ (cs.foldl Db.apply db).users) :
    ∃ v ∈ db.users ++ cs.flatMap Change.users, v.address = u.address := by
  have hmem : u.address ∈ (cs.foldl Db.apply db).users.map User.address := List.mem_map_of_mem hu
  rw [addresses_foldl] at hmem
  exact List.mem_map.mp hmem

theorem exists_users_foldl {cs : List Change} {db : Db} {u : User} (hu : u ∈ cs.flatMap Change.users) :
    ∃ v ∈ (cs.foldl Db.apply db).users, v.address = u.address := by
  have hmem : u.address ∈ (db.users ++ cs.flatMap Change.users).map User.address :=
    List.mem_map_of_mem (List.mem_append_right _ hu)
  rw [← addresses_foldl] at hmem
  exact List.mem_map.mp hmem

/-! ## §2. Owners. -/

/-- **A pair that has an owner keeps it**, whoever commits. -/
theorem owner_of_turn {t : Nat} {s s' : Transactional Db Change} (h : Turn Db.apply t s s') {provider subject : String}
    {u : Nat} (hu : s.db.owner provider subject = some u) : s'.db.owner provider subject = some u := by
  rcases h.database with ⟨hdb, _⟩ | ⟨hdb, _⟩
  · rw [hdb]
    exact hu
  · rw [hdb]
    obtain ⟨i, hi, rfl⟩ := Option.map_eq_some_iff.mp hu
    have hfind : (List.foldl Db.apply s.db (s.own t)).identity? provider subject = some i := by
      unfold Db.identity? at hi ⊢
      rw [identities_foldl, List.find?_append, hi]
      rfl
    exact Option.map_eq_some_iff.mpr ⟨i, hfind, rfl⟩

/-- Where pairs are unique, an identity says who owns its pair. -/
theorem owner_of_mem {db : Db} {i : AuthIdentity} (hi : i ∈ db.identities)
    (hpairs : (db.identities.map fun i => (i.provider, i.subject)).Nodup) :
    db.owner i.provider i.subject = some i.userId := by
  cases hfind : db.identity? i.provider i.subject with
  | none => exact absurd rfl (by simpa using List.find?_eq_none.mp hfind i hi : ¬ i.provider = i.provider)
  | some j =>
      have hj := List.mem_of_find?_eq_some hfind
      have hpair : j.provider = i.provider ∧ j.subject = i.subject := by simpa using List.find?_some hfind
      have heq : j = i := List.inj_on_of_nodup_map hpairs hj hi (by rw [hpair.1, hpair.2])
      rw [Db.owner, hfind, heq]
      rfl

/-! ## §3. The invariant. -/

/-- All unique keys of the database, and what its sequence and the requests
promise of new accounts. -/
structure Keys (cfg : Config) (store : Transactional Db Change) (nextUser : Nat) : Prop where
  emails : Unique Db.users Change.users User.email store
  ids : Unique Db.users Change.users User.id store
  pairs : Unique Db.identities Change.identities (fun i => (i.provider, i.subject)) store
  links : Unique Db.identities Change.identities (fun i => (i.userId, i.provider)) store
  sequence : ∀ u ∈ store.db.users ++ flushed Change.users store, u.id < nextUser
  lowered : ∀ u ∈ flushed Change.users store, cfg.dbLower u.email = u.email

/-- A commit creates an account for an address that belonged to nobody. -/
structure Created (cfg : Config) (profile : Profile) (userId : Nat) (c : Commit Db) : Prop where
  fresh : ∀ u ∈ c.before.users, u.id ≠ userId
  unclaimed : ∀ u ∈ c.before.users, cfg.dbLower u.email ≠ profile.email
  created : ∃ u ∈ c.after.users, u.id = userId ∧ u.email = profile.email

/-- What a response is owed: a commit of its request that gives the pair to
the returned user, who is the one of the ticket, or had the pair already, or
is new; and no commit at all after a failure. -/
def Justified (cfg : Config) (s : Accounts) (r : Response) : Prop :=
  match r.outcome with
  | .signedIn profile userId => ∃ c ∈ s.store.commits, c.txn = r.request ∧
      c.after.owner r.session.provider profile.subject = some userId ∧
      (∀ u, r.session.linkUser = some u → userId = u) ∧
      (r.session.linkUser = none → c.before.owner r.session.provider profile.subject = some userId ∨
        Created cfg profile userId c)
  | .failed _ | .raised => ∀ c ∈ s.store.commits, c.txn ≠ r.request

structure AuthInv (cfg : Config) (s : Accounts) : Prop where
  keys : Keys cfg s.store s.nextUser
  /-- Only requests that have started act. -/
  pending : ∀ x ∈ s.store.pending, x.1 ∈ s.requests
  commits : ∀ c ∈ s.store.commits, c.txn ∈ s.requests
  responses : ∀ r ∈ s.responses, r.request ∈ s.requests
  justified : ∀ r ∈ s.responses, Justified cfg s r

/-- What a step of the request `t` may do. -/
structure Move (t : Nat) (s s' : Accounts) : Prop where
  turn : Turn Db.apply t s.store s'.store
  requests : ∀ r ∈ s.requests, r ∈ s'.requests
  responses : ∀ r ∈ s'.responses, r ∈ s.responses ∨ r.request = t

/-- The request `t` has started and not responded. -/
structure Running (t : Nat) (s : Accounts) : Prop where
  started : t ∈ s.requests
  unanswered : ∀ r ∈ s.responses, r.request ≠ t

section Keys

variable {cfg : Config} {store : Transactional Db Change} {nextUser t : Nat}

/-- A statement that inserts neither users nor identities. -/
theorem Keys.flush (h : Keys cfg store nextUser) {c : Change} (husers : c.users = []) (hidentities : c.identities = []) :
    Keys cfg (store.flush t c) nextUser where
  emails := h.emails.flush (by rw [husers]; exact List.nodup_nil) (by rw [husers]; nofun)
  ids := h.ids.flush (by rw [husers]; exact List.nodup_nil) (by rw [husers]; nofun)
  pairs := h.pairs.flush (by rw [hidentities]; exact List.nodup_nil) (by rw [hidentities]; nofun)
  links := h.links.flush (by rw [hidentities]; exact List.nodup_nil) (by rw [hidentities]; nofun)
  sequence := by
    rw [flushed_flush, husers, List.append_nil]
    exact h.sequence
  lowered := by
    rw [flushed_flush, husers, List.append_nil]
    exact h.lowered

theorem flushed_drop_subset {R : Type} {new : Change → List R} {r : R} (hr : r ∈ flushed new (store.drop t)) :
    r ∈ flushed new store :=
  (flushed_perm store t).mem_iff.mp (List.mem_append_right _ hr)

theorem own_subset_flushed {R : Type} {new : Change → List R} {r : R} (hr : r ∈ (store.own t).flatMap new) :
    r ∈ flushed new store :=
  (flushed_perm store t).mem_iff.mp (List.mem_append_left _ hr)

theorem Keys.drop (h : Keys cfg store nextUser) : Keys cfg (store.drop t) nextUser where
  emails := h.emails.drop
  ids := h.ids.drop
  pairs := h.pairs.drop
  links := h.links.drop
  sequence u hu := by
    rcases List.mem_append.mp hu with hu | hu
    · exact h.sequence u (List.mem_append_left _ hu)
    · exact h.sequence u (List.mem_append_right _ (flushed_drop_subset hu))
  lowered u hu := h.lowered u (flushed_drop_subset hu)

theorem map_apply {K : Type} (f : Nat × String → K) (db : Db) (c : Change) :
    (db.apply c).users.map (f ∘ User.address) = (db.users ++ c.users).map (f ∘ User.address) := by
  rw [← List.map_map, addresses_apply, List.map_map]

theorem Keys.commit (h : Keys cfg store nextUser) : Keys cfg (store.commit Db.apply t) nextUser where
  emails := h.emails.commit fun db c => map_apply Prod.snd db c
  ids := h.ids.commit fun db c => map_apply Prod.fst db c
  pairs := h.pairs.commit fun db c => by rw [identities_apply]
  links := h.links.commit fun db c => by rw [identities_apply]
  sequence u hu := by
    rcases List.mem_append.mp hu with hu | hu
    · obtain ⟨v, hv, haddress⟩ := mem_users_foldl hu
      have hid : v.id = u.id := congrArg Prod.fst haddress
      rw [← hid]
      rcases List.mem_append.mp hv with hv | hv
      · exact h.sequence v (List.mem_append_left _ hv)
      · exact h.sequence v (List.mem_append_right _ (own_subset_flushed hv))
    · exact h.sequence u (List.mem_append_right _ (flushed_drop_subset hu))
  lowered u hu := h.lowered u (flushed_drop_subset hu)

/-- A row that waits for nobody and is not refused clashes with none, committed
or flushed. -/
theorem clashes_none {R : Type} {rows : Db → List R} {new : Change → List R} {clashes : R → Bool} {s : Accounts}
    (hwaits : waits new clashes s t = false) (hrefuses : refuses rows new clashes s t = false) :
    ∀ r ∈ rows s.store.db ++ flushed new s.store, clashes r = false := by
  unfold waits at hwaits
  unfold refuses at hrefuses
  rw [List.any_eq_false] at hwaits hrefuses
  intro r hr
  rw [Bool.eq_false_iff]
  rcases List.mem_append.mp hr with hr | hr
  · exact hrefuses r (List.mem_append_left _ hr)
  · obtain ⟨x, hx, hrx⟩ := List.mem_flatMap.mp hr
    by_cases hxt : x.1 = t
    · have hown : x.2 ∈ s.store.own t := Transactional.mem_own.mpr (by rw [← hxt]; exact hx)
      exact hrefuses r (List.mem_append_right _ (List.mem_flatMap.mpr ⟨x.2, hown, hrx⟩))
    · have hno := hwaits x hx
      simp only [Bool.and_eq_true, decide_eq_true_eq, List.any_eq_true, not_and, not_exists] at hno
      exact hno hxt r hrx

/-- An identity that waits for nobody and is not refused. -/
theorem Keys.insertIdentity {s : Accounts} (h : Keys cfg s.store s.nextUser) {i : AuthIdentity}
    (hwaits : waits Change.identities i.clashes s t = false)
    (hrefuses : refuses Db.identities Change.identities i.clashes s t = false) :
    Keys cfg (s.store.flush t (.identity i)) s.nextUser := by
  have hne : ∀ j ∈ s.store.db.identities ++ flushed Change.identities s.store,
      ¬ (i.provider = j.provider ∧ i.subject = j.subject) ∧ ¬ (i.userId = j.userId ∧ i.provider = j.provider) := by
    intro j hj
    have hno := clashes_none hwaits hrefuses j hj
    simp only [AuthIdentity.clashes, decide_eq_false_iff_not, not_or] at hno
    exact hno
  refine ⟨h.emails.flush List.nodup_nil nofun, h.ids.flush List.nodup_nil nofun, ?_, ?_, ?_, ?_⟩
  · refine h.pairs.flush (List.nodup_singleton _) fun r hr j hj heq => ?_
    obtain rfl := List.mem_singleton.mp hr
    obtain ⟨hprovider, hsubject⟩ := Prod.mk.inj heq
    exact (hne j hj).1 ⟨hprovider.symm, hsubject.symm⟩
  · refine h.links.flush (List.nodup_singleton _) fun r hr j hj heq => ?_
    obtain rfl := List.mem_singleton.mp hr
    obtain ⟨huser, hprovider⟩ := Prod.mk.inj heq
    exact (hne j hj).2 ⟨huser.symm, hprovider.symm⟩
  · rw [flushed_flush, show (Change.identity i).users = [] from rfl, List.append_nil]
    exact h.sequence
  · rw [flushed_flush, show (Change.identity i).users = [] from rfl, List.append_nil]
    exact h.lowered

/-- A user with a lower-case address that waits for nobody and is not refused. -/
theorem Keys.insertUser {s : Accounts} (h : Keys cfg s.store s.nextUser) {email : String} {emailVerified : Bool}
    (hlower : cfg.dbLower email = email) (hwaits : waits Change.users (fun u => u.email = email) s t = false)
    (hrefuses : refuses Db.users Change.users (fun u => u.email = email) s t = false) :
    Keys cfg (s.store.flush t (.user ⟨s.nextUser, email, emailVerified⟩)) (s.nextUser + 1) := by
  have hne : ∀ u ∈ s.store.db.users ++ flushed Change.users s.store, u.email ≠ email :=
    fun u hu => of_decide_eq_false (clashes_none hwaits hrefuses u hu)
  refine ⟨?_, ?_, h.pairs.flush List.nodup_nil nofun, h.links.flush List.nodup_nil nofun, ?_, ?_⟩
  · refine h.emails.flush (List.nodup_singleton _) fun r hr u hu => ?_
    obtain rfl := List.mem_singleton.mp hr
    exact hne u hu
  · refine h.ids.flush (List.nodup_singleton _) fun r hr u hu => ?_
    obtain rfl := List.mem_singleton.mp hr
    exact Nat.ne_of_lt (h.sequence u hu)
  · rw [flushed_flush, ← List.append_assoc]
    intro u hu
    rcases List.mem_append.mp hu with hu | hu
    · exact Nat.lt_succ_of_lt (h.sequence u hu)
    · obtain rfl := List.mem_singleton.mp hu
      exact Nat.lt_succ_self _
  · rw [flushed_flush]
    intro u hu
    rcases List.mem_append.mp hu with hu | hu
    · exact h.lowered u hu
    · obtain rfl := List.mem_singleton.mp hu
      exact hlower

end Keys

/-! ## §4. What every await keeps. -/

/-- A step that keeps the invariant and is a move of `t`. -/
def Kept (cfg : Config) (t : Nat) (s s' : Accounts) : Prop :=
  AuthInv cfg s → Running t s → AuthInv cfg s' ∧ Move t s s' ∧ Running t s'

section Kept

variable {cfg : Config} {t : Nat} {s : Accounts}

theorem kept_refl (s : Accounts) : Kept cfg t s s :=
  fun hinv hrun => ⟨hinv, ⟨turn_refl _, fun _ h => h, fun _ h => .inl h⟩, hrun⟩

/-- A response that is there is of another request, and stays justified. -/
theorem justified_of_turn {s s' : Accounts} (hturn : Turn Db.apply t s.store s'.store) {r : Response}
    (hne : r.request ≠ t) (h : Justified cfg s r) : Justified cfg s' r := by
  unfold Justified at h ⊢
  split at h
  · obtain ⟨c, hc, hpaid⟩ := h
    exact ⟨c, hturn.commits_subset c hc, hpaid⟩
  · exact hturn.commits_of_ne hne h
  · exact hturn.commits_of_ne hne h

/-- A step on the database session of `t`. -/
theorem kept_store {store : Transactional Db Change} {nextUser : Nat} (hturn : Turn Db.apply t s.store store)
    (hkeys : Keys cfg s.store s.nextUser → Keys cfg store nextUser)
    (hpending : ∀ x ∈ store.pending, x ∈ s.store.pending ∨ x.1 = t) :
    Kept cfg t s { s with store := store, nextUser := nextUser } := by
  intro hinv hrun
  refine ⟨⟨hkeys hinv.keys, fun x hx => ?_, fun c hc => ?_, hinv.responses, fun r hr => ?_⟩,
    ⟨hturn, fun _ h => h, fun _ h => .inl h⟩, ⟨hrun.started, hrun.unanswered⟩⟩
  · rcases hpending x hx with hx | hx
    · exact hinv.pending x hx
    · exact hx ▸ hrun.started
  · rcases hturn.database with ⟨_, hcommits⟩ | ⟨_, hcommits⟩
    · exact hinv.commits c (hcommits ▸ hc)
    · rcases List.mem_cons.mp (hcommits ▸ hc) with rfl | hc
      · exact hrun.started
      · exact hinv.commits c hc
  · exact justified_of_turn hturn (hrun.unanswered r hr) (hinv.justified r hr)

theorem mem_pending_flush {store : Transactional Db Change} {c : Change} :
    ∀ x ∈ (store.flush t c).pending, x ∈ store.pending ∨ x.1 = t := by
  intro x hx
  rcases List.mem_append.mp hx with hx | hx
  · exact .inl hx
  · exact .inr (by rw [List.mem_singleton.mp hx])

theorem mem_pending_drop {store : Transactional Db Change} :
    ∀ x ∈ (store.drop t).pending, x ∈ store.pending ∨ x.1 = t :=
  fun _ hx => .inl (List.mem_of_mem_filter hx)

/-- A request has flushed more, and committed nothing. -/
structure Early (cfg : Config) (t : Nat) (s s' : Accounts) : Prop where
  kept : Kept cfg t s s'
  db : s'.store.db = s.store.db
  commits : s'.store.commits = s.store.commits
  own : ∀ c ∈ s.store.own t, c ∈ s'.store.own t

theorem early_refl (s : Accounts) : Early cfg t s s := ⟨kept_refl s, rfl, rfl, fun _ h => h⟩

theorem early_flush {c : Change} {nextUser : Nat}
    (hkeys : Keys cfg s.store s.nextUser → Keys cfg (s.store.flush t c) nextUser) :
    Early cfg t s { s with store := s.store.flush t c, nextUser := nextUser } where
  kept := kept_store (turn_flush _ _) hkeys mem_pending_flush
  db := rfl
  commits := rfl
  own c' hc' := by
    show c' ∈ (s.store.flush t c).own t
    rw [Transactional.own_flush_self]
    exact List.mem_append_left _ hc'

theorem early_query {α : Type} (f : Db → α) : (query f).Keeps (Early cfg t) :=
  Co.keeps_query early_refl

theorem early_ask {α : Type} (op : AuthOp) (answer : AuthReply → Option α) : (ask op answer).Keeps (Early cfg t) := by
  refine ⟨fun a s r s' hact => ?_, fun _ => trivial⟩
  cases a with
  | ok d =>
      obtain ⟨v, _, heq⟩ := Option.map_eq_some_iff.mp hact
      rw [← (Prod.mk.inj heq).2]
      exact early_refl s
  | fail e =>
      simp only [Option.ite_none_left_eq_some, Option.some.injEq, Prod.mk.injEq] at hact
      rw [← hact.2.2]
      exact early_refl s
  | lost => cases hact
  | late => cases hact

theorem early_plain {c : Change} (husers : c.users = []) (hidentities : c.identities = []) :
    (flush t c).Keeps (Early cfg t) :=
  Co.keeps_transaction early_refl fun s a s' hbody => by
    simp only [Except.ok.injEq, Prod.mk.injEq] at hbody
    rw [← hbody.2]
    exact early_flush fun h => h.flush husers hidentities

theorem early_issueToken (userId : Nat) (purpose : String) (minutes : Nat) :
    (issueToken t userId purpose minutes).Keeps (Early cfg t) := by
  refine Co.Keeps.bind (early_ask _ _) fun secret => ?_
  obtain ⟨token, now⟩ := secret
  exact Co.Keeps.bind (early_plain rfl rfl) fun _ => Co.Keeps.bind (early_plain rfl rfl) fun _ => trivial

/-- An identity is flushed, or nothing happens. -/
theorem insertIdentityStep_cases {i : AuthIdentity} {a : Answer AuthExc AuthReply} {s s' : Accounts}
    {r : Except AuthExc Unit} (h : insertIdentityStep t i a s = some (r, s')) :
    Early cfg t s s' ∧ ((∃ e, r = .error e) ∨ .identity i ∈ s'.store.own t) := by
  unfold insertIdentityStep at h
  split at h
  · split at h
    · cases h
    · rename_i hwaits
      split at h
      · simp only [Option.some.injEq, Prod.mk.injEq] at h
        obtain ⟨rfl, rfl⟩ := h
        exact ⟨early_refl _, .inl ⟨_, rfl⟩⟩
      · rename_i hrefuses
        simp only [Option.some.injEq, Prod.mk.injEq] at h
        obtain ⟨rfl, rfl⟩ := h
        refine ⟨early_flush fun hkeys => hkeys.insertIdentity (by simpa using hwaits) (by simpa using hrefuses), .inr ?_⟩
        show Change.identity i ∈ (s.store.flush t _).own t
        rw [Transactional.own_flush_self]
        exact List.mem_append_right _ List.mem_cons_self
  · simp only [Option.ite_none_right_eq_some, Option.some.injEq, Prod.mk.injEq] at h
    obtain ⟨_, rfl, rfl⟩ := h
    exact ⟨early_refl _, .inl ⟨_, rfl⟩⟩
  · cases h

/-- A user is flushed, or at most an id is taken. -/
theorem insertUserStep_cases {email : String} {emailVerified : Bool} {a : Answer AuthExc AuthReply} {s s' : Accounts}
    {r : Except AuthExc User} (hlower : cfg.dbLower email = email)
    (h : insertUserStep t email emailVerified a s = some (r, s')) :
    Early cfg t s s' ∧ ((∃ e, r = .error e) ∨
      ∃ user, r = .ok user ∧ user.email = email ∧ .user user ∈ s'.store.own t) := by
  unfold insertUserStep at h
  split at h
  · split at h
    · cases h
    · rename_i hwaits
      split at h
      · simp only [Option.some.injEq, Prod.mk.injEq] at h
        obtain ⟨rfl, rfl⟩ := h
        refine ⟨⟨kept_store (turn_refl _) (fun hkeys => ?_) fun _ hx => .inl hx, rfl, rfl, fun _ hc => hc⟩, .inl ⟨_, rfl⟩⟩
        exact { hkeys with sequence := fun u hu => Nat.lt_succ_of_lt (hkeys.sequence u hu) }
      · rename_i hrefuses
        simp only [Option.some.injEq, Prod.mk.injEq] at h
        obtain ⟨rfl, rfl⟩ := h
        refine ⟨early_flush fun hkeys => hkeys.insertUser hlower (by simpa using hwaits) (by simpa using hrefuses),
          .inr ⟨_, rfl, rfl, ?_⟩⟩
        show Change.user _ ∈ (s.store.flush t _).own t
        rw [Transactional.own_flush_self]
        exact List.mem_append_right _ List.mem_cons_self
  · simp only [Option.ite_none_right_eq_some, Option.some.injEq, Prod.mk.injEq] at h
    obtain ⟨_, rfl, rfl⟩ := h
    exact ⟨early_refl _, .inl ⟨_, rfl⟩⟩
  · cases h

theorem early_consumeToken (token purpose : String) : (consumeToken t token purpose).Keeps (Early cfg t) := by
  refine ⟨fun a s r s' hact => ?_, fun _ => trivial⟩
  unfold consumeStep at hact
  split at hact
  · split at hact
    · cases hact
    · split at hact
      · simp only [Option.some.injEq, Prod.mk.injEq] at hact
        rw [← hact.2]
        exact early_flush fun h => h.flush rfl rfl
      · simp only [Option.some.injEq, Prod.mk.injEq] at hact
        rw [← hact.2]
        exact early_refl s
  · simp only [Option.ite_none_right_eq_some, Option.some.injEq, Prod.mk.injEq] at hact
    rw [← hact.2.2]
    exact early_refl s
  · cases hact

/-- A commit, or the end of the session without one. -/
theorem commitStep_cases {a : Answer AuthExc AuthReply} {s s' : Accounts} {r : Except AuthExc Unit}
    (h : commitStep t a s = some (r, s')) :
    Kept cfg t s s' ∧ ((r = .ok () ∧ s'.store = s.store.commit Db.apply t) ∨
      ((∃ e, r = .error e) ∧ s'.store = s.store.drop t)) := by
  unfold commitStep at h
  split at h
  · simp only [Option.some.injEq, Prod.mk.injEq] at h
    obtain ⟨rfl, rfl⟩ := h
    exact ⟨kept_store (turn_commit _) Keys.commit mem_pending_drop, .inl ⟨rfl, rfl⟩⟩
  · simp only [Option.ite_none_right_eq_some, Option.some.injEq, Prod.mk.injEq] at h
    obtain ⟨_, rfl, rfl⟩ := h
    exact ⟨kept_store (turn_drop _) Keys.drop mem_pending_drop, .inr ⟨⟨_, rfl⟩, rfl⟩⟩
  · cases h

theorem rollbackStep_cases {a : Answer AuthExc AuthReply} {s s' : Accounts} {r : Except AuthExc Unit}
    (h : rollbackStep t a s = some (r, s')) : Kept cfg t s s' ∧ s'.store = s.store.drop t := by
  unfold rollbackStep at h
  split at h
  · simp only [Option.some.injEq, Prod.mk.injEq] at h
    obtain ⟨rfl, rfl⟩ := h
    exact ⟨kept_store (turn_drop _) Keys.drop mem_pending_drop, rfl⟩
  · simp only [Option.ite_none_right_eq_some, Option.some.injEq, Prod.mk.injEq] at h
    obtain ⟨_, rfl, rfl⟩ := h
    exact ⟨kept_store (turn_drop _) Keys.drop mem_pending_drop, rfl⟩
  · cases h

/-! ## §5. The other requests. -/

theorem kept_of_early {α : Type} {p : Request α} (hp : p.Keeps (Early cfg t)) : p.Keeps (Kept cfg t) :=
  hp.mono fun _ _ h => h.kept

theorem kept_commit : (commit t).Keeps (Kept cfg t) :=
  ⟨fun _ _ _ _ hact => (commitStep_cases hact).1, fun _ => trivial⟩

theorem kept_rollback : (rollback t).Keeps (Kept cfg t) :=
  ⟨fun _ _ _ _ hact => (rollbackStep_cases hact).1, fun _ => trivial⟩

theorem kept_insertUser {email : String} {emailVerified : Bool} (hlower : cfg.dbLower email = email) :
    (insertUser t email emailVerified).Keeps (Kept cfg t) :=
  ⟨fun _ _ _ _ hact => (insertUserStep_cases hlower hact).1.kept, fun _ => trivial⟩

theorem kept_session (session : Session) :
    (Co.memory .memory fun s => ((), { s with sessions := session :: s.sessions }) : Request Unit).Keeps (Kept cfg t) :=
  Co.keeps_memory fun _ hinv hrun =>
    ⟨⟨hinv.keys, hinv.pending, hinv.commits, hinv.responses, hinv.justified⟩,
      ⟨turn_refl _, fun _ h => h, fun _ h => .inl h⟩, ⟨hrun.started, hrun.unanswered⟩⟩

theorem kept_sendVerification (userId : Nat) : (sendVerification cfg t userId).Keeps (Kept cfg t) := by
  unfold sendVerification
  split
  · trivial
  · refine Co.Keeps.bind (kept_of_early (early_ask _ _)) fun send => ?_
    split
    · trivial
    · trivial
    · exact Co.Keeps.bind (kept_of_early (early_issueToken _ _ _)) fun _ => kept_of_early (early_ask _ _)

theorem kept_register (hlower : ∀ e, cfg.dbLower (cfg.lower e) = cfg.lower e) (address : String) :
    (register cfg t address).Keeps (Kept cfg t) := by
  unfold register
  split
  · trivial
  · refine Co.Keeps.bind (kept_of_early (early_query _)) fun existing => ?_
    split
    · trivial
    · refine Co.Keeps.bind (Co.Keeps.tryCatch (kept_insertUser (hlower address)) fun e => ?_) fun user => ?_
      · split <;> trivial
      · exact Co.Keeps.bind (kept_sendVerification _) fun _ => kept_commit

theorem kept_requestVerification (address : String) : (requestVerification cfg t address).Keeps (Kept cfg t) := by
  unfold requestVerification
  split
  · trivial
  · refine Co.Keeps.bind (kept_of_early (early_query _)) fun user => ?_
    split
    · trivial
    · split
      · trivial
      · exact Co.Keeps.bind (kept_sendVerification _) fun _ => kept_commit

theorem kept_confirmVerification (token : String) : (confirmVerification t token).Keeps (Kept cfg t) := by
  refine Co.Keeps.bind (kept_of_early (early_consumeToken _ _)) fun userId => ?_
  refine Co.Keeps.bind (kept_of_early (early_query _)) fun user => ?_
  split
  · trivial
  · refine Co.Keeps.bind (kept_of_early (early_plain rfl rfl)) fun _ => ?_
    exact Co.Keeps.bind (kept_of_early (early_plain rfl rfl)) fun _ => kept_commit

theorem kept_linkProvider (provider : String) (userId : Nat) :
    (linkProvider cfg t provider userId).Keeps (Kept cfg t) := by
  unfold linkProvider
  split
  · trivial
  · exact Co.Keeps.bind (kept_of_early (early_issueToken _ _ _)) fun _ => kept_commit

theorem kept_startOauth (provider : String) (ticket : Option String) :
    (startOauth cfg t provider ticket).Keeps (Kept cfg t) := by
  unfold startOauth
  split
  · trivial
  · split
    · exact Co.Keeps.bind kept_commit fun _ => kept_session _
    · refine Co.Keeps.bind (kept_of_early (early_consumeToken _ _)) fun linkUser => ?_
      exact Co.Keeps.bind kept_commit fun _ => kept_session _

end Kept

end WebBuilder.Auth
