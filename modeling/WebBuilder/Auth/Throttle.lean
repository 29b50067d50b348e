/-
  WebBuilder.Auth.Throttle — room for one more link.

  A link that is flushed and not committed has `Room`: its transaction holds
  the locks of its client and of its user, at most four links of the client
  are committed in any window that it falls into, the last one of the user is
  a minute old, and the address of the user is not verified.

  Main results:
    * `Room.move`, `Room.early` — neither the others nor later statements of
      its own take the room from a transaction;
    * `Inv.early`, `Inv.commit`, `Inv.drop` — so the limits survive a commit.
-/
import WebBuilder.Auth.Verification

namespace WebBuilder.Auth.Verification

open WebBuilder.Async WebBuilder.Store

/-! ## §1. What a transaction makes of the database. -/

def Change.tokens : Change → List AuthToken
  | token x => [x]
  | _ => []

/-- What a change makes of the user `id`. -/
def Change.onUser (id : Nat) (o : Option User) : Change → Option User
  | user u => o.or (if u.id = id then some u else none)
  | verified i => if i = id then o.map User.verify else o
  | _ => o

/-- The change needs the lock of the user `id`. -/
def Change.touches (id : Nat) : Change → Prop
  | user u => u.id = id
  | verified i => i = id
  | _ => False

section Database

variable {db : Db} {id : Nat} {x : AuthToken}

theorem user?_apply (c : Change) : (db.apply c).user? id = c.onUser id (db.user? id) := by
  cases c with
  | user u =>
      simp only [Db.apply, Db.user?, Change.onUser, List.find?_append, List.find?_singleton, decide_eq_true_eq]
  | verified i =>
      simp only [Db.apply, Db.user?, Change.onUser, List.find?_map]
      have hpred : (fun u : User => decide (u.id = id)) ∘ (fun u => if u.id = i then u.verify else u)
          = fun u => decide (u.id = id) := by
        funext u
        show decide ((if u.id = i then u.verify else u).id = id) = _
        split <;> rfl
      rw [hpred]
      cases hfind : db.users.find? fun u => decide (u.id = id) with
      | none => simp
      | some u =>
          have hid : u.id = id := by simpa using List.find?_some hfind
          by_cases hi : i = id
          · simp [hi, hid]
          · have hne : u.id ≠ i := fun h => hi (h.symm.trans hid)
            simp [hi, hne]
  | token x => rfl
  | deleted xs => rfl

/-- A transaction sees to a user by itself. -/
theorem user?_foldl (cs : List Change) : ∀ db : Db,
    (cs.foldl Db.apply db).user? id = cs.foldl (Change.onUser id) (db.user? id) := by
  induction cs with
  | nil =>
      intro db
      rfl
  | cons c cs ih =>
      intro db
      rw [List.foldl_cons, ih, user?_apply, List.foldl_cons]

/-- Changes that touch nobody. -/
theorem onUser_untouched (cs : List Change) : ∀ o : Option User, (∀ c ∈ cs, ¬ c.touches id) →
    cs.foldl (Change.onUser id) o = o := by
  induction cs with
  | nil => intros; rfl
  | cons c cs ih =>
      intro o h
      have hc : c.onUser id o = o := by
        have hnot := h c List.mem_cons_self
        cases c with
        | user u => simp [Change.onUser, show ¬ u.id = id from hnot]
        | verified i => simp [Change.onUser, show ¬ i = id from hnot]
        | token x => rfl
        | deleted xs => rfl
      rw [List.foldl_cons, hc]
      exact ih o fun c hc => h c (List.mem_cons_of_mem _ hc)

theorem tokens_foldl (cs : List Change) : ∀ db : Db,
    (cs.foldl Db.apply db).tokens.Sublist (db.tokens ++ cs.flatMap Change.tokens) := by
  induction cs with
  | nil =>
      intro db
      simp
  | cons c cs ih =>
      intro db
      rw [List.foldl_cons, List.flatMap_cons, ← List.append_assoc]
      refine (ih (db.apply c)).trans (List.Sublist.append_right ?_ _)
      cases c with
      | user u => simp [Db.apply, Change.tokens]
      | verified i => simp [Db.apply, Change.tokens]
      | token x => simp [Db.apply, Change.tokens]
      | deleted xs =>
          simp only [Db.apply, Change.tokens, List.append_nil]
          exact List.filter_sublist

/-- A token stays until it is deleted. -/
theorem stays_or_deleted (cs : List Change) : ∀ db : Db, x ∈ db.tokens →
    x ∈ (cs.foldl Db.apply db).tokens ∨ ∃ xs, .deleted xs ∈ cs ∧ x ∈ xs := by
  induction cs with
  | nil =>
      intro db hx
      exact .inl hx
  | cons c cs ih =>
      intro db hx
      have hstep : x ∈ (db.apply c).tokens ∨ ∃ xs, c = .deleted xs ∧ x ∈ xs := by
        cases c with
        | user u => exact .inl hx
        | verified i => exact .inl hx
        | token y => exact .inl (List.mem_append_left _ hx)
        | deleted xs =>
            by_cases hdel : x ∈ xs
            · exact .inr ⟨xs, rfl, hdel⟩
            · exact .inl (List.mem_filter.mpr ⟨hx, by simpa using hdel⟩)
      rcases hstep with hx | ⟨xs, rfl, hdel⟩
      · rcases ih _ hx with hx | ⟨xs, hxs, hdel⟩
        · exact .inl hx
        · exact .inr ⟨xs, List.mem_cons_of_mem _ hxs, hdel⟩
      · exact .inr ⟨xs, List.mem_cons_self, hdel⟩

/-- The ids of a database after a transaction. -/
theorem ids_foldl (cs : List Change) : ∀ db : Db, ∀ u ∈ (cs.foldl Db.apply db).users,
    (∃ v ∈ db.users, v.id = u.id) ∨ ∃ v, .user v ∈ cs ∧ v.id = u.id := by
  induction cs with
  | nil =>
      intro db u hu
      exact .inl ⟨u, hu, rfl⟩
  | cons c cs ih =>
      intro db u hu
      rcases ih _ u hu with ⟨v, hv, hid⟩ | ⟨v, hv, hid⟩
      · cases c with
        | user w =>
            rcases List.mem_append.mp hv with hv | hv
            · exact .inl ⟨v, hv, hid⟩
            · rw [List.mem_singleton] at hv
              exact .inr ⟨w, List.mem_cons_self, hv ▸ hid⟩
        | verified i =>
            obtain ⟨w, hw, rfl⟩ := List.mem_map.mp hv
            refine .inl ⟨w, hw, ?_⟩
            rw [← hid]
            split <;> rfl
        | token x => exact .inl ⟨v, hv, hid⟩
        | deleted xs => exact .inl ⟨v, hv, hid⟩
      · exact .inr ⟨v, List.mem_cons_of_mem _ hv, hid⟩

theorem mem_of_user? {u : User} (h : db.user? id = some u) : u ∈ db.users ∧ u.id = id :=
  ⟨List.mem_of_find?_eq_some h, by simpa using List.find?_some h⟩

end Database

/-! ## §2. The tokens that count. -/

def AuthToken.isMail (x : AuthToken) : Bool := x.purpose = "verify_email"

/-- The row was created before anybody could delete it. -/
def AuthToken.isPrompt (x : AuthToken) : Bool := x.createdAt + 15 * minute ≤ x.expiresAt + day

/-- The links that a transaction sends. -/
def sending (cs : List Change) : List AuthToken := (cs.flatMap Change.tokens).filter AuthToken.isMail

/-- The links that a commit has added. -/
def sentBy (c : Commit Db) : List AuthToken := c.after.tokens.filter fun x => x.isMail ∧ x ∉ c.before.tokens

/-- All links that were ever committed. -/
def sent (s : Server) : List AuthToken := s.store.commits.flatMap sentBy

/-- Which committed links: the rows that the table has, or all there ever were
except those whose row was late by a day. -/
inductive Scope where
  | stored
  | ever

def tokensOf (s : Server) : Scope → List AuthToken
  | .stored => s.store.db.tokens.filter AuthToken.isMail
  | .ever => (sent s).filter AuthToken.isPrompt

/-- The links of a client in the fifteen minutes from `start` on. -/
def inWindow (requestIp : String) (start : Nat) (xs : List AuthToken) : List AuthToken :=
  xs.filter fun x => x.requestIp = requestIp ∧ start ≤ x.createdAt ∧ x.createdAt < start + 15 * minute

/-- No fifteen minutes hold more than five links of one client. -/
def RateLimited (xs : List AuthToken) : Prop := ∀ requestIp start, (inWindow requestIp start xs).length ≤ 5

def Apart (x y : AuthToken) : Prop :=
  x.userId = y.userId → x.createdAt + 60 * second ≤ y.createdAt ∨ y.createdAt + 60 * second ≤ x.createdAt

/-- No two links of one user are created within a minute. -/
def Spaced (xs : List AuthToken) : Prop := xs.Pairwise Apart

/-- The user of every added link has no verified address. -/
def Needed (c : Commit Db) : Prop := ∀ x ∈ sentBy c, ∃ u, c.after.user? x.userId = some u ∧ u.emailVerified = false

section Tokens

variable {xs ys : List AuthToken} {x : AuthToken} {s s' : Server} {t : Nat}

theorem sending_append (cs ds : List Change) : sending (cs ++ ds) = sending cs ++ sending ds := by
  unfold sending
  rw [List.flatMap_append, List.filter_append]

theorem mem_sending {cs : List Change} : x ∈ sending cs ↔ .token x ∈ cs ∧ x.isMail := by
  unfold sending
  rw [List.mem_filter, List.mem_flatMap]
  refine and_congr_left fun _ => ⟨fun ⟨c, hc, hx⟩ => ?_, fun h => ⟨_, h, List.mem_singleton.mpr rfl⟩⟩
  cases c with
  | token y => exact List.mem_singleton.mp hx ▸ hc
  | user u => cases hx
  | verified i => cases hx
  | deleted xs => cases hx

theorem apart_symm {x y : AuthToken} (h : Apart x y) : Apart y x := fun huser => (h huser.symm).symm

theorem spaced_of_subperm (h : ys.Subperm xs) (hxs : Spaced xs) : Spaced ys := by
  obtain ⟨zs, hperm, hsub⟩ := h
  exact (hperm.pairwise_iff fun hxy => apart_symm hxy).mp (hxs.sublist hsub)

theorem Spaced.nodup (h : Spaced xs) : xs.Nodup := by
  refine List.Pairwise.imp (fun {x y} hxy heq => ?_) h
  subst heq
  have hsecond : 0 < 60 * second := by decide
  rcases hxy rfl with h | h <;> omega

/-- The links that a commit adds. -/
theorem sentBy_sublist (cs : List Change) (db : Db) (t : Nat) :
    (sentBy ⟨t, db, cs.foldl Db.apply db⟩).Sublist (sending cs) := by
  have hkeep := (tokens_foldl cs db).filter fun x => decide (x.isMail ∧ x ∉ db.tokens)
  rw [List.filter_append] at hkeep
  have hold : db.tokens.filter (fun x => decide (x.isMail ∧ x ∉ db.tokens)) = [] := by
    rw [List.filter_eq_nil_iff]
    intro x hx
    simp [hx]
  rw [hold, List.nil_append] at hkeep
  refine hkeep.trans (List.monotone_filter_right _ fun x hx => ?_)
  exact (of_decide_eq_true hx).1

/-- **Only commits add links**, and only those they send. -/
theorem tokensOf_turn (h : Turn Db.apply t s.store s'.store) (l : Scope) :
    (tokensOf s' l).Subperm (tokensOf s l ++ sending (s.store.own t)) := by
  rcases h.database with ⟨hdb, hcommits⟩ | ⟨hdb, hcommits⟩
  · have hsame : tokensOf s' l = tokensOf s l := by
      cases l with
      | stored => simp only [tokensOf, hdb]
      | ever => simp only [tokensOf, sent, hcommits]
    rw [hsame]
    exact (List.sublist_append_left _ _).subperm
  · cases l with
    | stored =>
        simp only [tokensOf, hdb]
        have hkeep := (tokens_foldl (s.store.own t) s.store.db).filter AuthToken.isMail
        rw [List.filter_append] at hkeep
        exact hkeep.subperm
    | ever =>
        simp only [tokensOf, sent, hcommits, List.flatMap_cons, List.filter_append]
        rw [hdb]
        have hnew : ((sentBy ⟨t, s.store.db, (s.store.own t).foldl Db.apply s.store.db⟩).filter
            AuthToken.isPrompt).Sublist (sending (s.store.own t)) :=
          List.filter_sublist.trans (sentBy_sublist _ _ _)
        exact ((hnew.append_right _).subperm).trans List.perm_append_comm.subperm

end Tokens

/-! ## §3. Room for one more. -/

/-- Nobody else sends for the client, and a link created from `since` on fits
in every window. -/
structure Slot (cfg : Config) (t : Nat) (requestIp : String) (since : Nat) (s : Server) : Prop where
  held : s.addresses (cfg.lockId requestIp) = some t
  room : ∀ l start, since < start + 15 * minute → (inWindow requestIp start (tokensOf s l)).length ≤ 4

/-- Nobody else sends to the user, whose links are a minute old at `since`. -/
structure Pause (t userId since : Nat) (s : Server) : Prop where
  held : s.rows userId = some t
  room : ∀ l, ∀ x ∈ tokensOf s l, x.userId = userId → x.createdAt + 60 * second ≤ since

/-- Nobody else can verify the address of the user, and it is not verified. -/
structure Unverified (t userId : Nat) (s : Server) : Prop where
  held : s.rows userId = some t
  user : ∃ u, (s.view t).user? userId = some u ∧ u.emailVerified = false

/-- The transaction `t` may send a link created from `since` on. -/
structure Room (cfg : Config) (t : Nat) (requestIp : String) (userId since : Nat) (s : Server) : Prop where
  slot : Slot cfg t requestIp since s
  pause : Pause t userId since s
  unverified : Unverified t userId s

/-- What is flushed, and the locks. -/
structure Flushed (cfg : Config) (s : Server) : Prop where
  deleted : ∀ t xs, (t, .deleted xs) ∈ s.store.pending → ∀ x ∈ xs, x.expiresAt + day < s.clock
  room : ∀ t x, (t, .token x) ∈ s.store.pending → x.isMail →
    Room cfg t x.requestIp x.userId x.createdAt s
  single : ∀ t, (sending (s.store.own t)).length ≤ 1
  touched : ∀ t c id, (t, c) ∈ s.store.pending → c.touches id → s.rows id = some t
  bound : ∀ id, s.rows id ≠ none → id < s.nextUser
  started : ∀ x ∈ s.store.pending, x.1 ∈ s.requests

/-- What is committed, and what may be. -/
structure Inv (cfg : Config) (s : Server) : Prop where
  flushed : Flushed cfg s
  limited : ∀ l, RateLimited (tokensOf s l)
  spaced : ∀ l, Spaced (tokensOf s l)
  needed : ∀ c ∈ s.store.commits, Needed c
  gone : ∀ x ∈ sent s, x ∈ s.store.db.tokens ∨ x.expiresAt + day < s.clock
  ids : ∀ u ∈ s.store.db.users, u.id < s.nextUser

/-- The transaction `t` moves, or only time passes. -/
structure Move (t : Nat) (s s' : Server) : Prop where
  clock : s.clock ≤ s'.clock
  requests : ∀ r ∈ s.requests, r ∈ s'.requests
  turn : Turn Db.apply t s.store s'.store
  addresses : s.addresses.Kept t s'.addresses
  rows : s.rows.Kept t s'.rows

section Moves

variable {cfg : Config} {t u : Nat} {s s' : Server} {requestIp : String} {userId since since' : Nat}

theorem inWindow_append (start : Nat) (xs ys : List AuthToken) :
    inWindow requestIp start (xs ++ ys) = inWindow requestIp start xs ++ inWindow requestIp start ys :=
  List.filter_append ..

theorem Slot.later (h : Slot cfg t requestIp since s) (hle : since ≤ since') : Slot cfg t requestIp since' s :=
  ⟨h.held, fun l start hstart => h.room l start (by omega)⟩

theorem Pause.later (h : Pause t userId since s) (hle : since ≤ since') : Pause t userId since' s :=
  ⟨h.held, fun l x hx hid => (h.room l x hx hid).trans hle⟩

theorem Room.later (h : Room cfg t requestIp userId since s) (hle : since ≤ since') :
    Room cfg t requestIp userId since' s :=
  ⟨h.slot.later hle, h.pause.later hle, h.unverified⟩

/-- Another transaction sends for other clients. -/
theorem Slot.move (hinv : Inv cfg s) (hne : u ≠ t) (hmove : Move u s s') (h : Slot cfg t requestIp since s) :
    Slot cfg t requestIp since s' := by
  refine ⟨hmove.addresses t (Ne.symm hne) _ h.held, fun l start hstart => ?_⟩
  have hnone : inWindow requestIp start (sending (s.store.own u)) = [] := by
    unfold inWindow
    rw [List.filter_eq_nil_iff]
    intro x hx hwindow
    obtain ⟨hx, hmail⟩ := mem_sending.mp hx
    have hheld := (hinv.flushed.room u x (Transactional.mem_own.mp hx) hmail).slot.held
    rw [(of_decide_eq_true hwindow).1, h.held] at hheld
    exact hne (Option.some.inj hheld).symm
  have hsub : (inWindow requestIp start (tokensOf s' l)).Subperm
      (inWindow requestIp start (tokensOf s l ++ sending (s.store.own u))) :=
    (tokensOf_turn hmove.turn l).filter _
  rw [inWindow_append, hnone, List.append_nil] at hsub
  exact hsub.length_le.trans (h.room l start hstart)

/-- Another transaction sends to other users. -/
theorem Pause.move (hinv : Inv cfg s) (hne : u ≠ t) (hmove : Move u s s') (h : Pause t userId since s) :
    Pause t userId since s' := by
  refine ⟨hmove.rows t (Ne.symm hne) _ h.held, fun l x hx hid => ?_⟩
  rcases List.mem_append.mp ((tokensOf_turn hmove.turn l).subset hx) with hx | hx
  · exact h.room l x hx hid
  · obtain ⟨hx, hmail⟩ := mem_sending.mp hx
    have hheld := (hinv.flushed.room u x (Transactional.mem_own.mp hx) hmail).pause.held
    rw [hid, h.held] at hheld
    exact absurd (Option.some.inj hheld).symm hne

/-- A user whose row is locked stays what it is. -/
theorem user?_of_move (hinv : Inv cfg s) (hne : u ≠ t) (hmove : Move u s s') (hheld : s.rows userId = some t) :
    (s'.view t).user? userId = (s.view t).user? userId := by
  have hdb : s'.store.db.user? userId = s.store.db.user? userId := by
    rcases hmove.turn.database with ⟨hdb, _⟩ | ⟨hdb, _⟩
    · rw [hdb]
    · rw [hdb, user?_foldl]
      refine onUser_untouched _ _ fun c hc htouch => hne ?_
      have hrow := hinv.flushed.touched u c userId (Transactional.mem_own.mp hc) htouch
      exact Option.some.inj (hrow.symm.trans hheld)
  unfold Server.view
  rw [hmove.turn.others t (Ne.symm hne), user?_foldl, user?_foldl, hdb]

theorem Unverified.move (hinv : Inv cfg s) (hne : u ≠ t) (hmove : Move u s s') (h : Unverified t userId s) :
    Unverified t userId s' :=
  ⟨hmove.rows t (Ne.symm hne) _ h.held, by rw [user?_of_move hinv hne hmove h.held]; exact h.user⟩

/-- **The room of a transaction** is out of the reach of the others. -/
theorem Room.move (hinv : Inv cfg s) (hne : u ≠ t) (hmove : Move u s s') (h : Room cfg t requestIp userId since s) :
    Room cfg t requestIp userId since s' :=
  ⟨h.slot.move hinv hne hmove, h.pause.move hinv hne hmove, h.unverified.move hinv hne hmove⟩

end Moves

/-! ## §4. Steps before the end of a transaction. -/

/-- The transaction `t` flushes `cs` and takes locks. -/
structure Early (t : Nat) (cs : List Change) (s s' : Server) : Prop where
  clock : s'.clock = s.clock
  requests : s'.requests = s.requests
  db : s'.store.db = s.store.db
  commits : s'.store.commits = s.store.commits
  pending : s'.store.pending = s.store.pending ++ cs.map fun c => (t, c)
  nextUser : s.nextUser ≤ s'.nextUser
  addresses : ∀ u k, s.addresses k = some u → s'.addresses k = some u
  rows : ∀ u id, s.rows id = some u → s'.rows id = some u
  bound : ∀ id, s'.rows id ≠ none → s.rows id ≠ none ∨ id < s'.nextUser

/-- What the changes need. -/
structure Legal (cfg : Config) (t : Nat) (cs : List Change) (s s' : Server) : Prop where
  deleted : ∀ xs, .deleted xs ∈ cs → ∀ x ∈ xs, x.expiresAt + day < s.clock
  room : ∀ x, .token x ∈ cs → x.isMail → Room cfg t x.requestIp x.userId x.createdAt s'
  single : (sending (s.store.own t ++ cs)).length ≤ 1
  touched : ∀ c ∈ cs, ∀ id, c.touches id → s'.rows id = some t
  /-- Who verifies an address sends no link. -/
  verified : ∀ id, .verified id ∈ cs → sending (s.store.own t) = []

section Early

variable {cfg : Config} {t : Nat} {cs : List Change} {s s' : Server} {requestIp : String} {userId since : Nat}

theorem Early.own (h : Early t cs s s') : s'.store.own t = s.store.own t ++ cs := by
  have hmap : ((cs.map fun c => (t, c)).filter fun x => x.1 == t).map Prod.snd = cs := by
    rw [List.filter_eq_self.mpr (by simp)]
    simp
  unfold Transactional.own
  rw [h.pending, List.filter_append, List.map_append, hmap]

theorem Early.own_of_ne (h : Early t cs s s') {u : Nat} (hu : u ≠ t) : s'.store.own u = s.store.own u := by
  have hnone : (cs.map fun c => (t, c)).filter (fun x => x.1 == u) = [] := by
    rw [List.filter_eq_nil_iff]
    simp [Ne.symm hu]
  unfold Transactional.own
  rw [h.pending, List.filter_append, hnone, List.append_nil]

theorem Early.tokensOf (h : Early t cs s s') (l : Scope) : tokensOf s' l = tokensOf s l := by
  cases l with
  | stored => simp only [Verification.tokensOf, h.db]
  | ever => simp only [Verification.tokensOf, sent, h.commits]

theorem Early.move (h : Early t cs s s') : Move t s s' where
  clock := h.clock.ge
  requests _ hr := h.requests ▸ hr
  turn := ⟨fun _ hu => h.own_of_ne hu, .inl ⟨h.db, h.commits⟩⟩
  addresses u _ k hk := h.addresses u k hk
  rows u _ id hid := h.rows u id hid

theorem Slot.early (h : Slot cfg t requestIp since s) (hearly : Early t cs s s') : Slot cfg t requestIp since s' :=
  ⟨hearly.addresses t _ h.held, fun l => by rw [hearly.tokensOf]; exact h.room l⟩

theorem Pause.early (h : Pause t userId since s) (hearly : Early t cs s s') : Pause t userId since s' :=
  ⟨hearly.rows t _ h.held, fun l => by rw [hearly.tokensOf]; exact h.room l⟩

/-- A user that the session sees is not verified by other changes of it. -/
theorem onUser_unverified (cs : List Change) : ∀ o : Option User, (∀ id, .verified id ∉ cs) →
    (∃ u, o = some u ∧ u.emailVerified = false) →
    ∃ u, cs.foldl (Change.onUser userId) o = some u ∧ u.emailVerified = false := by
  induction cs with
  | nil =>
      intro o _ ho
      exact ho
  | cons c cs ih =>
      intro o hnot ho
      obtain ⟨u, rfl, hu⟩ := ho
      refine ih _ (fun id hid => hnot id (List.mem_cons_of_mem _ hid)) ⟨u, ?_, hu⟩
      cases c with
      | user v => rfl
      | verified id => exact absurd List.mem_cons_self (hnot id)
      | token x => rfl
      | deleted xs => rfl

theorem Unverified.early (h : Unverified t userId s) (hearly : Early t cs s s') (hnot : ∀ id, .verified id ∉ cs) :
    Unverified t userId s' := by
  refine ⟨hearly.rows t _ h.held, ?_⟩
  obtain ⟨u, hu, hfalse⟩ := h.user
  unfold Server.view at hu ⊢
  rw [hearly.own, hearly.db, List.foldl_append, user?_foldl]
  exact onUser_unverified cs _ hnot ⟨u, hu, hfalse⟩

theorem Room.early (h : Room cfg t requestIp userId since s) (hearly : Early t cs s s')
    (hnot : ∀ id, .verified id ∉ cs) : Room cfg t requestIp userId since s' :=
  ⟨h.slot.early hearly, h.pause.early hearly, h.unverified.early hearly hnot⟩

/-- **A step before the end** keeps the invariant. -/
theorem Inv.early (hinv : Inv cfg s) (hearly : Early t cs s s') (hlegal : Legal cfg t cs s s')
    (hstarted : t ∈ s.requests) : Inv cfg s' := by
  have hpending : ∀ v c, (v, c) ∈ s'.store.pending → (v, c) ∈ s.store.pending ∨ v = t ∧ c ∈ cs := by
    intro v c hc
    rw [hearly.pending] at hc
    rcases List.mem_append.mp hc with hc | hc
    · exact .inl hc
    · obtain ⟨d, hd, heq⟩ := List.mem_map.mp hc
      obtain ⟨rfl, rfl⟩ := Prod.mk.inj heq
      exact .inr ⟨rfl, hd⟩
  have hflushed : Flushed cfg s' := {
    deleted := by
      intro v xs hxs x hx
      rw [hearly.clock]
      rcases hpending v _ hxs with hxs | ⟨_, hxs⟩
      · exact hinv.flushed.deleted v xs hxs x hx
      · exact hlegal.deleted xs hxs x hx
    room := by
      intro v x hx hmail
      rcases hpending v _ hx with hx | ⟨rfl, hx⟩
      · have hroom := hinv.flushed.room v x hx hmail
        by_cases hv : v = t
        · -- a link of its own: nothing is verified then
          subst hv
          refine hroom.early hearly fun id hid => ?_
          have hnone := hlegal.verified id hid
          have hmem := mem_sending.mpr ⟨Transactional.mem_own.mpr hx, hmail⟩
          rw [hnone] at hmem
          cases hmem
        · exact hroom.move hinv (Ne.symm hv) hearly.move
      · exact hlegal.room x hx hmail
    single := by
      intro v
      by_cases hv : v = t
      · rw [hv, hearly.own]
        exact hlegal.single
      · rw [hearly.own_of_ne hv]
        exact hinv.flushed.single v
    touched := by
      intro v c id hc htouch
      rcases hpending v c hc with hc | ⟨rfl, hc⟩
      · exact hearly.rows v id (hinv.flushed.touched v c id hc htouch)
      · exact hlegal.touched c hc id htouch
    bound := by
      intro id hid
      rcases hearly.bound id hid with hid | hid
      · exact (hinv.flushed.bound id hid).trans_le hearly.nextUser
      · exact hid
    started := by
      intro x hx
      rw [hearly.requests]
      rcases hpending x.1 x.2 hx with hx | ⟨hx, _⟩
      · exact hinv.flushed.started x hx
      · rw [hx]
        exact hstarted }
  refine ⟨hflushed, fun l => ?_, fun l => ?_, ?_, ?_, fun u hu => ?_⟩
  · rw [hearly.tokensOf]
    exact hinv.limited l
  · rw [hearly.tokensOf]
    exact hinv.spaced l
  · rw [hearly.commits]
    exact hinv.needed
  · unfold sent
    rw [hearly.commits, hearly.db, hearly.clock]
    exact hinv.gone
  · rw [hearly.db] at hu
    exact (hinv.ids u hu).trans_le hearly.nextUser

end Early

/-! ## §5. The end of a transaction. -/

section End

variable {cfg : Config} {t : Nat} {s : Server} {store : Transactional Db Change}

theorem move_finish (hturn : Turn Db.apply t s.store store) : Move t s (s.finish t store) :=
  ⟨le_rfl, fun _ hr => hr, hturn, Locks.kept_release, Locks.kept_release⟩

/-- What the others have flushed, and their locks, survive. -/
theorem flushed_finish (hinv : Inv cfg s) (hturn : Turn Db.apply t s.store store)
    (hpending : store.pending = s.store.pending.filter fun x => !(x.1 == t)) : Flushed cfg (s.finish t store) := by
  have hmem : ∀ v c, (v, c) ∈ store.pending → (v, c) ∈ s.store.pending ∧ v ≠ t := by
    intro v c hc
    rw [hpending, List.mem_filter] at hc
    exact ⟨hc.1, by simpa using hc.2⟩
  refine ⟨fun v xs hxs => ?_, fun v x hx hmail => ?_, fun v => ?_, fun v c id hc htouch => ?_, fun id hid => ?_,
    fun x hx => ?_⟩
  · exact hinv.flushed.deleted v xs (hmem v _ hxs).1
  · obtain ⟨hx, hne⟩ := hmem v _ hx
    exact (hinv.flushed.room v x hx hmail).move hinv (Ne.symm hne) (move_finish hturn)
  · show (sending (store.own v)).length ≤ 1
    by_cases hv : v = t
    · have hnone : store.own v = [] := by
        unfold Transactional.own
        rw [hpending, List.filter_filter, List.filter_eq_nil_iff.mpr, List.map_nil]
        intro x _
        simp [hv]
      rw [hnone]
      exact Nat.zero_le _
    · rw [hturn.others v hv]
      exact hinv.flushed.single v
  · obtain ⟨hc, hne⟩ := hmem v c hc
    exact Locks.kept_release v hne id (hinv.flushed.touched v c id hc htouch)
  · exact hinv.flushed.bound id (Locks.of_release hid)
  · exact hinv.flushed.started x (hmem x.1 x.2 hx).1

/-- **A rollback** keeps the invariant. -/
theorem Inv.drop (hinv : Inv cfg s) : Inv cfg (s.finish t (s.store.drop t)) := by
  have htokens : ∀ l, tokensOf (s.finish t (s.store.drop t)) l = tokensOf s l := by
    intro l
    cases l <;> rfl
  refine ⟨flushed_finish hinv (turn_drop s.store) rfl, fun l => ?_, fun l => ?_, hinv.needed, hinv.gone, hinv.ids⟩
  · rw [htokens]
    exact hinv.limited l
  · rw [htokens]
    exact hinv.spaced l

/-- A transaction sends one link at most. -/
theorem sending_cases (hinv : Inv cfg s) (t : Nat) :
    sending (s.store.own t) = [] ∨
      ∃ x, sending (s.store.own t) = [x] ∧ Room cfg t x.requestIp x.userId x.createdAt s := by
  have hone := hinv.flushed.single t
  cases hsend : sending (s.store.own t) with
  | nil => exact .inl rfl
  | cons x xs =>
      rw [hsend, List.length_cons] at hone
      have hnil : xs = [] := List.length_eq_zero_iff.mp (by omega)
      have hx : x ∈ sending (s.store.own t) := by
        rw [hsend]
        exact List.mem_cons_self
      obtain ⟨hx, hmail⟩ := mem_sending.mp hx
      exact .inr ⟨x, by rw [hnil], hinv.flushed.room t x (Transactional.mem_own.mp hx) hmail⟩

theorem limited_commit (hinv : Inv cfg s) (l : Scope) :
    RateLimited (tokensOf (s.finish t (s.store.commit Db.apply t)) l) := by
  intro requestIp start
  have hsub : (inWindow requestIp start (tokensOf (s.finish t (s.store.commit Db.apply t)) l)).Subperm
      (inWindow requestIp start (tokensOf s l ++ sending (s.store.own t))) :=
    (tokensOf_turn (turn_commit s.store) l).filter _
  refine hsub.length_le.trans ?_
  rw [inWindow_append, List.length_append]
  have hold : (inWindow requestIp start (tokensOf s l)).length ≤ 5 := hinv.limited l requestIp start
  rcases sending_cases hinv t with hsend | ⟨x, hsend, hroom⟩
  · rw [hsend]
    exact hold
  · rw [hsend]
    by_cases hx : x.requestIp = requestIp ∧ start ≤ x.createdAt ∧ x.createdAt < start + 15 * minute
    · -- the new link is in the window, which had room for it
      have hfour := hroom.slot.room l start hx.2.2
      rw [hx.1] at hfour
      have hnew : (inWindow requestIp start [x]).length ≤ [x].length := List.length_filter_le _ _
      rw [List.length_singleton] at hnew
      omega
    · have hnew : inWindow requestIp start [x] = [] := by
        unfold inWindow
        rw [List.filter_singleton, decide_eq_false hx]
        rfl
      rw [hnew]
      exact hold

theorem spaced_commit (hinv : Inv cfg s) (l : Scope) :
    Spaced (tokensOf (s.finish t (s.store.commit Db.apply t)) l) := by
  refine spaced_of_subperm (tokensOf_turn (turn_commit s.store) l) ?_
  rcases sending_cases hinv t with hsend | ⟨x, hsend, hroom⟩
  · rw [hsend, List.append_nil]
    exact hinv.spaced l
  · rw [hsend]
    refine List.pairwise_append.mpr ⟨hinv.spaced l, List.pairwise_singleton _ _, fun y hy z hz huser => ?_⟩
    rw [List.mem_singleton.mp hz] at huser ⊢
    exact .inl (hroom.pause.room l y hy huser)

/-- **A commit** keeps the invariant. -/
theorem Inv.commit (hinv : Inv cfg s) : Inv cfg (s.finish t (s.store.commit Db.apply t)) := by
  refine ⟨flushed_finish hinv (turn_commit s.store) rfl, limited_commit hinv, spaced_commit hinv, fun c hc => ?_,
    fun x hx => ?_, fun u hu => ?_⟩
  · rcases List.mem_cons.mp hc with rfl | hc
    · intro x hx
      obtain ⟨hx, hmail⟩ := mem_sending.mp ((sentBy_sublist _ _ _).subset hx)
      exact (hinv.flushed.room t x (Transactional.mem_own.mp hx) hmail).unverified.user
    · exact hinv.needed c hc
  · rcases List.mem_append.mp hx with hx | hx
    · exact .inl (List.mem_of_mem_filter hx)
    · rcases hinv.gone x hx with hx | hx
      · rcases stays_or_deleted (s.store.own t) s.store.db hx with hx | ⟨xs, hxs, hx⟩
        · exact .inl hx
        · exact .inr (hinv.flushed.deleted t xs (Transactional.mem_own.mp hxs) x hx)
      · exact .inr hx
  · rcases ids_foldl (s.store.own t) s.store.db u hu with ⟨v, hv, hid⟩ | ⟨v, hv, hid⟩
    · rw [← hid]
      exact hinv.ids v hv
    · have hrow := hinv.flushed.touched t _ v.id (Transactional.mem_own.mp hv) rfl
      rw [← hid]
      exact hinv.flushed.bound v.id (by rw [hrow]; simp)

/-- Time passes, and requests arrive. -/
theorem Inv.pass (hinv : Inv cfg s) {clock : Nat} {requests : List Nat} (hclock : s.clock ≤ clock)
    (hrequests : ∀ r ∈ s.requests, r ∈ requests) :
    Inv cfg { s with clock, requests } ∧ ∀ u, Move u s { s with clock, requests } := by
  have hmove : ∀ u, Move u s { s with clock, requests } := fun u =>
    ⟨hclock, hrequests, turn_refl s.store, fun _ _ _ h => h, fun _ _ _ h => h⟩
  have htokens : ∀ l, tokensOf { s with clock, requests } l = tokensOf s l := by
    intro l
    cases l <;> rfl
  refine ⟨⟨⟨fun v xs hxs x hx => ?_, fun v x hx hmail => ?_, hinv.flushed.single, hinv.flushed.touched,
    hinv.flushed.bound, fun x hx => hrequests _ (hinv.flushed.started x hx)⟩, fun l => ?_, fun l => ?_, hinv.needed,
    fun x hx => ?_, hinv.ids⟩, hmove⟩
  · exact (hinv.flushed.deleted v xs hxs x hx).trans_le hclock
  · exact (hinv.flushed.room v x hx hmail).move hinv (Nat.succ_ne_self v) (hmove (v + 1))
  · rw [htokens]
    exact hinv.limited l
  · rw [htokens]
    exact hinv.spaced l
  · exact (hinv.gone x hx).imp_right fun h => h.trans_le hclock

/-- The open transactions are gone, with their locks. -/
theorem Inv.crash (hinv : Inv cfg s) :
    Inv cfg { s with store := { s.store with pending := [] }, addresses := fun _ => none, rows := fun _ => none } := by
  refine ⟨⟨?_, ?_, fun _ => Nat.zero_le _, ?_, ?_, ?_⟩, fun l => ?_, fun l => ?_, hinv.needed, hinv.gone, hinv.ids⟩
  · intro v xs hxs
    cases hxs
  · intro v x hx
    cases hx
  · intro v c id hc
    cases hc
  · intro id hid
    exact absurd rfl hid
  · intro x hx
    cases hx
  · cases l with
    | stored => exact hinv.limited .stored
    | ever => exact hinv.limited .ever
  · cases l with
    | stored => exact hinv.spaced .stored
    | ever => exact hinv.spaced .ever

theorem inv_start (users : List User) (now : Nat) : Inv cfg (Server.start users now) := by
  have htokens : ∀ l, tokensOf (Server.start users now) l = [] := by
    intro l
    cases l <;> rfl
  refine ⟨⟨?_, ?_, fun _ => Nat.zero_le _, ?_, ?_, ?_⟩, fun l => ?_, fun l => ?_, ?_, ?_, fun u hu => ?_⟩
  · intro v xs hxs
    cases hxs
  · intro v x hx
    cases hx
  · intro v c id hc
    cases hc
  · intro id hid
    exact absurd rfl hid
  · intro x hx
    cases hx
  · rw [htokens]
    intro requestIp start
    exact Nat.zero_le _
  · rw [htokens]
    exact List.Pairwise.nil
  · intro c hc
    cases hc
  · intro x hx
    cases hx
  · exact Nat.lt_succ_of_le (List.le_max_of_le (List.mem_map_of_mem hu) le_rfl)

end End

end WebBuilder.Auth.Verification
