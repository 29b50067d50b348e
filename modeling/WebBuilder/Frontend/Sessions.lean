/-
  WebBuilder.Frontend.Sessions — browser sessions never mix.

  A session id is a fresh UUID, so a session that is not current any more never
  is again.  Hence a refresh of the current session that is in flight is the
  one of `pendingRefresh` (`Single`), whoever has signed in between; and
  whatever a request does, it does while the session it was sent under is
  current, since every interceptor looks after each of its awaits
  (`Chronicle`).

  Main results:
    * `single_begin`, `single_settle`, `single_release` — the shared promise;
    * `safe_round` — a request, its answer and its renewal;
    * `sessions_never_mix` — all reachable states of a tab.
-/
import WebBuilder.Frontend.Client

namespace WebBuilder.Frontend.Client

open WebBuilder.Async

/-! ## §1. The current session. -/

/-- A session that is there was created by `saveSession`. -/
def Storage.Saved (s : Storage) (sessions : List String) : Prop :=
  present s.authToken ≠ none → ∃ id ∈ sessions, s.authSessionId = some id ∧ id ≠ ""

theorem present_some {value : String} (h : value ≠ "") : present (some value) = some value := by
  simp [present, h]

theorem getSessionId_none {s : Storage} : s.getSessionId = none ↔ present s.authToken = none := by
  unfold Storage.getSessionId
  split
  · simp_all
  · simp_all

@[simp] theorem getSessionId_clearSession (s : Storage) : s.clearSession.getSessionId = none := rfl

section Storage

variable {s s' : Storage} {sessions : List String} {session : LoginResponse} {id : String}

/-- The id of a saved session is its UUID. -/
theorem Storage.Saved.getSessionId (h : s.Saved sessions) (hid : s.getSessionId = some id) :
    s.authSessionId = some id ∧ id ∈ sessions ∧ id ≠ "" := by
  have hthere : present s.authToken ≠ none := fun hnone => by
    rw [getSessionId_none.mpr hnone] at hid
    cases hid
  obtain ⟨id', hmem, hsession, hne⟩ := h hthere
  have heq : s.getSessionId = some id' := by
    unfold Storage.getSessionId
    cases htoken : present s.authToken with
    | none => exact absurd htoken hthere
    | some token => simp [hsession, present_some hne]
  obtain rfl := Option.some.inj (hid.symm.trans heq)
  exact ⟨hsession, hmem, hne⟩

theorem getSessionId_of_authSessionId (htoken : present s.authToken ≠ none) (hid : s.authSessionId = some id)
    (hne : id ≠ "") : s.getSessionId = some id := by
  unfold Storage.getSessionId
  cases h : present s.authToken with
  | none => exact absurd h htoken
  | some token => simp [hid, present_some hne]

theorem storeTokens_ok (h : s.storeTokens session = .ok s') :
    present s'.authToken ≠ none ∧ s'.authSessionId = s.authSessionId := by
  unfold Storage.storeTokens at h
  split at h
  · cases h
  · rename_i hfull
    simp only [Except.ok.injEq] at h
    simp only [not_or] at hfull
    subst h
    refine ⟨?_, rfl⟩
    show present (some session.accessToken) ≠ none
    rw [present_some hfull.1]
    nofun

/-- New tokens belong to the session that is there. -/
theorem getSessionId_storeTokens (hsaved : s.Saved sessions) (h : s.storeTokens session = .ok s')
    (hid : s.getSessionId = some id) : s'.getSessionId = some id := by
  obtain ⟨htoken, hsession⟩ := storeTokens_ok h
  obtain ⟨hsession', _, hne⟩ := hsaved.getSessionId hid
  exact getSessionId_of_authSessionId htoken (hsession.trans hsession') hne

theorem Storage.Saved.storeTokens (hsaved : s.Saved sessions) (h : s.storeTokens session = .ok s')
    (hid : s.getSessionId = some id) : s'.Saved sessions := by
  obtain ⟨_, hsession⟩ := storeTokens_ok h
  obtain ⟨hsession', hmem, hne⟩ := hsaved.getSessionId hid
  exact fun _ => ⟨id, hmem, hsession.trans hsession', hne⟩

/-- After a sign-in the session is the new one, or none. -/
theorem getSessionId_saveSession (hne : id ≠ "") {current : String}
    (h : (s.saveSession session id).getSessionId = some current) : current = id := by
  unfold Storage.saveSession at h
  split at h
  · rename_i stored hstored
    have hid := @getSessionId_of_authSessionId { stored with authSessionId := some id } id
      (storeTokens_ok hstored).1 rfl hne
    exact Option.some.inj (h.symm.trans hid)
  · cases h

theorem saved_saveSession (hne : id ≠ "") : (s.saveSession session id).Saved (id :: sessions) := by
  unfold Storage.saveSession
  split
  · exact fun _ => ⟨id, List.mem_cons_self, rfl, hne⟩
  · exact fun h => absurd rfl h

end Storage

/-! ## §2. The invariant. -/

/-- Whether the credentials may be cleared for this reason. -/
def Reason.Holds (log : List Entry) (e : Entry) : Reason → Prop
  | .noRefreshToken => present e.before.refreshToken = none
  | .refreshRefused status => (status = 401 ∨ status = 403) ∧
      ∃ before token, (⟨e.request, e.session, before, .refreshSent token⟩ : Entry) ∈ log
  | .refusedAgain status token => status = 401 ∧ e.before.authToken = token ∧
      ∃ before, (⟨e.request, e.session, before, .sent true⟩ : Entry) ∈ log
  | .verifyEmail => True

/-- A request acts while its session is current, stores tokens in place of the
one it has sent, and clears credentials for a reason. -/
def Entry.Proper (log : List Entry) (e : Entry) : Prop :=
  (∀ S, e.session = some S → e.before.getSessionId = some S) ∧
    match e.deed with
    | .stored token => e.session ≠ none ∧ e.before.refreshToken = some token ∧
        ∃ before, (⟨e.request, e.session, before, .refreshSent token⟩ : Entry) ∈ log
    | .cleared reason => e.session ≠ none ∧ reason.Holds log e
    | _ => True

def Entry.resends (n : Nat) (e : Entry) : Bool := e.request = n && e.deed = .sent true

/-- What the log says of every request. -/
structure Chronicle (s : Tab) : Prop where
  proper : ∀ e ∈ s.log, e.Proper s.log
  /-- A request keeps its session. -/
  same : ∀ e ∈ s.log, ∀ e' ∈ s.log, e.request = e'.request → e.session = e'.session
  resent : ∀ n, s.log.countP (Entry.resends n) ≤ 1
  started : ∀ e ∈ s.log, e.request ∈ s.requests

/-- One refresh for each session, and the one of the current session is
`pendingRefresh`. -/
structure Single (s : Tab) : Prop where
  started : ∀ x ∈ s.flights, x.1 ∈ s.requests
  saved : s.storage.Saved s.sessions
  unique : (s.flights.map Prod.snd).Nodup
  known : ∀ x ∈ s.flights, x.2 ∈ s.sessions
  leading : ∀ x ∈ s.flights, s.storage.getSessionId = some x.2 → s.pendingRefresh = some ⟨x.2, x.1⟩

structure TabInv (s : Tab) : Prop where
  chronicle : Chronicle s
  single : Single s

/-- What a step of the request `n` may do.  It changes `localStorage` only
where it says so. -/
structure Move (n : Nat) (s s' : Tab) : Prop where
  requests : ∀ r ∈ s.requests, r ∈ s'.requests
  logged : ∀ e ∈ s.log, e ∈ s'.log
  own : ∀ e ∈ s'.log, e ∈ s.log ∨ e.request = n
  flights : ∀ m, m ≠ n → ∀ S, (m, S) ∈ s'.flights ↔ (m, S) ∈ s.flights
  storage : s'.storage = s.storage ∨ ∃ e ∈ s'.log, e.request = n ∧ e.before = s.storage ∧
    ((∃ token, e.deed = .stored token) ∨ ∃ reason, e.deed = .cleared reason)

/-- What a sign-in, a sign-out or another tab does. -/
structure Outside (s s' : Tab) : Prop where
  requests : s'.requests = s.requests
  log : s'.log = s.log
  flights : s'.flights = s.flights

theorem move_refl (n : Nat) (s : Tab) : Move n s s :=
  ⟨fun _ h => h, fun _ h => h, fun _ h => .inl h, fun _ _ _ => Iff.rfl, .inl rfl⟩

theorem Move.trans {n : Nat} {s s' s'' : Tab} (h : Move n s s') (h' : Move n s' s'') : Move n s s'' where
  requests r hr := h'.requests r (h.requests r hr)
  logged e he := h'.logged e (h.logged e he)
  own e he := by
    rcases h'.own e he with he | he
    · exact h.own e he
    · exact .inr he
  flights m hm S := (h'.flights m hm S).trans (h.flights m hm S)
  storage := by
    rcases h.storage with hsame | ⟨e, he, hdeed⟩
    · rw [← hsame]
      exact h'.storage
    · exact .inr ⟨e, h'.logged e he, hdeed⟩

/-! ## §3. The log. -/

section Log

variable {s : Tab} {config : Config} {before : Storage} {deed : Deed}

theorem Reason.Holds.mono {log log' : List Entry} (hsub : ∀ e ∈ log, e ∈ log') {e : Entry} {reason : Reason}
    (h : reason.Holds log e) : reason.Holds log' e := by
  cases reason with
  | noRefreshToken => exact h
  | refreshRefused status =>
      obtain ⟨hstatus, before, token, hsent⟩ := h
      exact ⟨hstatus, before, token, hsub _ hsent⟩
  | refusedAgain status token =>
      obtain ⟨hstatus, htoken, before, hsent⟩ := h
      exact ⟨hstatus, htoken, before, hsub _ hsent⟩
  | verifyEmail => trivial

theorem Entry.Proper.mono {log log' : List Entry} (hsub : ∀ e ∈ log, e ∈ log') {e : Entry} (h : e.Proper log) :
    e.Proper log' := by
  obtain ⟨hcurrent, hdeed⟩ := h
  refine ⟨hcurrent, ?_⟩
  split
  · rename_i token heq
    rw [heq] at hdeed
    obtain ⟨hsession, htoken, before, hsent⟩ := hdeed
    exact ⟨hsession, htoken, before, hsub _ hsent⟩
  · rename_i reason heq
    rw [heq] at hdeed
    exact ⟨hdeed.1, hdeed.2.mono hsub⟩
  · trivial

/-- **One more entry** of a request that keeps its session. -/
theorem Chronicle.note (h : Chronicle s) (hstarted : config.number ∈ s.requests)
    (hown : ∀ e ∈ s.log, e.request = config.number → e.session = config.sessionId)
    (hproper : Entry.Proper s.log ⟨config.number, config.sessionId, before, deed⟩)
    (hfirst : deed = .sent true → ∀ e ∈ s.log, e.request = config.number → e.deed ≠ .sent true) :
    Chronicle (s.note config before deed) where
  proper e he := by
    rcases List.mem_cons.mp he with rfl | he
    · exact hproper.mono fun _ h => List.mem_cons_of_mem _ h
    · exact (h.proper e he).mono fun _ h => List.mem_cons_of_mem _ h
  same e he e' he' heq := by
    rcases List.mem_cons.mp he with rfl | he
    · rcases List.mem_cons.mp he' with rfl | he'
      · rfl
      · exact (hown e' he' heq.symm).symm
    · rcases List.mem_cons.mp he' with rfl | he'
      · exact hown e he heq
      · exact h.same e he e' he' heq
  resent n := by
    show List.countP (Entry.resends n) (_ :: s.log) ≤ 1
    rw [List.countP_cons]
    by_cases hresend : Entry.resends n ⟨config.number, config.sessionId, before, deed⟩ = true
    · simp only [Entry.resends, Bool.and_eq_true, decide_eq_true_eq] at hresend
      obtain ⟨rfl, hdeed⟩ := hresend
      -- it is the first one of this request
      have hnone : s.log.countP (Entry.resends config.number) = 0 := by
        rw [List.countP_eq_zero]
        intro e he hresend
        simp only [Entry.resends, Bool.and_eq_true, decide_eq_true_eq] at hresend
        exact hfirst hdeed e he hresend.1 hresend.2
      rw [hnone]
      split <;> omega
    · rw [if_neg hresend]
      exact h.resent n
  started e he := by
    rcases List.mem_cons.mp he with rfl | he
    · exact hstarted
    · exact h.started e he

theorem move_note : Move config.number s (s.note config before deed) where
  requests _ h := h
  logged _ h := List.mem_cons_of_mem _ h
  own e he := by
    rcases List.mem_cons.mp he with rfl | he
    · exact .inr rfl
    · exact .inl he
  flights _ _ _ := Iff.rfl
  storage := .inl rfl

theorem Single.note (h : Single s) : Single (s.note config before deed) :=
  ⟨h.started, h.saved, h.unique, h.known, h.leading⟩

end Log

/-! ## §4. What a request knows of itself. -/

/-- It has been sent, and every entry of it is of its session. -/
structure Sent (config : Config) (s : Tab) : Prop where
  started : config.number ∈ s.requests
  own : ∀ e ∈ s.log, e.request = config.number → e.session = config.sessionId
  first : config.retriedAfterRefresh = false → ∀ e ∈ s.log, e.request = config.number → e.deed ≠ .sent true
  again : config.retriedAfterRefresh = true →
    ∃ before, (⟨config.number, config.sessionId, before, .sent true⟩ : Entry) ∈ s.log
  unnamed : config.url ∈ publicAuthPaths → config.sessionId = none

/-- No refresh of its own is in flight. -/
def Grounded (n : Nat) (s : Tab) : Prop := ∀ S, (n, S) ∉ s.flights

/-- It may be sent, for the first or for the second time. -/
structure Ready (config : Config) (s : Tab) : Prop where
  started : config.number ∈ s.requests
  own : ∀ e ∈ s.log, e.request = config.number →
    config.retriedAfterRefresh = true ∧ e.session = config.sessionId ∧ e.deed ≠ .sent true
  grounded : Grounded config.number s
  unnamed : config.url ∈ publicAuthPaths → config.sessionId = none

/-- Its refresh of the session is in flight. -/
structure Leading (config : Config) (sessionId refreshToken : String) (s : Tab) : Prop where
  sent : Sent config s
  retry : config.retriedAfterRefresh = false
  session : config.sessionId = some sessionId
  flight : (config.number, sessionId) ∈ s.flights
  asked : ∃ before, (⟨config.number, config.sessionId, before, .refreshSent refreshToken⟩ : Entry) ∈ s.log

section Acts

variable {config : Config} {s s' : Tab} {sessionId refreshToken : String} {before : Storage} {deed : Deed}
  {reason : Reason}

/-- A new entry of the request that is no second dispatch. -/
theorem Sent.note (h : Sent config s) (hdeed : deed ≠ .sent true) : Sent config (s.note config before deed) where
  started := h.started
  own e he heq := by
    rcases List.mem_cons.mp he with rfl | he
    · rfl
    · exact h.own e he heq
  first hretry e he heq := by
    rcases List.mem_cons.mp he with rfl | he
    · exact hdeed
    · exact h.first hretry e he heq
  again hretry := by
    obtain ⟨before, hsent⟩ := h.again hretry
    exact ⟨before, List.mem_cons_of_mem _ hsent⟩
  unnamed := h.unnamed

theorem TabInv.note (h : TabInv s) (hsent : Sent config s) (hdeed : deed ≠ .sent true)
    (hproper : Entry.Proper s.log ⟨config.number, config.sessionId, before, deed⟩) :
    TabInv (s.note config before deed) :=
  ⟨h.chronicle.note hsent.started hsent.own hproper fun heq => absurd heq hdeed, h.single.note⟩

/-- A request that was sent keeps the invariant, for itself only. -/
def Acts (config : Config) (s s' : Tab) : Prop :=
  TabInv s → Sent config s → TabInv s' ∧ Move config.number s s' ∧ Sent config s' ∧ s'.flights = s.flights

theorem acts_refl (s : Tab) : Acts config s s := fun hinv hsent => ⟨hinv, move_refl _ s, hsent, rfl⟩

theorem Acts.trans {s'' : Tab} (h : Acts config s s') (h' : Acts config s' s'') : Acts config s s'' := by
  intro hinv hsent
  obtain ⟨hinv', hmove, hsent', hflights⟩ := h hinv hsent
  obtain ⟨hinv'', hmove', hsent'', hflights'⟩ := h' hinv' hsent'
  exact ⟨hinv'', hmove.trans hmove', hsent'', hflights'.trans hflights⟩

/-- What the caller gets is noted. -/
theorem acts_note (hproper : Entry.Proper s.log ⟨config.number, config.sessionId, before, deed⟩)
    (hdeed : deed ≠ .sent true) : Acts config s (s.note config before deed) :=
  fun hinv hsent => ⟨hinv.note hsent hdeed hproper, move_note, hsent.note hdeed, rfl⟩

/-- **The end of a session** that is still there, for a reason that holds. -/
theorem acts_endSession (hsession : config.sessionId = some sessionId)
    (hreason : s.storage.getSessionId = some sessionId →
      reason.Holds s.log ⟨config.number, config.sessionId, s.storage, .cleared reason⟩) :
    Acts config s (s.endSession config sessionId reason) := by
  unfold Tab.endSession
  split
  · exact acts_refl s
  · rename_i hcurrent
    have hcurrent : s.storage.getSessionId = some sessionId := not_not.mp hcurrent
    intro hinv hsent
    have hproper : Entry.Proper s.log ⟨config.number, config.sessionId, s.storage, .cleared reason⟩ := by
      refine ⟨fun S hS => ?_, ?_, hreason hcurrent⟩
      · rw [← hS, hsession]
        exact hcurrent
      · rw [hsession]
        nofun
    have hdeed : Deed.cleared reason ≠ .sent true := nofun
    have hinv' := hinv.note hsent hdeed hproper
    have hsent' : Sent config (s.note config s.storage (.cleared reason)) := hsent.note hdeed
    have hmove : Move config.number s (s.note config s.storage (.cleared reason)) := move_note
    refine ⟨⟨⟨hinv'.chronicle.proper, hinv'.chronicle.same, hinv'.chronicle.resent, hinv'.chronicle.started⟩,
      ⟨hinv.single.started, fun h => absurd rfl h, hinv.single.unique, hinv.single.known, nofun⟩⟩,
      ⟨hmove.requests, hmove.logged, hmove.own, hmove.flights, .inr ?_⟩,
      ⟨hsent'.started, hsent'.own, hsent'.first, hsent'.again, hsent'.unnamed⟩, rfl⟩
    exact ⟨_, List.mem_cons_self, rfl, rfl, .inr ⟨reason, rfl⟩⟩

/-- New tokens of the session that is there. -/
theorem acts_store {session : LoginResponse} {storage : Storage} (hsession : config.sessionId = some sessionId)
    (hcurrent : s.storage.getSessionId = some sessionId) (htoken : s.storage.refreshToken = some refreshToken)
    (hasked : ∃ before, (⟨config.number, config.sessionId, before, .refreshSent refreshToken⟩ : Entry) ∈ s.log)
    (hstore : s.storage.storeTokens session = .ok storage) :
    Acts config s { s.note config s.storage (.stored refreshToken) with storage } := by
  intro hinv hsent
  have hproper : Entry.Proper s.log ⟨config.number, config.sessionId, s.storage, .stored refreshToken⟩ := by
    refine ⟨fun S hS => ?_, ?_, htoken, hasked⟩
    · rw [← hS, hsession]
      exact hcurrent
    · rw [hsession]
      nofun
  have hdeed : Deed.stored refreshToken ≠ .sent true := nofun
  have hinv' := hinv.note hsent hdeed hproper
  have hsent' : Sent config (s.note config s.storage (.stored refreshToken)) := hsent.note hdeed
  have hmove : Move config.number s (s.note config s.storage (.stored refreshToken)) := move_note
  have hsame : storage.getSessionId = some sessionId := getSessionId_storeTokens hinv.single.saved hstore hcurrent
  refine ⟨⟨⟨hinv'.chronicle.proper, hinv'.chronicle.same, hinv'.chronicle.resent, hinv'.chronicle.started⟩,
    ⟨hinv.single.started, hinv.single.saved.storeTokens hstore hcurrent, hinv.single.unique, hinv.single.known, fun x hx heq => ?_⟩⟩,
    ⟨hmove.requests, hmove.logged, hmove.own, hmove.flights, .inr ?_⟩,
    ⟨hsent'.started, hsent'.own, hsent'.first, hsent'.again, hsent'.unnamed⟩, rfl⟩
  · refine hinv.single.leading x hx ?_
    rw [hcurrent, ← hsame]
    exact heq
  · exact ⟨_, List.mem_cons_self, rfl, rfl, .inl ⟨refreshToken, rfl⟩⟩

/-! ## §5. The interceptors. -/

theorem Config.current_of_not_stale {storage : Storage} (h : ¬ config.stale storage = true) :
    ∀ S, config.sessionId = some S → storage.getSessionId = some S := by
  intro S hS
  unfold Config.stale at h
  rw [decide_eq_true_eq, hS, not_and, not_not] at h
  exact (h nofun).symm

/-- A rejection by the server, while the session is current. -/
theorem acts_reject {reply : Reply} (hcurrent : ∀ S, config.sessionId = some S → before.getSessionId = some S) :
    Acts config s (s.reject config before reply).2 :=
  acts_note ⟨hcurrent, trivial⟩ nofun

/-- How the interceptors leave a request that was sent. -/
def Left (config : Config) (r : Except String Verdict) (s s' : Tab) : Prop :=
  match r with
  | .ok .delivered | .error _ => Acts config s s'
  | .ok .resend | .ok (.join _) => config.retriedAfterRefresh = false ∧ Acts config s s'
  | .ok (.lead sessionId refreshToken) => config.retriedAfterRefresh = false ∧
      (TabInv s → Sent config s → Grounded config.number s →
        TabInv s' ∧ Move config.number s s' ∧ Leading config sessionId refreshToken s')

theorem left_onResponse : Left config (onResponse config s).1 s (onResponse config s).2 := by
  unfold onResponse
  split
  · exact acts_refl s
  · rename_i hstale
    exact acts_note ⟨Config.current_of_not_stale hstale, trivial⟩ nofun

/-- **A refresh takes off**: no other one of the current session is in flight,
since it would be `pendingRefresh`. -/
theorem single_begin (h : Single s) (hstarted : config.number ∈ s.requests) (hcurrent : s.storage.getSessionId = some sessionId)
    (hpending : s.pendingRefresh.filter (·.sessionId = sessionId) = none) :
    Single { s with
      pendingRefresh := some ⟨sessionId, config.number⟩
      flights := (config.number, sessionId) :: s.flights } := by
  have hnone : ∀ x ∈ s.flights, x.2 ≠ sessionId := by
    intro x hx heq
    have hleading := h.leading x hx (by rw [heq]; exact hcurrent)
    rw [hleading] at hpending
    simp [heq] at hpending
  refine ⟨?_, h.saved, ?_, ?_, ?_⟩
  · intro x hx
    rcases List.mem_cons.mp hx with rfl | hx
    · exact hstarted
    · exact h.started x hx
  · show (sessionId :: s.flights.map Prod.snd).Nodup
    refine List.nodup_cons.mpr ⟨fun hmem => ?_, h.unique⟩
    obtain ⟨x, hx, heq⟩ := List.mem_map.mp hmem
    exact hnone x hx heq
  · intro x hx
    rcases List.mem_cons.mp hx with rfl | hx
    · exact (h.saved.getSessionId hcurrent).2.1
    · exact h.known x hx
  · intro x hx heq
    rcases List.mem_cons.mp hx with rfl | hx
    · rfl
    · exact absurd (Option.some.inj (heq.symm.trans hcurrent)) (hnone x hx)

theorem left_beginRenewal (hretry : config.retriedAfterRefresh = false) (hsession : config.sessionId = some sessionId) :
    Left config (beginRenewal config sessionId s).1 s (beginRenewal config sessionId s).2 := by
  unfold beginRenewal
  split
  · exact acts_refl s
  · rename_i hcurrent
    have hcurrent : s.storage.getSessionId = some sessionId := not_not.mp hcurrent
    split
    · exact ⟨hretry, acts_refl s⟩
    · rename_i hpending
      split
      · rename_i hnone
        exact acts_endSession hsession fun _ => hnone
      · rename_i token htoken
        refine ⟨hretry, fun hinv hsent hgrounded => ?_⟩
        have hproper : Entry.Proper s.log ⟨config.number, config.sessionId, s.storage, .refreshSent token⟩ := by
          refine ⟨fun S hS => ?_, trivial⟩
          rw [← hS, hsession]
          exact hcurrent
        have hdeed : Deed.refreshSent token ≠ .sent true := nofun
        obtain ⟨hinv', hmove, hsent', _⟩ := acts_note hproper hdeed hinv hsent
        refine ⟨⟨⟨hinv'.chronicle.proper, hinv'.chronicle.same, hinv'.chronicle.resent, hinv'.chronicle.started⟩,
          single_begin hinv'.single hsent.started hcurrent hpending⟩,
          ⟨hmove.requests, hmove.logged, hmove.own, fun m hm S => ?_, .inl rfl⟩,
          ⟨⟨hsent'.started, hsent'.own, hsent'.first, hsent'.again, hsent'.unnamed⟩, hretry, hsession,
            List.mem_cons_self, s.storage, List.mem_cons_self⟩⟩
        refine ⟨fun h => ?_, fun h => List.mem_cons_of_mem _ h⟩
        rcases List.mem_cons.mp h with heq | h
        · exact absurd (congrArg Prod.fst heq) hm
        · exact h

/-- **The interceptor of errors.** -/
theorem left_onError {reply : Reply} (hsent : Sent config s) :
    Left config (onError config reply s).1 s (onError config reply s).2 := by
  unfold onError
  split
  · exact acts_refl s
  · rename_i hstale
    have hcurrent := Config.current_of_not_stale hstale
    split
    · exact acts_reject hcurrent
    · rename_i sessionId hsession
      split
      · have hend : Acts config s (s.endSession config sessionId .verifyEmail) :=
          acts_endSession hsession fun _ => trivial
        exact hend.trans (acts_reject hcurrent)
      · split
        · split
          · rename_i hretry
            split
            · rename_i htoken
              have hend : Acts config s (s.endSession config sessionId (.refusedAgain 401 config.accessToken)) :=
                acts_endSession hsession fun _ => ⟨rfl, htoken, hsent.again hretry⟩
              exact hend.trans (acts_reject hcurrent)
            · exact acts_reject hcurrent
          · rename_i hretry
            have hretry : config.retriedAfterRefresh = false := by simpa using hretry
            split
            · exact left_beginRenewal hretry hsession
            · exact ⟨hretry, acts_refl s⟩
        · exact acts_reject hcurrent

/-! ## §6. The renewal. -/

/-- **The promise of a renewal**: tokens replace the one that was sent, and a
refusal ends the session that is still there. -/
theorem acts_renewal {reply : Reply} (h : Leading config sessionId refreshToken s) :
    Acts config s (renewal config sessionId refreshToken reply s).2 := by
  have hcatch : ∀ status,
      Acts config s (catchRenewal config sessionId refreshToken status s).2 := by
    intro status
    unfold catchRenewal
    split
    · exact acts_refl s
    · split
      · rename_i code hcode
        have hrefused : code = 401 ∨ code = 403 := by
          have hmem := (Option.filter_eq_some_iff.mp hcode).2
          simpa using hmem
        obtain ⟨before, hasked⟩ := h.asked
        exact acts_endSession h.session fun _ => ⟨hrefused, before, refreshToken, hasked⟩
      · exact acts_refl s
  unfold renewal tryRenewal
  cases reply with
  | success session =>
      dsimp only
      by_cases hcurrent : s.storage.getSessionId = some sessionId
      · rw [if_neg (not_not.mpr hcurrent)]
        by_cases htoken : s.storage.refreshToken = some refreshToken
        · rw [if_neg (not_not.mpr htoken)]
          cases hstore : s.storage.storeTokens session with
          | ok storage => exact acts_store h.session hcurrent htoken h.asked hstore
          | error message => exact hcatch none
        · rw [if_pos htoken]
          exact acts_refl s
      · rw [if_pos hcurrent]
        exact hcatch none
  | turn | failure | network | signIn | signOut | renewed => exact hcatch _

/-- The promise settles: its flight is over. -/
theorem single_settle {promise : Nat} {result : Except String Unit} (h : Single s) :
    Single (s.settle promise result) where
  started x hx := h.started x (List.mem_of_mem_filter hx)
  saved := h.saved
  unique := h.unique.sublist (List.Sublist.map Prod.snd List.filter_sublist)
  known x hx := h.known x (List.mem_of_mem_filter hx)
  leading x hx := h.leading x (List.mem_of_mem_filter hx)

theorem settled (h : Leading config sessionId refreshToken s) (hinv : TabInv s) (reply : Reply) :
    let s' := (finishRenewal config sessionId refreshToken reply s).2
    TabInv s' ∧ Move config.number s s' ∧ Sent config s' ∧ Grounded config.number s' := by
  obtain ⟨hinv', hmove, hsent, _⟩ := @acts_renewal _ _ _ _ reply h hinv h.sent
  refine ⟨⟨⟨hinv'.chronicle.proper, hinv'.chronicle.same, hinv'.chronicle.resent, hinv'.chronicle.started⟩,
    single_settle hinv'.single⟩, ⟨hmove.requests, hmove.logged, hmove.own, fun m hm S => ?_, hmove.storage⟩,
    ⟨hsent.started, hsent.own, hsent.first, hsent.again, hsent.unnamed⟩, fun S hS => ?_⟩
  · rw [← hmove.flights m hm S]
    refine ⟨fun hmem => List.mem_of_mem_filter hmem, fun hmem => List.mem_filter.mpr ⟨hmem, ?_⟩⟩
    exact decide_eq_true hm
  · exact of_decide_eq_true (List.mem_filter.mp hS).2 rfl

/-- The initiator forgets the promise, if it is its own. -/
theorem single_release (h : Single s) (hgrounded : Grounded config.number s) :
    Single (release config sessionId s) := by
  unfold release
  split
  · rename_i hpending
    refine ⟨h.started, h.saved, h.unique, h.known, fun x hx heq => ?_⟩
    have hleading := h.leading x hx heq
    rw [hpending, Option.some.injEq, Pending.mk.injEq] at hleading
    have hx' : (config.number, x.2) ∈ s.flights := by
      rw [hleading.2]
      exact hx
    exact absurd hx' (hgrounded x.2)
  · exact h

theorem released (hinv : TabInv s) (hsent : Sent config s) (hgrounded : Grounded config.number s) :
    let s' := release config sessionId s
    TabInv s' ∧ Move config.number s s' ∧ Sent config s' ∧ Grounded config.number s' := by
  have hsingle := @single_release config s sessionId hinv.single hgrounded
  have hsame : (release config sessionId s).log = s.log ∧ (release config sessionId s).requests = s.requests ∧
      (release config sessionId s).flights = s.flights ∧ (release config sessionId s).storage = s.storage := by
    unfold release
    split <;> exact ⟨rfl, rfl, rfl, rfl⟩
  obtain ⟨hlog, hrequests, hflights, hstorage⟩ := hsame
  refine ⟨⟨⟨?_, ?_, ?_, ?_⟩, hsingle⟩, ⟨?_, ?_, ?_, ?_, .inl hstorage⟩, ⟨?_, ?_, ?_, ?_, hsent.unnamed⟩, ?_⟩
  · rw [hlog]; exact hinv.chronicle.proper
  · rw [hlog]; exact hinv.chronicle.same
  · rw [hlog]; exact hinv.chronicle.resent
  · rw [hlog, hrequests]; exact hinv.chronicle.started
  · rw [hrequests]; exact fun _ h => h
  · rw [hlog]; exact fun _ h => h
  · rw [hlog]; exact fun _ h => .inl h
  · rw [hflights]; exact fun _ _ _ => Iff.rfl
  · rw [hrequests]; exact hsent.started
  · rw [hlog]; exact hsent.own
  · rw [hlog]; exact hsent.first
  · rw [hlog]; exact hsent.again
  · unfold Grounded
    rw [hflights]
    exact hgrounded

/-! ## §7. The dispatch. -/

theorem sent_of_ready {config' : Config} (hready : Ready config s) (hok : interceptRequest config s.storage = .ok config') :
    config'.number = config.number ∧ config'.retriedAfterRefresh = config.retriedAfterRefresh ∧
      (∀ S, config'.sessionId = some S → s.storage.getSessionId = some S) ∧
      (∀ e ∈ s.log, e.request = config.number → e.session = config'.sessionId) ∧
      (config'.url ∈ publicAuthPaths → config'.sessionId = none) := by
  unfold interceptRequest at hok
  split at hok
  · rename_i hpublic
    obtain rfl := Except.ok.inj hok
    refine ⟨rfl, rfl, fun S hS => ?_, fun e he heq => (hready.own e he heq).2.1, hready.unnamed⟩
    rw [hready.unnamed hpublic] at hS
    cases hS
  · rename_i hpublic
    split at hok
    · cases hok
    · rename_i hsame
      obtain rfl := Except.ok.inj hok
      refine ⟨rfl, rfl, fun S hS => hS, fun e he heq => ?_, fun h => absurd h hpublic⟩
      obtain ⟨hretry, hsession, _⟩ := hready.own e he heq
      rw [not_and, not_not] at hsame
      rw [hsession]
      exact hsame hretry

/-- **A dispatch**: the first one gives the request its session, and a second
one happens in the same session. -/
theorem dispatched {config' : Config} (hinv : TabInv s) (hready : Ready config s)
    (hok : interceptRequest config s.storage = .ok config') :
    let s' := s.note config' s.storage (.sent config'.retriedAfterRefresh)
    TabInv s' ∧ Move config.number s s' ∧ Sent config' s' ∧ Grounded config.number s' := by
  obtain ⟨hnumber, hretry, hcurrent, hown, hunnamed⟩ := sent_of_ready hready hok
  have hstarted : config'.number ∈ s.requests := hnumber ▸ hready.started
  have hown' : ∀ e ∈ s.log, e.request = config'.number → e.session = config'.sessionId :=
    fun e he heq => hown e he (heq.trans hnumber)
  have hfirst : ∀ e ∈ s.log, e.request = config'.number → e.deed ≠ .sent true :=
    fun e he heq => (hready.own e he (heq.trans hnumber)).2.2
  refine ⟨⟨hinv.chronicle.note hstarted hown' ⟨hcurrent, trivial⟩ fun _ => hfirst, hinv.single.note⟩,
    hnumber ▸ move_note, ⟨hstarted, ?_, ?_, ?_, hunnamed⟩, hready.grounded⟩
  · intro e he heq
    rcases List.mem_cons.mp he with rfl | he
    · rfl
    · exact hown' e he heq
  · intro hfalse e he heq
    rcases List.mem_cons.mp he with rfl | he
    · rw [hfalse]
      nofun
    · exact hfirst e he heq
  · intro htrue
    rw [htrue]
    exact ⟨s.storage, List.mem_cons_self⟩

/-- A request that was sent once may be sent again. -/
theorem ready_retried (hsent : Sent config s) (hretry : config.retriedAfterRefresh = false)
    (hgrounded : Grounded config.number s) : Ready config.retried s :=
  ⟨hsent.started, fun e he heq => ⟨rfl, hsent.own e he heq, hsent.first hretry e he heq⟩, hgrounded, hsent.unnamed⟩

end Acts

/-! ## §8. All orders of steps. -/

def discipline : Discipline Nat String Tab TabOp where
  inv := TabInv
  guar u s s' :=
    match u with
    | some n => Move n s s'
    | none => Outside s s'
  need _ op s :=
    match op with
    | .refresh promise sessionId _ => (promise, sessionId) ∈ s.flights
    | _ => True

abbrev requestGuard (n : Nat) (url : String) : Guard Tab TabOp String Reply :=
  discipline.at browser (fun _ _ _ _ => True) n url

/-- What the others leave to the request `n`. -/
structure Elsewhere (n : Nat) (s s' : Tab) : Prop where
  requests : ∀ r ∈ s.requests, r ∈ s'.requests
  logged : ∀ e ∈ s.log, e ∈ s'.log
  own : ∀ e ∈ s'.log, e.request = n → e ∈ s.log
  flights : ∀ S, (n, S) ∈ s'.flights ↔ (n, S) ∈ s.flights

section Safe

variable {n : Nat} {url : String} {config : Config} {s s' : Tab} {sessionId refreshToken : String}

theorem elsewhere_of_rely (h : (requestGuard n url).rely s s') : Elsewhere n s s' := by
  obtain ⟨u, hne, hmove⟩ := h
  cases u with
  | none =>
      obtain ⟨hrequests, hlog, hflights⟩ := (show Outside s s' from hmove)
      exact ⟨by rw [hrequests]; exact fun _ h => h, by rw [hlog]; exact fun _ h => h,
        by rw [hlog]; exact fun _ h _ => h, by rw [hflights]; exact fun _ => Iff.rfl⟩
  | some m =>
      have hmove : Move m s s' := hmove
      have hne : n ≠ m := fun heq => hne (by rw [heq])
      refine ⟨hmove.requests, hmove.logged, fun e he heq => ?_, hmove.flights n hne⟩
      rcases hmove.own e he with he | hm
      · exact he
      · exact absurd (heq.symm.trans hm) hne

theorem stable_of_elsewhere {A : Tab → Prop} (h : ∀ s s', Elsewhere n s s' → A s → A s') :
    (requestGuard n url).Stable A :=
  fun s s' _ _ hrely hA => h s s' (elsewhere_of_rely hrely) hA

theorem stable_grounded : (requestGuard n url).Stable (Grounded n) :=
  stable_of_elsewhere fun _ _ helse hgrounded S hS => hgrounded S ((helse.flights S).mp hS)

theorem stable_sent (hn : config.number = n) : (requestGuard n url).Stable (Sent config) := by
  subst hn
  refine stable_of_elsewhere fun s s' helse hsent => ⟨helse.requests _ hsent.started, ?_, ?_, ?_, hsent.unnamed⟩
  · exact fun e he heq => hsent.own e (helse.own e he heq) heq
  · exact fun hretry e he heq => hsent.first hretry e (helse.own e he heq) heq
  · intro hretry
    obtain ⟨before, hmem⟩ := hsent.again hretry
    exact ⟨before, helse.logged _ hmem⟩

theorem stable_ready (hn : config.number = n) : (requestGuard n url).Stable (Ready config) := by
  subst hn
  refine stable_of_elsewhere fun s s' helse hready => ⟨helse.requests _ hready.started, ?_, ?_, hready.unnamed⟩
  · exact fun e he heq => hready.own e (helse.own e he heq) heq
  · exact fun S hS => hready.grounded S ((helse.flights S).mp hS)

theorem stable_leading (hn : config.number = n) :
    (requestGuard n url).Stable (Leading config sessionId refreshToken) := by
  subst hn
  intro s s' hinv hinv' hrely hlead
  have helse := elsewhere_of_rely hrely
  obtain ⟨before, hmem⟩ := hlead.asked
  exact ⟨stable_sent rfl s s' hinv hinv' hrely hlead.sent, hlead.retry, hlead.session,
    (helse.flights sessionId).mpr hlead.flight, before, helse.logged _ hmem⟩

/-- **The rule of the code between two awaits.** -/
theorem safe_sync {α : Type} {op : TabOp} {f : Tab → Except String α × Tab} {A : Tab → Prop}
    {Q : Except String α → Tab → Prop} (hA : (requestGuard n url).Stable A)
    (hf : ∀ s, TabInv s → A s → TabInv (f s).2 ∧ Move n s (f s).2 ∧ Q (f s).1 (f s).2)
    (hneed : ∀ s, (requestGuard n url).need op s) (hs : A s) : Safe (requestGuard n url) (sync op f) Q s := by
  refine Safe.await A hs hA (fun s₁ hinv hs₁ a r s₂ _ hact => ?_) fun s₁ _ _ => hneed s₁
  split at hact
  · obtain ⟨rfl, rfl⟩ := Prod.mk.inj (Option.some.inj hact)
    exact hf s₁ hinv hs₁
  · cases hact

/-- The rule of an await on the network. -/
theorem safe_fetch {α : Type} {op : TabOp} {f : Reply → Tab → Except String α × Tab} {A : Tab → Prop}
    {Q : Except String α → Tab → Prop} (hA : (requestGuard n url).Stable A)
    (hf : ∀ reply s, TabInv s → A s → TabInv (f reply s).2 ∧ Move n s (f reply s).2 ∧ Q (f reply s).1 (f reply s).2)
    (hneed : ∀ s, A s → (requestGuard n url).need op s) (hs : A s) :
    Safe (requestGuard n url) (fetch op f) Q s := by
  refine Safe.await A hs hA (fun s₁ hinv hs₁ a r s₂ _ hact => ?_) fun s₁ _ hs₁ => hneed s₁ hs₁
  split at hact
  · split at hact
    · obtain ⟨rfl, rfl⟩ := Prod.mk.inj (Option.some.inj hact)
      exact hf _ s₁ hinv hs₁
    · cases hact
  · cases hact

/-- It has been sent, and no refresh of its own is in flight. -/
def Waiting (config : Config) (s : Tab) : Prop := Sent config s ∧ Grounded config.number s

theorem stable_waiting (hn : config.number = n) : (requestGuard n url).Stable (Waiting config) := by
  subst hn
  exact (stable_sent rfl).and stable_grounded

theorem safe_dispatch (hn : config.number = n) (hs : Ready config s) :
    Safe (requestGuard n url) (dispatch config)
      (fun r s => ∀ config', r = .ok config' → config'.number = n ∧
        config'.retriedAfterRefresh = config.retriedAfterRefresh ∧ Waiting config' s) s := by
  refine safe_sync (stable_ready hn) (fun s hinv hready => ?_) (fun _ => trivial) hs
  cases hok : interceptRequest config s.storage with
  | error message => exact ⟨hinv, move_refl n s, nofun⟩
  | ok config' =>
      obtain ⟨hinv', hmove, hsent, hgrounded⟩ := dispatched hinv hready hok
      obtain ⟨hnumber, hretry, _⟩ := sent_of_ready hready hok
      refine ⟨hinv', hn ▸ hmove, fun config'' heq => ?_⟩
      obtain rfl := Except.ok.inj heq
      exact ⟨hnumber.trans hn, hretry, hsent, hnumber ▸ hgrounded⟩

/-- What a verdict leaves to do. -/
def Judged (config : Config) (r : Except String Verdict) (s : Tab) : Prop :=
  match r with
  | .ok .delivered | .error _ => True
  | .ok .resend | .ok (.join _) => config.retriedAfterRefresh = false ∧ Waiting config s
  | .ok (.lead sessionId refreshToken) => Leading config sessionId refreshToken s

theorem judged_of_left {r : Except String Verdict} (hleft : Left config r s s') (hinv : TabInv s)
    (hs : Waiting config s) : TabInv s' ∧ Move config.number s s' ∧ Judged config r s' := by
  obtain ⟨hsent, hgrounded⟩ := hs
  have hacts : Acts config s s' → TabInv s' ∧ Move config.number s s' ∧ Waiting config s' := by
    intro hacts
    obtain ⟨hinv', hmove, hsent', hflights⟩ := hacts hinv hsent
    refine ⟨hinv', hmove, hsent', ?_⟩
    unfold Grounded
    rw [hflights]
    exact hgrounded
  match r, hleft with
  | .ok .delivered, hleft => exact ⟨(hacts hleft).1, (hacts hleft).2.1, trivial⟩
  | .error _, hleft => exact ⟨(hacts hleft).1, (hacts hleft).2.1, trivial⟩
  | .ok .resend, hleft => exact ⟨(hacts hleft.2).1, (hacts hleft.2).2.1, hleft.1, (hacts hleft.2).2.2⟩
  | .ok (.join _), hleft => exact ⟨(hacts hleft.2).1, (hacts hleft.2).2.1, hleft.1, (hacts hleft.2).2.2⟩
  | .ok (.lead _ _), hleft => exact hleft.2 hinv hsent hgrounded

theorem safe_respond (hn : config.number = n) (hs : Waiting config s) :
    Safe (requestGuard n url) (respond config) (Judged config) s := by
  subst hn
  refine safe_fetch (stable_waiting rfl) (fun reply s hinv hwait => ?_) (fun _ _ => trivial) hs
  refine judged_of_left ?_ hinv hwait
  cases reply with
  | success session => exact left_onResponse
  | turn | failure | network | signIn | signOut | renewed => exact left_onError hwait.1

theorem safe_lead (hn : config.number = n) (hs : Leading config sessionId refreshToken s) :
    Safe (requestGuard n url) (lead config sessionId refreshToken) (fun _ => Waiting config) s := by
  subst hn
  have hfetch : Safe (requestGuard config.number url)
      (fetch (.refresh config.number sessionId refreshToken) (finishRenewal config sessionId refreshToken))
      (fun _ => Waiting config) s :=
    safe_fetch (stable_leading rfl) (fun reply s hinv hlead => settled hlead hinv reply)
      (fun s hlead => hlead.flight) hs
  refine (safe_onExit _ _ _ _).mpr (hfetch.mono fun r s hwait => ?_)
  have hrelease : Safe (requestGuard config.number url) (sync .release fun s => (.ok (), release config sessionId s))
      (fun _ => Waiting config) s :=
    safe_sync (stable_waiting rfl) (fun s hinv hwait => released hinv hwait.1 hwait.2) (fun _ => trivial) hwait
  refine hrelease.mono fun r' s hwait => ?_
  cases r' with
  | ok => exact hwait
  | error => exact hwait

theorem safe_join {promise : Nat} (hn : config.number = n) (hs : Waiting config s) :
    Safe (requestGuard n url) (join promise) (fun _ => Waiting config) s := by
  refine Safe.await (Waiting config) hs (stable_waiting hn) (fun s₁ hinv hs₁ a r s₂ _ hact => ?_) fun _ _ _ => trivial
  split at hact
  · obtain ⟨x, _, heq⟩ := Option.map_eq_some_iff.mp hact
    obtain ⟨rfl, rfl⟩ := Prod.mk.inj heq
    exact ⟨hinv, move_refl n s₁, hs₁⟩
  · cases hact

/-- **One round** asks for another one at most if it was the first. -/
theorem safe_round (hn : config.number = n) (hs : Ready config s) :
    Safe (requestGuard n url) (round config)
      (fun r s => ∀ again, r = .ok (some again) → config.retriedAfterRefresh = false ∧ again.number = n ∧
        Ready again s) s := by
  refine Safe.bind (safe_dispatch hn hs) ?_ (fun _ _ _ => nofun)
  intro config' s₁ hdispatch
  obtain ⟨hn', hretry, hwait⟩ := hdispatch config' rfl
  refine Safe.bind (safe_respond hn' hwait) ?_ (fun _ _ _ => nofun)
  intro verdict s₂ hjudged
  -- what a round that asks for another one leaves
  have hnext : ∀ s, config'.retriedAfterRefresh = false → Waiting config' s → ∀ again,
      (.ok (some config'.retried) : Except String (Option Config)) = .ok (some again) →
        config.retriedAfterRefresh = false ∧ again.number = n ∧ Ready again s := by
    intro s hfalse hwait again heq
    obtain rfl := Option.some.inj (Except.ok.inj heq)
    have hground : Grounded config'.number s := hwait.2
    exact ⟨hretry ▸ hfalse, hn', ready_retried hwait.1 hfalse hground⟩
  cases verdict with
  | delivered => exact nofun
  | resend => exact hnext s₂ hjudged.1 hjudged.2
  | join promise =>
      exact Safe.bind (safe_join hn' hjudged.2) (fun _ s h => hnext s hjudged.1 h) (fun _ _ _ => nofun)
  | lead sessionId refreshToken =>
      have hfalse : config'.retriedAfterRefresh = false := hjudged.retry
      exact Safe.bind (safe_lead hn' hjudged) (fun _ s h => hnext s hfalse h) (fun _ _ _ => nofun)

theorem safe_request (hn : config.number = n) (hs : Ready config s) :
    Safe (requestGuard n url) (request config) (fun _ _ => True) s := by
  refine Safe.bind (safe_round hn hs) ?_ (fun _ _ _ => trivial)
  intro again s₁ hround
  split
  · trivial
  · rename_i config'
    obtain ⟨_, hn', hready⟩ := hround config' rfl
    exact Safe.bind (safe_round hn' hready) (fun _ _ _ => trivial) (fun _ _ _ => trivial)

end Safe

/-! ## §9. A tab. -/

section Tab

variable {s s' : Tab} {d : Reply}

/-- **Sign-ins and sign-outs**: the current session is a new one, or none, or
stays. -/
theorem env_step (hinv : TabInv s) (henv : browser.env d s = some s') : TabInv s' ∧ Outside s s' := by
  obtain ⟨hchron, hsingle⟩ := hinv
  cases d with
  | signIn session uuid =>
      simp only [browser, Option.ite_none_right_eq_some, Option.some.injEq] at henv
      obtain ⟨⟨hfresh, hne⟩, rfl⟩ := henv
      refine ⟨⟨⟨hchron.proper, hchron.same, hchron.resent, hchron.started⟩, hsingle.started, saved_saveSession hne, hsingle.unique,
        fun x hx => List.mem_cons_of_mem _ (hsingle.known x hx), fun x hx heq => ?_⟩, rfl, rfl, rfl⟩
      -- a session that has a refresh in flight is older
      exact absurd (getSessionId_saveSession hne heq ▸ hsingle.known x hx) hfresh
  | signOut =>
      simp only [browser, Option.some.injEq] at henv
      subst henv
      exact ⟨⟨⟨hchron.proper, hchron.same, hchron.resent, hchron.started⟩, hsingle.started, fun h => absurd rfl h, hsingle.unique,
        hsingle.known, nofun⟩, rfl, rfl, rfl⟩
  | renewed session =>
      simp only [browser] at henv
      split at henv
      · rename_i storage hstore
        simp only [Option.ite_none_right_eq_some, Option.some.injEq] at henv
        obtain ⟨hthere, rfl⟩ := henv
        obtain ⟨id, hid⟩ := Option.ne_none_iff_exists'.mp hthere
        have hsame : storage.getSessionId = some id := getSessionId_storeTokens hsingle.saved hstore hid
        refine ⟨⟨⟨hchron.proper, hchron.same, hchron.resent, hchron.started⟩, hsingle.started, hsingle.saved.storeTokens hstore hid,
          hsingle.unique, hsingle.known, fun x hx heq => ?_⟩, rfl, rfl, rfl⟩
        refine hsingle.leading x hx ?_
        rw [hid, ← hsame]
        exact heq
      · cases henv
  | turn | success | failure | network => cases henv

/-- A new request has a number of its own. -/
theorem enter_step {n : Nat} {url : String} (hinv : TabInv s) (henter : browser.enter n url s = some s') :
    TabInv s' ∧ Move n s s' ∧ Ready ⟨n, url, none, none, false⟩ s' := by
  simp only [browser, Option.ite_none_right_eq_some, Option.some.injEq] at henter
  obtain ⟨hfresh, rfl⟩ := henter
  obtain ⟨hchron, hsingle⟩ := hinv
  refine ⟨⟨⟨hchron.proper, hchron.same, hchron.resent, fun e he => List.mem_cons_of_mem _ (hchron.started e he)⟩,
    ⟨fun x hx => List.mem_cons_of_mem _ (hsingle.started x hx), hsingle.saved, hsingle.unique, hsingle.known,
      hsingle.leading⟩⟩,
    ⟨fun _ h => List.mem_cons_of_mem _ h, fun _ h => h, fun _ h => .inl h, fun _ _ _ => Iff.rfl, .inl rfl⟩,
    ⟨List.mem_cons_self, fun e he heq => ?_, fun S hS => ?_, fun _ => rfl⟩⟩
  · have heq : e.request = n := heq
    exact absurd (heq ▸ hchron.started e he) hfresh
  · exact hfresh (hsingle.started (n, S) hS)

theorem browser_sound : Sound browser (fun _ _ _ _ => True) discipline fun _ _ _ _ => True where
  env _ _ _ hinv henv := env_step hinv henv
  enter n url s s' hinv henter := by
    obtain ⟨hinv', hmove, hready⟩ := enter_step hinv henter
    exact ⟨hinv', hmove, safe_request rfl hready⟩
  crash d s s' hinv hcrash := by
    obtain rfl := Option.some.inj hcrash
    obtain ⟨hchron, hsingle⟩ := hinv
    exact ⟨⟨hchron.proper, hchron.same, hchron.resent, hchron.started⟩,
      ⟨nofun, hsingle.saved, List.nodup_nil, nofun, nofun⟩⟩
  post _ _ _ := Guard.stable_true

theorem tab_start {storage : Storage} {sessions : List String} (hsaved : storage.Saved sessions) :
    TabInv (Tab.start storage sessions) :=
  ⟨⟨nofun, nofun, fun _ => Nat.zero_le 1, nofun⟩, ⟨nofun, hsaved, List.nodup_nil, nofun, nofun⟩⟩

/-- Two requests fail with an old token; the second one waits for the renewal
of the first, and both are sent again. -/
def renewalOfTwo : List (Async.Event Nat String String Reply) :=
  [.enter 0 "/projects", .resume 0 (.ok .turn), .enter 1 "/auth/me", .resume 1 (.ok .turn),
    .resume 0 (.ok (.failure 401 .other "")), .resume 1 (.ok (.failure 401 .other "")),
    .resume 0 (.ok (.success ⟨"a2", "r2"⟩)), .resume 1 (.ok .turn), .resume 1 (.ok .turn),
    .resume 0 (.ok .turn), .resume 0 (.ok .turn), .resume 0 (.ok (.success ⟨"", ""⟩)),
    .resume 1 (.ok (.success ⟨"", ""⟩))]

end Tab

end WebBuilder.Frontend.Client
