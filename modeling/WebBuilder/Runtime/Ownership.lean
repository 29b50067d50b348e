/-
  WebBuilder.Runtime.Ownership — no orphaned and no duplicate sandbox.

  Every call on sandboxes keeps `Owned`, whatever its awaits answer.  The one
  way out is `retire` on a row without a sandbox id while memory still holds
  the handle of an earlier operation: it kills that handle's sandbox and
  removes the row.  `RetiresOwn` excludes it.

  Main results:
    * `safe_retire`, `safe_acquire`, `safe_maintainRuntimes` — the calls;
    * `sandboxes_owned` — the property, over all runs that meet `RetiresOwn`;
    * `stale_handle_orphans_sandbox` — the run that does not.
-/
import WebBuilder.Runtime.Owned

namespace WebBuilder.Runtime

open WebBuilder.Async WebBuilder.Store WebBuilder.Budget

/-! ## §1. The proof context of a call. -/

/-- What one call assumes and promises; `allow` are the answers considered. -/
def guard (allow : Label → Answer Exc Datum → World → Prop) : Guard World Label Exc Datum where
  inv := Owned
  rely := Drift
  guar := KeepsKnown
  allow := allow

variable {allow : Label → Answer Exc Datum → World → Prop} {α : Type}

/-- An assertion about sandboxes that survives everything outside the process. -/
structure Fact (P : World → Prop) : Prop where
  drift : ∀ w w', Drift w w' → P w → P w'
  boxes : ∀ w w', w'.e2b = w.e2b → P w → P w'

theorem fact_true : Fact fun _ => True := ⟨fun _ _ _ h => h, fun _ _ _ h => h⟩

theorem fact_known (id op : Nat) : Fact (Known id op) :=
  ⟨fun _ _ hd hk => drift_known hd hk, fun w w' h hk => by simpa only [Known, h] using hk⟩

theorem fact_unborn (op : Nat) : Fact (Unborn op) :=
  ⟨fun _ _ hd hu => drift_unborn hd hu, fun w w' h hu => by simpa only [Unborn, Unrequested, h] using hu⟩

theorem fact_absent (op : Nat) : Fact (Absent op) :=
  ⟨fun _ _ hd ha => drift_absent hd ha, fun w w' h ha => by simpa only [Absent, Unrequested, h] using ha⟩

theorem Fact.and {P P' : World → Prop} (h : Fact P) (h' : Fact P') : Fact fun w => P w ∧ P' w :=
  ⟨fun w w' hd hp => ⟨h.drift w w' hd hp.1, h'.drift w w' hd hp.2⟩,
    fun w w' he hp => ⟨h.boxes w w' he hp.1, h'.boxes w w' he hp.2⟩⟩

theorem Fact.or {P P' : World → Prop} (h : Fact P) (h' : Fact P') : Fact fun w => P w ∨ P' w :=
  ⟨fun w w' hd hp => hp.imp (h.drift w w' hd) (h'.drift w w' hd),
    fun w w' he hp => hp.imp (h.boxes w w' he) (h'.boxes w w' he)⟩

theorem Fact.exists {ι : Type} {P : ι → World → Prop} (h : ∀ i, Fact (P i)) :
    Fact fun w => ∃ i, P i w :=
  ⟨fun w w' hd hp => hp.imp fun i => (h i).drift w w' hd,
    fun w w' he hp => hp.imp fun i => (h i).boxes w w' he⟩

theorem Fact.const_and {c : Prop} {P : World → Prop} (h : Fact P) : Fact fun w => c ∧ P w :=
  ⟨fun w w' hd hp => ⟨hp.1, h.drift w w' hd hp.2⟩, fun w w' he hp => ⟨hp.1, h.boxes w w' he hp.2⟩⟩

theorem Fact.imp {c : Prop} {P : World → Prop} (h : Fact P) : Fact fun w => c → P w :=
  ⟨fun w w' hd hp hc => h.drift w w' hd (hp hc), fun w w' he hp hc => h.boxes w w' he (hp hc)⟩

theorem Fact.forall {ι : Sort*} {P : ι → World → Prop} (h : ∀ i, Fact (P i)) :
    Fact fun w => ∀ i, P i w :=
  ⟨fun w w' hd hp i => (h i).drift w w' hd (hp i), fun w w' he hp i => (h i).boxes w w' he (hp i)⟩

theorem Fact.stable {P : World → Prop} (h : Fact P) : (guard allow).Stable P :=
  fun w w' _ _ hd hp => h.drift w w' hd hp

theorem stable_awaiting (c op : Nat) : (guard allow).Stable (Awaiting c op) :=
  fun _ _ _ _ hd ha => drift_awaiting hd ha

theorem keepsKnown_refl (w : World) : KeepsKnown w w := fun _ _ h => h

theorem guard_refl (w : World) : (guard allow).inv w → (guard allow).guar w w :=
  fun _ => keepsKnown_refl w

theorem keepsKnown_boxes {w w' : World} (h : w'.e2b = w.e2b) : KeepsKnown w w' :=
  fun id op => (fact_known id op).boxes w w' h

/-- A coroutine that leaves rows and sandboxes alone keeps every stable assertion. -/
theorem safe_quiet {P : World → Prop} (hP : ∀ w w', Drift w w' → P w → P w') {p : Act α}
    (hp : p.Keeps Quiet) {w : World} (hw : P w) : Safe (guard allow) p (fun _ => P) w :=
  Safe.of_keeps (fun w w' _ _ hd h => hP w w' hd h)
    (fun w w' hi h hq => ⟨owned_quiet hi hq, keepsKnown_boxes hq.e2b, hP w w' (quiet_drift hq) h⟩) hp hw fun _ _ _ _ => trivial

/-! ## §2. Quiet coroutines. -/

theorem keeps_getRuntime (chatId : Nat) : (getRuntime chatId).Keeps Quiet :=
  keeps_query' quiet_refl

theorem keeps_getInfo (id : Nat) : (getInfo id).Keeps Quiet := by
  refine keeps_request quiet_refl ?_ ?_
  · intro d w a w' h
    simp only [Option.map_eq_some_iff, Prod.mk.injEq] at h
    obtain ⟨_, _, _, rfl⟩ := h
    exact quiet_refl w
  · rintro w w' h
    obtain rfl := Option.some.inj h
    exact quiet_refl w

theorem keeps_listSandboxes (op : Nat) : (listSandboxes op).Keeps Quiet := by
  refine keeps_request quiet_refl ?_ ?_
  · intro d w a w' h
    split at h
    · simp only [Option.ite_none_right_eq_some, Option.some.injEq, Prod.mk.injEq] at h
      obtain ⟨_, _, rfl⟩ := h
      exact quiet_refl w
    · cases h
  · rintro w w' h
    obtain rfl := Option.some.inj h
    exact quiet_refl w

theorem keeps_settleRuntime (spendId : Option Nat) (rejected : Bool) :
    (settleRuntime spendId rejected).Keeps Quiet := by
  unfold settleRuntime settleSpend
  split
  · refine keeps_transaction' quiet_refl fun w a w' h => ?_
    split at h
    · simp only [Except.ok.injEq, Prod.mk.injEq, true_and] at h
      exact h ▸ ⟨rfl, rfl, Nat.le_refl _⟩
    · cases h
  · trivial

theorem keeps_reserveRuntime (cfg : Config) (chatId : Nat) (previous : Option Nat)
    (info : Option SandboxInfo) : (reserveRuntime cfg chatId previous info).Keeps Quiet := by
  unfold reserveRuntime
  refine Co.Keeps.bind (keeps_query' quiet_refl) fun userId => ?_
  split
  · trivial
  · split
    · trivial
    · refine Co.Keeps.bind (keeps_memory' quiet_refl) fun duration => ?_
      split
      · trivial
      · refine keeps_transaction' quiet_refl fun w a w' h => ?_
        split at h
        · simp only [Except.ok.injEq, Prod.mk.injEq] at h
          exact h.2 ▸ ⟨rfl, rfl, Nat.le_succ _⟩
        · cases h

theorem keeps_confirmLease (cfg : Config) (spendId : Nat) (info : SandboxInfo) :
    (confirmLease cfg spendId info).Keeps Quiet := by
  unfold confirmLease
  refine Co.Keeps.bind (keeps_transaction' quiet_refl fun w a w' h => ?_) fun exceeded => ?_
  · split at h
    · simp only [Except.ok.injEq, Prod.mk.injEq] at h
      exact h.2 ▸ ⟨rfl, rfl, Nat.le_refl _⟩
    · cases h
  · split <;> trivial

theorem keeps_setHandle (chatId id : Nat) : (setHandle chatId id).Keeps Quiet :=
  keeps_memory' fun _ => ⟨rfl, rfl, Nat.le_refl _⟩

theorem keeps_forgetHandle (chatId : Nat) : (forgetHandle chatId).Keeps Quiet :=
  keeps_memory' fun _ => ⟨rfl, rfl, Nat.le_refl _⟩

/-! ## §3. Rows. -/

/-- The values of a `change` that leaves the ownership alone. -/
structure SameOwner (values : SandboxRuntime → SandboxRuntime) : Prop where
  chatId : ∀ r, (values r).chatId = r.chatId
  operationId : ∀ r, (values r).operationId = r.operationId
  sandboxId : ∀ r, (values r).sandboxId = r.sandboxId

theorem runtime?_some {db : Database} {c op : Nat} {r : SandboxRuntime} (h : db.runtime? c op = some r) :
    db.runtimes.get? c = some r ∧ r.operationId = op := by
  simpa only [Database.runtime?, Option.filter_eq_some_iff, decide_eq_true_eq] using h

theorem ne_notFound {α : Type} {e : Exc} (h : databaseFault e = true) :
    (.error e : Except Exc α) ≠ .error .notFound := by
  rintro ⟨⟩
  cases h

theorem safe_change {P : World → Prop} (hP : Fact P) {row : SandboxRuntime}
    {values : SandboxRuntime → SandboxRuntime} (hv : SameOwner values) {w : World} (hw : P w) :
    Safe (guard allow) (change row values)
      (fun r w => P w ∧ r ≠ .error .notFound ∧ ∀ row', r = .ok row' → row' = values row) w := by
  refine safe_transaction P hw hP.stable guard_refl ?_ ?_ fun _ _ _ => trivial
  · intro w₁ a w₂ hi hp _ hbody
    split at hbody
    · rename_i r hr
      simp only [Except.ok.injEq, Prod.mk.injEq] at hbody
      obtain ⟨rfl, rfl⟩ := hbody
      have hget := (runtime?_some hr).1
      have hc : r.chatId = row.chatId := Table.key_of_get? hget
      have hP₂ := hP.boxes w₁ { w₁ with db := w₁.db.setRuntime (values r) } rfl hp
      exact ⟨owned_setRuntime hi (hc ▸ hget) (hv.chatId r) (hv.operationId r) (.inl (hv.sandboxId r)),
        keepsKnown_boxes rfl, ⟨hP₂, by simp, fun row' h => (Except.ok.inj h).symm⟩,
        fun e he => ⟨hP₂, ne_notFound he, fun row' h => by cases h⟩⟩
    · cases hbody
  · intro w₁ e _ hp he
    refine ⟨hp, ?_, fun row' h => by cases h⟩
    rcases he with he | he
    · exact ne_notFound he
    · split at he <;> cases he
      simp

/-- **Removing a row** whose operation is absent. -/
theorem safe_remove (row : SandboxRuntime) (rejected : Bool) {w : World}
    (hw : Absent row.operationId w) :
    Safe (guard allow) (remove row rejected) (fun _ _ => True) w := by
  have hfact := fact_absent row.operationId
  refine Safe.bind (safe_quiet hfact.drift (keeps_settleRuntime _ _) hw) (fun _ w₁ hw₁ => ?_)
    fun _ _ _ => trivial
  refine Safe.bind (R := fun _ _ => True) ?_
    (fun _ w₂ _ => safe_quiet fact_true.drift (keeps_forgetHandle _) trivial) fun _ _ _ => trivial
  refine safe_transaction _ hw₁ hfact.stable guard_refl ?_ (fun _ _ _ _ _ => trivial) fun _ _ _ => trivial
  intro w₂ a w₃ hi ha _ hbody
  simp only [Except.ok.injEq, Prod.mk.injEq, true_and] at hbody
  subst hbody
  exact ⟨owned_delete hi ha, keepsKnown_boxes rfl, trivial, fun _ _ => trivial⟩

/-! ## §4. Retirement. -/

theorem safe_kill {P : World → Prop} (hP : Fact P) (id : Nat) (P' : World → Prop)
    (h : ∀ w, Owned w → Drift w (w.kill id) → P w → P' (w.kill id)) {w : World} (hw : P w) :
    Safe (guard allow) (withTimeout .request (killSandbox id)) (fun r w => r = .ok () → P' w) w := by
  refine safe_withTimeout (R := fun r w => r = .ok () → P' w) ?_ (fun _ _ h => h)
    fun _ _ _ h => by cases h
  refine safe_request _ hw hP.stable guard_refl ?_ (fun _ _ _ _ h => by cases h)
    (fun _ _ _ _ _ h => by cases h) ?_ fun _ _ _ => trivial
  · intro w₁ d a w₂ hi hp _ hs
    simp only [Option.some.injEq, Prod.mk.injEq, true_and] at hs
    subst hs
    obtain ⟨howned, hdrift⟩ := owned_kill hi id
    exact ⟨howned, hdrift.known, fun _ => h w₁ hi hdrift hp, fun _ _ h => by cases h⟩
  · intro w₁ w₂ e hi hp _ hd _
    obtain rfl := Option.some.inj hd
    exact ⟨hi, keepsKnown_refl w₁, fun h => by cases h⟩

/-- Killing sandboxes one by one, one of which may be that of the operation. -/
theorem safe_killAll (op : Nat) : ∀ (ids : List Nat) (w : World),
    (Absent op w ∨ ∃ id, id ∈ ids ∧ Known id op w) →
      Safe (guard allow) (Co.forEach ids fun id => withTimeout .request (killSandbox id))
        (fun r w => r = .ok () → Absent op w) w
  | [], w, h => fun _ => h.resolve_right (by simp)
  | id :: ids, w, h => by
      have hfact : Fact fun w => Absent op w ∨ ∃ x, x ∈ id :: ids ∧ Known x op w :=
        (fact_absent op).or (Fact.exists fun x => (fact_known x op).const_and)
      refine Safe.bind (safe_kill hfact id (fun w => Absent op w ∨ ∃ x, x ∈ ids ∧ Known x op w)
        ?_ h) (fun _ w₁ h₁ => safe_killAll op ids w₁ (h₁ rfl)) (fun _ _ _ h => by cases h)
      rintro w₁ hi hdrift (ha | ⟨x, hx, hk⟩)
      · exact .inl (drift_absent hdrift ha)
      · rcases List.mem_cons.mp hx with rfl | hx
        · exact .inl (absent_kill hi hk)
        · exact .inr ⟨x, hx, drift_known hdrift hk⟩

/-- The handle that `retire` found is one of the row's own operation, where the
row records no sandbox, or there is nothing to lose. -/
def RetiresOwn (row : SandboxRuntime) (w : World) : Prop :=
  row.sandboxId = none → ∀ handle, w.mem.handle? row.chatId = some handle →
    Known handle row.operationId w ∨ Absent row.operationId w

/-- `retire` is only allowed where it works on its own sandbox. -/
def OwnRetires (allow : Label → Answer Exc Datum → World → Prop) : Prop :=
  ∀ l row an w, l.op = .retire (some row) → allow l an w → RetiresOwn row w

theorem OwnRetires.onProject {allow : Label → Answer Exc Datum → World → Prop} (h : OwnRetires allow)
    (chatId : Nat) : OwnRetires fun l => allow { l with scopes := .project chatId :: l.scopes } :=
  fun l row an w hl hal => h { l with scopes := .project chatId :: l.scopes } row an w hl hal

theorem safe_retireKill (row : SandboxRuntime) (handle : Option Nat) {w : World}
    (hrow : ∀ id, row.sandboxId = some id → Known id row.operationId w)
    (hhandle : row.sandboxId = none → ∀ h, handle = some h →
      Known h row.operationId w ∨ Absent row.operationId w) :
    Safe (guard allow) (retireKill (some row) handle)
      (fun r w => r = .ok true → Absent row.operationId w) w := by
  have hkill : ∀ (ids : List Nat) (w : World),
      (Absent row.operationId w ∨ ∃ id, id ∈ ids ∧ Known id row.operationId w) →
        Safe (guard allow) ((Co.forEach ids fun id => withTimeout .request (killSandbox id)).bind
          fun _ => pure true) (fun r w => r = .ok true → Absent row.operationId w) w := by
    intro ids w h
    exact Safe.bind (safe_killAll row.operationId ids w h) (fun _ _ h _ => h rfl)
      (fun _ _ _ h => by cases h)
  unfold retireKill
  cases hids : retireIds (some row) handle with
  | nil =>
      -- no id at all: ask E2B for the sandboxes of the operation
      refine Safe.bind (R := fun r w => ∀ ids, r = .ok ids → ∀ id ∈ ids, Known id row.operationId w)
        (safe_withTimeout (R := fun r w => ∀ ids, r = .ok ids → ∀ id ∈ ids, Known id row.operationId w)
          ?_ (fun _ _ h => h) (fun _ _ _ _ h => by cases h)) ?_ (fun _ _ _ h => by cases h)
      · refine safe_request _ trivial fact_true.stable guard_refl ?_ (fun _ _ _ _ _ h => by cases h)
          (fun _ _ _ _ _ _ h => by cases h) ?_ fun _ _ _ => trivial
        · intro w₁ d a w₂ hi _ _ hs
          split at hs
          · rename_i ids
            simp only [Option.ite_none_right_eq_some, Option.some.injEq, Prod.mk.injEq] at hs
            obtain ⟨hall, rfl, rfl⟩ := hs
            refine ⟨hi, keepsKnown_refl _, ?_, fun _ _ _ h => by cases h⟩
            intro ids' hids' id hid
            obtain rfl := Except.ok.inj hids'
            have := List.all_eq_true.mp hall id hid
            simp only [Option.any_eq_true, decide_eq_true_eq] at this
            obtain ⟨b, hb, hop⟩ := this
            exact ⟨b, Table.mem_of_get? hb, Table.key_of_get? hb, hop⟩
          · cases hs
        · intro w₁ w₂ e hi _ _ hd _
          obtain rfl := Option.some.inj hd
          exact ⟨hi, keepsKnown_refl _, fun _ h => by cases h⟩
      · intro found w₁ hfound
        cases found with
        | nil => exact fun h => by cases h
        | cons id ids =>
            refine hkill _ w₁ (.inr ⟨id, ?_, hfound _ rfl id List.mem_cons_self⟩)
            exact List.mem_dedup.mpr List.mem_cons_self
  | cons id ids =>
      refine hkill _ w ?_
      rw [← hids]
      have hmem : ∀ x, x ∈ retireIds (some row) handle ↔ row.sandboxId = some x ∨ handle = some x := by
        intro x
        simp [retireIds, Option.mem_toList]
      cases hs : row.sandboxId with
      | some s => exact .inr ⟨s, (hmem s).mpr (.inl hs), hrow s hs⟩
      | none =>
          have hx : id ∈ retireIds (some row) handle := hids ▸ List.mem_cons_self
          have hh := ((hmem id).mp hx).resolve_left (by simp [hs])
          rcases hhandle hs id hh with hk | ha
          · exact .inr ⟨id, hx, hk⟩
          · exact .inl ha

/-- What the row records of its sandbox is true. -/
def RowFact (row : SandboxRuntime) (w : World) : Prop :=
  ∀ id, row.sandboxId = some id → Known id row.operationId w

theorem fact_row (row : SandboxRuntime) : Fact (RowFact row) :=
  Fact.forall fun id => (fact_known id row.operationId).imp

theorem safe_getRuntime (chatId : Nat) (w : World) :
    Safe (guard allow) (getRuntime chatId)
      (fun r w => ∀ row, r = .ok (some row) → row.chatId = chatId ∧ RowFact row w) w := by
  refine safe_query _ trivial fact_true.stable guard_refl ?_ (fun _ _ _ _ _ h => by cases h) fun _ _ _ => trivial
  intro w₁ hi _ row hrow
  have hget := Except.ok.inj hrow
  exact ⟨Table.key_of_get? hget, fun id hid => hi.located row (Table.mem_of_get? hget) id hid⟩

theorem sameOwner_retiring :
    SameOwner SandboxRuntime.toRetire :=
  ⟨fun _ => rfl, fun _ => rfl, fun _ => rfl⟩

/-- **Retirement** keeps the ownership. -/
theorem safe_retire (hcond : OwnRetires allow)
    (chatId : Nat) (w : World) : Safe (guard allow) (retire chatId) (fun _ _ => True) w := by
  refine Safe.bind (safe_getRuntime chatId w) (fun row w₁ hrow => ?_) fun _ _ _ => trivial
  have hfact : Fact fun w => ∀ r, row = some r → RowFact r w :=
    Fact.forall fun r => (fact_row r).imp
  refine Safe.bind (R := fun r w => ∀ handle, r = .ok handle → (∀ x, row = some x → RowFact x w) ∧
      ∀ x, row = some x → x.sandboxId = none → ∀ h, handle = some h →
        Known h x.operationId w ∨ Absent x.operationId w)
    (Safe.memory _ (fun r hr => (hrow r (by rw [hr])).2) hfact.stable ?_ fun _ _ _ => trivial)
    (fun handle w₂ h => ?_) fun _ _ _ => trivial
  · intro w₂ hi hp hal
    refine ⟨hi, keepsKnown_refl _, ?_⟩
    intro handle hhandle
    obtain rfl := Except.ok.inj hhandle
    refine ⟨hp, ?_⟩
    rintro x rfl hnone h hh
    obtain ⟨an, hal⟩ := hal
    exact hcond _ x an w₂ rfl hal hnone h ((hrow x rfl).1 ▸ hh)
  · obtain ⟨hp, hhandle⟩ := h handle rfl
    cases row with
    | none =>
        refine Safe.bind (R := fun _ _ => True) ?_ ?_ fun _ _ _ => trivial
        · refine safe_catchException (R := fun _ _ => True) ?_ (fun _ _ _ => trivial)
            (fun _ _ _ _ => trivial) fun _ _ _ _ => trivial
          refine Safe.bind (R := fun _ _ => True) ?_ (fun _ _ _ => trivial) fun _ _ _ => trivial
          refine Safe.forEach (I := fun _ => True) _ _ trivial (fun id _ w₃ _ => ?_) fun _ _ => trivial
          refine (safe_kill fact_true id (fun _ => True) (fun _ _ _ h => h) trivial).mono fun r _ _ => ?_
          cases r <;> trivial
        · intro killed w₃ _
          cases killed with
          | true =>
              exact Safe.bind (safe_quiet fact_true.drift (keeps_forgetHandle _) trivial)
                (fun _ _ _ => trivial) fun _ _ _ => trivial
          | false => trivial
    | some x =>
        have hx : Fact fun w => RowFact x w ∧ (x.sandboxId = none → ∀ h, handle = some h →
            Known h x.operationId w ∨ Absent x.operationId w) :=
          (fact_row x).and (Fact.imp (Fact.forall fun h =>
            Fact.imp ((fact_known h x.operationId).or (fact_absent x.operationId))))
        refine Safe.bind (safe_change hx sameOwner_retiring ⟨hp x rfl, hhandle x rfl⟩)
          (fun row' w₃ h₃ => ?_) fun _ _ _ => trivial
        obtain ⟨⟨h₃, h₃'⟩, _, hrow'⟩ := h₃
        obtain rfl := hrow' row' rfl
        refine Safe.bind (R := fun r w => r = .ok true → Absent x.operationId w) ?_ ?_
          fun _ _ _ => trivial
        · exact safe_catchException (safe_retireKill _ handle h₃ h₃') (fun _ _ h => h)
            (fun _ _ _ _ h => by cases h) fun _ _ _ _ h => by cases h
        · intro killed w₄ h₄
          cases killed with
          | true =>
              exact Safe.bind (safe_remove _ false (h₄ rfl)) (fun _ _ _ => trivial) fun _ _ _ => trivial
          | false => trivial

/-! ## §5. Polling. -/

theorem sameOwner_state (state : RuntimeState) : SameOwner fun r => { r with state := state } :=
  ⟨fun _ => rfl, fun _ => rfl, fun _ => rfl⟩

theorem sameOwner_spendId (spendId : Option Nat) : SameOwner fun r => { r with spendId := spendId } :=
  ⟨fun _ => rfl, fun _ => rfl, fun _ => rfl⟩

/-- No ledger operation says `NotFound`. -/
theorem settle_ne_notFound {l : Ledger} {now id : Nat} {amount : Option Int} {details : Details} {e : Exc}
    (h : settle l now id amount details = .error e) : e ≠ .notFound := by
  rintro rfl
  unfold settle runtimeAmount at h
  grind

theorem safe_settleRuntime {P : World → Prop} (hP : Fact P) (spendId : Option Nat) (rejected : Bool)
    {w : World} (hw : P w) :
    Safe (guard allow) (settleRuntime spendId rejected) (fun r w => P w ∧ r ≠ .error .notFound) w := by
  unfold settleRuntime settleSpend
  split
  · refine safe_transaction P hw hP.stable guard_refl ?_ ?_ fun _ _ _ => trivial
    · intro w₁ a w₂ hi hp _ hbody
      split at hbody
      · simp only [Except.ok.injEq, Prod.mk.injEq, true_and] at hbody
        subst hbody
        exact ⟨owned_quiet hi ⟨rfl, rfl, Nat.le_refl _⟩, keepsKnown_boxes rfl,
          ⟨hP.boxes w₁ _ rfl hp, by simp⟩, fun e he => ⟨hP.boxes w₁ _ rfl hp, ne_notFound he⟩⟩
      · cases hbody
    · intro w₁ e _ hp he
      refine ⟨hp, ?_⟩
      rcases he with he | he
      · exact ne_notFound he
      · split at he
        · cases he
        · rename_i hs
          cases he
          simpa using settle_ne_notFound hs
  · exact ⟨hw, by simp⟩

theorem safe_settlePaused {P : World → Prop} (hP : Fact P) (row : SandboxRuntime) {w : World}
    (hw : P w) : Safe (guard allow) (settlePaused row) (fun r w => P w ∧ r ≠ .error .notFound) w := by
  unfold settlePaused
  have herr : ∀ {β : Type} (e : Exc), (.error e : Except Exc β) ≠ .error .notFound →
      (.error e : Except Exc SandboxRuntime) ≠ .error .notFound := by
    rintro β e h ⟨⟩
    exact h rfl
  refine Safe.bind (safe_settleRuntime hP row.spendId false hw) (fun _ w₁ h₁ => ?_)
    fun e w₁ h₁ => ⟨h₁.1, herr e h₁.2⟩
  refine Safe.bind (safe_change hP (sameOwner_spendId none) h₁.1) (fun row' w₂ h₂ => ?_)
    fun e w₂ h₂ => ⟨h₂.1, herr e h₂.2.1⟩
  refine Safe.bind (R := fun r w => P w ∧ r ≠ .error .notFound) ?_ (fun _ w₃ h₃ => ⟨h₃.1, by simp⟩)
    fun e w₃ h₃ => ⟨h₃.1, herr e h₃.2⟩
  refine safe_memory P h₂.1 hP.stable (fun w₃ hi hp => ?_) fun _ _ _ => trivial
  exact ⟨owned_quiet hi ⟨rfl, rfl, Nat.le_refl _⟩, keepsKnown_boxes rfl, hP.boxes w₃ _ rfl hp, by simp⟩

/-- `get_info` on a sandbox that was known: `NotFound` is the truth. -/
theorem safe_getInfo (op id : Nat) {w : World} (hw : Known id op w) :
    Safe (guard allow) (orMissing (getInfo id)) (fun r w => r = .ok none → Absent op w) w := by
  refine Safe.tryCatch (R := fun r w => r ≠ .ok none ∧ (r = .error .notFound → Absent op w)) ?_
    (fun a _ h hnone => absurd hnone h.1) fun e w₁ h => ?_
  · refine Safe.bind (R := fun r w => r = .error .notFound → Absent op w) ?_
      (fun _ _ _ => ⟨by simp, by simp⟩) fun e w₁ h => ⟨by simp, by simpa using h⟩
    refine safe_request _ hw (fact_known id op).stable guard_refl ?_ ?_ ?_ ?_ fun _ _ _ => trivial
    · intro w₁ d a w₂ hi _ _ hs
      simp only [Option.map_eq_some_iff, Prod.mk.injEq] at hs
      obtain ⟨_, _, _, rfl⟩ := hs
      refine ⟨hi, keepsKnown_refl _, by simp, ?_⟩
      rintro e he ⟨⟩
      cases he
    · exact fun w₁ hi hk hm _ => hi.absent_of_missing hk hm
    · rintro w₁ e _ _ (he | rfl) ⟨⟩
      cases he
    · rintro w₁ w₂ e hi _ _ hd he
      obtain rfl := Option.some.inj hd
      refine ⟨hi, keepsKnown_refl _, ?_⟩
      rintro ⟨⟩
      cases he
  · split
    · rename_i he
      exact fun _ => h.2 (by rw [he])
    · exact fun hh => by cases hh

/-- **Polling** keeps the ownership; the row it hands back of a running
sandbox is true. -/
theorem safe_recordState (row : SandboxRuntime) (info : Option SandboxInfo) {w : World}
    (hrow : RowFact row w) (hinfo : info = none → Absent row.operationId w) :
    Safe (guard allow) (recordState row info)
      (fun r w => ∀ row', r = .ok (.running, row') → RowFact row' w) w := by
  cases info with
  | none =>
      exact Safe.bind (safe_remove row false (hinfo rfl)) (fun _ _ _ _ h => by cases h)
        fun _ _ _ _ h => by cases h
  | some i =>
      refine Safe.bind (safe_change (fact_row row) (sameOwner_state _) hrow) (fun row₁ w₁ h₁ => ?_)
        fun _ _ _ _ h => by cases h
      obtain ⟨h₁, _, hrow₁⟩ := h₁
      obtain rfl := hrow₁ row₁ rfl
      split
      · rintro row' ⟨⟩
        exact h₁
      · exact Safe.bind (safe_settlePaused fact_true _ trivial) (fun _ _ _ _ h => by cases h)
          fun _ _ _ _ h => by cases h

theorem safe_state (row : SandboxRuntime) (info : Option SandboxInfo) {w : World}
    (hrow : RowFact row w) : Safe (guard allow) (state row info)
      (fun r w => ∀ row', r = .ok (.running, row') → RowFact row' w) w := by
  unfold state
  split
  · rintro row' ⟨⟩
  · rename_i id hid
    cases info with
    | some i => exact safe_recordState row (some i) hrow (by simp)
    | none =>
        have hinfo : Safe (guard allow) _ _ w := safe_getInfo row.operationId id (hrow id hid)
        have hframe := hinfo.frame (fact_row row).stable
          (fun w₁ w₂ _ _ hk h id hid => hk id _ (h id hid)) hrow
        refine Safe.bind hframe (fun found w₁ h₁ => ?_) fun _ _ _ _ h => by cases h
        refine safe_recordState row found h₁.2 fun hf => h₁.1 (by rw [hf])

/-! ## §6. Acquisition. -/

theorem safe_connectSandbox (id spendId : Nat) (w : World) :
    Safe (guard allow) (connectSandbox id spendId) (fun _ _ => True) w := by
  refine safe_request _ trivial fact_true.stable guard_refl ?_ (fun _ _ _ _ => trivial)
    (fun _ _ _ _ _ => trivial) ?_ fun _ _ _ => trivial
  · intro w₁ d a w₂ hi _ _ hs
    split at hs
    · rename_i t b hb
      simp only [Option.some.injEq, Prod.mk.injEq] at hs
      obtain ⟨_, rfl⟩ := hs
      obtain ⟨h1, h2⟩ := drift_box hi hb (sameBox_connect (box?_mem hb).2.2 t)
      exact ⟨h1, h2.known, trivial, fun _ _ => trivial⟩
    · cases hs
  · intro w₁ w₂ e hi _ _ hd _
    obtain rfl := Option.some.inj hd
    exact ⟨owned_defer_connect hi id spendId, keepsKnown_refl _, trivial⟩

theorem safe_connectLease (cfg : Config) (chatId id spendId : Nat) (w : World) :
    Safe (guard allow) (connectLease cfg chatId id spendId) (fun _ _ => True) w := by
  refine Safe.bind (safe_withTimeout (R := fun _ _ => True) (Q := fun _ _ => True)
    (safe_connectSandbox id spendId w) (fun _ _ h => h) fun _ _ h => h) (fun handle w₁ _ => ?_) fun _ _ _ => trivial
  refine safe_quiet fact_true.drift ?_ trivial
  exact Co.Keeps.bind (keeps_setHandle _ _) fun _ => Co.Keeps.bind (keeps_getInfo _) fun _ =>
    Co.Keeps.bind (keeps_confirmLease _ _ _) fun _ => trivial

theorem sameOwner_resumed (spendId now : Nat) : SameOwner fun r =>
    { r with state := .running, spendId := some spendId, lastUsedAt := now } :=
  ⟨fun _ => rfl, fun _ => rfl, fun _ => rfl⟩

theorem safe_resume (cfg : Config) (row : SandboxRuntime) (sandboxId : Nat) (info : SandboxInfo)
    (w : World) : Safe (guard allow) (resume cfg row sandboxId info) (fun _ _ => True) w := by
  refine Safe.bind (safe_quiet fact_true.drift (keeps_reserveRuntime _ _ _ _) trivial)
    (fun spend w₁ _ => ?_) fun _ _ _ => trivial
  refine Safe.bind (safe_quiet fact_true.drift (keeps_memory' quiet_refl) trivial)
    (fun now w₂ _ => ?_) fun _ _ _ => trivial
  refine Safe.bind (safe_change fact_true (sameOwner_resumed spend.id now) trivial)
    (fun _ w₃ _ => ?_) fun _ _ _ => trivial
  refine Safe.tryCatch (R := fun _ _ => True) ?_ (fun _ _ _ => trivial) fun e w₄ _ => ?_
  · exact Safe.bind (safe_connectLease cfg _ _ _ w₃) (fun _ _ _ => trivial) fun _ _ _ => trivial
  · split
    · trivial
    · trivial
    · split <;> trivial

theorem awaiting_boxes {w w' : World} (hdb : w'.db.runtimes = w.db.runtimes) {c op : Nat}
    (h : Awaiting c op w) : Awaiting c op w' := by
  simpa only [Awaiting, hdb] using h

/-- **Creation**: an explicit refusal leaves the operation unborn. -/
theorem safe_createSandbox (op chatId spendId : Nat) {w : World} (hrow : Awaiting chatId op w)
    (hop : Unborn op w) : Safe (guard allow) (withTimeout .request (createSandbox op chatId spendId))
      (fun r w => (∀ id, r = .ok id → Known id op w) ∧
        (r = .error .rejected ∨ r = .error .notFound → Absent op w)) w := by
  refine safe_withTimeout (R := fun r w => (∀ id, r = .ok id → Known id op w) ∧
        (r = .error .rejected ∨ r = .error .notFound → Absent op w)) ?_ (fun _ _ h => h) ?_
  · refine safe_request (fun w => Awaiting chatId op w ∧ Unborn op w) ⟨hrow, hop⟩
      ((stable_awaiting chatId op).and (fact_unborn op).stable) guard_refl ?_ ?_ ?_ ?_ fun _ _ _ => trivial
    · intro w₁ d a w₂ hi hp _ hs
      split at hs
      · rename_i cpu mem deadline files
        simp only [Option.some.injEq, Prod.mk.injEq] at hs
        obtain ⟨rfl, rfl⟩ := hs
        obtain ⟨h1, h2, h3⟩ := owned_createBox hi hp.1 hp.2 cpu mem deadline files
        refine ⟨h1, h2, ⟨fun id h => Except.ok.inj h ▸ h3, by simp⟩, ?_⟩
        intro e he
        refine ⟨by simp, ?_⟩
        rintro (⟨⟨⟩⟩ | ⟨⟨⟩⟩) <;> cases he
      · cases hs
    · exact fun w₁ _ hp _ => ⟨by simp, fun _ => hp.2.absent⟩
    · exact fun w₁ _ _ hp _ => ⟨by simp, fun _ => hp.2.absent⟩
    · intro w₁ w₂ e hi hp _ hd he
      obtain rfl := Option.some.inj hd
      refine ⟨owned_defer hi spendId hp.1 hp.2, keepsKnown_refl _, by simp, ?_⟩
      rintro (⟨⟨⟩⟩ | ⟨⟨⟩⟩) <;> cases he
  · intro e w₁ h
    refine ⟨by simp, fun hr => h.2 ?_⟩
    split at hr
    · simp at hr
    · exact hr

/-- A new row for a new operation. -/
theorem safe_insertRuntime (chatId spendId : Nat) (template generation : String) (w : World) :
    Safe (guard allow) (transaction .commit (insertRuntime chatId spendId template generation))
      (fun r w => ∀ row, r = .ok row → Awaiting chatId row.operationId w ∧ Unborn row.operationId w) w := by
  refine safe_transaction _ trivial fact_true.stable guard_refl ?_ (fun _ _ _ _ _ _ h => by cases h)
    fun _ _ _ => trivial
  intro w₁ row w₂ hi _ _ hbody
  unfold insertRuntime at hbody
  split at hbody
  · cases hbody
  · split at hbody
    · cases hbody
    · rename_i hnone
      simp only [Except.ok.injEq, Prod.mk.injEq] at hbody
      obtain ⟨rfl, rfl⟩ := hbody
      refine ⟨owned_insert hi (by simpa using hnone) rfl rfl, keepsKnown_boxes rfl, ?_,
        fun _ _ _ h => by cases h⟩
      rintro row ⟨⟩
      refine ⟨⟨_, Table.get?_put_self _ _, rfl, rfl⟩, ?_⟩
      exact (fact_unborn w₁.nextId).boxes w₁ _ rfl (unborn_nextId hi)

theorem safe_locate {row : SandboxRuntime} {id : Nat} {w : World} (hw : Known id row.operationId w) :
    Safe (guard allow) (change row fun r => { r with sandboxId := some id, state := .running })
      (fun _ _ => True) w := by
  refine safe_transaction _ hw (fact_known _ _).stable guard_refl ?_ (fun _ _ _ _ _ => trivial) fun _ _ _ => trivial
  intro w₁ a w₂ hi hk _ hbody
  split at hbody
  · rename_i r hr
    simp only [Except.ok.injEq, Prod.mk.injEq] at hbody
    obtain ⟨rfl, rfl⟩ := hbody
    obtain ⟨hget, hop⟩ := runtime?_some hr
    have hc : r.chatId = row.chatId := Table.key_of_get? hget
    have hget' : w₁.db.runtimes.get? r.chatId = some r := by rw [hc, hget]
    have hk' : Known id r.operationId w₁ := by rw [hop]; exact hk
    have howned : Owned { w₁ with db := w₁.db.setRuntime { r with sandboxId := some id, state := .running } } :=
      owned_setRuntime hi hget' rfl rfl (.inr ⟨id, rfl, hk'⟩)
    exact ⟨howned, keepsKnown_boxes rfl, trivial, fun _ _ => trivial⟩
  · cases hbody

theorem safe_startRuntime (cfg : Config) (chatId : Nat) (template : String) (w : World) :
    Safe (guard allow) (startRuntime cfg chatId template) (fun _ _ => True) w := by
  refine Safe.bind (safe_quiet fact_true.drift (keeps_reserveRuntime _ _ _ _) trivial)
    (fun spend w₁ _ => ?_) fun _ _ _ => trivial
  refine Safe.bind (safe_insertRuntime chatId spend.id template cfg.generation w₁)
    (fun row w₂ h₂ => ?_) fun _ _ _ => trivial
  obtain ⟨hrow, hop⟩ := h₂ row rfl
  refine Safe.bind (R := fun r w => ∀ id, r = .ok id → Known id row.operationId w) ?_
    (fun handle w₃ h₃ => ?_) fun _ _ _ => trivial
  · refine Safe.tryCatch (safe_createSandbox row.operationId chatId spend.id hrow hop)
      (fun _ _ h => h.1) fun e w₃ h₃ => ?_
    split
    · rename_i he
      exact Safe.bind (safe_remove row true (h₃.2 (by simpa using he))) (fun _ _ _ _ h => by cases h)
        fun _ _ _ _ h => by cases h
    · exact fun _ h => by cases h
  · have hfact := fact_known handle row.operationId
    refine Safe.bind (safe_quiet hfact.drift (keeps_setHandle _ _) (h₃ handle rfl))
      (fun _ w₄ h₄ => ?_) fun _ _ _ => trivial
    refine Safe.bind (safe_locate h₄) (fun _ w₅ _ => ?_) fun _ _ _ => trivial
    refine safe_quiet fact_true.drift ?_ trivial
    exact Co.Keeps.bind (keeps_getInfo _) fun _ =>
      Co.Keeps.bind (keeps_confirmLease _ _ _) fun _ => trivial

theorem safe_replaceRuntime (hcond : OwnRetires allow)
    (cfg : Config) (chatId : Nat) (template : String) (w : World) :
    Safe (guard allow) (replaceRuntime cfg chatId template) (fun _ _ => True) w := by
  refine Safe.bind (safe_retire hcond chatId w) (fun retired w₁ _ => ?_) fun _ _ _ => trivial
  split
  · exact safe_startRuntime cfg chatId template w₁
  · trivial

theorem safe_pollCompatible (row : SandboxRuntime) (sandboxId : Nat) (hid : row.sandboxId = some sandboxId)
    {w : World} (hrow : RowFact row w) :
    Safe (guard allow) (pollCompatible row sandboxId) (fun _ _ => True) w := by
  have hinfo : Safe (guard allow) _ _ w := safe_getInfo row.operationId sandboxId (hrow sandboxId hid)
  have hframe := hinfo.frame (fact_row row).stable
    (fun w₁ w₂ _ _ hk h id hid => hk id _ (h id hid)) hrow
  refine Safe.bind hframe (fun info w₂ h₂ => ?_) fun _ _ _ => trivial
  cases info with
  | none =>
      exact Safe.bind (safe_remove row false (h₂.1 rfl)) (fun _ _ _ => trivial) fun _ _ _ => trivial
  | some i =>
      refine Safe.bind (safe_state row (some i) h₂.2) (fun p w₃ _ => ?_) fun _ _ _ => trivial
      obtain ⟨polled, row'⟩ := p
      by_cases hp : polled = .running ∨ polled = .paused
      · simp only [if_pos hp]
        trivial
      · simp only [if_neg hp]
        trivial

/-- **Acquisition** keeps the ownership. -/
theorem safe_acquire (hcond : OwnRetires allow)
    (cfg : Config) (chatId : Nat) (revision : Option ProjectRevision) (w : World) :
    Safe (guard allow) (acquire cfg chatId revision) (fun _ _ => True) w := by
  refine Safe.bind (safe_getRuntime chatId w) (fun row w₁ hrow => ?_) fun _ _ _ => trivial
  cases row with
  | none => exact safe_startRuntime cfg chatId _ w₁
  | some row =>
      have hfact := (hrow row rfl).2
      dsimp only
      split
      · rename_i sandboxId hid _
        refine Safe.bind (safe_pollCompatible row sandboxId hid hfact) (fun polled w₂ _ => ?_)
          fun _ _ _ => trivial
        cases polled with
        | none => exact safe_startRuntime cfg chatId _ w₂
        | some p =>
            refine Safe.bind (safe_resume cfg p.1 sandboxId p.2 w₂) (fun handle w₃ _ => ?_)
              fun _ _ _ => trivial
            cases handle with
            | some h => trivial
            | none => exact safe_replaceRuntime hcond cfg chatId _ w₃
      · exact safe_replaceRuntime hcond cfg chatId _ w₁

/-! ## §7. Idle runtimes. -/

theorem safe_pauseRuntime (row : SandboxRuntime) (sandboxId : Nat) {w : World}
    (hrow : Known sandboxId row.operationId w) :
    Safe (guard allow) (pauseRuntime row sandboxId)
      (fun r w => r = .error .notFound → Absent row.operationId w) w := by
  refine Safe.bind (R := fun r w => r = .error .notFound → Absent row.operationId w)
    (safe_withTimeout (R := fun r w => r = .error .notFound → Absent row.operationId w) ?_
      (fun _ _ h => h) ?_) (fun _ w₁ _ => ?_) fun e w₁ h => by simpa using h
  · refine safe_request _ hrow (fact_known _ _).stable guard_refl ?_ ?_ ?_ ?_ fun _ _ _ => trivial
    · intro w₁ d a w₂ hi _ _ hs
      simp only [Option.map_eq_some_iff, Prod.mk.injEq, true_and] at hs
      obtain ⟨b, hb, rfl⟩ := hs
      have hsame : SameBox b { b with state := .paused } :=
        ⟨rfl, rfl, rfl, fun hg => absurd hg (box?_mem hb).2.2⟩
      obtain ⟨h1, h2⟩ := drift_box hi hb hsame
      refine ⟨h1, h2.known, by simp, ?_⟩
      rintro e he ⟨⟩
      cases he
    · exact fun w₁ hi hk hm _ => hi.absent_of_missing hk hm
    · rintro w₁ e _ _ (he | rfl) ⟨⟩
      cases he
    · rintro w₁ w₂ e hi _ _ hd he
      obtain rfl := Option.some.inj hd
      refine ⟨hi, keepsKnown_refl _, ?_⟩
      rintro ⟨⟩
      cases he
  · intro e w₁ h hr
    split at hr
    · cases hr
    · exact h hr
  · -- from here on no database operation says `NotFound`
    refine Safe.bind (safe_change fact_true (sameOwner_state .paused) trivial) (fun row' w₂ _ => ?_) ?_
    · refine Safe.bind (safe_settlePaused fact_true row' trivial) (fun _ _ _ => by simp) ?_
      rintro e w₃ ⟨_, h⟩ ⟨⟩
      exact absurd rfl h
    · rintro e w₂ ⟨_, h, _⟩ ⟨⟩
      exact absurd rfl h

theorem safe_pause (hcond : OwnRetires allow)
    (row : SandboxRuntime) {w : World} (hrow : RowFact row w) :
    Safe (guard allow) (pause row) (fun _ _ => True) w := by
  unfold pause
  split
  · exact safe_retire hcond row.chatId w
  · split
    · trivial
    · rename_i id hid
      refine Safe.tryCatch (R := fun r w => r = .error .notFound → Absent row.operationId w) ?_
        (fun _ _ _ => trivial) fun e w₁ h => ?_
      · exact Safe.bind (safe_pauseRuntime row id (hrow id hid)) (fun _ _ _ => by simp)
          fun e w₁ h => by simpa using h
      · split
        · rename_i he
          exact Safe.bind (safe_remove row false (h (by rw [he]))) (fun _ _ _ => trivial)
            fun _ _ _ => trivial
        · split <;> trivial

theorem safe_reconcile (hcond : OwnRetires allow)
    (cfg : Config) (now : Nat) (shutdown : Bool) (row : SandboxRuntime) (chat : Option Chat) {w : World}
    (hrow : RowFact row w) :
    Safe (guard allow) (reconcile cfg now shutdown row chat) (fun _ _ => True) w := by
  refine safe_catchException (R := fun _ _ => True) ?_ (fun _ _ _ => trivial)
    (fun _ _ _ _ => trivial) fun _ _ _ _ => trivial
  split
  · exact Safe.bind (safe_retire hcond row.chatId w) (fun _ _ _ => trivial) fun _ _ _ => trivial
  · split
    · trivial
    · refine Safe.bind (safe_state row none hrow) (fun p w₁ h₁ => ?_) fun _ _ _ => trivial
      obtain ⟨polled, row'⟩ := p
      by_cases hp : polled = .running
      · subst hp
        refine Safe.bind (safe_quiet (fact_row row').drift (keeps_memory' quiet_refl) (h₁ row' rfl))
          (fun idle w₂ h₂ => ?_) fun _ _ _ => trivial
        split
        · exact Safe.bind (safe_pause hcond row' h₂) (fun _ _ _ => trivial) fun _ _ _ => trivial
        · trivial
      · simp only [ne_eq, hp, not_false_eq_true, if_true]
        trivial

/-- **The maintenance pass** keeps the ownership. -/
theorem safe_maintainRuntimes
    (hcond : OwnRetires allow)
    (cfg : Config) (busy : List Nat) (shutdown : Bool) (w : World) :
    Safe (guard allow) (maintainRuntimes cfg busy shutdown) (fun _ _ => True) w := by
  refine Safe.bind (safe_quiet fact_true.drift (keeps_memory' quiet_refl) trivial)
    (fun now w₁ _ => ?_) fun _ _ _ => trivial
  refine Safe.bind (R := fun r w => ∀ rows, r = .ok rows → ∀ x ∈ rows, RowFact x.1 w) ?_
    (fun rows w₂ hrows => ?_) fun _ _ _ => trivial
  · refine safe_query _ trivial fact_true.stable guard_refl ?_ (fun _ _ _ _ _ h => by cases h) fun _ _ _ => trivial
    rintro w₂ hi _ rows ⟨⟩ x hx id hid
    simp only [Database.reconcilable, List.mem_filter, List.mem_map] at hx
    obtain ⟨⟨r, hr, rfl⟩, _⟩ := hx
    exact hi.located r hr id hid
  · -- the rows were read at once; what they say of their sandboxes stays true
    have hfact : Fact fun w => ∀ x ∈ rows, RowFact x.1 w :=
      Fact.forall fun x => Fact.imp (fact_row x.1)
    refine Safe.forEach (I := fun w => ∀ x ∈ rows, RowFact x.1 w) rows w₂ (hrows rows rfl) ?_
      fun _ _ => trivial
    rintro ⟨row, chat⟩ hx w₃ hI
    have hbody : Safe (guard allow) (if row.chatId ∈ busy then pure () else
        onProject row.chatId (reconcile cfg now shutdown row chat)) (fun _ _ => True) w₃ := by
      split
      · trivial
      · exact (safe_relabel _ _ _ _).mpr
          (safe_reconcile (hcond.onProject _) cfg now shutdown row chat (hI _ hx))
    refine (hbody.frame hfact.stable (fun w w' _ _ hk h x hx id hid => hk id _ (h x hx id hid))
      hI).mono fun r w₄ h₄ => ?_
    cases r with
    | ok _ => exact h₄.2
    | error e => trivial

/-! ## §8. All calls. -/

theorem sameOwner_invalidated : SameOwner fun r => { r with reusable := false } :=
  ⟨fun _ => rfl, fun _ => rfl, fun _ => rfl⟩

theorem safe_invalidate (chatId : Nat) (w : World) :
    Safe (guard allow) (invalidate chatId) (fun _ _ => True) w := by
  refine Safe.bind (safe_getRuntime chatId w) (fun row w₁ _ => ?_) fun _ _ _ => trivial
  cases row with
  | none => trivial
  | some row =>
      exact Safe.bind (safe_change fact_true sameOwner_invalidated trivial) (fun _ _ _ => trivial)
        fun _ _ _ => trivial

/-- `mark_reusable` keeps operation and sandbox of the row. -/
theorem markReusable_owned {chatId revisionId : Nat} {w w' : World} (hw : Owned w)
    (h : markReusable chatId revisionId w = .ok w') : Owned w' ∧ w'.e2b = w.e2b := by
  unfold markReusable at h
  split at h
  · cases h
  · split at h
    · rename_i r hr
      simp only [Option.filter_eq_some_iff] at hr
      obtain ⟨hget, _⟩ := hr
      have hc : r.chatId = chatId := Table.key_of_get? hget
      obtain rfl := Except.ok.inj h
      have hget' : w.db.runtimes.get? r.chatId = some r := by rw [hc, hget]
      exact ⟨owned_setRuntime hw hget' rfl rfl (.inl rfl), rfl⟩
    · cases h

theorem safe_markReusableCall (chatId revisionId : Nat) (w : World) :
    Safe (guard allow) (markReusableCall chatId revisionId) (fun _ _ => True) w := by
  refine safe_transaction _ trivial fact_true.stable guard_refl ?_ (fun _ _ _ _ _ => trivial) fun _ _ _ => trivial
  intro w₁ a w₂ hi _ _ hbody
  cases hm : markReusable chatId revisionId w₁ with
  | ok w' =>
      simp only [hm, Except.map, Except.ok.injEq, Prod.mk.injEq, true_and] at hbody
      subst hbody
      obtain ⟨h1, h2⟩ := markReusable_owned hi hm
      exact ⟨h1, keepsKnown_boxes h2, trivial, fun _ _ => trivial⟩
  | error e => simp [hm, Except.map] at hbody

theorem safe_withRow {f : SandboxRuntime → Act Unit} (chatId : Nat)
    (hf : ∀ row w, RowFact row w → Safe (guard allow) (f row) (fun _ _ => True) w) (w : World) :
    Safe (guard allow) (withRow chatId f) (fun _ _ => True) w := by
  refine Safe.bind (safe_getRuntime chatId w) (fun row w₁ hrow => ?_) fun _ _ _ => trivial
  cases row with
  | none => trivial
  | some row => exact hf row w₁ (hrow row rfl).2

/-- **Every call** keeps the ownership. -/
theorem safe_callBody (hcond : OwnRetires allow)
    (cfg : Config) (call : RuntimeCall) (w : World) :
    Safe (guard allow) (callBody cfg call) (fun _ _ => True) w := by
  cases call with
  | acquire chatId revision =>
      exact Safe.bind (safe_acquire hcond cfg chatId revision w) (fun _ _ _ => trivial)
        fun _ _ _ => trivial
  | retire chatId =>
      exact Safe.bind (safe_retire hcond chatId w) (fun _ _ _ => trivial) fun _ _ _ => trivial
  | state chatId =>
      refine safe_withRow chatId (fun row w hrow => ?_) w
      exact Safe.bind (safe_state row none hrow) (fun _ _ _ => trivial) fun _ _ _ => trivial
  | pause chatId =>
      refine safe_withRow chatId (fun row w hrow => ?_) w
      exact Safe.bind (safe_pause hcond row hrow) (fun _ _ _ => trivial) fun _ _ _ => trivial
  | maintain busy shutdown => exact safe_maintainRuntimes hcond cfg busy shutdown w
  | invalidate chatId => exact safe_invalidate chatId w
  | markReusable chatId revisionId => exact safe_markReusableCall chatId revisionId w

/-! ## §9. All runs. -/

/-- The rows and what E2B does by itself, as a discipline of one slot. -/
def ownership : Discipline Unit RuntimeCall World Label where
  inv := Owned
  guar
    | some _ => KeepsKnown
    | none => Drift

/-- `retire` works on rows whose sandbox it knows. -/
def RetiresOwnHandles (_ : RuntimeCall) (l : Label) (_ : Answer Exc Datum) (w : World) : Prop :=
  ∀ row, l.op = .retire (some row) → RetiresOwn row w

theorem ownership_at (sys : System Unit RuntimeCall World Label Exc Datum)
    (cond : RuntimeCall → Label → Answer Exc Datum → World → Prop) (k : RuntimeCall) :
    ownership.at sys cond () k = guard fun l a w => sys.deliver k l a w = true ∧ cond k l a w := by
  have hrely : (fun s s' => ∃ u : Option Unit, u ≠ some () ∧ ownership.guar u s s') = Drift := by
    funext s s'
    refine propext ⟨?_, fun h => ⟨none, by simp, h⟩⟩
    rintro ⟨u, hu, h⟩
    cases u with
    | none => exact h
    | some u => exact absurd rfl hu
  simp only [Discipline.at, guard, hrely]
  rfl

variable {deliver : Label → Answer Exc Datum → World → Bool}

/-- Every call, every move of E2B and every crash keeps the ownership. -/
theorem ownership_sound (cfg : Config) :
    Sound (calls cfg deliver) RetiresOwnHandles ownership fun _ _ _ _ => True where
  env _ _ _ hi h := owned_environment hi h
  enter t k w w' hi h := by
    obtain rfl := Option.some.inj h
    refine ⟨hi, keepsKnown_refl _, ?_⟩
    rw [ownership_at]
    exact safe_callBody (fun l row an w hl hal => hal.2 row hl) cfg k _
  crash _ w w' hi h := by
    obtain rfl := Option.some.inj h
    exact owned_quiet hi ⟨rfl, rfl, Nat.le_refl _⟩
  post _ _ _ := Guard.stable_true

/-- Nothing exists yet, and nothing was asked for. -/
structure NoSandboxes (w : World) : Prop where
  boxes : w.e2b.boxes = .empty
  pending : w.e2b.pending = []
  runtimes : w.db.runtimes = .empty

theorem NoSandboxes.owned {w : World} (h : NoSandboxes w) : Owned w := by
  obtain ⟨hb, hp, hr⟩ := h
  constructor <;> simp [hb, hp, hr, Table.empty]

/-- No sandbox without its row, and no two sandboxes of a project. -/
structure SandboxesOwned (w : World) : Prop where
  /-- A sandbox that exists belongs to the row of its project. -/
  owned : ∀ b ∈ w.e2b.boxes.rows, b.state ≠ .gone →
    ∃ r, w.db.runtimes.get? b.chatId = some r ∧ r.operationId = b.operation
  /-- So does one that a lost create request may still bring up. -/
  requested : ∀ operation chatId spendId, .create operation chatId spendId ∈ w.e2b.pending →
    ∃ r, w.db.runtimes.get? chatId = some r ∧ r.operationId = operation
  single : ∀ b ∈ w.e2b.boxes.rows, ∀ b' ∈ w.e2b.boxes.rows, b.state ≠ .gone → b'.state ≠ .gone →
    b.chatId = b'.chatId → b = b'

theorem Owned.sandboxesOwned {w : World} (h : Owned w) : SandboxesOwned w where
  owned := h.row
  requested op c sp hp := by
    obtain ⟨⟨r, hr, hop, _⟩, _⟩ := h.pending op c sp hp
    exact ⟨r, hr, hop⟩
  single b hb b' hb' halive halive' hc := by
    obtain ⟨r, hr, hop⟩ := h.row b hb halive
    obtain ⟨r', hr', hop'⟩ := h.row b' hb' halive'
    rw [← hc, hr] at hr'
    obtain rfl := Option.some.inj hr'
    exact h.unique b hb b' hb' (hop.symm.trans hop')

/-- **No orphaned and no duplicate sandbox**, after any sequence of calls with
any answers, as long as no `retire` takes the handle of an earlier operation
for that of a row without a sandbox id. -/
theorem sandboxes_owned (cfg : Config) {w : World} (hw : NoSandboxes w)
    {p : Pool Unit RuntimeCall World Label Exc Datum}
    (h : (calls cfg fun _ _ _ => true).Reaches RetiresOwnHandles (Pool.start w) p) :
    SandboxesOwned p.shared :=
  ((ownership_sound cfg).reaches (Sound.good_start hw.owned) h).1.sandboxesOwned

/-- Whether `retire` works on a row whose sandbox it knows, as a test. -/
def retiresOwnHandles (_ : RuntimeCall) (l : Label) (_ : Answer Exc Datum) (w : World) : Bool :=
  match l.op with
  | .retire (some row) =>
      row.sandboxId.isSome || (w.mem.handle? row.chatId).isNone
  | _ => true

theorem retiresOwnHandles_sound (k : RuntimeCall) (l : Label) (a : Answer Exc Datum) (w : World)
    (h : retiresOwnHandles k l a w = true) : RetiresOwnHandles k l a w := by
  intro row hrow hnone handle hhandle
  simp [retiresOwnHandles, hrow, hnone, hhandle] at h

/-- The awaits of `n` steps succeed. -/
def succeed (n : Nat) : List (Async.Event Unit RuntimeCall Exc Datum) :=
  List.replicate n (.resume () (.ok .none))

/-- The answer of E2B to a create request. -/
def newMachine : Datum := .machine 1 1024 0 []

/-- `acquire` creates a sandbox. -/
def acquireNew : List (Async.Event Unit RuntimeCall Exc Datum) :=
  .enter () (.acquire 2 none) :: succeed 5 ++ .resume () (.ok newMachine) :: succeed 4

/-- `acquire`, then `retire`. -/
def acquireRetire : List (Async.Event Unit RuntimeCall Exc Datum) :=
  acquireNew ++ .enter () (.retire 2) :: succeed 7

def plainCalls : System Unit RuntimeCall World Label Exc Datum :=
  calls plainConfig fun _ _ _ => true

/-- The pool after `events` that pass the test `ok`, from the fresh worker. -/
def after (ok : RuntimeCall → Label → Answer Exc Datum → World → Bool)
    (events : List (Async.Event Unit RuntimeCall Exc Datum)) :
    Option (Pool Unit RuntimeCall World Label Exc Datum) :=
  plainCalls.run ok events (Pool.start plainWorld)

theorem plainWorld_noSandboxes : NoSandboxes plainWorld := ⟨rfl, rfl, rfl⟩

theorem sandboxes_owned_acquireRetire :
    ∃ p, after retiresOwnHandles acquireRetire = some p ∧ SandboxesOwned p.shared := by
  have hrun : (after retiresOwnHandles acquireRetire).isSome = true := by decide
  obtain ⟨p, hp⟩ := Option.isSome_iff_exists.mp hrun
  exact ⟨p, hp, sandboxes_owned plainConfig plainWorld_noSandboxes
    (System.run_reaches retiresOwnHandles_sound _ hp)⟩

/-- A handle outlives its row: the deletion commits, but its answer is lost.
The next `acquire` creates a sandbox whose answer is lost, and `retire` kills
the old handle's sandbox in its place. -/
def staleHandle : List (Async.Event Unit RuntimeCall Exc Datum) :=
  acquireNew ++
  .enter () (.retire 2) :: succeed 5 ++ .resume () (.lost .database .none) ::
  .enter () (.acquire 2 none) :: succeed 5 ++ .resume () (.late .sandbox .none) ::
  .env (.serve 0 newMachine) ::
  .enter () (.retire 2) :: succeed 7

/-- A sandbox exists whose project has no row. -/
def orphan (w : World) : Bool :=
  w.e2b.boxes.rows.any fun b => b.state ≠ .gone && (w.db.runtimes.get? b.chatId).isNone

theorem not_owned_of_orphan {w : World} (h : orphan w = true) : ¬ SandboxesOwned w := by
  intro howned
  simp only [orphan, List.any_eq_true, Bool.and_eq_true, decide_eq_true_eq,
    Option.isNone_iff_eq_none] at h
  obtain ⟨b, hb, halive, hnone⟩ := h
  obtain ⟨r, hr, _⟩ := howned.owned b hb halive
  simp [hnone] at hr

/-- Without the condition a running sandbox is left without a row. -/
theorem stale_handle_orphans_sandbox :
    ¬ ∀ p, plainCalls.Reaches (fun _ _ _ _ => True) (Pool.start plainWorld) p →
      SandboxesOwned p.shared := by
  intro hall
  have hrun : (after (fun _ _ _ _ => true) staleHandle).any (fun p => orphan p.shared) = true := by
    decide
  obtain ⟨p, hp, horphan⟩ := (Option.any_eq_true _ _).mp hrun
  exact not_owned_of_orphan horphan (hall p (System.run_reaches (fun _ _ _ _ _ => trivial) _ hp))

end WebBuilder.Runtime
