/-
  WebBuilder.Model.SandboxFrames — what the calls on a sandbox can touch.

  A sandbox step touches the row, the handle and the leases of one project,
  and the sandboxes.  Every coroutine of `Model.Sandbox` consists of such
  steps on the project it is called for.  Most of them also let paused
  sandboxes sleep (`TendStep`): only a poll or a pause turns a row `paused`,
  only `connect` wakes a sandbox, and only a new one is put into its row.
-/
import WebBuilder.Model.Frames

namespace WebBuilder

open WebBuilder.Async WebBuilder.Store WebBuilder.Budget

variable {α : Type}

/-! ## §1. Steps on the sandbox of one project. -/

/-- Sandboxes that exist already keep their project and their files. -/
def KeepsFiles (w w' : World) : Prop :=
  ∀ id b, id < w.nextId → w.e2b.boxes.get? id = some b →
    ∃ b', w'.e2b.boxes.get? id = some b' ∧ b'.chatId = b.chatId ∧ b'.files = b.files
      ∧ b'.unsettled = b.unsettled

theorem keepsFiles_of_eq {w w' : World} (h : w'.e2b.boxes = w.e2b.boxes) : KeepsFiles w w' :=
  fun _ b _ hb => ⟨b, h ▸ hb, rfl, rfl, rfl⟩

/-- No sandbox that exists already wakes up. -/
def Asleep (w w' : World) : Prop :=
  ∀ id b', id < w.nextId → w'.e2b.boxes.get? id = some b' → b'.state = .running →
    ∃ b, w.e2b.boxes.get? id = some b ∧ b.state = .running

theorem asleep_of_eq {w w' : World} (h : w'.e2b.boxes = w.e2b.boxes) : Asleep w w' :=
  fun _ b _ hb hrun => ⟨b, h ▸ hb, hrun⟩

/-- A step that touches the row, the handle and the leases of the project `c`,
and the sandboxes.  It makes no row reusable. -/
structure SandboxStep (c : Nat) (st : WStep) : Prop where
  plain : st.op.op.isPlain = true
  now : st.after.now = st.before.now
  nextId : st.before.nextId ≤ st.after.nextId
  db : st.after.db = { st.before.db with runtimes := st.after.db.runtimes, spend := st.after.db.spend }
  mem : st.after.mem = { st.before.mem with handles := st.after.mem.handles, lastUsed := st.after.mem.lastUsed }
  store : st.after.store = st.before.store
  rows : ∀ c', c' ≠ c → st.after.db.runtimes.get? c' = st.before.db.runtimes.get? c'
  handles : ∀ c', c' ≠ c → st.after.mem.handles.get? c' = st.before.mem.handles.get? c'
  reusable : ∀ r', st.after.db.runtimes.get? c = some r' → r'.reusable = true →
    ∃ r, st.before.db.runtimes.get? c = some r ∧ r.operationId = r'.operationId ∧ r.reusable = true
  files : KeepsFiles st.before st.after

/-- A step that also lets paused sandboxes sleep: no row turns `paused`, takes
a sandbox or wakes one up. -/
structure TendStep (c : Nat) (st : WStep) : Prop extends SandboxStep c st where
  paused : ∀ r', st.after.db.runtimes.get? c = some r' → r'.state = .paused →
    ∃ r, st.before.db.runtimes.get? c = some r ∧ r.state = .paused
  located : ∀ r' id, st.after.db.runtimes.get? c = some r' → r'.sandboxId = some id →
    ∃ r, st.before.db.runtimes.get? c = some r ∧ r.sandboxId = some id
  asleep : Asleep st.before st.after
  pending : ∀ p ∈ st.after.e2b.pending, p ∈ st.before.e2b.pending ∨ ∃ op c' s, p = .create op c' s

theorem sandboxStep_scopeFree (c : Nat) : ScopeFree (SandboxStep c) :=
  fun _ _ h => ⟨h.plain, h.now, h.nextId, h.db, h.mem, h.store, h.rows, h.handles, h.reusable, h.files⟩

theorem tendStep_scopeFree (c : Nat) : ScopeFree (TendStep c) :=
  fun st scopes h => ⟨sandboxStep_scopeFree c st scopes h.toSandboxStep, h.paused, h.located, h.asleep, h.pending⟩

section Sandbox

variable {c : Nat} {op : Op} {scopes : List Scope} {a : Answer Exc Datum} {e : Option Exc} {w : World}

/-- A step that leaves rows and handles alone. -/
theorem SandboxStep.of_rows {w' : World} (hop : op.isPlain = true) (hnow : w'.now = w.now)
    (hid : w.nextId ≤ w'.nextId) (hdb : w'.db = { w.db with spend := w'.db.spend })
    (hmem : w'.mem = w.mem) (hstore : w'.store = w.store) (hfiles : KeepsFiles w w') :
    SandboxStep c ⟨⟨op, scopes⟩, a, e, w, w'⟩ := by
  have hrows : w'.db.runtimes = w.db.runtimes := by rw [hdb]
  refine ⟨hop, hnow, hid, ?_, ?_, hstore, fun c' _ => ?_, fun c' _ => ?_, ?_, hfiles⟩
  · show w'.db = { w.db with runtimes := w'.db.runtimes, spend := w'.db.spend }
    rw [hrows]
    exact hdb
  · show w'.mem = { w.mem with handles := w'.mem.handles, lastUsed := w'.mem.lastUsed }
    rw [hmem]
  · show w'.db.runtimes.get? c' = _
    rw [hrows]
  · show w'.mem.handles.get? c' = _
    rw [hmem]
  · intro r' hr' hreuse
    exact ⟨r', hrows ▸ hr', rfl, hreuse⟩

theorem TendStep.of_rows {w' : World} (hop : op.isPlain = true) (hnow : w'.now = w.now)
    (hid : w.nextId ≤ w'.nextId) (hdb : w'.db = { w.db with spend := w'.db.spend })
    (hmem : w'.mem = w.mem) (hstore : w'.store = w.store) (hfiles : KeepsFiles w w')
    (hasleep : Asleep w w')
    (hpending : ∀ p ∈ w'.e2b.pending, p ∈ w.e2b.pending ∨ ∃ op c' s, p = .create op c' s) :
    TendStep c ⟨⟨op, scopes⟩, a, e, w, w'⟩ := by
  have hrows : w'.db.runtimes = w.db.runtimes := by rw [hdb]
  exact ⟨.of_rows hop hnow hid hdb hmem hstore hfiles, fun r' h hp => ⟨r', hrows ▸ h, hp⟩,
    fun r' id h hs => ⟨r', hrows ▸ h, hs⟩, hasleep, hpending⟩

theorem TendStep.still (hop : op.isPlain = true) : TendStep c ⟨⟨op, scopes⟩, a, e, w, w⟩ :=
  .of_rows hop rfl (Nat.le_refl _) rfl rfl rfl (keepsFiles_of_eq rfl) (asleep_of_eq rfl) fun _ => .inl

/-- A step on leases. -/
theorem TendStep.spend {n : Nat} {spend : Ledger} (hop : op.isPlain = true) (hn : w.nextId ≤ n) :
    TendStep c ⟨⟨op, scopes⟩, a, e, w, { w with nextId := n, db := { w.db with spend } }⟩ :=
  .of_rows hop rfl hn rfl rfl rfl (keepsFiles_of_eq rfl) (asleep_of_eq rfl) fun _ => .inl

theorem keepsFiles_setBox {b b' : Box} (hb : w.e2b.boxes.get? b.id = some b)
    (hid : b'.id = b.id) (hchat : b'.chatId = b.chatId) (hfiles : b'.files = b.files)
    (huns : b'.unsettled = b.unsettled) : KeepsFiles w (w.setBox b') := by
  intro id x _ hx
  show ∃ y, (w.e2b.boxes.put b').get? id = some y ∧ _
  rw [Table.get?_put]
  by_cases hk : id = key b'
  · rw [if_pos hk]
    have hx' : x = b := by
      rw [hk, key_box, hid, hb] at hx
      exact (Option.some.inj hx).symm
    exact ⟨b', rfl, hx' ▸ hchat, hx' ▸ hfiles, hx' ▸ huns⟩
  · rw [if_neg hk]
    exact ⟨x, hx, rfl, rfl, rfl⟩

theorem asleep_setBox {b' : Box} (hstate : b'.state ≠ .running) : Asleep w (w.setBox b') := by
  intro id x _ hx hrun
  have hx : (w.e2b.boxes.put b').get? id = some x := hx
  rw [Table.get?_put] at hx
  split at hx
  · exact absurd (Option.some.inj hx ▸ hrun) hstate
  · exact ⟨x, hx, hrun⟩

/-- A step on one existing sandbox, which does not run afterwards. -/
theorem TendStep.setBox {b b' : Box} (hop : op.isPlain = true) (hb : w.e2b.boxes.get? b.id = some b)
    (hid : b'.id = b.id) (hchat : b'.chatId = b.chatId) (hfiles : b'.files = b.files)
    (huns : b'.unsettled = b.unsettled) (hstate : b'.state ≠ .running) :
    TendStep c ⟨⟨op, scopes⟩, a, e, w, w.setBox b'⟩ :=
  .of_rows hop rfl (Nat.le_refl _) rfl rfl rfl (keepsFiles_setBox hb hid hchat hfiles huns)
    (asleep_setBox hstate) fun _ => .inl

/-- A step that writes the row of the project. -/
theorem SandboxStep.setRow {row : SandboxRuntime} {n : Nat} (hop : op.isPlain = true)
    (hc : row.chatId = c) (hn : w.nextId ≤ n) (hreuse : row.reusable = true →
      ∃ r, w.db.runtimes.get? c = some r ∧ r.operationId = row.operationId ∧ r.reusable = true) :
    SandboxStep c ⟨⟨op, scopes⟩, a, e, w, { w with nextId := n, db := w.db.setRuntime row }⟩ := by
  refine ⟨hop, rfl, hn, rfl, rfl, rfl, fun c' hc' => ?_, fun _ _ => rfl, fun r' hr' hr'' => ?_,
    keepsFiles_of_eq rfl⟩
  · exact Table.get?_put_ne _ (show c' ≠ row.chatId from hc ▸ hc')
  · have hget : (w.db.runtimes.put row).get? c = some r' := hr'
    rw [← hc, ← key_runtime row, Table.get?_put_self, Option.some.injEq] at hget
    subst hget
    exact hreuse hr''

theorem get?_setRuntime_self {row r' : SandboxRuntime} {n : Nat} (hc : row.chatId = c)
    (h : ({ w with nextId := n, db := w.db.setRuntime row } : World).db.runtimes.get? c = some r') :
    r' = row := by
  have hget : (w.db.runtimes.put row).get? c = some r' := h
  rw [← hc, ← key_runtime row, Table.get?_put_self, Option.some.injEq] at hget
  exact hget.symm

theorem TendStep.setRow {row : SandboxRuntime} {n : Nat} (hop : op.isPlain = true)
    (hc : row.chatId = c) (hn : w.nextId ≤ n) (hreuse : row.reusable = true →
      ∃ r, w.db.runtimes.get? c = some r ∧ r.operationId = row.operationId ∧ r.reusable = true)
    (hpaused : row.state = .paused → ∃ r, w.db.runtimes.get? c = some r ∧ r.state = .paused)
    (hlocated : ∀ id, row.sandboxId = some id →
      ∃ r, w.db.runtimes.get? c = some r ∧ r.sandboxId = some id) :
    TendStep c ⟨⟨op, scopes⟩, a, e, w, { w with nextId := n, db := w.db.setRuntime row }⟩ :=
  ⟨.setRow hop hc hn hreuse, fun _ h hp => hpaused (get?_setRuntime_self hc h ▸ hp),
    fun _ id h hs => hlocated id (get?_setRuntime_self hc h ▸ hs), asleep_of_eq rfl, fun _ => .inl⟩

/-- A step that deletes rows of the project only. -/
theorem TendStep.eraseRow {cond : SandboxRuntime → Bool} (hop : op.isPlain = true)
    (hc : ∀ r, cond r = true → r.chatId = c) :
    TendStep c ⟨⟨op, scopes⟩, a, e, w, { w with db := { w.db with
      runtimes := w.db.runtimes.eraseIf cond } }⟩ := by
  have hold : ∀ r', (w.db.runtimes.eraseIf cond).get? c = some r' → w.db.runtimes.get? c = some r' := by
    intro r' h
    rw [Table.get?_eraseIf, Option.filter_eq_some_iff] at h
    exact h.1
  refine ⟨⟨hop, rfl, Nat.le_refl _, rfl, rfl, rfl, fun c' hc' => ?_, fun _ _ => rfl,
      fun r' h h' => ⟨r', hold r' h, rfl, h'⟩, keepsFiles_of_eq rfl⟩,
    fun r' h hp => ⟨r', hold r' h, hp⟩, fun r' id h hs => ⟨r', hold r' h, hs⟩, asleep_of_eq rfl,
    fun _ => .inl⟩
  show (w.db.runtimes.eraseIf cond).get? c' = _
  rw [Table.get?_eraseIf]
  cases hget : w.db.runtimes.get? c' with
  | none => rfl
  | some r =>
      have hne : cond r ≠ true := fun h => hc' ((Table.key_of_get? hget).symm.trans (hc r h))
      simp [hne]

/-- A step on the handle of the project. -/
theorem TendStep.handle {m : Memory} (hop : op.isPlain = true)
    (hm : m = { w.mem with handles := m.handles, lastUsed := m.lastUsed })
    (hh : ∀ c', c' ≠ c → m.handles.get? c' = w.mem.handles.get? c') :
    TendStep c ⟨⟨op, scopes⟩, a, e, w, { w with mem := m }⟩ :=
  ⟨⟨hop, rfl, Nat.le_refl _, rfl, hm, rfl, fun _ _ => rfl, hh, fun r' h h' => ⟨r', h, rfl, h'⟩,
    keepsFiles_of_eq rfl⟩, fun r' h hp => ⟨r', h, hp⟩, fun r' _ h hs => ⟨r', h, hs⟩, asleep_of_eq rfl,
    fun _ => .inl⟩

end Sandbox

/-! ## §2. Leases, rows and handles. -/

theorem each_getRuntime (c : Nat) :
    (getRuntime c).Each (TendStep c) fun r => ∀ row, r = .ok (some row) → row.chatId = c :=
  each_query' (fun _ _ _ => .still rfl) (fun _ _ h => Table.key_of_get? (Except.ok.inj h))
    fun _ _ h => by cases h

theorem all_settleRuntime {c : Nat} (spendId : Option Nat) (rejected : Bool) :
    (settleRuntime spendId rejected).All (TendStep c) := by
  unfold settleRuntime settleSpend
  split
  · refine all_transaction (fun _ _ _ => .still rfl) fun _ _ w v w' h => ?_
    split at h
    · simp only [Except.ok.injEq, Prod.mk.injEq, true_and] at h
      subst h
      exact .spend (n := w.nextId) rfl (Nat.le_refl _)
    · cases h
  · trivial

theorem all_reserveRuntime {c : Nat} (cfg : Config) (chatId : Nat) (previous : Option Nat)
    (info : Option SandboxInfo) : (reserveRuntime cfg chatId previous info).All (TendStep c) := by
  unfold reserveRuntime
  refine All.bind (all_query fun _ _ _ => .still rfl) fun userId => ?_
  split
  · trivial
  · split
    · trivial
    · refine All.bind (all_memory fun _ _ => .still rfl) fun duration => ?_
      split
      · trivial
      · refine all_transaction (fun _ _ _ => .still rfl) fun _ _ w v w' h => ?_
        split at h
        · simp only [Except.ok.injEq, Prod.mk.injEq] at h
          exact h.2 ▸ .spend (n := w.nextId + 1) rfl (Nat.le_succ _)
        · cases h

theorem all_confirmLease {c : Nat} (cfg : Config) (spendId : Nat) (info : SandboxInfo) :
    (confirmLease cfg spendId info).All (TendStep c) := by
  unfold confirmLease
  refine All.bind (all_transaction (fun _ _ _ => .still rfl) fun _ _ w v w' h => ?_) fun exceeded => ?_
  · split at h
    · simp only [Except.ok.injEq, Prod.mk.injEq] at h
      exact h.2 ▸ .spend (n := w.nextId) rfl (Nat.le_refl _)
    · cases h
  · split <;> trivial

/-- The values of a `change` that keeps whose row it is. -/
structure SameRow (values : SandboxRuntime → SandboxRuntime) : Prop where
  chatId : ∀ r, (values r).chatId = r.chatId
  operationId : ∀ r, (values r).operationId = r.operationId
  reusable : ∀ r, (values r).reusable = true → r.reusable = true

/-- The values of a `change` that pauses no row and gives it no sandbox. -/
structure MildRow (values : SandboxRuntime → SandboxRuntime) : Prop extends SameRow values where
  sandboxId : ∀ r, (values r).sandboxId = r.sandboxId
  state : ∀ r, (values r).state = .paused → r.state = .paused

theorem runtime?_eq_some {db : Database} {c op : Nat} {r : SandboxRuntime} (h : db.runtime? c op = some r) :
    db.runtimes.get? c = some r ∧ r.operationId = op := by
  simpa only [Database.runtime?, Option.filter_eq_some_iff, decide_eq_true_eq] using h

theorem each_change_of {S : WStep → Prop} {row : SandboxRuntime} {values : SandboxRuntime → SandboxRuntime}
    (hstill : ∀ a e w, S ⟨⟨.commit, []⟩, a, e, w, w⟩)
    (h : ∀ a e (w : World) r, w.db.runtimes.get? row.chatId = some r →
      S ⟨⟨.commit, []⟩, a, e, w, { w with nextId := w.nextId, db := w.db.setRuntime (values r) }⟩) :
    (change row values).Each S fun r => ∀ row', r = .ok row' → row' = values row := by
  refine each_transaction' (fun a e w => hstill a _ w) ?_ fun _ _ h => by cases h
  intro a e w v w' hbody
  split at hbody
  · rename_i r hr
    simp only [Except.ok.injEq, Prod.mk.injEq] at hbody
    obtain ⟨rfl, rfl⟩ := hbody
    exact ⟨h a e w r (runtime?_eq_some hr).1, fun row' h => (Except.ok.inj h).symm⟩
  · cases hbody

theorem each_change_same {row : SandboxRuntime} {values : SandboxRuntime → SandboxRuntime}
    (hv : SameRow values) :
    (change row values).Each (SandboxStep row.chatId) fun r => ∀ row', r = .ok row' → row' = values row := by
  refine each_change_of (fun _ _ _ => (TendStep.still rfl).toSandboxStep) fun a e w r hr => ?_
  exact .setRow rfl ((hv.chatId r).trans (Table.key_of_get? hr)) (Nat.le_refl _)
    fun h => ⟨r, hr, (hv.operationId r).symm, hv.reusable r h⟩

theorem each_change {row : SandboxRuntime} {values : SandboxRuntime → SandboxRuntime} (hv : MildRow values) :
    (change row values).Each (TendStep row.chatId) fun r => ∀ row', r = .ok row' → row' = values row := by
  refine each_change_of (fun _ _ _ => .still rfl) fun a e w r hr => ?_
  exact .setRow rfl ((hv.chatId r).trans (Table.key_of_get? hr)) (Nat.le_refl _)
    (fun h => ⟨r, hr, (hv.operationId r).symm, hv.reusable r h⟩)
    (fun h => ⟨r, hr, hv.state r h⟩) fun id h => ⟨r, hr, hv.sandboxId r ▸ h⟩

theorem all_setHandle (c id : Nat) : (setHandle c id).All (TendStep c) :=
  all_memory fun _ _ => .handle rfl rfl fun _ hc' => Table.get?_put_ne _ hc'

theorem all_forgetHandle (c : Nat) : (forgetHandle c).All (TendStep c) :=
  all_memory fun _ w => .handle rfl rfl fun c' hc' => by
    show (w.mem.handles.erase c).get? c' = _
    rw [Table.get?_erase, if_neg hc']

theorem all_deleteRuntime (row : SandboxRuntime) : (deleteRuntime row).All (TendStep row.chatId) := by
  refine all_transaction (fun _ _ _ => .still rfl) fun _ _ w v w' h => ?_
  simp only [Except.ok.injEq, Prod.mk.injEq, true_and] at h
  subst h
  exact .eraseRow rfl fun r hr => (of_decide_eq_true hr).1

theorem all_remove (row : SandboxRuntime) (rejected : Bool) :
    (remove row rejected).All (TendStep row.chatId) :=
  All.bind (all_settleRuntime _ _) fun _ =>
    All.bind (all_deleteRuntime row) fun _ => all_forgetHandle row.chatId

/-! ## §3. E2B requests. -/

theorem box?_eq_some {e2b : Provider} {id : Nat} {b : Box} (h : e2b.box? id = some b) :
    e2b.boxes.get? b.id = some b ∧ b.id = id ∧ b.state ≠ .gone := by
  simp only [Provider.box?, Option.filter_eq_some_iff, decide_eq_true_eq] at h
  have hid : b.id = id := Table.key_of_get? h.1
  exact ⟨hid ▸ h.1, hid, h.2⟩

theorem all_getInfo {c : Nat} (id : Nat) : (getInfo id).All (TendStep c) := by
  refine all_request (fun _ _ _ => .still rfl) ?_ ?_
  · intro a e d w v w' h
    simp only [Option.map_eq_some_iff, Prod.mk.injEq] at h
    obtain ⟨_, _, _, rfl⟩ := h
    exact .still rfl
  · intro a e w w' h
    obtain rfl := Option.some.inj h
    exact .still rfl

theorem all_killSandbox {c : Nat} (id : Nat) : (killSandbox id).All (TendStep c) := by
  refine all_request (fun _ _ _ => .still rfl) ?_ ?_
  · intro a e d w v w' h
    simp only [Option.some.injEq, Prod.mk.injEq, true_and] at h
    subst h
    unfold World.kill
    split
    · rename_i b hb
      have hid : b.id = id := Table.key_of_get? hb
      exact .setBox (b := b) rfl (hid ▸ hb) rfl rfl rfl rfl (by simp)
    · exact .still rfl
  · intro a e w w' h
    obtain rfl := Option.some.inj h
    exact .still rfl

theorem all_listSandboxes {c : Nat} (operation : Nat) : (listSandboxes operation).All (TendStep c) := by
  refine all_request (fun _ _ _ => .still rfl) ?_ ?_
  · intro a e d w v w' h
    split at h
    · simp only [Option.ite_none_right_eq_some, Option.some.injEq, Prod.mk.injEq] at h
      obtain ⟨_, _, rfl⟩ := h
      exact .still rfl
    · cases h
  · intro a e w w' h
    obtain rfl := Option.some.inj h
    exact .still rfl

theorem all_sandboxCommand {c : Nat} (id : Nat) : (sandboxCommand id).All (TendStep c) := by
  refine all_request (fun _ _ _ => .still rfl) ?_ ?_
  · intro a e d w v w' h
    split at h
    · simp only [Option.some.injEq, Prod.mk.injEq] at h
      obtain ⟨_, rfl⟩ := h
      exact .still rfl
    · cases h
  · intro a e w w' h
    obtain rfl := Option.some.inj h
    exact .still rfl

theorem all_pauseSandbox {c : Nat} (id : Nat) : (pauseSandbox id).All (TendStep c) := by
  refine all_request (fun _ _ _ => .still rfl) ?_ ?_
  · intro a e d w v w' h
    simp only [Option.map_eq_some_iff, Prod.mk.injEq] at h
    obtain ⟨b, hb, _, rfl⟩ := h
    exact .setBox rfl (box?_eq_some hb).1 rfl rfl rfl rfl (by simp)
  · intro a e w w' h
    obtain rfl := Option.some.inj h
    exact .still rfl

theorem all_createSandbox {c : Nat} (operation chatId spendId : Nat) :
    (createSandbox operation chatId spendId).All (TendStep c) := by
  refine all_request (fun _ _ _ => .still rfl) ?_ ?_
  · intro a e d w v w' h
    split at h
    · simp only [Option.some.injEq, Prod.mk.injEq] at h
      obtain ⟨_, rfl⟩ := h
      refine .of_rows rfl rfl (Nat.le_succ _) rfl rfl rfl ?_ ?_ fun _ => .inl
      · intro id b hlt hb
        refine ⟨b, ?_, rfl, rfl, rfl⟩
        exact (Table.get?_put_ne _ (Nat.ne_of_lt hlt)).trans hb
      · intro id b hlt hb hrun
        exact ⟨b, (Table.get?_put_ne _ (Nat.ne_of_lt hlt)).symm.trans hb, hrun⟩
    · cases h
  · intro a e w w' h
    obtain rfl := Option.some.inj h
    refine .of_rows rfl rfl (Nat.le_refl _) rfl rfl rfl (keepsFiles_of_eq rfl) (asleep_of_eq rfl) ?_
    intro p hp
    simp only [World.defer, List.mem_append, List.mem_singleton] at hp
    exact hp.imp_right fun h => ⟨_, _, _, h⟩

theorem all_connectSandbox {c : Nat} (id spendId : Nat) :
    (connectSandbox id spendId).All (SandboxStep c) := by
  have hstill : ∀ {op : Op} {a e} {w : World}, op.isPlain = true →
      SandboxStep c ⟨⟨op, []⟩, a, e, w, w⟩ := fun h => (TendStep.still h).toSandboxStep
  refine all_request (fun _ _ _ => hstill rfl) ?_ ?_
  · intro a e d w v w' h
    split at h
    · rename_i t b hb
      simp only [Option.some.injEq, Prod.mk.injEq] at h
      obtain ⟨_, rfl⟩ := h
      exact .of_rows rfl rfl (Nat.le_refl _) rfl rfl rfl
        (keepsFiles_setBox (box?_eq_some hb).1 rfl rfl rfl rfl)
    · cases h
  · intro a e w w' h
    obtain rfl := Option.some.inj h
    exact .of_rows rfl rfl (Nat.le_refl _) rfl rfl rfl (keepsFiles_of_eq rfl)

/-! ## §4. The calls. -/

theorem mildRow_retire : MildRow SandboxRuntime.toRetire :=
  ⟨⟨fun _ => rfl, fun _ => rfl, fun r h => by simp [SandboxRuntime.toRetire] at h⟩, fun _ => rfl,
    fun r h => by simp [SandboxRuntime.toRetire] at h⟩

theorem all_retireKill {c : Nat} (row : Option SandboxRuntime) (handle : Option Nat) :
    (retireKill row handle).All (TendStep c) := by
  have hkill : ∀ ids : List Nat, (Co.forEach ids fun id => withTimeout .request (killSandbox id)).All
      (TendStep c) :=
    fun ids => All.forEach ids fun id _ => all_withTimeout (tendStep_scopeFree c) (all_killSandbox id)
  unfold retireKill
  dsimp only
  split
  · refine All.bind (all_withTimeout (tendStep_scopeFree c) (all_listSandboxes _)) fun found => ?_
    split
    · trivial
    · exact All.bind (hkill _) fun _ => trivial
  · exact All.bind (hkill _) fun _ => trivial

theorem all_retire (c : Nat) : (retire c).All (TendStep c) := by
  refine Each.bind_all (each_getRuntime c) fun row hrow => ?_
  refine All.bind (each_memory (fun _ _ => .still rfl) fun _ => trivial) fun handle => ?_
  have hkill : ∀ row handle, (catchException (retireKill row handle) fun _ => pure false).All (TendStep c) :=
    fun row handle => all_catchException (all_retireKill row handle) fun _ => trivial
  split
  · rename_i r
    have hc : r.chatId = c := hrow r rfl
    subst hc
    refine Each.bind_all (each_change mildRow_retire) fun row' hrow' => ?_
    have hr' : row'.chatId = r.chatId := by rw [hrow' row' rfl]; rfl
    refine All.bind (hkill _ _) fun killed => ?_
    split
    · exact hr' ▸ All.bind (all_remove row' false) fun _ => trivial
    · trivial
  · refine All.bind (hkill _ _) fun killed => ?_
    split
    · exact All.bind (all_forgetHandle c) fun _ => trivial
    · trivial

theorem mildRow_settled : MildRow fun r => { r with spendId := none } :=
  ⟨⟨fun _ => rfl, fun _ => rfl, fun _ h => h⟩, fun _ => rfl, fun _ h => h⟩

/-- Closing the lease of a paused sandbox, and the row afterwards. -/
theorem each_settlePaused (row : SandboxRuntime) :
    (settlePaused row).Each (TendStep row.chatId) fun r => ∀ row', r = .ok row' → row'.chatId = row.chatId := by
  refine Each.bind (all_settleRuntime _ _) (fun _ _ => ?_) fun _ _ _ h => by cases h
  refine Each.bind (each_change mildRow_settled) (fun row' hrow' => ?_) fun _ _ _ h => by cases h
  have hc : row'.chatId = row.chatId := by rw [hrow' row' rfl]
  have hforget : (forgetHandle row'.chatId).All (TendStep row.chatId) := by
    rw [hc]
    exact all_forgetHandle row.chatId
  refine Each.bind hforget (fun _ _ => ?_) fun _ _ _ h => by cases h
  intro row'' h
  exact Except.ok.inj h ▸ hc

theorem sameRow_state (s : RuntimeState) : SameRow fun r => { r with state := s } :=
  ⟨fun _ => rfl, fun _ => rfl, fun _ h => h⟩

section Calls

variable {c : Nat}

theorem tend_sandbox {p : Act α} (hp : p.All (TendStep c)) : p.All (SandboxStep c) :=
  All.mono (fun _ h => h.toSandboxStep) hp

theorem all_recordState (row : SandboxRuntime) (info : Option SandboxInfo) :
    (recordState row info).Each (SandboxStep row.chatId)
      fun r => ∀ polled row', r = .ok (polled, row') → row'.chatId = row.chatId := by
  cases info with
  | none =>
      refine Each.bind (tend_sandbox (all_remove row false)) (fun _ _ => ?_) fun _ _ _ _ h => by cases h
      rintro polled row' ⟨⟩
      rfl
  | some i =>
      refine Each.bind (each_change_same (sameRow_state _)) (fun row' hrow' => ?_)
        fun _ _ _ _ h => by cases h
      have hc : row'.chatId = row.chatId := by rw [hrow' row' rfl]
      split
      · rintro polled row'' ⟨⟩
        exact hc
      · refine Each.bind (Each.mono (fun _ h => hc ▸ h.toSandboxStep) (fun _ h => h) (each_settlePaused row'))
          (fun row'' hrow'' => ?_) fun _ _ _ _ h => by cases h
        rintro polled x ⟨⟩
        exact (hrow'' row'' rfl).trans hc

theorem each_orMissing {S : WStep → Prop} {p : Act α} (hp : p.All S) : (orMissing p).All S :=
  All.tryCatch (All.bind hp fun _ => trivial) fun e => by split <;> trivial

theorem each_state (row : SandboxRuntime) (info : Option SandboxInfo) :
    (state row info).Each (SandboxStep row.chatId)
      fun r => ∀ polled row', r = .ok (polled, row') → row'.chatId = row.chatId := by
  unfold state
  split
  · rintro polled row' ⟨⟩
    rfl
  · split
    · exact all_recordState row _
    · exact Each.bind (tend_sandbox (each_orMissing (all_getInfo _))) (fun found _ => all_recordState row found)
        fun _ _ _ _ h => by cases h

theorem all_pause (row : SandboxRuntime) : (pause row).All (SandboxStep row.chatId) := by
  unfold pause
  split
  · exact tend_sandbox (all_retire _)
  · split
    · trivial
    · refine All.tryCatch (All.bind ?_ fun _ => trivial) fun e => ?_
      · refine All.bind (tend_sandbox (all_withTimeout (tendStep_scopeFree _) (all_pauseSandbox _)))
          fun _ => ?_
        refine Each.bind_all (each_change_same (sameRow_state .paused)) fun row' hrow' => ?_
        have hc : row'.chatId = row.chatId := by rw [hrow' row' rfl]
        exact hc ▸ All.bind (tend_sandbox (Each.all (each_settlePaused row'))) fun _ => trivial
      · split
        · exact All.bind (tend_sandbox (all_remove row false)) fun _ => trivial
        · split <;> trivial

theorem all_reconcile (cfg : Config) (now : Nat) (shutdown : Bool) (row : SandboxRuntime)
    (chat : Option Chat) : (reconcile cfg now shutdown row chat).All (SandboxStep row.chatId) := by
  refine all_catchException ?_ fun _ => trivial
  split
  · exact All.bind (tend_sandbox (all_retire _)) fun _ => trivial
  · split
    · trivial
    · refine Each.bind_all (each_state row none) fun polled hpolled => ?_
      obtain ⟨polled, row'⟩ := polled
      have hc : row'.chatId = row.chatId := hpolled polled row' rfl
      dsimp only
      split
      · trivial
      · refine All.bind (tend_sandbox (all_memory fun _ _ => .still rfl)) fun idle => ?_
        split
        · exact hc ▸ All.bind (all_pause row') fun _ => trivial
        · trivial

theorem sameRow_resume (spendId now : Nat) :
    MildRow fun r => { r with state := .running, spendId := some spendId, lastUsedAt := now } :=
  ⟨⟨fun _ => rfl, fun _ => rfl, fun _ h => h⟩, fun _ => rfl, fun _ h => by cases h⟩

theorem all_connectLease (cfg : Config) (sandboxId spendId : Nat) :
    (connectLease cfg c sandboxId spendId).All (SandboxStep c) :=
  All.bind (all_withTimeout (sandboxStep_scopeFree c) (all_connectSandbox _ _)) fun handle =>
    All.bind (tend_sandbox (all_setHandle c handle)) fun _ =>
      All.bind (tend_sandbox (all_getInfo _)) fun info =>
        All.bind (tend_sandbox (all_confirmLease _ _ info)) fun _ => trivial

theorem all_resume (cfg : Config) (row : SandboxRuntime) (sandboxId : Nat) (info : SandboxInfo) :
    (resume cfg row sandboxId info).All (SandboxStep row.chatId) := by
  refine All.bind (tend_sandbox (all_reserveRuntime _ _ _ _)) fun spend => ?_
  refine All.bind (tend_sandbox (all_memory fun _ _ => .still rfl)) fun now => ?_
  refine All.bind (tend_sandbox (Each.all (each_change (sameRow_resume spend.id now)))) fun _ => ?_
  refine All.tryCatch (All.bind (all_connectLease _ _ _) fun _ => trivial) fun e => ?_
  split
  · trivial
  · trivial
  · split <;> trivial

theorem all_insertRuntime (spendId : Nat) (template generation : String) :
    (transaction .commit (insertRuntime c spendId template generation)).Each (TendStep c)
      fun r => ∀ row, r = .ok row → row.chatId = c := by
  refine each_transaction' (fun _ _ _ => .still rfl) ?_ fun _ _ h => by cases h
  intro a e w row w' h
  unfold insertRuntime at h
  split at h
  · cases h
  · split at h
    · cases h
    · simp only [Except.ok.injEq, Prod.mk.injEq] at h
      obtain ⟨rfl, rfl⟩ := h
      refine ⟨.setRow rfl rfl (Nat.le_succ _) (fun h => by cases h) (fun h => by cases h)
        (fun id h => by cases h), ?_⟩
      rintro row ⟨⟩
      rfl

theorem sameRow_located (id : Nat) :
    SameRow fun r => { r with sandboxId := some id, state := .running } :=
  ⟨fun _ => rfl, fun _ => rfl, fun _ h => h⟩

theorem all_startRuntime (cfg : Config) (c : Nat) (template : String) :
    (startRuntime cfg c template).All (SandboxStep c) := by
  refine All.bind (tend_sandbox (all_reserveRuntime _ _ _ _)) fun spend => ?_
  refine Each.bind_all (Each.mono (fun _ h => h.toSandboxStep) (fun _ h => h)
    (all_insertRuntime spend.id template cfg.generation)) fun row hrow => ?_
  have hc : row.chatId = c := hrow row rfl
  refine All.bind (All.tryCatch (all_withTimeout (sandboxStep_scopeFree c)
    (tend_sandbox (all_createSandbox _ _ _))) fun e => ?_) fun handle => ?_
  · split
    · exact hc ▸ All.bind (tend_sandbox (all_remove row true)) fun _ => trivial
    · trivial
  · refine All.bind (tend_sandbox (all_setHandle c handle)) fun _ => ?_
    refine All.bind (hc ▸ Each.all (each_change_same (sameRow_located handle))) fun _ => ?_
    exact All.bind (tend_sandbox (all_getInfo _)) fun info =>
      All.bind (tend_sandbox (all_confirmLease _ _ info)) fun _ => trivial

theorem all_replaceRuntime (cfg : Config) (c : Nat) (template : String) :
    (replaceRuntime cfg c template).All (SandboxStep c) := by
  refine All.bind (tend_sandbox (all_retire c)) fun retired => ?_
  split
  · exact all_startRuntime cfg c template
  · trivial

theorem each_pollCompatible (row : SandboxRuntime) (sandboxId : Nat) :
    (pollCompatible row sandboxId).Each (SandboxStep row.chatId)
      fun r => ∀ row' i, r = .ok (some (row', i)) → row'.chatId = row.chatId := by
  refine Each.bind (tend_sandbox (each_orMissing (all_getInfo _))) (fun info _ => ?_)
    fun _ _ _ _ h => by cases h
  split
  · refine Each.bind (tend_sandbox (all_remove row false)) (fun _ _ => ?_) fun _ _ _ _ h => by cases h
    rintro row' i ⟨⟩
  · refine Each.bind (each_state row _) (fun polled hpolled => ?_) fun _ _ _ _ h => by cases h
    obtain ⟨polled, row'⟩ := polled
    dsimp only
    split
    · rintro x i ⟨⟩
      exact hpolled polled row' rfl
    · rintro x i ⟨⟩

theorem all_acquire (cfg : Config) (c : Nat) (revision : Option ProjectRevision) :
    (acquire cfg c revision).All (SandboxStep c) := by
  refine Each.bind_all (Each.mono (fun _ h => h.toSandboxStep) (fun _ h => h) (each_getRuntime c))
    fun row hrow => ?_
  split
  · exact all_startRuntime cfg c _
  · rename_i r
    have hc : r.chatId = c := hrow r rfl
    split
    · subst hc
      refine Each.bind_all (each_pollCompatible r _) fun polled hpolled => ?_
      split
      · exact all_startRuntime cfg _ _
      · rename_i row' info
        have hc' : row'.chatId = r.chatId := hpolled row' info rfl
        refine All.bind (hc' ▸ all_resume cfg row' _ info) fun handle => ?_
        split
        · trivial
        · exact all_replaceRuntime cfg _ _
    · exact all_replaceRuntime cfg c _

theorem mildRow_invalidate : MildRow fun r => { r with reusable := false } :=
  ⟨⟨fun _ => rfl, fun _ => rfl, fun _ h => by cases h⟩, fun _ => rfl, fun _ h => h⟩

theorem all_invalidate (c : Nat) : (invalidate c).All (TendStep c) := by
  refine Each.bind_all (each_getRuntime c) fun row hrow => ?_
  split
  · trivial
  · rename_i r
    have hc : r.chatId = c := hrow r rfl
    exact hc ▸ All.bind (Each.all (each_change mildRow_invalidate)) fun _ => trivial

theorem all_hostCommand {c : Nat} (id : Nat) : (hostCommand id).All (TendStep c) :=
  All.bind (all_sandboxCommand id) fun ok => by split <;> trivial

end Calls

end WebBuilder
