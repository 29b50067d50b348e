/-
  WebBuilder.Runtime.Owned — which sandboxes belong to whom.

  `Owned` says that every sandbox that exists, or that a pending create
  request may still bring up, belongs to the runtime row of its project, and
  that an operation has at most one sandbox.  This file has the invariant, the
  facts about one operation (`Known`, `Unborn`, `Absent`) that survive whatever
  E2B does by itself (`Drift`), and one lemma for each way a world changes.

  Main results:
    * `owned_createBox`, `owned_setRuntime`, `owned_insert`, `owned_delete` —
      the steps of the service;
    * `owned_environment` — E2B and other parts of the service.
-/
import WebBuilder.Runtime.Calls

namespace WebBuilder.Runtime

open WebBuilder.Async WebBuilder.Store WebBuilder.Budget

/-! ## §1. Facts about one operation. -/

/-- A sandbox was created under this id for the operation. -/
def Known (id operation : Nat) (w : World) : Prop :=
  ∃ b ∈ w.e2b.boxes.rows, b.id = id ∧ b.operation = operation

/-- No create request of the operation is pending. -/
def Unrequested (operation : Nat) (w : World) : Prop :=
  ∀ chatId spendId, Pending.create operation chatId spendId ∉ w.e2b.pending

/-- The operation never had a sandbox and no request may bring one up. -/
def Unborn (operation : Nat) (w : World) : Prop :=
  (∀ b ∈ w.e2b.boxes.rows, b.operation ≠ operation) ∧ Unrequested operation w

/-- The operation has no sandbox left and no request may bring one up. -/
def Absent (operation : Nat) (w : World) : Prop :=
  (∀ b ∈ w.e2b.boxes.rows, b.operation = operation → b.state = .gone) ∧ Unrequested operation w

/-- The project's row waits for the sandbox of the operation. -/
def Awaiting (chatId operation : Nat) (w : World) : Prop :=
  ∃ r, w.db.runtimes.get? chatId = some r ∧ r.operationId = operation ∧ r.sandboxId = none

theorem Unborn.absent {operation : Nat} {w : World} (h : Unborn operation w) : Absent operation w :=
  ⟨fun b hb he => absurd he (h.1 b hb), h.2⟩

/-- The operation of a pending create request. -/
def requested : Pending → Option Nat
  | .create operation _ _ => some operation
  | .connect .. => none

/-! ## §2. The invariant. -/

structure Owned (w : World) : Prop where
  /-- A sandbox that exists belongs to the row of its project. -/
  row : ∀ b ∈ w.e2b.boxes.rows, b.state ≠ .gone →
    ∃ r, w.db.runtimes.get? b.chatId = some r ∧ r.operationId = b.operation
  /-- So does one that may still come up, and it will be the first. -/
  pending : ∀ operation chatId spendId, .create operation chatId spendId ∈ w.e2b.pending →
    Awaiting chatId operation w ∧ ∀ b ∈ w.e2b.boxes.rows, b.operation ≠ operation
  once : (w.e2b.pending.filterMap requested).Nodup
  unique : ∀ b ∈ w.e2b.boxes.rows, ∀ b' ∈ w.e2b.boxes.rows, b.operation = b'.operation → b = b'
  located : ∀ r ∈ w.db.runtimes.rows, ∀ id, r.sandboxId = some id → Known id r.operationId w
  operations : ∀ r ∈ w.db.runtimes.rows, ∀ r' ∈ w.db.runtimes.rows,
    r.operationId = r'.operationId → r = r'
  freshBox : ∀ b ∈ w.e2b.boxes.rows, b.id < w.nextId ∧ b.operation < w.nextId
  freshRow : ∀ r ∈ w.db.runtimes.rows, r.operationId < w.nextId

/-- A known sandbox is the only one of its operation, and no other is on its way. -/
theorem Owned.of_known {w : World} (h : Owned w) {id operation : Nat} (hk : Known id operation w) :
    Unrequested operation w ∧ ∀ b ∈ w.e2b.boxes.rows, b.operation = operation → b.id = id := by
  obtain ⟨b, hb, rfl, rfl⟩ := hk
  refine ⟨fun c sp hmem => ?_, fun b' hb' he => ?_⟩
  · exact (h.pending _ _ _ hmem).2 b hb rfl
  · rw [h.unique b' hb' b hb he]

/-- What is missing at E2B is absent. -/
theorem Owned.absent_of_missing {w : World} (h : Owned w) {id operation : Nat}
    (hk : Known id operation w) (hm : w.missing id = true) : Absent operation w := by
  obtain ⟨hreq, hid⟩ := h.of_known hk
  refine ⟨fun b hb he => ?_, hreq⟩
  have hget : w.e2b.boxes.get? id = some b := by
    rw [Table.get?_eq_some]
    exact ⟨hb, hid b hb he⟩
  simp only [World.missing, Provider.box?, hget, Option.isNone_iff_eq_none,
    Option.filter_eq_none_iff] at hm
  simpa using hm b rfl

/-! ## §3. What happens outside the process. -/

/-- No known sandbox is forgotten. -/
def KeepsKnown (w w' : World) : Prop := ∀ id operation, Known id operation w → Known id operation w'

/-- The rows are untouched, and new sandboxes come from pending requests. -/
structure Drift (w w' : World) : Prop where
  runtimes : w'.db.runtimes = w.db.runtimes
  known : KeepsKnown w w'
  boxes : ∀ b' ∈ w'.e2b.boxes.rows,
    (∃ b ∈ w.e2b.boxes.rows, b.operation = b'.operation ∧ (b.state = .gone → b'.state = .gone)) ∨
      ∃ c sp, .create b'.operation c sp ∈ w.e2b.pending
  pending : ∀ p ∈ w'.e2b.pending, p ∈ w.e2b.pending

theorem drift_known {w w' : World} (h : Drift w w') {id operation : Nat}
    (hk : Known id operation w) : Known id operation w' := h.known id operation hk

theorem drift_unrequested {w w' : World} (h : Drift w w') {operation : Nat}
    (hu : Unrequested operation w) : Unrequested operation w' :=
  fun c sp hmem => hu c sp (h.pending _ hmem)

theorem drift_unborn {w w' : World} (h : Drift w w') {operation : Nat} (hu : Unborn operation w) :
    Unborn operation w' := by
  refine ⟨fun b' hb' he => ?_, drift_unrequested h hu.2⟩
  rcases h.boxes b' hb' with ⟨b, hb, hop, _⟩ | ⟨c, sp, hmem⟩
  · exact hu.1 b hb (hop.trans he)
  · exact hu.2 c sp (he ▸ hmem)

theorem drift_absent {w w' : World} (h : Drift w w') {operation : Nat} (ha : Absent operation w) :
    Absent operation w' := by
  refine ⟨fun b' hb' he => ?_, drift_unrequested h ha.2⟩
  rcases h.boxes b' hb' with ⟨b, hb, hop, hgone⟩ | ⟨c, sp, hmem⟩
  · exact hgone (ha.1 b hb (hop.trans he))
  · exact absurd (he ▸ hmem) (ha.2 c sp)

theorem drift_awaiting {w w' : World} (h : Drift w w') {chatId operation : Nat}
    (ha : Awaiting chatId operation w) : Awaiting chatId operation w' := by
  simpa only [Awaiting, h.runtimes] using ha

/-! ## §4. Steps on worlds. -/

/-- Neither rows nor sandboxes change. -/
structure Quiet (w w' : World) : Prop where
  runtimes : w'.db.runtimes = w.db.runtimes
  e2b : w'.e2b = w.e2b
  nextId : w.nextId ≤ w'.nextId

theorem quiet_refl (w : World) : Quiet w w := ⟨rfl, rfl, Nat.le_refl _⟩

theorem quiet_drift {w w' : World} (h : Quiet w w') : Drift w w' where
  runtimes := h.runtimes
  known := by simp [KeepsKnown, Known, h.e2b]
  boxes b hb := .inl ⟨b, h.e2b ▸ hb, rfl, id⟩
  pending p hp := h.e2b ▸ hp

theorem owned_quiet {w w' : World} (hw : Owned w) (h : Quiet w w') : Owned w' := by
  have hn := h.nextId
  constructor <;> simp only [Known, Awaiting, h.runtimes, h.e2b]
  · exact hw.row
  · exact hw.pending
  · exact hw.once
  · exact hw.unique
  · exact hw.located
  · exact hw.operations
  · exact fun b hb => ⟨Nat.lt_of_lt_of_le (hw.freshBox b hb).1 hn,
      Nat.lt_of_lt_of_le (hw.freshBox b hb).2 hn⟩
  · exact fun r hr => Nat.lt_of_lt_of_le (hw.freshRow r hr) hn

/-- A later state of the same sandbox. -/
structure SameBox (b b' : Box) : Prop where
  id : b'.id = b.id
  operation : b'.operation = b.operation
  chatId : b'.chatId = b.chatId
  gone : b.state = .gone → b'.state = .gone

theorem mem_setBox {w : World} {b x : Box} :
    x ∈ (w.setBox b).e2b.boxes.rows ↔ x = b ∨ (x ∈ w.e2b.boxes.rows ∧ x.id ≠ b.id) :=
  Table.mem_put

theorem known_setBox {w : World} {b b' : Box} (hb : b ∈ w.e2b.boxes.rows) (h : SameBox b b') :
    KeepsKnown w (w.setBox b') := by
  rintro id op ⟨x, hx, rfl, rfl⟩
  by_cases hid : x.id = b'.id
  · have : x = b := Table.eq_of_key hx hb (hid.trans h.id)
    subst this
    exact ⟨b', mem_setBox.mpr (.inl rfl), h.id, h.operation⟩
  · exact ⟨x, mem_setBox.mpr (.inr ⟨hx, hid⟩), rfl, rfl⟩

theorem drift_setBox {w : World} {b b' : Box} (hb : b ∈ w.e2b.boxes.rows) (h : SameBox b b') :
    Drift w (w.setBox b') where
  runtimes := rfl
  known := known_setBox hb h
  boxes x hx := by
    rcases mem_setBox.mp hx with rfl | ⟨hx, _⟩
    · exact .inl ⟨b, hb, h.operation.symm, h.gone⟩
    · exact .inl ⟨x, hx, rfl, id⟩
  pending _ hp := hp

theorem owned_setBox {w : World} (hw : Owned w) {b b' : Box} (hb : b ∈ w.e2b.boxes.rows)
    (h : SameBox b b') : Owned (w.setBox b') := by
  constructor
  · intro x hx halive
    rcases mem_setBox.mp hx with rfl | ⟨hx, _⟩
    · rw [h.chatId, h.operation]
      exact hw.row b hb fun hg => halive (h.gone hg)
    · exact hw.row x hx halive
  · intro op c sp hp
    refine ⟨(hw.pending op c sp hp).1, fun x hx => ?_⟩
    rcases mem_setBox.mp hx with rfl | ⟨hx, _⟩
    · rw [h.operation]
      exact (hw.pending op c sp hp).2 b hb
    · exact (hw.pending op c sp hp).2 x hx
  · exact hw.once
  · intro x hx y hy hop
    rcases mem_setBox.mp hx with hxe | ⟨hx', hxid⟩ <;>
      rcases mem_setBox.mp hy with hye | ⟨hy', hyid⟩
    · rw [hxe, hye]
    · rw [hxe, h.operation] at hop
      exact absurd ((congrArg Box.id (hw.unique b hb y hy' hop)).symm.trans h.id.symm) hyid
    · rw [hye, h.operation] at hop
      exact absurd ((congrArg Box.id (hw.unique x hx' b hb hop)).trans h.id.symm) hxid
    · exact hw.unique x hx' y hy' hop
  · exact fun r hr id hid => known_setBox hb h id _ (hw.located r hr id hid)
  · exact hw.operations
  · intro x hx
    rcases mem_setBox.mp hx with rfl | ⟨hx, _⟩
    · rw [h.id, h.operation]
      exact hw.freshBox b hb
    · exact hw.freshBox x hx
  · exact hw.freshRow

theorem box?_mem {w : World} {id : Nat} {b : Box} (h : w.e2b.box? id = some b) :
    b ∈ w.e2b.boxes.rows ∧ b.id = id ∧ b.state ≠ .gone := by
  simp only [Provider.box?, Option.filter_eq_some_iff, Table.get?_eq_some, key_box,
    decide_eq_true_eq] at h
  exact ⟨h.1.1, h.1.2, h.2⟩

/-- A new sandbox of an operation that waits for its first one. -/
theorem owned_createBox {w : World} (hw : Owned w) {op c : Nat} (hrow : Awaiting c op w)
    (hop : Unborn op w) (cpu mem deadline : Nat) (files : Manifest) :
    Owned (w.createBox op c cpu mem deadline files) ∧
      KeepsKnown w (w.createBox op c cpu mem deadline files) ∧
      Known w.nextId op (w.createBox op c cpu mem deadline files) := by
  have hfresh : ∀ b ∈ w.e2b.boxes.rows, b.id ≠ w.nextId := fun b hb =>
    Nat.ne_of_lt (hw.freshBox b hb).1
  have hmem : ∀ x, x ∈ (w.createBox op c cpu mem deadline files).e2b.boxes.rows ↔
      x = ⟨w.nextId, op, c, .running, cpu, mem, deadline, false, files, false⟩ ∨
        x ∈ w.e2b.boxes.rows := by
    intro x
    refine mem_setBox.trans ⟨?_, ?_⟩
    · rintro (h | ⟨h, _⟩)
      · exact .inl h
      · exact .inr h
    · rintro (h | h)
      · exact .inl h
      · exact .inr ⟨h, hfresh x h⟩
  have hkeep : KeepsKnown w (w.createBox op c cpu mem deadline files) := by
    rintro id op' ⟨x, hx, h1, h2⟩
    exact ⟨x, (hmem x).mpr (.inr hx), h1, h2⟩
  refine ⟨?_, hkeep, _, (hmem _).mpr (.inl rfl), rfl, rfl⟩
  obtain ⟨r, hr, hrop, hrnone⟩ := hrow
  constructor
  · intro x hx halive
    rcases (hmem x).mp hx with rfl | hx
    · exact ⟨r, hr, hrop⟩
    · exact hw.row x hx halive
  · intro op' c' sp hp
    refine ⟨(hw.pending op' c' sp hp).1, fun x hx => ?_⟩
    rcases (hmem x).mp hx with rfl | hx
    · rintro rfl
      exact hop.2 c' sp hp
    · exact (hw.pending op' c' sp hp).2 x hx
  · exact hw.once
  · intro x hx y hy hxy
    rcases (hmem x).mp hx with rfl | hx <;> rcases (hmem y).mp hy with rfl | hy
    · rfl
    · exact absurd hxy.symm (hop.1 y hy)
    · exact absurd hxy (hop.1 x hx)
    · exact hw.unique x hx y hy hxy
  · exact fun r' hr' id hid => hkeep id _ (hw.located r' hr' id hid)
  · exact hw.operations
  · intro x hx
    have hlt : op < w.nextId := hrop ▸ hw.freshRow r (Table.mem_of_get? hr)
    rcases (hmem x).mp hx with rfl | hx
    · exact ⟨Nat.lt_succ_self _, Nat.lt_succ_of_lt hlt⟩
    · exact ⟨Nat.lt_succ_of_lt (hw.freshBox x hx).1, Nat.lt_succ_of_lt (hw.freshBox x hx).2⟩
  · exact fun r' hr' => Nat.lt_succ_of_lt (hw.freshRow r' hr')

/-- The create request of a waiting operation is left pending. -/
theorem owned_defer {w : World} (hw : Owned w) {op c : Nat} (sp : Nat) (hrow : Awaiting c op w)
    (hop : Unborn op w) : Owned (w.defer (.create op c sp)) := by
  have hmem : ∀ p, p ∈ (w.defer (.create op c sp)).e2b.pending ↔
      p ∈ w.e2b.pending ∨ p = .create op c sp := by
    intro p
    simp [World.defer]
  constructor
  · exact hw.row
  · intro op' c' sp' hp
    rcases (hmem _).mp hp with hp | hp
    · exact hw.pending op' c' sp' hp
    · simp only [Pending.create.injEq] at hp
      obtain ⟨rfl, rfl, rfl⟩ := hp
      exact ⟨hrow, hop.1⟩
  · show ((w.e2b.pending ++ [_]).filterMap requested).Nodup
    rw [List.filterMap_append, List.nodup_append]
    refine ⟨hw.once, by simp [requested], ?_⟩
    intro a ha b hb
    simp only [List.mem_filterMap] at ha
    simp only [requested, List.filterMap_cons, List.filterMap_nil,
      List.mem_singleton] at hb
    obtain ⟨p, hp, hpa⟩ := ha
    subst hb
    rintro rfl
    cases p with
    | create op' c' sp' =>
        simp only [requested, Option.some.injEq] at hpa
        exact hop.2 c' sp' (hpa ▸ hp)
    | connect => simp [requested] at hpa
  · exact hw.unique
  · exact hw.located
  · exact hw.operations
  · exact hw.freshBox
  · exact hw.freshRow

/-- Requests other than `create` may be left pending at will. -/
theorem owned_defer_connect {w : World} (hw : Owned w) (id sp : Nat) :
    Owned (w.defer (.connect id sp)) := by
  have hmem : ∀ op c sp', .create op c sp' ∈ (w.defer (.connect id sp)).e2b.pending →
      .create op c sp' ∈ w.e2b.pending := by
    intro op c sp' hp
    simpa [World.defer] using hp
  constructor
  · exact hw.row
  · exact fun op c sp' hp => hw.pending op c sp' (hmem op c sp' hp)
  · show ((w.e2b.pending ++ [_]).filterMap requested).Nodup
    rw [List.filterMap_append, List.filterMap_cons]
    simpa [requested] using hw.once
  · exact hw.unique
  · exact hw.located
  · exact hw.operations
  · exact hw.freshBox
  · exact hw.freshRow

/-- The row is rewritten; operation and project stay, and a sandbox id that is
recorded is one of the operation. -/
theorem owned_setRuntime {w : World} (hw : Owned w) {r r' : SandboxRuntime}
    (hr : w.db.runtimes.get? r.chatId = some r) (hchat : r'.chatId = r.chatId)
    (hop : r'.operationId = r.operationId)
    (hbox : r'.sandboxId = r.sandboxId ∨ ∃ id, r'.sandboxId = some id ∧ Known id r.operationId w) :
    Owned { w with db := w.db.setRuntime r' } := by
  have hget : ∀ c, ({ w with db := w.db.setRuntime r' } : World).db.runtimes.get? c
      = if c = r.chatId then some r' else w.db.runtimes.get? c := by
    intro c
    show (w.db.runtimes.put r').get? c = _
    rw [Table.get?_put, key_runtime, hchat]
  have hrmem := Table.mem_of_get? hr
  have hrow : ∀ c op, (∃ x, w.db.runtimes.get? c = some x ∧ x.operationId = op) →
      ∃ x, ({ w with db := w.db.setRuntime r' } : World).db.runtimes.get? c = some x ∧
        x.operationId = op := by
    rintro c op ⟨x, hx, hxop⟩
    by_cases hc : c = r.chatId
    · subst hc
      rw [hr] at hx
      obtain rfl := Option.some.inj hx
      exact ⟨r', by rw [hget, if_pos rfl], hop.trans hxop⟩
    · exact ⟨x, by rw [hget, if_neg hc, hx], hxop⟩
  constructor
  · exact fun b hb halive => hrow _ _ (hw.row b hb halive)
  · intro op c sp hp
    obtain ⟨⟨x, hx, hxop, hxnone⟩, hno⟩ := hw.pending op c sp hp
    refine ⟨?_, hno⟩
    by_cases hc : c = r.chatId
    · subst hc
      rw [hr] at hx
      obtain rfl := Option.some.inj hx
      refine ⟨r', by rw [hget, if_pos rfl], hop.trans hxop, ?_⟩
      rcases hbox with hbox | ⟨id, _, b, hb, _, hbop⟩
      · exact hbox.trans hxnone
      · exact absurd (hbop.trans hxop) (hno b hb)
    · exact ⟨x, by rw [hget, if_neg hc, hx], hxop, hxnone⟩
  · exact hw.once
  · exact hw.unique
  · intro x hx id hid
    rcases Table.mem_put.mp hx with rfl | ⟨hx, _⟩
    · rcases hbox with hbox | ⟨id', hid', hk⟩
      · rw [hop]
        exact hw.located r hrmem id (hbox ▸ hid)
      · rw [hid'] at hid
        obtain rfl := Option.some.inj hid
        rw [hop]
        exact hk
    · exact hw.located x hx id hid
  · intro x hx y hy hxy
    rcases Table.mem_put.mp hx with hxe | ⟨hx', hxc⟩ <;>
      rcases Table.mem_put.mp hy with hye | ⟨hy', hyc⟩
    · rw [hxe, hye]
    · rw [hxe, hop] at hxy
      have hry := congrArg SandboxRuntime.chatId (hw.operations r hrmem y hy' hxy)
      exact absurd (hry.symm.trans hchat.symm) hyc
    · rw [hye, hop] at hxy
      have hxr := congrArg SandboxRuntime.chatId (hw.operations x hx' r hrmem hxy)
      exact absurd (hxr.trans hchat.symm) hxc
    · exact hw.operations x hx' y hy' hxy
  · exact hw.freshBox
  · intro x hx
    rcases Table.mem_put.mp hx with rfl | ⟨hx, _⟩
    · rw [hop]
      exact hw.freshRow r hrmem
    · exact hw.freshRow x hx

/-- A project without a row gets one, for a new operation. -/
theorem owned_insert {w : World} (hw : Owned w) {row : SandboxRuntime}
    (hnone : w.db.runtimes.get? row.chatId = none) (hop : row.operationId = w.nextId)
    (hbox : row.sandboxId = none) :
    Owned { w with nextId := w.nextId + 1, db := w.db.setRuntime row } := by
  have hold : ∀ c x, w.db.runtimes.get? c = some x → (w.db.runtimes.put row).get? c = some x := by
    intro c x hx
    have hne : c ≠ row.chatId := by
      rintro rfl
      simp [hnone] at hx
    rw [Table.get?_put_ne _ hne, hx]
  constructor
  · intro b hb halive
    obtain ⟨r, hr, hrop⟩ := hw.row b hb halive
    exact ⟨r, hold _ _ hr, hrop⟩
  · intro op c sp hp
    obtain ⟨⟨x, hx, hxop, hxnone⟩, hno⟩ := hw.pending op c sp hp
    exact ⟨⟨x, hold _ _ hx, hxop, hxnone⟩, hno⟩
  · exact hw.once
  · exact hw.unique
  · intro x hx id hid
    rcases Table.mem_put.mp hx with rfl | ⟨hx, _⟩
    · simp [hbox] at hid
    · exact hw.located x hx id hid
  · intro x hx y hy hxy
    rcases Table.mem_put.mp hx with hxe | ⟨hx', _⟩ <;>
      rcases Table.mem_put.mp hy with hye | ⟨hy', _⟩
    · rw [hxe, hye]
    · rw [hxe, hop] at hxy
      exact absurd hxy.symm (Nat.ne_of_lt (hw.freshRow y hy'))
    · rw [hye, hop] at hxy
      exact absurd hxy (Nat.ne_of_lt (hw.freshRow x hx'))
    · exact hw.operations x hx' y hy' hxy
  · exact fun b hb => ⟨Nat.lt_succ_of_lt (hw.freshBox b hb).1, Nat.lt_succ_of_lt (hw.freshBox b hb).2⟩
  · intro x hx
    rcases Table.mem_put.mp hx with rfl | ⟨hx, _⟩
    · rw [hop]
      exact Nat.lt_succ_self _
    · exact Nat.lt_succ_of_lt (hw.freshRow x hx)

/-- The new operation is unborn. -/
theorem unborn_nextId {w : World} (hw : Owned w) : Unborn w.nextId w := by
  refine ⟨fun b hb => Nat.ne_of_lt (hw.freshBox b hb).2, fun c sp hp => ?_⟩
  obtain ⟨⟨r, hr, hrop, _⟩, _⟩ := hw.pending _ c sp hp
  exact absurd hrop (Nat.ne_of_lt (hw.freshRow r (Table.mem_of_get? hr)))

/-- **Removing a row** is safe once its operation is absent. -/
theorem owned_delete {w : World} (hw : Owned w) {chatId op : Nat} (ha : Absent op w) :
    Owned { w with db := { w.db with runtimes := w.db.runtimes.eraseIf fun r =>
      r.chatId = chatId ∧ r.operationId = op } } := by
  have hkeep : ∀ c x, w.db.runtimes.get? c = some x → x.operationId ≠ op →
      (w.db.runtimes.eraseIf fun r => r.chatId = chatId ∧ r.operationId = op).get? c = some x := by
    intro c x hx hne
    simp [Table.get?_eraseIf, hx, hne]
  constructor
  · intro b hb halive
    obtain ⟨r, hr, hrop⟩ := hw.row b hb halive
    refine ⟨r, hkeep _ r hr ?_, hrop⟩
    rintro rfl
    exact halive (ha.1 b hb hrop.symm)
  · intro op' c sp hp
    obtain ⟨⟨x, hx, hxop, hxnone⟩, hno⟩ := hw.pending op' c sp hp
    refine ⟨⟨x, hkeep _ x hx ?_, hxop, hxnone⟩, hno⟩
    rintro rfl
    exact ha.2 c sp (hxop ▸ hp)
  · exact hw.once
  · exact hw.unique
  · exact fun r hr id hid => hw.located r (Table.mem_eraseIf.mp hr).1 id hid
  · exact fun r hr r' hr' h => hw.operations r (Table.mem_eraseIf.mp hr).1 r' (Table.mem_eraseIf.mp hr').1 h
  · exact hw.freshBox
  · exact fun r hr => hw.freshRow r (Table.mem_eraseIf.mp hr).1

/-! ## §5. E2B and the rest of the service. -/

theorem sameBox_gone (b : Box) : SameBox b { b with state := .gone } := ⟨rfl, rfl, rfl, fun _ => rfl⟩

theorem kill_cases (w : World) (id : Nat) :
    w.kill id = w ∨ ∃ b ∈ w.e2b.boxes.rows, b.id = id ∧ w.kill id = w.setBox { b with state := .gone } := by
  unfold World.kill
  split
  · rename_i b hb
    exact .inr ⟨b, Table.mem_of_get? hb, Table.key_of_get? hb, rfl⟩
  · exact .inl rfl

theorem drift_refl (w : World) : Drift w w := quiet_drift (quiet_refl w)

theorem owned_kill {w : World} (hw : Owned w) (id : Nat) : Owned (w.kill id) ∧ Drift w (w.kill id) := by
  rcases kill_cases w id with h | ⟨b, hb, _, h⟩ <;> rw [h]
  · exact ⟨hw, drift_refl w⟩
  · exact ⟨owned_setBox hw hb (sameBox_gone b), drift_setBox hb (sameBox_gone b)⟩

/-- After its sandbox is killed, an operation is absent. -/
theorem absent_kill {w : World} (hw : Owned w) {id op : Nat} (hk : Known id op w) :
    Absent op (w.kill id) := by
  obtain ⟨hreq, hid⟩ := hw.of_known hk
  obtain ⟨b, hb, hbid, hbop⟩ := hk
  have hkill : w.kill id = w.setBox { b with state := .gone } := by
    have hget : w.e2b.boxes.get? id = some b := by
      rw [Table.get?_eq_some]
      exact ⟨hb, hbid⟩
    simp only [World.kill, hget]
  rw [hkill]
  refine ⟨fun x hx hxop => ?_, hreq⟩
  rcases mem_setBox.mp hx with rfl | ⟨hx, hne⟩
  · rfl
  · exact absurd ((hid x hx hxop).trans hbid.symm) hne

theorem sameBox_connect {b : Box} (h : b.state ≠ .gone) (t : Nat) : SameBox b (b.connect t) :=
  ⟨rfl, rfl, rfl, fun hg => absurd hg h⟩

/-- Serving one of several pending requests leaves no second one of its
operation. -/
theorem eraseIdx_operation : ∀ {l : List Pending} {i : Nat} {p : Pending} {op : Nat},
    (l.filterMap requested).Nodup → l[i]? = some p → requested p = some op →
      ∀ q ∈ l.eraseIdx i, requested q ≠ some op
  | [], i, p, op, _, hi, _ => by simp at hi
  | x :: xs, 0, p, op, hnd, hi, hop => by
      simp only [List.getElem?_cons_zero, Option.some.injEq] at hi
      subst hi
      simp only [List.filterMap_cons, hop, List.nodup_cons, List.mem_filterMap, not_exists,
        not_and] at hnd
      exact hnd.1
  | x :: xs, i + 1, p, op, hnd, hi, hop => by
      simp only [List.getElem?_cons_succ] at hi
      have hnd' : (xs.filterMap requested).Nodup :=
        ((List.sublist_cons_self x xs).filterMap _).nodup hnd
      intro q hq
      simp only [List.eraseIdx_cons_succ, List.mem_cons] at hq
      rcases hq with rfl | hq
      · intro hqop
        simp only [List.filterMap_cons, hqop, List.nodup_cons, List.mem_filterMap, not_exists,
          not_and] at hnd
        exact hnd.1 p (List.mem_of_getElem? hi) hop
      · exact eraseIdx_operation hnd' hi hop q hq

/-- Fewer requests are pending. -/
theorem owned_dequeue {w : World} (hw : Owned w) (i : Nat) :
    Owned { w with e2b := { w.e2b with pending := w.e2b.pending.eraseIdx i } } := by
  have hsub := List.eraseIdx_sublist w.e2b.pending i
  exact ⟨hw.row, fun op c sp hp => hw.pending op c sp (hsub.subset hp),
    (hsub.filterMap _).nodup hw.once, hw.unique, hw.located, hw.operations, hw.freshBox, hw.freshRow⟩

theorem drift_dequeue (w : World) (i : Nat) :
    Drift w { w with e2b := { w.e2b with pending := w.e2b.pending.eraseIdx i } } :=
  ⟨rfl, fun _ _ h => h, fun b hb => .inl ⟨b, hb, rfl, id⟩,
    fun _ hp => (List.eraseIdx_sublist w.e2b.pending i).subset hp⟩

theorem drift_trans {w w' w'' : World} (h : Drift w w') (h' : Drift w' w'') : Drift w w'' where
  runtimes := h'.runtimes.trans h.runtimes
  known id op hk := h'.known id op (h.known id op hk)
  boxes b hb := by
    rcases h'.boxes b hb with ⟨b', hb', hop, hg⟩ | ⟨c, sp, hp⟩
    · rcases h.boxes b' hb' with ⟨b'', hb'', hop', hg'⟩ | ⟨c, sp, hp⟩
      · exact .inl ⟨b'', hb'', hop'.trans hop, fun hx => hg (hg' hx)⟩
      · exact .inr ⟨c, sp, hop ▸ hp⟩
    · exact .inr ⟨c, sp, h.pending _ hp⟩
  pending p hp := h.pending p (h'.pending p hp)

theorem drift_box {w : World} (hw : Owned w) {id : Nat} {b b' : Box} (hb : w.e2b.box? id = some b)
    (h : SameBox b b') : Owned (w.setBox b') ∧ Drift w (w.setBox b') :=
  ⟨owned_setBox hw (box?_mem hb).1 h, drift_setBox (box?_mem hb).1 h⟩

/-- A pending create request is served. -/
theorem serve_create {w : World} (hw : Owned w) {i op c sp : Nat}
    (hi : w.e2b.pending[i]? = some (.create op c sp)) (cpu mem deadline : Nat) (files : Manifest) :
    let rest := { w with e2b := { w.e2b with pending := w.e2b.pending.eraseIdx i } }
    Owned (rest.createBox op c cpu mem deadline files) ∧
      Drift w (rest.createBox op c cpu mem deadline files) := by
  intro rest
  have hmem : Pending.create op c sp ∈ w.e2b.pending := List.mem_of_getElem? hi
  obtain ⟨hrow, hno⟩ := hw.pending op c sp hmem
  have hunborn : Unborn op rest := by
    refine ⟨hno, fun c' sp' hp => ?_⟩
    exact eraseIdx_operation hw.once hi rfl _ hp rfl
  obtain ⟨h1, h2, _⟩ := owned_createBox (owned_dequeue hw i) hrow hunborn cpu mem deadline files
  refine ⟨h1, rfl, fun id o hk => h2 id o hk, ?_, (drift_dequeue w i).pending⟩
  intro x hx
  rcases mem_setBox.mp hx with rfl | ⟨hx, _⟩
  · exact .inr ⟨c, sp, hmem⟩
  · exact .inl ⟨x, hx, rfl, id⟩

/-- **E2B keeps the invariant**, and creates only what was asked for. -/
theorem owned_worldEnvironment {w w' : World} (hw : Owned w) {d : Datum}
    (h : w.environment d = some w') : Owned w' ∧ Drift w w' := by
  have hquiet : ∀ w', Quiet w w' → Owned w' ∧ Drift w w' := fun w' hq =>
    ⟨owned_quiet hw hq, quiet_drift hq⟩
  cases d with
  | tick t =>
      simp only [World.environment, Option.ite_none_right_eq_some, Option.some.injEq] at h
      obtain ⟨_, rfl⟩ := h
      exact hquiet _ ⟨rfl, rfl, Nat.le_refl _⟩
  | serve i d =>
      simp only [World.environment] at h
      split at h
      · rename_i op c sp cpu mem deadline files hi
        obtain rfl := Option.some.inj h
        exact serve_create hw hi cpu mem deadline files
      · rename_i id sp t hi
        have hrest := owned_dequeue hw i
        split at h <;> obtain rfl := Option.some.inj h
        · rename_i b hb
          obtain ⟨h1, h2⟩ := drift_box hrest hb (sameBox_connect (box?_mem hb).2.2 t)
          exact ⟨h1, drift_trans (drift_dequeue w i) h2⟩
        · exact ⟨hrest, drift_dequeue w i⟩
      · cases h
  | vanish id =>
      obtain rfl := Option.some.inj h
      exact owned_kill hw id
  | sleep id =>
      simp only [World.environment, Option.map_eq_some_iff] at h
      obtain ⟨b, hb, rfl⟩ := h
      exact drift_box hw hb ⟨rfl, rfl, rfl, fun hg => absurd hg (box?_mem hb).2.2⟩
  | scribble id files =>
      simp only [World.environment] at h
      split at h
      · rename_i b hb
        simp only [Option.ite_none_right_eq_some, Option.some.injEq] at h
        obtain ⟨_, rfl⟩ := h
        exact drift_box hw hb ⟨rfl, rfl, rfl, fun hg => hg⟩
      · cases h
  | transfer thread =>
      simp only [World.environment, Option.map_eq_some_iff] at h
      obtain ⟨s, _, rfl⟩ := h
      exact hquiet _ ⟨rfl, rfl, Nat.le_refl _⟩
  | _ => simp [World.environment] at h

theorem owned_environment {w w' : World} (hw : Owned w) {d : Datum}
    (h : environment d w = some w') : Owned w' ∧ Drift w w' := by
  unfold environment at h
  split at h
  · have hq : ∀ w'', w'' = w' → Quiet w w'' → Owned w' ∧ Drift w w' := by
      rintro w'' rfl hq
      exact ⟨owned_quiet hw hq, quiet_drift hq⟩
    simp only at h
    split at h
    · simp only [Option.ite_none_right_eq_some, Option.some.injEq] at h
      exact hq _ h.2 ⟨rfl, rfl, Nat.le_refl _⟩
    · simp only [Option.ite_none_right_eq_some, Option.some.injEq] at h
      exact hq _ h.2 ⟨rfl, rfl, Nat.le_succ _⟩
  · obtain rfl := Option.some.inj h
    have hq : Quiet w { w with db := { w.db with chats := w.db.chats.erase ‹Nat› } } :=
      ⟨rfl, rfl, Nat.le_refl _⟩
    exact ⟨owned_quiet hw hq, quiet_drift hq⟩
  · exact owned_worldEnvironment hw h

end WebBuilder.Runtime
