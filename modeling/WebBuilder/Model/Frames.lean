/-
  WebBuilder.Model.Frames — what the awaits of a coroutine can touch.

  The rules of `Co.Each` for the awaits of the service, and the steps of
  `Model.Persistence`: a storage step touches the transfer counters, the
  upload tasks and the object store.  Two steps on revisions are kept as they
  are: `Recorded` and `Promoted`.
-/
import WebBuilder.Async.Monitor
import WebBuilder.Model.Service

namespace WebBuilder

open WebBuilder.Async WebBuilder.Store WebBuilder.Budget

variable {α β : Type}

abbrev WStep := Step World Label Exc Datum

/-! ## §1. Every step of one await. -/

/-- A property of steps that does not look at the scopes of the label. -/
def ScopeFree (S : WStep → Prop) : Prop :=
  ∀ st scopes, S st → S { st with op := { st.op with scopes } }

section Awaits

variable {S : WStep → Prop} {Q : Except Exc α → Prop}

theorem each_query' {f : World → α} (h : ∀ a e w, S ⟨⟨.query, []⟩, a, e, w, w⟩)
    (hQ : ∀ w, Q (.ok (f w))) (hQe : ∀ e, Q (.error e)) : (query f).Each S Q :=
  each_query h hQ hQe

theorem all_query {f : World → α} (h : ∀ a e w, S ⟨⟨.query, []⟩, a, e, w, w⟩) : (query f).All S :=
  each_query h (fun _ => trivial) fun _ => trivial

theorem all_memory {f : World → α × World} (h : ∀ a w, S ⟨⟨.memory, []⟩, a, none, w, (f w).2⟩) :
    (memory f).All S :=
  each_memory h fun _ => trivial

theorem each_transaction' {op : Op} {body : World → Except Exc (α × World)}
    (hstill : ∀ a e w, S ⟨⟨op, []⟩, a, some e, w, w⟩)
    (hbody : ∀ a e w v w', body w = .ok (v, w') → S ⟨⟨op, []⟩, a, e, w, w'⟩ ∧ Q (.ok v))
    (hQ : ∀ e, Q (.error e)) : (transaction op body).Each S Q :=
  each_transaction hstill hbody hQ

theorem all_transaction {op : Op} {body : World → Except Exc (α × World)}
    (hstill : ∀ a e w, S ⟨⟨op, []⟩, a, some e, w, w⟩)
    (hbody : ∀ a e w v w', body w = .ok (v, w') → S ⟨⟨op, []⟩, a, e, w, w'⟩) :
    (transaction op body).All S :=
  each_transaction hstill (fun a e w v w' h => ⟨hbody a e w v w' h, trivial⟩) fun _ => trivial

theorem each_waitFor {op : Op} {ready : World → Option (Except Exc α × World)}
    (hready : ∀ a w r w', ready w = some (r, w') → S ⟨⟨op, []⟩, a, exception? r, w, w'⟩ ∧ Q r)
    (hstop : ∀ a e w, S ⟨⟨op, []⟩, a, some e, w, w⟩) (hQ : ∀ e, interruption e = true → Q (.error e)) :
    (waitFor op ready).Each S Q := by
  intro an w r w' hact
  cases an with
  | ok d => exact hready _ w r w' hact
  | fail e =>
      simp only [Option.ite_none_right_eq_some, Option.some.injEq, Prod.mk.injEq] at hact
      obtain ⟨he, rfl, rfl⟩ := hact
      exact ⟨hstop _ e w, hQ e he⟩
  | lost e d => simp at hact
  | late e d => simp at hact

theorem all_waitFor {op : Op} {ready : World → Option (Except Exc α × World)}
    (hready : ∀ a w r w', ready w = some (r, w') → S ⟨⟨op, []⟩, a, exception? r, w, w'⟩)
    (hstop : ∀ a e w, S ⟨⟨op, []⟩, a, some e, w, w⟩) : (waitFor op ready).All S :=
  each_waitFor (fun a w r w' h => ⟨hready a w r w' h, trivial⟩) hstop fun _ _ => trivial

theorem all_toThread {r : Except Exc α} (h : ∀ a e w, S ⟨⟨.thread, []⟩, a, e, w, w⟩) :
    (toThread r).All S := by
  refine all_waitFor ?_ fun a e w => h a (some e) w
  intro a w r' w' hready
  simp only [Option.some.injEq, Prod.mk.injEq] at hready
  obtain ⟨rfl, rfl⟩ := hready
  exact h a _ w

theorem each_request {op : Op} {missing : World → Bool} {serve : Datum → World → Option (α × World)}
    {defer : World → Option World} (hstill : ∀ a e w, S ⟨⟨op, []⟩, a, some e, w, w⟩)
    (hserve : ∀ a e d w v w', serve d w = some (v, w') → S ⟨⟨op, []⟩, a, e, w, w'⟩ ∧ Q (.ok v))
    (hdefer : ∀ a e w w', defer w = some w' → S ⟨⟨op, []⟩, a, some e, w, w'⟩)
    (hQ : ∀ e, Q (.error e)) : (request op missing serve defer).Each S Q := by
  intro an w r w' hact
  cases an with
  | ok d =>
      simp only [Option.map_eq_some_iff, Prod.mk.injEq] at hact
      obtain ⟨⟨v, w₁⟩, hs, rfl, rfl⟩ := hact
      exact hserve _ none d w v w₁ hs
  | fail e =>
      have hout : r = .error e ∧ w' = w := by
        cases e
        all_goals
          simp only [Option.ite_none_right_eq_some, Option.some.injEq, Prod.mk.injEq] at hact
          exact ⟨hact.2.1.symm, hact.2.2.symm⟩
      obtain ⟨rfl, rfl⟩ := hout
      exact ⟨hstill _ e w', hQ e⟩
  | lost e d =>
      simp only [Option.ite_none_right_eq_some, Option.map_eq_some_iff, Prod.mk.injEq] at hact
      obtain ⟨_, ⟨v, w₁⟩, hs, rfl, rfl⟩ := hact
      exact ⟨(hserve _ (some e) d w v w₁ hs).1, hQ e⟩
  | late e d =>
      simp only [Option.ite_none_right_eq_some, Option.map_eq_some_iff, Prod.mk.injEq] at hact
      obtain ⟨_, w₁, hd, rfl, rfl⟩ := hact
      exact ⟨hdefer _ e w w₁ hd, hQ e⟩

theorem all_request {op : Op} {missing : World → Bool} {serve : Datum → World → Option (α × World)}
    {defer : World → Option World} (hstill : ∀ a e w, S ⟨⟨op, []⟩, a, some e, w, w⟩)
    (hserve : ∀ a e d w v w', serve d w = some (v, w') → S ⟨⟨op, []⟩, a, e, w, w'⟩)
    (hdefer : ∀ a e w w', defer w = some w' → S ⟨⟨op, []⟩, a, some e, w, w'⟩) :
    (request op missing serve defer).All S :=
  each_request hstill (fun a e d w v w' h => ⟨hserve a e d w v w' h, trivial⟩) hdefer fun _ => trivial

theorem each_observe {op : Op} {fault : Exc → Bool} {answer : Datum → Option α}
    (h : ∀ a e w, (∀ x, e = some x → fault x = true) → S ⟨⟨op, []⟩, a, e, w, w⟩)
    (hQ : ∀ v, Q (.ok v)) (hQe : ∀ e, fault e = true → Q (.error e)) :
    (observe op fault answer).Each S Q := by
  intro an w r w' hact
  cases an with
  | ok d =>
      simp only [Option.map_eq_some_iff, Prod.mk.injEq] at hact
      obtain ⟨v, _, rfl, rfl⟩ := hact
      exact ⟨h _ none w (fun x hx => by cases hx), hQ v⟩
  | fail e =>
      simp only [Option.ite_none_right_eq_some, Option.some.injEq, Prod.mk.injEq] at hact
      obtain ⟨he, rfl, rfl⟩ := hact
      exact ⟨h _ (some e) w (fun x hx => Option.some.inj hx ▸ he), hQe e he⟩
  | lost e d => simp at hact
  | late e d => simp at hact

theorem all_observe {op : Op} {fault : Exc → Bool} {answer : Datum → Option α}
    (h : ∀ a e w, S ⟨⟨op, []⟩, a, e, w, w⟩) : (observe op fault answer).All S :=
  each_observe (fun a e w _ => h a e w) (fun _ => trivial) fun _ _ => trivial

theorem each_withTimeout (hS : ScopeFree S) {scope : Scope} {p : Act α} {Q' : Except Exc α → Prop}
    (hp : p.Each S Q') (hok : ∀ a, Q' (.ok a) → Q (.ok a))
    (herr : ∀ e, Q' (.error e) → Q (.error (if e = .deadline scope then .timeout else e))) :
    (withTimeout scope p).Each S Q := by
  refine Each.tryCatch (Each.relabel (fun st h => hS st _ h) hp) hok fun e he => ?_
  have := herr e he
  split <;> simp_all [Co.raise]

theorem all_withTimeout (hS : ScopeFree S) {scope : Scope} {p : Act α} (hp : p.All S) :
    (withTimeout scope p).All S :=
  each_withTimeout hS hp (fun _ _ => trivial) fun _ _ => trivial

theorem each_catchException {p : Act α} {h : Exc → Act α} {Q' : Except Exc α → Prop}
    (hp : p.Each S Q') (hok : ∀ a, Q' (.ok a) → Q (.ok a))
    (hh : ∀ e, e.isException = true → Q' (.error e) → (h e).Each S Q)
    (hesc : ∀ e, e.isException = false → Q' (.error e) → Q (.error e)) :
    (catchException p h).Each S Q := by
  refine Each.tryCatch hp hok fun e he => ?_
  cases hx : e.isException with
  | true => simpa only [if_true] using hh e hx he
  | false =>
      rw [if_neg Bool.false_ne_true]
      exact hesc e hx he

theorem all_catchException {p : Act α} {h : Exc → Act α} (hp : p.All S) (hh : ∀ e, (h e).All S) :
    (catchException p h).All S :=
  each_catchException hp (fun _ _ => trivial) (fun e _ _ => hh e) fun _ _ _ => trivial

/-- Only an interruption escapes from `caught`. -/
theorem each_caught {p : Act α} (hp : p.All S) :
    (caught p).Each S fun r => ∀ e, r = .error e → e.isException = false := by
  refine each_catchException (Each.bind (P := fun r => ∀ x, r ≠ .ok (.error x)) hp ?_ fun _ _ _ h => ?_)
    (fun _ _ _ h => by cases h) (fun e _ _ e' h => by cases h) fun e he _ e' h => Except.error.inj h ▸ he
  · exact fun a _ x h => by cases h
  · cases h

theorem all_caught {p : Act α} (hp : p.All S) : (caught p).All S := Each.all (each_caught hp)

theorem all_withAdmission {t : Nat} {p : Act α}
    (hlock : ∀ a w, S ⟨⟨.lock, []⟩, a, none, w, w.setAdmission (some t)⟩)
    (hstop : ∀ a e w, S ⟨⟨.lock, []⟩, a, some e, w, w⟩)
    (hfree : ∀ a w, S ⟨⟨.memory, []⟩, a, none, w, w.setAdmission none⟩) (hp : p.All S) :
    (withAdmission t p).All S := by
  refine All.bind (all_waitFor ?_ hstop) fun _ => All.onExit hp (all_memory hfree)
  intro a w r w' h
  split at h
  · cases h
  · simp only [Option.some.injEq, Prod.mk.injEq] at h
    obtain ⟨rfl, rfl⟩ := h
    exact hlock a w

theorem all_onProject (hS : ScopeFree S) {c : Nat} {p : Act α} (hp : p.All S) : (onProject c p).All S :=
  Each.relabel (fun st h => hS st _ h) hp

end Awaits

/-! ## §2. Steps on storage. -/

/-- The operations of no run: not a call of the model or of a tool, and not a
checkpoint. -/
def Op.isPlain : Op → Bool
  | .model | .command _ | .upload | .tool | .checkpoint | .pack => false
  | _ => true

/-- A step that touches the transfer counters, the uploads and the objects. -/
structure StorageStep (st : WStep) : Prop where
  plain : st.op.op.isPlain = true
  now : st.after.now = st.before.now
  nextId : st.before.nextId ≤ st.after.nextId
  db : st.after.db = { st.before.db with usage := st.after.db.usage }
  mem : st.after.mem = { st.before.mem with uploads := st.after.mem.uploads }
  e2b : st.after.e2b = st.before.e2b

theorem StorageStep.still {op : Op} {scopes : List Scope} {a : Answer Exc Datum} {e : Option Exc}
    {w : World} (h : op.isPlain = true) : StorageStep ⟨⟨op, scopes⟩, a, e, w, w⟩ :=
  ⟨h, rfl, Nat.le_refl _, rfl, rfl, rfl⟩

theorem storageStep_scopeFree : ScopeFree StorageStep :=
  fun _ _ h => ⟨h.plain, h.now, h.nextId, h.db, h.mem, h.e2b⟩

theorem all_startThread (t : Transfer) : (startThread t).All StorageStep :=
  all_memory fun _ _ => ⟨rfl, rfl, Nat.le_succ _, rfl, rfl, rfl⟩

theorem all_joinThread {op : Op} (hop : op.isPlain = true) (thread : Nat)
    (finish : ObjectStore → Except Exc ObjectStore) : (joinThread op thread finish).All StorageStep := by
  have hstore : ∀ a e (w : World) store, StorageStep ⟨⟨op, []⟩, a, e, w, { w with store }⟩ :=
    fun a e w store => ⟨hop, rfl, Nat.le_refl _, rfl, rfl, rfl⟩
  intro an w r w' hact
  refine ⟨?_, trivial⟩
  cases an with
  | ok d =>
      dsimp only at hact
      split at hact
      · split at hact <;>
        · simp only [Option.some.injEq, Prod.mk.injEq] at hact
          obtain ⟨rfl, rfl⟩ := hact
          exact hstore _ _ w _
      · simp only [Option.some.injEq, Prod.mk.injEq] at hact
        obtain ⟨rfl, rfl⟩ := hact
        exact StorageStep.still hop
  | fail e =>
      cases e
      case storage m =>
        simp only [Option.some.injEq, Prod.mk.injEq] at hact
        obtain ⟨rfl, rfl⟩ := hact
        exact hstore _ _ w _
      all_goals
        simp only [Option.ite_none_right_eq_some, Option.some.injEq, Prod.mk.injEq] at hact
        obtain ⟨_, rfl, rfl⟩ := hact
        exact StorageStep.still hop
  | lost e d => simp at hact
  | late e d => simp at hact

theorem all_storagePut (o : StoredObject) : (storagePut o).All StorageStep :=
  All.bind (all_startThread _) fun _ => all_joinThread rfl _ _

theorem all_storageDelete (key : ObjectKey) : (storageDelete key).All StorageStep :=
  All.bind (all_startThread _) fun _ => all_joinThread rfl _ _

theorem all_storageRead (key : ObjectKey) (size : Nat) : (storageRead key size).All StorageStep := by
  intro an w r w' hact
  have hw : w' = w := by
    cases an with
    | ok d =>
        dsimp only at hact
        split at hact
        · simp only [Option.some.injEq, Prod.mk.injEq] at hact
          exact hact.2.symm
        · split at hact <;>
          · simp only [Option.some.injEq, Prod.mk.injEq] at hact
            exact hact.2.symm
    | fail e =>
        cases e
        case storage m =>
          simp only [Option.some.injEq, Prod.mk.injEq] at hact
          exact hact.2.symm
        all_goals
          simp only [Option.ite_none_right_eq_some, Option.some.injEq, Prod.mk.injEq] at hact
          exact hact.2.2.symm
    | lost e d => simp at hact
    | late e d => simp at hact
  subst hw
  exact ⟨StorageStep.still rfl, trivial⟩

theorem all_reserveTransfer (cfg : Config) (direction : Direction) (size : Nat) :
    (reserveTransfer cfg direction size).All StorageStep := by
  refine all_transaction (fun _ _ _ => StorageStep.still rfl) ?_
  intro a e w v w' h
  dsimp only at h
  split at h
  · simp only [Except.ok.injEq, Prod.mk.injEq, true_and] at h
    subst h
    exact ⟨rfl, rfl, Nat.le_refl _, rfl, rfl, rfl⟩
  · cases h

theorem all_readObject (cfg : Config) (key : ObjectKey) (size : Nat) :
    (readObject cfg key size).All StorageStep :=
  All.bind (all_reserveTransfer _ _ _) fun _ => all_storageRead _ _

theorem all_upload (cfg : Config) (u : Upload) : (upload cfg u).All StorageStep := by
  refine All.bind (all_query fun _ _ _ => StorageStep.still rfl) fun owner => ?_
  split
  · trivial
  · exact All.bind (all_reserveTransfer _ _ _) fun _ => all_storagePut _

theorem all_uploadTask (cfg : Config) (u : Upload) : (uploadTask cfg u).All StorageStep :=
  All.bind (All.attempt (all_upload cfg u)) fun _ =>
    all_memory fun _ _ => ⟨rfl, rfl, Nat.le_refl _, rfl, rfl, rfl⟩

theorem all_putObject (key : ObjectKey) (data : Bytes) (chatId : Nat) :
    (putObject key data chatId).All StorageStep := by
  refine All.bind (all_memory fun _ _ => ⟨rfl, rfl, Nat.le_succ _, rfl, rfl, rfl⟩) fun id =>
    all_waitFor ?_ fun _ _ _ => StorageStep.still rfl
  intro a w r w' h
  have hw : w' = w := by
    split at h
    · split at h
      · split at h <;>
        · simp only [Option.some.injEq, Prod.mk.injEq] at h
          exact h.2.symm
      · cases h
    · cases h
  subst hw
  exact StorageStep.still rfl

theorem all_waitForUploads (key : ObjectKey) : (waitForUploads key).All StorageStep := by
  refine All.bind (all_memory fun _ _ => StorageStep.still rfl) fun pending =>
    all_waitFor ?_ fun _ _ _ => StorageStep.still rfl
  intro a w r w' h
  simp only [Option.ite_none_right_eq_some, Option.some.injEq, Prod.mk.injEq] at h
  obtain ⟨_, rfl, rfl⟩ := h
  exact StorageStep.still rfl

theorem all_latestRevision (chatId : Nat) : (latestRevision chatId).All StorageStep := by
  refine All.bind (all_query fun _ _ _ => StorageStep.still rfl) fun chat => ?_
  split
  · trivial
  · refine All.bind (all_query fun _ _ _ => StorageStep.still rfl) fun revision => ?_
    split
    · split <;> trivial
    · trivial

theorem all_revisionBytes (cfg : Config) (revision : ProjectRevision) :
    (revisionBytes cfg revision).All StorageStep := by
  refine All.bind (all_readObject _ _ _) fun data => ?_
  split
  · trivial
  · refine All.bind (all_toThread fun _ _ _ => StorageStep.still rfl) fun files => ?_
    split <;> trivial

theorem all_archiveSlot : archiveSlot.All StorageStep :=
  all_waitFor (fun a w r w' h => by
    simp only [Option.some.injEq, Prod.mk.injEq] at h
    obtain ⟨rfl, rfl⟩ := h
    exact StorageStep.still rfl) fun _ _ _ => StorageStep.still rfl

/-! ## §3. Steps on revisions. -/

/-- The pending revision that `save_revision` records. -/
def newRevision (cfg : Config) (w : World) (chat : Chat) (chatId : Nat) (runId : Option Nat) (archive : Bytes)
    (files : Manifest) (template : String) : ProjectRevision :=
  { id := w.nextId, chatId, runId, parentId := chat.latestSavedRevisionId, status := .pending,
    objectKey := .revision chatId w.nextId, contentHash := contentHash cfg files template,
    archiveSha256 := cfg.sha256 archive, sizeBytes := archive.length, manifest := files,
    templateId := template, createdAt := w.now }

/-- **What the first transaction of `save_revision` does**: it finds an equal
saved revision, or records a new one. -/
theorem recordRevision_cases {cfg : Config} {chatId : Nat} {runId : Option Nat} {archive : Bytes}
    {files : Manifest} {template : String} {w w' : World} {v : Nat ⊕ ProjectRevision}
    (h : recordRevision cfg chatId runId archive files template w = .ok (v, w')) :
    ∃ chat, w.db.chats.get? chatId = some chat ∧
      ((∃ r, chat.latestSavedRevisionId.bind w.db.revisions.get? = some r ∧ r.status = .ready ∧
          r.contentHash = contentHash cfg files template ∧ v = .inl r.id ∧ w' = w) ∨
        v = .inr (newRevision cfg w chat chatId runId archive files template) ∧
          w' = { w with
            nextId := w.nextId + 1
            db := { w.db with
              revisions := w.db.revisions.put (newRevision cfg w chat chatId runId archive files template) } }) := by
  unfold recordRevision at h
  dsimp only at h
  split at h
  · cases h
  · rename_i chat hchat
    refine ⟨chat, hchat, ?_⟩
    split at h
    · rename_i r hr
      simp only [Except.ok.injEq, Prod.mk.injEq] at h
      obtain ⟨rfl, rfl⟩ := h
      simp only [Option.filter_eq_some_iff, decide_eq_true_eq] at hr
      exact .inl ⟨r, hr.1, hr.2.1, hr.2.2, rfl, rfl⟩
    · split at h
      · cases h
      · simp only [Except.ok.injEq, Prod.mk.injEq] at h
        obtain ⟨rfl, rfl⟩ := h
        exact .inr ⟨rfl, rfl⟩

/-- **What the transaction of `promote` does**: nothing to a revision that was
ready when it was read, or the promotion with its event. -/
theorem promoteLocked_cases {revision : ProjectRevision} {event : Option Event} {recovery : Bool}
    {w w' : World} (h : promoteLocked revision event recovery w = .ok ((), w')) :
    (revision.status = .ready ∧ w' = w) ∨
      ∃ chat row db, revision.status = .pending ∧ w.db.chats.get? revision.chatId = some chat ∧
        chat.latestSavedRevisionId = revision.parentId ∧ (recovery = true → w.db.hasRunning chat.id = false) ∧
        w.db.revisions.get? revision.id = some row ∧
        (w.db.promoted chat row).addEvent? event = .ok db ∧ w' = { w with db } := by
  unfold promoteLocked at h
  split at h
  · rename_i hready
    simp only [Except.ok.injEq, Prod.mk.injEq, true_and] at h
    exact .inl ⟨hready, h.symm⟩
  · split at h
    · cases h
    · rename_i chat hchat
      split at h
      · cases h
      · rename_i hparent
        rw [not_or, not_not, not_not] at hparent
        split at h
        · cases h
        · rename_i hrunning
          split at h
          · cases h
          · rename_i row hrow
            split at h
            · rename_i db hdb
              simp only [Except.ok.injEq, Prod.mk.injEq, true_and] at h
              exact .inr ⟨chat, row, db, hparent.1, hchat, hparent.2,
                fun hr => Bool.not_eq_true _ ▸ fun hrun => hrunning ⟨hr, hrun⟩, hrow, hdb, h.symm⟩
            · cases h

/-- The transaction that records a checkpoint, or its rollback. -/
def Recorded (cfg : Config) (chatId : Nat) (runId : Option Nat) (archive : Bytes) (files : Manifest)
    (template : String) (st : WStep) : Prop :=
  st.op.op = .commit ∧ (st.after = st.before ∨
    ∃ v, recordRevision cfg chatId runId archive files template st.before = .ok (v, st.after))

/-- The transaction of `promote`, or its rollback. -/
def Promoted (event : Option Event) (st : WStep) : Prop :=
  (∃ id, st.op.op = .promote id) ∧ (st.after = st.before ∨
    ∃ revision recovery, promoteLocked revision event recovery st.before = .ok ((), st.after))

/-- The steps that save a checkpoint; `events` are those that may be promoted with it. -/
def SaveStep (cfg : Config) (chatId : Nat) (runId : Option Nat) (events : Option Event → Prop)
    (st : WStep) : Prop :=
  StorageStep st ∨ (∃ archive files template,
    Recorded cfg chatId runId archive files template st) ∨ ∃ event, events event ∧ Promoted event st

theorem all_promote {id : Nat} {event : Option Event} {recovery : Bool} :
    (promote id event recovery).All fun st => StorageStep st ∨ Promoted event st := by
  refine All.bind (all_query fun _ _ _ => .inl (StorageStep.still rfl)) fun revision => ?_
  split
  · trivial
  · rename_i rev
    exact all_transaction (fun _ _ _ => .inr ⟨⟨id, rfl⟩, .inl rfl⟩)
      fun _ _ _ _ _ h => .inr ⟨⟨id, rfl⟩, .inr ⟨rev, recovery, h⟩⟩

theorem each_makeEvent {factory : Option (Nat → World → Event)} {events : Option Event → Prop} {id : Nat}
    (hnone : factory = none → events none) (hsome : ∀ f w, factory = some f → events (some (f id w))) :
    (makeEvent factory id).Each StorageStep fun r => ∀ event, r = .ok event → events event := by
  cases factory with
  | none => exact fun event h => Except.ok.inj h ▸ hnone rfl
  | some f =>
      exact each_memory (fun _ _ => StorageStep.still rfl)
        fun w event h => Except.ok.inj h ▸ hsome f w rfl

theorem all_saveRevision (cfg : Config) (chatId : Nat) (runId : Option Nat) (archive : Bytes)
    (template : String) {factory : Option (Nat → World → Event)} {events : Option Event → Prop}
    (hnone : factory = none → events none) (hsome : ∀ f id w, factory = some f → events (some (f id w))) :
    (saveRevision cfg chatId runId archive template factory).All (SaveStep cfg chatId runId events) := by
  refine All.bind (all_toThread fun _ _ _ => .inl (StorageStep.still rfl)) fun files =>
    All.bind (all_transaction (fun _ _ _ => .inr (.inl ⟨archive, files, template, rfl, .inl rfl⟩))
      fun _ _ _ v _ h => .inr (.inl ⟨archive, files, template, rfl, .inr ⟨v, h⟩⟩)) fun recorded => ?_
  split
  · trivial
  · rename_i revision
    refine All.bind (All.mono (fun _ => .inl) (all_putObject _ _ _)) fun _ =>
      Each.bind_all (Each.mono (fun _ => .inl) (fun _ h => h)
        (each_makeEvent hnone fun f w hf => hsome f revision.id w hf)) fun event hevent =>
        All.bind (All.mono ?_ all_promote) fun _ => trivial
    rintro st (h | h)
    · exact .inl h
    · exact .inr (.inr ⟨event, hevent event rfl, h⟩)

/-- No event is promoted with the revision of a legacy project. -/
theorem all_ensureRevision (cfg : Config) (chatId : Nat) :
    (ensureRevision cfg chatId).All (SaveStep cfg chatId none (· = none)) := by
  have hlatest : (latestRevision chatId).All (SaveStep cfg chatId none (· = none)) :=
    All.mono (fun _ => .inl) (all_latestRevision chatId)
  refine All.bind hlatest fun revision => ?_
  split
  · trivial
  · refine All.bind (all_toThread fun _ _ _ => .inl (StorageStep.still rfl)) fun archive => ?_
    split
    · exact All.bind (all_saveRevision _ _ _ _ _ (fun _ => rfl) fun _ _ _ h => by cases h) fun _ => hlatest
    · exact hlatest

end WebBuilder
