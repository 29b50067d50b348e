/-
  WebBuilder.Worker.Shelf — projects and their checkpoints, step by step.

  `ShelfMove` is what a step can do to the projects, the revisions and the
  saved pointers: one case for each transaction that writes them.

  Main results:
    * `change_shelf` — every step of the worker is such a move;
    * `shelved` — in every reachable state a revision belongs to a project.
-/
import WebBuilder.Service.Lock
import WebBuilder.Worker.Steps

namespace WebBuilder.Worker

open WebBuilder.Async WebBuilder.Store WebBuilder.Budget WebBuilder.Run WebBuilder.Service

variable {cfg : Config} {w w' : World}

/-! ## §1. Moves. -/

/-- What of a project its checkpoints depend on. -/
structure Shelf where
  id : Nat
  userId : Nat
  saved : Option Nat
  verified : Option Nat
  deriving DecidableEq

def shelf (chat : Chat) : Shelf := ⟨chat.id, chat.userId, chat.latestSavedRevisionId, chat.latestVerifiedRevisionId⟩

/-- The projects keep their owners and their pointers. -/
def KeepsShelves (db db' : Database) : Prop :=
  ∀ c, (db'.chats.get? c).map shelf = (db.chats.get? c).map shelf

/-- A step that moves no pointer. -/
inductive Tidy (cfg : Config) (w w' : World) : Prop where
  | keep (hid : w.nextId ≤ w'.nextId) (hchats : KeepsShelves w.db w'.db)
      (hrevisions : w'.db.revisions = w.db.revisions)
  | newChat (userId : Nat) (hid : w.nextId < w'.nextId)
      (hchats : w'.db.chats = w.db.chats.put ⟨w.nextId, userId, none, none, none⟩)
      (hrevisions : w'.db.revisions = w.db.revisions)
  | record (chat : Chat) (chatId : Nat) (runId : Option Nat) (archive : Bytes) (files : Manifest) (template : String)
      (hchat : w.db.chats.get? chatId = some chat)
      (hrecord : recordRevision cfg chatId runId archive files template w =
        .ok (.inr (newRevision cfg w chat chatId runId archive files template), w'))
      (hw : w' = { w with
        nextId := w.nextId + 1
        db := { w.db with
          revisions := w.db.revisions.put (newRevision cfg w chat chatId runId archive files template) } })
  | fail (row : ProjectRevision) (hrow : w.db.revisions.get? row.id = some row) (hstatus : row.status = .pending)
      (hid : w'.nextId = w.nextId) (hchats : w'.db.chats = w.db.chats)
      (hrevisions : w'.db.revisions = w.db.revisions.put { row with status := .failed })
  | mark (now chatId : Nat) (chat : Chat) (hchat : w.db.chats.get? chatId = some chat)
      (hidle : w.db.hasRunning chatId = false)
      (hw : w' = { w with db := w.db.markDeleting ((w.db.expired now chat).map ProjectRevision.id) })
  | erase (revisionId : Nat) (hid : w'.nextId = w.nextId) (hchats : w'.db.chats = w.db.chats)
      (hrevisions : w'.db.revisions = w.db.revisions.eraseIf fun r => r.id = revisionId ∧ r.status = .deleting)
  | drop (chatId : Nat) (hid : w'.nextId = w.nextId) (hchats : w'.db.chats = w.db.chats.erase chatId)
      (hrevisions : w'.db.revisions = w.db.revisions.eraseIf fun r => r.chatId = chatId)
      (hidle : w'.db.hasRunning chatId = false)

/-- What a step does to projects, revisions and pointers. -/
inductive ShelfMove (cfg : Config) (w w' : World) : Prop where
  | tidy (h : Tidy cfg w w') (hpromotions : w'.db.promotions = w.db.promotions)
  | promote (revision row : ProjectRevision) (chat : Chat) (hpending : revision.status = .pending)
      (hchat : w.db.chats.get? revision.chatId = some chat)
      (hparent : chat.latestSavedRevisionId = revision.parentId)
      (hrow : w.db.revisions.get? revision.id = some row) (hid : w'.nextId = w.nextId)
      (hchats : w'.db.chats = w.db.chats.put { chat with latestSavedRevisionId := some row.id })
      (hrevisions : w'.db.revisions = w.db.revisions.put { row with status := .ready })
      (hpromotions : w'.db.promotions = w.db.promotions ++
        [⟨chat.id, row.id, row.parentId, chat.latestSavedRevisionId⟩])
  | verify (live : LiveRun) (run : Run) (revisionId : Nat) (url : Option String)
      (hrun : w.db.runs.get? live.id = some run) (hrunning : run.status = .running)
      (hrevision : live.revisionId = some revisionId) (hid : w'.nextId = w.nextId)
      (hchats : w'.db.chats = w.db.chats.modify live.chatId fun c => c.finished url (some revisionId))
      (hrevisions : w'.db.revisions = w.db.revisions) (hpromotions : w'.db.promotions = w.db.promotions)

theorem Tidy.of_eq (hid : w.nextId ≤ w'.nextId) (hchats : w'.db.chats = w.db.chats)
    (hrevisions : w'.db.revisions = w.db.revisions) : Tidy cfg w w' :=
  .keep hid (fun c => by rw [hchats]) hrevisions

/-- A project is rewritten with its owner and its pointers. -/
theorem keepsShelves_put {db db' : Database} {chat : Chat} (chat' : Chat) (hchat : db.chats.get? chat'.id = some chat)
    (hshelf : shelf chat' = shelf chat) (hchats : db'.chats = db.chats.put chat') : KeepsShelves db db' := by
  intro c
  rw [hchats, Table.get?_put]
  split
  · rename_i hc
    rw [hc, key_chat, hchat, Option.map_some, Option.map_some, hshelf]
  · rfl

theorem keepsShelves_modify {db db' : Database} (chatId : Nat) (f : Chat → Chat) (hf : ∀ c, shelf (f c) = shelf c)
    (hchats : db'.chats = db.chats.modify chatId f) : KeepsShelves db db' := by
  intro c
  rw [hchats, Table.get?_modify _ _ _ fun c => congrArg Shelf.id (hf c)]
  split
  · rename_i hc
    rw [hc, Option.map_map]
    exact congrArg (Option.map · _) (funext hf)
  · rfl

/-! ## §2. Every step is a move. -/

theorem interrupt_tables : ∀ (found : List Interruption) (db : Database),
    (found.foldl Database.interrupt db) = { db with runs := (found.foldl Database.interrupt db).runs }
  | [], _ => rfl
  | i :: found, db => interrupt_tables found (db.interrupt i)

theorem queueDeletions_tables (db : Database) (now : Nat) (keys : List ObjectKey) :
    db.queueDeletions now keys = { db with deletions := (db.queueDeletions now keys).deletions } := rfl

theorem addEvent?_cases {db db' : Database} {event : Option Event} (h : db.addEvent? event = .ok db') :
    db' = { db with runEvents := db'.runEvents } := by
  cases event with
  | none => exact (Except.ok.inj h) ▸ rfl
  | some e => rw [(addEvent_eq h).1]

/-- Tidy steps that promote nothing. -/
abbrev TidyMove (cfg : Config) (w w' : World) : Prop := Tidy cfg w w' ∧ w'.db.promotions = w.db.promotions

theorem TidyMove.of_eq (hid : w.nextId ≤ w'.nextId) (hchats : w'.db.chats = w.db.chats)
    (hrevisions : w'.db.revisions = w.db.revisions) (hpromotions : w'.db.promotions = w.db.promotions) :
    TidyMove cfg w w' := ⟨.of_eq hid hchats hrevisions, hpromotions⟩

theorem hasRunning_dropChat (db : Database) (chatId : Nat) : (db.dropChat chatId).hasRunning chatId = false := by
  rw [Bool.eq_false_iff]
  intro h
  obtain ⟨r, hr, hrun⟩ := List.any_eq_true.mp h
  have hother := (Table.mem_eraseIf.mp hr).2
  simp_all

theorem basic_shelf (h : Basic cfg w w') : TidyMove cfg w w' := by
  cases h with
  | quiet h => exact .of_eq h.nextId (by rw [h.db]) (by rw [h.db]) (by rw [h.db])
  | reserve => exact .of_eq (Nat.le_refl _) rfl rfl rfl
  | record chatId runId archive files template h =>
      obtain ⟨chat, hchat, ⟨_, _, _, _, _, rfl⟩ | ⟨rfl, hw⟩⟩ := recordRevision_cases h
      · exact .of_eq (Nat.le_refl _) rfl rfl rfl
      · exact ⟨.record chat chatId runId archive files template hchat h hw, by rw [hw]⟩
  | publish chatId revisionId url h =>
      obtain ⟨chat, r, hchat, _, _, _, rfl⟩ := publishPreview_eq h
      obtain rfl : chat.id = chatId := Table.key_of_get? hchat
      exact ⟨.keep (Nat.le_refl _) (keepsShelves_put { chat with appUrl := some url } hchat rfl rfl) rfl, rfl⟩
  | live hdb _ hid _ => exact .of_eq hid.ge (by rw [hdb]) (by rw [hdb]) (by rw [hdb])
  | fail revisionId row hrow hstatus =>
      have hid : row.id = revisionId := Table.key_of_get? hrow
      exact ⟨.fail row (hid ▸ hrow) hstatus rfl rfl rfl, rfl⟩
  | prune now chatId =>
      unfold pruneRevisions
      split
      · exact .of_eq (Nat.le_refl _) rfl rfl rfl
      · rename_i chat hchat
        split
        · exact .of_eq (Nat.le_refl _) rfl rfl rfl
        · rename_i hidle
          exact ⟨.mark now chatId chat hchat (Bool.not_eq_true _ ▸ hidle) rfl, rfl⟩
  | erase revisionId => exact ⟨.erase revisionId rfl rfl rfl, rfl⟩
  | archived => exact .of_eq (Nat.le_refl _) rfl rfl rfl
  | forgotten => exact .of_eq (Nat.le_refl _) rfl rfl rfl
  | dropOld => exact .of_eq (Nat.le_refl _) rfl rfl rfl
  | delete chatId keys h =>
      unfold deleteRows at h
      split at h
      · cases h
      · simp only [Except.ok.injEq, Prod.mk.injEq, true_and] at h
        exact h ▸ ⟨.drop chatId rfl rfl rfl (hasRunning_dropChat _ chatId), rfl⟩
  | interrupt found h =>
      unfold interruptRows at h
      split at h
      · cases h
      · simp only [Except.ok.injEq, Prod.mk.injEq, true_and] at h
        subst h
        have hchats : (found.foldl Database.interrupt w.db).chats = w.db.chats := by
          rw [interrupt_tables]
        have hrevisions : (found.foldl Database.interrupt w.db).revisions = w.db.revisions := by
          rw [interrupt_tables]
        have hpromotions : (found.foldl Database.interrupt w.db).promotions = w.db.promotions := by
          rw [interrupt_tables]
        exact .of_eq (Nat.le_refl _) hchats hrevisions hpromotions

theorem plain_shelf (h : Plain cfg w w') : TidyMove cfg w w' := by
  cases h with
  | basic h => exact basic_shelf h
  | event e _ h =>
      obtain ⟨rfl, _⟩ := addEvent_eq h
      exact .of_eq (Nat.le_refl _) rfl rfl rfl
  | progress hdb _ hid _ => exact .of_eq hid.ge (by rw [hdb]) (by rw [hdb]) (by rw [hdb])

theorem admission_shelf {userId : Nat} {prompt : String} {chatId : Option Nat} {busy : Bool} {a : Admitted}
    (h : admitRows cfg userId prompt chatId busy w = .ok (a, w')) : TidyMove cfg w w' := by
  obtain ⟨user, c, w₁, hchat, hinsert⟩ := admitRows_cases h
  obtain rfl := (congrArg Prod.snd hinsert).symm
  rcases admitChat_cases hchat with ⟨chat, _, _, _, _, rfl⟩ | ⟨_, _, rfl⟩
  · exact .of_eq (Nat.le_add_right _ _) rfl rfl rfl
  · refine ⟨.newChat userId ?_ rfl rfl, rfl⟩
    show w.nextId < w.nextId + 1 + 2
    omega

theorem verifiedBy_eq {live : LiveRun} {status : RunStatus} {v : Nat} (h : verifiedBy live status = some v) :
    status = .succeeded ∧ live.revisionId = some v := by
  unfold verifiedBy at h
  split at h
  · exact ⟨‹_›, h⟩
  · cases h

/-- The end of a run moves the verified pointer, or none. -/
theorem finish_shelf {live : LiveRun} {status : RunStatus} {reason : String} {url : Option String} {v : Option Event}
    (h : finishRun live status reason url w = .ok (v, w')) :
    TidyMove cfg w w' ∨ ∃ run revisionId, w.db.runs.get? live.id = some run ∧ run.status = .running ∧
      live.revisionId = some revisionId ∧ w'.nextId = w.nextId ∧
      w'.db.chats = w.db.chats.modify live.chatId (fun c => c.finished url (some revisionId)) ∧
      w'.db.revisions = w.db.revisions ∧ w'.db.promotions = w.db.promotions := by
  rcases finishRun_cases h with ⟨_, rfl, _⟩ | ⟨run, w₁, hrun, hrunning, _, hmark, _, rfl⟩
  · exact .inl (.of_eq (Nat.le_refl _) rfl rfl rfl)
  · rcases markVerified_eq hmark with ⟨rfl, hnone⟩ | ⟨r, revisionId, hsome, _, _, _, rfl⟩
    · -- the run has saved nothing that was verified
      refine .inl ⟨.keep (Nat.le_refl _) ?_ rfl, rfl⟩
      refine keepsShelves_modify live.chatId (fun c => c.finished url (verifiedBy live status)) (fun c => ?_) rfl
      rw [hnone]
      rfl
    · obtain ⟨_, hrevision⟩ := verifiedBy_eq hsome
      refine .inr ⟨run, revisionId, hrun, hrunning, hrevision, rfl, ?_, rfl, rfl⟩
      show (w.db.chats.modify live.chatId fun c => c.finished url (verifiedBy live status)) = _
      rw [hsome]

/-- **Every step** of the worker is a move. -/
theorem change_shelf (h : Change cfg w w') : ShelfMove cfg w w' := by
  have htidy : TidyMove cfg w w' → ShelfMove cfg w w' := fun h => .tidy h.1 h.2
  cases h with
  | plain h => exact htidy (plain_shelf h)
  | admission userId prompt chatId busy h => exact htidy (admission_shelf h)
  | register => exact htidy (.of_eq (Nat.le_refl _) rfl rfl rfl)
  | promote revision event recovery _ h =>
      rcases promoteLocked_cases h with ⟨_, rfl⟩ | ⟨chat, row, db, hpending, hchat, hparent, _, hrow, hdb, rfl⟩
      · exact htidy (.of_eq (Nat.le_refl _) rfl rfl rfl)
      · have htables := addEvent?_cases hdb
        exact .promote revision row chat hpending hchat hparent hrow rfl (congrArg Database.chats htables)
          (congrArg Database.revisions htables) (congrArg Database.promotions htables)
  | saved => exact htidy (.of_eq (Nat.le_refl _) rfl rfl rfl)
  | finish live status reason url _ h =>
      rcases finish_shelf h with h | ⟨run, revisionId, hrun, hrunning, hrevision, hid, hchats, hrevisions, hpromotions⟩
      · exact htidy h
      · exact .verify live run revisionId url hrun hrunning hrevision hid hchats hrevisions hpromotions

theorem restart_shelf (cfg : Config) (w : World) : TidyMove cfg w w.restart := by
  refine ⟨.keep (Nat.le_refl _) (fun c => ?_) rfl, rfl⟩
  show ((w.db.chats.update (fun c => { c with appUrl := none }) fun _ => rfl).get? c).map shelf = _
  rw [Table.get?_update, Option.map_map]
  rfl

/-! ## §3. A revision belongs to a project. -/

/-- Ids are older than the next one, and revisions belong to projects. -/
structure Shelved (w : World) : Prop where
  chatIds : ∀ c, (w.db.chats.get? c).isSome → c < w.nextId
  revisionIds : ∀ v, (w.db.revisions.get? v).isSome → v < w.nextId
  revisionChats : ∀ v r, w.db.revisions.get? v = some r → (w.db.chats.get? r.chatId).isSome

theorem KeepsShelves.isSome {db db' : Database} (h : KeepsShelves db db') (c : Nat) :
    (db'.chats.get? c).isSome = (db.chats.get? c).isSome := by
  have := congrArg Option.isSome (h c)
  rwa [Option.isSome_map, Option.isSome_map] at this

theorem isSome_put {α : Type} [Keyed α Nat] {t : Table α} {r : α} (r' : α) (h : t.get? (key r') = some r) (k : Nat) :
    ((t.put r').get? k).isSome = (t.get? k).isSome := by
  rw [Table.get?_put]
  split
  · rename_i hk
    rw [hk, h]
    rfl
  · rfl

/-- No project disappears, no revision comes in, and none changes its project. -/
theorem Shelved.of_same (hw : Shelved w) (hid : w.nextId ≤ w'.nextId)
    (hchats : ∀ c, (w'.db.chats.get? c).isSome = (w.db.chats.get? c).isSome)
    (hrevisions : ∀ v r', w'.db.revisions.get? v = some r' →
      ∃ r, w.db.revisions.get? v = some r ∧ r'.chatId = r.chatId) : Shelved w' where
  chatIds c hc := (hw.chatIds c (hchats c ▸ hc)).trans_le hid
  revisionIds v hv := by
    obtain ⟨r', hr'⟩ := Option.isSome_iff_exists.mp hv
    obtain ⟨r, hr, _⟩ := hrevisions v r' hr'
    exact (hw.revisionIds v (hr ▸ rfl)).trans_le hid
  revisionChats v r' hr' := by
    obtain ⟨r, hr, hchat⟩ := hrevisions v r' hr'
    rw [hchats, hchat]
    exact hw.revisionChats v r hr

/-- A revision is rewritten, but not moved to another project. -/
theorem revision_of_put {t : Table ProjectRevision} {row row' r' : ProjectRevision} {v : Nat}
    (h : (t.put row').get? v = some r') (hrow : t.get? row'.id = some row) (hchat : row'.chatId = row.chatId) :
    ∃ r, t.get? v = some r ∧ r'.chatId = r.chatId := by
  rw [Table.get?_put] at h
  split at h
  · rename_i hv
    cases h
    exact ⟨row, hv ▸ hrow, hchat⟩
  · exact ⟨r', h, rfl⟩

theorem revision_of_eraseIf {t : Table ProjectRevision} {cond : ProjectRevision → Bool} {v : Nat} {r : ProjectRevision}
    (h : (t.eraseIf cond).get? v = some r) : t.get? v = some r ∧ cond r = false := by
  rw [Table.get?_eraseIf, Option.filter_eq_some_iff] at h
  exact ⟨h.1, by simpa using h.2⟩

theorem get?_markDeleting (db : Database) (ids : List Nat) (v : Nat) :
    (db.markDeleting ids).revisions.get? v = (db.revisions.get? v).map (ProjectRevision.markDeleting ids) :=
  Table.get?_update _ _ (ProjectRevision.key_markDeleting ids) _

theorem shelved_tidy (h : Tidy cfg w w') (hw : Shelved w) : Shelved w' := by
  cases h with
  | keep hid hchats hrevisions =>
      exact hw.of_same hid hchats.isSome fun v r' hr' => ⟨r', hrevisions ▸ hr', rfl⟩
  | newChat userId hid hchats hrevisions =>
      have hsome : ∀ c, (w'.db.chats.get? c).isSome → c = w.nextId ∨ (w.db.chats.get? c).isSome := fun c hc => by
        rw [hchats, Table.get?_put] at hc
        split at hc
        · exact .inl ‹_›
        · exact .inr hc
      have hkept : ∀ c, (w.db.chats.get? c).isSome → (w'.db.chats.get? c).isSome := fun c hc => by
        rw [hchats, Table.get?_put]
        split
        · rfl
        · exact hc
      refine ⟨fun c hc => ?_, fun v hv => ?_, fun v r hr => hkept _ (hw.revisionChats v r (hrevisions ▸ hr))⟩
      · rcases hsome c hc with rfl | hc
        · exact hid
        · exact (hw.chatIds c hc).trans hid
      · rw [hrevisions] at hv
        exact (hw.revisionIds v hv).trans hid
  | record chat chatId runId archive files template hchat _ hw' =>
      subst hw'
      refine ⟨fun c hc => Nat.lt_succ_of_lt (hw.chatIds c hc), fun v hv => ?_, fun v r hr => ?_⟩
      · rw [Table.get?_put] at hv
        split at hv
        · rename_i hv'
          rw [hv']
          exact Nat.lt_succ_self _
        · exact Nat.lt_succ_of_lt (hw.revisionIds v hv)
      · rw [Table.get?_put] at hr
        split at hr
        · cases hr
          show (w.db.chats.get? chatId).isSome
          rw [hchat]
          rfl
        · exact hw.revisionChats v r hr
  | fail row hrow _ hid hchats hrevisions =>
      refine hw.of_same hid.ge (fun c => by rw [hchats]) fun v r' hr' => ?_
      rw [hrevisions] at hr'
      exact revision_of_put hr' hrow rfl
  | mark now chatId chat _ _ hw' =>
      subst hw'
      refine hw.of_same (Nat.le_refl _) (fun _ => rfl) fun v r' hr' => ?_
      obtain ⟨r, hr, rfl⟩ := Option.map_eq_some_iff.mp ((get?_markDeleting _ _ v).symm.trans hr')
      refine ⟨r, hr, ?_⟩
      unfold ProjectRevision.markDeleting
      split <;> rfl
  | erase revisionId hid hchats hrevisions =>
      refine hw.of_same hid.ge (fun c => by rw [hchats]) fun v r' hr' => ?_
      rw [hrevisions] at hr'
      exact ⟨r', (revision_of_eraseIf hr').1, rfl⟩
  | drop chatId hid hchats hrevisions _ =>
      refine ⟨fun c hc => ?_, fun v hv => ?_, fun v r hr => ?_⟩
      · rw [hchats, Table.get?_erase] at hc
        split at hc
        · cases hc
        · exact hid ▸ hw.chatIds c hc
      · rw [hrevisions] at hv
        obtain ⟨r, hr⟩ := Option.isSome_iff_exists.mp hv
        have hfound := (revision_of_eraseIf hr).1
        exact hid ▸ hw.revisionIds v (hfound ▸ rfl)
      · rw [hrevisions] at hr
        obtain ⟨hfound, hother⟩ := revision_of_eraseIf hr
        rw [hchats, Table.get?_erase, if_neg (by simpa using hother)]
        exact hw.revisionChats v r hfound

/-- The row of a stored record is found under its own id. -/
theorem get?_self {α : Type} [Keyed α Nat] {t : Table α} {k : Nat} {r : α} (h : t.get? k = some r) :
    t.get? (key r) = some r := by
  rw [Table.key_of_get? h, h]

theorem get?_finished (t : Table Chat) (chatId c : Nat) (url : Option String) (verified : Option Nat) :
    (t.modify chatId fun x => x.finished url verified).get? c =
      if c = chatId then (t.get? chatId).map fun x => x.finished url verified else t.get? c :=
  Table.get?_modify t chatId (fun x => x.finished url verified) (fun _ => rfl) c

theorem shelved_move (h : ShelfMove cfg w w') (hw : Shelved w) : Shelved w' := by
  cases h with
  | tidy h _ => exact shelved_tidy h hw
  | promote revision row chat _ hchat _ hrow hid hchats hrevisions _ =>
      have hchat' : w.db.chats.get? chat.id = some chat := get?_self hchat
      have hrow' : w.db.revisions.get? row.id = some row := get?_self hrow
      refine hw.of_same hid.ge (fun c => ?_) fun v r' hr' => ?_
      · rw [hchats]
        exact isSome_put { chat with latestSavedRevisionId := some row.id } hchat' c
      · rw [hrevisions] at hr'
        exact revision_of_put hr' hrow' rfl
  | verify live run revisionId url _ _ _ hid hchats hrevisions _ =>
      refine hw.of_same hid.ge (fun c => ?_) fun v r' hr' => ⟨r', hrevisions ▸ hr', rfl⟩
      rw [hchats, get?_finished]
      split
      · rename_i hc
        rw [Option.isSome_map, hc]
      · rfl

theorem Deployed.shelved (h : Deployed w) : Shelved w where
  chatIds c hc := by
    rw [h.chats] at hc
    cases hc
  revisionIds v hv := by
    rw [h.revisions] at hv
    cases hv
  revisionChats v r hr := by
    rw [h.revisions] at hr
    cases hr

/-- **A revision belongs to a project**, in every reachable state. -/
theorem shelved (hw : Shelved w) {q : Pool Nat WorkerCall World Label Exc Datum}
    (h : (worker cfg).Reaches Always (Pool.start w) q) : Shelved q.shared :=
  invariant (I := Shelved) (fun _ _ hI hc => shelved_move (change_shelf hc) hI)
    (fun w hI => shelved_tidy (restart_shelf cfg w).1 hI) hw h

end WebBuilder.Worker
