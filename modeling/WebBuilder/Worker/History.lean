/-
  WebBuilder.Worker.History — the checkpoints of a project and its pointers.

  A revision is pending until it is promoted; that makes it ready and the
  saved revision of its project, if the saved revision is still its parent.
  The promotions of a project are a `Chain`, then.  Pruning takes only what no
  pointer names, and nothing of a project with a running request.

  Main results:
    * `Tidy.lineal`, `lineal_promoted` — the history stays a chain;
    * `Ready.of_move` — what stays ready in a step;
    * `Tidy.pointed` — pointers name ready revisions of their project.
-/
import WebBuilder.Store.Lineage
import WebBuilder.Worker.Rows

namespace WebBuilder.Worker

open WebBuilder.Async WebBuilder.Store WebBuilder.Budget WebBuilder.Run WebBuilder.Service

variable {cfg : Config} {w w' : World}

/-! ## §1. What a step leaves of a row. -/

/-- The rows agree in everything but the status. -/
def SameRevision (r r' : ProjectRevision) : Prop := r' = { r with status := r'.status }

theorem SameRevision.refl (r : ProjectRevision) : SameRevision r r := rfl

theorem SameRevision.status (r : ProjectRevision) (status : RevisionStatus) : SameRevision r { r with status } := rfl

theorem SameRevision.trans {r r' r'' : ProjectRevision} (h : SameRevision r r') (h' : SameRevision r' r'') :
    SameRevision r r'' := by
  unfold SameRevision at h h' ⊢
  rw [h', h]

theorem SameRevision.chatId {r r' : ProjectRevision} (h : SameRevision r r') : r'.chatId = r.chatId := by rw [h]

theorem SameRevision.parentId {r r' : ProjectRevision} (h : SameRevision r r') : r'.parentId = r.parentId := by rw [h]

/-- A row of a tidy step was there before and has not turned ready, or it is new. -/
theorem Tidy.revisions (h : Tidy cfg w w') {v : Nat} {r' : ProjectRevision} (hr' : w'.db.revisions.get? v = some r') :
    (∃ r, w.db.revisions.get? v = some r ∧ SameRevision r r' ∧ (r'.status = .ready → r.status = .ready)) ∨
      (v = w.nextId ∧ r'.status = .pending ∧
        ∃ chat, w.db.chats.get? r'.chatId = some chat ∧ r'.parentId = chat.latestSavedRevisionId) := by
  cases h with
  | keep _ _ hrevisions => exact .inl ⟨r', hrevisions ▸ hr', .refl r', fun h => h⟩
  | newChat _ _ _ hrevisions => exact .inl ⟨r', hrevisions ▸ hr', .refl r', fun h => h⟩
  | record chat chatId runId archive files template hchat _ hw =>
      subst hw
      rw [Table.get?_put] at hr'
      split at hr'
      · rename_i hv
        cases hr'
        exact .inr ⟨hv, rfl, chat, hchat, rfl⟩
      · exact .inl ⟨r', hr', .refl r', fun h => h⟩
  | fail row hrow _ _ _ hrevisions =>
      rw [hrevisions, Table.get?_put] at hr'
      split at hr'
      · rename_i hv
        cases hr'
        exact .inl ⟨row, by rw [hv]; exact hrow, .status row _, fun h => by cases h⟩
      · exact .inl ⟨r', hr', .refl r', fun h => h⟩
  | mark now chatId chat _ _ hw =>
      subst hw
      obtain ⟨r, hr, rfl⟩ := Option.map_eq_some_iff.mp ((get?_markDeleting _ _ v).symm.trans hr')
      refine .inl ⟨r, hr, ?_⟩
      unfold ProjectRevision.markDeleting
      split
      · exact ⟨.status r _, fun h => by cases h⟩
      · exact ⟨.refl r, fun h => h⟩
  | erase _ _ _ hrevisions =>
      rw [hrevisions] at hr'
      exact .inl ⟨r', (revision_of_eraseIf hr').1, .refl r', fun h => h⟩
  | drop _ _ _ hrevisions _ =>
      rw [hrevisions] at hr'
      exact .inl ⟨r', (revision_of_eraseIf hr').1, .refl r', fun h => h⟩

theorem KeepsShelves.some {db db' : Database} (h : KeepsShelves db db') {c : Nat} {chat' : Chat}
    (hchat' : db'.chats.get? c = some chat') : ∃ chat, db.chats.get? c = some chat ∧ shelf chat' = shelf chat := by
  have hkept := h c
  rw [hchat', Option.map_some] at hkept
  obtain ⟨chat, hchat, hsame⟩ := Option.map_eq_some_iff.mp hkept.symm
  exact ⟨chat, hchat, hsame.symm⟩

/-- A project of a tidy step has kept its pointers, or it is new. -/
theorem Tidy.chats (h : Tidy cfg w w') {c : Nat} {chat' : Chat} (hchat' : w'.db.chats.get? c = some chat') :
    (∃ chat, w.db.chats.get? c = some chat ∧ shelf chat' = shelf chat) ∨
      (c = w.nextId ∧ chat'.latestSavedRevisionId = none ∧ chat'.latestVerifiedRevisionId = none) := by
  cases h with
  | keep _ hchats _ => exact .inl (hchats.some hchat')
  | newChat userId _ hchats _ =>
      rw [hchats, Table.get?_put] at hchat'
      split at hchat'
      · cases hchat'
        exact .inr ⟨‹_›, rfl, rfl⟩
      · exact .inl ⟨chat', hchat', rfl⟩
  | record _ _ _ _ _ _ _ _ hw => exact .inl ⟨chat', by rw [hw] at hchat'; exact hchat', rfl⟩
  | fail _ _ _ _ hchats _ => exact .inl ⟨chat', hchats ▸ hchat', rfl⟩
  | mark _ _ _ _ _ hw => exact .inl ⟨chat', by rw [hw] at hchat'; exact hchat', rfl⟩
  | erase _ _ hchats _ => exact .inl ⟨chat', hchats ▸ hchat', rfl⟩
  | drop chatId _ hchats _ _ =>
      rw [hchats, Table.get?_erase] at hchat'
      split at hchat'
      · cases hchat'
      · exact .inl ⟨chat', hchat', rfl⟩

theorem Tidy.nextId (h : Tidy cfg w w') : w.nextId ≤ w'.nextId := by
  cases h with
  | keep hid => exact hid
  | newChat _ hid => exact hid.le
  | record _ _ _ _ _ _ _ _ hw =>
      rw [hw]
      exact Nat.le_succ _
  | fail _ _ _ hid => exact hid.ge
  | mark _ _ _ _ _ hw => rw [hw]
  | erase _ hid => exact hid.ge
  | drop _ hid => exact hid.ge

/-- **Rows of revisions** keep everything but their status. -/
theorem ShelfMove.revisions (h : ShelfMove cfg w w') {v : Nat} {r' : ProjectRevision} (hv : v < w.nextId)
    (hr' : w'.db.revisions.get? v = some r') : ∃ r, w.db.revisions.get? v = some r ∧ SameRevision r r' := by
  cases h with
  | tidy h _ =>
      rcases h.revisions hr' with ⟨r, hr, hsame, _⟩ | ⟨rfl, _⟩
      · exact ⟨r, hr, hsame⟩
      · exact absurd hv (Nat.lt_irrefl _)
  | promote revision row _ _ _ _ hrow _ _ hrevisions _ =>
      rw [hrevisions, Table.get?_put] at hr'
      split at hr'
      · rename_i heq
        cases hr'
        have hrow' : w.db.revisions.get? row.id = some row := get?_self hrow
        exact ⟨row, by rw [heq]; exact hrow', .status row _⟩
      · exact ⟨r', hr', .refl r'⟩
  | verify _ _ _ _ _ _ _ _ _ hrevisions _ => exact ⟨r', hrevisions ▸ hr', .refl r'⟩

theorem ShelfMove.nextId (h : ShelfMove cfg w w') : w.nextId ≤ w'.nextId := by
  cases h with
  | tidy h _ => exact h.nextId
  | promote _ _ _ _ _ _ _ hid => exact hid.ge
  | verify _ _ _ _ _ _ _ hid => exact hid.ge

/-! ## §2. The history of a project. -/

/-- The promotions of a project, oldest first: each moves the saved pointer. -/
def checkpoints (db : Database) (chatId : Nat) : List (Swap Nat) :=
  (db.promotions.filter fun p => p.chatId = chatId).map fun p => ⟨p.parentId, p.revisionId⟩

/-- The history of every project is a chain that leads to its saved revision. -/
structure Lineal (w : World) : Prop where
  older : ∀ v r, w.db.revisions.get? v = some r → ∀ p, r.parentId = some p → p < v
  ids : ∀ p ∈ w.db.promotions, p.chatId < w.nextId
  chain : ∀ c, ∃ stop, Chain none (checkpoints w.db c) stop ∧
    ∀ chat, w.db.chats.get? c = some chat → chat.latestSavedRevisionId = stop
  newer : ∀ c, ∀ s ∈ checkpoints w.db c, s.Newer
  ready : ∀ v r, w.db.revisions.get? v = some r → r.status = .ready → ⟨r.parentId, v⟩ ∈ checkpoints w.db r.chatId

theorem checkpoints_congr {db db' : Database} (h : db'.promotions = db.promotions) (c : Nat) :
    checkpoints db' c = checkpoints db c := by
  unfold checkpoints
  rw [h]

/-- A project that is not there yet has no history. -/
theorem Lineal.checkpoints_new (h : Lineal w) : checkpoints w.db w.nextId = [] := by
  unfold checkpoints
  rw [List.map_eq_nil_iff, List.filter_eq_nil_iff]
  intro p hp
  have hlt := h.ids p hp
  simp only [decide_eq_true_eq]
  omega

/-- **Tidy steps** leave the history alone. -/
theorem Tidy.lineal (h : Tidy cfg w w') (hpromotions : w'.db.promotions = w.db.promotions) (hw : Lineal w)
    (hsaved : ∀ c chat v, w.db.chats.get? c = some chat → chat.latestSavedRevisionId = some v → v < w.nextId) :
    Lineal w' := by
  have hsame := checkpoints_congr hpromotions
  refine ⟨fun v r' hr' p hp => ?_, fun p hp => ?_, fun c => ?_, fun c s hs => ?_, fun v r' hr' hready => ?_⟩
  · rcases h.revisions hr' with ⟨r, hr, hsame, _⟩ | ⟨rfl, _, chat, hchat, hparent⟩
    · exact hw.older v r hr p (hsame.parentId ▸ hp)
    · exact hsaved _ chat p hchat (hparent ▸ hp)
  · rw [hpromotions] at hp
    exact (hw.ids p hp).trans_le h.nextId
  · obtain ⟨stop, hchain, hstop⟩ := hw.chain c
    refine ⟨stop, by rw [hsame]; exact hchain, fun chat' hchat' => ?_⟩
    rcases h.chats hchat' with ⟨chat, hchat, hshelf⟩ | ⟨rfl, hnone, _⟩
    · rw [← hstop chat hchat]
      exact congrArg Shelf.saved hshelf
    · rw [hw.checkpoints_new, chain_nil] at hchain
      rw [hnone, hchain]
  · rw [hsame] at hs
    exact hw.newer c s hs
  · rcases h.revisions hr' with ⟨r, hr, hrow, hready'⟩ | ⟨_, hpending, _⟩
    · rw [hsame, hrow.chatId, hrow.parentId]
      exact hw.ready v r hr (hready' hready)
    · rw [hpending] at hready
      cases hready

/-- **A promotion** appends to the history of its project. -/
theorem lineal_promoted {revision row : ProjectRevision} {chat : Chat} (hw : Lineal w) (hshelved : Shelved w)
    (hchat : w.db.chats.get? revision.chatId = some chat) (hparent : chat.latestSavedRevisionId = revision.parentId)
    (hrow : w.db.revisions.get? revision.id = some row) (hsame : SameRevision revision row) (hid : w'.nextId = w.nextId)
    (hchats : w'.db.chats = w.db.chats.put { chat with latestSavedRevisionId := some row.id })
    (hrevisions : w'.db.revisions = w.db.revisions.put { row with status := .ready })
    (hpromotions : w'.db.promotions = w.db.promotions ++
      [⟨chat.id, row.id, row.parentId, chat.latestSavedRevisionId⟩]) : Lineal w' := by
  have hkey : chat.id = revision.chatId := Table.key_of_get? hchat
  have hown : checkpoints w'.db chat.id = checkpoints w.db chat.id ++ [⟨row.parentId, row.id⟩] := by
    unfold checkpoints
    rw [hpromotions, List.filter_append, List.map_append]
    simp
  have hother : ∀ c, c ≠ chat.id → checkpoints w'.db c = checkpoints w.db c := fun c hc => by
    unfold checkpoints
    rw [hpromotions, List.filter_append]
    simp [hc.symm]
  have hgrow : ∀ c, ∀ s ∈ checkpoints w.db c, s ∈ checkpoints w'.db c := fun c s hs => by
    by_cases hc : c = chat.id
    · rw [hc] at hs ⊢
      rw [hown]
      exact List.mem_append_left _ hs
    · rwa [hother c hc]
  have hrow' : w.db.revisions.get? row.id = some row := get?_self hrow
  have hcase : ∀ v r', w'.db.revisions.get? v = some r' →
      (v = row.id ∧ r' = { row with status := .ready }) ∨ w.db.revisions.get? v = some r' := fun v r' hr' => by
    rw [hrevisions, Table.get?_put] at hr'
    split at hr'
    · exact .inl ⟨‹_›, (Option.some.inj hr').symm⟩
    · exact .inr hr'
  refine ⟨fun v r' hr' p hp => ?_, fun p hp => ?_, fun c => ?_, fun c s hs => ?_, fun v r' hr' hready => ?_⟩
  · rcases hcase v r' hr' with ⟨rfl, rfl⟩ | hr
    · exact hw.older row.id row hrow' p hp
    · exact hw.older v r' hr p hp
  · rw [hpromotions, List.mem_append, List.mem_singleton] at hp
    rcases hp with hp | rfl
    · exact (hw.ids p hp).trans_le hid.ge
    · exact hid ▸ hshelved.chatIds chat.id (hkey ▸ hchat ▸ rfl)
  · obtain ⟨stop, hchain, hstop⟩ := hw.chain c
    by_cases hc : c = chat.id
    · subst hc
      refine ⟨some row.id, ?_, fun chat' hchat' => ?_⟩
      · rw [hown]
        refine hchain.snoc (s := ⟨row.parentId, row.id⟩) ?_
        -- the parent is where the pointer is
        show row.parentId = stop
        rw [← hstop chat (hkey ▸ hchat), hparent, hsame.parentId]
      · have hput := Table.get?_put_self w.db.chats { chat with latestSavedRevisionId := some row.id }
        rw [hchats] at hchat'
        rw [← Option.some.inj (hput.symm.trans hchat')]
    · refine ⟨stop, by rw [hother c hc]; exact hchain, fun chat' hchat' => hstop chat' ?_⟩
      rwa [hchats, Table.get?_put_ne _ hc] at hchat'
  · by_cases hc : c = chat.id
    · rw [hc, hown, List.mem_append, List.mem_singleton] at hs
      rcases hs with hs | rfl
      · exact hw.newer chat.id s hs
      · exact fun p hp => hw.older row.id row hrow' p hp
    · rw [hother c hc] at hs
      exact hw.newer c s hs
  · rcases hcase v r' hr' with ⟨rfl, rfl⟩ | hr
    · show (⟨row.parentId, row.id⟩ : Swap Nat) ∈ checkpoints w'.db row.chatId
      rw [hsame.chatId, ← hkey, hown]
      exact List.mem_append_right _ List.mem_cons_self
    · exact hgrow r'.chatId _ (hw.ready v r' hr hready)

/-- **A verified run** leaves the history alone. -/
theorem lineal_verified {chatId : Nat} {url : Option String} {verified : Option Nat} (hw : Lineal w)
    (hid : w'.nextId = w.nextId) (hchats : w'.db.chats = w.db.chats.modify chatId fun c => c.finished url verified)
    (hrevisions : w'.db.revisions = w.db.revisions) (hpromotions : w'.db.promotions = w.db.promotions) :
    Lineal w' := by
  have hsame := checkpoints_congr hpromotions
  refine ⟨fun v r hr => hw.older v r (hrevisions ▸ hr), fun p hp => ?_, fun c => ?_, fun c s hs => ?_,
    fun v r hr hready => ?_⟩
  · rw [hpromotions] at hp
    exact hid ▸ hw.ids p hp
  · obtain ⟨stop, hchain, hstop⟩ := hw.chain c
    refine ⟨stop, by rw [hsame]; exact hchain, fun chat' hchat' => ?_⟩
    rw [hchats, get?_finished] at hchat'
    split at hchat'
    · rename_i hc
      obtain ⟨chat, hchat, rfl⟩ := Option.map_eq_some_iff.mp hchat'
      exact hstop chat (hc ▸ hchat)
    · exact hstop chat' hchat'
  · rw [hsame] at hs
    exact hw.newer c s hs
  · rw [hsame]
    exact hw.ready v r (hrevisions ▸ hr) hready

/-! ## §3. Ready revisions. -/

/-- The revision `v` is a ready one of the project `c`. -/
def Ready (w : World) (v c : Nat) : Prop :=
  ∃ r, w.db.revisions.get? v = some r ∧ r.chatId = c ∧ r.status = .ready

/-- A pointer of the project `c` names `v`. -/
def Named (w : World) (v c : Nat) : Prop :=
  ∃ chat, w.db.chats.get? c = some chat ∧
    (chat.latestSavedRevisionId = some v ∨ chat.latestVerifiedRevisionId = some v)

/-- What the pass takes out belongs to the project, and no pointer names it. -/
theorem mem_expired {db : Database} {now : Nat} {chat : Chat} {r : ProjectRevision} (h : r ∈ db.expired now chat) :
    r ∈ db.revisions.rows ∧ r.chatId = chat.id ∧ chat.latestSavedRevisionId ≠ some r.id ∧
      chat.latestVerifiedRevisionId ≠ some r.id := by
  unfold Database.expired at h
  obtain ⟨hrow, hkeep⟩ := List.mem_filter.mp h
  have hrow : r ∈ db.revisions.rows ∧ r.chatId = chat.id := by
    unfold Database.revisionsOf at hrow
    rw [List.mem_insertionSort] at hrow
    obtain ⟨hmem, hchat⟩ := List.mem_filter.mp hrow
    exact ⟨hmem, of_decide_eq_true hchat⟩
  simp only [Bool.not_eq_true', Bool.or_eq_false_iff, decide_eq_false_iff_not, List.mem_append, not_or,
    Option.mem_toList] at hkeep
  exact ⟨hrow.1, hrow.2, hkeep.1.1.1.2, hkeep.1.1.2⟩

/-- **What stays ready**: revisions of a project with a running request, and
revisions that a pointer still names after the step. -/
theorem Ready.of_move (h : ShelfMove cfg w w') (hshelved : Shelved w) {v c : Nat} (hready : Ready w v c)
    (hkeep : w'.db.hasRunning c = true ∨ Named w' v c) : Ready w' v c := by
  obtain ⟨r, hr, hchat, hstatus⟩ := hready
  have hput : ∀ row : ProjectRevision, (row.id = r.id → row.chatId = r.chatId ∧ row.status = .ready) →
      w'.db.revisions = w.db.revisions.put row → Ready w' v c := fun row hrow hrevisions => by
    have hv : r.id = v := Table.key_of_get? hr
    by_cases hid : v = row.id
    · obtain ⟨hrowChat, hrowStatus⟩ := hrow (hid.symm.trans hv.symm)
      refine ⟨row, ?_, hrowChat.trans hchat, hrowStatus⟩
      rw [hrevisions, hid]
      exact Table.get?_put_self _ row
    · refine ⟨r, ?_, hchat, hstatus⟩
      rw [hrevisions, Table.get?_put_ne _ hid, hr]
  cases h with
  | tidy h _ =>
      cases h with
      | keep _ _ hrevisions => exact ⟨r, by rw [hrevisions, hr], hchat, hstatus⟩
      | newChat _ _ _ hrevisions => exact ⟨r, by rw [hrevisions, hr], hchat, hstatus⟩
      | record chat chatId runId archive files template _ _ hw =>
          refine hput _ (fun hid => ?_) (by rw [hw])
          -- a new id is no old one
          have hlt := hshelved.revisionIds v (hr ▸ rfl)
          have hv : r.id = v := Table.key_of_get? hr
          have hnew : w.nextId = r.id := hid
          omega
      | fail row hrow hpending _ _ hrevisions =>
          refine hput { row with status := .failed } (fun hid => ?_) hrevisions
          have hrid : w.db.revisions.get? r.id = some r := get?_self hr
          have hid : row.id = r.id := hid
          rw [hid, hrid] at hrow
          rw [Option.some.inj hrow, hpending] at hstatus
          cases hstatus
      | mark now chatId chat hchatRow hidle hw =>
          refine ⟨r, ?_, hchat, hstatus⟩
          rw [hw, get?_markDeleting, hr, Option.map_some]
          refine congrArg some (if_neg fun hmem => ?_)
          obtain ⟨x, hx, hxid⟩ := List.mem_map.mp hmem
          obtain ⟨hxrow, hxchat, hsaved, hverified⟩ := mem_expired hx
          obtain rfl : x = r := Table.eq_of_key hxrow (Table.mem_of_get? hr) hxid
          have hc : chatId = c := by
            rw [← hchat, hxchat]
            exact (Table.key_of_get? hchatRow).symm
          rcases hkeep with hrunning | ⟨chat', hchat', hnamed⟩
          · rw [hw, ← hc] at hrunning
            have hrunning : w.db.hasRunning chatId = true := hrunning
            rw [hidle] at hrunning
            cases hrunning
          · rw [hw] at hchat'
            have hchat' : w.db.chats.get? c = some chat' := hchat'
            rw [← hc, hchatRow, Option.some.injEq] at hchat'
            subst hchat'
            have hv : x.id = v := Table.key_of_get? hr
            rw [← hv] at hnamed
            exact hnamed.elim hsaved hverified
      | erase revisionId _ _ hrevisions =>
          refine ⟨r, ?_, hchat, hstatus⟩
          rw [hrevisions, Table.get?_eraseIf, hr]
          simp [Option.filter, hstatus]
      | drop chatId _ hchats hrevisions hidle =>
          have hc : c ≠ chatId := by
            rintro rfl
            rcases hkeep with hrunning | ⟨chat', hchat', _⟩
            · rw [hidle] at hrunning
              cases hrunning
            · rw [hchats, Table.get?_erase_self] at hchat'
              cases hchat'
          refine ⟨r, ?_, hchat, hstatus⟩
          rw [hrevisions, Table.get?_eraseIf, hr]
          simp [Option.filter, hchat, hc]
  | promote revision row _ _ _ _ hrow _ _ hrevisions _ =>
      refine hput { row with status := .ready } (fun hid => ⟨?_, rfl⟩) hrevisions
      have hrid : w.db.revisions.get? r.id = some r := get?_self hr
      have hrow' : w.db.revisions.get? row.id = some row := get?_self hrow
      have hid : row.id = r.id := hid
      rw [hid, hrid] at hrow'
      rw [Option.some.inj hrow']
  | verify _ _ _ _ _ _ _ _ _ hrevisions _ => exact ⟨r, by rw [hrevisions, hr], hchat, hstatus⟩

/-! ## §4. Pointers. -/

/-- **Pointers name ready revisions** of their own project. -/
def Pointed (w : World) : Prop := ∀ c v, Named w v c → Ready w v c

/-- A revision that a project names is older than the next id. -/
theorem Pointed.lt (h : Pointed w) (hshelved : Shelved w) {v c : Nat} (hnamed : Named w v c) : v < w.nextId := by
  obtain ⟨r, hr, _⟩ := h c v hnamed
  exact hshelved.revisionIds v (hr ▸ rfl)

theorem named_of_shelf {c v : Nat} {chat chat' : Chat} (hchat : w.db.chats.get? c = some chat)
    (hshelf : shelf chat' = shelf chat)
    (hnamed : chat'.latestSavedRevisionId = some v ∨ chat'.latestVerifiedRevisionId = some v) : Named w v c := by
  have hsaved : chat'.latestSavedRevisionId = chat.latestSavedRevisionId := congrArg Shelf.saved hshelf
  have hverified : chat'.latestVerifiedRevisionId = chat.latestVerifiedRevisionId := congrArg Shelf.verified hshelf
  exact ⟨chat, hchat, by rwa [hsaved, hverified] at hnamed⟩

theorem Tidy.pointed (h : Tidy cfg w w') (hpromotions : w'.db.promotions = w.db.promotions) (hshelved : Shelved w)
    (hw : Pointed w) : Pointed w' := by
  rintro c v hnamed
  refine Ready.of_move (.tidy h hpromotions) hshelved (hw c v ?_) (.inr hnamed)
  obtain ⟨chat', hchat', hnames⟩ := hnamed
  rcases h.chats hchat' with ⟨chat, hchat, hshelf⟩ | ⟨_, hsaved, hverified⟩
  · exact named_of_shelf hchat hshelf hnames
  · rw [hsaved, hverified] at hnames
    simp at hnames

/-- The saved pointer names what is promoted; the other one is left. -/
theorem pointed_promoted {revision row : ProjectRevision} {chat : Chat} (h : ShelfMove cfg w w')
    (hshelved : Shelved w) (hw : Pointed w) (hchat : w.db.chats.get? revision.chatId = some chat)
    (hsame : SameRevision revision row)
    (hchats : w'.db.chats = w.db.chats.put { chat with latestSavedRevisionId := some row.id })
    (hrevisions : w'.db.revisions = w.db.revisions.put { row with status := .ready }) : Pointed w' := by
  rintro c v hnamed
  have hkey : chat.id = revision.chatId := Table.key_of_get? hchat
  have hready : Ready w' row.id chat.id := by
    refine ⟨{ row with status := .ready }, ?_, ?_, rfl⟩
    · rw [hrevisions]
      exact Table.get?_put_self _ _
    · show row.chatId = chat.id
      rw [hkey, hsame.chatId]
  obtain ⟨chat', hchat', hnames⟩ := hnamed
  rw [hchats, Table.get?_put] at hchat'
  split at hchat'
  · rename_i hc
    obtain rfl := Option.some.inj hchat'
    have hc : c = chat.id := hc
    subst hc
    rcases hnames with hsaved | hverified
    · obtain rfl : row.id = v := Option.some.inj hsaved
      exact hready
    · refine Ready.of_move h hshelved (hw _ v ⟨chat, hkey ▸ hchat, .inr hverified⟩) (.inr ⟨_, ?_, .inr hverified⟩)
      rw [hchats]
      exact Table.get?_put_self _ _
  · rename_i hc
    refine Ready.of_move h hshelved (hw c v ⟨chat', hchat', hnames⟩) (.inr ⟨chat', ?_, hnames⟩)
    rw [hchats, Table.get?_put, if_neg hc, hchat']

/-- The verified pointer names what the run has saved. -/
theorem pointed_verified {chatId revisionId : Nat} {url : Option String} (hw : Pointed w)
    (hchats : w'.db.chats = w.db.chats.modify chatId fun c => c.finished url (some revisionId))
    (hrevisions : w'.db.revisions = w.db.revisions) (hready : Ready w revisionId chatId) : Pointed w' := by
  rintro c v hnamed
  have hkept : ∀ v c, Ready w v c → Ready w' v c := fun v c ⟨r, hr, hrest⟩ => ⟨r, by rw [hrevisions, hr], hrest⟩
  obtain ⟨chat', hchat', hnames⟩ := hnamed
  rw [hchats, get?_finished] at hchat'
  split at hchat'
  · rename_i hc
    subst hc
    obtain ⟨chat, hchat, rfl⟩ := Option.map_eq_some_iff.mp hchat'
    rcases hnames with hsaved | hverified
    · exact hkept v c (hw c v ⟨chat, hchat, .inl hsaved⟩)
    · obtain rfl : revisionId = v := Option.some.inj hverified
      exact hkept revisionId c hready
  · exact hkept v c (hw c v ⟨chat', hchat', hnames⟩)

end WebBuilder.Worker
