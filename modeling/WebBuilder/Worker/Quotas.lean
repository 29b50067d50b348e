/-
  WebBuilder.Worker.Quotas — how much is stored, and how much is moved a day.

  `save_revision` sums the checkpoints of the project, of its owner and of
  all projects before it inserts one, under a lock that every insertion takes.
  `reserve_transfer` counts in the row of the day whatever is moved.

  Main results:
    * `stored_within_quota` — the three sums stay within their limits;
    * `transfers_within_budget` — so do the counters of every day.
-/
import WebBuilder.Worker.Shelf

namespace WebBuilder.Worker

open WebBuilder.Async WebBuilder.Store WebBuilder.Budget WebBuilder.Run WebBuilder.Service

variable {cfg : Config} {w w' : World}

/-! ## §1. Sums over checkpoints. -/

/-- `Chat.user_id == user_id`, of a project that exists. -/
def owns (db : Database) (userId chatId : Nat) : Bool := (db.chats.get? chatId).any fun c => c.userId = userId

def projectTotal (db : Database) (chatId : Nat) : Nat :=
  db.revisions.sumOf fun r => if r.chatId = chatId then r.sizeBytes else 0

def ownerTotal (db : Database) (userId : Nat) : Nat :=
  db.revisions.sumOf fun r => if owns db userId r.chatId then r.sizeBytes else 0

def storedTotal (db : Database) : Nat := db.revisions.sumOf ProjectRevision.sizeBytes

/-- What is stored stays within the limits of `save_revision`. -/
structure WithinQuota (w : World) : Prop where
  project : ∀ c, projectTotal w.db c ≤ 200 * 1024 ^ 2
  owner : ∀ u, ownerTotal w.db u ≤ 1024 ^ 3
  stored : storedTotal w.db ≤ 5 * 1024 ^ 3

/-- **The checks** that a new checkpoint has passed. -/
theorem recordRevision_quota {chatId : Nat} {runId : Option Nat} {archive : Bytes} {files : Manifest}
    {template : String} {chat : Chat} {revision : ProjectRevision} (hchat : w.db.chats.get? chatId = some chat)
    (h : recordRevision cfg chatId runId archive files template w = .ok (.inr revision, w')) :
    ownerTotal w.db chat.userId + archive.length ≤ 1024 ^ 3 ∧
      projectTotal w.db chatId + archive.length ≤ 200 * 1024 ^ 2 ∧
      storedTotal w.db + archive.length ≤ 5 * 1024 ^ 3 := by
  unfold recordRevision at h
  rw [hchat] at h
  dsimp only at h
  split at h
  · simp only [Except.ok.injEq, Prod.mk.injEq, reduceCtorEq, false_and] at h
  · split at h
    · cases h
    · rename_i hsums
      obtain ⟨howner, hsums⟩ := not_or.mp hsums
      obtain ⟨hproject, hstored⟩ := not_or.mp hsums
      exact ⟨Nat.le_of_not_gt howner, Nat.le_of_not_gt hproject, Nat.le_of_not_gt hstored⟩

/-! ## §2. Steps that store nothing more. -/

/-- Every checkpoint was there before, of the same project and size, and
nobody comes to own what was another's. -/
structure Dominated (db db' : Database) : Prop where
  revisions : ∀ v r', db'.revisions.get? v = some r' →
    ∃ r, db.revisions.get? v = some r ∧ r'.chatId = r.chatId ∧ r'.sizeBytes = r.sizeBytes ∧
      ∀ u, owns db' u r.chatId = true → owns db u r.chatId = true

theorem Dominated.within (h : Dominated w.db w'.db) (hw : WithinQuota w) : WithinQuota w' := by
  refine ⟨fun c => le_trans ?_ (hw.project c), fun u => le_trans ?_ (hw.owner u), le_trans ?_ hw.stored⟩
  · refine Table.sumOf_le fun v r' hr' => ?_
    obtain ⟨r, hr, hchat, hsize, _⟩ := h.revisions v r' hr'
    exact ⟨r, hr, by rw [hchat, hsize]⟩
  · refine Table.sumOf_le fun v r' hr' => ?_
    obtain ⟨r, hr, hchat, hsize, howner⟩ := h.revisions v r' hr'
    refine ⟨r, hr, ?_⟩
    rw [hchat, hsize]
    by_cases hu : owns w'.db u r.chatId = true
    · rw [if_pos hu, if_pos (howner u hu)]
    · rw [if_neg hu]
      exact Nat.zero_le _
  · refine Table.sumOf_le fun v r' hr' => ?_
    obtain ⟨r, hr, _, hsize, _⟩ := h.revisions v r' hr'
    exact ⟨r, hr, hsize.le⟩

theorem owns_shelf (db : Database) (u c : Nat) :
    owns db u c = ((db.chats.get? c).map shelf).any fun s => s.userId = u := by
  unfold owns
  cases db.chats.get? c <;> rfl

theorem KeepsShelves.owns {db db' : Database} (h : KeepsShelves db db') (u c : Nat) : owns db' u c = owns db u c := by
  rw [owns_shelf, owns_shelf, h c]

/-- The rows of `db'` come from rows of `db`, and projects keep their owners. -/
theorem Dominated.of_owns {db db' : Database} (howns : ∀ u c, owns db' u c = true → owns db u c = true)
    (hrevisions : ∀ v r', db'.revisions.get? v = some r' →
      ∃ r, db.revisions.get? v = some r ∧ r'.chatId = r.chatId ∧ r'.sizeBytes = r.sizeBytes) : Dominated db db' where
  revisions v r' hr' := by
    obtain ⟨r, hr, hchat, hsize⟩ := hrevisions v r' hr'
    exact ⟨r, hr, hchat, hsize, fun u => howns u r.chatId⟩

/-- A revision is rewritten: its project and its size stay. -/
theorem sizes_of_put {t : Table ProjectRevision} {row row' r' : ProjectRevision} {v : Nat}
    (h : (t.put row').get? v = some r') (hrow : t.get? row'.id = some row)
    (hsame : row'.chatId = row.chatId ∧ row'.sizeBytes = row.sizeBytes) :
    ∃ r, t.get? v = some r ∧ r'.chatId = r.chatId ∧ r'.sizeBytes = r.sizeBytes := by
  rw [Table.get?_put] at h
  split at h
  · rename_i hv
    cases h
    exact ⟨row, hv ▸ hrow, hsame⟩
  · exact ⟨r', h, rfl, rfl⟩

theorem owns_put {db db' : Database} {chat chat' : Chat} (hchats : db'.chats = db.chats.put chat')
    (hchat : db.chats.get? chat'.id = some chat) (huser : chat'.userId = chat.userId) (u c : Nat) :
    owns db' u c = owns db u c := by
  unfold owns
  rw [hchats, Table.get?_put]
  split
  · rename_i hc
    rw [hc, key_chat, hchat]
    show decide (chat'.userId = u) = decide (chat.userId = u)
    rw [huser]
  · rfl

/-! ## §3. A new checkpoint. -/

/-- **One more checkpoint** adds its size to its project, to its owner and to
the total, and to no other sum. -/
theorem within_record {chat : Chat} {chatId : Nat} {runId : Option Nat} {archive : Bytes} {files : Manifest}
    {template : String} (hchat : w.db.chats.get? chatId = some chat)
    (hfresh : w.db.revisions.get? w.nextId = none)
    (h : recordRevision cfg chatId runId archive files template w =
      .ok (.inr (newRevision cfg w chat chatId runId archive files template), w'))
    (hw' : w' = { w with
      nextId := w.nextId + 1
      db := { w.db with revisions := w.db.revisions.put (newRevision cfg w chat chatId runId archive files template) } })
    (hw : WithinQuota w) : WithinQuota w' := by
  obtain ⟨howner, hproject, hstored⟩ := recordRevision_quota hchat h
  have hsum : ∀ f, w'.db.revisions.sumOf f =
      f (newRevision cfg w chat chatId runId archive files template) + w.db.revisions.sumOf f := fun f => by
    rw [hw']
    exact Table.sumOf_put_new hfresh f
  have howns : ∀ u, owns w'.db u chatId = decide (chat.userId = u) := fun u => by
    rw [hw']
    show (w.db.chats.get? chatId).any _ = _
    rw [hchat]
    rfl
  have hchats : w'.db.chats = w.db.chats := by rw [hw']
  refine ⟨fun c => ?_, fun u => ?_, ?_⟩
  · show w'.db.revisions.sumOf _ ≤ _
    rw [hsum]
    show (if chatId = c then archive.length else 0) + projectTotal w.db c ≤ _
    by_cases hc : chatId = c
    · rw [if_pos hc, ← hc, Nat.add_comm]
      exact hproject
    · rw [if_neg hc, Nat.zero_add]
      exact hw.project c
  · have htotal : ownerTotal w'.db u =
        (if owns w'.db u chatId then archive.length else 0) + ownerTotal w.db u := by
      show w'.db.revisions.sumOf _ = _
      rw [hsum]
      show (if owns w'.db u chatId then archive.length else 0) + _ = _
      unfold ownerTotal Worker.owns
      rw [hchats]
    rw [htotal, howns]
    by_cases hu : chat.userId = u
    · rw [if_pos (decide_eq_true hu), ← hu, Nat.add_comm]
      exact howner
    · rw [if_neg (by simpa using hu), Nat.zero_add]
      exact hw.owner u
  · show w'.db.revisions.sumOf _ ≤ _
    rw [hsum]
    show archive.length + storedTotal w.db ≤ _
    rw [Nat.add_comm]
    exact hstored

/-! ## §4. Every step. -/

theorem within_tidy (h : Tidy cfg w w') (hshelved : Shelved w) (hw : WithinQuota w) : WithinQuota w' := by
  cases h with
  | keep _ hchats hrevisions =>
      refine Dominated.within (.of_owns (fun u c hc => hchats.owns u c ▸ hc) fun v r' hr' => ?_) hw
      exact ⟨r', hrevisions ▸ hr', rfl, rfl⟩
  | newChat userId _ hchats hrevisions =>
      refine Dominated.within ⟨fun v r' hr' => ⟨r', hrevisions ▸ hr', rfl, rfl, fun u hu => ?_⟩⟩ hw
      -- no checkpoint can belong to the new project
      have hold : r'.chatId ≠ w.nextId :=
        Nat.ne_of_lt (hshelved.chatIds _ (hshelved.revisionChats v r' (hrevisions ▸ hr')))
      unfold Worker.owns at hu ⊢
      rwa [hchats, Table.get?_put_ne _ hold] at hu
  | record chat chatId runId archive files template hchat hrecord hw' =>
      refine within_record hchat ?_ hrecord hw' hw
      cases hv : w.db.revisions.get? w.nextId with
      | none => rfl
      | some r => exact absurd (hshelved.revisionIds _ (hv ▸ rfl)) (Nat.lt_irrefl _)
  | fail row hrow _ _ hchats hrevisions =>
      refine Dominated.within (.of_owns (fun u c hc => ?_) fun v r' hr' => ?_) hw
      · unfold Worker.owns at hc ⊢
        rwa [hchats] at hc
      · rw [hrevisions] at hr'
        exact sizes_of_put hr' hrow ⟨rfl, rfl⟩
  | mark now chatId chat _ _ hw' =>
      have hdb : w'.db = w.db.markDeleting _ := congrArg World.db hw'
      refine Dominated.within (.of_owns (fun u c hc => ?_) fun v r' hr' => ?_) hw
      · rwa [hdb] at hc
      rw [hdb, get?_markDeleting] at hr'
      obtain ⟨r, hr, rfl⟩ := Option.map_eq_some_iff.mp hr'
      refine ⟨r, hr, ?_⟩
      unfold ProjectRevision.markDeleting
      split <;> exact ⟨rfl, rfl⟩
  | erase revisionId _ hchats hrevisions =>
      refine Dominated.within (.of_owns (fun u c hc => ?_) fun v r' hr' => ?_) hw
      · unfold Worker.owns at hc ⊢
        rwa [hchats] at hc
      · rw [hrevisions] at hr'
        exact ⟨r', (revision_of_eraseIf hr').1, rfl, rfl⟩
  | drop chatId _ hchats hrevisions _ =>
      refine Dominated.within (.of_owns (fun u c hc => ?_) fun v r' hr' => ?_) hw
      · unfold Worker.owns at hc ⊢
        rw [hchats, Table.get?_erase] at hc
        split at hc
        · cases hc
        · exact hc
      · rw [hrevisions] at hr'
        exact ⟨r', (revision_of_eraseIf hr').1, rfl, rfl⟩

theorem within_move (h : ShelfMove cfg w w') (hshelved : Shelved w) (hw : WithinQuota w) : WithinQuota w' := by
  cases h with
  | tidy h _ => exact within_tidy h hshelved hw
  | promote revision row chat _ hchat _ hrow _ hchats hrevisions _ =>
      have hchat' : w.db.chats.get? chat.id = some chat := get?_self hchat
      have hrow' : w.db.revisions.get? row.id = some row := get?_self hrow
      refine Dominated.within (.of_owns (fun u c hc => ?_) fun v r' hr' => ?_) hw
      · rwa [owns_put hchats hchat' rfl u c] at hc
      · rw [hrevisions] at hr'
        exact sizes_of_put hr' hrow' ⟨rfl, rfl⟩
  | verify live run revisionId url _ _ _ _ hchats hrevisions _ =>
      refine Dominated.within (.of_owns (fun u c hc => ?_) fun v r' hr' => ?_) hw
      · unfold Worker.owns at hc ⊢
        rw [hchats, get?_finished] at hc
        split at hc
        · rename_i hlive
          rw [Option.any_map] at hc
          rw [hlive]
          exact hc
        · exact hc
      · exact ⟨r', hrevisions ▸ hr', rfl, rfl⟩

theorem Deployed.withinQuota (h : Deployed w) : WithinQuota w := by
  refine ⟨fun c => ?_, fun u => ?_, ?_⟩
  · unfold projectTotal
    rw [h.revisions]
    exact Nat.zero_le _
  · unfold ownerTotal
    rw [h.revisions]
    exact Nat.zero_le _
  · unfold storedTotal
    rw [h.revisions]
    exact Nat.zero_le _

/-- **What is stored stays within the quotas**: 200 MiB a project, 1 GiB a
user and 5 GiB in all, in every reachable state. -/
theorem stored_within_quota (hw : Deployed w) {q : Pool Nat WorkerCall World Label Exc Datum}
    (h : (worker cfg).Reaches Always (Pool.start w) q) : WithinQuota q.shared :=
  (invariant (I := fun w => Shelved w ∧ WithinQuota w)
    (fun w w' hI (hc : Change cfg w w') => ⟨shelved_move (change_shelf hc) hI.1, within_move (change_shelf hc) hI.1 hI.2⟩)
    (fun w hI => ⟨shelved_tidy (restart_shelf cfg w).1 hI.1,
      within_tidy (restart_shelf cfg w).1 hI.1 hI.2⟩)
    ⟨hw.shelved, hw.withinQuota⟩ h).2

theorem stored_within_quota_firstProject :
    ∃ q, (worker legacyConfig).Reaches Always (Pool.start newWorld) q ∧
      q.shared.db.chats.get? 3 = some ⟨3, 1, none, some 6, none⟩ ∧ WithinQuota q.shared := by
  obtain ⟨q, hq, ⟨_, hchat⟩, _⟩ := reaches_firstProject
  exact ⟨q, hq, hchat, stored_within_quota deployed_newWorld hq⟩

/-! ## §5. Transfers. -/

/-- The counters of a day within their limits. -/
structure WithinBudget (cfg : Config) (u : StorageUsage) : Prop where
  uploaded : u.uploaded ≤ cfg.uploadLimit
  uploadedOps : u.uploadedOps ≤ 1000
  downloaded : u.downloaded ≤ cfg.downloadLimit
  downloadedOps : u.downloadedOps ≤ 10000

theorem WithinBudget.add {u : StorageUsage} (h : WithinBudget cfg u) {size : Nat} {direction : Direction}
    (hadmits : u.admits cfg size direction = true) : WithinBudget cfg (u.add size direction) := by
  cases direction with
  | uploaded =>
      simp only [StorageUsage.admits, Bool.and_eq_true, decide_eq_true_eq] at hadmits
      exact ⟨hadmits.1, hadmits.2, h.downloaded, h.downloadedOps⟩
  | downloaded =>
      simp only [StorageUsage.admits, Bool.and_eq_true, decide_eq_true_eq] at hadmits
      exact ⟨h.uploaded, h.uploadedOps, hadmits.1, hadmits.2⟩

/-- The rows of a step were there before, or the row of today has grown by a
transfer that it had room for. -/
def Counts (cfg : Config) (w w' : World) : Prop :=
  ∀ d u, w'.db.usage.get? d = some u → w.db.usage.get? d = some u ∨
    ∃ size direction, (usageToday w).admits cfg size direction = true ∧ u = (usageToday w).add size direction

theorem Counts.of_eq (h : w'.db.usage = w.db.usage) : Counts cfg w w' := fun _ _ hu => .inl (h ▸ hu)

theorem basic_counts (h : Basic cfg w w') : Counts cfg w w' := by
  cases h with
  | quiet h => exact .of_eq (by rw [h.db])
  | reserve direction size h =>
      intro d u hu
      rw [Table.get?_put] at hu
      split at hu
      · exact .inr ⟨size, direction, h, (Option.some.inj hu).symm⟩
      · exact .inl hu
  | record chatId runId archive files template h =>
      obtain ⟨chat, _, ⟨_, _, _, _, _, rfl⟩ | ⟨rfl, rfl⟩⟩ := recordRevision_cases h
      · exact .of_eq rfl
      · exact .of_eq rfl
  | publish chatId revisionId url h =>
      obtain ⟨chat, r, _, _, _, _, rfl⟩ := publishPreview_eq h
      exact .of_eq rfl
  | live hdb => exact .of_eq (by rw [hdb])
  | fail => exact .of_eq rfl
  | prune now chatId =>
      unfold pruneRevisions
      split
      · exact .of_eq rfl
      · split
        · exact .of_eq rfl
        · exact .of_eq rfl
  | erase => exact .of_eq rfl
  | archived => exact .of_eq rfl
  | forgotten => exact .of_eq rfl
  | dropOld now =>
      intro d u hu
      -- old rows go, and no other row changes
      have hu : (w.db.usage.eraseIf _).get? d = some u := hu
      rw [Table.get?_eraseIf, Option.filter_eq_some_iff] at hu
      exact .inl hu.1
  | delete chatId keys h =>
      unfold deleteRows at h
      split at h
      · cases h
      · simp only [Except.ok.injEq, Prod.mk.injEq, true_and] at h
        exact h ▸ .of_eq rfl
  | interrupt found h =>
      unfold interruptRows at h
      split at h
      · cases h
      · simp only [Except.ok.injEq, Prod.mk.injEq, true_and] at h
        subst h
        have husage : (found.foldl Database.interrupt w.db).usage = w.db.usage := by
          rw [interrupt_tables]
        exact .of_eq husage

theorem change_counts (h : Change cfg w w') : Counts cfg w w' := by
  cases h with
  | plain h =>
      cases h with
      | basic h => exact basic_counts h
      | event e _ h =>
          obtain ⟨rfl, _⟩ := addEvent_eq h
          exact .of_eq rfl
      | progress hdb => exact .of_eq (by rw [hdb])
  | admission userId prompt chatId busy h =>
      obtain ⟨user, c, w₁, hchat, hinsert⟩ := admitRows_cases h
      obtain rfl := (congrArg Prod.snd hinsert).symm
      rcases admitChat_cases hchat with ⟨_, _, _, _, _, rfl⟩ | ⟨_, _, rfl⟩
      · exact .of_eq rfl
      · exact .of_eq rfl
  | register => exact .of_eq rfl
  | promote revision event recovery _ h =>
      rcases promoteLocked_cases h with ⟨_, rfl⟩ | ⟨chat, row, db, _, _, _, _, _, hdb, rfl⟩
      · exact .of_eq rfl
      · have husage := congrArg Database.usage (addEvent?_cases hdb)
        exact .of_eq husage
  | saved => exact .of_eq rfl
  | finish live status reason url _ h =>
      rcases finishRun_cases h with ⟨_, rfl, _⟩ | ⟨run, w₁, _, _, _, hmark, _, rfl⟩
      · exact .of_eq rfl
      · rcases markVerified_eq hmark with ⟨rfl, _⟩ | ⟨r, _, _, _, _, _, rfl⟩
        · exact .of_eq rfl
        · exact .of_eq rfl

/-- **Transfers stay within the budget of the day**, in every reachable state,
whatever tasks move and in whatever order they count it. -/
theorem transfers_within_budget (hw : Deployed w) {q : Pool Nat WorkerCall World Label Exc Datum}
    (h : (worker cfg).Reaches Always (Pool.start w) q) (d : Nat) (u : StorageUsage)
    (hu : q.shared.db.usage.get? d = some u) : WithinBudget cfg u := by
  refine invariant (I := fun w => ∀ d u, w.db.usage.get? d = some u → WithinBudget cfg u)
    (fun w w' hI (hc : Change cfg w w') d u hu => ?_) (fun _ hI => hI) (fun d u hu => ?_) h d u hu
  · rcases change_counts hc d u hu with hold | ⟨size, direction, hadmits, rfl⟩
    · exact hI d u hold
    · refine WithinBudget.add ?_ hadmits
      -- the row of today is stored, or it starts from zero
      unfold usageToday
      cases htoday : w.db.usage.get? (w.now / DAY) with
      | some v => exact hI _ v htoday
      | none => exact ⟨Nat.zero_le _, Nat.zero_le _, Nat.zero_le _, Nat.zero_le _⟩
  · rw [hw.usage] at hu
    cases hu

theorem transfers_within_budget_firstProject :
    ∃ q, (worker legacyConfig).Reaches Always (Pool.start newWorld) q ∧
      q.shared.db.usage.get? 0 = some ⟨0, 1, 0, 1, 0⟩ ∧ WithinBudget legacyConfig ⟨0, 1, 0, 1, 0⟩ := by
  obtain ⟨q, hq, ⟨husage, _⟩, _⟩ := reaches_firstProject
  exact ⟨q, hq, husage, transfers_within_budget deployed_newWorld hq 0 _ husage⟩

end WebBuilder.Worker
