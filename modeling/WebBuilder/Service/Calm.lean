/-
  WebBuilder.Service.Calm — steps that leave the operations alone.

  Which projects are busy is decided in a few places: `admit`, `open_preview`,
  the end of a task and `delete_project`.  Every other step keeps the lock,
  `active`, `opening`, the projects of the live runs and the set of projects.
-/
import WebBuilder.Service.Calls

namespace WebBuilder.Service

open WebBuilder.Async WebBuilder.Store WebBuilder.Run

variable {cfg : Config} {runId c : Nat}

/-- A step that leaves the operations alone. -/
structure Calm (w w' : World) : Prop where
  nextId : w.nextId ≤ w'.nextId
  admission : w'.mem.admission = w.mem.admission
  active : w'.mem.active = w.mem.active
  opening : w'.mem.opening = w.mem.opening
  lives : ∀ r, (w'.live? r).map LiveRun.chatId = (w.live? r).map LiveRun.chatId
  chats : ∀ c, (w'.db.chats.get? c).isSome = (w.db.chats.get? c).isSome

def CalmStep (st : WStep) : Prop := Calm st.before st.after

theorem calm_refl (w : World) : Calm w w := ⟨Nat.le_refl _, rfl, rfl, rfl, fun _ => rfl, fun _ => rfl⟩

theorem calm_trans {w₁ w₂ w₃ : World} (h : Calm w₁ w₂) (h' : Calm w₂ w₃) : Calm w₁ w₃ :=
  ⟨h.nextId.trans h'.nextId, h'.admission.trans h.admission, h'.active.trans h.active,
    h'.opening.trans h.opening, fun r => (h'.lives r).trans (h.lives r),
    fun c => (h'.chats c).trans (h.chats c)⟩

/-- A step that keeps projects and live runs. -/
theorem calm_of_eq {w w' : World} (hid : w.nextId ≤ w'.nextId) (hadm : w'.mem.admission = w.mem.admission)
    (hactive : w'.mem.active = w.mem.active) (hopening : w'.mem.opening = w.mem.opening)
    (hruns : w'.mem.runs = w.mem.runs) (hchats : w'.db.chats = w.db.chats) : Calm w w' :=
  ⟨hid, hadm, hactive, hopening, fun r => by unfold World.live?; rw [hruns], fun c => by rw [hchats]⟩

/-- A step on the database that keeps the projects. -/
theorem calm_db {w : World} {db : Database} (n : Nat) (hid : w.nextId ≤ n)
    (hchats : ∀ c, (db.chats.get? c).isSome = (w.db.chats.get? c).isSome) :
    Calm w { w with nextId := n, db } := ⟨hid, rfl, rfl, rfl, fun _ => rfl, hchats⟩

/-- A step on one live run that keeps its project. -/
theorem calm_modifyLive (w : World) (r : Nat) {f : LiveRun → LiveRun} (hid : ∀ live, (f live).id = live.id)
    (hchat : ∀ live, (f live).chatId = live.chatId) : Calm w (w.modifyLive r f) := by
  refine ⟨Nat.le_refl _, rfl, rfl, rfl, fun r' => ?_, fun _ => rfl⟩
  show ((w.mem.runs.modify r f).get? r').map LiveRun.chatId = _
  rw [Table.get?_modify _ _ _ hid]
  split
  · rename_i hr
    rw [hr, Option.map_map]
    exact congrArg (Option.map · _) (funext hchat)
  · rfl

/-- Writing a project that exists. -/
theorem isSome_put {db : Database} {chat : Chat} (chat' : Chat) (h : db.chats.get? chat'.id = some chat) (c : Nat) :
    ((db.chats.put chat').get? c).isSome = (db.chats.get? c).isSome := by
  rw [Table.get?_put]
  split
  · rename_i hc
    rw [hc, key_chat, h]
    rfl
  · rfl

theorem isSome_modify (db : Database) (c c' : Nat) {f : Chat → Chat} (hf : ∀ chat, (f chat).id = chat.id) :
    ((db.chats.modify c f).get? c').isSome = (db.chats.get? c').isSome := by
  rw [Table.get?_modify _ _ _ hf]
  split
  · rename_i hc
    rw [hc, Option.isSome_map]
  · rfl

/-! ## §2. Kinds of steps. -/

theorem calm_storage {st : WStep} (h : StorageStep st) : CalmStep st :=
  calm_of_eq h.nextId (by rw [h.mem]) (by rw [h.mem]) (by rw [h.mem]) (by rw [h.mem]) (by rw [h.db])

theorem calm_sandbox {st : WStep} (h : SandboxStep c st) : CalmStep st :=
  calm_of_eq h.nextId (by rw [h.mem]) (by rw [h.mem]) (by rw [h.mem]) (by rw [h.mem]) (by rw [h.db])

theorem calm_work {st : WStep} (h : WorkStep st) : CalmStep st :=
  calm_of_eq (Nat.le_of_eq h.nextId.symm) (by rw [h.mem]) (by rw [h.mem]) (by rw [h.mem]) (by rw [h.mem])
    (by rw [h.db])

theorem addEvent?_chats {db db' : Database} {event : Option Event} (h : db.addEvent? event = .ok db') :
    db'.chats = db.chats := by
  cases event with
  | none => exact congrArg Database.chats (Except.ok.inj h).symm
  | some e => rw [(addEvent_eq h).1]

theorem calm_save {owner : Option Nat} {events : Option Event → Prop} {st : WStep}
    (h : SaveStep cfg c owner events st) : CalmStep st := by
  rcases h with h | ⟨archive, files, template, _, h | ⟨v, h⟩⟩ | ⟨event, _, _, h | ⟨revision, recovery, h⟩⟩
  · exact calm_storage h
  · unfold CalmStep
    rw [h]
    exact calm_refl _
  · unfold CalmStep
    obtain ⟨chat, _, ⟨_, _, _, _, _, h⟩ | ⟨_, h⟩⟩ := recordRevision_cases h
    · rw [h]
      exact calm_refl _
    · rw [h]
      exact calm_db _ (Nat.le_succ _) fun _ => rfl
  · unfold CalmStep
    rw [h]
    exact calm_refl _
  · unfold CalmStep
    rcases promoteLocked_cases h with ⟨_, h⟩ | ⟨chat, row, db, _, hchat, _, _, _, hdb, h⟩
    · rw [h]
      exact calm_refl _
    · rw [h]
      refine calm_db _ (Nat.le_refl _) fun c' => ?_
      rw [addEvent?_chats hdb]
      have hid : chat.id = revision.chatId := Table.key_of_get? hchat
      exact isSome_put { chat with latestSavedRevisionId := some row.id } (hid ▸ hchat) c'

theorem calm_own {st : WStep} (h : OwnStep runId c st) : CalmStep st := by
  cases h with
  | storage h => exact calm_storage h
  | sandbox h => exact calm_sandbox h
  | event event hrun h =>
      obtain ⟨rfl, _⟩ := addEvent_eq h
      exact calm_db _ (Nat.le_refl _) fun _ => rfl
  | append w event => exact calm_modifyLive w runId (fun _ => rfl) fun _ => rfl
  | keep w sandbox => exact calm_modifyLive w runId (fun _ => rfl) fun _ => rfl

theorem calm_run {st : WStep} (h : RunStep cfg runId c st) : CalmStep st := by
  cases h with
  | own h => exact calm_own h
  | save h => exact calm_save h
  | saved w revisionId event => exact calm_modifyLive w runId (fun _ => rfl) fun _ => rfl
  | watch w => exact calm_refl w

theorem calm_serve {st : WStep} (h : ServeStep cfg c st) : CalmStep st := by
  cases h with
  | storage h => exact calm_storage h
  | sandbox h => exact calm_sandbox h
  | save h => exact calm_save h
  | work h => exact calm_work h

theorem calm_body {st : WStep} (h : BodyStep cfg runId c st) : CalmStep st := by
  cases h with
  | serve h => exact calm_serve h
  | run h => exact calm_run h

/-- Only its project and its row change when a preview is published. -/
theorem publishPreview_eq {revisionId : Nat} {url : String} {w w' : World}
    (h : publishPreview c revisionId url w = .ok ((), w')) :
    ∃ chat r, w.db.chats.get? c = some chat ∧ w.db.runtimes.get? c = some r ∧ r.state = .running ∧
      r.sandboxId = w.mem.handle? c ∧
      w' = { w with db := { w.db.setRuntime (reusableRow r revisionId w.now) with
        chats := w.db.chats.put { chat with appUrl := some url } } } := by
  unfold publishPreview at h
  split at h
  · cases h
  · rename_i chat hchat
    split at h
    · cases h
    · split at h
      · cases h
      · rename_i w₁ hmark
        have hmark : markVerified c (some revisionId) w = .ok w₁ := hmark
        rcases markVerified_eq hmark with ⟨_, hv⟩ | ⟨r, v, hv, hr, hrun, hs, rfl⟩
        · cases hv
        · obtain rfl := Option.some.inj hv
          simp only [Except.ok.injEq, Prod.mk.injEq, true_and] at h
          exact ⟨chat, r, hchat, hr, hrun, hs, h.symm⟩

theorem calm_preview {st : WStep} (h : PreviewStep cfg c st) : CalmStep st := by
  cases h with
  | serve h => exact calm_serve h
  | publish revisionId url h =>
      obtain ⟨chat, r, hchat, _, _, _, rfl⟩ := publishPreview_eq h
      have hid : chat.id = c := Table.key_of_get? hchat
      exact calm_db _ (Nat.le_refl _) fun c' =>
        isSome_put { chat with appUrl := some url } (hid ▸ hchat) c'

theorem calm_finishRun {live : LiveRun} {status : RunStatus} {reason : String} {url : Option String}
    {w w' : World} {v : Option Event} (h : finishRun live status reason url w = .ok (v, w')) : Calm w w' := by
  rcases finishRun_cases h with ⟨_, rfl, _⟩ | ⟨run, w₁, _, _, _, hmark, _, rfl⟩
  · exact calm_refl _
  · have hdb : ∀ db : Database, db.chats = w.db.chats → ∀ c',
        ((endedDb db live status reason url (terminalEvent live status reason url w)).chats.get? c').isSome
          = (w.db.chats.get? c').isSome := fun db hdb c' => by
      rw [← hdb]
      exact isSome_modify db live.chatId c' (f := fun c => c.finished url (verifiedBy live status)) fun _ => rfl
    rcases markVerified_eq hmark with ⟨rfl, _⟩ | ⟨r, _, _, _, _, _, rfl⟩
    · exact calm_db w.nextId (Nat.le_refl _) (hdb _ rfl)
    · exact calm_db w.nextId (Nat.le_refl _) (hdb _ rfl)

theorem calm_finish {op : Op} {status : RunStatus} {reason : String} {url : Option String} :
    (finish op runId status reason url).All CalmStep := by
  refine All.bind (all_memory fun _ w => calm_refl w) fun live => ?_
  split
  · trivial
  · refine All.bind (all_transaction (fun _ _ w => calm_refl w) fun _ _ _ _ _ h => calm_finishRun h)
      fun event => ?_
    split
    · trivial
    · have happend : ∀ event, (appendEvent runId event).All (OwnStep runId 0) := all_appendEvent
      exact All.mono (fun _ => calm_own) (happend _)

/-! ## §3. Storage of a deleted project. -/

theorem calm_cleanupKey (key : ObjectKey) : (cleanupKey key).All CalmStep := by
  have hremove : (removeStored key).All CalmStep := by
    unfold removeStored
    split
    · exact all_toThread fun _ _ w => calm_refl w
    · exact All.mono (fun _ => calm_storage)
        (All.bind (all_waitForUploads _) fun _ => all_storageDelete _)
  refine All.bind (All.tryCatch (All.bind hremove fun _ => trivial) fun e => ?_) fun removed => ?_
  · split <;> trivial
  · split
    · refine All.bind (all_transaction (fun _ _ w => calm_refl w) fun _ _ w _ w' h => ?_) fun _ => trivial
      simp only [Except.ok.injEq, Prod.mk.injEq, true_and] at h
      subst h
      refine calm_db _ (Nat.le_refl _) fun c' => ?_
      unfold Database.purge
      split <;> rfl
    · trivial

theorem calm_cleanupProjectStorage : ∀ keys, (cleanupProjectStorage keys).All CalmStep
  | [] => trivial
  | key :: keys =>
      All.bind (calm_cleanupKey key) fun _ => All.bind (calm_cleanupProjectStorage keys) fun _ => trivial

theorem calm_scopeFree : ScopeFree CalmStep := fun _ _ h => h

end WebBuilder.Service
