/-
  WebBuilder.Archive.RoundTrip — packing and restoring.

  A checkpoint is packed in one sandbox and restored in another.  Validation
  is sufficient for extraction, with one exception: `safe_path` lets the name
  `.` pass, because that is how an empty `PurePosixPath` prints.

  Main results:
    * `restore_sufficient` — when the directory is never cleared in vain;
    * `pack_restore` — restoring what was packed gives the packed files back.
-/
import WebBuilder.Archive.Restore
import WebBuilder.Model.Persistence

namespace WebBuilder.Archive

/-! ## §1. Validation before extraction. -/

/-- The restored directory is what `manifest` says of the archive, within the
limits, and only files of the archive were written. -/
structure Faithful (zip : ZipLibrary) (sha256 : Bytes → String) (archive : Bytes) (root root' : Tree)
    (files : Manifest) : Prop where
  listed : manifest zip sha256 archive = .ok files
  restored : workspaceFiles sha256 root'.entries = .ok files
  count : files.length ≤ MAX_FILES
  total : sizes files ≤ MAX_BYTES
  included : ∀ f ∈ files, allowed f.1 = true
  apart : conflicting (files.map Prod.fst) = false
  written : ∀ path k, root'.entries.lookup path = some k →
    (∃ f ∈ files, ∃ data, joined path = f.1 ∧ f.2 = info sha256 data ∧ k = .leaf (.file data)) ∨
      (k = .dir ∧ ∃ f ∈ files, path <+: components f.1) ∨
      (path.head? = some "node_modules" ∧ root.entries.lookup path = some k)
  kept : root.entries.lookup ["node_modules"] = some .dir →
    ∀ path, root'.entries.lookup ("node_modules" :: path) = root.entries.lookup ("node_modules" :: path)

theorem conflicting_perm {a b : List String} (h : a.Perm b) : conflicting a = conflicting b := by
  have hmem : ∀ p, (p ∈ a ↔ p ∈ b) := fun p => h.mem_iff
  unfold conflicting
  rw [Bool.eq_iff_iff, List.any_eq_true, List.any_eq_true]
  simp only [hmem]

/-- What was extracted is what the archive says. -/
theorem faithful_of_extracted {zip : ZipLibrary} {sha256 : Bytes → String} {archive : Bytes}
    {files : Manifest} {items : List ZipEntry} (hman : manifest zip sha256 archive = .ok files)
    (hread : zip.read archive = .ok items) (hdot : ∀ item ∈ items, item.filename ≠ ".") {root root' : Tree}
    (hex : Extracted items (cleared root.entries).lookup root'.entries.lookup)
    (hfiles : workspaceFiles sha256 root'.entries = .ok files) :
    Faithful zip sha256 archive root root' files := by
  obtain ⟨items', hread', hacc, hsorted⟩ := manifest_accepted hman
  rw [hread] at hread'
  obtain rfl := Except.ok.inj hread'
  have hnamed : ∀ item ∈ items, Named item := fun i hi => named_of_safe (hacc.safe i hi) (hdot i hi)
  have hperm : files.Perm (items.map (ZipEntry.entry sha256)) := by
    rw [hsorted]
    exact sortedDict_perm _
  have hmem : ∀ item ∈ items, item.entry sha256 ∈ files := fun item hi =>
    hperm.mem_iff.mpr (List.mem_map_of_mem hi)
  have hcomp : ∀ item ∈ items, components item.filename = target item := by
    intro item hi
    rw [← (hnamed item hi).joined_target]
    exact components_joined (fun p hp => ((hnamed item hi).valid p hp).slashless) (hnamed item hi).nonempty
  obtain ⟨_, _, hsizes, hcount⟩ := workspaceFiles_iff.mp hfiles
  refine ⟨hman, hfiles, hcount, hsizes, fun f hf => ?_, ?_, fun path k hl => ?_, fun hdir path => ?_⟩
  · obtain ⟨item, hi, rfl⟩ := List.mem_map.mp (hperm.mem_iff.mp hf)
    show allowed item.filename = true
    rw [← (hnamed item hi).joined_target]
    exact (allowed_joined (hnamed item hi).valid (hnamed item hi).nonempty).mpr (hnamed item hi).included
  · rw [conflicting_perm (hperm.map Prod.fst), List.map_map]
    exact hacc.apart
  · by_cases hold : path = [] ∨ ∀ item ∈ items, ¬ path <+: target item
    · rw [hex.rest path hold] at hl
      cases path with
      | nil => simp at hl
      | cons m ms =>
          by_cases hm : m = "node_modules"
          · subst hm
            refine .inr (.inr ⟨rfl, ?_⟩)
            rw [lookup_cleared root.wellFormed] at hl
            split at hl
            · exact hl
            · cases hl
          · rw [lookup_cleared_ne _ hm] at hl
            cases hl
    · rw [not_or, not_forall] at hold
      obtain ⟨hne, item, hold⟩ := hold
      rw [Classical.not_imp, not_not] at hold
      obtain ⟨hi, hpre⟩ := hold
      by_cases htarget : ∃ item ∈ items, path = target item
      · obtain ⟨item, hi, rfl⟩ := htarget
        rw [hex.file item hi] at hl
        exact .inl ⟨_, hmem item hi, item.data, (hnamed item hi).joined_target, rfl,
          (Option.some.inj hl).symm⟩
      · rw [hex.dir path hne ⟨item, hi, hpre⟩ fun i hi heq => htarget ⟨i, hi, heq⟩] at hl
        refine .inr (.inl ⟨(Option.some.inj hl).symm, _, hmem item hi, ?_⟩)
        show path <+: components item.filename
        rw [hcomp item hi]
        exact hpre
  · rw [hex.rest, lookup_cleared root.wellFormed, if_pos hdir]
    right
    intro item hi hpre
    have hexcl := (hnamed item hi).included "node_modules" (hpre.subset List.mem_cons_self)
    revert hexcl
    decide

/-- A member without a target fails after the directory was cleared. -/
theorem extractAll_dot {items : List ZipEntry} (h : ∃ item ∈ items, item.filename = ".") (root : Entries) :
    ∃ e, extractAll root items = .error e := by
  induction items generalizing root with
  | nil =>
      obtain ⟨item, hitem, _⟩ := h
      cases hitem
  | cons first items ih =>
      unfold extractAll
      rw [List.foldlM_cons]
      cases hfirst : extractMember root first with
      | error e => exact ⟨e, rfl⟩
      | ok root' =>
          obtain ⟨item, hitem, hdot⟩ := h
          rcases List.mem_cons.mp hitem with rfl | hitem
          · -- its target is the root itself
            have htarget : target item = [] := by
              unfold target
              rw [hdot]
              decide
            unfold extractMember at hfirst
            rw [htarget] at hfirst
            cases hb : item.broken with
            | some e =>
                rw [hb] at hfirst
                cases hfirst
            | none =>
                rw [hb] at hfirst
                cases root <;> cases hfirst
          · exact ih ⟨item, hitem, hdot⟩ root'

/-- **Validation is sufficient** unless an accepted archive has a member `.`. -/
theorem restore_sufficient (zip : ZipLibrary) (sha256 : Bytes → String) (root : Tree) (archive : Bytes) :
    ((∃ e, restore zip sha256 root.entries archive = .error e) ∨
        ∃ root' : Tree, restore zip sha256 root.entries archive = .ok (.ok root'.entries) ∧
          ∃ files, Faithful zip sha256 archive root root' files) ↔
      (∃ e, manifest zip sha256 archive = .error e) ∨
        ∀ items, zip.read archive = .ok items → ∀ item ∈ items, item.filename ≠ "." := by
  cases hman : manifest zip sha256 archive with
  | error e =>
      have hraise : restore zip sha256 root.entries archive = .error e := by
        unfold restore
        rw [hman]
        rfl
      constructor
      · exact fun _ => .inl ⟨e, rfl⟩
      · exact fun _ => .inl ⟨e, hraise⟩
  | ok files =>
      obtain ⟨items, hread, _, _⟩ := manifest_accepted hman
      have hrun : restore zip sha256 root.entries archive
          = .ok (extractAll (cleared root.entries) items) := by
        unfold restore
        rw [hman, hread]
        rfl
      rw [hrun, hread]
      constructor
      · rintro (⟨e, he⟩ | ⟨root', hok, _⟩)
        · cases he
        · right
          rintro items' ⟨⟩ item hitem hdot
          obtain ⟨e, he⟩ := extractAll_dot ⟨item, hitem, hdot⟩ (cleared root.entries)
          rw [he] at hok
          cases hok
      · rintro (⟨e, he⟩ | hdot)
        · cases he
        · have hdot' := hdot items rfl
          obtain ⟨root', hok, hex, hfiles⟩ := restore_accepted hman hread hdot' root
          rw [hrun] at hok
          exact .inr ⟨root', hok, files, faithful_of_extracted hman hread hdot' hex hfiles⟩

/-- An archive with one empty member, `.`. -/
def dotArchive : Bytes :=
  [80, 75, 3, 4, 20, 0, 0, 0, 0, 0, 0, 0, 33, 0, 0, 0, 0, 0, 0, 0, 0, 0, 0, 0, 0, 0, 1, 0, 0,
   0, 46, 80, 75, 1, 2, 20, 3, 20, 0, 0, 0, 0, 0, 0, 0, 33, 0, 0, 0, 0, 0, 0, 0, 0, 0, 0, 0, 0,
   0, 1, 0, 0, 0, 0, 0, 0, 0, 0, 0, 0, 0, 164, 129, 0, 0, 0, 0, 46, 80, 75, 5, 6, 0, 0, 0, 0,
   1, 0, 1, 0, 47, 0, 0, 0, 31, 0, 0, 0, 0, 0]

/-- `zipfile` on that archive. -/
def dotZip : ZipLibrary where
  read archive := if archive = dotArchive then .ok [⟨".", 0o100644, false, 0, [], none⟩] else .error .other
  growth _ := .error .other
  write _ := .error .other

/-- SHA-256 on the empty string. -/
def emptySha256 (_ : Bytes) : String :=
  "e3b0c44298fc1c149afbf4c8996fb92427ae41e4649b934ca495991b7852b855"

/-- A directory with one file. -/
def projectRoot : Tree where
  entries := .leaf "a" (.file [120]) .nil
  wellFormed := ⟨⟨by decide, by decide, by decide, by unfold Slashless; decide⟩,
    fun m hm => (by cases hm), trivial⟩

/-- A member `.` passes validation, and its extraction fails after the
directory was cleared. -/
theorem dot_member_clears_directory :
    ¬ ((∃ e, restore dotZip emptySha256 projectRoot.entries dotArchive = .error e) ∨
      ∃ root' : Tree, restore dotZip emptySha256 projectRoot.entries dotArchive = .ok (.ok root'.entries) ∧
        ∃ files, Faithful dotZip emptySha256 dotArchive projectRoot root' files) := by
  have hrun : restore dotZip emptySha256 projectRoot.entries dotArchive = .ok (.error .other) := by
    decide
  rw [hrun]
  rintro (⟨e, he⟩ | ⟨root', hok, _⟩)
  · cases he
  · cases hok

/-! ## §2. Packing. -/

/-- A recorded file is where its name says. -/
theorem lookup_of_recorded {sha256 : Bytes → String} {root : Tree} {files : Manifest}
    (h : workspaceFiles sha256 root.entries = .ok files) {f : String × FileInfo} (hf : f ∈ files) :
    (∀ p ∈ components f.1, ValidName p) ∧
      ∃ data, root.entries.lookup (components f.1) = some (.leaf (.file data)) ∧ f.2 = info sha256 data := by
  obtain ⟨_, rfl, _, _⟩ := workspaceFiles_iff.mp h
  obtain ⟨⟨path, kind⟩, hvis, he⟩ := List.mem_filterMap.mp (mem_sortedDict.mp hf)
  obtain ⟨_, data, hk, rfl⟩ := fileEntry_eq_some.mp he
  dsimp only at hk ⊢
  subst hk
  have hl := ((mem_visited root).mp hvis).1
  obtain ⟨hne, hvalid⟩ := Entries.lookup_valid root.wellFormed hl
  rw [components_joined (fun p hp => (hvalid p hp).slashless) hne]
  exact ⟨hvalid, data, hl, rfl⟩

/-- What `pack` checks before it returns. -/
theorem pack_ok {zip : ZipLibrary} {sha256 : Bytes → String} {stamps : String → Nat} {root : Entries}
    {archive : Bytes} (h : pack zip sha256 stamps root = .ok archive) :
    ∃ files, workspaceFiles sha256 root = .ok files ∧ manifest zip sha256 archive = .ok files := by
  unfold pack at h
  cases hbefore : workspaceFiles sha256 root with
  | error e =>
      rw [hbefore] at h
      cases h
  | ok files =>
      rw [hbefore] at h
      change ((files.map Prod.fst).foldlM (packItem zip root stamps) [] >>= _) = _ at h
      cases hmembers : (files.map Prod.fst).foldlM (packItem zip root stamps) [] with
      | error e =>
          rw [hmembers] at h
          cases h
      | ok members =>
          rw [hmembers] at h
          change (zip.write members >>= _) = _ at h
          cases hwrite : zip.write members with
          | error e =>
              rw [hwrite] at h
              cases h
          | ok archive' =>
              rw [hwrite] at h
              change (if _ then _ else _) = _ at h
              split at h
              · cases h
              · cases hman : manifest zip sha256 archive' with
                | error e =>
                    rw [hman] at h
                    cases h
                | ok packed =>
                    rw [hman] at h
                    change (if packed ≠ files ∨ files ≠ files then _ else _) = _ at h
                    split at h
                    · cases h
                    · rename_i hsame
                      rw [not_or, not_not] at hsame
                      rw [← Except.ok.inj h, hman, hsame.1]
                      exact ⟨files, rfl, rfl⟩

/-- What `pack` writes depends on the recorded files only. -/
theorem pack_congr {zip : ZipLibrary} {sha256 : Bytes → String} {stamps : String → Nat} {root root' : Entries}
    (hfiles : workspaceFiles sha256 root = workspaceFiles sha256 root')
    (hmember : ∀ files, workspaceFiles sha256 root = .ok files → ∀ name ∈ files.map Prod.fst,
      memberOf root stamps name = memberOf root' stamps name) :
    pack zip sha256 stamps root = pack zip sha256 stamps root' := by
  unfold pack
  rw [← hfiles]
  cases hbefore : workspaceFiles sha256 root with
  | error e => rfl
  | ok files =>
      have hitems : ∀ (names : List String) (members : List Member),
          (∀ name ∈ names, memberOf root stamps name = memberOf root' stamps name) →
            names.foldlM (packItem zip root stamps) members
              = names.foldlM (packItem zip root' stamps) members := by
        intro names
        induction names with
        | nil => exact fun _ _ => rfl
        | cons name names ih =>
            intro members hsame
            have hone : packItem zip root stamps members name = packItem zip root' stamps members name := by
              unfold packItem
              rw [hsame name List.mem_cons_self]
            rw [List.foldlM_cons, List.foldlM_cons, hone]
            exact congrArg _ (funext fun members' =>
              ih members' fun n hn => hsame n (List.mem_cons_of_mem _ hn))
      show ((files.map Prod.fst).foldlM (packItem zip root stamps) [] >>= _)
        = ((files.map Prod.fst).foldlM (packItem zip root' stamps) [] >>= _)
      rw [hitems _ _ (hmember files hbefore)]

/-- The saved revision of the project has these files. -/
def SavedAs (cfg : Config) (chatId : Nat) (files : Manifest) (template : String) (revisionId : Nat)
    (w : World) : Prop :=
  ∃ chat revision, w.db.chats.get? chatId = some chat ∧ chat.latestSavedRevisionId = some revisionId ∧
    w.db.revisions.get? revisionId = some revision ∧ revision.id = revisionId ∧
      revision.status = .ready ∧ revision.contentHash = contentHash cfg files template

/-- A checkpoint of saved files makes no revision. -/
theorem recordRevision_saved {cfg : Config} {chatId revisionId : Nat} {files : Manifest} {template : String}
    {w : World} (h : SavedAs cfg chatId files template revisionId w) (runId : Option Nat) (archive : Bytes) :
    recordRevision cfg chatId runId archive files template w = .ok (.inl revisionId, w) := by
  obtain ⟨chat, revision, hchat, hlatest, hrev, rfl, hready, hhash⟩ := h
  have hfilter : (some revision).filter (fun r =>
      r.status = .ready ∧ r.contentHash = contentHash cfg files template) = some revision :=
    Option.filter_eq_some_iff.mpr ⟨rfl, by simp [hready, hhash]⟩
  unfold recordRevision
  simp only [hchat, hlatest, Option.bind_some, hrev, hfilter]

/-- **Packing and restoring are inverse.** -/
theorem pack_restore {zip : ZipLibrary} {sha256 : Bytes → String} {stamps : String → Nat} {root : Tree}
    {archive : Bytes} (h : pack zip sha256 stamps root.entries = .ok archive) :
    ∃ files, workspaceFiles sha256 root.entries = .ok files ∧ manifest zip sha256 archive = .ok files ∧
      ∀ other : Tree, ∃ other' : Tree,
        restore zip sha256 other.entries archive = .ok (.ok other'.entries) ∧
          Faithful zip sha256 archive other other' files ∧
          (Function.Injective sha256 → pack zip sha256 stamps other'.entries = .ok archive) ∧
          ∀ stamps' archive', pack zip sha256 stamps' other'.entries = .ok archive' →
            ∃ files', manifest zip sha256 archive' = .ok files' ∧
              ∀ cfg template, contentHash cfg files' template = contentHash cfg files template ∧
                ∀ chatId revisionId w, SavedAs cfg chatId files template revisionId w →
                  ∀ runId, recordRevision cfg chatId runId archive' files' template w
                    = .ok (.inl revisionId, w) := by
  obtain ⟨files, hfiles, hman⟩ := pack_ok h
  obtain ⟨items, hread, hacc, hsorted⟩ := manifest_accepted hman
  have hdot : ∀ item ∈ items, item.filename ≠ "." := by
    intro item hitem hname
    have hmem : item.entry sha256 ∈ files := by
      rw [hsorted]
      exact mem_sortedDict.mpr (List.mem_map_of_mem hitem)
    have hvalid := (lookup_of_recorded hfiles hmem).1
    -- the only component of this name is no valid one
    have hcomp : components (item.entry sha256).1 = ["."] := by
      show components item.filename = ["."]
      rw [hname]
      decide
    rw [hcomp] at hvalid
    exact (hvalid "." List.mem_cons_self).dot rfl
  refine ⟨files, hfiles, hman, fun other => ?_⟩
  obtain ⟨other', hrestore, hex, hfiles'⟩ := restore_accepted hman hread hdot other
  refine ⟨other', hrestore, faithful_of_extracted hman hread hdot hex hfiles', fun hinj => ?_, ?_⟩
  · rw [← h]
    refine pack_congr (hfiles'.trans hfiles.symm) fun files₂ hfiles₂ name hname => ?_
    rw [hfiles'] at hfiles₂
    obtain rfl := Except.ok.inj hfiles₂
    obtain ⟨f, hf, rfl⟩ := List.mem_map.mp hname
    obtain ⟨_, data, hl, hinfo⟩ := lookup_of_recorded hfiles hf
    obtain ⟨_, data', hl', hinfo'⟩ := lookup_of_recorded hfiles' hf
    have hsame : data' = data := by
      rw [hinfo] at hinfo'
      exact (hinj (congrArg FileInfo.sha256 hinfo')).symm
    unfold memberOf
    rw [hl, hl', hsame]
  · intro stamps' archive' hpack
    obtain ⟨files', hworkspace, hman'⟩ := pack_ok hpack
    rw [hfiles'] at hworkspace
    obtain rfl := Except.ok.inj hworkspace
    refine ⟨files, hman', fun cfg template => ⟨rfl, fun chatId revisionId w hsaved runId => ?_⟩⟩
    exact recordRevision_saved hsaved runId archive'

/-- The archive of a directory with one file. -/
def projectArchive : Bytes :=
  [80, 75, 3, 4, 20, 0, 0, 0, 8, 0, 0, 0, 33, 0, 131, 22, 220, 140, 3, 0, 0, 0, 1, 0, 0, 0, 1,
   0, 0, 0, 97, 171, 0, 0, 80, 75, 1, 2, 20, 3, 20, 0, 0, 0, 8, 0, 0, 0, 33, 0, 131, 22, 220,
   140, 3, 0, 0, 0, 1, 0, 0, 0, 1, 0, 0, 0, 0, 0, 0, 0, 0, 0, 0, 0, 164, 129, 0, 0, 0, 0, 97,
   80, 75, 5, 6, 0, 0, 0, 0, 1, 0, 1, 0, 47, 0, 0, 0, 34, 0, 0, 0, 0, 0]

/-- `zipfile` on that directory and its archive. -/
def projectZip : ZipLibrary where
  read archive :=
    if archive = projectArchive then .ok [⟨"a", 0o100644, false, 1, [[120]], none⟩] else .error .other
  growth members := if members = [⟨"a", 33, [120]⟩] then .ok 34 else .error .other
  write members := if members = [⟨"a", 33, [120]⟩] then .ok projectArchive else .error .other

/-- SHA-256 on the content of its file. -/
def fileSha256 (_ : Bytes) : String :=
  "2d711642b726b04401627ca9fbac32f5c8530fb1903cc4db02258717921a4881"

theorem pack_restore_oneFile :
    ∃ files, workspaceFiles fileSha256 projectRoot.entries = .ok files ∧ files ≠ [] ∧
      manifest projectZip fileSha256 projectArchive = .ok files ∧
      ∃ other' : Tree, restore projectZip fileSha256 projectRoot.entries projectArchive
        = .ok (.ok other'.entries) := by
  have hpack : pack projectZip fileSha256 (fun _ => 33) projectRoot.entries = .ok projectArchive := by
    decide
  obtain ⟨files, hfiles, hman, hall⟩ := pack_restore hpack
  obtain ⟨other', hrestore, _⟩ := hall projectRoot
  refine ⟨files, hfiles, ?_, hman, other', hrestore⟩
  have hlist : workspaceFiles fileSha256 projectRoot.entries = .ok [("a", info fileSha256 [120])] := by
    decide
  rw [hfiles] at hlist
  rw [Except.ok.inj hlist]
  exact List.cons_ne_nil _ _

end WebBuilder.Archive
