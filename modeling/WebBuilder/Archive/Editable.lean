/-
  WebBuilder.Archive.Editable — edited paths and archived names.

  `project_path` decides which paths the edit tools accept, `safe_path` and
  `allowed` decide later which of them a checkpoint can hold.  Both normalise
  with `PurePosixPath`, but `project_path` looks neither for colons nor for
  control characters nor at the length of a path.

  Main results:
    * `checkpointable_iff` — when the two validators agree on a path;
    * `packable_iff` — when some workspace with the files of a batch can be
      checkpointed.
-/
import WebBuilder.Archive.Restore
import WebBuilder.Run.Workspace

namespace WebBuilder.Archive

open WebBuilder.Async WebBuilder.Workspace

/-! ## §1. Names that an archive can hold. -/

/-- A character that `safe_path` refuses and `project_path` does not. -/
def foreign (c : Char) : Bool := c = ':' || c.toNat < 32

/-- The length of the joined components, and one more. -/
def spelled (parts : List String) : Nat := (parts.map String.length).sum + parts.length

/-- Components whose path is short and has no foreign character. -/
def Portable (parts : List String) : Prop :=
  spelled parts ≤ 513 ∧ ∀ p ∈ parts, p.toList.any foreign = false

instance (parts : List String) : Decidable (Portable parts) := by
  unfold Portable
  infer_instance

/-- The directories and the file that the walk of `workspace_files` sees. -/
def archivedPart (parts : List String) : List String := parts.takeWhile fun p => !excluded p

/-- What the checkpoint does with a path: it holds it, or leaves it out. -/
def Checkpointable (path : String) : Prop := safePath path = .ok path ∨ allowed path = false

theorem portable_nil : Portable [] := by
  refine ⟨?_, fun p hp => ?_⟩
  · show 0 ≤ 513
    omega
  · cases hp

theorem Portable.initial {parts pre : List String} (h : Portable parts) (hpre : pre <+: parts) : Portable pre := by
  obtain ⟨rest, rfl⟩ := hpre
  refine ⟨?_, fun p hp => h.2 p (List.mem_append_left rest hp)⟩
  have hlen := h.1
  unfold spelled at hlen ⊢
  rw [List.map_append, List.sum_append, List.length_append] at hlen
  omega

/-- The length of a joined path. -/
theorem length_joined : ∀ {parts : List String}, parts ≠ [] → (joined parts).length + 1 = spelled parts
  | [], h => absurd rfl h
  | p :: ps, _ => by
      have hcons := congrArg List.length (joined_cons p ps)
      rw [List.length_append, String.length_toList, String.length_toList] at hcons
      show _ = (p.length + (ps.map String.length).sum) + (ps.length + 1)
      by_cases hps : ps = []
      · subst hps
        simp only [if_true, List.length_nil] at hcons
        simp only [List.map_nil, List.sum_nil, List.length_nil]
        omega
      · have ih := length_joined hps
        rw [if_neg hps, List.length_cons, String.length_toList] at hcons
        unfold spelled at ih
        omega

/-- The characters of a joined path. -/
theorem any_joined (f : Char → Bool) (hslash : f '/' = false) (parts : List String) :
    (joined parts).toList.any f = parts.any fun p => p.toList.any f := by
  induction parts with
  | nil => rfl
  | cons p ps ih =>
      rw [joined_cons, List.any_append, List.any_cons]
      by_cases hps : ps = []
      · subst hps
        rfl
      · rw [if_neg hps, List.any_cons, hslash, ih, Bool.false_or]

/-! ## §2. What `project_path` accepts. -/

/-- Valid components without a backslash. -/
structure EditableParts (parts : List String) : Prop where
  valid : ∀ p ∈ parts, ValidName p
  backslash : ∀ p ∈ parts, '\\' ∉ p.toList

/-- **What `project_path` accepts**, and how it prints it. -/
theorem projectPath_ok {path q : String} (h : projectPath path = .ok q) :
    EditableParts (parsePath path).parts ∧
      q = if (parsePath path).parts = [] then "." else joined (parsePath path).parts := by
  unfold projectPath at h
  dsimp only at h
  split at h
  · cases h
  rename_i hplain
  simp only [not_or] at hplain
  obtain ⟨_, habs, hdots, hback⟩ := hplain
  split at h
  · cases h
  split at h
  · cases h
  have hroot : (parsePath path).root = "" := by simpa [PurePosixPath.isAbsolute] using habs
  refine ⟨⟨fun p hp => ?_, fun p hp hmem => hback ?_⟩, ?_⟩
  · have hfilter := (List.mem_filter.mp hp).2
    simp only [ne_eq, decide_eq_true_eq] at hfilter
    exact ⟨hfilter.1, hfilter.2, fun heq => hdots (heq ▸ hp), components_slashless (List.mem_of_mem_filter hp)⟩
  · -- a character of a component is one of the path
    have hany := any_joined (fun c => c = '\\') (by decide) (components path)
    rw [joined_components] at hany
    have htrue : path.toList.any (fun c => c = '\\') = true := by
      rw [hany, List.any_eq_true]
      refine ⟨p, List.mem_of_mem_filter hp, ?_⟩
      rw [List.any_eq_true]
      exact ⟨'\\', hmem, by decide⟩
    rw [List.any_eq_true] at htrue
    obtain ⟨c, hc, heq⟩ := htrue
    rw [decide_eq_true_eq] at heq
    exact heq ▸ hc
  · rw [← Except.ok.inj h]
    unfold PurePosixPath.str
    by_cases hparts : (parsePath path).parts = []
    · rw [if_pos ⟨hroot, hparts⟩, if_pos hparts]
    · rw [if_neg (fun hh => hparts hh.2), if_neg hparts, hroot, String.empty_append]

/-- `safe_path` on components that the edit tools accept. -/
theorem safePath_editable {parts : List String} (h : EditableParts parts) (hne : parts ≠ []) :
    safePath (joined parts) = .ok (joined parts) ↔ Portable parts ∧ ∀ p ∈ parts, excluded p = false := by
  rw [safePath_joined h.valid hne, any_joined badChar (by decide)]
  have hlen := length_joined hne
  have hchars : (parts.any fun p => p.toList.any badChar) = false ↔ ∀ p ∈ parts, p.toList.any foreign = false := by
    rw [List.any_eq_false]
    refine forall_congr' fun p => forall_congr' fun hp => ?_
    rw [Bool.not_eq_true, List.any_eq_false, List.any_eq_false]
    refine forall_congr' fun c => forall_congr' fun hc => ?_
    have hback : c ≠ '\\' := fun heq => h.backslash p hp (heq ▸ hc)
    unfold badChar foreign
    simp [hback]
  rw [hchars]
  unfold Portable
  constructor
  · intro hsafe
    exact ⟨⟨by omega, hsafe.2.1⟩, hsafe.2.2⟩
  · intro hport
    exact ⟨by have := hport.1.1; omega, hport.1.2, hport.2⟩

/-- **When the validators agree** on an accepted path. -/
theorem checkpointable_iff {path q : String} (h : projectPath path = .ok q) :
    Checkpointable q ↔ Portable (parsePath path).parts ∨ ∃ p ∈ (parsePath path).parts, excluded p = true := by
  obtain ⟨heditable, rfl⟩ := projectPath_ok h
  by_cases hparts : (parsePath path).parts = []
  · rw [if_pos hparts, hparts]
    have hdot : Checkpointable "." := .inl (by decide)
    exact ⟨fun _ => .inl portable_nil, fun _ => hdot⟩
  · rw [if_neg hparts]
    have hallow := allowed_joined heditable.valid hparts
    unfold Checkpointable
    rw [safePath_editable heditable hparts]
    constructor
    · rintro (hsafe | hout)
      · exact .inl hsafe.1
      · right
        by_contra hno
        have hin := hallow.mpr fun p hp => by
          by_contra hexcl
          exact hno ⟨p, hp, by simpa using hexcl⟩
        rw [hout] at hin
        cases hin
    · intro hcond
      by_cases hexcl : ∃ p ∈ (parsePath path).parts, excluded p = true
      · right
        obtain ⟨p, hp, hp'⟩ := hexcl
        rw [← Bool.not_eq_true]
        intro hin
        rw [hallow.mp hin p hp] at hp'
        cases hp'
      · left
        refine ⟨hcond.resolve_right hexcl, fun p hp => ?_⟩
        by_contra hp'
        exact hexcl ⟨p, hp, by simpa using hp'⟩

/-! ## §3. Workspaces with the files of a batch. -/

/-- The files of a batch are in the workspace. -/
def Holds (files : List FileChange) (t : Tree) : Prop :=
  ∀ f ∈ files, ∃ data, t.entries.lookup (parsePath f.path).parts = some (.leaf (.file data))

/-- Only a directory has anything below it. -/
theorem lookup_above {es : Entries} (h : es.WellFormed) {a b : List String} {k : Kind} (ha : a ≠ []) (hb : b ≠ [])
    (hl : es.lookup (a ++ b) = some k) : es.lookup a = some .dir := by
  induction es generalizing a with
  | nil => cases hl
  | leaf n l rest ih =>
      have hlong : a ++ b ≠ [n] := by
        intro hab
        have hlen := congrArg List.length hab
        rw [List.length_append, List.length_singleton] at hlen
        have hposa := List.length_pos_iff.mpr ha
        have hposb := List.length_pos_iff.mpr hb
        omega
      rw [Entries.lookup, if_neg hlong] at hl
      have hne : a ≠ [n] := by
        rintro rfl
        rw [List.singleton_append, Entries.lookup_less h.2.1] at hl
        cases hl
      rw [Entries.lookup, if_neg hne]
      exact ih h.2.2 ha hl
  | dir n children rest ihc ih =>
      cases a with
      | nil => exact absurd rfl ha
      | cons m ms =>
          rw [List.cons_append] at hl
          by_cases hm : m = n
          · subst hm
            by_cases hms : ms = []
            · subst hms
              simp [Entries.lookup]
            · rw [Entries.lookup_dir_self m children rest (by simp [hms])] at hl
              rw [Entries.lookup_dir_self m children rest hms]
              exact ihc h.2.2.1 hms hl
          · rw [Entries.lookup_dir_ne hm] at hl ⊢
            exact ih h.2.2.2 ha hl

theorem archivedPart_initial (parts : List String) : archivedPart parts <+: parts :=
  List.takeWhile_prefix _

/-- What is kept out of no archive is part of what the walk sees. -/
theorem initial_archivedPart {parts pre : List String} (hpre : pre <+: parts)
    (hincl : ∀ p ∈ pre, excluded p = false) : pre <+: archivedPart parts := by
  obtain ⟨rest, rfl⟩ := hpre
  unfold archivedPart
  rw [List.takeWhile_append_of_pos (fun p hp => by simp [hincl p hp])]
  exact List.prefix_append _ _

theorem archivedPart_included {parts : List String} : ∀ p ∈ archivedPart parts, excluded p = false := by
  intro p hp
  have hkept := List.mem_takeWhile_imp hp
  simpa using hkept

/-- **The walk meets** every directory above a file that no archive leaves out. -/
theorem portable_of_workspaceFiles {sha256 : Bytes → String} {t : Tree} {files : Manifest} {parts : List String}
    {data : Bytes} (h : workspaceFiles sha256 t.entries = .ok files) (heditable : EditableParts parts)
    (hl : t.entries.lookup parts = some (.leaf (.file data))) : Portable (archivedPart parts) := by
  by_cases hne : archivedPart parts = []
  · rw [hne]
    exact portable_nil
  obtain ⟨rest, hrest⟩ := archivedPart_initial parts
  have hfound : ∃ k, t.entries.lookup (archivedPart parts) = some k := by
    by_cases hnil : rest = []
    · rw [hnil, List.append_nil] at hrest
      exact ⟨_, by rw [hrest]; exact hl⟩
    · rw [← hrest] at hl
      exact ⟨_, lookup_above t.wellFormed hne hnil hl⟩
  obtain ⟨k, hk⟩ := hfound
  have hvalid : ∀ p ∈ archivedPart parts, ValidName p := fun p hp =>
    heditable.valid p ((archivedPart_initial parts).subset hp)
  have hvisited := (mem_visited t).mpr ⟨hk, fun p hp => archivedPart_included p (List.mem_of_mem_dropLast hp)⟩
  have hclean := (workspaceFiles_iff.mp h).1 _ hvisited ((allowed_joined hvalid hne).mpr archivedPart_included)
  have hpart : EditableParts (archivedPart parts) :=
    ⟨hvalid, fun p hp => heditable.backslash p ((archivedPart_initial parts).subset hp)⟩
  exact ((safePath_editable hpart hne).mp hclean.1).1

/-! ## §4. A workspace for a batch. -/

/-- An empty file at the path of `f`. -/
def emptyFile (f : FileChange) : ZipEntry where
  filename := joined (parsePath f.path).parts
  mode := 0
  encrypted := false
  fileSize := 0
  chunks := []
  broken := none

theorem target_emptyFile {f : FileChange} (h : EditableParts (parsePath f.path).parts)
    (hne : (parsePath f.path).parts ≠ []) : target (emptyFile f) = (parsePath f.path).parts := by
  unfold target emptyFile
  rw [components_joined (fun p hp => (h.valid p hp).slashless) hne, List.filter_eq_self]
  intro p hp
  have hv := h.valid p hp
  simp [hv.nonempty, hv.dot, hv.dotdot]

/-- A batch whose files can be in one workspace. -/
structure Placed (files : List FileChange) : Prop where
  editable : ∀ f ∈ files, EditableParts (parsePath f.path).parts
  nonempty : ∀ f ∈ files, (parsePath f.path).parts ≠ []
  nodup : (files.map fun f => (parsePath f.path).parts).Nodup
  apart : ∀ f ∈ files, ∀ g ∈ files, (parsePath f.path).parts <+: (parsePath g.path).parts →
    (parsePath f.path).parts = (parsePath g.path).parts

theorem Placed.extractable {files : List FileChange} (h : Placed files) : Extractable (files.map emptyFile) := by
  have htarget : ∀ f ∈ files, target (emptyFile f) = (parsePath f.path).parts := fun f hf =>
    target_emptyFile (h.editable f hf) (h.nonempty f hf)
  refine ⟨?_, ?_, ?_, ?_, ?_⟩
  · intro item hitem
    obtain ⟨f, _, rfl⟩ := List.mem_map.mp hitem
    rfl
  · intro item hitem
    obtain ⟨f, hf, rfl⟩ := List.mem_map.mp hitem
    rw [htarget f hf]
    exact h.nonempty f hf
  · intro item hitem
    obtain ⟨f, hf, rfl⟩ := List.mem_map.mp hitem
    rw [htarget f hf]
    exact (h.editable f hf).valid
  · have hmap : (files.map emptyFile).map target = files.map fun f => (parsePath f.path).parts := by
      rw [List.map_map]
      refine List.map_congr_left fun f hf => ?_
      rw [Function.comp_apply]
      exact htarget f hf
    rw [hmap]
    exact h.nodup
  · intro a ha b hb
    obtain ⟨f, hf, rfl⟩ := List.mem_map.mp ha
    obtain ⟨g, hg, rfl⟩ := List.mem_map.mp hb
    rw [htarget f hf, htarget g hg]
    exact h.apart f hf g hg

/-- **A workspace with nothing but the batch**, and what is in it. -/
theorem Placed.workspace {files : List FileChange} (h : Placed files) :
    ∃ t : Tree, Holds files t ∧ ∀ path k, t.entries.lookup path = some k → (∀ p ∈ path, excluded p = false) →
      ∃ f ∈ files, path <+: (parsePath f.path).parts ∧ path ≠ [] ∧
        (k = .dir ∨ (k = .leaf (.file []) ∧ path = (parsePath f.path).parts)) := by
  have htarget : ∀ f ∈ files, target (emptyFile f) = (parsePath f.path).parts := fun f hf =>
    target_emptyFile (h.editable f hf) (h.nonempty f hf)
  obtain ⟨es, _, hwf, hex⟩ := @extractAll_spec _ h.extractable .nil trivial fun item _ =>
    ⟨fun q _ _ => .inl rfl, .inl rfl⟩
  refine ⟨⟨es, hwf⟩, fun f hf => ⟨[], ?_⟩, fun path k hl hincl => ?_⟩
  · rw [← htarget f hf]
    exact hex.file _ (List.mem_map_of_mem hf)
  · rcases @restored_kind _ .nil _ hex _ _ hl hincl with ⟨item, hitem, rfl, rfl⟩ | ⟨rfl, hne, item, hitem, hpre⟩
    · obtain ⟨f, hf, rfl⟩ := List.mem_map.mp hitem
      rw [htarget f hf]
      exact ⟨f, hf, List.prefix_rfl, h.nonempty f hf, .inr ⟨rfl, rfl⟩⟩
    · obtain ⟨f, hf, rfl⟩ := List.mem_map.mp hitem
      rw [htarget f hf] at hpre
      exact ⟨f, hf, hpre, hne, .inl rfl⟩

/-- Such a workspace can be checkpointed if its names are portable. -/
theorem Placed.packable {files : List FileChange} (h : Placed files) (sha256 : Bytes → String)
    (hcount : files.length ≤ MAX_FILES) (hport : ∀ f ∈ files, Portable (archivedPart (parsePath f.path).parts)) :
    ∃ t : Tree, Holds files t ∧ ∃ m, workspaceFiles sha256 t.entries = .ok m := by
  obtain ⟨t, hholds, hwhat⟩ := h.workspace
  have hincl : ∀ {path k}, t.entries.lookup path = some k → allowed (joined path) = true →
      ∀ p ∈ path, excluded p = false := by
    intro path k hl hallow
    obtain ⟨hne, hvalid⟩ := Entries.lookup_valid t.wellFormed hl
    exact (allowed_joined hvalid hne).mp hallow
  -- what the checkpoint records: empty files at the paths of the batch
  have hrecord : ∀ e ∈ (visited t.entries).filterMap (fileEntry sha256),
      e.2.size = 0 ∧ e.1 ∈ files.map fun f => joined (parsePath f.path).parts := by
    intro e he
    obtain ⟨⟨path, k⟩, hvis, he⟩ := List.mem_filterMap.mp he
    obtain ⟨hallow, data, hk, rfl⟩ := fileEntry_eq_some.mp he
    dsimp only at hallow hk ⊢
    have hl := ((mem_visited t).mp hvis).1
    obtain ⟨f, hf, _, _, hkind⟩ := hwhat path k hl (hincl hl hallow)
    subst hk
    rcases hkind with hdir | ⟨hfile, hpath⟩
    · cases hdir
    · simp only [Kind.leaf.injEq, Leaf.file.injEq] at hfile
      subst hfile
      rw [hpath]
      exact ⟨rfl, List.mem_map_of_mem hf⟩
  refine ⟨t, hholds, _, workspaceFiles_iff.mpr ⟨?_, rfl, ?_, ?_⟩⟩
  · rintro ⟨path, k⟩ hvis hallow
    have hl := ((mem_visited t).mp hvis).1
    dsimp only at hallow ⊢
    have hin := hincl hl hallow
    obtain ⟨f, hf, hpre, hne, hkind⟩ := hwhat path k hl hin
    have heditable := h.editable f hf
    have hpart : EditableParts path := ⟨fun p hp => heditable.valid p (hpre.subset hp),
      fun p hp => heditable.backslash p (hpre.subset hp)⟩
    refine ⟨(safePath_editable hpart hne).mpr ⟨(hport f hf).initial (initial_archivedPart hpre hin), hin⟩, ?_⟩
    rcases hkind with hdir | ⟨hfile, _⟩
    · exact .inl hdir
    · exact .inr ⟨[], hfile⟩
  · rw [sizes_perm (sortedDict_perm _)]
    have hzero : sizes ((visited t.entries).filterMap (fileEntry sha256)) = 0 := by
      unfold sizes
      refine List.sum_eq_zero fun n hn => ?_
      obtain ⟨e, he, rfl⟩ := List.mem_map.mp hn
      exact (hrecord e he).1
    rw [hzero]
    exact Nat.zero_le _
  · rw [(sortedDict_perm _).length_eq]
    have hsub := (@files_nodup sha256 _ t.wellFormed).subperm fun name hname => by
      obtain ⟨e, he, rfl⟩ := List.mem_map.mp hname
      exact (hrecord e he).2
    have hle := hsub.length_le
    rw [List.length_map, List.length_map] at hle
    omega

/-! ## §5. Batches of `write_files`. -/

/-- The paths of a batch that can be in one workspace. -/
theorem projectPaths_ok : ∀ {files : List FileChange} {paths : List String}, projectPaths files = .ok paths →
    (∀ f ∈ files, EditableParts (parsePath f.path).parts) ∧ paths = files.map fun f =>
      if (parsePath f.path).parts = [] then "." else joined (parsePath f.path).parts := by
  intro files
  induction files with
  | nil =>
      intro paths h
      rw [← Except.ok.inj h]
      exact ⟨fun f hf => (by cases hf), rfl⟩
  | cons f files ih =>
      intro paths h
      unfold projectPaths at h
      split at h
      · cases h
      rename_i q hq
      cases hrest : projectPaths files with
      | error e =>
          rw [hrest] at h
          cases h
      | ok rest =>
          rw [hrest] at h
          obtain ⟨heditable, hprint⟩ := projectPath_ok hq
          obtain ⟨hall, hmap⟩ := ih hrest
          rw [← Except.ok.inj h, List.map_cons, ← hmap, ← hprint]
          refine ⟨fun g hg => ?_, rfl⟩
          rcases List.mem_cons.mp hg with rfl | hg
          · exact heditable
          · exact hall g hg

/-- What `write_files` checked before it returned. -/
theorem writeFiles_returned {R : WorkspaceTools → WorkspaceTools → Prop} {files : List FileChange}
    {s s' : WorkspaceTools} {steps : List (Step WorkspaceTools FileOp ToolExc FileReply)}
    (h : Performs R s (writeFiles files) steps s' (.done (.ok ()))) :
    files.length ≤ 12 ∧ ∃ paths, projectPaths files = .ok paths ∧ paths.Nodup := by
  unfold writeFiles at h
  split at h
  · cases h
  rename_i hcount
  simp only [not_or, not_lt] at hcount
  split at h
  · cases h
  rename_i paths hpaths
  split at h
  · cases h
  rename_i hnodup
  exact ⟨hcount.2.1, paths, hpaths, not_not.mp hnodup⟩

/-- A batch that was written is in a workspace. -/
theorem placed_of_holds {files : List FileChange} {paths : List String} (hpaths : projectPaths files = .ok paths)
    (hnodup : paths.Nodup) {left : Tree} (hleft : Holds files left) : Placed files := by
  obtain ⟨heditable, rfl⟩ := projectPaths_ok hpaths
  have hne : ∀ f ∈ files, (parsePath f.path).parts ≠ [] := by
    intro f hf hnil
    obtain ⟨data, hl⟩ := hleft f hf
    rw [hnil, Entries.lookup_nil_path] at hl
    cases hl
  refine ⟨heditable, hne, ?_, fun f hf g hg hpre => ?_⟩
  · have hmap : (files.map fun f => if (parsePath f.path).parts = [] then "." else joined (parsePath f.path).parts)
        = (files.map fun f => (parsePath f.path).parts).map fun parts => if parts = [] then "." else joined parts := by
      rw [List.map_map]
      rfl
    rw [hmap] at hnodup
    exact hnodup.of_map
  · -- a file has nothing below it
    obtain ⟨rest, hrest⟩ := hpre
    by_cases hnil : rest = []
    · rw [hnil, List.append_nil] at hrest
      exact hrest
    · obtain ⟨data, hl⟩ := hleft g hg
      obtain ⟨data', hl'⟩ := hleft f hf
      rw [← hrest] at hl
      rw [lookup_above left.wellFormed (hne f hf) hnil hl] at hl'
      cases hl'

/-- **When some workspace with a written batch can be checkpointed.** -/
theorem packable_iff (sha256 : Bytes → String) {R : WorkspaceTools → WorkspaceTools → Prop} {files : List FileChange}
    {s s' : WorkspaceTools} {steps : List (Step WorkspaceTools FileOp ToolExc FileReply)}
    (hrun : Performs R s (writeFiles files) steps s' (.done (.ok ()))) {left : Tree} (hleft : Holds files left) :
    (∃ t : Tree, Holds files t ∧ ∃ m, workspaceFiles sha256 t.entries = .ok m) ↔
      ∀ f ∈ files, Portable (archivedPart (parsePath f.path).parts) := by
  obtain ⟨hcount, paths, hpaths, hnodup⟩ := writeFiles_returned hrun
  have hplaced := placed_of_holds hpaths hnodup hleft
  constructor
  · rintro ⟨t, hholds, m, hm⟩ f hf
    obtain ⟨data, hl⟩ := hholds f hf
    exact portable_of_workspaceFiles hm (hplaced.editable f hf) hl
  · intro hport
    exact hplaced.packable sha256 (le_trans hcount (by decide)) hport

/-- **Edited paths and checkpoints**: the validators agree on a path exactly
when it is portable or left out, and the names of a written batch spoil every
checkpoint unless what the walk sees of them is portable. -/
theorem editable_checkpointable (sha256 : Bytes → String) :
    (∀ path q, projectPath path = .ok q →
      (Checkpointable q ↔ Portable (parsePath path).parts ∨ ∃ p ∈ (parsePath path).parts, excluded p = true)) ∧
    ∀ (R : WorkspaceTools → WorkspaceTools → Prop) (files : List FileChange) (s s' : WorkspaceTools)
      (steps : List (Step WorkspaceTools FileOp ToolExc FileReply)),
      Performs R s (writeFiles files) steps s' (.done (.ok ())) → ∀ left : Tree, Holds files left →
        ((∃ t : Tree, Holds files t ∧ ∃ m, workspaceFiles sha256 t.entries = .ok m) ↔
          ∀ f ∈ files, Portable (archivedPart (parsePath f.path).parts)) :=
  ⟨fun _ _ h => checkpointable_iff h, fun _ _ _ _ _ hrun _ hleft => packable_iff sha256 hrun hleft⟩

/-- `project_path` accepts a colon, and then the checkpoint fails. -/
theorem colon_not_checkpointable :
    ¬ ∀ path q, projectPath path = .ok q → safePath q = .ok q ∨ allowed q = false := by
  intro h
  have hcolon := h "a:b" "a:b" (by decide)
  revert hcolon
  decide

/-- A workspace with one empty file. -/
def oneFile (name : String) (h : ValidName name) : Tree where
  entries := .leaf name (.file []) .nil
  wellFormed := ⟨h, fun m hm => (by cases hm), trivial⟩

theorem holds_oneFile {name : String} (h : ValidName name) (hparts : (parsePath name).parts = [name]) (content : String) :
    Holds [⟨name, content⟩] (oneFile name h) := by
  intro f hf
  rw [List.mem_singleton.mp hf, hparts]
  exact ⟨[], by simp [oneFile, Entries.lookup]⟩

theorem performs_writeFile {name : String} (hpath : projectPath name = .ok name) : ∃ steps s',
    Performs Alone emptyTools (writeFiles [⟨name, ""⟩]) steps s' (.done (.ok ())) := by
  have hperform : ∃ steps s', Co.perform [.ok FileReply.served, .ok .served, .ok .served] (writeFiles [⟨name, ""⟩])
      emptyTools = some (steps, s', .done (.ok ())) := by
    rw [writeFiles_one hpath (by decide) (by decide)]
    exact ⟨_, _, rfl⟩
  obtain ⟨steps, s', hrun⟩ := hperform
  exact ⟨steps, s', Co.perform_performs (R := Alone) (fun _ => rfl) _ hrun⟩

theorem editable_checkpointable_batches :
    (¬ Checkpointable "a:b") ∧
      (¬ ∃ t : Tree, Holds [⟨"a:b", ""⟩] t ∧ ∃ m, workspaceFiles (fun _ => "") t.entries = .ok m) ∧
      ∃ t : Tree, Holds [⟨"a.b", ""⟩] t ∧ ∃ m, workspaceFiles (fun _ => "") t.entries = .ok m := by
  have hcolon : ValidName "a:b" := ⟨by decide, by decide, by decide, by unfold Slashless; decide⟩
  have hdot : ValidName "a.b" := ⟨by decide, by decide, by decide, by unfold Slashless; decide⟩
  obtain ⟨steps, s', hrun⟩ := @performs_writeFile "a:b" (by decide)
  obtain ⟨steps', s'', hrun'⟩ := @performs_writeFile "a.b" (by decide)
  have hbatches := editable_checkpointable fun _ => ""
  refine ⟨?_, ?_, ?_⟩
  · rw [hbatches.1 "a:b" "a:b" (by decide)]
    decide
  · rw [hbatches.2 _ _ _ _ _ hrun _ (holds_oneFile hcolon (by decide) "")]
    decide
  · rw [hbatches.2 _ _ _ _ _ hrun' _ (holds_oneFile hdot (by decide) "")]
    decide

end WebBuilder.Archive
