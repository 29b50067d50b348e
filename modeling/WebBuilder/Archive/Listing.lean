/-
  WebBuilder.Archive.Listing — the listing of a project at the start of a run.

  `LIST_FILES_JS` walks the project inside the sandbox, `list_files` passes
  every listed path through `project_path`.  The walk skips fewer names than
  the archive: `.venv`, `.cache` and `__pycache__` are left out of checkpoints,
  and their files are listed and counted.

  Main results:
    * `walkFiles_eq` — what the walk lists, and when it stops;
    * `listFiles_iff` — when a project that can be checkpointed can be listed.
-/
import WebBuilder.Archive.Editable
import WebBuilder.Archive.RoundTrip

namespace WebBuilder.Archive

open WebBuilder.Workspace

/-! ## §1. `list_files`. -/

/-- The names that the walk skips. -/
def skipped (name : String) : Bool :=
  name ∈ ["node_modules", ".git", "dist", ".next", ".env"] || ".env.".toList.isPrefixOf name.toList

/-- `function walk(dir)`, with `out`.  `CommandExitException` stands for its `Error`. -/
def walkFiles (dir : List String) : Entries → List String → Except ToolExc (List String)
  | .nil, out => .ok out
  | .leaf n l rest, out =>
      if skipped n then walkFiles dir rest out
      else
        let out := match l with
          | .file _ => out ++ [joined (dir ++ [n])]
          | _ => out
        if 250 < out.length then .error .sdk else walkFiles dir rest out
  | .dir n children rest, out =>
      if skipped n then walkFiles dir rest out
      else
        match walkFiles (dir ++ [n]) children out with
        | .error e => .error e
        | .ok out => if 250 < out.length then .error .sdk else walkFiles dir rest out

/-- `[project_path(p) for p in paths]`. -/
def projectAll : List String → Except ToolExc (List String)
  | [] => .ok []
  | p :: paths =>
      match projectPath p with
      | .error e => .error e
      | .ok q => (projectAll paths).map (q :: ·)

def listFiles (root : Entries) : Except ToolExc (List String) :=
  match walkFiles [] root [] with
  | .error e => .error e
  | .ok out => projectAll out

/-! ## §2. The files of a project. -/

/-- The paths of the regular files. -/
def regularFiles : Entries → List (List String)
  | .nil => []
  | .leaf n l rest =>
      match l with
      | .file _ => [n] :: regularFiles rest
      | _ => regularFiles rest
  | .dir n children rest => (regularFiles children).map (n :: ·) ++ regularFiles rest

/-- The regular files outside the skipped names. -/
def listable (root : Entries) : List (List String) :=
  (regularFiles root).filter fun path => path.all fun c => !skipped c

theorem mem_regularFiles {es : Entries} (h : es.WellFormed) {path : List String} :
    path ∈ regularFiles es ↔ ∃ data, es.lookup path = some (.leaf (.file data)) := by
  induction es generalizing path with
  | nil => simp [regularFiles, Entries.lookup]
  | leaf n l rest ih =>
      have hnone := Entries.lookup_less h.2.1
      unfold regularFiles Entries.lookup
      by_cases hpath : path = [n]
      · subst hpath
        rw [if_pos rfl]
        have hno : [n] ∉ regularFiles rest := by
          rw [ih h.2.2, hnone]
          simp
        cases l <;> simp [hno]
      · rw [if_neg hpath, ← ih h.2.2]
        cases l <;> simp [hpath]
  | dir n children rest ihc ih =>
      unfold regularFiles
      rw [List.mem_append, List.mem_map, ih h.2.2.2]
      cases path with
      | nil => simp [Entries.lookup]
      | cons m ms =>
          by_cases hm : m = n
          · subst hm
            rw [Entries.lookup_less h.2.1]
            by_cases hms : ms = []
            · subst hms
              simp only [List.cons.injEq, true_and, exists_eq_right, reduceCtorEq, exists_false, or_false,
                Entries.lookup, if_true, Option.some.injEq, iff_false]
              rw [ihc h.2.2.1]
              simp
            · rw [Entries.lookup_dir_self m children rest hms, ← ihc h.2.2.1]
              simp
          · rw [Entries.lookup_dir_ne hm]
            have hm' : n ≠ m := fun heq => hm heq.symm
            simp [hm']

theorem mem_listable {es : Entries} (h : es.WellFormed) {path : List String} :
    path ∈ listable es ↔
      (∃ data, es.lookup path = some (.leaf (.file data))) ∧ ∀ c ∈ path, skipped c = false := by
  unfold listable
  rw [List.mem_filter, mem_regularFiles h]
  simp

theorem listable_skipped_leaf {n : String} {l : Leaf} {rest : Entries} (h : skipped n = true) :
    listable (.leaf n l rest) = listable rest := by
  cases l <;> simp [listable, regularFiles, h]

theorem listable_leaf {n : String} {l : Leaf} {rest : Entries} (h : skipped n = false) :
    listable (.leaf n l rest) = (match l with | .file _ => [[n]] | _ => []) ++ listable rest := by
  cases l <;> simp [listable, regularFiles, h]

theorem listable_skipped_dir {n : String} {children rest : Entries} (h : skipped n = true) :
    listable (.dir n children rest) = listable rest := by
  unfold listable
  rw [regularFiles, List.filter_append, List.filter_map]
  have hnone : (regularFiles children).filter ((fun path => path.all fun c => !skipped c) ∘ (n :: ·)) = [] := by
    rw [List.filter_eq_nil_iff]
    intro path _
    simp [h]
  rw [hnone]
  rfl

theorem listable_dir {n : String} {children rest : Entries} (h : skipped n = false) :
    listable (.dir n children rest) = (listable children).map (n :: ·) ++ listable rest := by
  unfold listable
  rw [regularFiles, List.filter_append, List.filter_map]
  have hsame : ((fun path : List String => path.all fun c => !skipped c) ∘ (n :: ·))
      = fun path => path.all fun c => !skipped c := by
    funext path
    simp [h]
  rw [hsame]

/-! ## §3. The walk. -/

/-- **The walk lists** every file outside the skipped names, up to 250 of them. -/
theorem walkFiles_eq (es : Entries) (dir out : List String) (hout : out.length ≤ 250) :
    walkFiles dir es out = if 250 < out.length + (listable es).length then .error .sdk
      else .ok (out ++ (listable es).map fun path => joined (dir ++ path)) := by
  induction es generalizing dir out with
  | nil =>
      show Except.ok out = if 250 < out.length + 0 then _ else .ok (out ++ [])
      rw [if_neg (by omega), List.append_nil]
  | leaf n l rest ih =>
      unfold walkFiles
      by_cases hskip : skipped n = true
      · rw [if_pos hskip, ih dir out hout, listable_skipped_leaf hskip]
      rw [if_neg hskip]
      rw [Bool.not_eq_true] at hskip
      cases l with
      | file data =>
          dsimp only
          rw [listable_leaf hskip]
          have hlen : (out ++ [joined (dir ++ [n])]).length = out.length + 1 := by simp
          rw [hlen]
          by_cases hfull : 250 < out.length + 1
          · rw [if_pos hfull, if_pos (by simp only [List.length_append, List.length_singleton]; omega)]
          · rw [if_neg hfull, ih dir _ (by omega), hlen]
            simp only [List.length_append, List.length_singleton, ← Nat.add_assoc]
            simp
      | link toDir =>
          dsimp only
          rw [if_neg (by omega), ih dir out hout, listable_leaf hskip]
          rfl
      | other =>
          dsimp only
          rw [if_neg (by omega), ih dir out hout, listable_leaf hskip]
          rfl
  | dir n children rest ihc ih =>
      unfold walkFiles
      by_cases hskip : skipped n = true
      · rw [if_pos hskip, ih dir out hout, listable_skipped_dir hskip]
      rw [if_neg hskip]
      rw [Bool.not_eq_true] at hskip
      rw [ihc (dir ++ [n]) out hout, listable_dir hskip]
      simp only [List.length_append, List.length_map, ← Nat.add_assoc]
      by_cases hfull : 250 < out.length + (listable children).length
      · rw [if_pos hfull, if_pos (by omega)]
      · rw [if_neg hfull]
        dsimp only
        have hlen : (out ++ (listable children).map fun path => joined (dir ++ [n] ++ path)).length
            = out.length + (listable children).length := by simp
        rw [hlen, if_neg hfull, ih dir _ (by omega), hlen]
        simp [Function.comp_def]

/-! ## §4. The listed paths. -/

/-- A file that the edit tools cannot name. -/
def unnameable (path : List String) : Bool :=
  path.any fun c => c = ".venv" || c.toList.any fun ch => ch = '\\'

/-- **What `project_path` says of a listed path.** -/
theorem projectPath_listed {path : List String} (hvalid : ∀ c ∈ path, ValidName c) (hne : path ≠ [])
    (hskip : ∀ c ∈ path, skipped c = false) :
    projectPath (joined path) = .ok (joined path) ∧ unnameable path = false ∨
      (∃ e, projectPath (joined path) = .error e) ∧ unnameable path = true := by
  have hparse := parsePath_joined hvalid hne
  have hempty : joined path ≠ "" := by
    intro he
    have hlen := length_joined hne
    rw [he] at hlen
    cases path with
    | nil => exact hne rfl
    | cons c cs =>
        have hc : c.length ≠ 0 := fun hzero => (hvalid c List.mem_cons_self).nonempty (String.length_eq_zero_iff.mp hzero)
        unfold spelled at hlen
        simp only [List.map_cons, List.sum_cons, List.length_cons, String.length_empty] at hlen
        omega
  have hdots : ".." ∉ path := fun hmem => (hvalid ".." hmem).dotdot rfl
  have hback : '\\' ∈ (joined path).toList ↔ ∃ c ∈ path, c.toList.any (fun ch => ch = '\\') = true := by
    have hany := any_joined (fun ch => ch = '\\') (by decide) path
    rw [Bool.eq_iff_iff, List.any_eq_true, List.any_eq_true] at hany
    rw [← hany]
    simp
  have henv : (path.any fun part => ".env.".toList.isPrefixOf part.toList) = false := by
    rw [List.any_eq_false]
    intro c hc
    have hs := hskip c hc
    unfold skipped at hs
    rw [Bool.or_eq_false_iff] at hs
    rw [hs.2]
    decide
  have hforbidden : (path.any (· ∈ [".git", ".env", "node_modules", ".venv"])) = path.any (· = ".venv") := by
    rw [Bool.eq_iff_iff, List.any_eq_true, List.any_eq_true]
    refine exists_congr fun c => and_congr_right fun hc => ?_
    have hs := hskip c hc
    unfold skipped at hs
    rw [Bool.or_eq_false_iff] at hs
    have hnot := hs.1
    simp only [List.mem_cons, List.not_mem_nil, or_false, decide_eq_false_iff_not, not_or] at hnot
    simp [hnot]
  have hstr : (⟨"", path⟩ : PurePosixPath).str = joined path := by
    unfold PurePosixPath.str
    rw [if_neg (fun hh => hne hh.2), String.empty_append]
  have hunname : unnameable path = true ↔ '\\' ∈ (joined path).toList ∨ path.any (· = ".venv") = true := by
    rw [hback]
    unfold unnameable
    simp only [List.any_eq_true, Bool.or_eq_true, decide_eq_true_eq]
    constructor
    · rintro ⟨c, hc, hv | hb⟩
      · exact .inr ⟨c, hc, hv⟩
      · exact .inl ⟨c, hc, hb⟩
    · rintro (⟨c, hc, hb⟩ | ⟨c, hc, hv⟩)
      · exact ⟨c, hc, .inr hb⟩
      · exact ⟨c, hc, .inl hv⟩
  have habs : (⟨"", path⟩ : PurePosixPath).isAbsolute = false := by simp [PurePosixPath.isAbsolute]
  unfold projectPath
  dsimp only
  rw [hparse, hforbidden, henv, hstr, habs]
  by_cases hb : '\\' ∈ (joined path).toList
  · right
    rw [if_pos (.inr (.inr (.inr hb)))]
    exact ⟨⟨_, rfl⟩, hunname.mpr (.inl hb)⟩
  · rw [if_neg (by simp [hempty, hdots, hb])]
    by_cases hv : path.any (· = ".venv") = true
    · right
      rw [if_pos hv]
      exact ⟨⟨_, rfl⟩, hunname.mpr (.inr hv)⟩
    · left
      rw [if_neg hv, if_neg (by decide)]
      refine ⟨rfl, ?_⟩
      rw [← Bool.not_eq_true, hunname]
      rintro (h | h)
      · exact hb h
      · exact hv h

/-- `project_path` on all listed paths. -/
theorem projectAll_eq {paths : List (List String)} (hvalid : ∀ path ∈ paths, ∀ c ∈ path, ValidName c)
    (hne : ∀ path ∈ paths, path ≠ []) (hskip : ∀ path ∈ paths, ∀ c ∈ path, skipped c = false) :
    (projectAll (paths.map joined) = .ok (paths.map joined) ∧ ∀ path ∈ paths, unnameable path = false) ∨
      ((∃ e, projectAll (paths.map joined) = .error e) ∧ ∃ path ∈ paths, unnameable path = true) := by
  induction paths with
  | nil => exact .inl ⟨rfl, fun path hpath => (by cases hpath)⟩
  | cons path paths ih =>
      have ih := ih (fun p hp => hvalid p (List.mem_cons_of_mem _ hp)) (fun p hp => hne p (List.mem_cons_of_mem _ hp))
        fun p hp => hskip p (List.mem_cons_of_mem _ hp)
      rw [List.map_cons, projectAll]
      rcases projectPath_listed (hvalid path List.mem_cons_self) (hne path List.mem_cons_self)
        (hskip path List.mem_cons_self) with ⟨hok, hname⟩ | ⟨⟨e, herror⟩, hname⟩
      · rw [hok]
        rcases ih with ⟨hall, hnames⟩ | ⟨⟨e, hfail⟩, bad, hbad, hname'⟩
        · left
          rw [hall]
          refine ⟨rfl, fun p hp => ?_⟩
          rcases List.mem_cons.mp hp with rfl | hp
          · exact hname
          · exact hnames p hp
        · right
          rw [hfail]
          exact ⟨⟨e, rfl⟩, bad, List.mem_cons_of_mem _ hbad, hname'⟩
      · right
        rw [herror]
        exact ⟨⟨e, rfl⟩, path, List.mem_cons_self, hname⟩

/-! ## §5. Listings and checkpoints. -/

theorem excluded_of_skipped {name : String} (h : skipped name = true) : excluded name = true := by
  unfold skipped at h
  unfold excluded EXCLUDED
  rw [Bool.or_eq_true] at h ⊢
  rcases h with h | h
  · left
    simp only [List.mem_cons, List.not_mem_nil, or_false, decide_eq_true_eq] at h ⊢
    rcases h with rfl | rfl | rfl | rfl | rfl <;> decide
  · exact .inr h

/-- A recorded file is listed, if anything is. -/
theorem recorded_listable {sha256 : Bytes → String} {root : Tree} {files : Manifest}
    (h : workspaceFiles sha256 root.entries = .ok files) {f : String × FileInfo} (hf : f ∈ files) :
    ∃ path ∈ listable root.entries, joined path = f.1 := by
  obtain ⟨_, rfl, _, _⟩ := workspaceFiles_iff.mp h
  obtain ⟨⟨path, kind⟩, hvis, he⟩ := List.mem_filterMap.mp (mem_sortedDict.mp hf)
  obtain ⟨hallow, data, hk, rfl⟩ := fileEntry_eq_some.mp he
  dsimp only at hallow hk ⊢
  subst hk
  have hl := ((mem_visited root).mp hvis).1
  obtain ⟨hne, hvalid⟩ := Entries.lookup_valid root.wellFormed hl
  refine ⟨path, (mem_listable root.wellFormed).mpr ⟨⟨data, hl⟩, fun c hc => ?_⟩, rfl⟩
  rw [← Bool.not_eq_true]
  intro hskip
  have hincl := (allowed_joined hvalid hne).mp hallow c hc
  rw [excluded_of_skipped hskip] at hincl
  cases hincl

/-- **When a checkpointed project can be listed**: at most 250 files lie
outside the skipped names, and none of them is below `.venv` or has a
backslash in its path. -/
theorem listFiles_iff (sha256 : Bytes → String) (root : Tree) (files : Manifest)
    (h : workspaceFiles sha256 root.entries = .ok files) :
    (∃ listed, listFiles root.entries = .ok listed ∧ ∀ f ∈ files, f.1 ∈ listed) ↔
      (listable root.entries).length ≤ 250 ∧ ∀ path ∈ listable root.entries, unnameable path = false := by
  have hwalk := walkFiles_eq root.entries [] [] (by decide)
  simp only [List.length_nil, Nat.zero_add, List.nil_append] at hwalk
  have hpath : ∀ path ∈ listable root.entries, path ≠ [] ∧ (∀ c ∈ path, ValidName c) ∧ ∀ c ∈ path, skipped c = false := by
    intro path hmem
    obtain ⟨⟨data, hl⟩, hskip⟩ := (mem_listable root.wellFormed).mp hmem
    obtain ⟨hne, hvalid⟩ := Entries.lookup_valid root.wellFormed hl
    exact ⟨hne, hvalid, hskip⟩
  unfold listFiles
  rw [hwalk]
  by_cases hfull : 250 < (listable root.entries).length
  · rw [if_pos hfull]
    constructor
    · rintro ⟨listed, hlisted, _⟩
      cases hlisted
    · rintro ⟨hle, _⟩
      omega
  · rw [if_neg hfull]
    show (∃ listed, projectAll ((listable root.entries).map joined) = .ok listed ∧ _) ↔ _
    rcases projectAll_eq (fun p hp => (hpath p hp).2.1) (fun p hp => (hpath p hp).1) fun p hp => (hpath p hp).2.2 with
      ⟨hall, hnames⟩ | ⟨⟨e, hfail⟩, bad, hbad, hname⟩
    · rw [hall]
      refine ⟨fun _ => ⟨not_lt.mp hfull, hnames⟩, fun _ => ⟨_, rfl, fun f hf => ?_⟩⟩
      obtain ⟨path, hmem, hname⟩ := recorded_listable h hf
      rw [← hname]
      exact List.mem_map_of_mem hmem
    · rw [hfail]
      constructor
      · rintro ⟨listed, hlisted, _⟩
        cases hlisted
      · rintro ⟨_, hnames⟩
        rw [hnames bad hbad] at hname
        cases hname

theorem validName_of {name : String} (h : (name ≠ "" ∧ name ≠ "." ∧ name ≠ "..") ∧ '/' ∉ name.toList) :
    ValidName name := ⟨h.1.1, h.1.2.1, h.1.2.2, h.2⟩

/-- A directory with a file in it. -/
def oneBelow (dir name : String) (hdir : ValidName dir) (hname : ValidName name) : Tree where
  entries := .dir dir (.leaf name (.file []) .nil) .nil
  wellFormed := ⟨hdir, fun m hm => (by cases hm), ⟨hname, fun m hm => (by cases hm), trivial⟩, trivial⟩

/-- A virtual environment is left out of the checkpoint and stops the listing. -/
theorem venv_not_listed :
    ¬ ∀ (root : Tree) (files : Manifest), workspaceFiles (fun _ => "") root.entries = .ok files →
      ∃ listed, listFiles root.entries = .ok listed ∧ ∀ f ∈ files, f.1 ∈ listed := by
  intro h
  obtain ⟨listed, hlisted, _⟩ := h (oneBelow ".venv" "pyvenv.cfg" (validName_of (by decide)) (validName_of (by decide)))
    [] (by decide)
  have hfail : listFiles (oneBelow ".venv" "pyvenv.cfg" (validName_of (by decide)) (validName_of (by decide))).entries
      = .error (.value "That path is outside editable project files") := by decide
  rw [hfail] at hlisted
  cases hlisted

theorem listFiles_iff_source :
    ∃ listed, listFiles (oneBelow "src" "App.jsx" (validName_of (by decide)) (validName_of (by decide))).entries
      = .ok listed ∧ ∀ f ∈ [("src/App.jsx", FileInfo.mk 0 "")], f.1 ∈ listed :=
  (listFiles_iff (fun _ => "") _ _ (by decide)).mpr ⟨by decide, by decide⟩

end WebBuilder.Archive
