/-
  WebBuilder.Archive.Manifest — what `archive.py` accepts.

  `manifest` validates an archive and lists its files, `workspace_files`
  validates a directory and lists its files.  The `zipfile` library is a
  parameter: it says which entries a byte string has and what reading each of
  them gives.

  Main results:
    * `manifest_accepted` — what acceptance says of the entries;
    * `workspaceFiles_iff` — when a directory is accepted, and its mapping.
-/
import WebBuilder.Archive.Tree

namespace WebBuilder.Archive

/-! ## §1. The `zipfile` library. -/

def MAX_FILES : Nat := 250
def MAX_BYTES : Nat := 32 * 1024 * 1024
def MAX_ARCHIVE : Nat := 10 * 1024 * 1024

/-- A `ZipInfo`, and what reading it gives. -/
structure ZipEntry where
  filename : String
  /-- `external_attr >> 16`. -/
  mode : Nat
  /-- `flag_bits & 1`. -/
  encrypted : Bool
  fileSize : Nat
  /-- What `stream.read(64 * 1024)` returns, up to the end or an exception. -/
  chunks : List Bytes
  /-- The exception of `open` or of the last `read`. -/
  broken : Option Exc
  deriving DecidableEq

/-- What `ZipFile.write` stores of a file. -/
structure Member where
  name : String
  /-- The modification time and the permissions. -/
  stamp : Nat
  data : Bytes
  deriving DecidableEq

structure ZipLibrary where
  /-- `ZipFile(archive).infolist()`. -/
  read : Bytes → Except Exc (List ZipEntry)
  /-- The size of the target after these members, before it is closed. -/
  growth : List Member → Except Exc Nat
  /-- The closed archive of these members. -/
  write : List Member → Except Exc Bytes

/-! ## §2. `manifest`. -/

/-- `dict(sorted(entries.items()))`: the names are distinct. -/
def sortedDict (entries : Manifest) : Manifest := entries.insertionSort fun a b => a.1 ≤ b.1

def S_IFREG : Nat := 0o100000

/-- `stat.S_IFMT`. -/
def S_IFMT (mode : Nat) : Nat := mode &&& 0o170000

/-- `item.is_dir()`. -/
def ZipEntry.isDir (item : ZipEntry) : Bool := item.filename.toList.getLast? = some '/'

/-- One turn of the loop over a stream, with the bytes read so far. -/
def readChunk (total : Nat) (data chunk : Bytes) : Except Exc Bytes :=
  if MAX_BYTES < total + (data ++ chunk).length then .error (.value "Project exceeds 32 MiB")
  else .ok (data ++ chunk)

def readStream (total : Nat) (item : ZipEntry) : Except Exc Bytes := do
  let data ← item.chunks.foldlM (readChunk total) []
  match item.broken with
  | some e => .error e
  | none => .ok data

/-- What `entries` records of a file. -/
def info (sha256 : Bytes → String) (data : Bytes) : FileInfo := ⟨data.length, sha256 data⟩

/-- The loop of `manifest`, with `entries` and `total`. -/
def manifestItem (sha256 : Bytes → String) (state : Manifest × Nat) (item : ZipEntry) :
    Except Exc (Manifest × Nat) := do
  let name ← safePath item.filename
  if name ∈ state.1.map Prod.fst ∨ item.isDir ∨ S_IFMT item.mode ∉ [0, S_IFREG] then
    .error (.value "Archive contains duplicate or non-regular files")
  else if item.encrypted ∨ MAX_BYTES - state.2 < item.fileSize then
    .error (.value "Project exceeds 32 MiB or is encrypted")
  else do
    let data ← readStream state.2 item
    .ok (state.1 ++ [(name, info sha256 data)], state.2 + data.length)

/-- `PurePosixPath(name).parents`, printed. -/
def parents (name : String) : List String :=
  let p := parsePath name
  (List.range p.parts.length).reverse.map fun i => PurePosixPath.str ⟨p.root, p.parts.take i⟩

/-- A file of the archive is a directory of another. -/
def conflicting (names : List String) : Bool :=
  names.any fun name => (parents name).any fun p => p ≠ "." ∧ p ∈ names

def manifest (zip : ZipLibrary) (sha256 : Bytes → String) (archive : Bytes) : Except Exc Manifest := do
  if MAX_ARCHIVE < archive.length then .error (.value "Project archive exceeds 10 MiB")
  else do
    let items ← zip.read archive
    if MAX_FILES < items.length then .error (.value "Project exceeds 250 files")
    else do
      let (entries, _) ← items.foldlM (manifestItem sha256) ([], 0)
      if conflicting (entries.map Prod.fst) then .error (.value "File and directory paths conflict")
      else .ok (sortedDict entries)

/-! ## §3. `workspace_files`. -/

/-- The loop of `workspace_files`, with `files` and `total`. -/
def workspaceItem (sha256 : Bytes → String) (state : Manifest × Nat) (item : List String × Kind) :
    Except Exc (Manifest × Nat) :=
  let relative := joined item.1
  if ¬ allowed relative then .ok state
  else do
    let _ ← safePath relative
    match item.2 with
    | .leaf (.link _) => .error (.value "Project symlinks cannot be checkpointed")
    | .dir => .ok state
    | .leaf .other => .error (.value "Project contains a non-regular file")
    | .leaf (.file data) =>
        if MAX_BYTES < state.2 + data.length ∨ MAX_FILES ≤ state.1.length then
          .error (.value "Project exceeds persistence limits")
        else .ok (state.1 ++ [(relative, info sha256 data)], state.2 + data.length)

def workspaceFiles (sha256 : Bytes → String) (root : Entries) : Except Exc Manifest := do
  let (files, _) ← (visited root).foldlM (workspaceItem sha256) ([], 0)
  .ok (sortedDict files)

/-! ## §4. Sorted mappings. -/

theorem sortedDict_perm (entries : Manifest) : (sortedDict entries).Perm entries :=
  List.perm_insertionSort _ entries

/-- **Sorting forgets the order** of entries with distinct names. -/
theorem sortedDict_eq {entries entries' : Manifest} (h : entries.Perm entries')
    (hnd : (entries.map Prod.fst).Nodup) : sortedDict entries = sortedDict entries' := by
  let le : String × FileInfo → String × FileInfo → Prop := fun a b => a.1 ≤ b.1
  have : Std.Total le := ⟨fun a b => le_total a.1 b.1⟩
  have : IsTrans _ le := ⟨fun a b c hab hbc => le_trans hab hbc⟩
  have hperm : (sortedDict entries).Perm (sortedDict entries') :=
    (sortedDict_perm entries).trans (h.trans (sortedDict_perm entries').symm)
  refine List.Perm.eq_of_pairwise ?_ (List.pairwise_insertionSort le entries)
    (List.pairwise_insertionSort le entries') hperm
  intro a b ha hb hab hba
  have hname : a.1 = b.1 := le_antisymm hab hba
  have ha' : a ∈ entries := (sortedDict_perm entries).mem_iff.mp ha
  have hb' : b ∈ entries := h.mem_iff.mpr ((sortedDict_perm entries').mem_iff.mp hb)
  exact List.inj_on_of_nodup_map hnd ha' hb' hname

theorem mem_sortedDict {entries : Manifest} {e : String × FileInfo} :
    e ∈ sortedDict entries ↔ e ∈ entries := (sortedDict_perm entries).mem_iff

/-! ## §5. Accepted archives. -/

/-- The bytes of a member that can be read. -/
def ZipEntry.data (item : ZipEntry) : Bytes := item.chunks.flatten

def ZipEntry.entry (sha256 : Bytes → String) (item : ZipEntry) : String × FileInfo :=
  (item.filename, info sha256 item.data)

theorem readChunks_eq {total : Nat} {chunks : List Bytes} {data data' : Bytes}
    (h : chunks.foldlM (readChunk total) data = .ok data') (hle : total + data.length ≤ MAX_BYTES) :
    data' = data ++ chunks.flatten ∧ total + data'.length ≤ MAX_BYTES := by
  induction chunks generalizing data with
  | nil =>
      rw [List.foldlM_nil] at h
      rw [← Except.ok.inj h]
      exact ⟨by simp, hle⟩
  | cons c cs ih =>
      rw [List.foldlM_cons] at h
      by_cases hbig : MAX_BYTES < total + (data ++ c).length
      · rw [readChunk, if_pos hbig] at h
        cases h
      · rw [readChunk, if_neg hbig] at h
        obtain ⟨heq, hle'⟩ := ih h (not_lt.mp hbig)
        exact ⟨by rw [heq]; simp, hle'⟩

theorem readStream_ok {total : Nat} {item : ZipEntry} {data : Bytes} (h : readStream total item = .ok data)
    (hle : total ≤ MAX_BYTES) :
    data = item.data ∧ item.broken = none ∧ total + data.length ≤ MAX_BYTES := by
  unfold readStream at h
  cases hread : item.chunks.foldlM (readChunk total) [] with
  | error e =>
      rw [hread] at h
      cases h
  | ok data' =>
      rw [hread] at h
      change (match item.broken with | some e => _ | none => _) = _ at h
      cases hb : item.broken with
      | some e =>
          rw [hb] at h
          cases h
      | none =>
          rw [hb] at h
          obtain ⟨heq, hle'⟩ := readChunks_eq hread (by simpa using hle)
          rw [← Except.ok.inj h]
          exact ⟨by rw [heq]; rfl, rfl, hle'⟩

/-- What one turn of the loop of `manifest` checks and records. -/
theorem manifestItem_ok {sha256 : Bytes → String} {state state' : Manifest × Nat} {item : ZipEntry}
    (h : manifestItem sha256 state item = .ok state') (hle : state.2 ≤ MAX_BYTES) :
    safePath item.filename = .ok item.filename ∧ item.filename ∉ state.1.map Prod.fst ∧
      item.broken = none ∧ state' = (state.1 ++ [item.entry sha256], state.2 + item.data.length) ∧
      state'.2 ≤ MAX_BYTES := by
  unfold manifestItem at h
  cases hsafe : safePath item.filename with
  | error e =>
      rw [hsafe] at h
      cases h
  | ok name =>
      obtain rfl := safePath_eq hsafe
      rw [hsafe] at h
      change (if _ then _ else if _ then _ else _) = _ at h
      split at h
      · cases h
      · rename_i hplain
        split at h
        · cases h
        · cases hread : readStream state.2 item with
          | error e =>
              rw [hread] at h
              cases h
          | ok data =>
              obtain ⟨rfl, hbroken, hle'⟩ := readStream_ok hread hle
              rw [hread] at h
              obtain rfl := (Except.ok.inj h).symm
              exact ⟨rfl, fun hmem => hplain (.inl hmem), hbroken, rfl, hle'⟩

/-- What acceptance says of the entries of an archive. -/
structure Accepted (items : List ZipEntry) : Prop where
  nodup : (items.map ZipEntry.filename).Nodup
  safe : ∀ item ∈ items, safePath item.filename = .ok item.filename
  unbroken : ∀ item ∈ items, item.broken = none
  count : items.length ≤ MAX_FILES
  total : (items.map fun item => item.data.length).sum ≤ MAX_BYTES
  apart : conflicting (items.map ZipEntry.filename) = false

theorem manifestItems_ok {sha256 : Bytes → String} {items : List ZipEntry} {state state' : Manifest × Nat}
    (h : items.foldlM (manifestItem sha256) state = .ok state') (hle : state.2 ≤ MAX_BYTES)
    (hnd : (state.1.map Prod.fst).Nodup) :
    state' = (state.1 ++ items.map (ZipEntry.entry sha256),
        state.2 + (items.map fun item => item.data.length).sum) ∧
      state'.2 ≤ MAX_BYTES ∧ (state'.1.map Prod.fst).Nodup ∧
      ∀ item ∈ items, safePath item.filename = .ok item.filename ∧ item.broken = none := by
  induction items generalizing state with
  | nil =>
      rw [List.foldlM_nil] at h
      obtain rfl := (Except.ok.inj h).symm
      exact ⟨by simp, hle, hnd, fun item hitem => by cases hitem⟩
  | cons item items ih =>
      rw [List.foldlM_cons] at h
      cases hitem : manifestItem sha256 state item with
      | error e =>
          rw [hitem] at h
          cases h
      | ok mid =>
          rw [hitem] at h
          obtain ⟨hsafe, hnew, hbroken, rfl, hle'⟩ := manifestItem_ok hitem hle
          have hnd' : ((state.1 ++ [item.entry sha256]).map Prod.fst).Nodup := by
            rw [List.map_append, List.map_singleton]
            refine List.Nodup.append hnd (List.nodup_singleton _) ?_
            intro name hname hone
            rw [List.mem_singleton.mp hone] at hname
            exact hnew hname
          obtain ⟨heq, hle'', hnd'', hall⟩ := ih h hle' hnd'
          refine ⟨?_, hle'', hnd'', fun i hi => ?_⟩
          · rw [heq]
            simp [Nat.add_assoc]
          · rcases List.mem_cons.mp hi with rfl | hi
            · exact ⟨hsafe, hbroken⟩
            · exact hall i hi

/-- **Acceptance** by `manifest`. -/
theorem manifest_accepted {zip : ZipLibrary} {sha256 : Bytes → String} {archive : Bytes} {files : Manifest}
    (h : manifest zip sha256 archive = .ok files) :
    ∃ items, zip.read archive = .ok items ∧ Accepted items ∧
      files = sortedDict (items.map (ZipEntry.entry sha256)) := by
  unfold manifest at h
  split at h
  · cases h
  · cases hread : zip.read archive with
    | error e =>
        rw [hread] at h
        cases h
    | ok items =>
        rw [hread] at h
        change (if _ then _ else _) = _ at h
        split at h
        · cases h
        · rename_i hcount
          cases hloop : items.foldlM (manifestItem sha256) ([], 0) with
          | error e =>
              rw [hloop] at h
              cases h
          | ok state =>
              rw [hloop] at h
              change (if _ then _ else _) = _ at h
              split at h
              · cases h
              · rename_i hapart
                obtain ⟨heq, hle, hnd, hall⟩ :=
                  manifestItems_ok hloop (Nat.zero_le _) List.nodup_nil
                rw [heq] at hle hnd hapart h
                have hnames : (items.map (ZipEntry.entry sha256)).map Prod.fst
                    = items.map ZipEntry.filename := by
                  rw [List.map_map]
                  rfl
                simp only [List.nil_append, Nat.zero_add] at hle hnd hapart h
                rw [hnames] at hnd hapart
                refine ⟨items, rfl, ⟨hnd, fun i hi => (hall i hi).1, fun i hi => (hall i hi).2,
                  not_lt.mp hcount, hle, by simpa using hapart⟩, (Except.ok.inj h).symm⟩

/-! ## §6. Accepted directories. -/

/-- What `files` records of a path. -/
def fileEntry (sha256 : Bytes → String) (item : List String × Kind) : Option (String × FileInfo) :=
  match item.2 with
  | .leaf (.file data) =>
      if allowed (joined item.1) then some (joined item.1, info sha256 data) else none
  | _ => none

/-- What `workspace_files` demands of a path. -/
def Clean (item : List String × Kind) : Prop :=
  allowed (joined item.1) = true →
    safePath (joined item.1) = .ok (joined item.1) ∧
      (item.2 = .dir ∨ ∃ data, item.2 = .leaf (.file data))

def sizes (files : Manifest) : Nat := (files.map fun f => f.2.size).sum

@[simp] theorem sizes_nil : sizes [] = 0 := rfl

@[simp] theorem sizes_append (a b : Manifest) : sizes (a ++ b) = sizes a + sizes b := by
  unfold sizes
  rw [List.map_append, List.sum_append]

theorem sizes_perm {a b : Manifest} (h : a.Perm b) : sizes a = sizes b := (h.map _).sum_eq

/-- One turn of the loop of `workspace_files`. -/
theorem workspaceItem_iff {sha256 : Bytes → String} {state state' : Manifest × Nat}
    {item : List String × Kind} (hb : state.2 ≤ MAX_BYTES) (hc : state.1.length ≤ MAX_FILES) :
    workspaceItem sha256 state item = .ok state' ↔
      Clean item ∧
        state' = (state.1 ++ (fileEntry sha256 item).toList,
          state.2 + sizes (fileEntry sha256 item).toList) ∧
        state'.2 ≤ MAX_BYTES ∧ state'.1.length ≤ MAX_FILES := by
  obtain ⟨path, kind⟩ := item
  unfold workspaceItem Clean
  dsimp only
  by_cases hallow : allowed (joined path) = true
  · simp only [hallow, not_true_eq_false, if_false, true_implies]
    cases hsafe : safePath (joined path) with
    | error e =>
        constructor
        · intro h
          cases h
        · rintro ⟨⟨h, _⟩, _⟩
          cases h
    | ok name =>
        obtain rfl := safePath_eq hsafe
        change (match kind with | .leaf (.link _) => _ | .dir => _ | .leaf .other => _ | .leaf (.file _) => _) = _ ↔ _
        cases kind with
        | dir =>
            simp only [fileEntry, Option.toList_none, List.append_nil, sizes_nil, Nat.add_zero,
              Except.ok.injEq, true_or, and_self, true_and]
            constructor
            · rintro rfl
              exact ⟨rfl, hb, hc⟩
            · rintro ⟨rfl, _, _⟩
              rfl
        | leaf l =>
            cases l with
            | link toDir => simp
            | other => simp
            | file data =>
                simp only [fileEntry, hallow, if_true, Option.toList_some, reduceCtorEq,
                  false_or, Kind.leaf.injEq, Leaf.file.injEq, exists_eq', and_self, true_and]
                have hsize : sizes [(joined path, info sha256 data)] = data.length := by
                  simp [sizes, info]
                rw [hsize]
                by_cases hbig : MAX_BYTES < state.2 + data.length ∨ MAX_FILES ≤ state.1.length
                · rw [if_pos hbig]
                  constructor
                  · intro h
                    cases h
                  · rintro ⟨rfl, htotal, hcount⟩
                    simp only [List.length_append, List.length_singleton] at hcount htotal
                    omega
                · rw [if_neg hbig]
                  rw [not_or, not_lt, not_le] at hbig
                  constructor
                  · intro h
                    obtain rfl := Except.ok.inj h
                    refine ⟨rfl, hbig.1, ?_⟩
                    simp only [List.length_append, List.length_singleton]
                    omega
                  · rintro ⟨rfl, _, _⟩
                    rfl
  · have hnone : fileEntry sha256 (path, kind) = none := by
      unfold fileEntry
      split
      · exact if_neg hallow
      · rfl
    rw [if_pos hallow, hnone]
    simp only [hallow, Bool.false_eq_true, false_implies, Option.toList_none, List.append_nil, sizes_nil, Nat.add_zero,
      true_and, Except.ok.injEq]
    constructor
    · rintro rfl
      exact ⟨rfl, hb, hc⟩
    · rintro ⟨rfl, _, _⟩
      rfl

/-- The loop of `workspace_files`. -/
theorem workspaceItems_iff {sha256 : Bytes → String} {items : List (List String × Kind)}
    {state state' : Manifest × Nat} (hb : state.2 ≤ MAX_BYTES) (hc : state.1.length ≤ MAX_FILES) :
    items.foldlM (workspaceItem sha256) state = .ok state' ↔
      (∀ item ∈ items, Clean item) ∧
        state' = (state.1 ++ items.filterMap (fileEntry sha256),
          state.2 + sizes (items.filterMap (fileEntry sha256))) ∧
        state'.2 ≤ MAX_BYTES ∧ state'.1.length ≤ MAX_FILES := by
  induction items generalizing state with
  | nil =>
      simp only [List.foldlM_nil, List.filterMap_nil, List.append_nil, sizes_nil, Nat.add_zero]
      constructor
      · intro h
        obtain rfl := Except.ok.inj h
        exact ⟨fun item hitem => (by cases hitem), rfl, hb, hc⟩
      · rintro ⟨_, rfl, _, _⟩
        rfl
  | cons item items ih =>
      rw [List.foldlM_cons]
      have hcons : (item :: items).filterMap (fileEntry sha256)
          = (fileEntry sha256 item).toList ++ items.filterMap (fileEntry sha256) := by
        rw [List.filterMap_cons]
        cases fileEntry sha256 item <;> rfl
      rw [hcons]
      constructor
      · intro h
        cases hitem : workspaceItem sha256 state item with
        | error e =>
            rw [hitem] at h
            cases h
        | ok mid =>
            rw [hitem] at h
            obtain ⟨hclean, rfl, hb', hc'⟩ := (workspaceItem_iff hb hc).mp hitem
            obtain ⟨hall, rfl, hb'', hc''⟩ := (ih hb' hc').mp h
            refine ⟨fun i hi => ?_, by simp [Nat.add_assoc], hb'', hc''⟩
            rcases List.mem_cons.mp hi with rfl | hi
            · exact hclean
            · exact hall i hi
      · rintro ⟨hall, rfl, hb'', hc''⟩
        simp only [sizes_append, List.length_append] at hb'' hc''
        have hitem := (@workspaceItem_iff sha256 state _ item hb hc).mpr
          ⟨hall item List.mem_cons_self, rfl, by omega, by simp only [List.length_append]; omega⟩
        rw [hitem]
        refine (ih (by dsimp only; omega) (by simp only [List.length_append]; omega)).mpr
          ⟨fun i hi => hall i (List.mem_cons_of_mem _ hi), by simp [Nat.add_assoc], ?_, ?_⟩
        · simp only [sizes_append]
          omega
        · simp only [List.length_append]
          omega

/-- **Acceptance** by `workspace_files`. -/
theorem workspaceFiles_iff {sha256 : Bytes → String} {root : Entries} {files : Manifest} :
    workspaceFiles sha256 root = .ok files ↔
      (∀ item ∈ visited root, Clean item) ∧
        files = sortedDict ((visited root).filterMap (fileEntry sha256)) ∧
        sizes files ≤ MAX_BYTES ∧ files.length ≤ MAX_FILES := by
  have hloop := fun state' => @workspaceItems_iff sha256 (visited root) ([], 0) state'
    (Nat.zero_le _) (Nat.zero_le _)
  simp only [List.nil_append, Nat.zero_add] at hloop
  have hperm := sortedDict_perm ((visited root).filterMap (fileEntry sha256))
  unfold workspaceFiles
  constructor
  · intro h
    cases hstate : (visited root).foldlM (workspaceItem sha256) ([], 0) with
    | error e =>
        rw [hstate] at h
        cases h
    | ok state' =>
        rw [hstate] at h
        obtain ⟨hclean, rfl, hb, hc⟩ := (hloop state').mp hstate
        obtain rfl := (Except.ok.inj h).symm
        exact ⟨hclean, rfl, by rw [sizes_perm hperm]; exact hb, by rw [hperm.length_eq]; exact hc⟩
  · rintro ⟨hclean, rfl, hb, hc⟩
    rw [sizes_perm hperm] at hb
    rw [hperm.length_eq] at hc
    rw [(hloop _).mpr ⟨hclean, rfl, hb, hc⟩]
    rfl

end WebBuilder.Archive
