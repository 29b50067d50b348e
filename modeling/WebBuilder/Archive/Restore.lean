/-
  WebBuilder.Archive.Restore — `restore` and `pack`.

  `restore` validates the archive, clears the directory except for installed
  dependencies, and lets `zipfile` extract.  `pack` lists the directory, writes
  an archive, and lists both again.

  Main results:
    * `extractAll_spec` — extracting an accepted archive whose names lead
      somewhere succeeds, and says what is where afterwards;
    * `restore_accepted` — the restored directory has exactly the files of the
      archive.
-/
import WebBuilder.Archive.Manifest

namespace WebBuilder.Archive

/-! ## §1. `restore`. -/

/-- The loop of `restore` over `root.iterdir()`. -/
def cleared : Entries → Entries
  | .nil => .nil
  | .leaf _ _ rest => cleared rest
  | .dir n children rest =>
      if n = "node_modules" then .dir n children (cleared rest) else cleared rest

/-- Where `zipfile` extracts a member. -/
def target (item : ZipEntry) : List String :=
  (components item.filename).filter fun p => p ≠ "" ∧ p ≠ "." ∧ p ≠ ".."

/-- `ZipFile._extract_member`, for a member that is no directory. -/
def extractMember (root : Entries) (item : ZipEntry) : Except Exc Entries :=
  match item.broken with
  | some e => .error e
  | none => root.writeFile (target item) item.data

/-- `z.extractall(root)`.  The names are distinct. -/
def extractAll (root : Entries) (items : List ZipEntry) : Except Exc Entries :=
  items.foldlM extractMember root

/-- What `restore` raises before it touches the directory, or how it ends. -/
def restore (zip : ZipLibrary) (sha256 : Bytes → String) (root : Entries) (archive : Bytes) :
    Except Exc (Except Exc Entries) := do
  let _ ← manifest zip sha256 archive
  .ok (do
    let items ← zip.read archive
    extractAll (cleared root) items)

/-! ## §2. `pack`. -/

/-- `z.write(root / name, name)`: the file, and what is recorded of it. -/
def memberOf (root : Entries) (stamps : String → Nat) (name : String) : Except Exc Member :=
  match root.lookup (components name) with
  | some (.leaf (.file data)) => .ok ⟨name, stamps name, data⟩
  | _ => .error .other

/-- The loop of `pack`, with the members written so far. -/
def packItem (zip : ZipLibrary) (root : Entries) (stamps : String → Nat) (members : List Member)
    (name : String) : Except Exc (List Member) := do
  let member ← memberOf root stamps name
  let size ← zip.growth (members ++ [member])
  if MAX_ARCHIVE < size then .error (.value "Project archive exceeds 10 MiB")
  else .ok (members ++ [member])

/-- `pack` with the archive that it leaves in `target`. -/
def pack (zip : ZipLibrary) (sha256 : Bytes → String) (stamps : String → Nat) (root : Entries) :
    Except Exc Bytes := do
  let before ← workspaceFiles sha256 root
  let members ← (before.map Prod.fst).foldlM (packItem zip root stamps) []
  let archive ← zip.write members
  if MAX_ARCHIVE < archive.length then .error (.value "Project archive exceeds 10 MiB")
  else do
    -- Detect concurrent background writers, including deletes/renames during collection.
    let packed ← manifest zip sha256 archive
    let after ← workspaceFiles sha256 root
    if packed ≠ before ∨ after ≠ before then
      .error (.value "Workspace changed during checkpoint; stop background writers")
    else .ok archive

/-! ## §3. Clearing. -/

theorem cleared_items (root : Entries) : ∀ item ∈ (cleared root).items, item ∈ root.items := by
  induction root with
  | nil => exact fun item hitem => hitem
  | leaf n l rest ih => exact fun item hitem => List.mem_cons_of_mem _ (ih item hitem)
  | dir n children rest _ ih =>
      intro item hitem
      unfold cleared at hitem
      split at hitem
      · rcases List.mem_cons.mp hitem with rfl | hitem
        · exact List.mem_cons_self
        · exact List.mem_cons_of_mem _ (ih item hitem)
      · exact List.mem_cons_of_mem _ (ih item hitem)

theorem cleared_wellFormed {root : Entries} (h : root.WellFormed) : (cleared root).WellFormed := by
  induction root with
  | nil => trivial
  | leaf n l rest ih => exact ih h.2.2
  | dir n children rest _ ih =>
      unfold cleared
      split
      · exact ⟨h.1, fun m hm => h.2.1 m (cleared_items rest m hm), h.2.2.1, ih h.2.2.2⟩
      · exact ih h.2.2.2

/-- Nothing stays but installed dependencies. -/
theorem lookup_cleared_ne (root : Entries) {m : String} (hm : m ≠ "node_modules") (path : List String) :
    (cleared root).lookup (m :: path) = none := by
  induction root with
  | nil => rfl
  | leaf n l rest ih => exact ih
  | dir n children rest _ ih =>
      unfold cleared
      split
      · rename_i hn
        rw [Entries.lookup_dir_ne (by rw [hn]; exact hm), ih]
      · exact ih

/-- Installed dependencies stay, if they are a real directory. -/
theorem lookup_cleared {root : Entries} (h : root.WellFormed) (path : List String) :
    (cleared root).lookup ("node_modules" :: path)
      = if root.lookup ["node_modules"] = some .dir then root.lookup ("node_modules" :: path) else none := by
  induction root with
  | nil => rfl
  | leaf n l rest ih =>
      by_cases hn : n = "node_modules"
      · subst hn
        have hself : (Entries.leaf "node_modules" l rest).lookup ["node_modules"] = some (.leaf l) := by
          simp [Entries.lookup]
        rw [hself, if_neg (by simp)]
        show (cleared rest).lookup _ = none
        -- the name does not come again
        rw [ih h.2.2, Entries.lookup_less h.2.1, if_neg (by simp)]
      · have hne : ∀ path, ("node_modules" :: path) ≠ [n] :=
          fun path hp => hn (List.cons.inj hp).1.symm
        rw [Entries.lookup, if_neg (hne []), Entries.lookup, if_neg (hne path)]
        exact ih h.2.2
  | dir n children rest _ ih =>
      unfold cleared
      by_cases hn : n = "node_modules"
      · subst hn
        rw [if_pos rfl, if_pos (by simp [Entries.lookup])]
        by_cases hp : path = []
        · subst hp
          simp [Entries.lookup]
        · rw [Entries.lookup_dir_self _ children _ hp, Entries.lookup_dir_self _ children _ hp]
      · have hn' : "node_modules" ≠ n := fun hh => hn hh.symm
        rw [if_neg hn, Entries.lookup_dir_ne hn', Entries.lookup_dir_ne hn', ih h.2.2.2]

/-! ## §4. Extraction. -/

/-- What is where after the members were extracted. -/
structure Extracted (items : List ZipEntry) (old new : List String → Option Kind) : Prop where
  file : ∀ item ∈ items, new (target item) = some (.leaf (.file item.data))
  dir : ∀ q, q ≠ [] → (∃ item ∈ items, q <+: target item) → (∀ item ∈ items, q ≠ target item) →
    new q = some .dir
  rest : ∀ q, (q = [] ∨ ∀ item ∈ items, ¬ q <+: target item) → new q = old q

/-- Members that can be extracted one after the other. -/
structure Extractable (items : List ZipEntry) : Prop where
  unbroken : ∀ item ∈ items, item.broken = none
  nonempty : ∀ item ∈ items, target item ≠ []
  valid : ∀ item ∈ items, ∀ p ∈ target item, ValidName p
  nodup : (items.map target).Nodup
  apart : ∀ a ∈ items, ∀ b ∈ items, target a <+: target b → target a = target b

/-- One more member. -/
theorem Extracted.cons {item : ZipEntry} {items : List ZipEntry} (h : Extractable (item :: items))
    {old mid new : List String → Option Kind}
    (hmid : ∀ q, mid q = Entries.overlay (target item) item.data old q) (hnew : Extracted items mid new) :
    Extracted (item :: items) old new := by
  -- no other member changes what is at the target of the first
  have hfirst : ∀ other ∈ items, ¬ target item <+: target other := by
    intro other hother hpre
    have heq := h.apart item List.mem_cons_self other (List.mem_cons_of_mem _ hother) hpre
    have hnd := h.nodup
    rw [List.map_cons, List.nodup_cons] at hnd
    exact hnd.1 (by rw [heq]; exact List.mem_map_of_mem hother)
  refine ⟨fun i hi => ?_, fun q hq hpre hne => ?_, fun q hq => ?_⟩
  · rcases List.mem_cons.mp hi with rfl | hi
    · rw [hnew.rest _ (.inr hfirst), hmid]
      simp [Entries.overlay]
    · exact hnew.file i hi
  · by_cases hother : ∃ i ∈ items, q <+: target i
    · exact hnew.dir q hq hother fun i hi => hne i (List.mem_cons_of_mem _ hi)
    · have hitem : q <+: target item := by
        obtain ⟨i, hi, hp⟩ := hpre
        rcases List.mem_cons.mp hi with rfl | hi
        · exact hp
        · exact absurd ⟨i, hi, hp⟩ hother
      rw [hnew.rest q (.inr fun i hi hp => hother ⟨i, hi, hp⟩), hmid]
      simp [Entries.overlay, hne item List.mem_cons_self, hq, hitem]
  · have hnone : q = [] ∨ ¬ q <+: target item := hq.imp_right fun hall => hall item List.mem_cons_self
    rw [hnew.rest q (hq.imp_right fun hall i hi => hall i (List.mem_cons_of_mem _ hi)), hmid]
    unfold Entries.overlay
    rw [if_neg, if_neg]
    · rintro ⟨hne, hpre⟩
      rcases hnone with hnil | hno
      · exact hne hnil
      · exact hno hpre
    · rintro rfl
      rcases hnone with hnil | hno
      · exact h.nonempty item List.mem_cons_self hnil
      · exact hno List.prefix_rfl

/-- After the first member nothing is in the way of the others. -/
theorem clear_overlay {es es' : Entries} {path other : List String} {data : Bytes}
    (hlook : ∀ q, es'.lookup q = Entries.overlay path data es.lookup q) (hclear : es.Clear other)
    (hne : path ≠ other) (hpre : ¬ path <+: other) (hpre' : ¬ other <+: path) : es'.Clear other := by
  refine ⟨fun q hq hq' => ?_, ?_⟩
  · rw [hlook]
    unfold Entries.overlay
    rw [if_neg (fun hh : q = path => hpre (hh ▸ hq))]
    split
    · exact .inr rfl
    · exact hclear.1 q hq hq'
  · rw [hlook]
    unfold Entries.overlay
    rw [if_neg (fun hh => hne hh.symm), if_neg (fun hh => hpre' hh.2)]
    exact hclear.2

/-- **Extraction** of all members. -/
theorem extractAll_spec {items : List ZipEntry} (h : Extractable items) {es : Entries} (hes : es.WellFormed)
    (hclear : ∀ item ∈ items, es.Clear (target item)) :
    ∃ es', extractAll es items = .ok es' ∧ es'.WellFormed ∧ Extracted items es.lookup es'.lookup := by
  induction items generalizing es with
  | nil =>
      refine ⟨es, rfl, hes, fun item hitem => (by cases hitem), fun q _ hex _ => ?_, fun q _ => rfl⟩
      obtain ⟨item, hitem, _⟩ := hex
      cases hitem
  | cons item items ih =>
      cases hpath : target item with
      | nil => exact absurd hpath (h.nonempty item List.mem_cons_self)
      | cons c path =>
          have hvalid := h.valid item List.mem_cons_self
          have hclear' := hclear item List.mem_cons_self
          rw [hpath] at hvalid hclear'
          obtain ⟨mid, hwrite, hmid, hlook, _⟩ :=
            Entries.lookup_writeFile hes hvalid hclear' item.data
          rw [← hpath] at hwrite hlook
          have htail : Extractable items :=
            ⟨fun i hi => h.unbroken i (List.mem_cons_of_mem _ hi),
              fun i hi => h.nonempty i (List.mem_cons_of_mem _ hi),
              fun i hi => h.valid i (List.mem_cons_of_mem _ hi),
              (List.nodup_cons.mp (by simpa using h.nodup)).2,
              fun a ha b hb => h.apart a (List.mem_cons_of_mem _ ha) b (List.mem_cons_of_mem _ hb)⟩
          have hother : ∀ i ∈ items, mid.Clear (target i) := by
            intro i hi
            have hmem := List.mem_cons_of_mem item hi
            have hne : target item ≠ target i := by
              intro heq
              have hnd := h.nodup
              rw [List.map_cons, List.nodup_cons] at hnd
              exact hnd.1 (by rw [heq]; exact List.mem_map_of_mem hi)
            exact clear_overlay hlook (hclear i hmem) hne
              (fun hp => hne (h.apart item List.mem_cons_self i hmem hp))
              (fun hp => hne (h.apart i hmem item List.mem_cons_self hp).symm)
          obtain ⟨es', hrun, hwf, hex⟩ := ih htail hmid hother
          refine ⟨es', ?_, hwf, Extracted.cons h hlook hex⟩
          unfold extractAll
          rw [List.foldlM_cons, extractMember, h.unbroken item List.mem_cons_self]
          dsimp only
          rw [hwrite]
          exact hrun

/-! ## §5. Accepted archives can be extracted. -/

theorem components_ne_nil (name : String) : components name ≠ [] := by
  unfold components
  intro h
  exact List.splitOn_ne_nil _ _ (List.map_eq_nil_iff.mp h)

/-- The directories of a path are among the parents of its name. -/
theorem mem_parents {parts q : List String} (h : ∀ p ∈ parts, ValidName p) (hq : q <+: parts) (hne : q ≠ [])
    (hlt : q ≠ parts) : joined q ∈ parents (joined parts) := by
  have hparts : parts ≠ [] := by
    rintro rfl
    exact hne (List.prefix_nil.mp hq)
  unfold parents
  rw [parsePath_joined h hparts]
  dsimp only
  rw [List.mem_map]
  refine ⟨q.length, ?_, ?_⟩
  · rw [List.mem_reverse, List.mem_range]
    exact lt_of_le_of_ne hq.length_le fun heq => hlt (hq.eq_of_length heq)
  · rw [List.prefix_iff_eq_take.mp hq |>.symm]
    unfold PurePosixPath.str
    rw [if_neg (fun hh => hne hh.2), String.empty_append]

/-- The names of an accepted archive lead to files that can be made. -/
structure Named (item : ZipEntry) : Prop where
  joined_target : joined (target item) = item.filename
  nonempty : target item ≠ []
  valid : ∀ p ∈ target item, ValidName p
  included : ∀ p ∈ target item, excluded p = false

theorem named_of_safe {item : ZipEntry} (hsafe : safePath item.filename = .ok item.filename)
    (hdot : item.filename ≠ ".") : Named item := by
  rcases components_of_safe hsafe with hd | ⟨hvalid, hincl⟩
  · exact absurd hd hdot
  · have htarget : target item = components item.filename := by
      unfold target
      rw [List.filter_eq_self]
      intro p hp
      have hv := hvalid p hp
      simp [hv.nonempty, hv.dot, hv.dotdot]
    refine ⟨?_, ?_, ?_, ?_⟩ <;> rw [htarget]
    · exact joined_components item.filename
    · exact components_ne_nil item.filename
    · exact hvalid
    · exact hincl

theorem extractable_of_accepted {items : List ZipEntry} (h : Accepted items)
    (hdot : ∀ item ∈ items, item.filename ≠ ".") : Extractable items := by
  have hnamed : ∀ item ∈ items, Named item := fun item hi => named_of_safe (h.safe item hi) (hdot item hi)
  refine ⟨h.unbroken, fun i hi => (hnamed i hi).nonempty, fun i hi => (hnamed i hi).valid, ?_, ?_⟩
  · have hnd := h.nodup
    have hmap : items.map ZipEntry.filename = (items.map target).map joined := by
      rw [List.map_map]
      exact List.map_congr_left fun i hi => (hnamed i hi).joined_target.symm
    rw [hmap] at hnd
    exact hnd.of_map
  · intro a ha b hb hpre
    by_contra hne
    have hmem := mem_parents (hnamed b hb).valid hpre (hnamed a ha).nonempty hne
    rw [(hnamed a ha).joined_target, (hnamed b hb).joined_target] at hmem
    have hconf : conflicting (items.map ZipEntry.filename) = true := by
      unfold conflicting
      rw [List.any_eq_true]
      refine ⟨b.filename, List.mem_map_of_mem hb, ?_⟩
      rw [List.any_eq_true]
      exact ⟨a.filename, hmem, by simp [hdot a ha, List.mem_map_of_mem ha]⟩
    rw [h.apart] at hconf
    cases hconf

/-- Nothing of a cleared directory is in the way. -/
theorem clear_cleared (root : Entries) {item : ZipEntry} (h : Named item) :
    (cleared root).Clear (target item) := by
  have hnone : ∀ q, q <+: target item → (cleared root).lookup q = none := by
    intro q hq
    cases q with
    | nil => exact Entries.lookup_nil_path _
    | cons m ms =>
        refine lookup_cleared_ne root ?_ ms
        rintro rfl
        have hexcl := h.included "node_modules" (hq.subset List.mem_cons_self)
        revert hexcl
        decide
  exact ⟨fun q hq _ => .inl (hnone q hq), .inl (hnone _ List.prefix_rfl)⟩

/-! ## §6. The restored directory. -/

theorem joined_prefix : ∀ {q parts : List String}, q ≠ [] → q <+: parts →
    (joined q).toList <+: (joined parts).toList
  | [], _, hne, _ => absurd rfl hne
  | p :: ps, [], _, hq => by cases List.prefix_nil.mp hq
  | p :: ps, r :: rs, _, hq => by
      obtain ⟨rfl, hps⟩ := List.cons_prefix_cons.mp hq
      rw [joined_cons, joined_cons]
      by_cases hnil : ps = []
      · rw [if_pos hnil, List.append_nil]
        exact List.prefix_append _ _
      · have hrs : rs ≠ [] := by
          rintro rfl
          exact hnil (List.prefix_nil.mp hps)
        rw [if_neg hnil, if_neg hrs, List.prefix_append_right_inj, List.cons_prefix_cons]
        exact ⟨rfl, joined_prefix hnil hps⟩

/-- The directories of a safe name have safe names. -/
theorem safePath_prefix {parts q : List String} (h : ∀ p ∈ parts, ValidName p) (hne : q ≠ [])
    (hq : q <+: parts) (hsafe : safePath (joined parts) = .ok (joined parts)) :
    safePath (joined q) = .ok (joined q) := by
  have hparts : parts ≠ [] := by
    rintro rfl
    exact hne (List.prefix_nil.mp hq)
  obtain ⟨hlen, hchars, hincl⟩ := (safePath_joined h hparts).mp hsafe
  have hpre := joined_prefix hne hq
  refine (safePath_joined (fun p hp => h p (hq.subset hp)) hne).mpr ⟨?_, ?_, fun p hp => hincl p (hq.subset hp)⟩
  · have hle := hpre.length_le
    rw [String.length_toList, String.length_toList] at hle
    exact le_trans hle hlen
  · rw [List.any_eq_false] at hchars ⊢
    exact fun c hc => hchars c (hpre.subset hc)

/-- What the walk of a restored directory finds outside installed
dependencies: the members, and the directories above them. -/
theorem restored_kind {items : List ZipEntry} {root root' : Entries}
    (hex : Extracted items (cleared root).lookup root'.lookup) {path : List String} {k : Kind}
    (hl : root'.lookup path = some k) (hincl : ∀ p ∈ path, excluded p = false) :
    (∃ item ∈ items, path = target item ∧ k = .leaf (.file item.data)) ∨
      (k = .dir ∧ path ≠ [] ∧ ∃ item ∈ items, path <+: target item) := by
  cases path with
  | nil => simp at hl
  | cons m ms =>
      by_cases hpre : ∃ item ∈ items, m :: ms <+: target item
      · by_cases htarget : ∃ item ∈ items, m :: ms = target item
        · obtain ⟨item, hitem, heq⟩ := htarget
          rw [heq, hex.file item hitem] at hl
          exact .inl ⟨item, hitem, heq, (Option.some.inj hl).symm⟩
        · have hdir := hex.dir (m :: ms) (by simp) hpre fun i hi heq => htarget ⟨i, hi, heq⟩
          rw [hdir] at hl
          exact .inr ⟨(Option.some.inj hl).symm, by simp, hpre⟩
      · -- an old path starts with `node_modules`
        rw [hex.rest (m :: ms) (.inr fun i hi hp => hpre ⟨i, hi, hp⟩)] at hl
        have hm : m ≠ "node_modules" := by
          rintro rfl
          have hexcl := hincl "node_modules" List.mem_cons_self
          revert hexcl
          decide
        rw [lookup_cleared_ne root hm] at hl
        cases hl

theorem joined_injective {a b : List String} (ha : ∀ p ∈ a, ValidName p) (hb : ∀ p ∈ b, ValidName p)
    (hane : a ≠ []) (hbne : b ≠ []) (h : joined a = joined b) : a = b := by
  have hca := components_joined (fun p hp => (ha p hp).slashless) hane
  have hcb := components_joined (fun p hp => (hb p hp).slashless) hbne
  rw [← hca, h, hcb]

/-- What `workspace_files` records of a path. -/
theorem fileEntry_eq_some {sha256 : Bytes → String} {item : List String × Kind} {e : String × FileInfo} :
    fileEntry sha256 item = some e ↔
      allowed (joined item.1) = true ∧
        ∃ data, item.2 = .leaf (.file data) ∧ e = (joined item.1, info sha256 data) := by
  obtain ⟨path, kind⟩ := item
  unfold fileEntry
  dsimp only
  split
  · rename_i data
    by_cases hallow : allowed (joined path) = true
    · simp [hallow, eq_comm]
    · simp [hallow]
  · rename_i hno
    constructor
    · intro h
      cases h
    · rintro ⟨_, data, rfl, _⟩
      exact absurd rfl (hno data)

/-- The names that `workspace_files` records are distinct. -/
theorem files_nodup {sha256 : Bytes → String} {root : Entries} (h : root.WellFormed) :
    (((visited root).filterMap (fileEntry sha256)).map Prod.fst).Nodup := by
  have hvisited := visited_nodup ⟨root, h⟩
  unfold List.Nodup at hvisited ⊢
  rw [List.pairwise_map] at hvisited ⊢
  rw [List.pairwise_filterMap]
  refine hvisited.imp_of_mem ?_
  intro a b ha hb hne ea hea eb heb hname
  have hvalid : ∀ x ∈ visited root, x.1 ≠ [] ∧ ∀ p ∈ x.1, ValidName p := by
    intro x hx
    exact Entries.lookup_valid h ((mem_visited ⟨root, h⟩).mp hx).1
  obtain ⟨_, _, _, rfl⟩ := fileEntry_eq_some.mp hea
  obtain ⟨_, _, _, rfl⟩ := fileEntry_eq_some.mp heb
  exact hne (joined_injective (hvalid a ha).2 (hvalid b hb).2 (hvalid a ha).1 (hvalid b hb).1 hname)

/-- **A restored directory has the files of the archive.** -/
theorem workspaceFiles_restored {sha256 : Bytes → String} {items : List ZipEntry} (h : Accepted items)
    (hdot : ∀ item ∈ items, item.filename ≠ ".") {root root' : Entries} (hwf : root'.WellFormed)
    (hex : Extracted items (cleared root).lookup root'.lookup) :
    workspaceFiles sha256 root' = .ok (sortedDict (items.map (ZipEntry.entry sha256))) := by
  have hnamed : ∀ item ∈ items, Named item := fun item hi => named_of_safe (h.safe item hi) (hdot item hi)
  have hmem : ∀ {path k}, (path, k) ∈ visited root' ↔
      root'.lookup path = some k ∧ ∀ p ∈ path.dropLast, excluded p = false :=
    mem_visited ⟨root', hwf⟩
  have hincl : ∀ {path k}, root'.lookup path = some k → allowed (joined path) = true →
      ∀ p ∈ path, excluded p = false := by
    intro path k hl hallow
    obtain ⟨hne, hvalid⟩ := Entries.lookup_valid hwf hl
    exact (allowed_joined hvalid hne).mp hallow
  -- the recorded files are the members
  have hperm : ((visited root').filterMap (fileEntry sha256)).Perm (items.map (ZipEntry.entry sha256)) := by
    have hnames : (items.map (ZipEntry.entry sha256)).map Prod.fst = items.map ZipEntry.filename := by
      rw [List.map_map]
      rfl
    rw [List.perm_ext_iff_of_nodup (files_nodup hwf).of_map
      (List.Nodup.of_map Prod.fst (by rw [hnames]; exact h.nodup))]
    intro e
    rw [List.mem_filterMap, List.mem_map]
    constructor
    · rintro ⟨⟨path, k⟩, hvis, he⟩
      obtain ⟨hallow, data, hk, rfl⟩ := fileEntry_eq_some.mp he
      dsimp only at hallow hk ⊢
      subst hk
      have hl := (hmem.mp hvis).1
      rcases restored_kind hex hl (hincl hl hallow) with ⟨item, hitem, rfl, hk⟩ | ⟨hk, _⟩
      · simp only [Kind.leaf.injEq, Leaf.file.injEq] at hk
        refine ⟨item, hitem, ?_⟩
        rw [ZipEntry.entry, (hnamed item hitem).joined_target, hk]
      · cases hk
    · rintro ⟨item, hitem, rfl⟩
      have hn := hnamed item hitem
      refine ⟨(target item, .leaf (.file item.data)),
        hmem.mpr ⟨hex.file item hitem, fun p hp => hn.included p (List.mem_of_mem_dropLast hp)⟩, ?_⟩
      refine fileEntry_eq_some.mpr ⟨(allowed_joined hn.valid hn.nonempty).mpr hn.included, _, rfl, ?_⟩
      rw [ZipEntry.entry, hn.joined_target]
  refine workspaceFiles_iff.mpr ⟨?_, (sortedDict_eq hperm (files_nodup hwf)).symm, ?_, ?_⟩
  · rintro ⟨path, k⟩ hvis hallow
    have hl := (hmem.mp hvis).1
    dsimp only at hallow ⊢
    have hsafe : ∀ item ∈ items, safePath (joined (target item)) = .ok (joined (target item)) := by
      intro item hitem
      rw [(hnamed item hitem).joined_target]
      exact h.safe item hitem
    rcases restored_kind hex hl (hincl hl hallow) with ⟨item, hitem, rfl, rfl⟩ | ⟨rfl, hne, item, hitem, hpre⟩
    · exact ⟨hsafe item hitem, .inr ⟨item.data, rfl⟩⟩
    · exact ⟨ safePath_prefix (hnamed item hitem).valid hne hpre (hsafe item hitem), .inl rfl⟩
  · rw [sizes_perm (sortedDict_perm _)]
    have hsizes : sizes (items.map (ZipEntry.entry sha256)) = (items.map fun item => item.data.length).sum := by
      unfold sizes
      rw [List.map_map]
      rfl
    rw [hsizes]
    exact h.total
  · rw [(sortedDict_perm _).length_eq, List.length_map]
    exact h.count

/-- **What restoring an accepted archive does**, unless a name is `.`. -/
theorem restore_accepted {zip : ZipLibrary} {sha256 : Bytes → String} {archive : Bytes} {files : Manifest}
    {items : List ZipEntry} (hman : manifest zip sha256 archive = .ok files)
    (hread : zip.read archive = .ok items) (hdot : ∀ item ∈ items, item.filename ≠ ".") (root : Tree) :
    ∃ root' : Tree, restore zip sha256 root.entries archive = .ok (.ok root'.entries) ∧
      Extracted items (cleared root.entries).lookup root'.entries.lookup ∧
      workspaceFiles sha256 root'.entries = .ok files := by
  obtain ⟨items', hread', hacc, hfiles⟩ := manifest_accepted hman
  rw [hread] at hread'
  obtain rfl := Except.ok.inj hread'
  have hclear : ∀ item ∈ items, (cleared root.entries).Clear (target item) := fun item hi =>
    clear_cleared root.entries (named_of_safe (hacc.safe item hi) (hdot item hi))
  obtain ⟨es', hrun, hwf, hex⟩ := extractAll_spec (extractable_of_accepted hacc hdot)
    (cleared_wellFormed root.wellFormed) hclear
  refine ⟨⟨es', hwf⟩, ?_, hex, ?_⟩
  · unfold restore
    rw [hman, hread]
    show Except.ok (extractAll (cleared root.entries) items) = _
    rw [hrun]
  · rw [hfiles]
    exact workspaceFiles_restored hacc hdot hwf hex

end WebBuilder.Archive
