/-
  WebBuilder.Archive.Tree — project directories.

  A directory is the list of its entries in the order of their names, which
  is all that the source can see of it (it sorts what `os.walk` reports).
  `Tree` carries the proof that names are valid and distinct.

  Main results:
    * `mem_visited`, `visited_nodup` — what the walk of `workspace_files`
      looks at: each path below allowed directories, once;
    * `lookup_writeFile` — extracting one file changes that path and creates
      the directories above it, and nothing else.
-/
import WebBuilder.Archive.Paths
import WebBuilder.Model.World

namespace WebBuilder.Archive

/-! ## §1. Directories. -/

/-- A directory entry that is not a directory. -/
inductive Leaf where
  | file (data : Bytes)
  /-- A symbolic link, to a directory or to anything else. -/
  | link (toDir : Bool)
  /-- A socket, a pipe, a device. -/
  | other
  deriving DecidableEq

/-- The entries of a directory. -/
inductive Entries where
  | nil
  | leaf (name : String) (leaf : Leaf) (rest : Entries)
  | dir (name : String) (children : Entries) (rest : Entries)
  deriving DecidableEq

/-- What a path leads to. -/
inductive Kind where
  | leaf (leaf : Leaf)
  | dir
  deriving DecidableEq

namespace Entries

/-- The names of a directory with what they are. -/
def items : Entries → List (String × Kind)
  | nil => []
  | leaf n l rest => (n, .leaf l) :: rest.items
  | dir n _ rest => (n, .dir) :: rest.items

/-- What the path leads to.  Links are not followed. -/
def lookup : Entries → List String → Option Kind
  | nil, _ => none
  | leaf n l rest, path => if path = [n] then some (.leaf l) else rest.lookup path
  | dir n children rest, path =>
      match path with
      | [] => none
      | [m] => if m = n then some .dir else rest.lookup [m]
      | m :: k :: path => if m = n then children.lookup (k :: path) else rest.lookup (m :: k :: path)

/-- Names are valid and ascend, here and below. -/
def WellFormed : Entries → Prop
  | nil => True
  | leaf n _ rest => ValidName n ∧ (∀ m ∈ rest.items, n < m.1) ∧ rest.WellFormed
  | dir n children rest =>
      ValidName n ∧ (∀ m ∈ rest.items, n < m.1) ∧ children.WellFormed ∧ rest.WellFormed

end Entries

/-- A directory with valid, distinct names. -/
structure Tree where
  entries : Entries
  wellFormed : entries.WellFormed

/-! ## §2. The walk. -/

/-- The directories below `folder` that `os.walk` visits when `dirs[:]` keeps
the allowed ones, with their entries.  Links are not followed. -/
def subdirs (folder : List String) : Entries → List (List String × Entries)
  | .nil => []
  | .leaf _ _ rest => subdirs folder rest
  | .dir n children rest =>
      if allowed (joined (folder ++ [n])) then
        (folder ++ [n], children) :: subdirs (folder ++ [n]) children ++ subdirs folder rest
      else subdirs folder rest

/-- `os.walk(root, followlinks=False)` under this pruning. -/
def walk (root : Entries) : List (List String × Entries) := ([], root) :: subdirs [] root

/-- The paths of a directory's names. -/
def pathsIn (folder : List String) (entries : Entries) : List (List String × Kind) :=
  entries.items.map fun (n, k) => (folder ++ [n], k)

/-- The paths that the loops of `workspace_files` look at, in their order. -/
def visited (root : Entries) : List (List String × Kind) :=
  (walk root).flatMap fun (folder, entries) => pathsIn folder entries

/-! ## §3. Lookups. -/

namespace Entries

@[simp] theorem lookup_nil_path (es : Entries) : es.lookup [] = none := by
  induction es with
  | nil => rfl
  | leaf n l rest ih => simpa [lookup] using ih
  | dir n children rest _ ih => rfl

theorem lookup_dir_self (n : String) (children rest : Entries) {path : List String} (h : path ≠ []) :
    (dir n children rest).lookup (n :: path) = children.lookup path := by
  cases path with
  | nil => exact absurd rfl h
  | cons k ks => simp [lookup]

theorem lookup_dir_ne {n m : String} (h : m ≠ n) (children rest : Entries) (path : List String) :
    (dir n children rest).lookup (m :: path) = rest.lookup (m :: path) := by
  cases path with
  | nil => simp [lookup, h]
  | cons k ks => simp [lookup, h]

/-- A path that leads somewhere starts with a name of the directory. -/
theorem lookup_head {es : Entries} {m : String} {path : List String} {k : Kind}
    (h : es.lookup (m :: path) = some k) : ∃ item ∈ es.items, item.1 = m := by
  induction es generalizing path with
  | nil => cases h
  | leaf n l rest ih =>
      unfold lookup at h
      split at h
      · rename_i hpath
        exact ⟨_, List.mem_cons_self, (List.cons.inj hpath).1.symm⟩
      · obtain ⟨item, hitem, hname⟩ := ih h
        exact ⟨item, List.mem_cons_of_mem _ hitem, hname⟩
  | dir n children rest _ ih =>
      by_cases hm : m = n
      · exact ⟨_, List.mem_cons_self, hm.symm⟩
      · rw [lookup_dir_ne hm] at h
        obtain ⟨item, hitem, hname⟩ := ih h
        exact ⟨item, List.mem_cons_of_mem _ hitem, hname⟩

/-- A name that is less than all others leads nowhere among them. -/
theorem lookup_less {es : Entries} {n : String} (h : ∀ m ∈ es.items, n < m.1) (path : List String) :
    es.lookup (n :: path) = none := by
  cases hl : es.lookup (n :: path) with
  | none => rfl
  | some k =>
      obtain ⟨item, hitem, hname⟩ := lookup_head hl
      have hlt := h item hitem
      rw [hname] at hlt
      exact absurd hlt (lt_irrefl n)

/-- The entries of a directory are what its names lead to. -/
theorem mem_items {es : Entries} (h : es.WellFormed) {n : String} {k : Kind} :
    (n, k) ∈ es.items ↔ es.lookup [n] = some k := by
  induction es with
  | nil => simp [items, lookup]
  | leaf m l rest ih =>
      unfold items lookup
      by_cases hn : n = m
      · subst hn
        have hno : (n, k) ∉ rest.items := fun hmem => lt_irrefl n (h.2.1 _ hmem)
        simp [hno, eq_comm]
      · simp [hn, ih h.2.2]
  | dir m children rest _ ih =>
      unfold items lookup
      by_cases hn : n = m
      · subst hn
        have hno : (n, k) ∉ rest.items := fun hmem => lt_irrefl n (h.2.1 _ hmem)
        simp [hno, eq_comm]
      · simp [hn, ih h.2.2.2]

theorem items_nodup {es : Entries} (h : es.WellFormed) : (es.items.map Prod.fst).Nodup := by
  have hcons : ∀ {n : String} {k : Kind} {rest : Entries}, (∀ m ∈ rest.items, n < m.1) →
      (rest.items.map Prod.fst).Nodup → (((n, k) :: rest.items).map Prod.fst).Nodup := by
    intro n k rest hlt hnd
    rw [List.map_cons, List.nodup_cons]
    refine ⟨fun hmem => ?_, hnd⟩
    obtain ⟨item, hitem, hname⟩ := List.mem_map.mp hmem
    have hlt' := hlt item hitem
    rw [hname] at hlt'
    exact lt_irrefl n hlt'
  induction es with
  | nil => exact List.nodup_nil
  | leaf n l rest ih => exact hcons h.2.1 (ih h.2.2)
  | dir n children rest _ ih => exact hcons h.2.1 (ih h.2.2.2)

/-- Every path that leads somewhere is made of valid names. -/
theorem lookup_valid {es : Entries} (h : es.WellFormed) {path : List String} {k : Kind}
    (hl : es.lookup path = some k) : path ≠ [] ∧ ∀ p ∈ path, ValidName p := by
  induction es generalizing path with
  | nil => cases hl
  | leaf n l rest ih =>
      unfold lookup at hl
      split at hl
      · rename_i hpath
        subst hpath
        exact ⟨by simp, by simpa using h.1⟩
      · exact ih h.2.2 hl
  | dir n children rest ihc ih =>
      cases path with
      | nil => cases hl
      | cons m ms =>
          by_cases hm : m = n
          · subst hm
            by_cases hms : ms = []
            · subst hms
              exact ⟨by simp, by simpa using h.1⟩
            · rw [lookup_dir_self m children rest hms] at hl
              refine ⟨by simp, fun p hp => ?_⟩
              rcases List.mem_cons.mp hp with rfl | hp
              · exact h.1
              · exact (ihc h.2.2.1 hl).2 p hp
          · rw [lookup_dir_ne hm] at hl
            exact ih h.2.2.2 hl

end Entries

/-! ## §4. What the walk visits. -/

/-- The paths that the walk visits from a directory on. -/
def visitedIn (folder : List String) (entries : Entries) : List (List String × Kind) :=
  pathsIn folder entries ++ (subdirs folder entries).flatMap fun (f, es) => pathsIn f es

theorem visited_eq (root : Entries) : visited root = visitedIn [] root := by
  simp [visited, visitedIn, walk]

/-- The walk can get into the folder. -/
def Open (folder : List String) : Prop := ∀ p ∈ folder, ValidName p ∧ excluded p = false

theorem allowed_open {folder : List String} (hf : Open folder) {n : String} (hn : ValidName n) :
    allowed (joined (folder ++ [n])) = true ↔ excluded n = false := by
  have hvalid : ∀ p ∈ folder ++ [n], ValidName p := by
    intro p hp
    rcases List.mem_append.mp hp with hp | hp
    · exact (hf p hp).1
    · rw [List.mem_singleton.mp hp]
      exact hn
  rw [allowed_joined hvalid (by simp)]
  refine ⟨fun h => h n (by simp), fun h p hp => ?_⟩
  rcases List.mem_append.mp hp with hp | hp
  · exact (hf p hp).2
  · rw [List.mem_singleton.mp hp]
    exact h

theorem open_snoc {folder : List String} (hf : Open folder) {n : String} (hn : ValidName n)
    (he : excluded n = false) : Open (folder ++ [n]) := by
  intro p hp
  rcases List.mem_append.mp hp with hp | hp
  · exact hf p hp
  · rw [List.mem_singleton.mp hp]
    exact ⟨hn, he⟩

theorem visitedIn_leaf (folder : List String) (n : String) (l : Leaf) (rest : Entries) :
    visitedIn folder (.leaf n l rest) = (folder ++ [n], .leaf l) :: visitedIn folder rest := rfl

/-- A directory in front: its own path, what is below it, and the rest. -/
theorem visitedIn_dir (folder : List String) (n : String) (children rest : Entries) :
    (visitedIn folder (.dir n children rest)).Perm
      ((folder ++ [n], .dir) ::
        ((if allowed (joined (folder ++ [n])) then visitedIn (folder ++ [n]) children else []) ++
          visitedIn folder rest)) := by
  unfold visitedIn
  rw [subdirs]
  by_cases he : allowed (joined (folder ++ [n])) = true
  · rw [if_pos he, if_pos he, List.cons_append, List.flatMap_cons, List.flatMap_append]
    show List.Perm ((folder ++ [n], Kind.dir) :: (pathsIn folder rest ++ _)) _
    refine List.Perm.cons _ ?_
    rw [← List.append_assoc (pathsIn (folder ++ [n]) children)]
    exact List.perm_append_comm_assoc _ _ _
  · rw [if_neg he, if_neg he]
    exact List.Perm.refl _

theorem mem_visitedIn_dir {folder : List String} {n : String} {children rest : Entries}
    {x : List String × Kind} (hf : Open folder) (hn : ValidName n) :
    x ∈ visitedIn folder (.dir n children rest) ↔
      x = (folder ++ [n], .dir) ∨ (excluded n = false ∧ x ∈ visitedIn (folder ++ [n]) children) ∨
        x ∈ visitedIn folder rest := by
  rw [(visitedIn_dir folder n children rest).mem_iff, List.mem_cons, List.mem_append]
  have hallow := allowed_open hf hn
  by_cases he : excluded n = false
  · rw [if_pos (hallow.mpr he)]
    simp only [he, true_and]
  · rw [if_neg (fun h => he (hallow.mp h))]
    simp [he]

/-- **What the walk visits**: the paths whose directories are all allowed. -/
theorem mem_visitedIn {es : Entries} (h : es.WellFormed) {folder : List String} (hf : Open folder)
    {q : List String} {k : Kind} :
    (q, k) ∈ visitedIn folder es ↔
      ∃ path, q = folder ++ path ∧ es.lookup path = some k ∧ ∀ p ∈ path.dropLast, excluded p = false := by
  induction es generalizing folder q with
  | nil =>
      simp [visitedIn, pathsIn, subdirs, Entries.items, Entries.lookup]
  | leaf n l rest ih =>
      rw [visitedIn_leaf, List.mem_cons, ih h.2.2 hf]
      constructor
      · rintro (heq | ⟨path, rfl, hl, hp⟩)
        · obtain ⟨rfl, rfl⟩ := Prod.mk.inj heq
          exact ⟨[n], rfl, by simp [Entries.lookup], by simp⟩
        · refine ⟨path, rfl, ?_, hp⟩
          have hne : path ≠ [n] := by
            rintro rfl
            rw [Entries.lookup_less h.2.1] at hl
            cases hl
          rw [Entries.lookup, if_neg hne, hl]
      · rintro ⟨path, rfl, hl, hp⟩
        rw [Entries.lookup] at hl
        split at hl
        · rename_i hpath
          subst hpath
          exact .inl (by rw [← Option.some.inj hl])
        · exact .inr ⟨path, rfl, hl, hp⟩
  | dir n children rest ihc ih =>
      rw [mem_visitedIn_dir hf h.1, ih h.2.2.2 hf]
      constructor
      · rintro (heq | ⟨he, hmem⟩ | ⟨path, rfl, hl, hp⟩)
        · obtain ⟨rfl, rfl⟩ := Prod.mk.inj heq
          exact ⟨[n], rfl, by simp [Entries.lookup], by simp⟩
        · obtain ⟨path, rfl, hl, hp⟩ := (ihc h.2.2.1 (open_snoc hf h.1 he)).mp hmem
          have hne := (Entries.lookup_valid h.2.2.1 hl).1
          refine ⟨n :: path, by simp, ?_, fun p hp' => ?_⟩
          · rw [Entries.lookup_dir_self n children rest hne, hl]
          · rw [List.dropLast_cons_of_ne_nil hne] at hp'
            rcases List.mem_cons.mp hp' with rfl | hp'
            · exact he
            · exact hp p hp'
        · refine ⟨path, rfl, ?_, hp⟩
          cases path with
          | nil => simp at hl
          | cons m ms =>
              have hm : m ≠ n := by
                rintro rfl
                rw [Entries.lookup_less h.2.1] at hl
                cases hl
              rw [Entries.lookup_dir_ne hm, hl]
      · rintro ⟨path, rfl, hl, hp⟩
        cases path with
        | nil => simp at hl
        | cons m ms =>
            by_cases hm : m = n
            · subst hm
              by_cases hms : ms = []
              · subst hms
                exact .inl (by simpa [Entries.lookup, eq_comm] using hl)
              · rw [Entries.lookup_dir_self m children rest hms] at hl
                rw [List.dropLast_cons_of_ne_nil hms] at hp
                have he : excluded m = false := hp m List.mem_cons_self
                refine .inr (.inl ⟨he, (ihc h.2.2.1 (open_snoc hf h.1 he)).mpr ⟨ms, by simp, hl, ?_⟩⟩)
                exact fun p hp' => hp p (List.mem_cons_of_mem _ hp')
            · rw [Entries.lookup_dir_ne hm] at hl
              exact .inr (.inr ⟨m :: ms, rfl, hl, hp⟩)

theorem mem_visited (root : Tree) {path : List String} {k : Kind} :
    (path, k) ∈ visited root.entries ↔
      root.entries.lookup path = some k ∧ ∀ p ∈ path.dropLast, excluded p = false := by
  rw [visited_eq, mem_visitedIn root.wellFormed (fun p hp => by cases hp)]
  constructor
  · rintro ⟨path', rfl, hl, hp⟩
    exact ⟨hl, hp⟩
  · rintro ⟨hl, hp⟩
    exact ⟨path, rfl, hl, hp⟩

/-- A path of the walk below a folder starts with a name of that folder. -/
theorem visitedIn_head {es : Entries} (h : es.WellFormed) {folder : List String} (hf : Open folder)
    {x : List String × Kind} (hx : x ∈ visitedIn folder es) :
    ∃ m path, x.1 = folder ++ m :: path ∧ ∃ item ∈ es.items, item.1 = m := by
  obtain ⟨path, hq, hl, _⟩ := (mem_visitedIn (q := x.1) (k := x.2) h hf).mp hx
  cases path with
  | nil => simp at hl
  | cons m ms => exact ⟨m, ms, hq, Entries.lookup_head hl⟩

/-- Each path is looked at once. -/
theorem visitedIn_nodup {es : Entries} (h : es.WellFormed) {folder : List String} (hf : Open folder) :
    ((visitedIn folder es).map Prod.fst).Nodup := by
  induction es generalizing folder with
  | nil => simp [visitedIn, pathsIn, subdirs, Entries.items]
  | leaf n l rest ih =>
      rw [visitedIn_leaf, List.map_cons, List.nodup_cons]
      refine ⟨fun hmem => ?_, ih h.2.2 hf⟩
      obtain ⟨x, hx, hpath⟩ := List.mem_map.mp hmem
      obtain ⟨m, path, hxp, item, hitem, rfl⟩ := visitedIn_head h.2.2 hf hx
      rw [hxp] at hpath
      have hnm := (List.cons.inj (List.append_cancel_left hpath)).1
      exact lt_irrefl n (hnm ▸ h.2.1 item hitem)
  | dir n children rest ihc ih =>
      rw [((visitedIn_dir folder n children rest).map Prod.fst).nodup_iff, List.map_cons,
        List.nodup_cons, List.map_append, List.nodup_append]
      have hrest : ∀ x ∈ visitedIn folder rest, ∃ m path, x.1 = folder ++ m :: path ∧ m ≠ n := by
        intro x hx
        obtain ⟨m, path, hxp, item, hitem, rfl⟩ := visitedIn_head h.2.2.2 hf hx
        exact ⟨item.1, path, hxp, (h.2.1 item hitem).ne'⟩
      have hbelow : ∀ x ∈ (if allowed (joined (folder ++ [n])) then visitedIn (folder ++ [n]) children
          else []), ∃ m path, x.1 = folder ++ n :: m :: path := by
        intro x hx
        split at hx
        · rename_i he
          have he' := (allowed_open hf h.1).mp he
          obtain ⟨m, path, hxp, _⟩ := visitedIn_head h.2.2.1 (open_snoc hf h.1 he') hx
          exact ⟨m, path, by rw [hxp]; simp⟩
        · cases hx
      refine ⟨fun hmem => ?_, ?_, ih h.2.2.2 hf, ?_⟩
      · rcases List.mem_append.mp hmem with hmem | hmem
        · obtain ⟨x, hx, hpath⟩ := List.mem_map.mp hmem
          obtain ⟨m, path, hxp⟩ := hbelow x hx
          rw [hxp] at hpath
          exact absurd (List.append_cancel_left hpath) (by simp)
        · obtain ⟨x, hx, hpath⟩ := List.mem_map.mp hmem
          obtain ⟨m, path, hxp, hm⟩ := hrest x hx
          rw [hxp] at hpath
          exact hm (List.cons.inj (List.append_cancel_left hpath)).1
      · split
        · rename_i he
          exact ihc h.2.2.1 (open_snoc hf h.1 ((allowed_open hf h.1).mp he))
        · exact List.nodup_nil
      · intro a ha b hb hab
        obtain ⟨x, hx, rfl⟩ := List.mem_map.mp ha
        obtain ⟨y, hy, rfl⟩ := List.mem_map.mp hb
        obtain ⟨m, path, hxp⟩ := hbelow x hx
        obtain ⟨m', path', hyp, hm'⟩ := hrest y hy
        rw [hxp, hyp] at hab
        exact hm' (List.cons.inj (List.append_cancel_left hab)).1.symm

theorem visited_nodup (root : Tree) : ((visited root.entries).map Prod.fst).Nodup := by
  rw [visited_eq]
  exact visitedIn_nodup root.wellFormed fun p hp => by cases hp

/-! ## §5. Extracting one file. -/

namespace Entries

/-- New directories down to a new file, in front of `rest`. -/
def fresh : List String → Bytes → Entries → Entries
  | [], _, rest => rest
  | [c], data, rest => leaf c (.file data) rest
  | c :: k :: path, data, rest => dir c (fresh (k :: path) data nil) rest

/-- `os.makedirs(upperdirs)` and `open(path, 'wb')`.  A file in place of a
directory, a directory in place of the file and the root itself are errors;
so are links and devices, none of which exists in a cleared directory. -/
def writeFile : Entries → List String → Bytes → Except Exc Entries
  | _, [], _ => .error .other
  | nil, c :: path, data => .ok (fresh (c :: path) data nil)
  | leaf n l rest, c :: path, data =>
      if c < n then .ok (fresh (c :: path) data (leaf n l rest))
      else if c = n then
        match path, l with
        | [], .file _ => .ok (leaf n (.file data) rest)
        | _, _ => .error .other
      else (rest.writeFile (c :: path) data).map (leaf n l)
  | dir n children rest, c :: path, data =>
      if c < n then .ok (fresh (c :: path) data (dir n children rest))
      else if c = n then
        match path with
        | [] => .error .other
        | k :: path => (children.writeFile (k :: path) data).map fun ch => dir n ch rest
      else (rest.writeFile (c :: path) data).map (dir n children)

/-- What paths lead to after the file at `path` was written. -/
def overlay (path : List String) (data : Bytes) (old : List String → Option Kind)
    (q : List String) : Option Kind :=
  if q = path then some (.leaf (.file data))
  else if q ≠ [] ∧ q <+: path then some .dir
  else old q

theorem fresh_items {c : String} (path : List String) (data : Bytes) (rest : Entries) :
    ∃ k, (fresh (c :: path) data rest).items = (c, k) :: rest.items := by
  cases path with
  | nil => exact ⟨_, rfl⟩
  | cons k ks => exact ⟨_, rfl⟩

theorem fresh_wellFormed : ∀ {path : List String} {data : Bytes} {rest : Entries},
    (∀ p ∈ path, ValidName p) → rest.WellFormed →
      (∀ c, path.head? = some c → ∀ m ∈ rest.items, c < m.1) → (fresh path data rest).WellFormed
  | [], _, _, _, hrest, _ => hrest
  | [c], _, _, hvalid, hrest, hlt => ⟨hvalid c (by simp), hlt c rfl, hrest⟩
  | c :: k :: path, data, _, hvalid, hrest, hlt => by
      refine ⟨hvalid c (by simp), hlt c rfl, ?_, hrest⟩
      exact fresh_wellFormed (fun p hp => hvalid p (List.mem_cons_of_mem c hp)) trivial
        fun _ _ m hm => by cases hm

theorem lookup_fresh : ∀ (path : List String) (data : Bytes) (rest : Entries) (q : List String),
    path ≠ [] → (∀ c, path.head? = some c → ∀ m ∈ rest.items, c < m.1) →
      (fresh path data rest).lookup q = overlay path data rest.lookup q
  | [], _, _, _, h, _ => absurd rfl h
  | [c], data, rest, q, _, _ => by
      unfold fresh lookup overlay
      by_cases hq : q = [c]
      · rw [if_pos hq, if_pos hq]
      · rw [if_neg hq, if_neg hq, if_neg]
        rintro ⟨hne, hpre⟩
        cases q with
        | nil => exact hne rfl
        | cons m ms =>
            obtain ⟨rfl, hms⟩ := List.cons_prefix_cons.mp hpre
            exact hq (by rw [List.prefix_nil.mp hms])
  | c :: k :: path, data, rest, q, _, hlt => by
      cases q with
      | nil => simp [overlay]
      | cons m ms =>
          show (dir c (fresh (k :: path) data nil) rest).lookup (m :: ms) = _
          by_cases hm : m = c
          · subst hm
            have hless := lookup_less (hlt m rfl)
            by_cases hms : ms = []
            · subst hms
              simp [lookup, overlay]
            · rw [lookup_dir_self m _ rest hms, lookup_fresh (k :: path) data nil ms (by simp)
                fun _ _ x hx => by cases hx]
              simp [overlay, hless, hms, lookup]
          · rw [lookup_dir_ne hm]
            simp [overlay, hm]

/-- Nothing is in the way of a file at `path`. -/
def Clear (es : Entries) (path : List String) : Prop :=
  (∀ q, q <+: path → q ≠ path → es.lookup q = none ∨ es.lookup q = some .dir) ∧
    (es.lookup path = none ∨ ∃ data, es.lookup path = some (.leaf (.file data)))

theorem Clear.rest {es rest : Entries} {c : String} {path : List String}
    (h : es.Clear (c :: path)) (heq : ∀ q, es.lookup (c :: q) = rest.lookup (c :: q)) :
    rest.Clear (c :: path) := by
  refine ⟨fun q hq hne => ?_, by rw [← heq]; exact h.2⟩
  cases q with
  | nil => exact .inl (lookup_nil_path rest)
  | cons m ms =>
      obtain ⟨rfl, _⟩ := List.cons_prefix_cons.mp hq
      rw [← heq]
      exact h.1 _ hq hne

theorem overlay_rest {path q : List String} {data : Bytes} {old old' : List String → Option Kind}
    (h : q ≠ path → (q = [] ∨ ¬ q <+: path) → old q = old' q) :
    overlay path data old q = overlay path data old' q := by
  unfold overlay
  by_cases hq : q = path
  · rw [if_pos hq, if_pos hq]
  · rw [if_neg hq, if_neg hq]
    by_cases hpre : q ≠ [] ∧ q <+: path
    · rw [if_pos hpre, if_pos hpre]
    · rw [if_neg hpre, if_neg hpre]
      refine h hq ?_
      by_cases hnil : q = []
      · exact .inl hnil
      · exact .inr fun hp => hpre ⟨hnil, hp⟩

/-- A new file in front of all others. -/
theorem lookup_front {es : Entries} (h : es.WellFormed) {c : String} {path : List String}
    (hvalid : ∀ p ∈ c :: path, ValidName p) (hlt : ∀ m ∈ es.items, c < m.1) (data : Bytes) :
    (fresh (c :: path) data es).WellFormed ∧
      (∀ q, (fresh (c :: path) data es).lookup q = overlay (c :: path) data es.lookup q) ∧
      ∀ m ∈ (fresh (c :: path) data es).items, m.1 = c ∨ ∃ m' ∈ es.items, m'.1 = m.1 := by
  have hhead : ∀ d, (c :: path).head? = some d → ∀ m ∈ es.items, d < m.1 := by
    intro d hd
    rw [← Option.some.inj hd]
    exact hlt
  refine ⟨fresh_wellFormed hvalid h hhead, fun q => lookup_fresh _ data es q (by simp) hhead, ?_⟩
  intro m hm
  obtain ⟨k, hitems⟩ := @fresh_items c path data es
  rw [hitems] at hm
  rcases List.mem_cons.mp hm with rfl | hm
  · exact .inl rfl
  · exact .inr ⟨m, hm, rfl⟩

/-- **Extraction of one file**: it succeeds when nothing is in the way, and
changes the file and the directories above it. -/
theorem lookup_writeFile {es : Entries} (h : es.WellFormed) {c : String} {path : List String}
    (hvalid : ∀ p ∈ c :: path, ValidName p) (hclear : es.Clear (c :: path)) (data : Bytes) :
    ∃ es', es.writeFile (c :: path) data = .ok es' ∧ es'.WellFormed ∧
      (∀ q, es'.lookup q = overlay (c :: path) data es.lookup q) ∧
      ∀ m ∈ es'.items, m.1 = c ∨ ∃ m' ∈ es.items, m'.1 = m.1 := by
  induction es generalizing c path with
  | nil =>
      obtain ⟨h1, h2, h3⟩ := @lookup_front nil trivial c path hvalid (fun m hm => by cases hm) data
      exact ⟨_, rfl, h1, h2, h3⟩
  | leaf n l rest ih =>
      unfold writeFile
      by_cases hlt : c < n
      · rw [if_pos hlt]
        have hless : ∀ m ∈ (leaf n l rest).items, c < m.1 := by
          intro m hm
          rcases List.mem_cons.mp hm with rfl | hm
          · exact hlt
          · exact lt_trans hlt (h.2.1 m hm)
        obtain ⟨h1, h2, h3⟩ := lookup_front h hvalid hless data
        exact ⟨_, rfl, h1, h2, h3⟩
      · rw [if_neg hlt]
        by_cases hcn : c = n
        · subst hcn
          rw [if_pos rfl]
          -- the name is taken by a file, and it is the file to write
          have hself : (leaf c l rest).lookup [c] = some (.leaf l) := by simp [lookup]
          cases path with
          | cons k ks =>
              have hpre : [c] <+: c :: k :: ks := ⟨k :: ks, rfl⟩
              rcases hclear.1 [c] hpre (by simp) with hno | hno <;> rw [hself] at hno <;> simp at hno
          | nil =>
              rcases hclear.2 with hno | ⟨old, hno⟩
              · rw [hself] at hno
                cases hno
              · rw [hself] at hno
                simp only [Option.some.injEq, Kind.leaf.injEq] at hno
                subst hno
                refine ⟨leaf c (.file data) rest, rfl, h, fun q => ?_, fun m hm => ?_⟩
                · unfold overlay
                  by_cases hq : q = [c]
                  · simp [lookup, hq]
                  · rw [if_neg hq]
                    cases q with
                    | nil => simp [lookup]
                    | cons m ms =>
                        have hpre : ¬ (m :: ms ≠ [] ∧ m :: ms <+: [c]) := by
                          rintro ⟨_, hp⟩
                          obtain ⟨rfl, hms⟩ := List.cons_prefix_cons.mp hp
                          exact hq (by rw [List.prefix_nil.mp hms])
                        rw [if_neg hpre]
                        simp [lookup, hq]
                · rcases List.mem_cons.mp hm with rfl | hm
                  · exact .inl rfl
                  · exact .inr ⟨m, List.mem_cons_of_mem _ hm, rfl⟩
        · rw [if_neg hcn]
          have hne : ∀ q, (leaf n l rest).lookup (c :: q) = rest.lookup (c :: q) := fun q => by
            rw [lookup, if_neg (fun hh => hcn (List.cons.inj hh).1)]
          obtain ⟨es', hwrite, hwf, hlook, hitems⟩ := ih h.2.2 hvalid (hclear.rest hne)
          have hcn' : n < c := lt_of_le_of_ne (not_lt.mp hlt) fun hh => hcn hh.symm
          rw [hwrite]
          refine ⟨leaf n l es', rfl, ⟨h.1, fun m hm => ?_, hwf⟩, fun q => ?_, fun m hm => ?_⟩
          · rcases hitems m hm with hmc | ⟨m', hm', hmm⟩
            · rw [hmc]
              exact hcn'
            · rw [← hmm]
              exact h.2.1 m' hm'
          · rw [lookup]
            by_cases hq : q = [n]
            · subst hq
              have hpre : ¬ [n] <+: c :: path := fun hp => hcn (List.cons_prefix_cons.mp hp).1.symm
              have hne' : [n] ≠ c :: path := fun hh => hcn (List.cons.inj hh).1.symm
              simp [overlay, hpre, hne', lookup]
            · rw [if_neg hq, hlook]
              refine overlay_rest fun _ _ => ?_
              rw [lookup, if_neg hq]
          · rcases List.mem_cons.mp hm with rfl | hm
            · exact .inr ⟨_, List.mem_cons_self, rfl⟩
            · rcases hitems m hm with hmc | ⟨m', hm', hmm⟩
              · exact .inl hmc
              · exact .inr ⟨m', List.mem_cons_of_mem _ hm', hmm⟩
  | dir n children rest ihc ih =>
      unfold writeFile
      by_cases hlt : c < n
      · rw [if_pos hlt]
        have hless : ∀ m ∈ (dir n children rest).items, c < m.1 := by
          intro m hm
          rcases List.mem_cons.mp hm with rfl | hm
          · exact hlt
          · exact lt_trans hlt (h.2.1 m hm)
        obtain ⟨h1, h2, h3⟩ := lookup_front h hvalid hless data
        exact ⟨_, rfl, h1, h2, h3⟩
      · rw [if_neg hlt]
        by_cases hcn : c = n
        · subst hcn
          rw [if_pos rfl]
          cases path with
          | nil =>
              have hself : (dir c children rest).lookup [c] = some .dir := by simp [lookup]
              rcases hclear.2 with hno | ⟨old, hno⟩ <;> rw [hself] at hno <;> simp at hno
          | cons k ks =>
              have hbelow : children.Clear (k :: ks) := by
                refine ⟨fun q hq hne => ?_, ?_⟩
                · cases q with
                  | nil => exact .inl (lookup_nil_path children)
                  | cons m ms =>
                      have := hclear.1 (c :: m :: ms) (List.cons_prefix_cons.mpr ⟨rfl, hq⟩)
                        fun hh => hne (List.cons.inj hh).2
                      rwa [lookup_dir_self c children rest (by simp)] at this
                · have := hclear.2
                  rwa [lookup_dir_self c children rest (by simp)] at this
              obtain ⟨es', hwrite, hwf, hlook, _⟩ :=
                ihc h.2.2.1 (fun p hp => hvalid p (List.mem_cons_of_mem c hp)) hbelow
              dsimp only
              rw [hwrite]
              refine ⟨dir c es' rest, rfl, ⟨h.1, h.2.1, hwf, h.2.2.2⟩, fun q => ?_, fun m hm => ?_⟩
              · cases q with
                | nil => simp [overlay]
                | cons m ms =>
                    by_cases hm : m = c
                    · subst hm
                      by_cases hms : ms = []
                      · subst hms
                        simp [lookup, overlay]
                      · rw [lookup_dir_self m es' rest hms, hlook]
                        simp [overlay, hms, lookup_dir_self m children rest hms]
                    · rw [lookup_dir_ne hm]
                      simp [overlay, hm, lookup_dir_ne hm]
              · exact .inr ⟨m, hm, rfl⟩
        · rw [if_neg hcn]
          have hne : ∀ q, (dir n children rest).lookup (c :: q) = rest.lookup (c :: q) :=
            fun q => lookup_dir_ne hcn children rest q
          obtain ⟨es', hwrite, hwf, hlook, hitems⟩ := ih h.2.2.2 hvalid (hclear.rest hne)
          have hcn' : n < c := lt_of_le_of_ne (not_lt.mp hlt) fun hh => hcn hh.symm
          rw [hwrite]
          refine ⟨dir n children es', rfl, ⟨h.1, fun m hm => ?_, h.2.2.1, hwf⟩, fun q => ?_, fun m hm => ?_⟩
          · rcases hitems m hm with hmc | ⟨m', hm', hmm⟩
            · rw [hmc]
              exact hcn'
            · rw [← hmm]
              exact h.2.1 m' hm'
          · cases q with
            | nil => simp [overlay]
            | cons m ms =>
                by_cases hm : m = n
                · subst hm
                  have hcm : m ≠ c := fun hh => hcn hh.symm
                  cases ms with
                  | nil => simp [overlay, hcm, lookup]
                  | cons k ks => simp [overlay, hcm, lookup]
                · rw [lookup_dir_ne hm, hlook]
                  refine overlay_rest fun _ _ => ?_
                  rw [lookup_dir_ne hm]
          · rcases List.mem_cons.mp hm with rfl | hm
            · exact .inr ⟨_, List.mem_cons_self, rfl⟩
            · rcases hitems m hm with hmc | ⟨m', hm', hmm⟩
              · exact .inl hmc
              · exact .inr ⟨m', List.mem_cons_of_mem _ hm', hmm⟩

end Entries

end WebBuilder.Archive
