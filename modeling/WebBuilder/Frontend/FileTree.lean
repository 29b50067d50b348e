/-
  WebBuilder.Frontend.FileTree — the tree of the saved files.

  `buildFileTree` of `lib/files/tree.ts`.  Every path of a manifest is followed
  from the root; on each level the first node of that name is taken, or made at
  the end.  A node without children leaves the cursor on its level, so a path
  below a file would end up beside it.  The archive has no such paths: no file
  of a manifest is a directory of another.

  Main results:
    * `addPath_spec` — one path that is apart from the others is added;
    * `prefixFree_manifest` — the files of a manifest are apart;
    * `savedFiles_tree` — the tree has exactly the saved files.
-/
import WebBuilder.Archive.Restore

namespace WebBuilder.Frontend.FileTree

open WebBuilder.Archive (components joined)

/-! ## §1. `buildFileTree`. -/

inductive FileNode where
  /-- `children` is `undefined`. -/
  | leaf (name path : String) (isDirectory : Bool)
  | branch (name path : String) (isDirectory : Bool) (children : List FileNode)

def FileNode.name : FileNode → String
  | leaf name _ _ => name
  | branch name _ _ _ => name

/-- `existingNode.children = children`. -/
def FileNode.withChildren (children : List FileNode) : FileNode → FileNode
  | leaf name path isDirectory => leaf name path isDirectory
  | branch name path isDirectory _ => branch name path isDirectory children

/-- The first node of that name gets these children. -/
def setChildren (name : String) (children : List FileNode) : List FileNode → List FileNode
  | [] => []
  | node :: nodes =>
      if node.name = name then node.withChildren children :: nodes else node :: setChildren name children nodes

/-- The loop over the parts of a path, from `index` on: the level of the
cursor afterwards. -/
def addParts (currentLevel : List FileNode) (currentPath : String) (index : Nat) : List String → List FileNode
  | [] => currentLevel
  | part :: parts =>
      let currentPath := currentPath ++ (if index = 0 then "" else "/") ++ part
      match currentLevel.find? fun node => node.name = part with
      | none =>
          if parts = [] then currentLevel ++ [.leaf part currentPath false]
          else currentLevel ++ [.branch part currentPath true (addParts [] currentPath (index + 1) parts)]
      | some (.leaf _ _ _) =>
          -- no children: the cursor stays
          if parts = [] then currentLevel else addParts currentLevel currentPath (index + 1) parts
      | some (.branch _ _ _ children) =>
          if parts = [] then currentLevel
          else setChildren part (addParts children currentPath (index + 1) parts) currentLevel

/-- The callback of `forEach`. -/
def addPath (root : List FileNode) (filePath : String) : List FileNode := addParts root "" 0 (components filePath)

def buildFileTree (files : List String) : List FileNode := files.foldl addPath []

/-! ## §2. What a tree says. -/

/-- The path of a node below `parent`. -/
def nodePath (parent : Option String) (name : String) : String :=
  match parent with
  | none => name
  | some parent => parent ++ "/" ++ name

mutual

/-- The paths of the leaves, depth first. -/
def FileNode.leaves : FileNode → List String
  | .leaf _ path _ => [path]
  | .branch _ _ _ children => flatten children

def flatten : List FileNode → List String
  | [] => []
  | node :: nodes => node.leaves ++ flatten nodes

end

mutual

/-- The path continues that of the parent; a directory has children, and a
file has none. -/
def FileNode.Proper (parent : Option String) : FileNode → Prop
  | .leaf name path isDirectory => path = nodePath parent name ∧ isDirectory = false
  | .branch name path isDirectory children =>
      path = nodePath parent name ∧ isDirectory = true ∧ children ≠ [] ∧ ProperLevel (some path) children

/-- So on a whole level, whose names are distinct. -/
def ProperLevel (parent : Option String) : List FileNode → Prop
  | [] => True
  | node :: nodes => node.Proper parent ∧ node.name ∉ nodes.map FileNode.name ∧ ProperLevel parent nodes

end

/-- The tree has exactly these files. -/
structure Represents (files : List String) (tree : List FileNode) : Prop where
  leaves : (flatten tree).Perm files
  proper : ProperLevel none tree

/-! ## §3. Trees as sets of paths. -/

mutual

/-- The paths below the parent, as lists of parts. -/
def FileNode.entries : FileNode → List (List String)
  | .leaf name _ _ => [[name]]
  | .branch name _ _ children => (levelEntries children).map (name :: ·)

def levelEntries : List FileNode → List (List String)
  | [] => []
  | node :: nodes => node.entries ++ levelEntries nodes

end

/-- How the parts below `parent` are spelled. -/
def spell (parent : Option String) : List String → String
  | [] => parent.getD ""
  | part :: parts => spell (some (nodePath parent part)) parts

theorem levelEntries_append (nodes more : List FileNode) :
    levelEntries (nodes ++ more) = levelEntries nodes ++ levelEntries more := by
  induction nodes with
  | nil => rfl
  | cons node nodes ih =>
      show node.entries ++ levelEntries (nodes ++ more) = (node.entries ++ levelEntries nodes) ++ levelEntries more
      rw [ih, List.append_assoc]

theorem properLevel_append {parent : Option String} {nodes more : List FileNode} :
    ProperLevel parent (nodes ++ more) ↔ ProperLevel parent nodes ∧ ProperLevel parent more ∧
      ∀ node ∈ nodes, node.name ∉ more.map FileNode.name := by
  induction nodes with
  | nil => simp [ProperLevel]
  | cons node nodes ih =>
      rw [List.cons_append, ProperLevel, ProperLevel, ih, List.map_append, List.mem_append, not_or,
        List.forall_mem_cons]
      tauto

mutual

/-- **The leaves are the entries**, spelled out. -/
theorem FileNode.leaves_eq {parent : Option String} : ∀ {node : FileNode}, node.Proper parent →
    node.leaves = node.entries.map (spell parent)
  | .leaf name path isDirectory, h => by
      rw [FileNode.Proper] at h
      show [path] = [spell parent [name]]
      rw [h.1]
      rfl
  | .branch name path isDirectory children, h => by
      rw [FileNode.Proper] at h
      show flatten children = ((levelEntries children).map (name :: ·)).map (spell parent)
      rw [flatten_eq h.2.2.2, List.map_map, h.1]
      rfl

theorem flatten_eq {parent : Option String} : ∀ {level : List FileNode}, ProperLevel parent level →
    flatten level = (levelEntries level).map (spell parent)
  | [], _ => rfl
  | node :: nodes, h => by
      rw [ProperLevel] at h
      show node.leaves ++ flatten nodes = (node.entries ++ levelEntries nodes).map (spell parent)
      rw [List.map_append, FileNode.leaves_eq h.1, flatten_eq h.2.2]

end

mutual

/-- Every node has a file below it. -/
theorem FileNode.entries_ne_nil {parent : Option String} : ∀ {node : FileNode}, node.Proper parent → node.entries ≠ []
  | .leaf name path isDirectory, _ => List.cons_ne_nil _ _
  | .branch name path isDirectory children, h => by
      rw [FileNode.Proper] at h
      show (levelEntries children).map (name :: ·) ≠ []
      rw [Ne, List.map_eq_nil_iff]
      exact levelEntries_ne_nil h.2.2.2 h.2.2.1

theorem levelEntries_ne_nil {parent : Option String} : ∀ {level : List FileNode}, ProperLevel parent level →
    level ≠ [] → levelEntries level ≠ []
  | [], _, hne => absurd rfl hne
  | node :: nodes, h, _ => by
      rw [ProperLevel] at h
      show node.entries ++ levelEntries nodes ≠ []
      exact List.append_ne_nil_of_left_ne_nil (FileNode.entries_ne_nil h.1) _

end

/-! ## §4. One path. -/

/-- Neither of the two paths is a directory of the other, and they differ. -/
def Apart (a b : List String) : Prop := ¬ a <+: b ∧ ¬ b <+: a

theorem Apart.symm {a b : List String} (h : Apart a b) : Apart b a := ⟨h.2, h.1⟩

theorem Apart.tail {part : String} {a b : List String} (h : Apart (part :: a) (part :: b)) : Apart a b :=
  ⟨fun hab => h.1 (List.cons_prefix_cons.mpr ⟨rfl, hab⟩), fun hba => h.2 (List.cons_prefix_cons.mpr ⟨rfl, hba⟩)⟩

theorem mem_levelEntries {level : List FileNode} {entry : List String} :
    entry ∈ levelEntries level ↔ ∃ node ∈ level, entry ∈ node.entries := by
  induction level with
  | nil => simp [levelEntries]
  | cons node nodes ih =>
      rw [levelEntries, List.mem_append, ih]
      simp

/-- A node is found at the place of its name. -/
theorem find_split {level : List FileNode} {part : String} {node : FileNode}
    (h : level.find? (fun node => node.name = part) = some node) :
    ∃ before after, level = before ++ node :: after ∧ node.name = part ∧ ∀ other ∈ before, other.name ≠ part := by
  obtain ⟨hname, before, after, rfl, hbefore⟩ := List.find?_eq_some_iff_append.mp h
  refine ⟨before, after, rfl, of_decide_eq_true hname, fun other hother => ?_⟩
  have hne := hbefore other hother
  rw [Bool.not_eq_true', decide_eq_false_iff_not] at hne
  exact hne

theorem setChildren_split {before after : List FileNode} {node : FileNode} {part : String} {children : List FileNode}
    (hname : node.name = part) (hbefore : ∀ other ∈ before, other.name ≠ part) :
    setChildren part children (before ++ node :: after) = before ++ node.withChildren children :: after := by
  induction before with
  | nil => exact if_pos hname
  | cons other before ih =>
      show (if other.name = part then _ else other :: setChildren part children (before ++ node :: after)) = _
      rw [if_neg (hbefore other List.mem_cons_self), ih fun x hx => hbefore x (List.mem_cons_of_mem _ hx)]
      rfl

/-- A new node at the end of a level. -/
theorem properLevel_push {parent : Option String} {level : List FileNode} {node : FileNode}
    (h : ProperLevel parent level) (hnode : node.Proper parent) (hnew : ∀ other ∈ level, other.name ≠ node.name) :
    ProperLevel parent (level ++ [node]) := by
  rw [properLevel_append]
  refine ⟨h, ?_, fun other hother hmem => ?_⟩
  · rw [ProperLevel, ProperLevel]
    exact ⟨hnode, List.not_mem_nil, trivial⟩
  · rw [List.map_singleton, List.mem_singleton] at hmem
    exact hnew other hother hmem

/-- **One path is added** to a level, if it is apart from all that are there. -/
theorem addParts_spec {parts : List String} (hne : parts ≠ []) :
    ∀ {parent : Option String} {level : List FileNode} {currentPath : String} {index : Nat},
      (∀ part, currentPath ++ (if index = 0 then "" else "/") ++ part = nodePath parent part) →
      ProperLevel parent level → (∀ entry ∈ levelEntries level, Apart parts entry) →
      ProperLevel parent (addParts level currentPath index parts) ∧
        (levelEntries (addParts level currentPath index parts)).Perm (parts :: levelEntries level) := by
  induction parts with
  | nil => exact absurd rfl hne
  | cons part parts ih =>
      intro parent level currentPath index hpath hlevel hapart
      have hnext : ∀ next, nodePath parent part ++ (if index + 1 = 0 then "" else "/") ++ next
          = nodePath (some (nodePath parent part)) next := fun next => rfl
      unfold addParts
      dsimp only
      rw [hpath part]
      cases hfind : level.find? fun node => node.name = part with
      | none =>
          have hnew : ∀ other ∈ level, other.name ≠ part := by
            intro other hother
            have hno := List.find?_eq_none.mp hfind other hother
            rw [decide_eq_true_eq] at hno
            exact hno
          by_cases hlast : parts = []
          · dsimp only
            rw [if_pos hlast, hlast]
            refine ⟨properLevel_push hlevel ?_ hnew, ?_⟩
            · rw [FileNode.Proper]
              exact ⟨rfl, rfl⟩
            · rw [levelEntries_append]
              exact List.perm_append_comm
          · dsimp only
            rw [if_neg hlast]
            have hempty : ProperLevel (some (nodePath parent part)) [] := by rw [ProperLevel]; trivial
            obtain ⟨hproper, hperm⟩ := ih hlast hnext hempty fun entry hentry => absurd hentry List.not_mem_nil
            refine ⟨properLevel_push hlevel ?_ hnew, ?_⟩
            · rw [FileNode.Proper]
              refine ⟨rfl, rfl, fun hnil => ?_, hproper⟩
              rw [hnil] at hperm
              exact absurd hperm.length_eq (Nat.zero_ne_add_one _)
            · rw [levelEntries_append]
              refine List.perm_append_comm.trans ?_
              show ((levelEntries _).map (part :: ·) ++ [] ++ levelEntries level).Perm _
              rw [List.append_nil]
              exact (hperm.map (part :: ·)).append_right (levelEntries level)
      | some node =>
          obtain ⟨before, after, rfl, hname, hbefore⟩ := find_split hfind
          have hmem : ∀ entry ∈ node.entries, Apart (part :: parts) entry := fun entry hentry =>
            hapart entry (mem_levelEntries.mpr ⟨node, by simp, hentry⟩)
          obtain ⟨hproperBefore, hproperNode, hdistinct⟩ := properLevel_append.mp hlevel
          rw [ProperLevel] at hproperNode
          obtain ⟨hnode, hnotafter, hafter⟩ := hproperNode
          cases node with
          | leaf name path isDirectory =>
              -- a file would be a directory of the new path
              obtain rfl : name = part := hname
              exact absurd (List.cons_prefix_cons.mpr ⟨rfl, List.nil_prefix⟩) (hmem [name] List.mem_cons_self).2
          | branch name path isDirectory children =>
              obtain rfl : name = part := hname
              rw [FileNode.Proper] at hnode
              obtain ⟨rfl, hdirectory, hchildren, hbelow⟩ := hnode
              by_cases hlast : parts = []
              · -- the new path would be a directory of a file
                obtain ⟨entry, hentry⟩ := List.exists_mem_of_ne_nil _ (levelEntries_ne_nil hbelow hchildren)
                have hbad := hmem (name :: entry) (List.mem_map_of_mem hentry)
                rw [hlast] at hbad
                exact absurd (List.cons_prefix_cons.mpr ⟨rfl, List.nil_prefix⟩) hbad.1
              · dsimp only
                rw [if_neg hlast,
                  setChildren_split (show (FileNode.branch name _ isDirectory children).name = name from rfl) hbefore]
                obtain ⟨hproper, hperm⟩ := ih hlast hnext hbelow fun entry hentry =>
                  (hmem (name :: entry) (List.mem_map_of_mem hentry)).tail
                constructor
                · rw [properLevel_append, ProperLevel]
                  refine ⟨hproperBefore, ⟨?_, hnotafter, hafter⟩, hdistinct⟩
                  show FileNode.Proper parent (.branch name _ isDirectory _)
                  rw [FileNode.Proper]
                  refine ⟨rfl, hdirectory, fun hnil => ?_, hproper⟩
                  rw [hnil] at hperm
                  exact absurd hperm.length_eq (Nat.zero_ne_add_one _)
                · rw [levelEntries_append, levelEntries_append]
                  show (levelEntries before ++ ((levelEntries _).map (name :: ·) ++ levelEntries after)).Perm
                    ((name :: parts) ::
                      (levelEntries before ++ ((levelEntries children).map (name :: ·) ++ levelEntries after)))
                  refine List.Perm.trans ?_ List.perm_middle
                  exact (((hperm.map (name :: ·)).append_right (levelEntries after)).append_left (levelEntries before))

/-! ## §5. All paths. -/

/-- The paths differ, and none is a directory of another. -/
def PrefixFree (files : List String) : Prop := files.Pairwise fun a b => Apart (components a) (components b)

theorem spell_some (parent : String) (parts : List String) :
    (spell (some parent) parts).toList = parent.toList ++ (parts.map fun part => '/' :: part.toList).flatten := by
  induction parts generalizing parent with
  | nil => simp [spell]
  | cons part parts ih =>
      unfold spell
      rw [ih]
      simp [nodePath]

theorem joined_toList {part : String} {parts : List String} :
    (joined (part :: parts)).toList = part.toList ++ (parts.map fun part => '/' :: part.toList).flatten := by
  induction parts generalizing part with
  | nil => simp [Archive.joined_cons]
  | cons next parts ih =>
      rw [Archive.joined_cons, if_neg (List.cons_ne_nil _ _), ih]
      simp

/-- **From the root**, parts are spelled as the path they came from. -/
theorem spell_components (file : String) : spell none (components file) = file := by
  conv_rhs => rw [← Archive.joined_components file]
  cases hparts : components file with
  | nil => exact absurd hparts (Archive.components_ne_nil file)
  | cons part parts =>
      apply String.toList_injective
      rw [joined_toList]
      exact spell_some part parts

theorem buildFrom_spec {files : List String} :
    ∀ {tree : List FileNode} {paths : List String}, ProperLevel none tree →
      (levelEntries tree).Perm (paths.map components) → PrefixFree (paths ++ files) →
      ProperLevel none (files.foldl addPath tree) ∧
        (levelEntries (files.foldl addPath tree)).Perm ((paths ++ files).map components) := by
  induction files with
  | nil =>
      intro tree paths hproper hperm _
      rw [List.append_nil]
      exact ⟨hproper, hperm⟩
  | cons file files ih =>
      intro tree paths hproper hperm hfree
      have happart : ∀ entry ∈ levelEntries tree, Apart (components file) entry := by
        intro entry hentry
        obtain ⟨path, hpath, rfl⟩ := List.mem_map.mp (hperm.mem_iff.mp hentry)
        exact ((List.pairwise_append.mp hfree).2.2 path hpath file List.mem_cons_self).symm
      obtain ⟨hproper', hperm'⟩ := @addParts_spec (components file) (Archive.components_ne_nil file) none tree "" 0
        (fun part => by simp [nodePath]) hproper happart
      have hnext : (levelEntries (addPath tree file)).Perm ((paths ++ [file]).map components) := by
        rw [List.map_append]
        exact hperm'.trans ((hperm.cons _).trans (List.perm_append_singleton _ _).symm)
      have hrest := ih hproper' hnext (by rw [List.append_assoc]; exact hfree)
      rw [List.append_assoc] at hrest
      exact hrest

/-- **The tree of paths** of which none is a directory of another. -/
theorem buildFileTree_represents {files : List String} (h : PrefixFree files) : Represents files (buildFileTree files) := by
  have hempty : ProperLevel none [] := by rw [ProperLevel]; trivial
  obtain ⟨hproper, hperm⟩ := @buildFrom_spec files [] [] hempty (List.Perm.refl _) h
  refine ⟨?_, hproper⟩
  show (flatten (files.foldl addPath [])).Perm files
  rw [flatten_eq hproper]
  refine (hperm.map (spell none)).trans (List.Perm.of_eq ?_)
  rw [List.nil_append, List.map_map]
  exact (List.map_congr_left fun file _ => spell_components file).trans (List.map_id files)

/-! ## §6. The files of a manifest. -/

open Archive in
theorem apart_of_accepted {items : List ZipEntry} (h : Accepted items) {a b : String}
    (ha : a ∈ items.map ZipEntry.filename) (hb : b ∈ items.map ZipEntry.filename) (hne : a ≠ b) :
    ¬ components a <+: components b := by
  intro hpre
  have hsafe : ∀ name ∈ items.map ZipEntry.filename, safePath name = .ok name := by
    intro name hname
    obtain ⟨item, hitem, rfl⟩ := List.mem_map.mp hname
    exact h.safe item hitem
  have hdot : components "." = ["."] := by decide
  rcases components_of_safe (hsafe b hb) with rfl | ⟨hvalid, _⟩
  · -- the root of the workspace has no name above it
    rw [hdot] at hpre
    rcases List.prefix_cons_iff.mp hpre with hnil | ⟨rest, hrest, hpre⟩
    · exact components_ne_nil a hnil
    · rw [List.prefix_nil.mp hpre, ← hdot] at hrest
      refine hne ?_
      rw [← joined_components a, hrest, joined_components]
  · have ha' : a ≠ "." := by
      rintro rfl
      rw [hdot] at hpre
      exact (hvalid "." (hpre.subset List.mem_cons_self)).dot rfl
    have hlt : components a ≠ components b := by
      intro heq
      refine hne ?_
      rw [← joined_components a, heq, joined_components]
    have hmem := mem_parents hvalid hpre (components_ne_nil a) hlt
    rw [joined_components, joined_components] at hmem
    have hconflict : conflicting (items.map ZipEntry.filename) = true := by
      unfold conflicting
      rw [List.any_eq_true]
      refine ⟨b, hb, ?_⟩
      rw [List.any_eq_true]
      exact ⟨a, hmem, by simp only [ne_eq, ha', not_false_eq_true, ha, and_self, decide_true]⟩
    rw [h.apart] at hconflict
    cases hconflict

open Archive in
/-- **No file of a manifest is a directory of another.** -/
theorem prefixFree_manifest {zip : ZipLibrary} {sha256 : Bytes → String} {archive : Bytes} {files : Manifest}
    (h : manifest zip sha256 archive = .ok files) {paths : List String} (hpaths : paths.Perm (files.map Prod.fst)) :
    PrefixFree paths := by
  obtain ⟨items, _, haccepted, rfl⟩ := manifest_accepted h
  have hkeys : ((sortedDict (items.map (ZipEntry.entry sha256))).map Prod.fst).Perm (items.map ZipEntry.filename) := by
    refine ((sortedDict_perm _).map Prod.fst).trans (List.Perm.of_eq ?_)
    rw [List.map_map]
    rfl
  have hnames : PrefixFree (items.map ZipEntry.filename) := by
    refine List.Nodup.pairwise_of_forall_ne haccepted.nodup fun a ha b hb hne => ?_
    exact ⟨apart_of_accepted haccepted ha hb hne, apart_of_accepted haccepted hb ha hne.symm⟩
  exact (hpaths.trans hkeys).symm.pairwise hnames fun hab => Apart.symm hab

open Archive in
/-- **The tree represents exactly the saved files**, in whatever order they
come: the files of a manifest are apart, and the tree of such files has one
leaf for each. -/
theorem savedFiles_tree :
    (∀ (zip : ZipLibrary) (sha256 : Bytes → String) (archive : Bytes) (files : Manifest),
      manifest zip sha256 archive = .ok files → ∀ paths : List String, paths.Perm (files.map Prod.fst) →
        PrefixFree paths ∧ Represents paths (buildFileTree paths)) ∧
      ∀ paths : List String, PrefixFree paths → Represents paths (buildFileTree paths) :=
  ⟨fun _ _ _ _ h _ hpaths => ⟨prefixFree_manifest h hpaths, buildFileTree_represents (prefixFree_manifest h hpaths)⟩,
    fun _ h => buildFileTree_represents h⟩

end WebBuilder.Frontend.FileTree
