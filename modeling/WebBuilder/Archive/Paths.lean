/-
  WebBuilder.Archive.Paths — names of archived files.

  `PurePosixPath` as far as `archive.py` uses it, `allowed` and `safe_path`.
  A path is parsed into a root and its components; empty components and `.`
  disappear, so a name is normal when printing the parsed path gives it back.

  Main results:
    * `safePath_joined` — which components make a safe name;
    * `components_of_safe` — a safe name is `.`, or is made of valid
      components.
-/
import Mathlib.Data.String.Basic
import WebBuilder.Model.Exceptions

namespace WebBuilder.Archive

/-! ## §1. Components. -/

/-- `name.split('/')`. -/
def components (name : String) : List String := (name.toList.splitOn '/').map String.ofList

/-- `'/'.join(parts)`. -/
def joined (parts : List String) : String :=
  String.ofList (['/'].intercalate (parts.map String.toList))

/-- A component without a slash. -/
def Slashless (part : String) : Prop := '/' ∉ part.toList

theorem joined_components (name : String) : joined (components name) = name := by
  unfold joined components
  rw [List.map_map]
  have hid : String.toList ∘ String.ofList = id := funext fun l => String.toList_ofList
  rw [hid, List.map_id, List.intercalate_splitOn, String.ofList_toList]

theorem components_joined {parts : List String} (h : ∀ p ∈ parts, Slashless p) (hne : parts ≠ []) :
    components (joined parts) = parts := by
  unfold joined components
  rw [String.toList_ofList, List.splitOn_intercalate]
  · rw [List.map_map]
    have hid : String.ofList ∘ String.toList = id := funext fun s => String.ofList_toList
    rw [hid, List.map_id]
  · intro l hl
    obtain ⟨p, hp, rfl⟩ := List.mem_map.mp hl
    exact h p hp
  · simpa using hne

theorem components_slashless {name part : String} (h : part ∈ components name) : Slashless part := by
  -- join and split again: only slashless parts come back
  have hsplit : ∀ (l : List Char) (xs : List Char), xs ∈ l.splitOn '/' → '/' ∉ xs := by
    intro l
    induction l with
    | nil =>
        intro xs hxs
        simp at hxs
        simp [hxs]
    | cons c cs ih =>
        intro xs hxs
        rw [List.splitOn_cons_eq_if_modifyHead] at hxs
        split at hxs
        · rcases List.mem_cons.mp hxs with rfl | hxs
          · simp
          · exact ih xs hxs
        · rename_i hc
          cases hs : cs.splitOn '/' with
          | nil => exact absurd hs (List.splitOn_ne_nil _ _)
          | cons y ys =>
              rw [hs] at hxs ih
              simp only [List.modifyHead_cons, List.mem_cons] at hxs
              rcases hxs with rfl | hxs
              · have hy := ih y List.mem_cons_self
                have hc' : '/' ≠ c := fun h => hc (beq_iff_eq.mpr h.symm)
                simp [hc', hy]
              · exact ih xs (List.mem_cons_of_mem _ hxs)
  obtain ⟨xs, hxs, rfl⟩ := List.mem_map.mp h
  unfold Slashless
  rw [String.toList_ofList]
  exact hsplit _ xs hxs

/-! ## §2. `PurePosixPath`. -/

structure PurePosixPath where
  root : String
  /-- The parts after the root. -/
  parts : List String
  deriving DecidableEq

/-- One leading slash is a root, and so are exactly two. -/
def rootOf : List Char → String
  | '/' :: '/' :: '/' :: _ => "/"
  | '/' :: '/' :: _ => "//"
  | '/' :: _ => "/"
  | _ => ""

def parsePath (name : String) : PurePosixPath where
  root := rootOf name.toList
  parts := (components name).filter fun p => p ≠ "" ∧ p ≠ "."

def PurePosixPath.isAbsolute (p : PurePosixPath) : Bool := p.root ≠ ""

/-- `str(p)`. -/
def PurePosixPath.str (p : PurePosixPath) : String :=
  if p.root = "" ∧ p.parts = [] then "." else p.root ++ joined p.parts

/-! ## §3. `allowed` and `safe_path`. -/

def EXCLUDED : List String :=
  [".git", ".env", ".venv", "node_modules", "dist", ".next", ".cache", "__pycache__"]

/-- A component that keeps a path out of archives. -/
def excluded (part : String) : Bool :=
  part ∈ EXCLUDED || ".env.".toList.isPrefixOf part.toList

def allowed (path : String) : Bool := !(parsePath path).parts.any excluded

/-- A character that no archived name has. -/
def badChar (c : Char) : Bool := c = '\\' || c = ':' || c.toNat < 32

def safePath (name : String) : Except Exc String :=
  let p := parsePath name
  if name = "" ∨ 512 < name.length ∨ p.isAbsolute ∨ ".." ∈ p.parts ∨ name.toList.any badChar
      ∨ p.str ≠ name ∨ ¬ allowed name then
    .error (.value "Unsafe archive path")
  else .ok name

/-- A name that a directory entry can have. -/
structure ValidName (part : String) : Prop where
  nonempty : part ≠ ""
  dot : part ≠ "."
  dotdot : part ≠ ".."
  slashless : Slashless part

theorem rootOf_valid {part : String} {cs : List Char} (h : ValidName part) :
    rootOf (part.toList ++ cs) = "" := by
  cases hp : part.toList with
  | nil => exact absurd (String.toList_injective hp) h.nonempty
  | cons c rest =>
      have hc : c ≠ '/' := by
        rintro rfl
        exact h.slashless (by rw [hp]; exact List.mem_cons_self)
      unfold rootOf
      split
      all_goals simp_all

theorem joined_cons (part : String) (parts : List String) :
    (joined (part :: parts)).toList
      = part.toList ++ (if parts = [] then [] else '/' :: (joined parts).toList) := by
  unfold joined
  rw [String.toList_ofList, String.toList_ofList]
  cases parts with
  | nil => simp [List.intercalate]
  | cons q qs => simp [List.intercalate]

/-- **Parsing** gives valid components back. -/
theorem parsePath_joined {parts : List String} (h : ∀ p ∈ parts, ValidName p) (hne : parts ≠ []) :
    parsePath (joined parts) = ⟨"", parts⟩ := by
  unfold parsePath
  rw [components_joined (fun p hp => (h p hp).slashless) hne]
  congr 1
  · cases parts with
    | nil => exact absurd rfl hne
    | cons p ps =>
        rw [joined_cons]
        exact rootOf_valid (h p List.mem_cons_self)
  · rw [List.filter_eq_self]
    intro p hp
    simp [(h p hp).nonempty, (h p hp).dot]

theorem allowed_joined {parts : List String} (h : ∀ p ∈ parts, ValidName p) (hne : parts ≠ []) :
    allowed (joined parts) = true ↔ ∀ p ∈ parts, excluded p = false := by
  unfold allowed
  rw [parsePath_joined h hne]
  simp

/-- **Safe names** made of valid components. -/
theorem safePath_joined {parts : List String} (h : ∀ p ∈ parts, ValidName p) (hne : parts ≠ []) :
    safePath (joined parts) = .ok (joined parts) ↔
      (joined parts).length ≤ 512 ∧ (joined parts).toList.any badChar = false ∧
        ∀ p ∈ parts, excluded p = false := by
  have hparse := parsePath_joined h hne
  have hempty : joined parts ≠ "" := by
    intro he
    have hcomp := components_joined (fun p hp => (h p hp).slashless) hne
    rw [he] at hcomp
    have hmem : "" ∈ parts := by
      rw [← hcomp]
      decide
    exact (h "" hmem).nonempty rfl
  have hdots : ".." ∉ parts := fun hmem => (h ".." hmem).dotdot rfl
  have hstr : (parsePath (joined parts)).str = joined parts := by
    rw [hparse]
    unfold PurePosixPath.str
    rw [if_neg (fun hh => hne hh.2), String.empty_append]
  rw [← allowed_joined h hne]
  unfold safePath
  dsimp only
  rw [hstr, hparse]
  unfold PurePosixPath.isAbsolute
  constructor
  · intro hs
    split at hs
    · cases hs
    · rename_i hno
      simp only [not_or, not_lt, Bool.not_eq_true, not_not] at hno
      exact ⟨hno.2.1, hno.2.2.2.2.1, by simpa using hno.2.2.2.2.2.2⟩
  · rintro ⟨hlen, hchars, hallowed⟩
    rw [if_neg]
    simp [hempty, hdots, hchars, hallowed, hlen]

/-- What `safe_path` accepts it returns. -/
theorem safePath_eq {name name' : String} (h : safePath name = .ok name') : name' = name := by
  unfold safePath at h
  simp only at h
  split at h
  · cases h
  · exact (Except.ok.inj h).symm

/-- **An accepted name** is `.`, or is made of valid components. -/
theorem components_of_safe {name : String} (h : safePath name = .ok name) :
    name = "." ∨ (∀ p ∈ components name, ValidName p) ∧ ∀ p ∈ components name, excluded p = false := by
  unfold safePath at h
  simp only at h
  split at h
  · cases h
  · rename_i hno
    simp only [not_or, not_lt, Bool.not_eq_true, not_not] at hno
    obtain ⟨_, _, habs, hdots, _, hstr, hallowed⟩ := hno
    have hroot : (parsePath name).root = "" := by simpa [PurePosixPath.isAbsolute] using habs
    unfold PurePosixPath.str at hstr
    by_cases hparts : (parsePath name).parts = []
    · rw [if_pos ⟨hroot, hparts⟩] at hstr
      exact .inl hstr.symm
    · right
      rw [if_neg (fun hh => hparts hh.2), hroot, String.empty_append] at hstr
      have hjoin : joined (parsePath name).parts = name := hstr
      have hslash : ∀ p ∈ (parsePath name).parts, Slashless p := fun p hp =>
        components_slashless (List.mem_of_mem_filter hp)
      have hcomp : components name = (parsePath name).parts := by
        conv_lhs => rw [← hjoin]
        exact components_joined hslash hparts
      rw [hcomp]
      refine ⟨fun p hp => ?_, fun p hp => ?_⟩
      · have hfilter := (List.mem_filter.mp hp).2
        simp only [ne_eq, decide_eq_true_eq] at hfilter
        exact ⟨hfilter.1, hfilter.2, fun he => hdots (he ▸ hp), hslash p hp⟩
      · have hall : (parsePath name).parts.any excluded = false := by
          simpa [allowed] using hallowed
        have hp' := List.any_eq_false.mp hall p hp
        simpa using hp'

end WebBuilder.Archive
