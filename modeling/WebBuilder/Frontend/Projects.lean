/-
  WebBuilder.Frontend.Projects — the list of projects.

  `lib/projects/filters.ts`.  A list of projects is filtered by title and
  period and sorted by date or title.  Dates may be missing or unparsable, and
  `Date.parse` then gives `NaN`; projects may have the same date or title.
  Collation, case mapping and the format of dates are the browser's.

  Times are whole milliseconds.  The difference of two of them is only tested
  for its sign, which rounding does not change.

  Main results:
    * `compareProjects_eq` — one key in two directions, then the id;
    * `filterProjects_canonical` — the list depends on its projects only.
-/
import Mathlib.Data.String.Basic
import WebBuilder.Frontend.Comparator

namespace WebBuilder.Frontend.Projects

/-! ## §1. Data. -/

structure Project where
  id : String
  userId : Int
  title : String
  appUrl : Option String
  createdAt : Option String
  updatedAt : Option String
  deriving DecidableEq

inductive ProjectSort where
  | recent
  | newest
  | oldest
  | nameAsc
  | nameDesc
  deriving DecidableEq

inductive ProjectPeriod where
  | all
  | days7
  | days30
  deriving DecidableEq

/-- A number that is whole, or `NaN`. -/
abbrev Number := Option Int

/-- What the list uses of the browser. -/
structure Browser where
  trim : String → String
  toLocaleLowerCase : String → String
  /-- `Date.parse` of a text. -/
  parse : String → Number
  localeCompare : String → String → Int
  /-- `localeCompare` with `sensitivity: 'base'` and `numeric: true`. -/
  localeCompareBase : String → String → Int

/-! ## §2. `filterProjects`. -/

/-- `text.includes(part)`. -/
def includes (text part : String) : Bool := decide (part.toList <:+: text.toList)

/-- `Date.parse`; it gives `NaN` for `undefined`. -/
def Browser.dateParse (b : Browser) (text : Option String) : Number := text.bind b.parse

/-- `a >= b`, which is false of `NaN`. -/
def atLeast : Number → Number → Bool
  | some a, some b => b ≤ a
  | _, _ => false

/-- `Number(period)`. -/
def ProjectPeriod.toNumber : ProjectPeriod → Number
  | all => none
  | days7 => some 7
  | days30 => some 30

/-- `now - Number(period) * 86_400_000`. -/
def cutoff (now : Number) (period : ProjectPeriod) : Number := do
  let now ← now
  let days ← period.toNumber
  return now - days * 86400000

/-- The callback of `filter`. -/
def isMatch (b : Browser) (query : String) (period : ProjectPeriod) (now : Number) (project : Project) : Bool :=
  let search := b.toLocaleLowerCase (b.trim query)
  if !includes (b.toLocaleLowerCase project.title) search then false
  else if period = .all then true
  else
    let created := b.dateParse project.createdAt
    atLeast created (cutoff now period) && atLeast now created

/-- `sort === 'recent' ? a.updated_at || a.created_at : a.created_at`. -/
def Project.date (sort : ProjectSort) (project : Project) : Option String :=
  if sort = .recent then
    match project.updatedAt with
    | some "" | none => project.createdAt
    | some updated => some updated
  else project.createdAt

/-- The callback of `sort`. -/
def compareProjects (b : Browser) (sort : ProjectSort) (x y : Project) : Int :=
  if sort = .nameAsc ∨ sort = .nameDesc then
    let order := b.localeCompareBase x.title y.title
    let order := if sort = .nameDesc then -order else order
    orElse order (b.localeCompare x.id y.id)
  else
    let first := b.dateParse (x.date sort)
    let second := b.dateParse (y.date sort)
    -- Unknown dates always follow known dates, regardless of direction.
    if first.isSome ≠ second.isSome then (if first.isSome then -1 else 1)
    else
      let order :=
        match first, second with
        | some first, some second => first - second
        | _, _ => 0
      let order := if sort ≠ .oldest then -order else order
      orElse order (b.localeCompare x.id y.id)

def filterProjects (b : Browser) (projects : List Project) (query : String) (sort : ProjectSort)
    (period : ProjectPeriod) (now : Number) : List Project :=
  sorted (compareProjects b sort) (projects.filter (isMatch b query period now))

/-! ## §3. The comparator. -/

/-- The title or the date of a project, in the direction of the sort. -/
def compareKeys (b : Browser) (sort : ProjectSort) (x y : Project) : Int :=
  let first := b.dateParse (x.date sort)
  let second := b.dateParse (y.date sort)
  match sort with
  | .nameAsc => b.localeCompareBase x.title y.title
  | .nameDesc => -b.localeCompareBase x.title y.title
  | .oldest => unknownLast (fun first second => first - second) first second
  | .recent | .newest => unknownLast (fun first second => -(first - second)) first second

/-- **The comparator** is one key, and the id where the keys are alike. -/
theorem compareProjects_eq (b : Browser) (sort : ProjectSort) (x y : Project) :
    compareProjects b sort x y = orElse (compareKeys b sort x y) (b.localeCompare x.id y.id) := by
  unfold compareProjects
  by_cases hname : sort = .nameAsc ∨ sort = .nameDesc
  · rw [if_pos hname]
    rcases hname with rfl | rfl
    · rfl
    · rfl
  · rw [if_neg hname]
    -- two known dates, or two unknown ones, or one of each
    have hdates : compareKeys b sort x y = unknownLast
        (fun first second => if sort ≠ .oldest then -(first - second) else first - second)
        (b.dateParse (x.date sort)) (b.dateParse (y.date sort)) := by
      cases sort with
      | nameAsc => exact absurd (Or.inl rfl) hname
      | nameDesc => exact absurd (Or.inr rfl) hname
      | recent => rfl
      | newest => rfl
      | oldest => rfl
    rw [hdates]
    cases b.dateParse (x.date sort) with
    | none =>
        cases b.dateParse (y.date sort) with
        | none => simp [unknownLast]
        | some second => simp [unknownLast, orElse]
    | some first =>
        cases b.dateParse (y.date sort) with
        | none => simp [unknownLast, orElse]
        | some second => simp [unknownLast]

theorem compareKeys_preorder {b : Browser} (h : TotalPreorder b.localeCompareBase) (sort : ProjectSort) :
    TotalPreorder (compareKeys b sort) := by
  have hdate : ∀ {compare : Int → Int → Int}, TotalPreorder compare →
      TotalPreorder fun x y : Project =>
        unknownLast compare (b.dateParse (x.date sort)) (b.dateParse (y.date sort)) :=
    fun hcompare => hcompare.missing.on fun x : Project => b.dateParse (x.date sort)
  cases sort with
  | nameAsc => exact h.on Project.title
  | nameDesc => exact (h.on Project.title).reverse
  | oldest => exact hdate TotalPreorder.difference
  | recent => exact hdate TotalPreorder.difference.reverse
  | newest => exact hdate TotalPreorder.difference.reverse

theorem compareProjects_preorder {b : Browser} (htitles : TotalPreorder b.localeCompareBase)
    (hids : TotalPreorder b.localeCompare) (sort : ProjectSort) : TotalPreorder (compareProjects b sort) := by
  have hboth := (compareKeys_preorder htitles sort).ties (hids.on Project.id)
  rw [show compareProjects b sort = _ from funext fun x => funext fun y => compareProjects_eq b sort x y]
  exact hboth

/-- **Projects that compare alike** have the same id. -/
theorem id_eq_of_compareProjects {b : Browser} (hseparates : ∀ x y, b.localeCompare x y = 0 → x = y)
    {sort : ProjectSort} {x y : Project} (h : compareProjects b sort x y = 0) : x.id = y.id := by
  rw [compareProjects_eq] at h
  unfold orElse at h
  split at h
  · exact hseparates _ _ h
  · contradiction

/-! ## §4. The list. -/

/-- The sort is one by date. -/
def ProjectSort.byDate (sort : ProjectSort) : Prop := sort ≠ .nameAsc ∧ sort ≠ .nameDesc

/-- The comparator is a strict total order on projects with different ids. -/
structure Canonical (b : Browser) (sort : ProjectSort) : Prop where
  total : ∀ x y : Project, x.id ≠ y.id → compareProjects b sort x y < 0 ∨ compareProjects b sort y x < 0
  asymm : ∀ x y, compareProjects b sort x y < 0 → ¬ compareProjects b sort y x < 0
  trans : ∀ x y z, compareProjects b sort x y < 0 → compareProjects b sort y z < 0 → compareProjects b sort x z < 0
  /-- Unknown dates come after known ones. -/
  unknown : sort.byDate → ∀ x y : Project, b.dateParse (x.date sort) ≠ none → b.dateParse (y.date sort) = none →
    compareProjects b sort x y < 0
  /-- The same dates, known or not, are ordered by id. -/
  dates : sort.byDate → ∀ x y : Project, b.dateParse (x.date sort) = b.dateParse (y.date sort) →
    compareProjects b sort x y = b.localeCompare x.id y.id
  /-- Titles that are alike are ordered by id. -/
  titles : ¬ sort.byDate → ∀ x y : Project, b.localeCompareBase x.title y.title = 0 →
    compareProjects b sort x y = b.localeCompare x.id y.id

theorem compareKeys_dates {b : Browser} {sort : ProjectSort} (hdate : sort.byDate) {x y : Project}
    (h : b.dateParse (x.date sort) = b.dateParse (y.date sort)) : compareKeys b sort x y = 0 := by
  unfold compareKeys
  rw [h]
  cases sort with
  | nameAsc => exact absurd rfl hdate.1
  | nameDesc => exact absurd rfl hdate.2
  | recent => cases b.dateParse (y.date .recent) <;> simp [unknownLast]
  | newest => cases b.dateParse (y.date .newest) <;> simp [unknownLast]
  | oldest => cases b.dateParse (y.date .oldest) <;> simp [unknownLast]

theorem compareKeys_unknown {b : Browser} {sort : ProjectSort} (hdate : sort.byDate) {x y : Project}
    (hx : b.dateParse (x.date sort) ≠ none) (hy : b.dateParse (y.date sort) = none) :
    compareKeys b sort x y = -1 := by
  obtain ⟨first, hfirst⟩ := Option.ne_none_iff_exists'.mp hx
  unfold compareKeys
  rw [hfirst, hy]
  cases sort with
  | nameAsc => exact absurd rfl hdate.1
  | nameDesc => exact absurd rfl hdate.2
  | recent => rfl
  | newest => rfl
  | oldest => rfl

theorem compareKeys_titles {b : Browser} {sort : ProjectSort} (hname : ¬ sort.byDate) {x y : Project}
    (h : b.localeCompareBase x.title y.title = 0) : compareKeys b sort x y = 0 := by
  unfold ProjectSort.byDate at hname
  unfold compareKeys
  cases sort with
  | nameAsc => exact h
  | nameDesc =>
      show -b.localeCompareBase x.title y.title = 0
      omega
  | recent | newest | oldest => exact absurd ⟨by decide, by decide⟩ hname

theorem canonical {b : Browser} (htitles : TotalPreorder b.localeCompareBase) (hids : TotalPreorder b.localeCompare)
    (hseparates : ∀ x y, b.localeCompare x y = 0 → x = y) (sort : ProjectSort) : Canonical b sort := by
  have h := compareProjects_preorder htitles hids sort
  refine ⟨fun x y hne => ?_, fun x y hxy => ?_, fun x y z hxy hyz => h.lt_trans hxy hyz, fun hdate x y hx hy => ?_,
    fun hdate x y hxy => ?_, fun hname x y hxy => ?_⟩
  · have hne₀ : compareProjects b sort x y ≠ 0 := fun h₀ => hne (id_eq_of_compareProjects hseparates h₀)
    have hswap := h.swap y x
    omega
  · have hswap := h.swap x y
    omega
  · rw [compareProjects_eq, compareKeys_unknown hdate hx hy]
    show (-1 : Int) < 0
    decide
  · rw [compareProjects_eq, compareKeys_dates hdate hxy]
    rfl
  · rw [compareProjects_eq, compareKeys_titles hname hxy]
    rfl

/-- **The list of projects is canonical.**  The comparator is a strict total
order, so the list depends on the projects only and not on their order, and it
has every match once. -/
theorem filterProjects_canonical {b : Browser} (htitles : TotalPreorder b.localeCompareBase)
    (hids : TotalPreorder b.localeCompare) (hseparates : ∀ x y, b.localeCompare x y = 0 → x = y) (sort : ProjectSort) :
    Canonical b sort ∧ ∀ (projects : List Project), (projects.map Project.id).Nodup → ∀ query period now,
      (∀ projects', projects'.Perm projects →
        filterProjects b projects' query sort period now = filterProjects b projects query sort period now) ∧
      (filterProjects b projects query sort period now).Pairwise (fun x y => compareProjects b sort x y < 0) ∧
      (filterProjects b projects query sort period now).Nodup ∧
      ∀ project, project ∈ filterProjects b projects query sort period now ↔
        project ∈ projects ∧ isMatch b query period now project = true := by
  have hpre := compareProjects_preorder htitles hids sort
  refine ⟨canonical htitles hids hseparates sort, fun projects hnodup query period now => ?_⟩
  set found := projects.filter (isMatch b query period now) with hfound
  have hinj : ∀ x ∈ found, ∀ y ∈ found, compareProjects b sort x y = 0 → x = y := by
    intro x hx y hy h₀
    exact List.inj_on_of_nodup_map hnodup (List.mem_of_mem_filter hx) (List.mem_of_mem_filter hy)
      (id_eq_of_compareProjects hseparates h₀)
  have hperm : (filterProjects b projects query sort period now).Perm found := sorted_perm _ _
  have hunique : (filterProjects b projects query sort period now).Nodup :=
    hperm.nodup_iff.mpr (hnodup.of_map.filter _)
  refine ⟨fun projects' h => ?_, ?_, hunique, fun project => ?_⟩
  · exact (sorted_eq hpre (h.filter _).symm hinj).symm
  · -- neighbours differ, so the order is strict
    have hboth := List.pairwise_and_iff.mpr ⟨sorted_pairwise hpre found, hunique⟩
    refine List.Pairwise.imp_of_mem (fun {x y} hx hy hxy => ?_) hboth
    have hne : compareProjects b sort x y ≠ 0 := fun h₀ =>
      hxy.2 (hinj x (hperm.mem_iff.mp hx) y (hperm.mem_iff.mp hy) h₀)
    have hle := hxy.1
    omega
  · rw [hperm.mem_iff, hfound, List.mem_filter]

/-! A browser on plain texts, and two projects of which one has no date. -/

def byCodePoint (x y : String) : Int := if x < y then -1 else if x = y then 0 else 1

theorem byCodePoint_neg {x y : String} : byCodePoint x y < 0 ↔ x < y := by
  unfold byCodePoint
  split
  · simp [*]
  · split <;> simp [*]

theorem byCodePoint_le {x y : String} : byCodePoint x y ≤ 0 ↔ x ≤ y := by
  unfold byCodePoint
  rcases lt_trichotomy x y with h | rfl | h
  · simp [h, le_of_lt h]
  · simp
  · simp [not_lt_of_gt h, ne_of_gt h, not_le_of_gt h]

theorem byCodePoint_preorder : TotalPreorder byCodePoint where
  swap x y := by
    have hle := (byCodePoint_le (x := y) (y := x)).not
    rw [not_le, not_le] at hle
    rw [byCodePoint_neg, hle]
  trans x y z hxy hyz := byCodePoint_le.mpr (le_trans (byCodePoint_le.mp hxy) (byCodePoint_le.mp hyz))

def plainBrowser : Browser where
  trim text := text
  toLocaleLowerCase text := String.ofList (text.toList.map Char.toLower)
  parse text := if text = "2026-01-02T00:00:00Z" then some 1767312000000 else none
  localeCompare := byCodePoint
  localeCompareBase := byCodePoint

def shop : Project := ⟨"p1", 1, "shop", none, some "2026-01-02T00:00:00Z", none⟩

def blog : Project := ⟨"p2", 1, "blog", none, some "soon", none⟩

theorem filterProjects_canonical_plain :
    filterProjects plainBrowser [blog, shop] "o" .recent .all none = [shop, blog] ∧
      filterProjects plainBrowser [shop, blog] "o" .recent .all none = [shop, blog] := by
  have hseparates : ∀ x y, plainBrowser.localeCompare x y = 0 → x = y := by
    intro x y h
    have hxy := byCodePoint_le.mp (le_of_eq h)
    have hyx := byCodePoint_le.mp (le_of_eq (byCodePoint_preorder.zero_symm h))
    exact le_antisymm hxy hyx
  have hcanonical := (filterProjects_canonical (b := plainBrowser) byCodePoint_preorder byCodePoint_preorder hseparates
    .recent).2 [shop, blog] (by decide) "o" .all none
  have hrun : filterProjects plainBrowser [shop, blog] "o" .recent .all none = [shop, blog] := by decide
  exact ⟨(hcanonical.1 [blog, shop] (List.Perm.swap _ _ _)).trans hrun, hrun⟩

end WebBuilder.Frontend.Projects
