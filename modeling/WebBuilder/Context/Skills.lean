/-
  WebBuilder.Context.Skills — skills, loaded on request.

  `RuntimeSkills` of `skills.py`.  The bundled skills are read once for a run;
  those that are not well formed are left out.  A run then loads skills and
  their references by name.  What it has loaded is one set of keys of two
  shapes, and one counter holds the bytes of all of them.

  An entry has two sizes: that of its file alone, and that with its resources.
  Both bound the texts that are handed out, because texts are decoded from the
  bytes that are counted; the entries carry this as a field.

  Main results:
    * `load_cases` — what one call does;
    * `loads_budgeted` — budget, order and delivery over a whole run.
-/
import WebBuilder.Context.Encoding
import WebBuilder.Model.Service

namespace WebBuilder.Skills

open WebBuilder.Text

/-! ## §1. Bundled skills. -/

def SKILL_DIRECTORIES : List (String × String) :=
  [("find-skills", "find-skills"), ("frontend-design", "frontend-design"), ("brandkit", "brandkit"),
    ("industrial-brutalist-ui", "brutalist-skill"), ("gpt-taste", "gpt-tasteskill"),
    ("image-to-code", "image-to-code-skill"), ("imagegen-frontend-mobile", "imagegen-frontend-mobile"),
    ("imagegen-frontend-web", "imagegen-frontend-web"), ("minimalist-ui", "minimalist-skill"),
    ("full-output-enforcement", "output-skill"), ("redesign-existing-projects", "redesign-skill"),
    ("high-end-visual-design", "soft-skill"), ("stitch-design-taste", "stitch-skill"),
    ("design-taste-frontend-v1", "taste-skill-v1"), ("design-taste-frontend", "taste-skill"),
    ("ui-ux-pro-max", "ui-ux-pro-max"), ("impeccable", "impeccable"), ("emil-design-eng", "emil-design-eng"),
    ("vercel-react-best-practices", "react-best-practices")]

def REFERENCE_DIRECTORIES : List (String × String) :=
  [("ui-ux-pro-max", "references"), ("impeccable", "reference"), ("vercel-react-best-practices", "rules")]

def MAX_SKILL_BYTES : Nat := 96 * 1024
def MAX_LOADED_BYTES : Nat := 96 * 1024

/-- What makes `__init__` leave a skill out. -/
inductive SkillError where
  | os
  | unicode
  | value (message : String)

structure Reference where
  instructions : String
  bytes : Nat
  sha256 : String
  /-- The text was decoded from the bytes. -/
  size : instructions.utf8ByteSize = bytes

structure Entry where
  description : String
  instructions : String
  sha256 : String
  bytes : Nat
  resources : List (String × String)
  references : List (String × Reference)
  loadBytes : Nat
  /-- The instructions are a part of the file. -/
  size : instructions.utf8ByteSize ≤ bytes
  load : loadBytes = bytes + (resources.map fun r => r.2.utf8ByteSize).sum

/-- The directory of the skills, and the libraries. -/
structure Bundle where
  /-- The bytes of a file. -/
  read : String → Except SkillError ByteArray
  /-- `sorted(directory.rglob('*.md'))`: each path below the skill, and whether
  it resolves to one. -/
  rglob : String → Except SkillError (List (String × Bool))
  /-- `hashlib.sha256(data).hexdigest()`. -/
  sha256 : ByteArray → String
  /-- `json.loads` of a text that starts with a quote. -/
  loads : String → Except SkillError String

/-! ## §2. `__init__`. -/

/-- `source.read(MAX_SKILL_BYTES + 1)`. -/
def Bundle.readLimited (b : Bundle) (path : String) : Except SkillError ByteArray := do
  let bytes ← b.read path
  return bytes.extract 0 (MAX_SKILL_BYTES + 1)

/-- `data.decode('utf-8')`. -/
def decode (data : ByteArray) : Except SkillError { text : String // text.utf8ByteSize = data.size } :=
  if h : data.IsValidUTF8 then .ok ⟨String.fromUTF8 data h, rfl⟩ else .error .unicode

/-- `text.partition(separator)`, if the separator is there. -/
def partition (separator : List Char) : List Char → Option (List Char × List Char)
  | [] => if separator = [] then some ([], []) else none
  | c :: cs =>
      if separator <+: c :: cs then some ([], (c :: cs).drop separator.length)
      else (partition separator cs).map fun parts => (c :: parts.1, parts.2)

/-- Where `splitlines` ends a line. -/
def endsLine (c : Char) : Bool :=
  c.toNat ∈ [0x0a, 0x0b, 0x0c, 0x0d, 0x1c, 0x1d, 0x1e, 0x85, 0x2028, 0x2029]

/-- `text.splitlines()`, with the line that is open. -/
def splitlines (line : List Char) : List Char → List (List Char)
  | [] => if line = [] then [] else [line]
  | '\r' :: '\n' :: cs => line :: splitlines [] cs
  | c :: cs => if endsLine c then line :: splitlines [] cs else splitlines (line ++ [c]) cs

/-- The last line of that name in the header. -/
def metadata (lines : List (List Char)) (name : String) : Option String :=
  let start := (name ++ ": ").toList
  ((lines.filter fun line => start <+: line).getLast?).map fun line => String.ofList (line.drop start.length)

/-- The description, which may be quoted. -/
def Bundle.description (b : Bundle) (lines : List (List Char)) : Except SkillError String := do
  let description := strip ((metadata lines "description").getD "")
  let description ← if "\"".toList <+: description.toList then b.loads description else .ok description
  if description = "" ∨ 1024 < description.length ∨ '\n' ∈ description.toList then
    .error (.value "Invalid description")
  else return description

def Bundle.reference (b : Bundle) (base : String) (path : String × Bool) : Except SkillError (String × Reference) := do
  if !path.2 then .error (.value "Reference outside bundled skill")
  else do
    let data ← b.readLimited (base ++ "/" ++ path.1)
    if MAX_SKILL_BYTES < data.size then .error (.value "Bundled reference exceeds size limit")
    else do
      let text ← decode data
      return (path.1, ⟨text.1, data.size, b.sha256 data, text.2⟩)

def Bundle.references (b : Bundle) (name base : String) : Except SkillError (List (String × Reference)) :=
  match REFERENCE_DIRECTORIES.lookup name with
  | none => .ok []
  | some directory => do
      let paths ← b.rglob (base ++ "/" ++ directory)
      if 128 < paths.length then .error (.value "Too many bundled references")
      else paths.mapM (b.reference base)

/-- The resources of a skill, whose own file has `bytes` bytes. -/
def Bundle.resources (b : Bundle) (name base : String) (bytes : Nat) : Except SkillError (List (String × String)) :=
  if name ≠ "stitch-design-taste" then .ok []
  else do
    let reference ← b.readLimited (base ++ "/DESIGN.md")
    if MAX_SKILL_BYTES < bytes + reference.size then .error (.value "Skill with resources exceeds size limit")
    else do
      let text ← decode reference
      return [("DESIGN.md", text.1)]

theorem total_sublist {cs cs' : List Char} (h : cs.Sublist cs') : total Char.utf8Size cs ≤ total Char.utf8Size cs' :=
  (h.map Char.utf8Size).sum_le_sum fun _ _ => Nat.zero_le _

theorem strip_size (s : String) : (strip s).utf8ByteSize ≤ s.utf8ByteSize := by
  rw [Context.size_toList, Context.size_toList s]
  apply total_sublist
  show (String.ofList _).toList.Sublist s.toList
  rw [String.toList_ofList]
  -- both ends are cut
  have hend := (List.dropWhile_sublist isSpace (l := (s.toList.dropWhile isSpace).reverse)).reverse
  rw [List.reverse_reverse] at hend
  exact hend.trans (List.dropWhile_sublist isSpace)

theorem partition_body {separator cs header body : List Char} (h : partition separator cs = some (header, body)) :
    body.Sublist cs := by
  induction cs generalizing header with
  | nil =>
      unfold partition at h
      split at h
      · obtain ⟨_, rfl⟩ := Prod.mk.inj (Option.some.inj h)
        exact List.Sublist.refl _
      · cases h
  | cons c cs ih =>
      unfold partition at h
      split at h
      · obtain ⟨_, rfl⟩ := Prod.mk.inj (Option.some.inj h)
        exact List.drop_sublist _ _
      · obtain ⟨parts, hparts, heq⟩ := Option.map_eq_some_iff.mp h
        obtain ⟨_, rfl⟩ := Prod.mk.inj heq
        exact (ih hparts).cons c

/-- The instructions are no larger than the file. -/
theorem instructions_size {text : String} {separator header body : List Char}
    (h : partition separator text.toList = some (header, body)) :
    (strip (String.ofList body)).utf8ByteSize ≤ text.utf8ByteSize := by
  refine le_trans (strip_size _) ?_
  rw [Context.size_toList, Context.size_toList text, String.toList_ofList]
  exact total_sublist (partition_body h)

/-- The `try` of one skill. -/
def Bundle.entry (b : Bundle) (name directory : String) : Except SkillError Entry := do
  let data ← b.readLimited (directory ++ "/SKILL.md")
  if MAX_SKILL_BYTES < data.size then .error (.value "Skill exceeds size limit")
  else do
    let text ← decode data
    match h : partition "\n---\n".toList text.1.toList with
    | none => .error (.value "Invalid bundled skill")
    | some (header, body) =>
        if ¬ "---\n".toList <+: header ∨ strip (String.ofList body) = "" then
          .error (.value "Invalid bundled skill")
        else do
          let lines := splitlines [] (header.drop 4)
          if metadata lines "name" ≠ some name then .error (.value "Skill name does not match registry")
          else do
            let description ← b.description lines
            let references ← b.references name directory
            let resources ← b.resources name directory data.size
            return {
              description := description
              instructions := strip (String.ofList body)
              sha256 := b.sha256 data
              bytes := data.size
              resources := resources
              references := references
              loadBytes := data.size + (resources.map fun r => r.2.utf8ByteSize).sum
              size := le_of_le_of_eq (instructions_size h) text.2
              load := rfl }

/-- The key of what was loaded: a skill, or one of its references. -/
inductive Key where
  | skill (name : String)
  | reference (name resource : String)
  deriving DecidableEq

structure RuntimeSkills where
  entries : List (String × Entry)
  loaded : Finset Key
  loadedBytes : Nat

/-- `RuntimeSkills()`, over bundled entries. -/
def RuntimeSkills.fresh (entries : List (String × Entry)) : RuntimeSkills := ⟨entries, ∅, 0⟩

/-- `__init__`. -/
def RuntimeSkills.init (b : Bundle) : RuntimeSkills :=
  .fresh (SKILL_DIRECTORIES.filterMap fun skill =>
    match b.entry skill.1 skill.2 with
    | .ok entry => some (skill.1, entry)
    | .error _ => none)

/-! ## §3. `load`. -/

/-- The fields of an answer with `ok`. -/
structure Loaded where
  name : String
  resource : Option String
  sha256 : String
  bytes : Nat
  status : String
  instructions : Option String
  resources : Option (List (String × String))
  availableResources : Option (List (String × Nat))

inductive LoadResult where
  | refused (status error : String)
  | accepted (loaded : Loaded)

/-- The dictionary, unless it is empty. -/
def nonEmpty {α : Type} (items : List α) : Option (List α) := if items = [] then none else some items

def overBudget : LoadResult :=
  .refused "budget_exceeded" "This run has insufficient remaining skill context allowance."

/-- `load` of a resource. -/
def RuntimeSkills.loadReference (s : RuntimeSkills) (name : String) (entry : Entry) (resource : String) :
    LoadResult × RuntimeSkills :=
  match entry.references.lookup resource with
  | none => (.refused "unavailable" "Load the skill first and select one of its listed resources.", s)
  | some reference =>
      let key := Key.reference name resource
      let result := Loaded.mk name (some resource) reference.sha256 reference.bytes
      if .skill name ∉ s.loaded then
        (.refused "unavailable" "Load the skill first and select one of its listed resources.", s)
      else if key ∉ s.loaded ∧ MAX_LOADED_BYTES < s.loadedBytes + reference.bytes then (overBudget, s)
      else if key ∈ s.loaded then (.accepted (result "already_loaded" none none none), s)
      else
        (.accepted (result "loaded" (some reference.instructions) none none),
          ⟨s.entries, insert key s.loaded, s.loadedBytes + reference.bytes⟩)

/-- `load` of a skill. -/
def RuntimeSkills.loadSkill (s : RuntimeSkills) (name : String) (entry : Entry) : LoadResult × RuntimeSkills :=
  let key := Key.skill name
  let result := Loaded.mk name none entry.sha256 entry.bytes
  if key ∉ s.loaded ∧ MAX_LOADED_BYTES < s.loadedBytes + entry.loadBytes then (overBudget, s)
  else if key ∈ s.loaded then (.accepted (result "already_loaded" none none none), s)
  else
    (.accepted (result "loaded" (some entry.instructions) (nonEmpty entry.resources)
        (nonEmpty (entry.references.map fun r => (r.1, r.2.bytes)))),
      ⟨s.entries, insert key s.loaded, s.loadedBytes + entry.loadBytes⟩)

def RuntimeSkills.load (s : RuntimeSkills) (name : String) (resource : Option String) : LoadResult × RuntimeSkills :=
  match s.entries.lookup name with
  | none => (.refused "unavailable" "Skill is not available in this run.", s)
  | some entry =>
      match resource with
      | some resource => s.loadReference name entry resource
      | none => s.loadSkill name entry

/-! ## §4. One call. -/

/-- What a call asks for. -/
def asked (name : String) : Option String → Key
  | some resource => .reference name resource
  | none => .skill name

/-- The bytes that a key counts. -/
def Key.size (entries : List (String × Entry)) : Key → Nat
  | skill name => ((entries.lookup name).map Entry.loadBytes).getD 0
  | reference name resource =>
      (((entries.lookup name).bind fun entry => entry.references.lookup resource).map Reference.bytes).getD 0

/-- The instructions of a key. -/
def Key.instructions (entries : List (String × Entry)) : Key → Option String
  | skill name => (entries.lookup name).map Entry.instructions
  | reference name resource =>
      ((entries.lookup name).bind fun entry => entry.references.lookup resource).map Reference.instructions

/-- The instructions that an answer has. -/
def LoadResult.instructions : LoadResult → Option String
  | refused _ _ => none
  | accepted loaded => loaded.instructions

/-- The bytes of the texts that an answer has. -/
def LoadResult.textBytes : LoadResult → Nat
  | refused _ _ => 0
  | accepted loaded =>
      (loaded.instructions.map String.utf8ByteSize).getD 0 +
        ((loaded.resources.getD []).map fun r => r.2.utf8ByteSize).sum

/-- The first load of a key: its instructions come with it. -/
structure Delivers (s : RuntimeSkills) (key : Key) (result : LoadResult) (s' : RuntimeSkills) : Prop where
  new : key ∉ s.loaded
  after : s' = ⟨s.entries, insert key s.loaded, s.loadedBytes + key.size s.entries⟩
  budget : s.loadedBytes + key.size s.entries ≤ MAX_LOADED_BYTES
  instructions : result.instructions ≠ none ∧ result.instructions = key.instructions s.entries
  text : result.textBytes ≤ key.size s.entries
  order : ∀ name resource, key = .reference name resource → .skill name ∈ s.loaded

theorem delivers_reference {s : RuntimeSkills} {name resource : String} {entry : Entry} {reference : Reference}
    (hentry : s.entries.lookup name = some entry) (href : entry.references.lookup resource = some reference)
    (hskill : .skill name ∈ s.loaded) (hnew : .reference name resource ∉ s.loaded)
    (hbudget : s.loadedBytes + reference.bytes ≤ MAX_LOADED_BYTES) :
    Delivers s (.reference name resource)
      (.accepted ⟨name, some resource, reference.sha256, reference.bytes, "loaded", some reference.instructions, none,
        none⟩)
      ⟨s.entries, insert (.reference name resource) s.loaded, s.loadedBytes + reference.bytes⟩ := by
  have hsize : Key.size s.entries (.reference name resource) = reference.bytes := by
    show (((s.entries.lookup name).bind _).map Reference.bytes).getD 0 = _
    rw [hentry, Option.bind_some, href]
    rfl
  refine ⟨hnew, by rw [hsize], by rw [hsize]; exact hbudget, ⟨(fun h => by cases h), ?_⟩, ?_, ?_⟩
  · show some reference.instructions = ((s.entries.lookup name).bind _).map Reference.instructions
    rw [hentry, Option.bind_some, href]
    rfl
  · rw [hsize]
    exact le_of_eq reference.size
  · intro name' resource' heq
    obtain ⟨rfl, _⟩ := Key.reference.inj heq
    exact hskill

theorem delivers_skill {s : RuntimeSkills} {name : String} {entry : Entry} (hentry : s.entries.lookup name = some entry)
    (hnew : .skill name ∉ s.loaded) (hbudget : s.loadedBytes + entry.loadBytes ≤ MAX_LOADED_BYTES) :
    Delivers s (.skill name)
      (.accepted ⟨name, none, entry.sha256, entry.bytes, "loaded", some entry.instructions, nonEmpty entry.resources,
        nonEmpty (entry.references.map fun r => (r.1, r.2.bytes))⟩)
      ⟨s.entries, insert (.skill name) s.loaded, s.loadedBytes + entry.loadBytes⟩ := by
  have hsize : Key.size s.entries (.skill name) = entry.loadBytes := by
    show ((s.entries.lookup name).map Entry.loadBytes).getD 0 = _
    rw [hentry]
    rfl
  have hresources : (nonEmpty entry.resources).getD [] = entry.resources := by
    unfold nonEmpty
    split
    · rename_i hnil
      exact hnil.symm
    · rfl
  refine ⟨hnew, by rw [hsize], by rw [hsize]; exact hbudget, ⟨(fun h => by cases h), ?_⟩, ?_, ?_⟩
  · show some entry.instructions = (s.entries.lookup name).map Entry.instructions
    rw [hentry]
    rfl
  · rw [hsize, entry.load]
    show entry.instructions.utf8ByteSize + (((nonEmpty entry.resources).getD []).map _).sum ≤ _
    rw [hresources]
    have hinstructions := entry.size
    omega
  · intro name' resource' heq
    cases heq

/-- A call delivers a new key, or it changes nothing and hands out no text. -/
def Outcome (s : RuntimeSkills) (key : Key) (answer : LoadResult × RuntimeSkills) : Prop :=
  Delivers s key answer.1 answer.2 ∨ (answer.2 = s ∧ answer.1.instructions = none ∧ answer.1.textBytes = 0)

theorem loadSkill_cases {s : RuntimeSkills} {name : String} {entry : Entry}
    (hentry : s.entries.lookup name = some entry) : Outcome s (.skill name) (s.loadSkill name entry) := by
  unfold RuntimeSkills.loadSkill
  dsimp only
  by_cases hknown : .skill name ∈ s.loaded
  · rw [if_neg (fun h => h.1 hknown), if_pos hknown]
    exact Or.inr ⟨rfl, rfl, rfl⟩
  by_cases hover : MAX_LOADED_BYTES < s.loadedBytes + entry.loadBytes
  · rw [if_pos ⟨hknown, hover⟩]
    exact Or.inr ⟨rfl, rfl, rfl⟩
  · rw [if_neg (fun h => hover h.2), if_neg hknown]
    exact Or.inl (delivers_skill hentry hknown (not_lt.mp hover))

theorem loadReference_cases {s : RuntimeSkills} {name resource : String} {entry : Entry}
    (hentry : s.entries.lookup name = some entry) :
    Outcome s (.reference name resource) (s.loadReference name entry resource) := by
  unfold RuntimeSkills.loadReference
  cases href : entry.references.lookup resource with
  | none => exact Or.inr ⟨rfl, rfl, rfl⟩
  | some reference =>
      dsimp only
      by_cases hskill : .skill name ∉ s.loaded
      · rw [if_pos hskill]
        exact Or.inr ⟨rfl, rfl, rfl⟩
      rw [if_neg hskill]
      by_cases hknown : .reference name resource ∈ s.loaded
      · rw [if_neg (fun h => h.1 hknown), if_pos hknown]
        exact Or.inr ⟨rfl, rfl, rfl⟩
      by_cases hover : MAX_LOADED_BYTES < s.loadedBytes + reference.bytes
      · rw [if_pos ⟨hknown, hover⟩]
        exact Or.inr ⟨rfl, rfl, rfl⟩
      · rw [if_neg (fun h => hover h.2), if_neg hknown]
        exact Or.inl (delivers_reference hentry href (not_not.mp hskill) hknown (not_lt.mp hover))

/-- **What one call does.** -/
theorem load_cases (s : RuntimeSkills) (name : String) (resource : Option String) :
    Outcome s (asked name resource) (s.load name resource) := by
  unfold RuntimeSkills.load
  cases hentry : s.entries.lookup name with
  | none => exact Or.inr ⟨rfl, rfl, rfl⟩
  | some entry =>
      cases resource with
      | none => exact loadSkill_cases hentry
      | some resource => exact loadReference_cases hentry

/-- **A refused call changes nothing.** -/
theorem load_refused {s : RuntimeSkills} {name : String} {resource : Option String} {status error : String}
    (h : (s.load name resource).1 = .refused status error) : (s.load name resource).2 = s := by
  rcases load_cases s name resource with hdelivers | ⟨hsame, _⟩
  · rw [h] at hdelivers
    exact absurd rfl hdelivers.instructions.1
  · exact hsame

/-! ## §5. A run. -/

/-- A call, and its answer. -/
structure Load where
  name : String
  resource : Option String
  result : LoadResult

/-- The key whose instructions came with an answer. -/
def Load.delivered (l : Load) : Option Key := if l.result.instructions = none then none else some (asked l.name l.resource)

/-- The state of a run, and what it has answered. -/
structure Session where
  skills : RuntimeSkills
  answers : List Load

def Session.call (s : Session) (call : String × Option String) : Session :=
  let (result, skills) := s.skills.load call.1 call.2
  ⟨skills, s.answers ++ [⟨call.1, call.2, result⟩]⟩

def Session.run (entries : List (String × Entry)) (calls : List (String × Option String)) : Session :=
  calls.foldl Session.call ⟨.fresh entries, []⟩

/-- The keys that were delivered, in order. -/
def Session.deliveries (s : Session) : List Key := s.answers.filterMap Load.delivered

/-- The bytes that were handed out. -/
def Session.textBytes (s : Session) : Nat := (s.answers.map fun l => l.result.textBytes).sum

/-- The accounts of a run over bundled entries. -/
structure Budgeted (entries : List (String × Entry)) (s : Session) : Prop where
  kept : s.skills.entries = entries
  /-- The counter is the sum over what is loaded. -/
  counted : s.skills.loadedBytes = ∑ key ∈ s.skills.loaded, key.size entries
  bounded : s.skills.loadedBytes ≤ MAX_LOADED_BYTES
  /-- What is loaded was delivered, once. -/
  once : s.deliveries.Nodup ∧ s.deliveries.toFinset = s.skills.loaded
  /-- The skill was delivered before its references. -/
  ordered : ∀ before name resource after, s.deliveries = before ++ .reference name resource :: after →
    .skill name ∈ before
  /-- What was delivered are the instructions of the key. -/
  faithful : ∀ l ∈ s.answers, l.result.instructions = none ∨
    l.result.instructions = (asked l.name l.resource).instructions entries
  text : s.textBytes ≤ s.skills.loadedBytes

theorem budgeted_fresh (entries : List (String × Entry)) : Budgeted entries ⟨.fresh entries, []⟩ := by
  refine ⟨rfl, rfl, Nat.zero_le _, ⟨List.nodup_nil, rfl⟩, ?_, ?_, Nat.le_refl _⟩
  · intro before name resource after h
    have hlen := congrArg List.length h
    rw [List.length_append, List.length_cons] at hlen
    exact absurd hlen (by show (0 : Nat) ≠ _; omega)
  · intro l hl
    cases hl

theorem Session.deliveries_call (s : Session) (call : String × Option String) :
    (s.call call).deliveries = s.deliveries ++
      (Load.delivered ⟨call.1, call.2, (s.skills.load call.1 call.2).1⟩).toList := by
  unfold Session.deliveries Session.call
  rw [List.filterMap_append]
  rfl

theorem Session.textBytes_call (s : Session) (call : String × Option String) :
    (s.call call).textBytes = s.textBytes + (s.skills.load call.1 call.2).1.textBytes := by
  unfold Session.textBytes Session.call
  rw [List.map_append, List.sum_append]
  rfl

theorem Load.delivered_none {l : Load} (h : l.result.instructions = none) : l.delivered = none := if_pos h

theorem Load.delivered_some {l : Load} (h : l.result.instructions ≠ none) :
    l.delivered = some (asked l.name l.resource) := if_neg h

/-- **One more call.** -/
theorem Budgeted.call {entries : List (String × Entry)} {s : Session} (h : Budgeted entries s)
    (call : String × Option String) : Budgeted entries (s.call call) := by
  have hdeliveries := s.deliveries_call call
  have htext := s.textBytes_call call
  have hanswers : (s.call call).answers = s.answers ++ [⟨call.1, call.2, (s.skills.load call.1 call.2).1⟩] := rfl
  have hskills : (s.call call).skills = (s.skills.load call.1 call.2).2 := rfl
  rcases load_cases s.skills call.1 call.2 with hdelivers | ⟨hsame, hnone, hzero⟩
  · have hnew := hdelivers.new
    have hafter := hdelivers.after
    rw [Load.delivered_some hdelivers.instructions.1, Option.toList_some] at hdeliveries
    rw [h.kept] at hafter
    refine ⟨?_, ?_, ?_, ⟨?_, ?_⟩, ?_, ?_, ?_⟩
    · rw [hskills, hafter]
    · rw [hskills, hafter]
      show _ = ∑ key ∈ insert _ _, Key.size entries key
      rw [Finset.sum_insert hnew, ← h.counted, Nat.add_comm]
    · rw [hskills, hafter]
      show s.skills.loadedBytes + _ ≤ _
      have hbudget := hdelivers.budget
      rw [h.kept] at hbudget
      exact hbudget
    · rw [hdeliveries]
      -- a key that was delivered is loaded
      refine h.once.1.append (List.nodup_singleton _) (List.disjoint_singleton.mpr fun hmem => hnew ?_)
      rw [← h.once.2]
      exact List.mem_toFinset.mpr hmem
    · rw [hdeliveries, hskills, hafter, List.toFinset_append, h.once.2]
      show s.skills.loaded ∪ {asked call.1 call.2} = _
      rw [Finset.union_comm, ← Finset.insert_eq]
    · intro before name resource after heq
      rw [hdeliveries] at heq
      rcases List.eq_nil_or_concat after with rfl | ⟨rest, last, rfl⟩
      · -- the new key
        obtain ⟨rfl, hkey⟩ := List.append_inj' heq rfl
        have hskill := hdelivers.order name resource (List.head_eq_of_cons_eq hkey)
        rw [← h.once.2] at hskill
        exact List.mem_toFinset.mp hskill
      · rw [List.concat_eq_append, ← List.cons_append, ← List.append_assoc] at heq
        exact h.ordered before name resource rest (List.append_inj' heq rfl).1
    · intro l hl
      rw [hanswers] at hl
      rcases List.mem_append.mp hl with hl | hl
      · exact h.faithful l hl
      · rw [List.mem_singleton.mp hl, ← h.kept]
        exact Or.inr hdelivers.instructions.2
    · rw [htext, hskills, hafter, ← h.kept]
      exact Nat.add_le_add h.text hdelivers.text
  · rw [Load.delivered_none hnone, Option.toList_none, List.append_nil] at hdeliveries
    rw [hzero, Nat.add_zero] at htext
    rw [hsame] at hskills
    refine ⟨?_, ?_, ?_, ⟨?_, ?_⟩, ?_, ?_, ?_⟩
    · rw [hskills]
      exact h.kept
    · rw [hskills]
      exact h.counted
    · rw [hskills]
      exact h.bounded
    · rw [hdeliveries]
      exact h.once.1
    · rw [hdeliveries, hskills]
      exact h.once.2
    · rw [hdeliveries]
      exact h.ordered
    · intro l hl
      rw [hanswers] at hl
      rcases List.mem_append.mp hl with hl | hl
      · exact h.faithful l hl
      · rw [List.mem_singleton.mp hl]
        exact Or.inl hnone
    · rw [htext, hskills]
      exact h.text

theorem Budgeted.calls {entries : List (String × Entry)} {s : Session} (h : Budgeted entries s)
    (calls : List (String × Option String)) : Budgeted entries (calls.foldl Session.call s) := by
  induction calls generalizing s with
  | nil => exact h
  | cons call calls ih =>
      rw [List.foldl_cons]
      exact ih (h.call call)

/-- **Loads are budgeted, and made once.**  After any calls the accounts are
right, and a further call that is refused changes nothing. -/
theorem loads_budgeted (entries : List (String × Entry)) (calls : List (String × Option String)) :
    Budgeted entries (.run entries calls) ∧
      ∀ name resource status error, ((Session.run entries calls).skills.load name resource).1 = .refused status error →
        ((Session.run entries calls).skills.load name resource).2 = (Session.run entries calls).skills := by
  refine ⟨(budgeted_fresh entries).calls calls, ?_⟩
  intro name resource status error h
  exact load_refused h

end WebBuilder.Skills
