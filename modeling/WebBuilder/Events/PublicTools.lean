/-
  WebBuilder.Events.PublicTools — the public details of tool calls.

  `public_tool_details` projects the arguments or the result of a tool call to
  a few fields, redacts them and halves the largest of them until the encoding
  fits.  The name of the tool, numbers and flags are never shortened.

  `_bounded` is a loop, and it adds a field of its own while it runs.  `shrink`
  is that loop with a bound on its turns.

  Main results:
    * `redactPublic_eq` — the fields are redacted as a value is;
    * `shrink_ends` — the loop ends;
    * `Shortening.honest` — what was shortened is what the details say.
-/
import WebBuilder.Events.Redact
import WebBuilder.Store.Query

namespace WebBuilder.Events

open WebBuilder.Budget WebBuilder.Text WebBuilder.Store
open WebBuilder.Text.Regex
open WebBuilder.Context (quoted)

/-! ## §1. Public fields. -/

def MAX_PUBLIC_BYTES : Nat := 1600

def SAFE_COMMANDS : List String := ["npm run build", "npm test", "npm run lint", "npm run typecheck", "pwd", "ls"]

/-- What a public field can be. -/
inductive Field where
  | bool (b : Bool)
  | int (n : Int)
  | str (s : String)
  | list (xs : List String)
  deriving DecidableEq

abbrev Fields := List (String × Field)

def encodeField : Field → String
  | .bool b => if b then "true" else "false"
  | .int n => toString n
  | .str s => quoted s
  | .list xs => "[" ++ ",".intercalate (xs.map quoted) ++ "]"

/-- `json.dumps(details, ensure_ascii=False, separators=(',', ':'))`. -/
def encodePublic (fields : Fields) : String :=
  "\x7b" ++ ",".intercalate (fields.map fun f => quoted f.1 ++ ":" ++ encodeField f.2) ++ "\x7d"

/-! ## §2. Projections. -/

/-- `fields.get(key)`. -/
def getField (fields : List (String × Json)) (key : String) : Json := (fields.lookup key).getD .null

/-- `value if isinstance(value, list) else []`. -/
def listOr : Json → List Json
  | .list xs => xs
  | _ => []

/-- `args if isinstance(args, dict)`, or an empty one. -/
def dictOr : Json → List (String × Json)
  | .dict fields => fields
  | _ => []

/-- The texts of a list. -/
def textsOf (xs : List Json) : List String :=
  xs.filterMap fun x =>
    match x with
    | .str s => some s
    | _ => none

/-- `isinstance(value, (str, int))`; a flag is a number. -/
def scalar : Json → Option Field
  | .str s => some (.str s)
  | .int n => some (.int n)
  | .bool b => some (.bool b)
  | _ => none

/-- `isinstance(value, (int, bool))`. -/
def number : Json → Option Field
  | .int n => some (.int n)
  | .bool b => some (.bool b)
  | _ => none

/-- `isinstance(value, str)`. -/
def text : Json → Option Field
  | .str s => some (.str s)
  | _ => none

/-- The fields under some keys that have the types asked for. -/
def picked (kind : Json → Option Field) (result : List (String × Json)) (keys : List String) : Fields :=
  keys.filterMap fun key => (kind (getField result key)).map fun value => (key, value)

/-- A list with the number of its items. -/
def counted (key count : String) (xs : List String) : Fields := [(key, .list xs), (count, .int xs.length)]

/-- `command.strip()`. -/
def strip (command : String) : String :=
  String.ofList ((command.toList.dropWhile Workspace.isSpace).reverse.dropWhile Workspace.isSpace).reverse

/-- The fields of a call that has no result yet. -/
def startedFields (name : String) (args : List (String × Json)) : Fields :=
  let changes := listOr (getField args "files")
  let paths :=
    if name = "read_files" then listOr (getField args "paths")
    else if name = "write_files" then
      changes.filterMap fun item =>
        match item with
        | .dict fields => some (getField fields "path")
        | _ => none
    else []
  let paths := textsOf paths
  if paths = [] then [] else counted "paths" "file_count" paths

/-- What a loop over the value goes through; `TypeError` for what has no items. -/
def iterate : Json → Except Exc (List Json)
  | .list xs => .ok xs
  | .str s => .ok (s.toList.map fun c => .str (String.singleton c))
  | .dict fields => .ok (fields.map fun f => .str f.1)
  | _ => .error .other

/-- The value under a key, or an empty list if there is none. -/
def getItems (fields : List (String × Json)) (key : String) : Json := (fields.lookup key).getD (.list [])

/-- `page.get('viewport') in {'desktop', 'mobile'}`; lists and dictionaries cannot be hashed. -/
def viewportOf : Json → Except Exc (Option String)
  | .dict fields =>
      match getField fields "viewport" with
      | .list _ => .error .other
      | .dict _ => .error .other
      | .str s => .ok (if s ∈ ["desktop", "mobile"] then some s else none)
      | _ => .ok none
  | _ => .ok none

def viewportsOf : List Json → Except Exc (List String)
  | [] => .ok []
  | page :: pages =>
      match viewportOf page with
      | .error e => .error e
      | .ok viewport => (viewportsOf pages).map (viewport.toList ++ ·)

/-- The bounded diagnostics of a page. -/
def inspectionFields (result : List (String × Json)) : Except Exc Fields :=
  match iterate (getItems result "errors") with
  | .error e => .error e
  | .ok errors =>
      match iterate (getItems result "pages") with
      | .error e => .error e
      | .ok pages =>
          match viewportsOf pages with
          | .error e => .error e
          | .ok viewports =>
              let errors := ((textsOf errors).map fun item => String.ofList (item.toList.take 500)).take 10
              let screenshot : Fields :=
                match getField result "screenshot" with
                | .dict screenshot =>
                    let captured := match getField screenshot "captured" with
                      | .bool b => b
                      | _ => false
                    [("screenshot_captured", .bool captured)]
                | _ => []
              .ok (picked number result ["revision", "checked", "final_verification"] ++
                [("errors", .list errors), ("viewports", .list viewports)] ++ screenshot)

/-- The fields that a tool may publish of its result. -/
def toolFields (name : String) (result : List (String × Json)) : Except Exc Fields :=
  if name = "read_files" then
    match getField result "files" with
    | .dict files => .ok (counted "files" "file_count" (files.map Prod.fst))
    | .list files => .ok (counted "files" "file_count" (textsOf files))
    | _ => .ok []
  else if name = "write_files" then
    match getField result "changed_files" with
    | .list files => .ok (counted "changed_files" "file_count" (textsOf files))
    | _ => .ok []
  else if name = "search_project_history" then
    let refs := textsOf ((listOr (getField result "messages")).filterMap fun item =>
      match item with
      | .dict fields => some (getField fields "id")
      | _ => none)
    .ok (counted "message_ids" "match_count" refs)
  else if name = "read_skill" then
    .ok (picked scalar result ["name", "resource", "sha256", "bytes", "status"])
  else if name = "execute_command" ∨ name = "browser_preflight" then
    .ok (picked scalar result
      ["stdout", "stderr", "exit_code", "pid", "status", "reconnected", "output_may_be_incomplete"])
  else if name = "inspect_preview" then inspectionFields result
  else .ok []

/-- What is told of a command. -/
def commandFields (args : List (String × Json)) : Fields :=
  match getField args "command" with
  | .str command =>
      if strip command ∈ SAFE_COMMANDS then [("command", .str (strip command))] else [("input_omitted", .bool true)]
  | _ => [("input_omitted", .bool true)]

/-- The fields of `public_tool_details` before `_bounded`.  `None` is `null`;
a result of another type has no `get`. -/
def projected (name : String) (args result : Json) : Except Exc Fields :=
  let kind : Fields := [("version", .int 1), ("kind", .str (String.ofList (name.toList.take 80)))]
  let args := dictOr args
  let command := if name = "execute_command" then commandFields args else []
  match result with
  | .null => .ok (kind ++ startedFields name args ++ command)
  | .dict result =>
      match toolFields name result with
      | .error e => .error e
      | .ok fields =>
          .ok (kind ++ ("ok", .bool (getField result "ok").truthy) :: fields ++
            picked text result ["error", "error_type"] ++ command)
  | _ => .error .other

/-! ## §3. `_bounded`. -/

/-- `redact` of a field. -/
def redactField (U : Unicode) (environ : List (String × String)) : Field → Field
  | .str s => .str (redactText U environ none s)
  | .list xs => .list ((xs.take 250).map (redactText U environ none))
  | .bool b => .bool b
  | .int n => .int n

/-- `redact(fields, max_length=None)`. -/
def redactPublic (U : Unicode) (environ : List (String × String)) (fields : Fields) : Fields :=
  (fields.filter fun f => U.lower f.1 ∉ droppedKeys).map fun f => (f.1, redactField U environ f.2)

/-- The fields that are never shortened. -/
def keptKeys : List String := ["version", "kind", "error_category", "truncated_fields"]

/-- A field as a value. -/
def Field.value : Field → Json
  | .bool b => .bool b
  | .int n => .int n
  | .str s => .str s
  | .list xs => .list (xs.map Json.str)

/-- **Fields are redacted as the dictionary of their values is.** -/
theorem redactPublic_eq (U : Unicode) (environ : List (String × String)) (fields : Fields) :
    redact U environ none (.dict (fields.map fun f => (f.1, f.2.value))) =
      .dict ((redactPublic U environ fields).map fun f => (f.1, f.2.value)) := by
  have hitems : ∀ (xs : List String) (n : Nat), redactItems U environ none n (xs.map Json.str) =
      ((xs.take n).map (redactText U environ none)).map Json.str := by
    intro xs
    induction xs with
    | nil =>
        intro n
        cases n <;> rfl
    | cons x xs ih =>
        intro n
        cases n with
        | zero => rfl
        | succ n =>
            rw [List.map_cons, redactItems, ih n]
            rfl
  have hvalue : ∀ f : Field, redact U environ none f.value = (redactField U environ f).value := by
    intro f
    cases f with
    | bool b => rfl
    | int n => rfl
    | str s => rfl
    | list xs => exact congrArg Json.list (hitems xs 250)
  show Json.dict _ = _
  congr 1
  unfold redactPublic
  induction fields with
  | nil => rfl
  | cons f fields ih =>
      rw [List.map_cons, redactFields]
      by_cases hdrop : U.lower f.1 ∈ droppedKeys
      · rw [if_pos hdrop, List.filter_cons_of_neg (by simp [hdrop])]
        exact ih
      · rw [if_neg hdrop, List.filter_cons_of_pos (by simp [hdrop]), List.map_cons, List.map_cons, hvalue, ih]

/-- A text or a list that is not empty. -/
def Field.shrinkable : Field → Bool
  | .str s => s ≠ ""
  | .list xs => xs ≠ []
  | .bool _ => false
  | .int _ => false

/-- `value[:len(value) // 2]`. -/
def Field.halve : Field → Field
  | .str s => .str (String.ofList (s.toList.take (s.length / 2)))
  | .list xs => .list (xs.take (xs.length / 2))
  | .bool b => .bool b
  | .int n => .int n

/-- The encoded size and the key of every field that can be shortened. -/
def candidates (result : Fields) : List (Nat ×ₗ String) :=
  (result.filter fun f => f.1 ∉ keptKeys && f.2.shrinkable).map fun f =>
    toLex ((encodeField f.2).utf8ByteSize, f.1)

/-- `result[key] = …`, for a key that is there or a new one. -/
def assign (key : String) (value : Field) : Fields → Fields
  | [] => [(key, value)]
  | (k, v) :: rest => if k = key then (key, value) :: rest else (k, v) :: assign key value rest

/-- `result[key] = value[:len(value) // 2]`, with the value of the key. -/
def halveAt (key : String) (result : Fields) : Fields :=
  result.map fun f => if f.1 = key then (f.1, f.2.halve) else f

/-- The loop of `_bounded`, for so many turns. -/
def shrink : Nat → Fields → List String → Option Fields
  | 0, _, _ => none
  | turns + 1, result, truncated =>
      if (encodePublic result).utf8ByteSize ≤ MAX_PUBLIC_BYTES then some result
      else
        match (candidates result).max? with
        | none => some result
        | some best =>
            let key := (ofLex best).2
            let truncated := if key ∈ truncated then truncated else truncated ++ [key]
            shrink turns (assign "truncated_fields" (.list (orderBy id truncated)) (halveAt key result)) truncated

/-- `public_tool_details`, for so many turns of its loop. -/
def publicToolDetails (turns : Nat) (U : Unicode) (environ : List (String × String)) (name : String)
    (args result : Json) : Option (Except Exc Fields) :=
  match projected name args result with
  | .error e => some (.error e)
  | .ok fields => (shrink turns (redactPublic U environ fields) []).map .ok

/-! ## §4. What is left of a field. -/

/-- A field that may have been shortened. -/
inductive Field.Part : Field → Field → Prop where
  | bool (b : Bool) : Field.Part (.bool b) (.bool b)
  | int (n : Int) : Field.Part (.int n) (.int n)
  | str {s t : String} (h : s.toList <+: t.toList) : Field.Part (.str s) (.str t)
  | list {xs ys : List String} (h : xs <+: ys) : Field.Part (.list xs) (.list ys)

theorem Field.part_self (f : Field) : f.Part f := by
  cases f with
  | bool b => exact .bool b
  | int n => exact .int n
  | str s => exact .str List.prefix_rfl
  | list xs => exact .list List.prefix_rfl

/-- The number of characters or items. -/
def Field.length : Field → Nat
  | .str s => s.length
  | .list xs => xs.length
  | .bool _ => 0
  | .int _ => 0

theorem Field.Part.length_le {f g : Field} (h : g.Part f) : g.length ≤ f.length := by
  cases h with
  | bool b => exact Nat.le_refl _
  | int n => exact Nat.le_refl _
  | list h => exact h.length_le
  | str h =>
      have hle := h.length_le
      rwa [String.length_toList, String.length_toList] at hle

theorem Field.Part.halve {f g : Field} (h : g.Part f) : g.halve.Part f := by
  cases h with
  | bool b => exact .bool b
  | int n => exact .int n
  | list h => exact .list ((List.take_prefix _ _).trans h)
  | str h =>
      refine .str ?_
      rw [String.toList_ofList]
      exact (List.take_prefix _ _).trans h

theorem Field.length_halve_le (f : Field) : f.halve.length ≤ f.length := (f.part_self).halve.length_le

/-- What can be shortened gets shorter. -/
theorem Field.length_halve {f : Field} (h : f.shrinkable = true) : f.halve.length < f.length := by
  cases f with
  | bool b => cases h
  | int n => cases h
  | str s =>
      have hs : s.toList ≠ [] := by
        intro hnil
        exact of_decide_eq_true h (String.toList_injective hnil)
      have hpos := List.length_pos_iff.mpr hs
      show (String.ofList (s.toList.take (s.length / 2))).length < s.length
      rw [← String.length_toList, String.toList_ofList, List.length_take]
      rw [String.length_toList] at hpos ⊢
      omega
  | list xs =>
      have hpos := List.length_pos_iff.mpr (of_decide_eq_true h)
      show (xs.take (xs.length / 2)).length < xs.length
      rw [List.length_take]
      omega

/-! ## §5. Honest details. -/

/-- The keys of the fields that differ. -/
def shortened (full body : Fields) : List String :=
  ((full.zip body).filter fun p => p.2.2 ≠ p.1.2).map fun p => p.1.1

/-- The field that names what was shortened, if anything was. -/
def truncatedEntry (keys : List String) : Fields :=
  if keys = [] then [] else [("truncated_fields", .list (orderBy id keys))]

/-- **Honest details**: every field is there under its key, whole or its
beginning; what is never shortened is whole; the names of what was shortened
follow in order. -/
def Honest (full details : Fields) : Prop :=
  ∃ body, details = body ++ truncatedEntry (shortened full body) ∧
    List.Forall₂ (fun f g => g.1 = f.1 ∧ g.2.Part f.2 ∧ (f.1 ∈ keptKeys → g.2 = f.2)) full body

/-- What holds at every turn of the loop. -/
structure Shortening (full : Fields) (truncated : List String) (body : Fields) : Prop where
  parts : List.Forall₂ (fun f g => g.1 = f.1 ∧ g.2.Part f.2 ∧ (f.1 ∈ keptKeys → g.2 = f.2) ∧
    (g.2 = f.2 ↔ f.1 ∉ truncated)) full body
  keys : ∀ key ∈ truncated, key ∈ full.map Prod.fst
  nodup : truncated.Nodup

theorem shortening_self (full : Fields) : Shortening full [] full where
  parts := List.forall₂_same.mpr fun f _ => ⟨rfl, f.2.part_self, fun _ => rfl, by simp⟩
  keys := fun key h => absurd h List.not_mem_nil
  nodup := List.nodup_nil

variable {full body : Fields} {truncated : List String}

theorem Shortening.keys_eq (h : Shortening full truncated body) : body.map Prod.fst = full.map Prod.fst := by
  have hparts := h.parts
  clear h
  induction hparts with
  | nil => rfl
  | cons hfield _ ih =>
      rw [List.map_cons, List.map_cons, hfield.1, ih]

/-- The names that the loop has collected are those of the fields that differ. -/
theorem Shortening.perm (h : Shortening full truncated body) (hnd : (full.map Prod.fst).Nodup) :
    truncated.Perm (shortened full body) := by
  obtain ⟨hlen, hparts⟩ := List.forall₂_iff_zip.mp h.parts
  have hkeys : (full.zip body).map (fun p => p.1.1) = full.map Prod.fst := by
    have hfst := congrArg (List.map Prod.fst) (List.map_fst_zip (le_of_eq hlen))
    rwa [List.map_map] at hfst
  have hshort : (shortened full body).Nodup := by
    unfold shortened
    refine List.Nodup.sublist ?_ hnd
    rw [← hkeys]
    exact List.filter_sublist.map _
  refine (List.perm_ext_iff_of_nodup h.nodup hshort).mpr fun key => ?_
  unfold shortened
  simp only [List.mem_map, List.mem_filter, decide_eq_true_eq]
  constructor
  · intro hkey
    have hin := h.keys key hkey
    rw [← hkeys, List.mem_map] at hin
    obtain ⟨p, hp, rfl⟩ := hin
    refine ⟨p, ⟨hp, fun heq => ?_⟩, rfl⟩
    exact (hparts hp).2.2.2.mp heq hkey
  · rintro ⟨p, ⟨hp, hne⟩, rfl⟩
    by_contra hkey
    exact hne ((hparts hp).2.2.2.mpr hkey)

theorem Shortening.honest (h : Shortening full truncated body) (hnd : (full.map Prod.fst).Nodup) :
    Honest full (body ++ truncatedEntry truncated) := by
  refine ⟨body, ?_, h.parts.imp fun _ _ hfield => ⟨hfield.1, hfield.2.1, hfield.2.2.1⟩⟩
  have hperm := h.perm hnd
  have hsorted : orderBy id truncated = orderBy id (shortened full body) :=
    orderBy_eq hperm fun a _ b _ hab => hab
  unfold truncatedEntry
  rw [hsorted]
  have hnil : truncated = [] ↔ shortened full body = [] := by
    rw [← List.length_eq_zero_iff, hperm.length_eq, List.length_eq_zero_iff]
  rw [if_congr hnil rfl rfl]

/-! ## §6. The loop. -/

/-- What the loop can still take away. -/
def weight (body : Fields) : Nat := (body.map fun f => f.2.length).sum

theorem candidates_entry (body : Fields) (truncated : List String) :
    candidates (body ++ truncatedEntry truncated) = candidates body := by
  have hnone : candidates (truncatedEntry truncated) = [] := by
    unfold truncatedEntry
    split
    · rfl
    · unfold candidates
      have hkept : "truncated_fields" ∈ keptKeys := by decide
      rw [List.filter_cons_of_neg (by simp [hkept])]
      rfl
  unfold candidates at hnone ⊢
  rw [List.filter_append, List.map_append, hnone, List.append_nil]

theorem halveAt_entry {key : String} (hkey : key ∉ keptKeys) (body : Fields) (truncated : List String) :
    halveAt key (body ++ truncatedEntry truncated) = halveAt key body ++ truncatedEntry truncated := by
  have hsame : halveAt key (truncatedEntry truncated) = truncatedEntry truncated := by
    unfold truncatedEntry
    split
    · rfl
    · have hne : "truncated_fields" ≠ key := fun heq => hkey (heq ▸ by decide)
      show [if "truncated_fields" = key then _ else _] = _
      rw [if_neg hne]
  unfold halveAt at hsame ⊢
  rw [List.map_append, hsame]

theorem assign_entry {body : Fields} (hfresh : "truncated_fields" ∉ body.map Prod.fst) (truncated : List String)
    (value : Field) :
    assign "truncated_fields" value (body ++ truncatedEntry truncated) = body ++ [("truncated_fields", value)] := by
  induction body with
  | nil =>
      unfold truncatedEntry
      split
      · rfl
      · rw [List.nil_append, assign, if_pos rfl]
        rfl
  | cons f body ih =>
      rw [List.map_cons, List.mem_cons, not_or] at hfresh
      rw [List.cons_append, assign, if_neg (Ne.symm hfresh.1), ih hfresh.2]
      rfl

theorem keys_halveAt (key : String) (body : Fields) : (halveAt key body).map Prod.fst = body.map Prod.fst := by
  unfold halveAt
  rw [List.map_map]
  refine List.map_congr_left fun f _ => ?_
  show (if f.1 = key then (f.1, f.2.halve) else f).1 = f.1
  split <;> rfl

/-- A field that the loop can choose. -/
def Choice (key : String) (body : Fields) : Prop :=
  key ∉ keptKeys ∧ ∃ f ∈ body, f.1 = key ∧ f.2.shrinkable = true

theorem choice_of_candidate {best : Nat ×ₗ String} (h : best ∈ candidates body) : Choice (ofLex best).2 body := by
  obtain ⟨f, hf, rfl⟩ := List.mem_map.mp h
  obtain ⟨hin, hcond⟩ := List.mem_filter.mp hf
  rw [Bool.and_eq_true, decide_eq_true_eq] at hcond
  exact ⟨hcond.1, f, hin, rfl, hcond.2⟩

/-- **Every turn takes something away.** -/
theorem weight_halveAt {key : String} (h : Choice key body) : weight (halveAt key body) < weight body := by
  obtain ⟨_, f, hf, hkey, hshrink⟩ := h
  unfold weight halveAt
  rw [List.map_map]
  refine List.sum_lt_sum _ _ (fun g _ => ?_) ⟨f, hf, ?_⟩
  · show (if g.1 = key then (g.1, g.2.halve) else g).2.length ≤ g.2.length
    split
    · exact g.2.length_halve_le
    · exact Nat.le_refl _
  · show (if f.1 = key then (f.1, f.2.halve) else f).2.length < f.2.length
    rw [if_pos hkey]
    exact Field.length_halve hshrink

theorem Shortening.halveAt (h : Shortening full truncated body) (hnd : (full.map Prod.fst).Nodup) {key : String}
    (hchoice : Choice key body) :
    Shortening full (if key ∈ truncated then truncated else truncated ++ [key]) (halveAt key body) := by
  have hkeys := h.keys_eq
  obtain ⟨hkept, f, hf, hkey, hshrink⟩ := hchoice
  have hmem : ∀ k, k ∈ (if key ∈ truncated then truncated else truncated ++ [key]) ↔ k ∈ truncated ∨ k = key := by
    intro k
    split
    · rename_i hin
      exact ⟨Or.inl, fun hk => hk.elim id fun heq => heq ▸ hin⟩
    · rw [List.mem_append, List.mem_singleton]
  refine ⟨?_, fun k hk => ?_, ?_⟩
  · rw [List.forall₂_iff_zip]
    obtain ⟨hlen, hparts⟩ := List.forall₂_iff_zip.mp h.parts
    refine ⟨by rw [hlen]; exact (List.length_map _).symm, fun {a b} hab => ?_⟩
    unfold WebBuilder.Events.halveAt at hab
    rw [List.zip_map_right] at hab
    obtain ⟨⟨a', g⟩, hag, heq⟩ := List.mem_map.mp hab
    obtain ⟨rfl, rfl⟩ := Prod.mk.inj heq
    obtain ⟨hname, hpart, hwhole, hnamed⟩ := hparts hag
    rw [hmem]
    dsimp only [id]
    by_cases hg : g.1 = key
    · -- the field of this key is the one that was chosen
      have hgf : g = f := by
        have hbody : (body.map Prod.fst).Nodup := by
          rw [hkeys]
          exact hnd
        exact List.inj_on_of_nodup_map hbody (List.of_mem_zip hag).2 hf (by rw [hg, hkey])
      have hlt := Field.length_halve hshrink
      have hle := hpart.length_le
      rw [if_pos hg]
      refine ⟨hname, hpart.halve, fun hin => absurd (hg ▸ hname ▸ hin) hkept, fun hsame => ?_, fun hnot => ?_⟩
      · rw [← hsame, hgf] at hle
        exact absurd hle (Nat.not_le.mpr hlt)
      · exact absurd (Or.inr (hname ▸ hg)) hnot
    · rw [if_neg hg]
      refine ⟨hname, hpart, hwhole, hnamed.trans ⟨fun hnot hor => ?_, fun hnot hin => hnot (Or.inl hin)⟩⟩
      exact hor.elim hnot fun heq => hg (hname.trans heq)
  · rcases (hmem k).mp hk with hin | rfl
    · exact h.keys k hin
    · rw [← hkeys, ← hkey]
      exact List.mem_map_of_mem hf
  · split
    · exact h.nodup
    · rename_i hnot
      rw [List.nodup_append]
      refine ⟨h.nodup, List.nodup_singleton key, fun a ha b hb hab => ?_⟩
      exact hnot (List.mem_singleton.mp hb ▸ hab ▸ ha)

/-- **The loop ends**, and what it returns fits or has nothing left to shorten. -/
theorem shrink_ends (hnd : (full.map Prod.fst).Nodup) (hfresh : "truncated_fields" ∉ full.map Prod.fst) {turns : Nat}
    (hturns : weight body < turns) (h : Shortening full truncated body) :
    ∃ truncated' body', shrink turns (body ++ truncatedEntry truncated) truncated =
        some (body' ++ truncatedEntry truncated') ∧ Shortening full truncated' body' ∧
      ((encodePublic (body' ++ truncatedEntry truncated')).utf8ByteSize ≤ MAX_PUBLIC_BYTES ∨ candidates body' = []) := by
  induction turns generalizing body truncated with
  | zero => cases hturns
  | succ turns ih =>
      unfold shrink
      by_cases hfits : (encodePublic (body ++ truncatedEntry truncated)).utf8ByteSize ≤ MAX_PUBLIC_BYTES
      · rw [if_pos hfits]
        exact ⟨truncated, body, rfl, h, Or.inl hfits⟩
      · rw [if_neg hfits, candidates_entry]
        split
        · rename_i hnone
          exact ⟨truncated, body, rfl, h, Or.inr (List.max?_eq_none_iff.mp hnone)⟩
        · rename_i best hbest
          have hchoice := choice_of_candidate (List.max?_mem hbest)
          have hlt := weight_halveAt hchoice
          have hnext := h.halveAt hnd hchoice
          dsimp only
          generalize hkey : (ofLex best).2 = key at hchoice hlt hnext ⊢
          have hfresh' : "truncated_fields" ∉ (WebBuilder.Events.halveAt key body).map Prod.fst := by
            rw [keys_halveAt, h.keys_eq]
            exact hfresh
          rw [halveAt_entry hchoice.1, assign_entry hfresh']
          have hentry : [("truncated_fields", Field.list (orderBy id
              (if key ∈ truncated then truncated else truncated ++ [key])))] =
              truncatedEntry (if key ∈ truncated then truncated else truncated ++ [key]) := by
            have hne : (if key ∈ truncated then truncated else truncated ++ [key]) ≠ [] := by
              split
              · rename_i hin
                exact List.ne_nil_of_mem hin
              · exact List.append_ne_nil_of_right_ne_nil _ (List.cons_ne_nil _ _)
            unfold truncatedEntry
            rw [if_neg hne]
          rw [hentry]
          exact ih (by omega) hnext

/-- More turns change nothing. -/
theorem shrink_mono {turns : Nat} {fields details : Fields} (h : shrink turns fields truncated = some details) :
    shrink (turns + 1) fields truncated = some details := by
  induction turns generalizing fields truncated with
  | zero => cases h
  | succ turns ih =>
      unfold shrink at h ⊢
      split at h
      · rename_i hfits
        rw [if_pos hfits]
        exact h
      · rename_i hlarge
        rw [if_neg hlarge]
        split at h
        · exact h
        · exact ih h

theorem shrink_enough {n turns : Nat} {fields details : Fields} (h : shrink n fields truncated = some details)
    (hturns : n ≤ turns) : shrink turns fields truncated = some details := by
  induction hturns with
  | refl => exact h
  | step _ ih => exact shrink_mono ih

end WebBuilder.Events
