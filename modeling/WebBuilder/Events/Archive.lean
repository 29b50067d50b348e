/-
  WebBuilder.Events.Archive — the log of a run.

  `archive_run` of `events.py` writes a finished run's events as lines of
  JSON.  An event whose line is too long keeps its own fields only, cut to 128
  characters each.  Lines are counted in bytes: a character costs up to six of
  them, but the fields that the service fills in itself cost one.

  Main results:
    * `size_shorten` — what is left of an event fits a line;
    * `redactText_quiet` — names of the service are redacted to themselves;
    * `archive_fits` — a run's log can always be archived.
-/
import WebBuilder.Events.JsonText
import WebBuilder.Events.PublicBounds

namespace WebBuilder.Events

open WebBuilder.Budget WebBuilder.Text WebBuilder.Store
open WebBuilder.Text.Regex
open WebBuilder.Context (quoted size_quoted escapedSize escapedSize_le size_intercalate_le size_int)

/-! ## §1. Dictionaries. -/

abbrev Dict := List (String × Json)

/-- `fields[key] = value`. -/
def setKey (fields : Dict) (key : String) (value : Json) : Dict :=
  if key ∈ fields.map Prod.fst then fields.map fun f => if f.1 = key then (key, value) else f
  else fields ++ [(key, value)]

/-- `{**fields, **others}`. -/
def update (fields others : Dict) : Dict := others.foldl (fun fields f => setKey fields f.1 f.2) fields

/-! ## §2. `event`, `run_events`, `archive_run`. -/

/-- `event` of `service.py`, of the run `liveId` with so many events. -/
def event (U : Unicode) (environ : List (String × String)) (liveId : String) (events : Nat) (kind createdAt : String)
    (payload : Dict) : Dict :=
  redactFields U environ (some 4000) (update
    [("e", .str kind), ("run_id", .str liveId), ("event_id", .str (liveId ++ ":" ++ toString (events + 1))),
      ("sequence", .int (events + 1)), ("created_at", .str createdAt)] payload)

/-- A row of `run_events`. -/
structure RunEvent where
  runId : String
  sequence : Int
  payload : Dict
  /-- The payload is a dictionary. -/
  nodup : (payload.map Prod.fst).Nodup

/-- `{**row.payload, 'sequence': row.sequence}`. -/
def RunEvent.toEvent (row : RunEvent) : Dict := setKey row.payload "sequence" (.int row.sequence)

def runEvents (table : List RunEvent) (runId : String) (afterSequence : Int) : List Dict :=
  ((orderBy RunEvent.sequence (table.filter fun row => row.runId = runId ∧ afterSequence < row.sequence)).take 201).map
    RunEvent.toEvent

/-- What an event keeps if its line is too long. -/
def archivedKeys : List String :=
  ["e", "run_id", "event_id", "sequence", "created_at", "name", "call_id", "status", "ok", "message", "output",
    "revision_id", "duration_ms"]

/-- `v[:128] if isinstance(v, str) else v`. -/
def cutText : Json → Json
  | .str s => .str (String.ofList (s.toList.take 128))
  | v => v

def shorten (entry : Dict) : Dict :=
  setKey ((entry.filter fun f => f.1 ∈ archivedKeys).map fun f => (f.1, cutText f.2)) "details_truncated" (.bool true)

/-- The entry of one event. -/
def archiveEntry (U : Unicode) (environ : List (String × String)) (event : Dict) : Dict :=
  let entry := redactFields U environ (some 4000) event
  if 4096 < (encode (.dict entry)).utf8ByteSize then shorten entry else entry

/-- `b''.join(lines)`. -/
def archiveBody (U : Unicode) (environ : List (String × String)) (events : List Dict) : Except String String :=
  let lines := events.map fun event => encode (.dict (archiveEntry U environ event)) ++ "\n"
  let body := String.join lines
  if 1024 * 1024 < body.utf8ByteSize then .error "Run diagnostic archive exceeds 1 MiB" else .ok body

/-- What is read of a `runs` row. -/
structure LoggedRun where
  running : Bool
  logSha256 : Option String

/-- The libraries, and the storage under the key of the log. -/
structure ArchiveStore where
  compress : String → ByteArray
  sha256 : ByteArray → String
  /-- `put_object`. -/
  put : ByteArray → Except String Unit
  /-- `read_object`, after the upload of these bytes. -/
  read : ByteArray → Except String ByteArray

/-- `archive_run`: the key and the digest of the log, if it is written. -/
def archiveRun (U : Unicode) (environ : List (String × String)) (S : ArchiveStore) (run : Option LoggedRun)
    (table : List RunEvent) (runId : String) : Except String (Option (String × String)) :=
  if run.all fun run => run.running || run.logSha256.isSome then .ok none
  else if runEvents table runId 0 = [] then .ok none
  else do
    let body ← archiveBody U environ (runEvents table runId 0)
    let archive := S.compress body
    S.put archive
    let stored ← S.read archive
    if S.sha256 stored ≠ S.sha256 archive then .error "Run log archive verification failed"
    else return some ("logs/" ++ runId ++ ".jsonl.gz", S.sha256 archive)

/-! ## §3. What is emitted. -/

/-- The kinds of events. -/
def KINDS : List String :=
  ["run_started", "stage", "verification", "tool_started", "tool_completed", "checkpoint_saved", "run_finished"]

/-- The characters of `str(uuid.uuid4())`. -/
def uuidChars : List Char := "0123456789abcdef-".toList

/-- The fields that the service fills in itself. -/
def hostKeys : List String := ["e", "run_id", "event_id", "created_at", "status", "revision_id"]

/-- The fields with a text of any kind. -/
def textKeys : List String := ["name", "call_id", "message", "output"]

/-- ASCII that is encoded as it is. -/
def graphic (c : Char) : Bool := 32 ≤ c.toNat && c.toNat < 127 && c ≠ '"' && c ≠ '\\'

/-- No secret of the environment is in the text. -/
def SecretFree (environ : List (String × String)) (text : String) : Prop :=
  ∀ s ∈ secrets environ, ¬ s.toList <:+: text.toList

/-- What the service knows of a field that it may archive. -/
def HostField (key : String) : Json → Prop
  | .null => key ∈ hostKeys ++ textKeys
  | .bool _ => key = "ok"
  | .int n => (key = "sequence" ∨ key = "duration_ms") ∧ -2 ^ 63 ≤ n ∧ n < 2 ^ 64
  | .str s => key ∈ textKeys ∨ (key ∈ hostKeys ∧ s.length ≤ 64 ∧ s.toList.all graphic = true)
  | _ => False

instance (key : String) : (value : Json) → Decidable (HostField key value)
  | .null => inferInstanceAs (Decidable (key ∈ hostKeys ++ textKeys))
  | .bool _ => inferInstanceAs (Decidable (key = "ok"))
  | .int n => inferInstanceAs (Decidable ((key = "sequence" ∨ key = "duration_ms") ∧ -2 ^ 63 ≤ n ∧ n < 2 ^ 64))
  | .str s => inferInstanceAs (Decidable (key ∈ textKeys ∨ (key ∈ hostKeys ∧ s.length ≤ 64 ∧ s.toList.all graphic = true)))
  | .float _ _ => inferInstanceAs (Decidable False)
  | .list _ => inferInstanceAs (Decidable False)
  | .dict _ => inferInstanceAs (Decidable False)

instance (environ : List (String × String)) (text : String) : Decidable (SecretFree environ text) :=
  inferInstanceAs (Decidable (∀ s ∈ secrets environ, ¬ s.toList <:+: text.toList))

/-- An event of this service, in its row. -/
structure Emitted (environ : List (String × String)) (row : RunEvent) : Prop where
  sequence : 0 < row.sequence ∧ row.sequence < 2 ^ 63
  kind : ∃ e ∈ KINDS, row.payload.lookup "e" = some (.str e) ∧ SecretFree environ e
  run : (∀ c ∈ row.runId.toList, c ∈ uuidChars) ∧ row.payload.lookup "run_id" = some (.str row.runId) ∧
    SecretFree environ row.runId
  /-- `run_finished` has `terminal` for its number. -/
  event : ∃ number, (number = "terminal" ∨ ∃ n : Nat, number = toString n) ∧
    row.payload.lookup "event_id" = some (.str (row.runId ++ ":" ++ number)) ∧
    SecretFree environ (row.runId ++ ":" ++ number)
  fields : ∀ f ∈ row.payload, f.1 ∈ archivedKeys → HostField f.1 f.2
  finite : Finite (.dict row.payload)

/-- The log of some rows: a line for each of them. -/
structure Logged (rows : List RunEvent) (entries : List Dict) (body : String) : Prop where
  lines : body = String.join (entries.map fun entry => encode (.dict entry) ++ "\n")
  valid : ∀ entry ∈ entries, IsText (.dict entry) (encode (.dict entry)) ∧ OneLine (encode (.dict entry))
  short : ∀ entry ∈ entries, (encode (.dict entry)).utf8ByteSize ≤ 4096
  /-- Row for row, in the order of their numbers. -/
  faithful : List.Forall₂ (fun row entry => entry.lookup "sequence" = some (.int row.sequence) ∧
    ∀ key ∈ ["e", "run_id", "event_id"], entry.lookup key = row.payload.lookup key) rows entries
  ordered : rows.Pairwise fun a b => a.sequence ≤ b.sequence
  size : body.utf8ByteSize ≤ 1024 * 1024

/-! ## §4. Fields that are kept. -/

theorem lookup_setKey (fields : Dict) (key : String) (value : Json) : (setKey fields key value).lookup key = some value := by
  unfold setKey
  induction fields with
  | nil => simp
  | cons f fields ih =>
      by_cases hf : f.1 = key
      · rw [if_pos (by rw [List.map_cons, hf]; exact List.mem_cons_self), List.map_cons, if_pos hf, List.lookup_cons,
          beq_self_eq_true]
      · have hbeq : (key == f.1) = false := beq_false_of_ne (Ne.symm hf)
        have hmem : key ∈ (f :: fields).map Prod.fst ↔ key ∈ fields.map Prod.fst := by
          rw [List.map_cons, List.mem_cons, or_iff_right (Ne.symm hf)]
        by_cases hin : key ∈ fields.map Prod.fst
        · rw [if_pos hin] at ih
          rw [if_pos (hmem.mpr hin), List.map_cons, if_neg hf, List.lookup_cons, hbeq]
          exact ih
        · rw [if_neg hin] at ih
          rw [if_neg (fun h => hin (hmem.mp h)), List.cons_append, List.lookup_cons, hbeq]
          exact ih

theorem lookup_setKey_other {key other : String} (h : other ≠ key) (fields : Dict) (value : Json) :
    (setKey fields key value).lookup other = fields.lookup other := by
  unfold setKey
  split
  · clear * - h
    induction fields with
    | nil => rfl
    | cons f fields ih =>
        rw [List.map_cons, List.lookup_cons]
        by_cases hf : f.1 = key
        · have hbeq : (other == key) = false := beq_false_of_ne h
          have hbeq' : (other == f.1) = false := beq_false_of_ne (by rw [hf]; exact h)
          rw [if_pos hf, hbeq, ih, List.lookup_cons, hbeq']
        · rw [if_neg hf, List.lookup_cons, ih]
  · rw [List.lookup_append, List.lookup_cons, beq_false_of_ne h]
    exact Option.or_none

theorem keys_setKey (fields : Dict) (key : String) (value : Json) (h : key ∈ fields.map Prod.fst) :
    (setKey fields key value).map Prod.fst = fields.map Prod.fst := by
  unfold setKey
  rw [if_pos h, List.map_map]
  refine List.map_congr_left fun f _ => ?_
  rw [Function.comp_apply]
  split
  · rename_i hf
    exact hf.symm
  · rfl

theorem nodup_setKey {fields : Dict} (hnodup : (fields.map Prod.fst).Nodup) (key : String) (value : Json) :
    ((setKey fields key value).map Prod.fst).Nodup := by
  by_cases h : key ∈ fields.map Prod.fst
  · rw [keys_setKey fields key value h]
    exact hnodup
  · unfold setKey
    rw [if_neg h, List.map_append]
    exact hnodup.append (List.nodup_singleton _) (List.disjoint_singleton.mpr h)

theorem mem_setKey {fields : Dict} {key : String} {value : Json} {f : String × Json} (h : f ∈ setKey fields key value) :
    f = (key, value) ∨ f ∈ fields := by
  unfold setKey at h
  split at h
  · obtain ⟨g, hg, rfl⟩ := List.mem_map.mp h
    split
    · exact Or.inl rfl
    · exact Or.inr hg
  · rcases List.mem_append.mp h with h | h
    · exact Or.inr h
    · exact Or.inl (List.mem_singleton.mp h)

section Redacted

variable (U : Unicode) (environ : List (String × String)) (maxLength : Option Int)

theorem lookup_redactFields {key : String} (hsmall : key.toList.all small = true) (hkept : key ∉ droppedKeys)
    (fields : Dict) :
    (redactFields U environ maxLength fields).lookup key = (fields.lookup key).map (redact U environ maxLength) := by
  induction fields with
  | nil => rfl
  | cons f fields ih =>
      obtain ⟨k, v⟩ := f
      rw [redactFields, List.lookup_cons]
      by_cases hk : key = k
      · subst hk
        rw [U.lower_small key hsmall, if_neg hkept, List.lookup_cons, beq_self_eq_true]
        rfl
      · have hbeq : (key == k) = false := beq_false_of_ne hk
        rw [hbeq]
        split
        · exact ih
        · rw [List.lookup_cons, hbeq]
          exact ih

theorem keys_redactFields (fields : Dict) :
    ((redactFields U environ maxLength fields).map Prod.fst).Sublist (fields.map Prod.fst) := by
  induction fields with
  | nil => exact List.Sublist.refl _
  | cons f fields ih =>
      rw [redactFields, List.map_cons]
      split
      · exact ih.cons _
      · rw [List.map_cons]
        exact ih.cons_cons _

theorem mem_redactFields {fields : Dict} {f : String × Json} (h : f ∈ redactFields U environ maxLength fields) :
    ∃ v, (f.1, v) ∈ fields ∧ f.2 = redact U environ maxLength v := by
  induction fields with
  | nil => cases h
  | cons g fields ih =>
      rw [redactFields] at h
      split at h
      · obtain ⟨v, hv, heq⟩ := ih h
        exact ⟨v, List.mem_cons_of_mem _ hv, heq⟩
      · rcases List.mem_cons.mp h with rfl | h
        · exact ⟨g.2, List.mem_cons_self, rfl⟩
        · obtain ⟨v, hv, heq⟩ := ih h
          exact ⟨v, List.mem_cons_of_mem _ hv, heq⟩

mutual

/-- Redaction adds no float. -/
theorem floats_redact : ∀ value : Json, floats (redact U environ maxLength value) ⊆ floats value
  | .dict fields => floats_redactFields fields
  | .list xs => floats_redactItems xs 250
  | .float _ _ => fun _ h => h
  | .null => fun _ h => h
  | .bool _ => fun _ h => h
  | .int _ => fun _ h => h
  | .str _ => fun _ h => h

theorem floats_redactItems : ∀ (xs : List Json) (n : Nat),
    floatsItems (redactItems U environ maxLength n xs) ⊆ floatsItems xs
  | [], n => fun repr h => by
      rw [redactItems] at h
      exact h
  | x :: xs, 0 => fun repr h => by cases h
  | x :: xs, n + 1 => fun repr h => by
      rw [redactItems, floatsItems] at h
      rw [floatsItems]
      exact List.mem_append.mpr ((List.mem_append.mp h).imp (fun h => floats_redact x h)
        fun h => floats_redactItems xs n h)

theorem floats_redactFields : ∀ fields : Dict,
    floatsFields (redactFields U environ maxLength fields) ⊆ floatsFields fields
  | [] => fun _ h => h
  | (k, v) :: fields => fun repr h => by
      rw [redactFields] at h
      rw [floatsFields]
      split at h
      · exact List.mem_append_right _ (floats_redactFields fields h)
      · rw [floatsFields] at h
        exact List.mem_append.mpr ((List.mem_append.mp h).imp (fun h => floats_redact v h)
          fun h => floats_redactFields fields h)

end

end Redacted

/-! ## §5. Names that are redacted to themselves. -/

/-- No pattern can match: each of them needs some of these characters. -/
def quiet (s : List Char) : Bool :=
  (s.all (fun c => !(Workspace.isSpace c || c ∈ ['=', ':'])) ||
      s.all (fun c => !(Workspace.isSpace c || sameLetter 'p' c || sameLetter 's' c || sameLetter 'k' c))) &&
    (s.all (fun c => c ∉ ['-', 'g', 'A']) || s.all (fun c => c ∉ ['-', 'h', 'A']) || s.all (fun c => c ∉ ['s', 'g', 'A'])) &&
    s.all (fun c => c ≠ '/')

/-- A pattern that needs characters which the text does not have. -/
theorem sub_all {p : Char → Bool} {r : Regex Char} (hr : r.Needs fun c => p c = true) (new : Found Char → List Char)
    {s : List Char} (h : (s.all fun c => !p c) = true) : r.sub new s = s := by
  refine sub_same hr new fun c hc hp => ?_
  have hnot := List.all_eq_true.mp h c hc
  rw [hp] at hnot
  cases hnot

theorem credential_quiet {s : List Char} (h : quiet s = true) (new : Found Char → List Char) :
    credential.sub new s = s := by
  unfold quiet at h
  simp only [Bool.and_eq_true, Bool.or_eq_true] at h
  rcases h.1.1 with h | h
  · -- a blank behind `bearer`, or a sign behind another word
    have hneeds : credential.Needs fun c => (Workspace.isSpace c || c ∈ ['=', ':']) = true := by
      refine Or.inl ⟨Or.inr (Or.inl fun c hc => ?_), Or.inr (Or.inr (Or.inl fun c hc => ?_))⟩
      · dsimp only
        rw [hc, Bool.true_or]
      · dsimp only at hc ⊢
        rw [hc, Bool.or_true]
    exact sub_all hneeds new h
  · -- a letter of the words
    have hneeds : credential.Needs fun c =>
        (Workspace.isSpace c || sameLetter 'p' c || sameLetter 's' c || sameLetter 'k' c) = true := by
      refine Or.inl ⟨Or.inr (Or.inl fun c hc => ?_), Or.inl ⟨Or.inl ?_, ?_, ?_, ?_⟩⟩
      · dsimp only
        rw [hc, Bool.true_or, Bool.true_or, Bool.true_or]
      · exact needs_letters (l := 'p') (by decide) fun c hc => by rw [hc, Bool.or_true, Bool.true_or, Bool.true_or]
      · exact needs_letters (l := 'p') (by decide) fun c hc => by rw [hc, Bool.or_true, Bool.true_or, Bool.true_or]
      · exact needs_letters (l := 's') (by decide) fun c hc => by rw [hc, Bool.or_true, Bool.true_or]
      · exact needs_letters (l := 'k') (by decide) fun c hc => by rw [hc, Bool.or_true]
    exact sub_all hneeds new h

/-- The provider's keys start with `sk-`, `gh` or `AIza`. -/
theorem providerKey_needs (U : Unicode) {a b c : Char} (ha : a ∈ "sk-".toList) (hb : b ∈ "gh".toList)
    (hc : c ∈ "AIza".toList) : (providerKey U).Needs fun d => decide (d ∈ [a, b, c]) = true := by
  refine Or.inr (Or.inl ⟨Or.inl ?_, Or.inl ?_, Or.inl ?_⟩)
  · exact needs_letters ha fun d hd => by simp [of_decide_eq_true hd]
  · exact needs_letters hb fun d hd => by simp [of_decide_eq_true hd]
  · exact needs_letters hc fun d hd => by simp [of_decide_eq_true hd]

theorem providerKey_quiet {s : List Char} (h : quiet s = true) (U : Unicode) (new : Found Char → List Char) :
    (providerKey U).sub new s = s := by
  unfold quiet at h
  simp only [Bool.and_eq_true, Bool.or_eq_true] at h
  have hnot : ∀ l : List Char, (s.all fun c => decide (c ∉ l)) = s.all fun c => !decide (c ∈ l) := by
    intro l
    refine congrArg s.all (funext fun c => ?_)
    rw [decide_not]
  rw [hnot, hnot, hnot] at h
  rcases h.1.2 with (h | h) | h
  · exact sub_all (providerKey_needs U (by decide) (by decide) (by decide)) new h
  · exact sub_all (providerKey_needs U (by decide) (by decide) (by decide)) new h
  · exact sub_all (providerKey_needs U (by decide) (by decide) (by decide)) new h

theorem userInfo_quiet {s : List Char} (h : quiet s = true) (U : Unicode) (new : Found Char → List Char) :
    (userInfo U).sub new s = s := by
  unfold quiet at h
  simp only [Bool.and_eq_true] at h
  have hneeds : (userInfo U).Needs fun c => decide (c = '/') = true :=
    Or.inl (Or.inr (needs_letters (l := '/') (by decide) fun c hc => hc))
  refine sub_all hneeds new ?_
  have hslash := h.2
  simp only [decide_not] at hslash
  exact hslash

/-- A text without the secrets of the environment. -/
theorem redactSecrets_free {environ : List (String × String)} {text : String} (h : SecretFree environ text) :
    redactSecrets environ text.toList = text.toList := by
  unfold SecretFree at h
  generalize text.toList = s at h
  induction environ with
  | nil => rfl
  | cons entry environ ih =>
      have hrest : ∀ secret ∈ secrets environ, ¬ secret.toList <:+: s := by
        intro secret hsecret
        refine h secret ?_
        obtain ⟨other, hother, rfl⟩ := List.mem_map.mp hsecret
        obtain ⟨hmem, his⟩ := List.mem_filter.mp hother
        exact List.mem_map_of_mem (List.mem_filter.mpr ⟨List.mem_cons_of_mem _ hmem, his⟩)
      show redactSecrets environ (if isSecret entry then replace entry.2.toList marker s else s) = s
      split
      · rename_i hentry
        have hmem : entry.2 ∈ secrets (entry :: environ) :=
          List.mem_map_of_mem (List.mem_filter.mpr ⟨List.mem_cons_self, hentry⟩)
        rw [replace_absent (h entry.2 hmem)]
        exact ih hrest
      · exact ih hrest

/-- **Names of the service** are redacted to themselves. -/
theorem redactText_quiet {environ : List (String × String)} {s : String} (hquiet : quiet s.toList = true)
    (hfree : SecretFree environ s) (hlen : s.length ≤ 4000) (U : Unicode) : redactText U environ (some 4000) s = s := by
  unfold redactText redactPatterns
  rw [redactSecrets_free hfree]
  dsimp only
  rw [credential_quiet hquiet, providerKey_quiet hquiet, userInfo_quiet hquiet]
  show String.ofList (s.toList.take 4000) = s
  rw [List.take_of_length_le (by rwa [String.length_toList]), String.ofList_toList]

theorem quiet_kind : ∀ e ∈ KINDS, quiet e.toList = true ∧ e.length ≤ 64 := by decide

/-- The characters of a run's names. -/
def nameChars : List Char := uuidChars ++ ":terminal".toList

theorem quiet_name {s : List Char} (h : ∀ c ∈ s, c ∈ nameChars) : quiet s = true := by
  have hall : ∀ p : Char → Bool, nameChars.all p = true → s.all p = true := fun p hp =>
    List.all_eq_true.mpr fun c hc => List.all_eq_true.mp hp c (h c hc)
  unfold quiet
  rw [Bool.and_eq_true, Bool.and_eq_true, Bool.or_eq_true, Bool.or_eq_true]
  exact ⟨⟨Or.inr (hall _ (by decide)), Or.inr (hall _ (by decide))⟩, hall _ (by decide)⟩

/-- The number of an event, behind the name of its run. -/
theorem eventId_chars {runId number : String} (hrun : ∀ c ∈ runId.toList, c ∈ uuidChars)
    (hnumber : number = "terminal" ∨ ∃ n : Nat, number = toString n) :
    ∀ c ∈ (runId ++ ":" ++ number).toList, c ∈ nameChars := by
  intro c hc
  rw [String.toList_append, String.toList_append, List.mem_append, List.mem_append] at hc
  rcases hc with (hc | hc) | hc
  · exact List.mem_append_left _ (hrun c hc)
  · rw [List.mem_singleton.mp hc]
    decide
  · rcases hnumber with rfl | ⟨n, rfl⟩
    · exact List.mem_append_right _ (List.mem_cons_of_mem _ hc)
    · have hdigits : ∀ d < 10, Char.ofNat (48 + d) ∈ nameChars := by decide
      have hdigit : c.isDigit = true := by
        refine Nat.isDigit_of_mem_toDigits (b := 10) (n := n) (by decide) (by decide) ?_
        rwa [show toString n = String.ofList (Nat.toDigits 10 n) from rfl, String.toList_ofList] at hc
      simp only [Char.isDigit, Bool.and_eq_true, decide_eq_true_eq] at hdigit
      have hlow : 48 ≤ c.toNat := UInt32.le_iff_toNat_le.mp hdigit.1
      have hhigh : c.toNat ≤ 57 := UInt32.le_iff_toNat_le.mp hdigit.2
      have hmem := hdigits (c.toNat - 48) (by omega)
      rwa [Nat.add_sub_cancel' hlow, Char.ofNat_toNat] at hmem

/-! ## §6. What is left of a long event. -/

/-- Counts the characters that are not encoded as they are. -/
def escapes (c : Char) : Nat := if graphic c then 0 else 1

theorem total_escapes {s : List Char} : total escapes s = 0 ↔ s.all graphic = true := by
  induction s with
  | nil => exact ⟨fun _ => rfl, fun _ => rfl⟩
  | cons c s ih =>
      rw [total_cons, Nat.add_eq_zero_iff, List.all_cons, Bool.and_eq_true, ih]
      refine and_congr_left fun _ => ?_
      unfold escapes
      by_cases hc : graphic c = true
      · rw [if_pos hc]
        exact ⟨fun _ => hc, fun _ => rfl⟩
      · rw [if_neg hc]
        exact ⟨fun h => absurd h (by decide), fun h => absurd h hc⟩

theorem escapes_redactSecrets (environ : List (String × String)) (value : List Char) :
    total escapes (redactSecrets environ value) ≤ total escapes value := by
  induction environ generalizing value with
  | nil => exact Nat.le_refl _
  | cons entry environ ih =>
      refine le_trans (ih _) ?_
      show total escapes (if isSecret entry then replace entry.2.toList marker value else value) ≤ _
      split
      · rename_i hentry
        have hlen : 1 ≤ entry.2.toList.length := by
          unfold isSecret at hentry
          rw [Bool.and_eq_true, decide_eq_true_eq] at hentry
          rw [String.length_toList]
          omega
        have hswap : ∀ old new, old = entry.2.toList ∧ new = marker →
            1 ≤ old.length ∧ total escapes new ≤ total escapes old + 0 := by
          rintro _ _ ⟨rfl, rfl⟩
          exact ⟨hlen, Nat.zero_le _⟩
        have hsize := Rewrites.total_le hswap (@rewrites_replace Char _ entry.2.toList marker value)
        omega
      · exact Nat.le_refl _

theorem escapes_redactPatterns (U : Unicode) (value : List Char) :
    total escapes (redactPatterns U value) ≤ total escapes value := by
  have hmark : total escapes marker = 0 := by decide
  have hcredential := @sub_total escapes credential (fun m => m.group.getD [] ++ marker) 1 0
    (by simp only [credential, caseless, minLength, minLength_letters, plus, opt]; decide)
    (fun m hm => by
      obtain ⟨rest, hrest⟩ := group_front (by decide) hm
      rw [total_append, hmark, ← hrest, total_append]
      omega) value
  have hprovider := @sub_total escapes (providerKey U) (fun _ => marker) 1 0
    (by simp only [providerKey, exactly, minLength, minLength_letters, plus, atLeast]; decide)
    (fun m hm => by rw [hmark]; exact Nat.zero_le _)
  have huser := @sub_total escapes (userInfo U) (fun m => m.group.getD [] ++ marker ++ ['@']) 1 0
    (by simp only [userInfo, exactly, minLength, minLength_letters, plus]; decide)
    (fun m hm => by
      have hat : total escapes ['@'] = 0 := by decide
      obtain ⟨rest, hrest⟩ := group_front (by rfl) hm
      rw [total_append, total_append, hmark, hat, ← hrest, total_append]
      omega)
  unfold redactPatterns
  dsimp only
  generalize credential.sub (fun m => m.group.getD [] ++ marker) value = v₁ at hcredential ⊢
  have hprovider := hprovider v₁
  generalize (providerKey U).sub (fun _ => marker) v₁ = v₂ at hprovider ⊢
  have huser := huser v₂
  omega

/-- **Redaction keeps a text graphic.** -/
theorem graphic_redactText {s : String} (h : s.toList.all graphic = true) (U : Unicode)
    (environ : List (String × String)) (maxLength : Option Int) :
    (redactText U environ maxLength s).toList.all graphic = true := by
  unfold redactText
  rw [String.toList_ofList]
  refine List.all_eq_true.mpr fun c hc => ?_
  have hall : (redactPatterns U (redactSecrets environ s.toList)).all graphic = true := by
    have hzero := total_escapes.mpr h
    have hsecrets := escapes_redactSecrets environ s.toList
    have hpatterns := escapes_redactPatterns U (redactSecrets environ s.toList)
    exact total_escapes.mp (by omega)
  exact List.all_eq_true.mp hall c ((cut_initial _ _).subset hc)

theorem escapedSize_graphic {c : Char} (h : graphic c = true) : escapedSize c = 1 := by
  have hall : ∀ n < 127, graphic (Char.ofNat n) = true → escapedSize (Char.ofNat n) = 1 := by decide
  have hascii : c.toNat < 127 := by
    unfold graphic at h
    simp only [Bool.and_eq_true, decide_eq_true_eq] at h
    exact h.1.1.2
  have hc := hall c.toNat hascii
  rw [Char.ofNat_toNat] at hc
  exact hc h

theorem total_escapedSize_graphic {s : List Char} (h : s.all graphic = true) : total escapedSize s = s.length := by
  induction s with
  | nil => rfl
  | cons c s ih =>
      rw [List.all_cons, Bool.and_eq_true] at h
      rw [total_cons, escapedSize_graphic h.1, ih h.2, List.length_cons]
      omega

theorem total_escapedSize_le (s : List Char) : total escapedSize s ≤ 6 * s.length := by
  induction s with
  | nil => exact Nat.le_refl _
  | cons c s ih =>
      have hc := escapedSize_le c
      rw [total_cons, List.length_cons]
      omega

/-- The most bytes of an archived field. -/
def fieldCost (key : String) : Nat := if key ∈ textKeys then 770 else if key ∈ hostKeys then 130 else 20

theorem size_field {key : String} {value : Json} (h : HostField key value) (U : Unicode)
    (environ : List (String × String)) :
    (encode (cutText (redact U environ (some 4000) value))).utf8ByteSize ≤ fieldCost key := by
  have hcost : 20 ≤ fieldCost key := by
    unfold fieldCost
    split
    · decide
    split
    · decide
    · decide
  cases value with
  | null =>
      have hnull : (encode .null).utf8ByteSize ≤ 20 := by decide
      exact Nat.le_trans hnull hcost
  | bool b =>
      have hbool : ∀ b : Bool, (encode (.bool b)).utf8ByteSize ≤ 20 := by decide
      exact Nat.le_trans (hbool b) hcost
  | int n =>
      obtain ⟨_, hlow, hhigh⟩ := h
      exact Nat.le_trans (size_int hlow hhigh) hcost
  | str s =>
      show (quoted (String.ofList ((redactText U environ (some 4000) s).toList.take 128))).utf8ByteSize ≤ _
      rw [size_quoted, String.toList_ofList]
      generalize hcut : (redactText U environ (some 4000) s).toList.take 128 = cs
      have hlen : cs.length ≤ 128 := by
        rw [← hcut]
        exact List.length_take_le 128 _
      unfold fieldCost
      by_cases htext : key ∈ textKeys
      · rw [if_pos htext]
        have hsize := total_escapedSize_le cs
        omega
      · rw [if_neg htext]
        have hhost : key ∈ hostKeys ∧ s.length ≤ 64 ∧ s.toList.all graphic = true := h.resolve_left htext
        rw [if_pos hhost.1]
        have hgraphic := graphic_redactText hhost.2.2 U environ (some 4000)
        have hall : cs.all graphic = true := by
          rw [← hcut]
          exact List.all_eq_true.mpr fun c hc => List.all_eq_true.mp hgraphic c (List.mem_of_mem_take hc)
        rw [total_escapedSize_graphic hall]
        omega
  | float isZero repr => exact h.elim
  | list xs => exact h.elim
  | dict fields => exact h.elim

theorem size_dict (fields : Dict) : (encode (.dict fields)).utf8ByteSize ≤
    2 + (fields.map fun f => (quoted f.1).utf8ByteSize + (encode f.2).utf8ByteSize + 2).sum := by
  have hitems : encodeFields fields = fields.map fun f => quoted f.1 ++ ":" ++ encode f.2 := by
    induction fields with
    | nil => rfl
    | cons f fields ih => rw [List.map_cons, ← ih, encodeFields]
  have hsize := size_intercalate_le "," (encodeFields fields)
  have hsum : ((encodeFields fields).map fun t => t.utf8ByteSize + ",".utf8ByteSize) =
      fields.map fun f => (quoted f.1).utf8ByteSize + (encode f.2).utf8ByteSize + 2 := by
    rw [hitems, List.map_map]
    refine List.map_congr_left fun f _ => ?_
    rw [Function.comp_apply, String.utf8ByteSize_append, String.utf8ByteSize_append]
    show _ + 1 + _ + 1 = _
    omega
  rw [hsum] at hsize
  rw [encode, String.utf8ByteSize_append, String.utf8ByteSize_append]
  show 1 + _ + 1 ≤ _
  omega

/-- Keys that differ and are known cost no more than all the known ones. -/
theorem sum_known {cost : String → Nat} {keys known : List String} (hnodup : keys.Nodup) (hsub : keys ⊆ known) :
    (keys.map cost).sum ≤ (known.map cost).sum := by
  obtain ⟨keys', hperm, hsublist⟩ := List.subperm_of_subset hnodup hsub
  rw [← (hperm.map cost).sum_eq]
  exact (hsublist.map cost).sum_le_sum fun _ _ => Nat.zero_le _

/-- The bytes of an archived field with its key. -/
def lineCost (key : String) : Nat := key.length + 4 + fieldCost key

/-- **What is left of an event fits a line.** -/
theorem size_shorten (U : Unicode) (environ : List (String × String)) {fields : Dict}
    (hnodup : (fields.map Prod.fst).Nodup) (hfields : ∀ f ∈ fields, f.1 ∈ archivedKeys → HostField f.1 f.2) :
    (encode (.dict (shorten (redactFields U environ (some 4000) fields)))).utf8ByteSize ≤ 4096 := by
  unfold shorten
  generalize hentry : (redactFields U environ (some 4000) fields).filter (fun f => f.1 ∈ archivedKeys) = entry
  have hknown : ∀ f ∈ entry, f.1 ∈ archivedKeys := by
    intro f hf
    rw [← hentry] at hf
    exact of_decide_eq_true (List.mem_filter.mp hf).2
  have hkeys : ((entry.map fun f => (f.1, cutText f.2)).map Prod.fst) = entry.map Prod.fst := by
    rw [List.map_map]
    rfl
  have hnew : "details_truncated" ∉ (entry.map fun f => (f.1, cutText f.2)).map Prod.fst := by
    rw [hkeys]
    intro hmem
    obtain ⟨f, hf, heq⟩ := List.mem_map.mp hmem
    have hin := hknown f hf
    rw [heq] at hin
    exact absurd hin (by decide)
  unfold setKey
  rw [if_neg hnew]
  refine le_trans (size_dict _) ?_
  rw [List.map_append, List.sum_append, List.map_map]
  -- field by field
  have hfield : ∀ f ∈ entry, (quoted f.1).utf8ByteSize + (encode (cutText f.2)).utf8ByteSize + 2 ≤ lineCost f.1 := by
    intro f hf
    have hmem := hf
    rw [← hentry] at hmem
    obtain ⟨v, hv, hredacted⟩ := mem_redactFields U environ (some 4000) (List.mem_filter.mp hmem).1
    have hvalue := size_field (hfields _ hv (hknown f hf)) U environ
    have hsmall : ∀ key ∈ archivedKeys, key.toList.all small = true := by decide
    rw [← hredacted] at hvalue
    dsimp only at hvalue
    rw [size_small (hsmall f.1 (hknown f hf))]
    unfold lineCost
    omega
  have hsum := List.sum_le_sum hfield
  have hnodup' : (entry.map Prod.fst).Nodup := by
    rw [← hentry]
    exact (hnodup.sublist (keys_redactFields U environ (some 4000) fields)).sublist (List.filter_sublist.map Prod.fst)
  have hsub : entry.map Prod.fst ⊆ archivedKeys := by
    intro key hkey
    obtain ⟨f, hf, rfl⟩ := List.mem_map.mp hkey
    exact hknown f hf
  have hall := @sum_known lineCost _ _ hnodup' hsub
  rw [List.map_map] at hall
  have htotal : (archivedKeys.map lineCost).sum = 4059 := by decide
  have htruncated : (quoted "details_truncated").utf8ByteSize + (encode (.bool true)).utf8ByteSize + 2 = 25 := by decide
  rw [htotal] at hall
  rw [List.map_cons, List.map_nil, List.sum_cons, List.sum_nil, htruncated]
  have hle : (entry.map ((fun f => (quoted f.1).utf8ByteSize + (encode f.2).utf8ByteSize + 2) ∘
      fun f => (f.1, cutText f.2))).sum ≤ (entry.map (lineCost ∘ Prod.fst)).sum := hsum
  omega

/-! ## §7. One event. -/

theorem lookup_shorten {key : String} (h : key ∈ archivedKeys) (entry : Dict) :
    (shorten entry).lookup key = (entry.lookup key).map cutText := by
  have hother : key ≠ "details_truncated" := by
    rintro rfl
    exact absurd h (by decide)
  unfold shorten
  rw [lookup_setKey_other hother]
  induction entry with
  | nil => rfl
  | cons f entry ih =>
      rw [List.lookup_cons]
      by_cases hf : key = f.1
      · have hin : decide (f.1 ∈ archivedKeys) = true := decide_eq_true (by rw [← hf]; exact h)
        rw [List.filter_cons, if_pos hin, List.map_cons, List.lookup_cons, hf, beq_self_eq_true]
        rfl
      · have hbeq : (key == f.1) = false := beq_false_of_ne hf
        rw [hbeq]
        by_cases hin : decide (f.1 ∈ archivedKeys) = true
        · rw [List.filter_cons, if_pos hin, List.map_cons, List.lookup_cons, hbeq]
          exact ih
        · rw [List.filter_cons, if_neg hin]
          exact ih

/-- **A field is archived as it is**, if redaction and the cut leave it. -/
theorem archiveEntry_kept {U : Unicode} {environ : List (String × String)} {event : Dict} {key : String} {value : Json}
    (hkey : key ∈ archivedKeys) (h : event.lookup key = some value) (hredact : redact U environ (some 4000) value = value)
    (hcut : cutText value = value) : (archiveEntry U environ event).lookup key = some value := by
  have hsmall : ∀ key ∈ archivedKeys, key.toList.all small = true ∧ key ∉ droppedKeys := by decide
  have hredacted : (redactFields U environ (some 4000) event).lookup key = some value := by
    rw [lookup_redactFields U environ (some 4000) (hsmall key hkey).1 (hsmall key hkey).2, h, Option.map_some, hredact]
  unfold archiveEntry
  dsimp only
  split
  · rw [lookup_shorten hkey, hredacted, Option.map_some, hcut]
  · exact hredacted

theorem mem_floatsFields {fields : Dict} {repr : String} :
    repr ∈ floatsFields fields ↔ ∃ f ∈ fields, repr ∈ floats f.2 := by
  induction fields with
  | nil => exact ⟨fun h => absurd h List.not_mem_nil, fun ⟨_, h, _⟩ => absurd h List.not_mem_nil⟩
  | cons f fields ih =>
      rw [floatsFields, List.mem_append, ih, List.exists_mem_cons_iff]

theorem finite_dict {fields : Dict} : Finite (.dict fields) ↔ ∀ f ∈ fields, Finite f.2 := by
  show (∀ repr ∈ floatsFields fields, IsNumber repr) ↔ _
  constructor
  · intro h f hf repr hrepr
    exact h repr (mem_floatsFields.mpr ⟨f, hf, hrepr⟩)
  · intro h repr hrepr
    obtain ⟨f, hf, hmem⟩ := mem_floatsFields.mp hrepr
    exact h f hf repr hmem

theorem finite_setKey {fields : Dict} (h : Finite (.dict fields)) {key : String} {value : Json} (hvalue : Finite value) :
    Finite (.dict (setKey fields key value)) := by
  rw [finite_dict] at h ⊢
  intro f hf
  rcases mem_setKey hf with rfl | hf
  · exact hvalue
  · exact h f hf

theorem finite_shorten {entry : Dict} (h : Finite (.dict entry)) : Finite (.dict (shorten entry)) := by
  refine finite_setKey ?_ (fun repr hrepr => absurd hrepr List.not_mem_nil)
  rw [finite_dict] at h ⊢
  intro f hf
  obtain ⟨g, hg, rfl⟩ := List.mem_map.mp hf
  have hfinite := h g (List.mem_filter.mp hg).1
  obtain ⟨key, value⟩ := g
  show Finite (cutText value)
  cases value with
  | str s => exact fun repr hrepr => absurd hrepr List.not_mem_nil
  | null | bool | int | float | list | dict => exact hfinite

section Emitted

variable {environ : List (String × String)} {row : RunEvent}

theorem Emitted.finite_toEvent (h : Emitted environ row) : Finite (.dict row.toEvent) :=
  finite_setKey h.finite fun _ hrepr => absurd hrepr List.not_mem_nil

theorem Emitted.fields_toEvent (h : Emitted environ row) : ∀ f ∈ row.toEvent, f.1 ∈ archivedKeys → HostField f.1 f.2 := by
  intro f hf hkey
  rcases mem_setKey hf with rfl | hf
  · have hlow := h.sequence.1
    have hhigh := h.sequence.2
    exact ⟨Or.inl rfl, by omega, by omega⟩
  · exact h.fields f hf hkey

/-- The entry of an event is a line that fits. -/
theorem Emitted.short (h : Emitted environ row) (U : Unicode) :
    (encode (.dict (archiveEntry U environ row.toEvent))).utf8ByteSize ≤ 4096 := by
  unfold archiveEntry
  dsimp only
  split
  · exact size_shorten U environ (nodup_setKey row.nodup _ _) h.fields_toEvent
  · rename_i hshort
    exact not_lt.mp hshort

theorem Emitted.finite_entry (h : Emitted environ row) (U : Unicode) :
    Finite (.dict (archiveEntry U environ row.toEvent)) := by
  have hredacted : Finite (.dict (redactFields U environ (some 4000) row.toEvent)) := fun repr hrepr =>
    h.finite_toEvent repr (floats_redactFields U environ (some 4000) row.toEvent hrepr)
  unfold archiveEntry
  dsimp only
  split
  · exact finite_shorten hredacted
  · exact hredacted

/-- A name of the service has at most 64 characters. -/
theorem Emitted.length_name (h : Emitted environ row) {key name : String} (hhost : key ∈ hostKeys)
    (hlookup : row.payload.lookup key = some (.str name)) : name.length ≤ 64 := by
  have hkeys : ∀ key ∈ hostKeys, key ∈ archivedKeys ∧ key ∉ textKeys := by decide
  obtain ⟨before, after, heq, _⟩ := List.lookup_eq_some_iff.mp hlookup
  have hmem : (key, Json.str name) ∈ row.payload := by
    rw [heq]
    exact List.mem_append_right _ List.mem_cons_self
  have hfield : key ∈ textKeys ∨ (key ∈ hostKeys ∧ name.length ≤ 64 ∧ name.toList.all graphic = true) :=
    h.fields _ hmem (hkeys key hhost).1
  exact (hfield.resolve_left (hkeys key hhost).2).2.1

/-- A name that no pattern and no secret matches is archived as it is. -/
theorem Emitted.kept_name (h : Emitted environ row) (U : Unicode) {key name : String} (hhost : key ∈ hostKeys)
    (hlookup : row.payload.lookup key = some (.str name)) (hquiet : quiet name.toList = true)
    (hfree : SecretFree environ name) : (archiveEntry U environ row.toEvent).lookup key = some (.str name) := by
  have hkeys : ∀ key ∈ hostKeys, key ∈ archivedKeys ∧ key ≠ "sequence" := by decide
  have hlen := h.length_name hhost hlookup
  refine archiveEntry_kept (hkeys key hhost).1 ?_ ?_ ?_
  · unfold RunEvent.toEvent
    rw [lookup_setKey_other (hkeys key hhost).2]
    exact hlookup
  · rw [redact, redactText_quiet hquiet hfree (by omega)]
  · show Json.str (String.ofList (name.toList.take 128)) = _
    rw [List.take_of_length_le (by rw [String.length_toList]; omega), String.ofList_toList]

/-- **An event keeps its names and its number.** -/
theorem Emitted.faithful (h : Emitted environ row) (U : Unicode) :
    (archiveEntry U environ row.toEvent).lookup "sequence" = some (.int row.sequence) ∧
      ∀ key ∈ ["e", "run_id", "event_id"],
        (archiveEntry U environ row.toEvent).lookup key = row.payload.lookup key := by
  refine ⟨archiveEntry_kept (by decide) (lookup_setKey _ _ _) rfl rfl, ?_⟩
  obtain ⟨e, he, helookup, hefree⟩ := h.kind
  obtain ⟨hchars, hlookup, hfree⟩ := h.run
  obtain ⟨number, hnumber, hidlookup, hidfree⟩ := h.event
  intro key hkey
  rcases List.mem_cons.mp hkey with rfl | hkey
  · rw [helookup, h.kept_name U (by decide) helookup (quiet_kind e he).1 hefree]
  rcases List.mem_cons.mp hkey with rfl | hkey
  · have hquiet := quiet_name fun c hc => List.mem_append_left _ (hchars c hc)
    rw [hlookup, h.kept_name U (by decide) hlookup hquiet hfree]
  · rw [List.mem_singleton.mp hkey]
    rw [hidlookup, h.kept_name U (by decide) hidlookup (quiet_name (eventId_chars hchars hnumber)) hidfree]

end Emitted

/-- The payload does not replace what is not its own. -/
theorem lookup_update {key : String} {payload : Dict} (h : key ∉ payload.map Prod.fst) (fields : Dict) :
    (update fields payload).lookup key = fields.lookup key := by
  unfold update
  induction payload generalizing fields with
  | nil => rfl
  | cons f payload ih =>
      rw [List.map_cons, List.mem_cons, not_or] at h
      rw [List.foldl_cons, ih h.2, lookup_setKey_other h.1]

/-- **An event is emitted under its own names**: `event` does not redact them. -/
theorem event_names {U : Unicode} {environ : List (String × String)} {liveId kind createdAt : String} {events : Nat}
    {payload : Dict} (hkind : kind ∈ KINDS) (hrun : ∀ c ∈ liveId.toList, c ∈ uuidChars) (hlen : liveId.length ≤ 64)
    (hfree : SecretFree environ kind ∧ SecretFree environ liveId)
    (hpayload : "e" ∉ payload.map Prod.fst ∧ "run_id" ∉ payload.map Prod.fst) :
    (event U environ liveId events kind createdAt payload).lookup "e" = some (.str kind) ∧
      (event U environ liveId events kind createdAt payload).lookup "run_id" = some (.str liveId) := by
  obtain ⟨hquiet, hshort⟩ := quiet_kind kind hkind
  have hname := quiet_name fun c hc => List.mem_append_left _ (hrun c hc)
  unfold event
  rw [lookup_redactFields U environ (some 4000) (by decide) (by decide), lookup_update hpayload.1,
    lookup_redactFields U environ (some 4000) (by decide) (by decide), lookup_update hpayload.2]
  constructor
  · show some (redact U environ (some 4000) (.str kind)) = _
    rw [redact, redactText_quiet hquiet hfree.1 (by omega)]
  · show some (redact U environ (some 4000) (.str liveId)) = _
    rw [redact, redactText_quiet hname hfree.2 (by omega)]

/-! ## §8. The log. -/

theorem size_join (texts : List String) : (String.join texts).utf8ByteSize = (texts.map String.utf8ByteSize).sum := by
  induction texts with
  | nil => rfl
  | cons t texts ih => rw [String.join_cons, String.utf8ByteSize_append, ih, List.map_cons, List.sum_cons]

/-- Lines that fit, and a limit on their number. -/
theorem size_lines {lines : List String} (hline : ∀ line ∈ lines, line.utf8ByteSize ≤ 4096) (hcount : lines.length ≤ 201) :
    (String.join (lines.map fun line => line ++ "\n")).utf8ByteSize ≤ 1024 * 1024 := by
  rw [size_join, List.map_map]
  have hsum := List.sum_le_card_nsmul (lines.map (String.utf8ByteSize ∘ fun line => line ++ "\n")) 4097 (by
    intro n hn
    obtain ⟨line, hmem, rfl⟩ := List.mem_map.mp hn
    have hle := hline line hmem
    rw [Function.comp_apply, String.utf8ByteSize_append]
    show _ + 1 ≤ 4097
    omega)
  rw [List.length_map, smul_eq_mul] at hsum
  calc _ ≤ lines.length * 4097 := hsum
    _ ≤ 201 * 4097 := Nat.mul_le_mul_right 4097 hcount
    _ ≤ 1024 * 1024 := by norm_num

theorem archiveBody_ok {U : Unicode} {environ : List (String × String)} {events : List Dict} {body : String}
    (hbody : body = String.join (events.map fun event => encode (.dict (archiveEntry U environ event)) ++ "\n"))
    (hsize : body.utf8ByteSize ≤ 1024 * 1024) : archiveBody U environ events = .ok body := by
  unfold archiveBody
  dsimp only
  rw [← hbody]
  exact if_neg (not_lt.mpr hsize)

/-- The rows of a run, as they are archived. -/
theorem runEvents_rows {table : List RunEvent} {runId : String}
    (hpos : ∀ row ∈ table, row.runId = runId → 0 < row.sequence)
    (hcount : (table.filter fun row => row.runId = runId).length ≤ 201) :
    ∃ rows : List RunEvent, rows.Perm (table.filter fun row => row.runId = runId) ∧
      (rows.Pairwise fun a b => a.sequence ≤ b.sequence) ∧ runEvents table runId 0 = rows.map RunEvent.toEvent := by
  have hfilter : (table.filter fun row => row.runId = runId ∧ 0 < row.sequence) =
      table.filter fun row => row.runId = runId := by
    refine List.filter_congr fun row hrow => ?_
    rw [decide_eq_decide]
    exact and_iff_left_of_imp (hpos row hrow)
  have hperm := orderBy_perm RunEvent.sequence (table.filter fun row => row.runId = runId)
  refine ⟨_, hperm, orderBy_sorted _ _, ?_⟩
  unfold runEvents
  rw [hfilter, List.take_of_length_le (by rw [hperm.length_eq]; exact hcount)]

/-- **The log of a run can always be archived**: its body is a line for each
event, and fits; with a storage that keeps what it is given, it is written. -/
theorem archive_fits (U : Unicode) (environ : List (String × String)) (table : List RunEvent) (runId : String)
    (hemitted : ∀ row ∈ table, row.runId = runId → Emitted environ row)
    (hcount : (table.filter fun row => row.runId = runId).length ≤ 201) :
    ∃ (rows : List RunEvent) (entries : List Dict) (body : String), rows.Perm (table.filter fun row => row.runId = runId) ∧
      archiveBody U environ (runEvents table runId 0) = .ok body ∧ Logged rows entries body ∧
      ∀ S : ArchiveStore, (∀ archive, S.put archive = .ok () ∧ S.read archive = .ok archive) → rows ≠ [] →
        archiveRun U environ S (some ⟨false, none⟩) table runId =
          .ok (some ("logs/" ++ runId ++ ".jsonl.gz", S.sha256 (S.compress body))) := by
  obtain ⟨rows, hperm, hordered, hevents⟩ := runEvents_rows (fun row hrow hrun => (hemitted row hrow hrun).sequence.1) hcount
  have hrow : ∀ row ∈ rows, Emitted environ row := by
    intro row hmem
    obtain ⟨htable, hrun⟩ := List.mem_filter.mp (hperm.mem_iff.mp hmem)
    exact hemitted row htable (of_decide_eq_true hrun)
  have hentry : ∀ entry ∈ rows.map (fun row => archiveEntry U environ row.toEvent),
      ∃ row ∈ rows, archiveEntry U environ row.toEvent = entry := fun entry h => List.mem_map.mp h
  obtain ⟨body, hlines⟩ : ∃ body, body = String.join ((rows.map fun row => archiveEntry U environ row.toEvent).map
    fun entry => encode (.dict entry) ++ "\n") := ⟨_, rfl⟩
  have hsize : body.utf8ByteSize ≤ 1024 * 1024 := by
    have hall := @size_lines (rows.map fun row => encode (.dict (archiveEntry U environ row.toEvent)))
      (by
        intro line hline
        obtain ⟨row, hmem, rfl⟩ := List.mem_map.mp hline
        exact (hrow row hmem).short U)
      (by rw [List.length_map, hperm.length_eq]; exact hcount)
    rw [List.map_map] at hall hlines
    rw [hlines]
    exact hall
  have hbody : archiveBody U environ (runEvents table runId 0) = .ok body := by
    refine archiveBody_ok ?_ hsize
    rw [hlines, hevents, List.map_map, List.map_map]
    rfl
  have hlogged : Logged rows (rows.map fun row => archiveEntry U environ row.toEvent) body := by
    refine ⟨hlines, ?_, ?_, ?_, hordered, hsize⟩
    · intro entry h
      obtain ⟨row, hmem, rfl⟩ := hentry entry h
      have hfinite := (hrow row hmem).finite_entry U
      exact ⟨isText_encode _ hfinite, encode_line hfinite⟩
    · intro entry h
      obtain ⟨row, hmem, rfl⟩ := hentry entry h
      exact (hrow row hmem).short U
    · rw [List.forall₂_map_right_iff, List.forall₂_same]
      exact fun row hmem => (hrow row hmem).faithful U
  refine ⟨rows, _, body, hperm, hbody, hlogged, ?_⟩
  intro S hS hne
  have hnonempty : runEvents table runId 0 ≠ [] := by
    rw [hevents]
    exact fun hnil => hne (List.map_eq_nil_iff.mp hnil)
  unfold archiveRun
  rw [if_neg (by decide), if_neg hnonempty, hbody]
  obtain ⟨hput, hread⟩ := hS (S.compress body)
  show ((S.put (S.compress body)) >>= fun _ => (S.read (S.compress body)) >>= fun stored => _) = _
  rw [hput, hread]
  exact if_neg (fun h => h rfl)

/-- The first event of a run. -/
def startedRow : RunEvent where
  runId := "01"
  sequence := 1
  payload := [("e", .str "run_started"), ("run_id", .str "01"), ("event_id", .str "01:1"), ("sequence", .int 1),
    ("message", .str "Starting your request")]
  nodup := by decide

theorem archive_fits_started : ∃ (rows : List RunEvent) (entries : List Dict) (body : String),
    rows.Perm ([startedRow].filter fun row => row.runId = "01") ∧
      archiveBody asciiTables overlapping (runEvents [startedRow] "01" 0) = .ok body ∧ Logged rows entries body ∧
      ∀ S : ArchiveStore, (∀ archive, S.put archive = .ok () ∧ S.read archive = .ok archive) → rows ≠ [] →
        archiveRun asciiTables overlapping S (some ⟨false, none⟩) [startedRow] "01" =
          .ok (some ("logs/" ++ "01" ++ ".jsonl.gz", S.sha256 (S.compress body))) := by
  refine archive_fits asciiTables overlapping [startedRow] "01" (fun row hrow _ => ?_) (by decide)
  rw [List.mem_singleton.mp hrow]
  have hchars : startedRow.runId.toList.all (fun c => c ∈ uuidChars) = true := by decide
  refine ⟨by decide, ⟨"run_started", by decide, rfl, by decide⟩, ⟨fun c hc => ?_, rfl, by decide⟩,
    ⟨"1", Or.inr ⟨1, rfl⟩, rfl, by decide⟩, by decide, fun repr hrepr => ?_⟩
  · exact of_decide_eq_true (List.all_eq_true.mp hchars c hc)
  · cases hrepr

end WebBuilder.Events
