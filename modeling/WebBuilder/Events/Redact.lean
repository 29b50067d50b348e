/-
  WebBuilder.Events.Redact — what leaves the service.

  `redact` of `events.py`: secrets of the environment are replaced one after
  the other, then three patterns are rewritten, then the text is cut.  Later
  steps work on the output of earlier ones, and secrets may overlap or contain
  one another.  Whatever is put in place of a match is fenced by brackets,
  which no secret here has, so nothing that was removed is assembled again.

  Main results:
    * `redactText_clean` — no secret is left in a redacted text;
    * `redact_clean` — nor in any text of a redacted value.
-/
import WebBuilder.Budget.ModelCost
import WebBuilder.Context.Evidence
import WebBuilder.Run.Workspace
import WebBuilder.Text.Regex

namespace WebBuilder.Events

open WebBuilder.Budget WebBuilder.Text
open WebBuilder.Text.Regex
open WebBuilder.Workspace (isWord)
open WebBuilder.Context (secretMarks contains)

/-! ## §1. Patterns. -/

/-- The characters of the service's own keys. -/
def small (c : Char) : Bool := c.isLower || c.isDigit || c = '_'

/-- What is used of the Unicode tables. -/
structure Unicode where
  /-- Letters and digits beyond ASCII. -/
  letter : Char → Bool
  /-- `str.lower`. -/
  lower : String → String
  lower_small : ∀ s : String, s.toList.all small = true → lower s = s

/-- `c` matches the small letter `l` under `(?i)`. -/
def sameLetter (l c : Char) : Bool :=
  c = l || c = l.toUpper || (l = 'i' && (c.toNat = 0x130 || c.toNat = 0x131)) ||
    (l = 's' && c.toNat = 0x17f) || (l = 'k' && c.toNat = 0x212a)

def caseless (word : String) : Regex Char := letters sameLetter word.toList

def exactly (word : String) : Regex Char := letters (fun l c => c = l) word.toList

/-- `(?i)(bearer\s+|(?:api[_-]?key|password|secret|token)\s*[=:]\s*)[^\s,;\"\']+`. -/
def credential : Regex Char :=
  seq (group (alt (seq (caseless "bearer") (plus Workspace.isSpace))
      (seq (alt (seq (caseless "api") (seq (opt (char (· ∈ ['_', '-']))) (caseless "key")))
          (alt (caseless "password") (alt (caseless "secret") (caseless "token"))))
        (seq (many Workspace.isSpace) (seq (char (· ∈ ['=', ':'])) (many Workspace.isSpace))))))
    (plus fun c => !(Workspace.isSpace c || c ∈ [',', ';', '"', '\'']))

/-- `\b(?:sk-[\w-]{12,}|gh[pousr]_[\w]+|AIza[\w-]+)\b`. -/
def providerKey (U : Unicode) : Regex Char :=
  let word := isWord U.letter
  let dashed := fun c => word c || c = '-'
  seq (boundary word) (seq (alt (seq (exactly "sk-") (atLeast dashed 12))
      (alt (seq (exactly "gh") (seq (char (· ∈ ['p', 'o', 'u', 's', 'r'])) (seq (exactly "_") (plus word))))
        (seq (exactly "AIza") (plus dashed))))
    (boundary word))

/-- `(\w+://)[^\s/@]+:[^\s/@]+@`. -/
def userInfo (U : Unicode) : Regex Char :=
  let other := fun c => !(Workspace.isSpace c || c ∈ ['/', '@'])
  seq (group (seq (plus (isWord U.letter)) (exactly "://")))
    (seq (plus other) (seq (exactly ":") (seq (plus other) (exactly "@"))))

/-! ## §2. `redact`. -/

/-- `[redacted]`. -/
def marker : List Char := '[' :: ("redacted".toList ++ [']'])

/-- The entry of the environment is replaced. -/
def isSecret (entry : String × String) : Bool := 8 ≤ entry.2.length && secretMarks.any (contains entry.1)

def secrets (environ : List (String × String)) : List String := (environ.filter isSecret).map Prod.snd

/-- The loop over `os.environ`. -/
def redactSecrets (environ : List (String × String)) (value : List Char) : List Char :=
  environ.foldl (fun value entry => if isSecret entry then replace entry.2.toList marker value else value) value

/-- The three substitutions. -/
def redactPatterns (U : Unicode) (value : List Char) : List Char :=
  let value := credential.sub (fun m => m.group.getD [] ++ marker) value
  let value := (providerKey U).sub (fun _ => marker) value
  (userInfo U).sub (fun m => m.group.getD [] ++ marker ++ ['@']) value

/-- `value if max_length is None else value[:max_length]`. -/
def cut : Option Int → List Char → List Char
  | none, value => value
  | some (.ofNat n), value => value.take n
  | some (.negSucc n), value => value.take (value.length - (n + 1))

/-- `redact` of a string. -/
def redactText (U : Unicode) (environ : List (String × String)) (maxLength : Option Int) (value : String) : String :=
  String.ofList (cut maxLength (redactPatterns U (redactSecrets environ value.toList)))

/-- The keys whose values are dropped. -/
def droppedKeys : List String := ["authorization", "cookie", "password", "secret", "api_key", "token"]

mutual

def redact (U : Unicode) (environ : List (String × String)) (maxLength : Option Int) : Json → Json
  | .dict fields => .dict (redactFields U environ maxLength fields)
  | .list xs => .list (redactItems U environ maxLength 250 xs)
  | .str s => .str (redactText U environ maxLength s)
  | .null => .null
  | .bool b => .bool b
  | .int n => .int n
  | .float isZero repr => .float isZero repr

/-- `[redact(v) for v in value[:250]]`, with the number of items that are left. -/
def redactItems (U : Unicode) (environ : List (String × String)) (maxLength : Option Int) :
    Nat → List Json → List Json
  | n + 1, x :: xs => redact U environ maxLength x :: redactItems U environ maxLength n xs
  | 0, _ :: _ => []
  | _, [] => []

def redactFields (U : Unicode) (environ : List (String × String)) (maxLength : Option Int) :
    List (String × Json) → List (String × Json)
  | [] => []
  | (k, v) :: fields =>
      if U.lower k ∈ droppedKeys then redactFields U environ maxLength fields
      else (k, redact U environ maxLength v) :: redactFields U environ maxLength fields

end

/-! ## §3. Texts of a value. -/

mutual

/-- The texts of a value, at any depth.  Keys are no values. -/
def strings : Json → List String
  | .dict fields => stringsFields fields
  | .list xs => stringsItems xs
  | .str s => [s]
  | .null => []
  | .bool _ => []
  | .int _ => []
  | .float _ _ => []

def stringsItems : List Json → List String
  | [] => []
  | x :: xs => strings x ++ stringsItems xs

def stringsFields : List (String × Json) → List String
  | [] => []
  | (_, v) :: fields => strings v ++ stringsFields fields

end

mutual

/-- **Every text of a redacted value is a redacted text.** -/
theorem strings_redact (U : Unicode) (environ : List (String × String)) (maxLength : Option Int) :
    ∀ value : Json, ∀ text ∈ strings (redact U environ maxLength value),
      ∃ s, text = redactText U environ maxLength s
  | .dict fields => fun text h => strings_redactFields U environ maxLength fields text h
  | .list xs => fun text h => strings_redactItems U environ maxLength xs 250 text h
  | .str s => fun _ h => ⟨s, List.mem_singleton.mp h⟩
  | .null => fun _ h => absurd h List.not_mem_nil
  | .bool _ => fun _ h => absurd h List.not_mem_nil
  | .int _ => fun _ h => absurd h List.not_mem_nil
  | .float _ _ => fun _ h => absurd h List.not_mem_nil

theorem strings_redactItems (U : Unicode) (environ : List (String × String)) (maxLength : Option Int) :
    ∀ (xs : List Json) (n : Nat), ∀ text ∈ stringsItems (redactItems U environ maxLength n xs),
      ∃ s, text = redactText U environ maxLength s
  | [], n => fun text h => by
      rw [redactItems] at h
      cases h
  | x :: xs, 0 => fun text h => by cases h
  | x :: xs, n + 1 => fun text h => by
      rw [redactItems, stringsItems] at h
      rcases List.mem_append.mp h with h | h
      · exact strings_redact U environ maxLength x text h
      · exact strings_redactItems U environ maxLength xs n text h

theorem strings_redactFields (U : Unicode) (environ : List (String × String)) (maxLength : Option Int) :
    ∀ fields : List (String × Json), ∀ text ∈ stringsFields (redactFields U environ maxLength fields),
      ∃ s, text = redactText U environ maxLength s
  | [] => fun text h => by cases h
  | (k, v) :: fields => fun text h => by
      rw [redactFields] at h
      split at h
      · exact strings_redactFields U environ maxLength fields text h
      · rw [stringsFields] at h
        rcases List.mem_append.mp h with h | h
        · exact strings_redact U environ maxLength v text h
        · exact strings_redactFields U environ maxLength fields text h

end

/-! ## §4. Secrets that the marker cannot hide. -/

/-- A secret without brackets that is not the marker's own word. -/
structure Hideable (s : List Char) : Prop where
  nonempty : s ≠ []
  opening : '[' ∉ s
  closing : ']' ∉ s
  unmarked : ¬ s <:+: "redacted".toList

/-- No part of the marker but its word is as long as a secret. -/
theorem hideable_of_secret {environ : List (String × String)} {s : String} (hs : s ∈ secrets environ)
    (hopen : '[' ∉ s.toList) (hclose : ']' ∉ s.toList) (hword : s ≠ "redacted") : Hideable s.toList := by
  obtain ⟨entry, hentry, rfl⟩ := List.mem_map.mp hs
  have hlen : 8 ≤ entry.2.toList.length := by
    have hsecret := (List.mem_filter.mp hentry).2
    unfold isSecret at hsecret
    rw [Bool.and_eq_true, decide_eq_true_eq] at hsecret
    rw [String.length_toList]
    exact hsecret.1
  refine ⟨fun hnil => ?_, hopen, hclose, fun hin => hword ?_⟩
  · rw [hnil] at hlen
    cases hlen
  · have hle := hin.length_le
    have hword : "redacted".toList.length = 8 := by decide
    exact String.toList_injective (hin.eq_of_length (by omega))

theorem Hideable.fenced {s : List Char} (h : Hideable s) {old front back : List Char} (hfront : front <+: old)
    (hback : back <:+ old) : Fenced s old (front ++ marker ++ back) := by
  refine ⟨front, '[', "redacted".toList, ']', back, ?_, hfront, hback, h.opening, h.closing, h.unmarked⟩
  unfold marker
  simp

/-! ## §5. No step brings a secret back. -/

/-- A text without the secret stays without it. -/
theorem Hideable.kept_redactSecrets {s : List Char} (h : Hideable s) (environ : List (String × String)) {value : List Char}
    (hs : ¬ s <:+: value) : ¬ s <:+: redactSecrets environ value := by
  induction environ generalizing value with
  | nil => exact hs
  | cons entry environ ih =>
      refine ih ?_
      show ¬ s <:+: (if isSecret entry then replace entry.2.toList marker value else value)
      split
      · have hrewrites := @rewrites_replace Char _ entry.2.toList marker value
        refine hrewrites.avoids ?_ [] hs
        rintro old new ⟨rfl, rfl⟩
        have hfenced := h.fenced (List.nil_prefix (l := entry.2.toList)) (List.nil_suffix)
        rwa [List.nil_append, List.append_nil] at hfenced
      · exact hs

/-- **Every secret is replaced**, and stays so while the others are. -/
theorem redactSecrets_clean {environ : List (String × String)} {s : String} (hs : s ∈ secrets environ)
    (h : Hideable s.toList) (value : List Char) : ¬ s.toList <:+: redactSecrets environ value := by
  induction environ generalizing value with
  | nil => cases hs
  | cons entry environ ih =>
      show ¬ s.toList <:+: redactSecrets environ (if isSecret entry then replace entry.2.toList marker value else value)
      unfold secrets at hs
      by_cases hentry : isSecret entry = true
      · rw [List.filter_cons_of_pos hentry, List.map_cons] at hs
        rw [if_pos hentry]
        rcases List.mem_cons.mp hs with rfl | hs
        · -- later replacements do not assemble it again
          exact h.kept_redactSecrets environ (replace_avoids h.nonempty h.opening h.closing h.unmarked value)
        · exact ih hs _
      · rw [List.filter_cons_of_neg hentry] at hs
        exact ih hs _

theorem Hideable.kept_sub {s : List Char} (h : Hideable s) {r : Regex Char} {new : Found Char → List Char}
    (hends : ∀ m, r.Match m → ∃ front back, new m = front ++ marker ++ back ∧ front <+: m.text ∧ back <:+ m.text)
    {value : List Char} (hs : ¬ s <:+: value) : ¬ s <:+: r.sub new value := by
  refine (rewrites_sub r new value).avoids ?_ [] hs
  rintro _ _ ⟨m, hm, rfl, rfl⟩
  obtain ⟨front, back, hnew, hfront, hback⟩ := hends m hm
  rw [hnew]
  exact h.fenced hfront hback

/-- A pattern whose group is its beginning. -/
theorem group_front {r s : Regex Char} {m : Found Char} (hs : s.plain = true) (h : (seq (group r) s).Match m) :
    m.group.getD [] <+: m.text := by
  obtain ⟨a, b, hgroup, _, htext⟩ := group_initial hs h
  rw [hgroup, htext]
  exact List.prefix_append a b.text

/-- `userInfo` ends with an `@`. -/
theorem userInfo_last {U : Unicode} {m : Found Char} (h : (userInfo U).Match m) : ['@'] <:+ m.text := by
  obtain ⟨tail, htail, hend⟩ := match_seq_last h
  obtain ⟨colon, hcolon, hend₁⟩ := match_seq_last htail
  obtain ⟨host, hhost, hend₂⟩ := match_seq_last hcolon
  obtain ⟨last, hlast, hend₃⟩ := match_seq_last hhost
  rw [match_letters hlast] at hend₃
  exact ((hend₃.trans hend₂).trans hend₁).trans hend

theorem Hideable.kept_redactPatterns {s : List Char} (h : Hideable s) (U : Unicode) {value : List Char}
    (hs : ¬ s <:+: value) : ¬ s <:+: redactPatterns U value := by
  refine h.kept_sub (fun m hm => ?_) (h.kept_sub (fun m _ => ?_) (h.kept_sub (fun m hm => ?_) hs))
  · exact ⟨_, _, rfl, group_front (by decide) hm, userInfo_last hm⟩
  · exact ⟨[], [], by simp, List.nil_prefix, List.nil_suffix⟩
  · exact ⟨_, [], by simp, group_front (by decide) hm, List.nil_suffix⟩

theorem cut_initial (maxLength : Option Int) (value : List Char) : cut maxLength value <+: value := by
  unfold cut
  split
  · exact List.prefix_rfl
  · exact List.take_prefix _ _
  · exact List.take_prefix _ _

/-! ## §6. Redacted values. -/

/-- The proviso on the secrets of an environment. -/
def Markable (environ : List (String × String)) : Prop :=
  ∀ s ∈ secrets environ, '[' ∉ s.toList ∧ ']' ∉ s.toList ∧ s ≠ "redacted"

/-- **No secret is left in a redacted text.** -/
theorem redactText_clean {environ : List (String × String)} (hmark : Markable environ) (U : Unicode)
    (maxLength : Option Int) (value : String) {s : String} (hs : s ∈ secrets environ) :
    ¬ s.toList <:+: (redactText U environ maxLength value).toList := by
  obtain ⟨hopen, hclose, hword⟩ := hmark s hs
  have h := hideable_of_secret hs hopen hclose hword
  unfold redactText
  rw [String.toList_ofList]
  intro hin
  exact h.kept_redactPatterns U (redactSecrets_clean hs h value.toList) (hin.trans (cut_initial _ _).isInfix)

/-- **Redaction removes every secret**, at any depth of a value. -/
theorem redact_clean (U : Unicode) (environ : List (String × String)) (maxLength : Option Int) (value : Json)
    (hmark : Markable environ) :
    ∀ text ∈ strings (redact U environ maxLength value), ∀ s ∈ secrets environ, ¬ s.toList <:+: text.toList := by
  intro text htext s hs
  obtain ⟨plain, rfl⟩ := strings_redact U environ maxLength value text htext
  exact redactText_clean hmark U maxLength plain hs

/-- Tables without anything beyond ASCII. -/
def asciiTables : Unicode where
  letter := fun _ => false
  lower := fun s => String.ofList (s.toList.map Char.toLower)
  lower_small := by
    intro s hs
    have hsame : s.toList.map Char.toLower = s.toList.map id := by
      refine List.map_congr_left fun c hc => ?_
      have hsmall := List.all_eq_true.mp hs c hc
      show c.toLower = c
      unfold Char.toLower
      rw [dif_neg]
      intro hupper
      simp only [small, Char.isLower, Char.isDigit, Bool.or_eq_true, Bool.and_eq_true, decide_eq_true_eq] at hsmall
      rcases hsmall with (hlower | hdigit) | rfl
      · exact absurd (UInt32.le_trans hlower.1 hupper.2) (by decide)
      · exact absurd (UInt32.le_trans hupper.1 hdigit.2) (by decide)
      · exact absurd hupper.2 (by decide)
    rw [hsame, List.map_id, String.ofList_toList]

/-- Two secrets that overlap. -/
def overlapping : List (String × String) := [("API_KEY", "abcdefgh"), ("HOME", "/home/user"), ("DB_PASSWORD", "cdefghij")]

theorem redact_clean_overlapping :
    "[redacted]ij" ∈ strings (redact asciiTables overlapping none (.list [.dict [("path", .str "abcdefghij")]])) ∧
      ¬ "cdefghij".toList <:+: "[redacted]ij".toList := by
  have hmem : "[redacted]ij" ∈ strings (redact asciiTables overlapping none
      (.list [.dict [("path", .str "abcdefghij")]])) := by decide
  exact ⟨hmem, redact_clean asciiTables overlapping none (.list [.dict [("path", .str "abcdefghij")]])
    (by unfold Markable; decide) "[redacted]ij" hmem "cdefghij" (by decide)⟩

end WebBuilder.Events
