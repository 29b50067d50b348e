/-
  WebBuilder.Events.PublicBounds — public details fit.

  What `_bounded` cannot shorten is the name of the tool, numbers, flags and
  keys, and the loop adds the names of what it shortened.  A tool's own keys
  are few.  The name is cut to 80 characters before it is redacted, and
  redaction can make it longer, but not beyond 17 bytes for each of them.

  Main results:
    * `size_redactText` — how long a redacted text can be;
    * `size_exhausted` — how much is left when nothing can be shortened;
    * `details_bounded` — the details of a tool call end, fit and are honest.
-/
import WebBuilder.Context.Encoding
import WebBuilder.Events.PublicTools

namespace WebBuilder.Events

open WebBuilder.Budget WebBuilder.Text WebBuilder.Store
open WebBuilder.Text.Regex
open WebBuilder.Context (quoted size_quoted escapedSize escapedSize_le escapedSize_pos size_intercalate_le size_mem_intercalate size_int)

/-! ## §1. How much redaction adds. -/

section Growth

variable {size : Char → Nat}

/-- A pattern adds at most so much for every `k` characters. -/
theorem sub_total {r : Regex Char} {new : Found Char → List Char} {k g : Nat} (hk : k ≤ r.minLength)
    (hnew : ∀ m, r.Match m → total size (new m) ≤ total size m.text + g) (value : List Char) :
    k * total size (r.sub new value) ≤ k * total size value + g * value.length := by
  refine Rewrites.total_le ?_ (rewrites_sub r new value)
  rintro _ _ ⟨m, hm, rfl, rfl⟩
  exact ⟨Nat.le_trans hk (minLength_le hm), hnew m hm⟩

theorem credential_total (hmark : total size marker = 10) (value : List Char) :
    7 * total size (credential.sub (fun m => m.group.getD [] ++ marker) value) ≤
      7 * total size value + 10 * value.length := by
  have hmin : 7 ≤ credential.minLength := by
    simp only [credential, caseless, minLength, minLength_letters, plus, opt]
    decide
  refine sub_total hmin (fun m hm => ?_) value
  obtain ⟨rest, hrest⟩ := group_front (by decide) hm
  rw [total_append, hmark, ← hrest, total_append]
  omega

theorem providerKey_total (hpos : ∀ c, 1 ≤ size c) (hmark : total size marker = 10) (U : Unicode) (value : List Char) :
    5 * total size ((providerKey U).sub (fun _ => marker) value) ≤ 5 * total size value + 5 * value.length := by
  have hmin : 5 ≤ (providerKey U).minLength := by
    simp only [providerKey, exactly, minLength, minLength_letters, plus, atLeast]
    decide
  have hnew : ∀ m, (providerKey U).Match m → total size marker ≤ total size m.text + 5 := by
    intro m hm
    have hlen := Nat.le_trans hmin (minLength_le hm)
    have htext := length_le_total hpos m.text
    rw [hmark]
    omega
  exact sub_total hmin hnew value

theorem userInfo_total (hpos : ∀ c, 1 ≤ size c) (hmark : total size marker = 10) (U : Unicode) (value : List Char) :
    8 * total size ((userInfo U).sub (fun m => m.group.getD [] ++ marker ++ ['@']) value) ≤
      8 * total size value + 7 * value.length := by
  have hmin : 8 ≤ (userInfo U).minLength := by
    simp only [userInfo, exactly, minLength, minLength_letters, plus]
    decide
  refine sub_total hmin (fun m hm => ?_) value
  obtain ⟨a, b, hgroup, hb, htext⟩ := group_initial (by decide) hm
  -- the rest of the match is a name, a colon, a password and the `@`
  obtain ⟨mid, hmid, hend₁⟩ := match_seq_last hb
  obtain ⟨host, hhost, hend₂⟩ := match_seq_last hmid
  obtain ⟨last, hlast, hend₃⟩ := match_seq_last hhost
  rw [match_letters hlast] at hend₃
  obtain ⟨before, hbefore⟩ := (hend₃.trans hend₂).trans hend₁
  have hlen := minLength_le hb
  have hfour : 4 ≤ b.text.length := Nat.le_trans (Nat.le_refl 4) hlen
  rw [← hbefore, List.length_append] at hfour
  have hsize := length_le_total hpos before
  have hone : "@".toList.length = 1 := by decide
  rw [htext, hgroup, Option.getD_some, total_append, total_append, total_append, hmark, ← hbefore, total_append]
  show _ ≤ total size a + (total size before + total size ['@']) + 7
  omega

end Growth

/-- What the secrets of an environment do to a text: every mark replaces eight characters. -/
theorem redactSecrets_marked {environ : List (String × String)} (hmark : Markable environ) {value : List Char} {n : Nat}
    (h : Marked marker 8 n value) : ∃ m, m ≤ n ∧ Marked marker 8 m (redactSecrets environ value) := by
  induction environ generalizing value n with
  | nil => exact ⟨n, Nat.le_refl n, h⟩
  | cons entry environ ih =>
      show ∃ m, m ≤ n ∧ Marked marker 8 m (redactSecrets environ
        (if isSecret entry then replace entry.2.toList marker value else value))
      have hrest : Markable environ := by
        intro s hs
        refine hmark s ?_
        unfold secrets at hs ⊢
        obtain ⟨other, hother, rfl⟩ := List.mem_map.mp hs
        obtain ⟨hin, hsecret⟩ := List.mem_filter.mp hother
        exact List.mem_map_of_mem (List.mem_filter.mpr ⟨List.mem_cons_of_mem _ hin, hsecret⟩)
      by_cases hentry : isSecret entry = true
      · rw [if_pos hentry]
        have hin : entry.2 ∈ secrets (entry :: environ) := by
          unfold secrets
          rw [List.filter_cons_of_pos hentry]
          exact List.mem_cons_self
        obtain ⟨hopen, hclose, hword⟩ := hmark entry.2 hin
        have hhide := hideable_of_secret hin hopen hclose hword
        have hlen : 8 ≤ entry.2.toList.length := by
          unfold isSecret at hentry
          rw [Bool.and_eq_true, decide_eq_true_eq] at hentry
          rw [String.length_toList]
          exact hentry.1
        obtain ⟨m, hle, hm⟩ := Rewrites.marked rfl hlen hhide.nonempty hhide.opening hhide.closing hhide.unmarked
          (rewrites_replace value) h
        obtain ⟨m', hle', hm'⟩ := ih hrest hm
        exact ⟨m', by omega, hm'⟩
      · rw [if_neg hentry]
        exact ih hrest h

/-- **A redacted text** encodes to at most 17 bytes for each of its characters. -/
theorem size_redactText {environ : List (String × String)} (hmark : Markable environ) (U : Unicode) (s : String) :
    (quoted (redactText U environ none s)).utf8ByteSize ≤ 17 * s.length + 2 := by
  rw [size_quoted]
  unfold redactText cut
  rw [String.toList_ofList]
  obtain ⟨m, hm, hmarked⟩ := redactSecrets_marked hmark (marked_self s.toList)
  rw [String.length_toList] at hm
  have hsize := hmarked.total_le escapedSize_le (by decide)
  have hlen := hmarked.length_le (by decide)
  have hten : marker.length = 10 := by decide
  rw [hten] at hlen
  unfold redactPatterns
  generalize redactSecrets environ s.toList = v at hsize hlen
  have hpos := escapedSize_pos
  have hmarker : total escapedSize marker = 10 := by decide
  have hone : total (fun _ => 1) marker = 10 := by decide
  have hsize₁ := credential_total hmarker v
  have hlen₁ := credential_total hone v
  rw [total_one, total_one] at hlen₁
  dsimp only
  generalize credential.sub (fun m => m.group.getD [] ++ marker) v = v₁ at hsize₁ hlen₁ ⊢
  have hsize₂ := providerKey_total hpos hmarker U v₁
  have hlen₂ := providerKey_total (fun _ => Nat.le_refl 1) hone U v₁
  rw [total_one, total_one] at hlen₂
  generalize (providerKey U).sub (fun _ => marker) v₁ = v₂ at hsize₂ hlen₂ ⊢
  have hsize₃ := userInfo_total hpos hmarker U v₂
  omega

variable {full body : Fields} {truncated : List String}

/-! ## §2. What cannot be shortened fits. -/

/-- The most bytes that a key costs once its field is empty: `key` of
`kind` bytes has a value of its own, and every key may be named twice. -/
def keyCost (kind : Nat) (key : String) : Nat := 2 * key.length + 27 + (if key = "kind" then kind else 0)

theorem escapedSize_small {c : Char} (h : small c = true) : escapedSize c = 1 := by
  have hascii : c.toNat < 128 := by
    simp only [small, Char.isLower, Char.isDigit, Bool.or_eq_true, Bool.and_eq_true, decide_eq_true_eq] at h
    rcases h with (hlower | hdigit) | rfl
    · exact Nat.lt_of_le_of_lt (UInt32.le_iff_toNat_le.mp hlower.2) (by decide)
    · exact Nat.lt_of_le_of_lt (UInt32.le_iff_toNat_le.mp hdigit.2) (by decide)
    · decide
  have hall : ∀ n < 128, small (Char.ofNat n) = true → escapedSize (Char.ofNat n) = 1 := by decide
  have hc := hall c.toNat hascii
  rw [Char.ofNat_toNat] at hc
  exact hc h

/-- The service's own keys are encoded as they are. -/
theorem size_small {key : String} (h : key.toList.all small = true) : (quoted key).utf8ByteSize = key.length + 2 := by
  rw [size_quoted, ← String.length_toList]
  congr 1
  generalize key.toList = cs at h
  induction cs with
  | nil => rfl
  | cons c cs ih =>
      rw [List.all_cons, Bool.and_eq_true] at h
      rw [total_cons, escapedSize_small h.1, ih h.2, List.length_cons]
      omega

theorem size_encodePublic (fields : Fields) : (encodePublic fields).utf8ByteSize ≤
    2 + (fields.map fun f => (quoted f.1).utf8ByteSize + (encodeField f.2).utf8ByteSize + 2).sum := by
  unfold encodePublic
  have hsize := size_intercalate_le "," (fields.map fun f => quoted f.1 ++ ":" ++ encodeField f.2)
  have hsum : ((fields.map fun f => quoted f.1 ++ ":" ++ encodeField f.2).map fun t => t.utf8ByteSize + ",".utf8ByteSize) =
      fields.map fun f => (quoted f.1).utf8ByteSize + (encodeField f.2).utf8ByteSize + 2 := by
    rw [List.map_map]
    refine List.map_congr_left fun f _ => ?_
    rw [Function.comp_apply, String.utf8ByteSize_append, String.utf8ByteSize_append]
    show _ + 1 + _ + 1 = _
    omega
  rw [hsum] at hsize
  rw [String.utf8ByteSize_append, String.utf8ByteSize_append]
  show 1 + _ + 1 ≤ _
  omega

/-- No field is larger than the whole. -/
theorem size_encodeField {fields : Fields} {f : String × Field} (h : f ∈ fields) :
    (encodeField f.2).utf8ByteSize ≤ (encodePublic fields).utf8ByteSize := by
  have hsize := size_mem_intercalate "," (List.mem_map_of_mem (f := fun f => quoted f.1 ++ ":" ++ encodeField f.2) h)
  rw [String.utf8ByteSize_append] at hsize
  unfold encodePublic
  rw [String.utf8ByteSize_append, String.utf8ByteSize_append]
  omega

/-- The entry of the shortened fields. -/
theorem size_truncatedEntry {keys : List String} (hsmall : ∀ key ∈ keys, key.toList.all small = true) :
    ((truncatedEntry keys).map fun f => (quoted f.1).utf8ByteSize + (encodeField f.2).utf8ByteSize + 2).sum ≤
      22 + (keys.map fun key => key.length + 3).sum := by
  unfold truncatedEntry
  split
  · exact Nat.zero_le _
  · have hsize := size_intercalate_le "," ((orderBy id keys).map quoted)
    have hsum : (((orderBy id keys).map quoted).map fun t => t.utf8ByteSize + ",".utf8ByteSize).sum =
        (keys.map fun key => key.length + 3).sum := by
      rw [List.map_map, ((orderBy_perm id keys).map _).sum_eq]
      refine congrArg List.sum (List.map_congr_left fun key hkey => ?_)
      rw [Function.comp_apply, size_small (hsmall key hkey)]
      rfl
    rw [hsum] at hsize
    have hname : (quoted "truncated_fields").utf8ByteSize = 18 := by decide
    rw [List.map_cons, List.map_nil, List.sum_cons, List.sum_nil]
    unfold encodeField
    rw [hname, String.utf8ByteSize_append, String.utf8ByteSize_append]
    show 18 + (1 + _ + 1) + 2 + 0 ≤ _
    omega

/-- What the size bound needs of the fields before they are shortened. -/
structure Published (kind : Nat) (names : List String) (full : Fields) : Prop where
  keys : (full.map Prod.fst).Sublist names
  nodup : names.Nodup
  small : ∀ key ∈ names, key.toList.all small = true
  fresh : "truncated_fields" ∉ names
  ints : ∀ f ∈ full, ∀ n, f.2 = .int n → -2 ^ 63 ≤ n ∧ n < 2 ^ 64
  kept : ∀ f ∈ full, f.1 ∈ keptKeys →
    (encodeField f.2).utf8ByteSize ≤ 20 + (if f.1 = "kind" then kind else 0)

/-- A field that cannot be shortened has at most 20 bytes. -/
theorem size_residue {f : Field} (hshrink : f.shrinkable = false) (hint : ∀ n, f = .int n → -2 ^ 63 ≤ n ∧ n < 2 ^ 64) :
    (encodeField f).utf8ByteSize ≤ 20 := by
  cases f with
  | bool b => cases b <;> decide
  | int n => exact size_int (hint n rfl).1 (hint n rfl).2
  | str s =>
      have hs : s = "" := of_not_not fun hne => absurd hshrink (by simp [Field.shrinkable, hne])
      subst hs
      decide
  | list xs =>
      have hxs : xs = [] := of_not_not fun hne => absurd hshrink (by simp [Field.shrinkable, hne])
      subst hxs
      decide

/-- **What is left fits**: once nothing can be shortened, the keys decide. -/
theorem size_exhausted {kind : Nat} {names : List String} (h : Published kind names full)
    (hs : Shortening full truncated body) (hnone : candidates body = []) :
    (encodePublic (body ++ truncatedEntry truncated)).utf8ByteSize ≤ 24 + (names.map (keyCost kind)).sum := by
  have hkeys := hs.keys_eq
  have hsub : (body.map Prod.fst).Sublist names := by
    rw [hkeys]
    exact h.keys
  have hin : ∀ f ∈ body, f.1 ∈ names := fun f hf => hsub.subset (List.mem_map_of_mem hf)
  -- every field that is left is small
  have hfield : ∀ f ∈ body, (encodeField f.2).utf8ByteSize ≤ 20 + (if f.1 = "kind" then kind else 0) := by
    intro g hg
    obtain ⟨hlen, hparts⟩ := List.forall₂_iff_zip.mp hs.parts
    have hsnd := List.map_snd_zip (Nat.le_of_eq hlen.symm)
    rw [← hsnd] at hg
    obtain ⟨⟨f, g⟩, hfg, rfl⟩ := List.mem_map.mp hg
    obtain ⟨hname, hpart, hwhole, _⟩ := hparts hfg
    have hf := (List.of_mem_zip hfg).1
    dsimp only
    rw [hname]
    by_cases hkept : f.1 ∈ keptKeys
    · rw [hwhole hkept]
      exact h.kept f hf hkept
    · have hshrink : g.2.shrinkable = false := by
        rw [← Bool.not_eq_true]
        intro hshrink
        have hmem : toLex ((encodeField g.2).utf8ByteSize, g.1) ∈ candidates body := by
          have hcond : (decide (g.1 ∉ keptKeys) && g.2.shrinkable) = true := by
            rw [Bool.and_eq_true, decide_eq_true_eq, hname]
            exact ⟨hkept, hshrink⟩
          exact List.mem_map.mpr ⟨g, List.mem_filter.mpr ⟨(List.of_mem_zip hfg).2, hcond⟩, rfl⟩
        rw [hnone] at hmem
        cases hmem
      have hresidue := size_residue hshrink (fun n hn => by
        rw [hn] at hpart
        generalize hfv : f.2 = v at hpart
        cases hpart with
        | int => exact h.ints f hf n hfv)
      omega
  have hsize := size_encodePublic (body ++ truncatedEntry truncated)
  rw [List.map_append, List.sum_append] at hsize
  have hbody : (body.map fun f => (quoted f.1).utf8ByteSize + (encodeField f.2).utf8ByteSize + 2).sum ≤
      ((body.map Prod.fst).map fun key => key.length + 24 + (if key = "kind" then kind else 0)).sum := by
    rw [List.map_map]
    refine List.sum_le_sum fun f hf => ?_
    have hval := hfield f hf
    rw [size_small (h.small f.1 (hin f hf)), Function.comp_apply]
    omega
  have hentry := @size_truncatedEntry truncated fun key hkey =>
    h.small key (h.keys.subset (hs.keys key hkey))
  -- the names are among the keys of the fields
  have hnamed : (truncated.map fun key => key.length + 3).sum ≤ ((body.map Prod.fst).map fun key => key.length + 3).sum := by
    have hsubperm : truncated.Subperm (body.map Prod.fst) := by
      refine hs.nodup.subperm fun key hkey => ?_
      rw [hkeys]
      exact hs.keys key hkey
    obtain ⟨sorted, hperm, hsorted⟩ := hsubperm
    rw [← (hperm.map _).sum_eq]
    exact (hsorted.map _).sum_le_sum (fun n _ => Nat.zero_le n)
  have hsum : ((body.map Prod.fst).map fun key => key.length + 24 + (if key = "kind" then kind else 0)).sum +
      ((body.map Prod.fst).map fun key => key.length + 3).sum = ((body.map Prod.fst).map (keyCost kind)).sum := by
    rw [← List.sum_map_add]
    refine congrArg List.sum (List.map_congr_left fun key _ => ?_)
    unfold keyCost
    omega
  have hall : ((body.map Prod.fst).map (keyCost kind)).sum ≤ (names.map (keyCost kind)).sum :=
    (hsub.map _).sum_le_sum (fun n _ => Nat.zero_le n)
  omega

/-! ## §3. The fields of every tool. -/

/-- The keys of a tool's own fields. -/
def toolKeys (name : String) : List String :=
  if name = "read_files" then ["files", "file_count"]
  else if name = "write_files" then ["changed_files", "file_count"]
  else if name = "search_project_history" then ["message_ids", "match_count"]
  else if name = "read_skill" then ["name", "resource", "sha256", "bytes", "status"]
  else if name = "execute_command" ∨ name = "browser_preflight" then
    ["stdout", "stderr", "exit_code", "pid", "status", "reconnected", "output_may_be_incomplete"]
  else if name = "inspect_preview" then
    ["revision", "checked", "final_verification", "errors", "viewports", "screenshot_captured"]
  else []

/-- The keys of all fields but `version` and `kind`. -/
def publicKeys (name : String) (result : Json) : List String :=
  (match result with
    | .null => ["paths", "file_count"]
    | _ => "ok" :: toolKeys name ++ ["error", "error_type"]) ++
  (if name = "execute_command" then ["command", "input_omitted"] else [])

/-- A value as it can be in memory: a number has 64 bits, a list or a
dictionary fewer than 2^63 items. -/
def Sized : Json → Prop
  | .int n => -2 ^ 63 ≤ n ∧ n < 2 ^ 64
  | .list xs => xs.length < 2 ^ 63
  | .dict fields => fields.length < 2 ^ 63
  | _ => True

/-- So are the values of a dictionary. -/
def SizedFields (value : Json) : Prop := ∀ fields, value = .dict fields → ∀ f ∈ fields, Sized f.2

theorem SizedFields.getField {fields : List (String × Json)} (h : SizedFields (.dict fields)) (key : String) :
    Sized (getField fields key) := by
  unfold WebBuilder.Events.getField
  cases hlookup : fields.lookup key with
  | none => exact trivial
  | some value =>
      obtain ⟨before, after, heq, _⟩ := List.lookup_eq_some_iff.mp hlookup
      exact h fields rfl (key, value) (heq ▸ List.mem_append_right _ List.mem_cons_self)

/-- Numbers of 64 bits. -/
def Numbers (fields : Fields) : Prop := ∀ f ∈ fields, ∀ n, f.2 = .int n → -2 ^ 63 ≤ n ∧ n < 2 ^ 64

theorem numbers_append {a b : Fields} (ha : Numbers a) (hb : Numbers b) : Numbers (a ++ b) := by
  intro f hf
  rcases List.mem_append.mp hf with hf | hf
  · exact ha f hf
  · exact hb f hf

theorem numbers_counted (key count : String) {xs : List String} (h : xs.length < 2 ^ 63) :
    Numbers (counted key count xs) := by
  intro f hf n hn
  rcases List.mem_cons.mp hf with rfl | hf
  · cases hn
  · rw [List.mem_singleton.mp hf] at hn
    cases hn
    omega

theorem keys_picked (kind : Json → Option Field) (result : List (String × Json)) (keys : List String) :
    ((picked kind result keys).map Prod.fst).Sublist keys := by
  unfold picked
  induction keys with
  | nil => exact List.Sublist.slnil
  | cons key keys ih =>
      rw [List.filterMap_cons]
      split
      · exact ih.cons key
      · rename_i f hf
        obtain ⟨value, _, rfl⟩ := Option.map_eq_some_iff.mp hf
        exact ih.cons_cons key

/-- A field that is picked has the value of the result. -/
theorem numbers_picked {kind : Json → Option Field} (hkind : ∀ value n, kind value = some (.int n) → value = .int n)
    {result : List (String × Json)} (h : SizedFields (.dict result)) (keys : List String) :
    Numbers (picked kind result keys) := by
  intro f hf n hn
  obtain ⟨key, _, hpick⟩ := List.mem_filterMap.mp hf
  obtain ⟨value, hvalue, rfl⟩ := Option.map_eq_some_iff.mp hpick
  have hsized := h.getField key
  have hvalue' : kind (getField result key) = some (.int n) := by
    rw [hvalue]
    exact congrArg some hn
  rw [hkind _ n hvalue'] at hsized
  exact hsized

theorem scalar_int (value : Json) (n : Int) (h : scalar value = some (.int n)) : value = .int n := by
  cases value <;> cases h
  rfl

theorem number_int (value : Json) (n : Int) (h : number value = some (.int n)) : value = .int n := by
  cases value <;> cases h
  rfl

theorem text_int (value : Json) (n : Int) (h : text value = some (.int n)) : value = .int n := by
  cases value <;> cases h

theorem length_textsOf (xs : List Json) : (textsOf xs).length ≤ xs.length := List.length_filterMap_le _ xs

theorem length_listOr {value : Json} (h : Sized value) : (listOr value).length < 2 ^ 63 := by
  cases value with
  | list xs => exact h
  | null | bool | int | float | str | dict => exact Nat.two_pow_pos 63

theorem inspectionFields_public {result : List (String × Json)} {fields : Fields} (h : inspectionFields result = .ok fields)
    (hsized : SizedFields (.dict result)) :
    (fields.map Prod.fst).Sublist
        ["revision", "checked", "final_verification", "errors", "viewports", "screenshot_captured"] ∧ Numbers fields := by
  unfold inspectionFields at h
  split at h
  · cases h
  split at h
  · cases h
  split at h
  · cases h
  rename_i viewports _
  cases h
  have hkeys := keys_picked number result ["revision", "checked", "final_verification"]
  have hnumbers := numbers_picked number_int hsized ["revision", "checked", "final_verification"]
  have hlists : ∀ errors : List String, Numbers [("errors", .list errors), ("viewports", .list viewports)] := by
    intro errors f hf n hn
    rcases List.mem_cons.mp hf with rfl | hf
    · cases hn
    · rw [List.mem_singleton.mp hf] at hn
      cases hn
  dsimp only
  split
  · refine ⟨?_, numbers_append (numbers_append hnumbers (hlists _)) ?_⟩
    · rw [List.map_append, List.map_append]
      exact (hkeys.append (List.Sublist.refl ["errors", "viewports"])).append (List.Sublist.refl ["screenshot_captured"])
    · intro f hf n hn
      rw [List.mem_singleton.mp hf] at hn
      cases hn
  · refine ⟨?_, numbers_append (numbers_append hnumbers (hlists _)) fun f hf => absurd hf List.not_mem_nil⟩
    rw [List.map_append, List.map_append]
    exact (hkeys.append (List.Sublist.refl ["errors", "viewports"])).append (List.nil_sublist ["screenshot_captured"])

/-- What a tool publishes: its own keys, and numbers of 64 bits. -/
theorem toolFields_public {name : String} {result : List (String × Json)} {fields : Fields}
    (h : toolFields name result = .ok fields) (hsized : SizedFields (.dict result)) :
    (fields.map Prod.fst).Sublist (toolKeys name) ∧ Numbers fields := by
  have hnone : ∀ {names : List String}, ((([] : Fields).map Prod.fst).Sublist names) ∧ Numbers [] :=
    ⟨List.nil_sublist _, fun f hf => absurd hf List.not_mem_nil⟩
  unfold toolFields at h
  unfold toolKeys
  by_cases hread : name = "read_files"
  · rw [if_pos hread] at h ⊢
    have hfiles := hsized.getField "files"
    split at h
    · rename_i files heq
      cases h
      rw [heq] at hfiles
      exact ⟨List.Sublist.refl _, numbers_counted _ _ (by rw [List.length_map]; exact hfiles)⟩
    · rename_i files heq
      cases h
      rw [heq] at hfiles
      exact ⟨List.Sublist.refl _, numbers_counted _ _ (Nat.lt_of_le_of_lt (length_textsOf files) hfiles)⟩
    · cases h
      exact hnone
  rw [if_neg hread] at h ⊢
  by_cases hwrite : name = "write_files"
  · rw [if_pos hwrite] at h ⊢
    have hfiles := hsized.getField "changed_files"
    split at h
    · rename_i files heq
      cases h
      rw [heq] at hfiles
      exact ⟨List.Sublist.refl _, numbers_counted _ _ (Nat.lt_of_le_of_lt (length_textsOf files) hfiles)⟩
    · cases h
      exact hnone
  rw [if_neg hwrite] at h ⊢
  by_cases hsearch : name = "search_project_history"
  · rw [if_pos hsearch] at h ⊢
    cases h
    refine ⟨List.Sublist.refl _, numbers_counted _ _ ?_⟩
    refine Nat.lt_of_le_of_lt (Nat.le_trans (length_textsOf _) (List.length_filterMap_le _ _)) ?_
    exact length_listOr (hsized.getField "messages")
  rw [if_neg hsearch] at h ⊢
  by_cases hskill : name = "read_skill"
  · rw [if_pos hskill] at h ⊢
    cases h
    exact ⟨keys_picked _ _ _, numbers_picked scalar_int hsized _⟩
  rw [if_neg hskill] at h ⊢
  by_cases hcommand : name = "execute_command" ∨ name = "browser_preflight"
  · rw [if_pos hcommand] at h ⊢
    cases h
    exact ⟨keys_picked _ _ _, numbers_picked scalar_int hsized _⟩
  rw [if_neg hcommand] at h ⊢
  by_cases hinspect : name = "inspect_preview"
  · rw [if_pos hinspect] at h ⊢
    exact inspectionFields_public h hsized
  rw [if_neg hinspect] at h ⊢
  cases h
  exact hnone

theorem startedFields_public {name : String} {args : List (String × Json)} (hsized : SizedFields (.dict args)) :
    ((startedFields name args).map Prod.fst).Sublist ["paths", "file_count"] ∧ Numbers (startedFields name args) := by
  have hshown : ∀ xs : List Json, xs.length < 2 ^ 63 →
      ((if textsOf xs = [] then [] else counted "paths" "file_count" (textsOf xs)).map Prod.fst).Sublist
        ["paths", "file_count"] ∧
      Numbers (if textsOf xs = [] then [] else counted "paths" "file_count" (textsOf xs)) := by
    intro xs hxs
    split
    · exact ⟨List.nil_sublist _, fun f hf => absurd hf List.not_mem_nil⟩
    · exact ⟨List.Sublist.refl _, numbers_counted _ _ (Nat.lt_of_le_of_lt (length_textsOf xs) hxs)⟩
  refine hshown _ ?_
  split
  · exact length_listOr (hsized.getField "paths")
  split
  · exact Nat.lt_of_le_of_lt (List.length_filterMap_le _ _) (length_listOr (hsized.getField "files"))
  · exact Nat.two_pow_pos 63

theorem commandFields_public (args : List (String × Json)) :
    ((commandFields args).map Prod.fst).Sublist ["command", "input_omitted"] ∧ Numbers (commandFields args) := by
  have homitted : (([("input_omitted", Field.bool true)] : Fields).map Prod.fst).Sublist ["command", "input_omitted"] ∧
      Numbers [("input_omitted", .bool true)] := by
    refine ⟨by decide, fun f hf n hn => ?_⟩
    rw [List.mem_singleton.mp hf] at hn
    cases hn
  unfold commandFields
  split
  · split
    · rename_i command _ _
      refine ⟨List.cons_sublist_cons.mpr (List.nil_sublist _), fun f hf n hn => ?_⟩
      rw [List.mem_singleton.mp hf] at hn
      cases hn
    · exact homitted
  · exact homitted

/-- **What a call publishes**: the version, the kind and the fields under
the tool's keys. -/
theorem projected_public {name : String} {args result : Json} {fields : Fields}
    (h : projected name args result = .ok fields) (hargs : SizedFields args) (hresult : SizedFields result) :
    ∃ rest, fields = ("version", .int 1) :: ("kind", .str (String.ofList (name.toList.take 80))) :: rest ∧
      (rest.map Prod.fst).Sublist (publicKeys name result) ∧ Numbers rest := by
  have hsized : SizedFields (.dict (dictOr args)) := by
    -- arguments that are no dictionary are an empty one
    intro fields heq f hf
    cases heq
    cases args with
    | dict args => exact hargs args rfl f hf
    | null | bool | int | float | str | list => cases hf
  have hcommand : ((if name = "execute_command" then commandFields (dictOr args) else []).map Prod.fst).Sublist
      (if name = "execute_command" then ["command", "input_omitted"] else []) ∧
      Numbers (if name = "execute_command" then commandFields (dictOr args) else []) := by
    split
    · exact commandFields_public (dictOr args)
    · exact ⟨List.Sublist.slnil, fun f hf => absurd hf List.not_mem_nil⟩
  unfold projected at h
  dsimp only at h
  generalize dictOr args = given at h hsized hcommand
  generalize (if name = "execute_command" then commandFields given else []) = command at h hcommand
  split at h
  · cases h
    obtain ⟨hkeys, hnumbers⟩ := @startedFields_public name given hsized
    refine ⟨startedFields name given ++ command, rfl, ?_, numbers_append hnumbers hcommand.2⟩
    rw [List.map_append]
    exact hkeys.append hcommand.1
  · rename_i result
    split at h
    · cases h
    rename_i own hown
    cases h
    obtain ⟨hkeys, hnumbers⟩ := toolFields_public hown hresult
    refine ⟨("ok", .bool (getField result "ok").truthy) :: (own ++ picked text result ["error", "error_type"]) ++ command,
      rfl, ?_, ?_⟩
    · rw [List.map_append, List.map_cons, List.map_append]
      exact ((hkeys.append (keys_picked text result ["error", "error_type"])).cons_cons "ok").append hcommand.1
    · refine numbers_append ?_ hcommand.2
      intro f hf n hn
      rcases List.mem_cons.mp hf with rfl | hf
      · cases hn
      · exact numbers_append hnumbers (numbers_picked text_int hresult _) f hf n hn
  · cases h

/-! ## §4. Their cost. -/

/-- The tools with fields of their own. -/
def tools : List String :=
  ["read_files", "write_files", "search_project_history", "read_skill", "execute_command", "browser_preflight",
    "inspect_preview"]

/-- What holds of the keys of the tools, with and without a result, and of
those of any other call, holds of all. -/
theorem publicKeys_all {P : String → List String → Prop}
    (hnull : ∀ name ∈ tools, P name (publicKeys name .null)) (hdict : ∀ name ∈ tools, P name (publicKeys name (.dict [])))
    (hother : ∀ name, P name ["paths", "file_count"] ∧ P name ["ok", "error", "error_type"]) (name : String) (result : Json) :
    P name (publicKeys name result) := by
  have hresult : publicKeys name result = publicKeys name .null ∨ publicKeys name result = publicKeys name (.dict []) := by
    cases result with
    | null => exact Or.inl rfl
    | bool | int | float | str | list | dict => exact Or.inr rfl
  by_cases htool : name ∈ tools
  · rcases hresult with heq | heq
    · rw [heq]
      exact hnull name htool
    · rw [heq]
      exact hdict name htool
  · simp only [tools, List.mem_cons, List.not_mem_nil, or_false, not_or] at htool
    obtain ⟨hread, hwrite, hsearch, hskill, hcommand, hbrowser, hinspect⟩ := htool
    have hnone : toolKeys name = [] := by
      unfold toolKeys
      rw [if_neg hread, if_neg hwrite, if_neg hsearch, if_neg hskill, if_neg (not_or.mpr ⟨hcommand, hbrowser⟩),
        if_neg hinspect]
    unfold publicKeys at hresult ⊢
    rw [hnone, if_neg hcommand, List.append_nil, List.append_nil, List.append_nil] at hresult
    rw [hnone, if_neg hcommand, List.append_nil]
    rcases hresult with heq | heq
    · rw [heq]
      exact (hother name).1
    · rw [heq]
      exact (hother name).2

/-- The service's own keys: different, of small letters, and none of those
that are dropped or never shortened. -/
def Own (names : List String) : Prop :=
  names.Nodup ∧ (∀ key ∈ names, key.toList.all small = true) ∧ ∀ key ∈ names, key ∉ keptKeys ∧ key ∉ droppedKeys

instance (names : List String) : Decidable (Own names) := inferInstanceAs (Decidable (_ ∧ _ ∧ _))

theorem publicKeys_own (name : String) (result : Json) : Own (publicKeys name result) :=
  publicKeys_all (P := fun _ names => Own names) (by decide) (by decide) (fun _ => by decide) name result

/-- **The keys leave room for the kind.** -/
theorem publicKeys_cost (name : String) (result : Json) :
    24 + (("version" :: "kind" :: publicKeys name result).map
      (keyCost (17 * (String.ofList (name.toList.take 80)).length))).sum ≤ MAX_PUBLIC_BYTES := by
  have hother : ∀ (name : String) (names : List String), names = ["paths", "file_count"] ∨ names = ["ok", "error", "error_type"] →
      24 + (("version" :: "kind" :: names).map (keyCost (17 * (String.ofList (name.toList.take 80)).length))).sum ≤
        MAX_PUBLIC_BYTES := by
    intro name names hnames
    have hcut : (String.ofList (name.toList.take 80)).length ≤ 80 := by
      rw [← String.length_toList, String.toList_ofList, List.length_take]
      exact Nat.min_le_left _ _
    have hversion : keyCost (17 * (String.ofList (name.toList.take 80)).length) "version" = 41 := rfl
    have hkind : keyCost (17 * (String.ofList (name.toList.take 80)).length) "kind" =
        35 + 17 * (String.ofList (name.toList.take 80)).length := rfl
    have hrest : (names.map (keyCost (17 * (String.ofList (name.toList.take 80)).length))).sum ≤ 115 := by
      rcases hnames with rfl | rfl
      · exact Nat.le_of_ble_eq_true rfl
      · exact Nat.le_of_ble_eq_true rfl
    rw [List.map_cons, List.map_cons, List.sum_cons, List.sum_cons, hversion, hkind]
    show _ ≤ 1600
    omega
  exact publicKeys_all (P := fun name names => 24 + (("version" :: "kind" :: names).map
    (keyCost (17 * (String.ofList (name.toList.take 80)).length))).sum ≤ MAX_PUBLIC_BYTES) (by decide) (by decide)
    (fun name => ⟨hother name _ (Or.inl rfl), hother name _ (Or.inr rfl)⟩) name result

/-- The keys of a call are not dropped. -/
theorem redactPublic_own (U : Unicode) (environ : List (String × String)) {fields : Fields}
    (hsmall : ∀ f ∈ fields, f.1.toList.all small = true) (hdrop : ∀ f ∈ fields, f.1 ∉ droppedKeys) :
    redactPublic U environ fields = fields.map fun f => (f.1, redactField U environ f.2) := by
  unfold redactPublic
  rw [List.filter_eq_self.mpr]
  intro f hf
  rw [U.lower_small f.1 (hsmall f hf), decide_eq_true_eq]
  exact hdrop f hf

/-- **The redacted fields of a call** meet what the size bound needs. -/
theorem projected_published {environ : List (String × String)} (hmark : Markable environ) (U : Unicode) {name : String}
    {args result : Json} {fields : Fields} (h : projected name args result = .ok fields) (hargs : SizedFields args)
    (hresult : SizedFields result) :
    Published (17 * (String.ofList (name.toList.take 80)).length) ("version" :: "kind" :: publicKeys name result)
      (redactPublic U environ fields) := by
  obtain ⟨rest, rfl, hkeys, hnumbers⟩ := projected_public h hargs hresult
  obtain ⟨hnodup, hsmall, hown⟩ := publicKeys_own name result
  have hrest : ∀ f ∈ rest, f.1 ∈ publicKeys name result := fun f hf => hkeys.subset (List.mem_map_of_mem hf)
  rw [redactPublic_own]
  · constructor
    · rw [List.map_map]
      exact (hkeys.cons_cons "kind").cons_cons "version"
    · refine List.nodup_cons.mpr ⟨fun hin => ?_, List.nodup_cons.mpr ⟨fun hin => ?_, hnodup⟩⟩
      · rcases List.mem_cons.mp hin with heq | hin
        · exact absurd heq (by decide)
        · exact (hown _ hin).1 (by decide)
      · exact (hown _ hin).1 (by decide)
    · rw [List.forall_mem_cons, List.forall_mem_cons]
      exact ⟨by decide, by decide, hsmall⟩
    · intro hin
      rcases List.mem_cons.mp hin with heq | hin
      · exact absurd heq (by decide)
      rcases List.mem_cons.mp hin with heq | hin
      · exact absurd heq (by decide)
      · exact (hown _ hin).1 (by decide)
    · intro f hf n hn
      obtain ⟨g, hg, rfl⟩ := List.mem_map.mp hf
      rcases List.mem_cons.mp hg with rfl | hg
      · cases hn
        decide
      rcases List.mem_cons.mp hg with rfl | hg
      · cases hn
      · generalize hvalue : g.2 = value at hn
        cases value with
        | int m =>
            cases hn
            exact hnumbers g hg n hvalue
        | bool | str | list => cases hn
    · intro f hf hkept
      obtain ⟨g, hg, rfl⟩ := List.mem_map.mp hf
      rcases List.mem_cons.mp hg with rfl | hg
      · show (toString (1 : Int)).utf8ByteSize ≤ 20 + 0
        decide
      rcases List.mem_cons.mp hg with rfl | hg
      · have hsize := size_redactText hmark U (String.ofList (name.toList.take 80))
        show (quoted _).utf8ByteSize ≤ 20 + 17 * _
        omega
      · exact absurd hkept (hown _ (hrest g hg)).1
  · rw [List.forall_mem_cons, List.forall_mem_cons]
    exact ⟨by decide, (by decide : "kind".toList.all small = true), fun f hf => hsmall _ (hrest f hf)⟩
  · rw [List.forall_mem_cons, List.forall_mem_cons]
    exact ⟨by decide, (by decide : "kind" ∉ droppedKeys), fun f hf => (hown _ (hrest f hf)).2⟩

/-! ## §5. Details of a call. -/

/-- A loop over the value has items. -/
def iterable : Json → Bool
  | .list _ => true
  | .str _ => true
  | .dict _ => true
  | _ => false

/-- The value can be looked for in a set. -/
def hashable : Json → Bool
  | .list _ => false
  | .dict _ => false
  | _ => true

/-- What `inspect_preview` needs of its result. -/
def inspectable (result : List (String × Json)) : Bool :=
  iterable (getItems result "errors") && iterable (getItems result "pages") &&
    (listOr (getItems result "pages")).all fun page => hashable (getField (dictOr page) "viewport")

/-- The results that a tool has. -/
def shaped (name : String) : Json → Bool
  | .null => true
  | .dict result => name ≠ "inspect_preview" || inspectable result
  | _ => false

theorem viewportOf_hashable (page : Json) :
    if hashable (getField (dictOr page) "viewport") then ∃ viewport, viewportOf page = .ok viewport
    else viewportOf page = .error .other := by
  cases page with
  | null | bool | int | float | str | list => exact ⟨none, rfl⟩
  | dict fields =>
      show if hashable (getField fields "viewport") then _ else _
      unfold viewportOf
      dsimp only
      generalize getField fields "viewport" = value
      cases value with
      | list | dict => rfl
      | null | bool | int | float => exact ⟨none, rfl⟩
      | str s => exact ⟨_, rfl⟩

theorem viewportsOf_hashable (pages : List Json) :
    if pages.all fun page => hashable (getField (dictOr page) "viewport") then ∃ viewports, viewportsOf pages = .ok viewports
    else viewportsOf pages = .error .other := by
  induction pages with
  | nil => exact ⟨[], rfl⟩
  | cons page pages ih =>
      have hpage := viewportOf_hashable page
      unfold viewportsOf
      rw [List.all_cons]
      by_cases hhash : hashable (getField (dictOr page) "viewport") = true
      · rw [if_pos hhash] at hpage
        obtain ⟨viewport, hviewport⟩ := hpage
        rw [hviewport, hhash, Bool.true_and]
        split
        · rename_i hall
          rw [if_pos hall] at ih
          obtain ⟨viewports, hviewports⟩ := ih
          exact ⟨viewport.toList ++ viewports, by rw [hviewports]; rfl⟩
        · rename_i hall
          rw [if_neg hall] at ih
          rw [ih]
          rfl
      · rw [if_neg hhash] at hpage
        rw [hpage, Bool.eq_false_iff.mpr hhash, Bool.false_and]
        rfl

theorem iterate_iterable (value : Json) :
    if iterable value then ∃ items, iterate value = .ok items else iterate value = .error .other := by
  cases value with
  | null | bool | int | float => rfl
  | list | str | dict => exact ⟨_, rfl⟩

/-- Characters and keys are no pages. -/
theorem iterate_pages {value : Json} {items : List Json} (h : iterate value = .ok items) :
    (items.all fun page => hashable (getField (dictOr page) "viewport")) =
      (listOr value).all fun page => hashable (getField (dictOr page) "viewport") := by
  cases value with
  | null | bool | int | float => cases h
  | list xs =>
      cases h
      rfl
  | str s =>
      cases h
      refine List.all_eq_true.mpr fun page hpage => ?_
      obtain ⟨c, _, rfl⟩ := List.mem_map.mp hpage
      rfl
  | dict fields =>
      cases h
      refine List.all_eq_true.mpr fun page hpage => ?_
      obtain ⟨f, _, rfl⟩ := List.mem_map.mp hpage
      rfl

theorem inspectionFields_inspectable (result : List (String × Json)) :
    if inspectable result then ∃ fields, inspectionFields result = .ok fields
    else inspectionFields result = .error .other := by
  have herrors := iterate_iterable (getItems result "errors")
  have hpages := iterate_iterable (getItems result "pages")
  unfold inspectable inspectionFields
  by_cases hin : iterable (getItems result "errors") = true
  · rw [if_pos hin] at herrors
    obtain ⟨errors, herrors⟩ := herrors
    rw [herrors, hin, Bool.true_and]
    dsimp only
    by_cases hin' : iterable (getItems result "pages") = true
    · rw [if_pos hin'] at hpages
      obtain ⟨pages, hpages⟩ := hpages
      have hviewports := viewportsOf_hashable pages
      rw [hpages, hin', Bool.true_and, ← iterate_pages hpages]
      dsimp only
      split
      · rename_i hall
        rw [if_pos hall] at hviewports
        obtain ⟨viewports, hviewports⟩ := hviewports
        rw [hviewports]
        exact ⟨_, rfl⟩
      · rename_i hall
        rw [if_neg hall] at hviewports
        rw [hviewports]
    · rw [if_neg hin'] at hpages
      rw [hpages, Bool.eq_false_iff.mpr hin', Bool.false_and]
      rfl
  · rw [if_neg hin] at herrors
    rw [herrors, Bool.eq_false_iff.mpr hin, Bool.false_and, Bool.false_and]
    rfl

/-- Of the tools, only `inspect_preview` looks into its result. -/
theorem toolFields_other {name : String} (h : name ≠ "inspect_preview") (result : List (String × Json)) :
    ∃ fields, toolFields name result = .ok fields := by
  unfold toolFields
  split
  · split <;> exact ⟨_, rfl⟩
  split
  · split <;> exact ⟨_, rfl⟩
  split
  · exact ⟨_, rfl⟩
  split
  · exact ⟨_, rfl⟩
  split
  · exact ⟨_, rfl⟩
  · exact ⟨_, rfl⟩

/-- **When a call has details**: for a shaped result, and for no other. -/
theorem projected_shaped (name : String) (args result : Json) :
    if shaped name result then ∃ fields, projected name args result = .ok fields
    else projected name args result = .error .other := by
  cases result with
  | null => exact ⟨_, rfl⟩
  | bool | int | float | str | list => rfl
  | dict result =>
      show if name ≠ "inspect_preview" || inspectable result then _ else _
      unfold projected
      dsimp only
      by_cases hname : name = "inspect_preview"
      · subst hname
        have hinspect := inspectionFields_inspectable result
        have htool : toolFields "inspect_preview" result = inspectionFields result := rfl
        rw [htool]
        show if inspectable result then _ else _
        split
        · rename_i hshape
          rw [if_pos hshape] at hinspect
          obtain ⟨fields, hfields⟩ := hinspect
          rw [hfields]
          exact ⟨_, rfl⟩
        · rename_i hshape
          rw [if_neg hshape] at hinspect
          rw [hinspect]
      · obtain ⟨fields, hfields⟩ := toolFields_other hname result
        rw [hfields, decide_eq_true hname, Bool.true_or, if_pos rfl]
        exact ⟨_, rfl⟩

/-- **Details of a call**: the loop ends, whatever the number of turns beyond
some, the encoding fits, and what was shortened is named. -/
theorem details_bounded (U : Unicode) (environ : List (String × String)) (name : String) (args result : Json)
    (hmark : Markable environ) (hargs : SizedFields args) (hresult : SizedFields result)
    (hshape : shaped name result = true) :
    ∃ fields details, projected name args result = .ok fields ∧
      (∃ n, ∀ turns ≥ n, publicToolDetails turns U environ name args result = some (.ok details)) ∧
      (encodePublic details).utf8ByteSize ≤ MAX_PUBLIC_BYTES ∧ Honest (redactPublic U environ fields) details := by
  have hprojected := projected_shaped name args result
  rw [if_pos hshape] at hprojected
  obtain ⟨fields, hfields⟩ := hprojected
  have hpublished := projected_published hmark U hfields hargs hresult
  have hnodup := hpublished.nodup.sublist hpublished.keys
  have hfresh : "truncated_fields" ∉ (redactPublic U environ fields).map Prod.fst :=
    fun hin => hpublished.fresh (hpublished.keys.subset hin)
  obtain ⟨truncated, body, hshrink, hleft, hsize⟩ :=
    shrink_ends hnodup hfresh (Nat.lt_succ_self _) (shortening_self (redactPublic U environ fields))
  refine ⟨fields, body ++ truncatedEntry truncated, hfields,
    ⟨weight (redactPublic U environ fields) + 1, fun turns hturns => ?_⟩, ?_, hleft.honest hnodup⟩
  · unfold publicToolDetails
    rw [hfields]
    have hstart : redactPublic U environ fields ++ truncatedEntry [] = redactPublic U environ fields := List.append_nil _
    rw [hstart] at hshrink
    have hmore := shrink_enough hshrink hturns
    dsimp only
    rw [hmore]
    rfl
  · rcases hsize with hfits | hnone
    · exact hfits
    · exact Nat.le_trans (size_exhausted hpublished hleft hnone) (publicKeys_cost name result)

/-- A directory with a secret in its name. -/
theorem details_bounded_listing :
    ∃ fields details,
      projected "read_files" .null (.dict [("ok", .bool true), ("files", .list [.str "abcdefghij"])]) = .ok fields ∧
      (∃ n, ∀ turns ≥ n, publicToolDetails turns asciiTables overlapping "read_files" .null
        (.dict [("ok", .bool true), ("files", .list [.str "abcdefghij"])]) = some (.ok details)) ∧
      (encodePublic details).utf8ByteSize ≤ MAX_PUBLIC_BYTES ∧
      Honest (redactPublic asciiTables overlapping fields) details :=
  details_bounded asciiTables overlapping "read_files" .null
    (.dict [("ok", .bool true), ("files", .list [.str "abcdefghij"])]) (by unfold Markable; decide)
    (fun fields h => by cases h)
    (fun fields h f hf => by
      cases h
      rcases List.mem_cons.mp hf with rfl | hf
      · exact trivial
      · rw [List.mem_singleton.mp hf]
        exact (by decide : 1 < 2 ^ 63))
    (by decide)

/-! ## §6. Details that do not fit. -/

theorem marker_eq : marker = ['[', 'r', 'e', 'd', 'a', 'c', 't', 'e', 'd', ']'] := by decide

/-- The patterns leave texts of the marker's characters alone. -/
theorem redactPatterns_marker (U : Unicode) {value : List Char} (h : ∀ c ∈ value, c ∈ marker) :
    redactPatterns U value = value := by
  have hletter : ∀ l ∈ ['b', 'p', 's', 'o'], ∀ c, sameLetter l c = true → c ∉ marker := by
    intro l hl c hc hin
    have hnone : ∀ l ∈ ['b', 'p', 's', 'o'], ∀ c ∈ marker, sameLetter l c = false := by
      rw [marker_eq]
      simp [sameLetter]
    rw [hnone l hl c hin] at hc
    cases hc
  have hexact : ∀ l ∈ ['-', '_', 'A', ':'], ∀ c, decide (c = l) = true → c ∉ marker := by
    intro l hl c hc
    have hnone : ∀ l ∈ ['-', '_', 'A', ':'], l ∉ marker := by
      rw [marker_eq]
      simp
    rw [of_decide_eq_true hc]
    exact hnone l hl
  have hcredential : credential.Needs (· ∉ marker) := by
    refine Or.inl ⟨Or.inl (needs_letters (by decide) (hletter 'b' (by decide))), Or.inl ⟨?_, ?_, ?_, ?_⟩⟩
    · exact Or.inl (needs_letters (by decide) (hletter 'p' (by decide)))
    · exact needs_letters (by decide) (hletter 'p' (by decide))
    · exact needs_letters (by decide) (hletter 's' (by decide))
    · exact needs_letters (by decide) (hletter 'o' (by decide))
  have hprovider : (providerKey U).Needs (· ∉ marker) := by
    refine Or.inr (Or.inl ⟨Or.inl ?_, Or.inr (Or.inr (Or.inl ?_)), Or.inl ?_⟩)
    · exact needs_letters (by decide) (hexact '-' (by decide))
    · exact needs_letters (by decide) (hexact '_' (by decide))
    · exact needs_letters (by decide) (hexact 'A' (by decide))
  have huser : (userInfo U).Needs (· ∉ marker) :=
    Or.inr (Or.inr (Or.inl (needs_letters (by decide) (hexact ':' (by decide)))))
  have hkeep : ∀ c ∈ value, ¬ c ∉ marker := fun c hc hnot => hnot (h c hc)
  unfold redactPatterns
  dsimp only
  rw [sub_same hcredential _ hkeep, sub_same hprovider _ hkeep, sub_same huser _ hkeep]

theorem redactSecrets_marker (environ : List (String × String)) {value : List Char} (h : ∀ c ∈ value, c ∈ marker) :
    ∀ c ∈ redactSecrets environ value, c ∈ marker := by
  induction environ generalizing value with
  | nil => exact h
  | cons entry environ ih =>
      have hstep : ∀ c ∈ (if isSecret entry then replace entry.2.toList marker value else value), c ∈ marker := by
        split
        · refine (rewrites_replace value).mem ?_ h
          rintro _ _ ⟨_, rfl⟩ c hc
          exact hc
        · exact h
      exact ih hstep

/-- Secrets that are found in the marker, and between four markers around one
another. -/
def nestedSecrets : List (String × String) :=
  let round := ["redacted", "redacted", "redacted", "redacted", "]]]][[[["]
  ((round ++ round ++ round ++ ["redacted", "redacted", "redacted", "redacted", "redacted", "redacted"]).zipIdx).map
    fun s => (String.ofList ("TOKEN_".toList ++ List.replicate s.2 'X'), s.1)

/-- A name of 80 characters. -/
def nestedName : String := String.ofList (List.replicate 10 "redacted".toList).flatten

theorem nestedSecrets_size (U : Unicode) :
    1600 < (quoted (redactText U nestedSecrets none nestedName)).utf8ByteSize := by
  have hlen : 1600 < (redactSecrets nestedSecrets (List.replicate 10 "redacted".toList).flatten).length := by
    decide +kernel
  have hname : ∀ c ∈ (List.replicate 10 "redacted".toList).flatten, c ∈ marker := by
    intro c hc
    rw [List.mem_flatten] at hc
    obtain ⟨word, hword, hc⟩ := hc
    rw [List.eq_of_mem_replicate hword] at hc
    exact List.mem_cons_of_mem _ (List.mem_append_left _ hc)
  have hsize := length_le_total escapedSize_pos (redactSecrets nestedSecrets (List.replicate 10 "redacted".toList).flatten)
  rw [size_quoted]
  unfold redactText cut nestedName
  rw [String.toList_ofList, String.toList_ofList, redactPatterns_marker U (redactSecrets_marker _ hname)]
  dsimp only
  omega

theorem projected_nested :
    projected nestedName .null .null = .ok [("version", .int 1), ("kind", .str nestedName)] := by
  have hcut : String.ofList (nestedName.toList.take 80) = nestedName := by decide +kernel
  have hname : nestedName ≠ "execute_command" := by decide +kernel
  have hstart : startedFields nestedName [] = [] := by
    unfold startedFields
    dsimp only
    rw [if_pos]
    split
    · rfl
    split <;> rfl
  unfold projected
  dsimp only [dictOr]
  rw [hstart, hcut, if_neg hname]
  rfl

/-- **Details that do not fit, and calls without any**: a result that is a
list, errors that are `null`, a viewport that cannot be hashed, and secrets
that are found in what replaces them. -/
theorem details_unbounded :
    (∀ turns, publicToolDetails turns asciiTables [] "read_files" (.dict []) (.list []) = some (.error .other)) ∧
    (∀ turns, publicToolDetails turns asciiTables [] "inspect_preview" (.dict []) (.dict [("errors", .null)]) =
      some (.error .other)) ∧
    (∀ turns, publicToolDetails turns asciiTables [] "inspect_preview" (.dict [])
      (.dict [("pages", .list [.dict [("viewport", .list [])]])]) = some (.error .other)) ∧
    ∀ turns details, publicToolDetails turns asciiTables nestedSecrets nestedName .null .null = some (.ok details) →
      1600 < (encodePublic details).utf8ByteSize := by
  refine ⟨fun turns => rfl, fun turns => rfl, fun turns => rfl, fun turns details h => ?_⟩
  unfold publicToolDetails at h
  rw [projected_nested] at h
  dsimp only at h
  obtain ⟨result, hshrink, heq⟩ := Option.map_eq_some_iff.mp h
  cases heq
  have hredact : redactPublic asciiTables nestedSecrets [("version", .int 1), ("kind", .str nestedName)] =
      [("version", .int 1), ("kind", .str (redactText asciiTables nestedSecrets none nestedName))] := by
    rw [redactPublic_own]
    · rfl
    · intro f hf
      rcases List.mem_cons.mp hf with rfl | hf
      · decide
      · rw [List.mem_singleton.mp hf]
        exact (by decide : "kind".toList.all small = true)
    · intro f hf
      rcases List.mem_cons.mp hf with rfl | hf
      · decide
      · rw [List.mem_singleton.mp hf]
        exact (by decide : "kind" ∉ droppedKeys)
  rw [hredact] at hshrink
  -- neither field can be shortened, so the loop returns what it was given
  have hsame : details = [("version", .int 1), ("kind", .str (redactText asciiTables nestedSecrets none nestedName))] := by
    cases turns with
    | zero => cases hshrink
    | succ turns =>
        unfold shrink at hshrink
        split at hshrink
        · exact (Option.some.inj hshrink).symm
        · have hnone : candidates [("version", .int 1),
              ("kind", .str (redactText asciiTables nestedSecrets none nestedName))] = [] := rfl
          rw [hnone] at hshrink
          exact (Option.some.inj hshrink).symm
  have hsize := nestedSecrets_size asciiTables
  rw [hsame]
  have hkind := @size_encodeField [("version", .int 1),
    ("kind", .str (redactText asciiTables nestedSecrets none nestedName))] _ (List.mem_cons_of_mem _ List.mem_cons_self)
  exact Nat.lt_of_lt_of_le hsize hkind

end WebBuilder.Events
