/-
  WebBuilder.Frontend.ContentCache — contents of saved files in memory.

  `lib/files/contentCache.ts`.  A `Map` keeps its entries in the order of their
  insertion, and a counter keeps the sum of their sizes.  A file that is cached
  replaces the one under its key; if it is too large it is only removed.
  Otherwise the oldest entries go until the new one fits, both in number and in
  size.

  The loop reads the first entry without a test.  On an empty map this is a
  `TypeError`, which the model keeps.

  Main results:
    * `evict_spec` — the loop ends, and drops no more than it must;
    * `cacheFile_spec` — what one call does;
    * `cache_bounded` — the cache after any calls.
-/
import WebBuilder.Store.Table

namespace WebBuilder.Frontend.ContentCache

open WebBuilder.Store

/-! ## §1. The cache. -/

structure SavedFileContent where
  content : Option String
  binary : Bool
  deriving DecidableEq

structure Entry where
  key : String
  file : SavedFileContent
  deriving DecidableEq

instance : Keyed Entry String := ⟨Entry.key⟩

def MAX_BYTES : Nat := 2 * 1024 * 1024
def MAX_FILES : Nat := 64

/-- `text.length`: characters beyond the basic plane count twice. -/
def utf16Length (text : String) : Nat := (text.toList.map fun c => if c.toNat < 65536 then 1 else 2).sum

def entrySizeBytes (key : String) (file : SavedFileContent) : Nat :=
  (utf16Length key + (file.content.map utf16Length).getD 0) * 2

def Entry.sizeBytes (entry : Entry) : Nat := entrySizeBytes entry.key entry.file

structure Cache where
  files : Table Entry
  cachedBytes : Int

def Cache.empty : Cache := ⟨.empty, 0⟩

/-! ## §2. The operations. -/

def clearFileContentCache (_ : Cache) : Cache := .empty

def getCachedFile (c : Cache) (key : String) : Option SavedFileContent := (c.files.get? key).map Entry.file

theorem erase_head {t : Table Entry} {entry : Entry} {rest : List Entry} (h : t.rows = entry :: rest) :
    (t.erase entry.key).rows = rest := by
  have hnodup := t.nodup
  rw [h, List.map_cons, List.nodup_cons] at hnodup
  show t.rows.filter (fun r => !decide (key r = entry.key)) = rest
  rw [h, List.filter_cons_of_neg (by simp [key])]
  refine List.filter_eq_self.mpr fun r hr => ?_
  rw [Bool.not_eq_true', decide_eq_false_iff_not]
  intro hsame
  rw [show key entry = key r from hsame.symm] at hnodup
  exact hnodup.1 (List.mem_map_of_mem hr)

/-- The loop: the oldest entry goes while there is no room. -/
def evict (entryBytes : Nat) (c : Cache) : Except String Cache :=
  if MAX_FILES ≤ c.files.rows.length ∨ MAX_BYTES < c.cachedBytes + entryBytes then
    match _h : c.files.rows with
    | [] => .error "TypeError"
    | oldest :: _ => evict entryBytes ⟨c.files.erase oldest.key, c.cachedBytes - oldest.sizeBytes⟩
  else .ok c
termination_by c.files.rows.length
decreasing_by
  rw [erase_head _h, _h]
  exact Nat.lt_succ_self _

/-- The entry under the key goes. -/
def removePrevious (c : Cache) (key : String) : Cache :=
  match c.files.get? key with
  | some previous => ⟨c.files.erase key, c.cachedBytes - entrySizeBytes key previous.file⟩
  | none => c

def cacheFile (c : Cache) (key : String) (file : SavedFileContent) : Except String Cache :=
  let c := removePrevious c key
  let entryBytes := entrySizeBytes key file
  if MAX_BYTES < entryBytes then .ok c
  else do
    let c ← evict entryBytes c
    return ⟨c.files.put ⟨key, file⟩, c.cachedBytes + entryBytes⟩

/-! ## §3. The loop. -/

/-- The counter is the sum of the sizes. -/
def Exact (c : Cache) : Prop := c.cachedBytes = c.files.sumOf Entry.sizeBytes

/-- There is no room for another entry beside these. -/
def Full (entryBytes : Nat) (entries : List Entry) : Prop :=
  MAX_FILES ≤ entries.length ∨ MAX_BYTES < (entries.map Entry.sizeBytes).sum + entryBytes

/-- **What the loop leaves**: the newest entries, as many as leave room. -/
structure Evicted (entryBytes : Nat) (c c' : Cache) : Prop where
  exact : Exact c'
  room : ¬ Full entryBytes c'.files.rows
  newest : ∃ n, c'.files.rows = c.files.rows.drop n ∧ ∀ k < n, Full entryBytes (c.files.rows.drop k)

theorem Exact.full_iff {c : Cache} (h : Exact c) (entryBytes : Nat) :
    (MAX_FILES ≤ c.files.rows.length ∨ MAX_BYTES < c.cachedBytes + entryBytes) ↔ Full entryBytes c.files.rows := by
  unfold Exact Table.sumOf at h
  unfold Full
  rw [h]
  norm_cast

/-- An empty cache has room for every entry that may be cached. -/
theorem not_full_nil {entryBytes : Nat} (h : entryBytes ≤ MAX_BYTES) : ¬ Full entryBytes [] := by
  rintro (hcount | hbytes)
  · exact absurd hcount (by decide)
  · rw [List.map_nil, List.sum_nil, Nat.zero_add] at hbytes
    exact Nat.not_lt.mpr h hbytes

/-- **The loop ends** without reading from an empty map. -/
theorem evict_spec {entryBytes : Nat} (hfits : entryBytes ≤ MAX_BYTES) :
    ∀ {c : Cache}, Exact c → ∃ c', evict entryBytes c = .ok c' ∧ Evicted entryBytes c c' := by
  intro c
  generalize hlen : c.files.rows.length = len
  induction len generalizing c with
  | zero =>
      intro hexact
      have hnil := List.length_eq_zero_iff.mp hlen
      have hroom : ¬ Full entryBytes c.files.rows := hnil ▸ not_full_nil hfits
      unfold evict
      rw [if_neg (mt (hexact.full_iff entryBytes).mp hroom)]
      exact ⟨c, rfl, hexact, hroom, 0, rfl, fun k hk => absurd hk (Nat.not_lt_zero k)⟩
  | succ len ih =>
      intro hexact
      by_cases hfull : Full entryBytes c.files.rows
      · cases hrows : c.files.rows with
        | nil => exact absurd (hrows ▸ hfull) (not_full_nil hfits)
        | cons oldest rest =>
            have hrest := erase_head hrows
            have hexact' : Exact ⟨c.files.erase oldest.key, c.cachedBytes - oldest.sizeBytes⟩ := by
              unfold Exact Table.sumOf at hexact ⊢
              rw [hrest, hexact, hrows, List.map_cons, List.sum_cons]
              push_cast
              omega
            have hlen' : (c.files.erase oldest.key).rows.length = len := by
              rw [hrest]
              rw [hrows, List.length_cons] at hlen
              omega
            obtain ⟨c', hc', hexact', hroom, n, hdrop, hbefore⟩ := ih hlen' hexact'
            refine ⟨c', ?_, hexact', hroom, n + 1, ?_, fun k hk => ?_⟩
            · unfold evict
              rw [if_pos ((hexact.full_iff entryBytes).mpr hfull)]
              split
              · rename_i hnil
                rw [hrows] at hnil
                cases hnil
              · rename_i oldest' rest' hcons
                rw [hrows] at hcons
                obtain ⟨rfl, rfl⟩ := List.cons.inj hcons
                exact hc'
            · rw [hdrop, hrest, hrows, List.drop_succ_cons]
            · cases k with
              | zero =>
                  rw [List.drop_zero]
                  exact hfull
              | succ k =>
                  rw [hrows, List.drop_succ_cons, ← hrest]
                  exact hbefore k (by omega)
      · unfold evict
        rw [if_neg (mt (hexact.full_iff entryBytes).mp hfull)]
        exact ⟨c, rfl, hexact, hfull, 0, rfl, fun k hk => absurd hk (Nat.not_lt_zero k)⟩

/-! ## §4. One call. -/

theorem removePrevious_files (c : Cache) (key : String) : (removePrevious c key).files.rows = (c.files.erase key).rows := by
  unfold removePrevious
  cases hget : c.files.get? key with
  | some previous => rfl
  | none =>
      show c.files.rows = c.files.rows.filter _
      refine (List.filter_eq_self.mpr fun r hr => ?_).symm
      rw [Bool.not_eq_true', decide_eq_false_iff_not]
      exact Table.get?_eq_none.mp hget r hr

theorem removePrevious_exact {c : Cache} (h : Exact c) (key : String) : Exact (removePrevious c key) := by
  unfold removePrevious
  cases hget : c.files.get? key with
  | some previous =>
      have hkey : previous.key = key := Table.key_of_get? hget
      unfold Exact at h ⊢
      have hsum := Table.sumOf_erase hget Entry.sizeBytes
      rw [h, hsum, ← hkey]
      show ((entrySizeBytes previous.key previous.file + _ : Nat) : Int) - _ = _
      push_cast
      omega
  | none => exact h

/-- The bounds of the cache. -/
structure Bounded (c : Cache) : Prop where
  exact : Exact c
  count : c.files.rows.length ≤ MAX_FILES
  bytes : c.cachedBytes ≤ MAX_BYTES

theorem bounded_empty : Bounded .empty := ⟨rfl, Nat.zero_le _, by decide⟩

/-- **What a call of `cacheFile` does.**  An entry that is too large is only
removed; another one is the newest then, and the oldest entries have gone as
far as they had to. -/
structure Cached (c : Cache) (key : String) (file : SavedFileContent) (c' : Cache) : Prop where
  bounded : Bounded c'
  large : MAX_BYTES < entrySizeBytes key file → c'.files.rows = (c.files.erase key).rows
  fits : entrySizeBytes key file ≤ MAX_BYTES → ∃ n,
    c'.files.rows = (c.files.erase key).rows.drop n ++ [⟨key, file⟩] ∧
      ∀ k < n, Full (entrySizeBytes key file) ((c.files.erase key).rows.drop k)

theorem putRows_new {rows : List Entry} {entry : Entry} (h : ∀ r ∈ rows, r.key ≠ entry.key) :
    putRows rows entry = rows ++ [entry] := by
  unfold putRows
  refine if_neg fun hany => ?_
  obtain ⟨r, hr, hkey⟩ := List.any_eq_true.mp hany
  exact h r hr (of_decide_eq_true hkey)

theorem cacheFile_spec {c : Cache} (h : Bounded c) (key : String) (file : SavedFileContent) :
    ∃ c', cacheFile c key file = .ok c' ∧ Cached c key file c' := by
  have hexact := removePrevious_exact h.exact key
  have hfiles := removePrevious_files c key
  have hbytes : ((removePrevious c key).cachedBytes : Int) ≤ MAX_BYTES := by
    refine le_trans ?_ h.bytes
    unfold removePrevious
    split
    · show c.cachedBytes - _ ≤ c.cachedBytes
      omega
    · exact le_refl _
  unfold cacheFile
  by_cases hlarge : MAX_BYTES < entrySizeBytes key file
  · rw [if_pos hlarge]
    refine ⟨_, rfl, ⟨hexact, ?_, hbytes⟩, fun _ => hfiles, fun hfits => absurd hfits (Nat.not_le.mpr hlarge)⟩
    rw [hfiles]
    exact le_trans (List.length_filter_le _ _) h.count
  · rw [if_neg hlarge]
    obtain ⟨c₁, hevict, hexact₁, hroom, n, hdrop, hbefore⟩ := evict_spec (Nat.not_lt.mp hlarge) hexact
    rw [hfiles] at hdrop hbefore
    -- the key is not there, so the new entry is the last one
    have hnew : ∀ r ∈ c₁.files.rows, r.key ≠ key := by
      intro r hr
      rw [hdrop] at hr
      exact (Table.mem_erase.mp (List.mem_of_mem_drop hr)).2
    have hrows : (c₁.files.put ⟨key, file⟩).rows = c₁.files.rows ++ [⟨key, file⟩] := putRows_new hnew
    have hsum : (c₁.files.put ⟨key, file⟩).sumOf Entry.sizeBytes
        = c₁.files.sumOf Entry.sizeBytes + entrySizeBytes key file := by
      unfold Table.sumOf
      rw [hrows, List.map_append, List.sum_append]
      rfl
    unfold Full at hroom
    rw [not_or, not_le, Nat.not_lt] at hroom
    refine ⟨⟨c₁.files.put ⟨key, file⟩, c₁.cachedBytes + entrySizeBytes key file⟩, ?_, ⟨?_, ?_, ?_⟩, ?_, ?_⟩
    · rw [hevict]
      rfl
    · show c₁.cachedBytes + _ = _
      rw [hsum, hexact₁]
      push_cast
      rfl
    · show (c₁.files.put ⟨key, file⟩).rows.length ≤ _
      rw [hrows, List.length_append]
      exact hroom.1
    · show c₁.cachedBytes + _ ≤ _
      rw [hexact₁]
      exact_mod_cast hroom.2
    · exact fun h => absurd h hlarge
    · refine fun _ => ⟨n, ?_, hbefore⟩
      show (c₁.files.put ⟨key, file⟩).rows = _
      rw [hrows, hdrop]

/-! ## §5. Any calls. -/

inductive Call where
  | cacheFile (key : String) (file : SavedFileContent)
  | getCachedFile (key : String)
  | clearFileContentCache

def step (c : Cache) : Call → Except String Cache
  | .cacheFile key file => cacheFile c key file
  | .getCachedFile _ => .ok c
  | .clearFileContentCache => .ok (clearFileContentCache c)

def run (calls : List Call) : Except String Cache := calls.foldlM step .empty

/-- The file that was cached last under a key, after one more call. -/
def latestAfter (key : String) (file : Option SavedFileContent) : Call → Option SavedFileContent
  | .cacheFile key' file' => if key' = key then some file' else file
  | .getCachedFile _ => file
  | .clearFileContentCache => none

/-- The file that was cached last under a key since the last clear. -/
def latest (calls : List Call) (key : String) : Option SavedFileContent := calls.foldl (latestAfter key) none

/-- What holds after any calls. -/
structure Sound (calls : List Call) (c : Cache) : Prop where
  bounded : Bounded c
  latest : ∀ entry ∈ c.files.rows, latest calls entry.key = some entry.file

theorem latest_snoc (calls : List Call) (call : Call) (key : String) :
    latest (calls ++ [call]) key = latestAfter key (latest calls key) call := by
  unfold latest
  rw [List.foldl_append]
  rfl

/-- **One more call.** -/
theorem Sound.step {calls : List Call} {c : Cache} (h : Sound calls c) (call : Call) :
    ∃ c', step c call = .ok c' ∧ Sound (calls ++ [call]) c' := by
  cases call with
  | getCachedFile key => exact ⟨c, rfl, h.bounded, fun entry hentry => by rw [latest_snoc]; exact h.latest entry hentry⟩
  | clearFileContentCache => exact ⟨.empty, rfl, bounded_empty, fun entry hentry => absurd hentry List.not_mem_nil⟩
  | cacheFile key file =>
      obtain ⟨c', hc', hcached⟩ := cacheFile_spec h.bounded key file
      refine ⟨c', hc', hcached.bounded, fun entry hentry => ?_⟩
      rw [latest_snoc]
      show (if key = entry.key then some file else ContentCache.latest calls entry.key) = some entry.file
      -- an entry under another key was there before
      have hold : entry ∈ (c.files.erase key).rows →
          (if key = entry.key then some file else ContentCache.latest calls entry.key) = some entry.file := by
        intro hmem
        obtain ⟨hmem, hne⟩ := Table.mem_erase.mp hmem
        rw [if_neg fun heq => hne heq.symm]
        exact h.latest entry hmem
      rcases Nat.lt_or_ge MAX_BYTES (entrySizeBytes key file) with hlarge | hfits
      · rw [hcached.large hlarge] at hentry
        exact hold hentry
      · obtain ⟨n, hrows, _⟩ := hcached.fits hfits
        rw [hrows] at hentry
        rcases List.mem_append.mp hentry with hentry | hentry
        · exact hold (List.mem_of_mem_drop hentry)
        · obtain rfl := List.mem_singleton.mp hentry
          exact if_pos rfl

theorem Sound.run {calls : List Call} {c : Cache} (h : Sound calls c) (more : List Call) :
    ∃ c', more.foldlM ContentCache.step c = .ok c' ∧ Sound (calls ++ more) c' := by
  induction more generalizing calls c with
  | nil => exact ⟨c, rfl, by rw [List.append_nil]; exact h⟩
  | cons call more ih =>
      obtain ⟨c₁, hstep, h₁⟩ := h.step call
      obtain ⟨c', hrun, h'⟩ := ih h₁
      refine ⟨c', ?_, by rw [List.append_assoc] at h'; exact h'⟩
      rw [List.foldlM_cons, hstep]
      exact hrun

/-- **The cache keeps its bounds.**  Any calls end without an exception; then
the counter is exact, the entries are few and small, a lookup gives the file
that was cached last or nothing, and the next `cacheFile` does what `Cached`
says. -/
theorem cache_bounded (calls : List Call) :
    ∃ c, run calls = .ok c ∧ c.cachedBytes = c.files.sumOf Entry.sizeBytes ∧ c.files.rows.length ≤ 64 ∧
      c.cachedBytes ≤ 2 * 1024 * 1024 ∧
      (∀ key, getCachedFile c key = none ∨ getCachedFile c key = latest calls key) ∧
      ∀ key file, ∃ c', cacheFile c key file = .ok c' ∧ Cached c key file c' ∧
        (entrySizeBytes key file ≤ MAX_BYTES → getCachedFile c' key = some file) := by
  have hempty : Sound [] .empty := ⟨bounded_empty, fun entry hentry => absurd hentry List.not_mem_nil⟩
  obtain ⟨c, hrun, hsound⟩ := hempty.run calls
  refine ⟨c, hrun, hsound.bounded.exact, hsound.bounded.count, hsound.bounded.bytes, fun key => ?_, fun key file => ?_⟩
  · unfold getCachedFile
    cases hget : c.files.get? key with
    | none => exact Or.inl rfl
    | some entry =>
        have hlatest := hsound.latest entry (Table.mem_of_get? hget)
        rw [show entry.key = key from Table.key_of_get? hget] at hlatest
        exact Or.inr hlatest.symm
  · obtain ⟨c', hc', hcached⟩ := cacheFile_spec hsound.bounded key file
    refine ⟨c', hc', hcached, fun hfits => ?_⟩
    obtain ⟨n, hrows, _⟩ := hcached.fits hfits
    have hmem : (⟨key, file⟩ : Entry) ∈ c'.files.rows := hrows ▸ List.mem_append_right _ List.mem_cons_self
    unfold getCachedFile
    rw [show c'.files.get? key = some ⟨key, file⟩ from Table.mem_iff.mp hmem]
    rfl

end WebBuilder.Frontend.ContentCache
