/-
  WebBuilder.Context.Assembly — what `assemble` returns.

  The loop of `assemble` appends a row, measures and takes the last row back
  when the result is too large.  Sizes grow with the rows, so what it keeps is
  what the longest prefix of the ranking that fits has to offer; the rows are
  sorted after the last measurement, which changes no size.

  Main results:
    * `encodedSize_olderMatches` — the older rows are one term of the size;
    * `addMatches_eq`, `addMatches_longest` — the loop stops at the first row that does not fit;
    * `assemble_spec` — an error for a context that is too large without older
      rows, and else a bounded context with the rows of the longest prefix.
-/
import WebBuilder.Context.Encoding

namespace WebBuilder.Context

open WebBuilder.Store

/-! ## §1. Unseen rows. -/

/-- The rows with ids that are neither seen nor repeated. -/
def unseen (seen : List String) : List Record → List Record
  | [] => []
  | row :: rows => if row.id ∈ seen then unseen seen rows else row :: unseen (row.id :: seen) rows

theorem unseen_cons_of_mem {seen : List String} {row : Record} (h : row.id ∈ seen) (rows : List Record) :
    unseen seen (row :: rows) = unseen seen rows := by
  rw [unseen, if_pos h]

theorem unseen_cons_of_notMem {seen : List String} {row : Record} (h : row.id ∉ seen) (rows : List Record) :
    unseen seen (row :: rows) = row :: unseen (row.id :: seen) rows := by
  rw [unseen, if_neg h]

/-- **Which rows these are**: the first of every id that is not seen. -/
theorem mem_unseen {seen : List String} {rows : List Record} {r : Record} :
    r ∈ unseen seen rows ↔
      ∃ before after, rows = before ++ r :: after ∧ r.id ∉ seen ∧ r.id ∉ before.map Record.id := by
  induction rows generalizing seen with
  | nil =>
      constructor
      · intro h
        cases h
      · rintro ⟨before, after, h, _⟩
        cases before <;> cases h
  | cons row rows ih =>
      by_cases hrow : row.id ∈ seen
      · rw [unseen_cons_of_mem hrow, ih]
        constructor
        · rintro ⟨before, after, rfl, hseen, hbefore⟩
          refine ⟨row :: before, after, rfl, hseen, fun hin => ?_⟩
          rcases List.mem_cons.mp hin with heq | hin
          · exact hseen (heq ▸ hrow)
          · exact hbefore hin
        · rintro ⟨before, after, heq, hseen, hbefore⟩
          cases before with
          | nil =>
              obtain ⟨rfl, rfl⟩ := List.cons.inj heq
              exact absurd hrow hseen
          | cons b before =>
              obtain ⟨rfl, rfl⟩ := List.cons.inj heq
              exact ⟨before, after, rfl, hseen, fun hin => hbefore (List.mem_cons_of_mem _ hin)⟩
      · rw [unseen_cons_of_notMem hrow, List.mem_cons, ih]
        constructor
        · rintro (rfl | ⟨before, after, rfl, hseen, hbefore⟩)
          · exact ⟨[], rows, rfl, hrow, List.not_mem_nil⟩
          · rw [List.mem_cons, not_or] at hseen
            refine ⟨row :: before, after, rfl, hseen.2, fun hin => ?_⟩
            rcases List.mem_cons.mp hin with heq | hin
            · exact hseen.1 heq
            · exact hbefore hin
        · rintro ⟨before, after, heq, hseen, hbefore⟩
          cases before with
          | nil =>
              obtain ⟨rfl, rfl⟩ := List.cons.inj heq
              exact Or.inl rfl
          | cons b before =>
              obtain ⟨rfl, rfl⟩ := List.cons.inj heq
              rw [List.map_cons, List.mem_cons, not_or] at hbefore
              exact Or.inr ⟨before, after, rfl, List.not_mem_cons_of_ne_of_not_mem hbefore.1 hseen, hbefore.2⟩

theorem unseen_notMem {seen : List String} {rows : List Record} {r : Record} (h : r ∈ unseen seen rows) : r.id ∉ seen := by
  obtain ⟨_, _, _, hseen, _⟩ := mem_unseen.mp h
  exact hseen

theorem unseen_nodup (seen : List String) (rows : List Record) : ((unseen seen rows).map Record.id).Nodup := by
  induction rows generalizing seen with
  | nil => exact List.nodup_nil
  | cons row rows ih =>
      by_cases hrow : row.id ∈ seen
      · rw [unseen_cons_of_mem hrow]
        exact ih seen
      · rw [unseen_cons_of_notMem hrow, List.map_cons, List.nodup_cons]
        refine ⟨fun hin => ?_, ih (row.id :: seen)⟩
        obtain ⟨r, hr, heq⟩ := List.mem_map.mp hin
        exact unseen_notMem hr (heq ▸ List.mem_cons_self)

/-- Longer rankings have more to offer, in the same order. -/
theorem unseen_initial (seen : List String) {p q : List Record} (h : p <+: q) : unseen seen p <+: unseen seen q := by
  obtain ⟨rest, rfl⟩ := h
  induction p generalizing seen with
  | nil => exact List.nil_prefix
  | cons row p ih =>
      rw [List.cons_append]
      by_cases hrow : row.id ∈ seen
      · rw [unseen_cons_of_mem hrow, unseen_cons_of_mem hrow]
        exact ih seen
      · rw [unseen_cons_of_notMem hrow, unseen_cons_of_notMem hrow, List.prefix_cons_inj]
        exact ih (row.id :: seen)

/-! ## §2. Sizes. -/

theorem dumpsItems_eq (items : List Json) : dumpsItems items = items.map dumps := by
  induction items with
  | nil => rfl
  | cons item items ih => rw [dumpsItems, ih, List.map_cons]

theorem dumpsFields_eq (fields : List (String × Json)) :
    dumpsFields fields = fields.map fun f => quoted f.1 ++ ": " ++ dumps f.2 := by
  induction fields with
  | nil => rfl
  | cons f fields ih => rw [dumpsFields, ih, List.map_cons]

theorem encodedSize_arr (items : List Json) :
    encodedSize (.arr items) = 2 + (", ".intercalate (items.map dumps)).utf8ByteSize := by
  unfold encodedSize
  rw [dumps, dumpsItems_eq, String.utf8ByteSize_append, String.utf8ByteSize_append]
  show 1 + _ + 1 = _
  omega

/-- The size of a dictionary is the sum over its fields: a colon and a blank
in each, a comma and a blank or the braces around them. -/
theorem encodedSize_obj {fields : List (String × Json)} (h : fields ≠ []) :
    encodedSize (.obj fields) = (fields.map fun f => (quoted f.1).utf8ByteSize + encodedSize f.2 + 4).sum := by
  have hne : dumpsFields fields ≠ [] := by
    rw [dumpsFields_eq]
    exact fun hnil => h (List.map_eq_nil_iff.mp hnil)
  have hsize := size_intercalate ", " hne
  have hsum : ((dumpsFields fields).map fun t => t.utf8ByteSize + ", ".utf8ByteSize) =
      fields.map fun f => (quoted f.1).utf8ByteSize + encodedSize f.2 + 4 := by
    rw [dumpsFields_eq, List.map_map]
    refine List.map_congr_left fun f _ => ?_
    rw [Function.comp_apply, String.utf8ByteSize_append, String.utf8ByteSize_append]
    show _ + 2 + encodedSize f.2 + 2 = _
    omega
  rw [hsum] at hsize
  unfold encodedSize at hsize ⊢
  rw [dumps, String.utf8ByteSize_append, String.utf8ByteSize_append, ← hsize]
  show 1 + _ + 1 = _ + 2
  omega

/-- One field is one term of the size. -/
theorem encodedSize_field (before after : List (String × Json)) (name : String) :
    ∃ rest, ∀ value, encodedSize (.obj (before ++ (name, value) :: after)) = rest + encodedSize value := by
  refine ⟨(before.map fun f => (quoted f.1).utf8ByteSize + encodedSize f.2 + 4).sum + (quoted name).utf8ByteSize + 4 +
    (after.map fun f => (quoted f.1).utf8ByteSize + encodedSize f.2 + 4).sum, fun value => ?_⟩
  rw [encodedSize_obj (List.append_ne_nil_of_right_ne_nil _ (List.cons_ne_nil _ _)), List.map_append, List.map_cons,
    List.sum_append, List.sum_cons]
  dsimp only
  omega

/-- The older matches of a context. -/
def withMatches (base : Assembled) (rows : List Record) : Assembled := { base with olderMatches := rows }

/-- **The size of a context**: that of its older rows, and the rest. -/
theorem encodedSize_olderMatches (base : Assembled) : ∃ rest, ∀ rows, encodedSize (withMatches base rows).toJson =
    rest + (", ".intercalate (rows.map fun r => dumps r.toJson)).utf8ByteSize := by
  obtain ⟨rest, hrest⟩ := encodedSize_field
    [("revision_id", optional (base.revisionId.map .str)), ("history_before_message_id", .str base.historyBeforeMessageId),
      ("recent_messages", .arr (base.recentMessages.map Record.toJson))]
    [("initial_request", optional (base.initialRequest.map Record.toJson)),
      ("older_summary", optional (base.olderSummary.map DerivedSummary.toJson)),
      ("previous_run", optional (base.previousRun.map LastRun.toJson)), ("history_is_partial", .bool true),
      ("guidance", .str "Older quotes may be superseded. Search history for missing references.")]
    "older_matches"
  refine ⟨rest + 2, fun rows => ?_⟩
  have hsize := hrest (.arr (rows.map Record.toJson))
  rw [encodedSize_arr, List.map_map] at hsize
  rw [Nat.add_assoc]
  exact hsize

/-- Sorting the rows changes no size. -/
theorem encodedSize_perm (base : Assembled) {rows rows' : List Record} (h : rows.Perm rows') :
    encodedSize (withMatches base rows).toJson = encodedSize (withMatches base rows').toJson := by
  obtain ⟨rest, hrest⟩ := encodedSize_olderMatches base
  rw [hrest, hrest, size_intercalate_perm ", " (h.map fun r => dumps r.toJson)]

/-- More rows are never smaller. -/
theorem encodedSize_mono (base : Assembled) {rows rows' : List Record} (h : rows <+: rows') :
    encodedSize (withMatches base rows).toJson ≤ encodedSize (withMatches base rows').toJson := by
  obtain ⟨rest, hrest⟩ := encodedSize_olderMatches base
  rw [hrest, hrest]
  exact Nat.add_le_add_left (size_intercalate_initial ", " (h.map fun r => dumps r.toJson)) rest

/-! ## §3. The loop. -/

/-- A prefix of the ranking with everything that fits in front of it. -/
def Longest (fits : List Record → Prop) (ranking p : List Record) : Prop :=
  p <+: ranking ∧ fits p ∧ ∀ p', p' <+: ranking → fits p' → p' <+: p

/-- What the rows of a prefix of the ranking add to a context fits. -/
def Fits (base : Assembled) (seen : List String) (p : List Record) : Prop :=
  encodedSize (withMatches base (unseen seen p)).toJson ≤ MAX_CONTEXT_BYTES

theorem addMatches_seen {seen : List String} {row : Record} (h : row.id ∈ seen) (result : Assembled) (rows : List Record) :
    addMatches seen result (row :: rows) = addMatches seen result rows := by
  rw [addMatches, if_pos h]

theorem addMatches_new {seen : List String} {row : Record} (h : row.id ∉ seen) (base : Assembled)
    (found rows : List Record) : addMatches seen (withMatches base found) (row :: rows) =
      if MAX_CONTEXT_BYTES < encodedSize (withMatches base (found ++ [row])).toJson then withMatches base found
      else addMatches (row.id :: seen) (withMatches base (found ++ [row])) rows := by
  rw [addMatches, if_neg h]
  unfold withMatches
  rfl

/-- **The loop stops** at the first row that does not fit, or at the end. -/
theorem addMatches_eq (base : Assembled) (seen : List String) (found rows : List Record)
    (hfits : encodedSize (withMatches base found).toJson ≤ MAX_CONTEXT_BYTES) :
    ∃ p, addMatches seen (withMatches base found) rows = withMatches base (found ++ unseen seen p) ∧
      encodedSize (withMatches base (found ++ unseen seen p)).toJson ≤ MAX_CONTEXT_BYTES ∧
      (p = rows ∨ ∃ row rest, rows = p ++ row :: rest ∧
        MAX_CONTEXT_BYTES < encodedSize (withMatches base (found ++ unseen seen (p ++ [row]))).toJson) := by
  induction rows generalizing seen found with
  | nil => exact ⟨[], by rw [unseen, List.append_nil]; rfl, by rwa [unseen, List.append_nil], Or.inl rfl⟩
  | cons row rows ih =>
      by_cases hrow : row.id ∈ seen
      · rw [addMatches_seen hrow]
        obtain ⟨p, heq, hle, hstop⟩ := ih seen found hfits
        refine ⟨row :: p, ?_, ?_, ?_⟩
        · rw [unseen_cons_of_mem hrow]
          exact heq
        · rw [unseen_cons_of_mem hrow]
          exact hle
        · rcases hstop with rfl | ⟨next, rest, rfl, hlarge⟩
          · exact Or.inl rfl
          · refine Or.inr ⟨next, rest, rfl, ?_⟩
            rw [List.cons_append, unseen_cons_of_mem hrow]
            exact hlarge
      · rw [addMatches_new hrow]
        by_cases hlarge : MAX_CONTEXT_BYTES < encodedSize (withMatches base (found ++ [row])).toJson
        · rw [if_pos hlarge]
          refine ⟨[], ?_, ?_, Or.inr ⟨row, rows, rfl, ?_⟩⟩
          · rw [unseen, List.append_nil]
          · rw [unseen, List.append_nil]
            exact hfits
          · rw [List.nil_append, unseen_cons_of_notMem hrow, unseen]
            exact hlarge
        · rw [if_neg hlarge]
          obtain ⟨p, heq, hle, hstop⟩ := ih (row.id :: seen) (found ++ [row]) (Nat.not_lt.mp hlarge)
          rw [List.append_assoc, List.singleton_append, ← unseen_cons_of_notMem hrow] at heq hle
          refine ⟨row :: p, heq, hle, ?_⟩
          rcases hstop with rfl | ⟨next, rest, rfl, hlarge⟩
          · exact Or.inl rfl
          · refine Or.inr ⟨next, rest, rfl, ?_⟩
            rw [List.append_assoc, List.singleton_append, ← unseen_cons_of_notMem hrow] at hlarge
            exact hlarge

/-- **What the loop keeps**: the rows of the longest prefix that fits. -/
theorem addMatches_longest (base : Assembled) (seen : List String) (rows : List Record)
    (hfits : encodedSize (withMatches base []).toJson ≤ MAX_CONTEXT_BYTES) :
    ∃ p, addMatches seen (withMatches base []) rows = withMatches base (unseen seen p) ∧
      Longest (Fits base seen) rows p := by
  obtain ⟨p, heq, hle, hstop⟩ := addMatches_eq base seen [] rows hfits
  rw [List.nil_append] at heq hle
  refine ⟨p, heq, ?_, hle, fun p' hp' hfits' => ?_⟩
  · rcases hstop with rfl | ⟨row, rest, rfl, _⟩
    · exact List.prefix_rfl
    · exact List.prefix_append p (row :: rest)
  · rcases hstop with rfl | ⟨row, rest, rfl, hlarge⟩
    · exact hp'
    · rcases Nat.lt_or_ge p.length p'.length with hlt | hge
      · -- a longer prefix has the row that did not fit
        have hnext : p ++ [row] <+: p' := by
          refine List.prefix_of_prefix_length_le ⟨rest, by simp⟩ hp' ?_
          rw [List.length_append, List.length_singleton]
          omega
        have hmono := encodedSize_mono base (unseen_initial seen hnext)
        unfold Fits at hfits'
        rw [List.nil_append] at hlarge
        omega
      · exact List.prefix_of_prefix_length_le hp' (List.prefix_append p (row :: rest)) hge

/-! ## §4. `assemble`. -/

/-- The rows that a context shows anyway. -/
def shown (recent : List Record) (first : Option Record) : List String :=
  recent.map Record.id ++ (first.map Record.id).toList

/-- The context without older rows. -/
def bare (recent : List Record) (first : Option Record) (summary : Option DerivedSummary) (revisionId : Option String)
    (lastRun : Option LastRun) (cutoff : String) : Assembled :=
  ⟨revisionId, cutoff, recent, [], first, summary, lastRun⟩

section Assemble

variable (recent retrieved : List Record) (first : Option Record) (summary : Option DerivedSummary)
  (revisionId : Option String) (lastRun : Option LastRun) (cutoff : String)

theorem assemble_large
    (h : MAX_CONTEXT_BYTES < encodedSize (bare recent first summary revisionId lastRun cutoff).toJson) :
    ∃ message, assemble recent retrieved first summary revisionId lastRun cutoff = .error (.context message) := by
  unfold assemble
  exact ⟨_, if_pos h⟩

theorem assemble_small
    (h : encodedSize (bare recent first summary revisionId lastRun cutoff).toJson ≤ MAX_CONTEXT_BYTES) :
    ∃ p, Longest (Fits (bare recent first summary revisionId lastRun cutoff) (shown recent first)) retrieved p ∧
      assemble recent retrieved first summary revisionId lastRun cutoff =
        .ok (withMatches (bare recent first summary revisionId lastRun cutoff)
          (orderBy Record.order (unseen (shown recent first) p))) := by
  obtain ⟨p, hloop, hlongest⟩ :=
    addMatches_longest (bare recent first summary revisionId lastRun cutoff) (shown recent first) retrieved h
  refine ⟨p, hlongest, ?_⟩
  unfold assemble
  refine (if_neg (Nat.not_lt.mpr h)).trans ?_
  exact congrArg (fun filled : Assembled =>
    Except.ok { filled with olderMatches := orderBy Record.order filled.olderMatches }) hloop

/-- **Assembly**: an error exactly when the context is too large without
older rows; and else a bounded context that differs from it in the older rows
only, which are sorted, new, and those of the longest prefix that fits. -/
theorem assemble_spec :
    ((∃ e, assemble recent retrieved first summary revisionId lastRun cutoff = .error e) ↔
      MAX_CONTEXT_BYTES < encodedSize (bare recent first summary revisionId lastRun cutoff).toJson) ∧
    (∀ e, assemble recent retrieved first summary revisionId lastRun cutoff = .error e → ∃ message, e = .context message) ∧
    ∀ result, assemble recent retrieved first summary revisionId lastRun cutoff = .ok result →
      encodedSize result.toJson ≤ MAX_CONTEXT_BYTES ∧ result.recentMessages = recent ∧
      result = withMatches (bare recent first summary revisionId lastRun cutoff) result.olderMatches ∧
      result.olderMatches.Pairwise (fun a b => a.order ≤ b.order) ∧ (result.olderMatches.map Record.id).Nodup ∧
      (∀ row ∈ result.olderMatches, row.id ∉ shown recent first) ∧
      ∃ p, Longest (Fits (bare recent first summary revisionId lastRun cutoff) (shown recent first)) retrieved p ∧
        result.olderMatches.Perm (unseen (shown recent first) p) := by
  rcases Nat.lt_or_ge MAX_CONTEXT_BYTES (encodedSize (bare recent first summary revisionId lastRun cutoff).toJson) with
    hlarge | hsmall
  · obtain ⟨message, herror⟩ := assemble_large recent retrieved first summary revisionId lastRun cutoff hlarge
    rw [herror]
    refine ⟨⟨fun _ => hlarge, fun _ => ⟨_, rfl⟩⟩, fun e he => ⟨message, ?_⟩, fun result hresult => ?_⟩
    · exact (Except.error.inj he).symm
    · cases hresult
  · obtain ⟨p, hlongest, hok⟩ := assemble_small recent retrieved first summary revisionId lastRun cutoff hsmall
    rw [hok]
    refine ⟨⟨fun herror => ?_, fun hlarge => absurd hsmall (Nat.not_le.mpr hlarge)⟩, fun e he => ?_, fun result hresult => ?_⟩
    · obtain ⟨e, he⟩ := herror
      cases he
    · cases he
    · obtain rfl := Except.ok.inj hresult
      have hperm := orderBy_perm Record.order (unseen (shown recent first) p)
      refine ⟨?_, rfl, rfl, orderBy_sorted _ _, ?_, fun row hrow => ?_, p, hlongest, hperm⟩
      · rw [encodedSize_perm _ hperm]
        exact hlongest.2.1
      · exact (hperm.map Record.id).nodup_iff.mpr (unseen_nodup _ _)
      · exact unseen_notMem (hperm.mem_iff.mp hrow)

end Assemble

end WebBuilder.Context
