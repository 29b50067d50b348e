/-
  WebBuilder.Text.Regex — patterns of a backtracking matcher.

  `Regex.ways` lists the ways in which a pattern matches from a position on,
  in the order in which a backtracking matcher tries them: the left branch
  first, as many repetitions as possible first.  A search takes the first way
  at the leftmost position that has one, and `sub` replaces it.

  Repetition is over single characters.  There is one numbered group.

  Main results:
    * `found_initial` — a match is the beginning of the text;
    * `minLength_le` — no match is shorter than its pattern says;
    * `needs_match`, `sub_same` — nor without the characters it asks for;
    * `group_initial` — a group in front captures the beginning of the match;
    * `rewrites_sub` — what a substitution does to a text.
-/
import WebBuilder.Text.Rewrite

namespace WebBuilder.Text

/-! ## §1. Patterns. -/

inductive Regex (C : Type) where
  | empty
  | char (f : C → Bool)
  /-- Any number of characters, greedily. -/
  | many (f : C → Bool)
  | seq (r s : Regex C)
  | alt (r s : Regex C)
  /-- The numbered group. -/
  | group (r : Regex C)
  /-- `\b`. -/
  | boundary (word : C → Bool)

namespace Regex

variable {C : Type}

/-- `f+`. -/
def plus (f : C → Bool) : Regex C := seq (char f) (many f)

/-- `r?`. -/
def opt (r : Regex C) : Regex C := alt r empty

/-- `f{n,}`. -/
def atLeast (f : C → Bool) : Nat → Regex C
  | 0 => many f
  | n + 1 => seq (char f) (atLeast f n)

/-- One character after the other, each up to `same`. -/
def letters (same : C → C → Bool) : List C → Regex C
  | [] => empty
  | c :: cs => seq (char (same c)) (letters same cs)

/-- A match: its text, and the text of the group in it. -/
structure Found (C : Type) where
  text : List C
  group : Option (List C)

/-- The character before a position behind `text`. -/
def lastOf (before : Option C) (text : List C) : Option C := text.getLast?.or before

/-- The matches from a position on, in the order of the matcher. -/
def ways : Regex C → Option C → List C → List (Found C)
  | empty, _, _ => [⟨[], none⟩]
  | char f, _, text =>
      match text with
      | c :: _ => if f c then [⟨[c], none⟩] else []
      | [] => []
  | many f, _, text =>
      let run := text.takeWhile f
      (List.range (run.length + 1)).reverse.map fun n => ⟨run.take n, none⟩
  | seq r s, before, text =>
      (r.ways before text).flatMap fun a =>
        (s.ways (lastOf before a.text) (text.drop a.text.length)).map fun b => ⟨a.text ++ b.text, b.group.or a.group⟩
  | alt r s, before, text => r.ways before text ++ s.ways before text
  | group r, before, text => (r.ways before text).map fun a => ⟨a.text, some a.text⟩
  | boundary word, before, text => if before.any word ≠ text.head?.any word then [⟨[], none⟩] else []

def find (r : Regex C) (new : Found C → List C) : Finder C := fun before text =>
  (r.ways before text).head?.map fun m => (m.text.length, new m)

/-- `re.sub`, with the replacement as a function of the match. -/
def sub (r : Regex C) (new : Found C → List C) (text : List C) : List C := rewrite (r.find new) text

/-! ## §2. Matches. -/

/-- `m` is a match somewhere. -/
def Match (r : Regex C) (m : Found C) : Prop := ∃ before text, m ∈ r.ways before text

theorem found_initial {r : Regex C} {before : Option C} {text : List C} {m : Found C}
    (h : m ∈ r.ways before text) : m.text <+: text := by
  induction r generalizing before text m with
  | empty =>
      rw [List.mem_singleton.mp h]
      exact List.nil_prefix
  | char f =>
      unfold ways at h
      split at h
      · split at h
        · rw [List.mem_singleton.mp h]
          exact List.cons_prefix_cons.mpr ⟨rfl, List.nil_prefix⟩
        · cases h
      · cases h
  | many f =>
      obtain ⟨n, _, rfl⟩ := List.mem_map.mp h
      exact (List.take_prefix _ _).trans (List.takeWhile_prefix _)
  | seq r s ihr ihs =>
      obtain ⟨a, ha, hmap⟩ := List.mem_flatMap.mp h
      obtain ⟨b, hb, rfl⟩ := List.mem_map.mp hmap
      obtain ⟨rest, rfl⟩ := ihr ha
      rw [List.drop_left] at hb
      exact (List.prefix_append_right_inj _).mpr (ihs hb)
  | alt r s ihr ihs =>
      rcases List.mem_append.mp h with h | h
      · exact ihr h
      · exact ihs h
  | group r ih =>
      obtain ⟨a, ha, rfl⟩ := List.mem_map.mp h
      show a.text <+: text
      exact ih ha
  | boundary word =>
      unfold ways at h
      split at h
      · rw [List.mem_singleton.mp h]
        exact List.nil_prefix
      · cases h

theorem match_seq {r s : Regex C} {m : Found C} (h : (seq r s).Match m) :
    ∃ a b, r.Match a ∧ s.Match b ∧ m = ⟨a.text ++ b.text, b.group.or a.group⟩ := by
  obtain ⟨before, text, h⟩ := h
  obtain ⟨a, ha, hmap⟩ := List.mem_flatMap.mp h
  obtain ⟨b, hb, rfl⟩ := List.mem_map.mp hmap
  exact ⟨a, b, ⟨_, _, ha⟩, ⟨_, _, hb⟩, rfl⟩

/-- A match ends with a match of the last pattern. -/
theorem match_seq_last {r s : Regex C} {m : Found C} (h : (seq r s).Match m) : ∃ b, s.Match b ∧ b.text <:+ m.text := by
  obtain ⟨a, b, _, hb, rfl⟩ := match_seq h
  exact ⟨b, hb, List.suffix_append a.text b.text⟩

theorem match_char {f : C → Bool} {m : Found C} (h : (char f).Match m) : ∃ c, f c = true ∧ m = ⟨[c], none⟩ := by
  obtain ⟨before, text, h⟩ := h
  unfold ways at h
  split at h
  · rename_i c _
    split at h
    · rename_i hc
      exact ⟨c, hc, List.mem_singleton.mp h⟩
    · cases h
  · cases h

theorem match_group {r : Regex C} {m : Found C} (h : (group r).Match m) : m.group = some m.text := by
  obtain ⟨before, text, h⟩ := h
  obtain ⟨a, _, rfl⟩ := List.mem_map.mp h
  rfl

theorem match_alt {r s : Regex C} {m : Found C} (h : (alt r s).Match m) : r.Match m ∨ s.Match m := by
  obtain ⟨before, text, h⟩ := h
  exact (List.mem_append.mp h).imp (fun h => ⟨_, _, h⟩) fun h => ⟨_, _, h⟩

/-- A word in the letters given matches itself only. -/
theorem match_letters [DecidableEq C] {word : List C} {m : Found C}
    (h : (letters (fun l c => decide (c = l)) word).Match m) : m.text = word := by
  induction word generalizing m with
  | nil =>
      obtain ⟨before, text, h⟩ := h
      rw [List.mem_singleton.mp h]
  | cons c word ih =>
      obtain ⟨a, b, ha, hb, rfl⟩ := match_seq h
      obtain ⟨d, hd, rfl⟩ := match_char ha
      show [d] ++ b.text = c :: word
      rw [ih hb, of_decide_eq_true hd]
      rfl

/-! ## §3. What every match has. -/

/-- The least number of characters of a match. -/
def minLength : Regex C → Nat
  | empty => 0
  | char _ => 1
  | many _ => 0
  | seq r s => r.minLength + s.minLength
  | alt r s => min r.minLength s.minLength
  | group r => r.minLength
  | boundary _ => 0

theorem minLength_letters (same : C → C → Bool) (word : List C) : (letters same word).minLength = word.length := by
  induction word with
  | nil => rfl
  | cons c word ih =>
      show 1 + (letters same word).minLength = _
      rw [ih, List.length_cons]
      omega

theorem minLength_le {r : Regex C} {m : Found C} (h : r.Match m) : r.minLength ≤ m.text.length := by
  induction r generalizing m with
  | empty => exact Nat.zero_le _
  | many f => exact Nat.zero_le _
  | boundary word => exact Nat.zero_le _
  | char f =>
      obtain ⟨c, _, rfl⟩ := match_char h
      exact Nat.le_refl 1
  | seq r s ihr ihs =>
      obtain ⟨a, b, ha, hb, rfl⟩ := match_seq h
      have hr := ihr ha
      have hs := ihs hb
      show r.minLength + s.minLength ≤ (a.text ++ b.text).length
      rw [List.length_append]
      omega
  | alt r s ihr ihs =>
      show min r.minLength s.minLength ≤ _
      rcases match_alt h with h | h
      · have hr := ihr h
        omega
      · have hs := ihs h
        omega
  | group r ih =>
      obtain ⟨before, text, h⟩ := h
      obtain ⟨a, ha, rfl⟩ := List.mem_map.mp h
      show r.minLength ≤ a.text.length
      exact ih ⟨_, _, ha⟩

/-- Every match has a character that satisfies `p`. -/
def Needs (p : C → Prop) : Regex C → Prop
  | char f => ∀ c, f c = true → p c
  | seq r s => r.Needs p ∨ s.Needs p
  | alt r s => r.Needs p ∧ s.Needs p
  | group r => r.Needs p
  | _ => False

theorem needs_match {p : C → Prop} {r : Regex C} {m : Found C} (hr : r.Needs p) (h : r.Match m) : ∃ c ∈ m.text, p c := by
  induction r generalizing m with
  | empty => exact hr.elim
  | many f => exact hr.elim
  | boundary word => exact hr.elim
  | char f =>
      obtain ⟨c, hc, rfl⟩ := match_char h
      exact ⟨c, List.mem_cons_self, hr c hc⟩
  | seq r s ihr ihs =>
      obtain ⟨a, b, ha, hb, rfl⟩ := match_seq h
      rcases hr with hr | hr
      · obtain ⟨c, hc, hp⟩ := ihr hr ha
        exact ⟨c, List.mem_append_left _ hc, hp⟩
      · obtain ⟨c, hc, hp⟩ := ihs hr hb
        exact ⟨c, List.mem_append_right _ hc, hp⟩
  | alt r s ihr ihs =>
      rcases match_alt h with h | h
      · exact ihr hr.1 h
      · exact ihs hr.2 h
  | group r ih =>
      obtain ⟨before, text, h⟩ := h
      obtain ⟨a, ha, rfl⟩ := List.mem_map.mp h
      exact @ih a hr ⟨_, _, ha⟩

theorem needs_letters {p : C → Prop} {same : C → C → Bool} {word : List C} {l : C} (hl : l ∈ word)
    (h : ∀ c, same l c = true → p c) : (letters same word).Needs p := by
  induction word with
  | nil => cases hl
  | cons c word ih =>
      rcases List.mem_cons.mp hl with rfl | hl
      · exact Or.inl h
      · exact Or.inr (ih hl)

/-- A pattern without the group. -/
def plain : Regex C → Bool
  | seq r s => r.plain && s.plain
  | alt r s => r.plain && s.plain
  | group _ => false
  | _ => true

theorem group_of_plain {r : Regex C} {m : Found C} (hr : r.plain = true) (h : r.Match m) : m.group = none := by
  induction r generalizing m with
  | empty =>
      obtain ⟨before, text, h⟩ := h
      rw [List.mem_singleton.mp h]
  | char f =>
      obtain ⟨c, _, rfl⟩ := match_char h
      rfl
  | many f =>
      obtain ⟨before, text, h⟩ := h
      obtain ⟨n, _, rfl⟩ := List.mem_map.mp h
      rfl
  | seq r s ihr ihs =>
      obtain ⟨a, b, ha, hb, rfl⟩ := match_seq h
      rw [plain, Bool.and_eq_true] at hr
      show b.group.or a.group = none
      rw [ihr hr.1 ha, ihs hr.2 hb]
      rfl
  | alt r s ihr ihs =>
      rw [plain, Bool.and_eq_true] at hr
      rcases match_alt h with h | h
      · exact ihr hr.1 h
      · exact ihs hr.2 h
  | group r ih => cases hr
  | boundary word =>
      obtain ⟨before, text, h⟩ := h
      unfold ways at h
      split at h
      · rw [List.mem_singleton.mp h]
      · cases h

/-- **A group in front** captures the beginning of the match. -/
theorem group_initial {r s : Regex C} {m : Found C} (hs : s.plain = true) (h : (seq (group r) s).Match m) :
    ∃ a b, m.group = some a ∧ s.Match b ∧ m.text = a ++ b.text := by
  obtain ⟨a, b, ha, hb, rfl⟩ := match_seq h
  refine ⟨a.text, b, ?_, hb, rfl⟩
  show b.group.or a.group = _
  rw [group_of_plain hs hb, match_group ha]
  rfl

/-- **What a substitution does**: it replaces matches. -/
theorem rewrites_sub (r : Regex C) (new : Found C → List C) (text : List C) :
    Rewrites (fun old new' => ∃ m, r.Match m ∧ old = m.text ∧ new' = new m) text (r.sub new text) := by
  refine rewrites_rewrite ?_ text
  intro before text n new' h _
  obtain ⟨m, hm, heq⟩ := Option.map_eq_some_iff.mp h
  obtain ⟨rfl, rfl⟩ := Prod.mk.inj heq
  have hmem := List.mem_of_mem_head? (Option.mem_def.mpr hm)
  exact ⟨m, ⟨_, _, hmem⟩, (List.prefix_iff_eq_take.mp (found_initial hmem)).symm, rfl⟩

/-- A text without a character that every match needs is left as it is. -/
theorem sub_same {p : C → Prop} {r : Regex C} (hr : r.Needs p) (new : Found C → List C) {text : List C}
    (h : ∀ c ∈ text, ¬ p c) : r.sub new text = text := by
  have hrewrites := rewrites_sub r new text
  generalize r.sub new text = out at hrewrites
  induction hrewrites with
  | nil => rfl
  | keep c _ ih => rw [ih fun d hd => h d (List.mem_cons_of_mem _ hd)]
  | swap hswap _ _ =>
      obtain ⟨m, hm, rfl, _⟩ := hswap
      obtain ⟨c, hc, hp⟩ := needs_match hr hm
      exact absurd hp (h c (List.mem_append_left _ hc))

end Regex

end WebBuilder.Text
