/-
  WebBuilder.Text.Rewrite — rewriting a text from left to right.

  A finder looks at the text from a position on and says how much of it to
  replace, and by what.  `rewrite` goes from left to right and goes on behind
  every replacement, as a search for a substring or a pattern does; `replace`
  is the case of one substring.

  `Rewrites` forgets where a finder looked: it says only which parts were kept
  and which replaced.  What a replacement must not bring about is a statement
  on `Rewrites`.

  Main results:
    * `Rewrites.avoids` — a fenced replacement assembles no new occurrence;
    * `replace_avoids` — a replaced substring is gone;
    * `Rewrites.size_le` — how much a text can grow.
-/
import Mathlib.Data.List.Infix
import Mathlib.Tactic.Ring

namespace WebBuilder.Text

variable {C : Type}

/-! ## §1. Rewriting. -/

/-- Given the character before and the text from a position on: the length of
a match there and its replacement. -/
abbrev Finder (C : Type) := Option C → List C → Option (Nat × List C)

/-- The text from a position on; `skip` more characters belong to the last
match.  Empty matches are not replaced. -/
def rewriteFrom (find : Finder C) : Nat → Option C → List C → List C
  | _, _, [] => []
  | skip + 1, _, c :: text => rewriteFrom find skip (some c) text
  | 0, before, c :: text =>
      match find before (c :: text) with
      | some (n + 1, new) => new ++ rewriteFrom find n (some c) text
      | _ => c :: rewriteFrom find 0 (some c) text

def rewrite (find : Finder C) (text : List C) : List C := rewriteFrom find 0 none text

/-- A finder of one substring. -/
def findSubstring [DecidableEq C] (old new : List C) : Finder C := fun _ text =>
  if old.isPrefixOf text then some (old.length, new) else none

/-- `text.replace(old, new)`. -/
def replace [DecidableEq C] (old new text : List C) : List C := rewrite (findSubstring old new) text

/-- The second text is the first with some parts replaced. -/
inductive Rewrites (swap : List C → List C → Prop) : List C → List C → Prop where
  | nil : Rewrites swap [] []
  | keep (c : C) {text out : List C} : Rewrites swap text out → Rewrites swap (c :: text) (c :: out)
  | swap {old new text out : List C} : swap old new → Rewrites swap text out →
      Rewrites swap (old ++ text) (new ++ out)

/-- A finder that replaces only what `swap` allows. -/
def Finder.Within (find : Finder C) (swap : List C → List C → Prop) : Prop :=
  ∀ before text n new, find before text = some (n, new) → n ≠ 0 → swap (text.take n) new

variable {swap : List C → List C → Prop} {find : Finder C}

/-- **What rewriting does**: it keeps some parts and replaces the others. -/
theorem rewrites_rewriteFrom (h : find.Within swap) (text : List C) (skip : Nat) (before : Option C) :
    Rewrites swap (text.drop skip) (rewriteFrom find skip before text) := by
  induction text generalizing skip before with
  | nil =>
      rw [List.drop_nil]
      cases skip <;> exact .nil
  | cons c text ih =>
      cases skip with
      | succ skip =>
          rw [List.drop_succ_cons]
          exact ih skip (some c)
      | zero =>
          rw [List.drop_zero]
          unfold rewriteFrom
          split
          · rename_i n new hfound
            have hswap := h before (c :: text) (n + 1) new hfound (by omega)
            have hrest := Rewrites.swap hswap (ih n (some c))
            rwa [List.take_succ_cons, List.cons_append, List.take_append_drop] at hrest
          · exact .keep c (ih 0 (some c))

theorem rewrites_rewrite (h : find.Within swap) (text : List C) : Rewrites swap text (rewrite find text) :=
  rewrites_rewriteFrom h text 0 none

/-! ## §2. Occurrences. -/

/-- An occurrence without the character `c` lies on one side of it. -/
theorem infix_split {s a b : List C} {c : C} (hc : c ∉ s) (h : s <:+: a ++ c :: b) : s <:+: a ∨ s <:+: b := by
  obtain ⟨x, y, hxy⟩ := h
  rcases List.append_eq_append_iff.mp hxy with ⟨k, ha, _⟩ | ⟨k, hs, hb⟩
  · left
    exact ⟨x, k, ha.symm⟩
  · cases k with
    | nil =>
        left
        rw [List.append_nil] at hs
        exact ⟨x, [], by rw [List.append_nil, hs]⟩
    | cons d k =>
        obtain ⟨rfl, rfl⟩ := List.cons.inj hb
        -- the character is in the occurrence, or before it
        rcases List.append_eq_append_iff.mp hs with ⟨j, _, hj⟩ | ⟨j, _, hj⟩
        · exact absurd (hj ▸ List.mem_append_right j List.mem_cons_self) hc
        · right
          cases j with
          | nil =>
              rw [List.nil_append] at hj
              exact absurd (hj ▸ List.mem_cons_self) hc
          | cons e j =>
              obtain ⟨_, rfl⟩ := List.cons.inj hj
              exact ⟨j, y, rfl⟩

/-- A text in front of a character that `s` lacks holds the whole of `s`. -/
theorem prefix_split {s a b : List C} {c : C} (hc : c ∉ s) (h : s <+: a ++ c :: b) : s <+: a := by
  obtain ⟨y, hy⟩ := h
  rcases List.append_eq_append_iff.mp hy with ⟨k, ha, _⟩ | ⟨k, hs, hb⟩
  · exact ⟨k, ha.symm⟩
  · cases k with
    | nil =>
        rw [List.append_nil] at hs
        rw [hs]
    | cons d k =>
        obtain ⟨rfl, _⟩ := List.cons.inj hb
        exact absurd (hs ▸ List.mem_append_right a List.mem_cons_self) hc

/-- A replacement that no occurrence of `s` can reach into: what it keeps of
the match stands at its two ends, fenced off by characters that `s` lacks. -/
def Fenced (s old new : List C) : Prop :=
  ∃ front a mark b back, new = front ++ a :: (mark ++ b :: back) ∧ front <+: old ∧ back <:+ old ∧
    a ∉ s ∧ b ∉ s ∧ ¬ s <:+: mark

/-- **No new occurrence**: fenced replacements assemble none. -/
theorem Rewrites.avoids {s : List C} (hfence : ∀ old new, swap old new → Fenced s old new) {text out : List C}
    (h : Rewrites swap text out) (front : List C) (hs : ¬ s <:+: front ++ text) : ¬ s <:+: front ++ out := by
  induction h generalizing front with
  | nil => exact hs
  | keep c _ ih =>
      have hstep := ih (front ++ [c])
      rw [List.append_assoc, List.append_assoc] at hstep
      exact hstep hs
  | swap hswap _ ih =>
      rename_i old new text out _
      obtain ⟨kept, a, mark, b, back, rfl, ⟨x, hx⟩, ⟨y, hy⟩, ha, hb, hmark⟩ := hfence _ _ hswap
      intro hin
      rw [List.append_assoc, ← List.append_assoc front kept, List.cons_append, List.append_assoc mark] at hin
      rcases infix_split ha hin with hleft | hright
      · -- in front of the fence the old text goes on
        exact hs (hleft.trans ⟨[], x ++ text, by rw [← hx]; simp⟩)
      · rcases infix_split hb hright with hmid | hright
        · exact hmark hmid
        · exact ih back (fun hback => hs (hback.trans ⟨front ++ y, [], by rw [← hy]; simp⟩)) hright

/-- What the output starts with, the text starts with. -/
theorem Rewrites.prefix_back {s : List C} {a : C} (ha : a ∉ s) (hhead : ∀ old new, swap old new → new.head? = some a)
    {text out : List C} (h : Rewrites swap text out) (hs : s <+: out) : s <+: text := by
  induction h generalizing s with
  | nil => exact hs
  | keep c _ ih =>
      cases s with
      | nil => exact List.nil_prefix
      | cons d s =>
          obtain ⟨rfl, hrest⟩ := List.cons_prefix_cons.mp hs
          exact List.cons_prefix_cons.mpr ⟨rfl, ih (fun hmem => ha (List.mem_cons_of_mem _ hmem)) hrest⟩
  | swap hswap _ _ =>
      rename_i old new text out _ _
      have hnew := hhead _ _ hswap
      cases s with
      | nil => exact List.nil_prefix
      | cons d s =>
          cases new with
          | nil => cases hnew
          | cons e new =>
              rw [List.cons_append] at hs
              obtain ⟨rfl, _⟩ := List.cons_prefix_cons.mp hs
              exact absurd (by rw [← Option.some.inj hnew]; exact List.mem_cons_self) ha

/-- Every character of the output is of the text or of a replacement. -/
theorem Rewrites.mem {p : C → Prop} (hnew : ∀ old new, swap old new → ∀ c ∈ new, p c) {text out : List C}
    (h : Rewrites swap text out) (htext : ∀ c ∈ text, p c) : ∀ c ∈ out, p c := by
  induction h with
  | nil => exact htext
  | keep c _ ih =>
      rw [List.forall_mem_cons] at htext ⊢
      exact ⟨htext.1, ih htext.2⟩
  | swap hswap _ ih =>
      rw [List.forall_mem_append] at htext ⊢
      exact ⟨hnew _ _ hswap, ih htext.2⟩

/-! ## §3. Substrings. -/

section Substring

variable [DecidableEq C] {old new : List C}

theorem findSubstring_within : (findSubstring old new).Within fun o n => o = old ∧ n = new := by
  intro before text n new' h hn
  unfold findSubstring at h
  split at h
  · rename_i hpre
    simp only [Option.some.injEq, Prod.mk.injEq] at h
    obtain ⟨rfl, rfl⟩ := h
    exact ⟨(List.prefix_iff_eq_take.mp (List.isPrefixOf_iff_prefix.mp hpre)).symm, rfl⟩
  · cases h

theorem rewrites_replace (text : List C) : Rewrites (fun o n => o = old ∧ n = new) text (replace old new text) :=
  rewrites_rewrite findSubstring_within text

/-- A substring that is not there is not replaced. -/
theorem replace_absent {text : List C} (h : ¬ old <:+: text) : replace old new text = text := by
  have hrewrites := @rewrites_replace C _ old new text
  generalize replace old new text = out at hrewrites
  induction hrewrites with
  | nil => rfl
  | keep c _ ih => rw [ih fun hin => h (hin.trans (List.suffix_cons c _).isInfix)]
  | swap hswap _ _ =>
      rename_i o n text _ _ _
      obtain ⟨rfl, rfl⟩ := hswap
      exact absurd (List.prefix_append o text).isInfix h

/-- **A replaced substring is gone**, if the new one is fenced. -/
theorem replace_avoids {a b : C} {mark : List C} (hne : old ≠ []) (ha : a ∉ old) (hb : b ∉ old)
    (hmark : ¬ old <:+: mark) (text : List C) : ¬ old <:+: replace old (a :: (mark ++ [b])) text := by
  have hfrom : ∀ (text : List C) skip before,
      ¬ old <:+: rewriteFrom (findSubstring old (a :: (mark ++ [b]))) skip before text := by
    intro text
    induction text with
    | nil =>
        intro skip before hin
        cases skip <;> exact hne (List.infix_nil.mp hin)
    | cons c text ih =>
        intro skip before
        cases skip with
        | succ skip => exact ih skip (some c)
        | zero =>
            intro hin
            have hall := rewrites_rewriteFrom (@findSubstring_within C _ old (a :: (mark ++ [b]))) (c :: text) 0 before
            have hback := hall.prefix_back ha (by rintro _ _ ⟨_, rfl⟩; rfl)
            unfold rewriteFrom at hin hback
            split at hin
            · rename_i n new hfound
              obtain ⟨_, rfl⟩ := findSubstring_within before (c :: text) (n + 1) new hfound (by omega)
              rw [List.cons_append, List.append_assoc] at hin
              rcases infix_split (a := []) ha hin with hnil | hin
              · exact hne (List.infix_nil.mp hnil)
              · rcases infix_split hb hin with hin | hin
                · exact hmark hin
                · exact ih n (some c) hin
            · rename_i hnone
              rcases List.infix_cons_iff.mp hin with hpre | hin
              · -- the search would have stopped here
                have htext : old <+: c :: text := hback (by
                  split
                  · rename_i n new hfound
                    exact absurd hfound (hnone n new)
                  · exact hpre)
                have hlen := List.length_pos_iff.mpr hne
                refine hnone (old.length - 1) (a :: (mark ++ [b])) ?_
                unfold findSubstring
                rw [if_pos (List.isPrefixOf_iff_prefix.mpr htext)]
                congr 2
                omega
              · exact ih 0 (some c) hin
  exact hfrom text 0 none

end Substring

/-! ## §4. Growth. -/

/-- The size of a text, character by character. -/
def total (size : C → Nat) (text : List C) : Nat := (text.map size).sum

@[simp] theorem total_nil (size : C → Nat) : total size [] = 0 := rfl

@[simp] theorem total_cons (size : C → Nat) (c : C) (text : List C) :
    total size (c :: text) = size c + total size text := rfl

@[simp] theorem total_append (size : C → Nat) (a b : List C) : total size (a ++ b) = total size a + total size b := by
  unfold total
  rw [List.map_append, List.sum_append]

theorem total_one (text : List C) : total (fun _ => 1) text = text.length := by
  induction text with
  | nil => rfl
  | cons c text ih =>
      rw [total_cons, ih, List.length_cons]
      omega

theorem length_le_total {size : C → Nat} (h : ∀ c, 1 ≤ size c) (text : List C) : text.length ≤ total size text := by
  induction text with
  | nil => exact Nat.le_refl 0
  | cons c text ih =>
      have hc := h c
      rw [total_cons, List.length_cons]
      omega

/-- **Growth**: replacements of at least `k` characters, each larger by at most `g`. -/
theorem Rewrites.total_le {size : C → Nat} {k g : Nat}
    (h : ∀ old new, swap old new → k ≤ old.length ∧ total size new ≤ total size old + g) {text out : List C}
    (hr : Rewrites swap text out) : k * total size out ≤ k * total size text + g * text.length := by
  induction hr with
  | nil => exact Nat.zero_le _
  | keep c _ ih =>
      rw [total_cons, total_cons, List.length_cons, Nat.mul_add, Nat.mul_add, Nat.mul_succ]
      omega
  | swap hswap _ ih =>
      rename_i old new text out _
      obtain ⟨hlen, hsize⟩ := h _ _ hswap
      have hgrow : k * total size new ≤ k * total size old + g * old.length := calc
        k * total size new ≤ k * (total size old + g) := Nat.mul_le_mul_left k hsize
        _ = k * total size old + g * k := by ring
        _ ≤ k * total size old + g * old.length := by
          have hle := Nat.mul_le_mul_left g hlen
          omega
      rw [total_append, total_append, List.length_append, Nat.mul_add, Nat.mul_add, Nat.mul_add]
      omega

/-- A text in which every occurrence of `mark` may stand for `credit`
characters, and every other character for itself. -/
inductive Marked (mark : List C) (credit : Nat) : Nat → List C → Prop where
  | nil : Marked mark credit 0 []
  | keep (c : C) {n : Nat} {text : List C} : Marked mark credit n text → Marked mark credit (n + 1) (c :: text)
  | mark {n : Nat} {text : List C} : Marked mark credit n text → Marked mark credit (n + credit) (mark ++ text)

section Marked

variable {mark : List C} {credit n : Nat} {text : List C}

theorem marked_self (text : List C) : Marked mark credit text.length text := by
  induction text with
  | nil => exact .nil
  | cons c text ih => exact .keep c ih

theorem Marked.total_le {size : C → Nat} {most : Nat} (hsize : ∀ c, size c ≤ most)
    (hmark : total size mark ≤ most * credit) (h : Marked mark credit n text) : total size text ≤ most * n := by
  induction h with
  | nil => exact Nat.zero_le _
  | keep c _ ih =>
      have hc := hsize c
      rw [total_cons, Nat.mul_succ]
      omega
  | mark _ ih =>
      rw [total_append, Nat.mul_add]
      omega

theorem Marked.length_le (hcredit : credit ≤ mark.length) (h : Marked mark credit n text) :
    credit * text.length ≤ mark.length * n := by
  induction h with
  | nil => exact Nat.zero_le _
  | keep c _ ih =>
      rw [List.length_cons, Nat.mul_succ, Nat.mul_succ]
      omega
  | mark _ ih =>
      rw [List.length_append, Nat.mul_add, Nat.mul_add, Nat.mul_comm credit mark.length]
      omega

variable {a b : C} {word old : List C}

/-- A text in front of which no mark starts is taken off character by character. -/
theorem Marked.behind (ha : a ∉ old) (h : Marked (a :: word) credit n (old ++ text)) :
    ∃ m, n = m + old.length ∧ Marked (a :: word) credit m text := by
  induction old generalizing n with
  | nil => exact ⟨n, rfl, h⟩
  | cons c old ih =>
      have hc : c ≠ a := fun heq => ha (heq ▸ List.mem_cons_self)
      generalize hall : c :: old ++ text = whole at h
      cases h with
      | nil => cases hall
      | keep d h =>
          obtain ⟨rfl, rfl⟩ := List.cons.inj hall
          obtain ⟨m, rfl, hm⟩ := ih (fun hmem => ha (List.mem_cons_of_mem _ hmem)) h
          exact ⟨m, by rw [List.length_cons]; omega, hm⟩
      | mark h => exact absurd (List.cons.inj hall).1 hc

/-- No replacement reaches into a part that ends with a character it lacks. -/
theorem Rewrites.keeps (hold : ∀ o n, swap o n → o ≠ [] ∧ b ∉ o ∧ ¬ o <:+: word) {out : List C}
    (h : Rewrites swap (word ++ b :: text) out) : ∃ out', out = word ++ b :: out' ∧ Rewrites swap text out' := by
  induction word generalizing out with
  | nil =>
      generalize hall : [] ++ b :: text = whole at h
      cases h with
      | nil => cases hall
      | keep c h =>
          obtain ⟨rfl, rfl⟩ := List.cons.inj hall
          exact ⟨_, rfl, h⟩
      | swap hswap h =>
          rename_i o n rest out
          obtain ⟨hne, hb, _⟩ := hold _ _ hswap
          cases o with
          | nil => exact absurd rfl hne
          | cons c o =>
              obtain ⟨rfl, _⟩ := List.cons.inj hall
              exact absurd List.mem_cons_self hb
  | cons d word ih =>
      generalize hall : d :: word ++ b :: text = whole at h
      cases h with
      | nil => cases hall
      | keep c h =>
          obtain ⟨rfl, rfl⟩ := List.cons.inj hall
          obtain ⟨out', rfl, hrest⟩ := ih (fun o n hs => ⟨(hold o n hs).1, (hold o n hs).2.1, fun hin =>
            (hold o n hs).2.2 (hin.trans (List.suffix_cons _ _).isInfix)⟩) h
          exact ⟨out', rfl, hrest⟩
      | swap hswap h =>
          rename_i o n rest out
          obtain ⟨hne, hb, hword⟩ := hold _ _ hswap
          -- a match here would start inside the part, and end inside it
          have hin : o <+: (d :: word) ++ b :: text := by
            rw [hall]
            exact List.prefix_append o rest
          exact absurd (prefix_split hb hin).isInfix hword

/-- **Marks stand for what they replaced**: no later replacement spends more. -/
theorem Rewrites.marked (hmark : mark = a :: (word ++ [b])) (hcredit : credit ≤ old.length) (hne : old ≠ [])
    (ha : a ∉ old) (hb : b ∉ old) (hword : ¬ old <:+: word) {out : List C}
    (h : Rewrites (fun o n => o = old ∧ n = mark) text out) (hm : Marked mark credit n text) :
    ∃ m, m ≤ n ∧ Marked mark credit m out := by
  have hold : ∀ o n, o = old ∧ n = mark → o ≠ [] ∧ b ∉ o ∧ ¬ o <:+: a :: word := by
    rintro o _ ⟨rfl, rfl⟩
    refine ⟨hne, hb, fun hin => ?_⟩
    rcases infix_split (a := []) ha hin with hnil | hin
    · exact hne (List.infix_nil.mp hnil)
    · exact hword hin
  -- by induction on the length: a mark is kept as a whole
  induction hlen : text.length using Nat.strong_induction_on generalizing n text out with
  | _ length ih =>
      cases h with
      | nil => exact ⟨n, Nat.le_refl n, hm⟩
      | swap hswap hrest =>
          rename_i o new rest out
          obtain ⟨rfl, rfl⟩ := hswap
          rw [hmark] at hm
          obtain ⟨m, rfl, hrepr⟩ := hm.behind ha
          rw [← hmark] at hrepr
          have hpos := List.length_pos_iff.mpr hne
          rw [List.length_append] at hlen
          obtain ⟨m', hle, hm'⟩ := ih rest.length (by omega) hrest hrepr rfl
          exact ⟨m' + credit, by omega, .mark hm'⟩
      | keep c hrest =>
          rename_i rest out
          rw [List.length_cons] at hlen
          generalize hall : c :: rest = whole at hm
          cases hm with
          | nil => cases hall
          | keep d hm =>
              obtain ⟨rfl, rfl⟩ := List.cons.inj hall
              obtain ⟨m', hle, hm'⟩ := ih rest.length (by omega) hrest hm rfl
              exact ⟨m' + 1, by omega, .keep c hm'⟩
          | mark hm =>
              rename_i m behind
              have hwhole : Rewrites (fun o n => o = old ∧ n = mark) ((a :: word) ++ b :: behind) (c :: out) := by
                have hkeep := Rewrites.keep c hrest
                have hsame : mark ++ behind = (a :: word) ++ b :: behind := by
                  rw [hmark]
                  simp
                rwa [hall, hsame] at hkeep
              obtain ⟨out', heq, hrest'⟩ := hwhole.keeps hold
              have hshort : behind.length < length := by
                have hlen' := congrArg List.length hall
                rw [List.length_cons, List.length_append, hmark] at hlen'
                simp only [List.length_cons, List.length_append] at hlen'
                omega
              obtain ⟨m', hle, hm'⟩ := ih behind.length hshort hrest' hm rfl
              refine ⟨m' + credit, by omega, ?_⟩
              rw [heq]
              have hmarked := Marked.mark hm'
              rw [hmark] at hmarked ⊢
              simpa using hmarked

end Marked

end WebBuilder.Text
