/-
  WebBuilder.Context.Encoding — how many bytes an encoded value has.

  The bounds of the service are on the bytes of `json.dumps`.  A list costs
  its items and a separator behind each but the last, whatever their order;
  a character of a text costs up to six bytes, because of its escape.

  Main results:
    * `size_intercalate` — the bytes of joined texts;
    * `size_quoted`, `escapedSize_le` — the bytes of a text;
    * `size_int` — the bytes of a 64-bit number.
-/
import Mathlib.Data.Nat.Digits.Defs
import WebBuilder.Context.Evidence
import WebBuilder.Text.Rewrite

namespace WebBuilder.Context

open WebBuilder.Text

/-! ## §1. Joined texts. -/

/-- The bytes of joined texts, and of one more separator. -/
theorem size_intercalate (sep : String) {l : List String} (h : l ≠ []) :
    (sep.intercalate l).utf8ByteSize + sep.utf8ByteSize = (l.map fun t => t.utf8ByteSize + sep.utf8ByteSize).sum := by
  induction l with
  | nil => exact absurd rfl h
  | cons t l ih =>
      cases l with
      | nil => simp
      | cons u l =>
          have ih := ih (by simp)
          rw [String.intercalate_cons_cons, String.utf8ByteSize_append, String.utf8ByteSize_append, List.map_cons,
            List.sum_cons, ← ih]
          omega

theorem size_intercalate_le (sep : String) (l : List String) :
    (sep.intercalate l).utf8ByteSize ≤ (l.map fun t => t.utf8ByteSize + sep.utf8ByteSize).sum := by
  by_cases h : l = []
  · subst h
    exact Nat.zero_le _
  · have hsize := size_intercalate sep h
    omega

/-- No item is larger than the joined text. -/
theorem size_mem_intercalate (sep : String) {l : List String} {t : String} (h : t ∈ l) :
    t.utf8ByteSize ≤ (sep.intercalate l).utf8ByteSize := by
  have hsize := size_intercalate sep (List.ne_nil_of_mem h)
  obtain ⟨before, after, rfl⟩ := List.append_of_mem h
  rw [List.map_append, List.map_cons, List.sum_append, List.sum_cons] at hsize
  omega

/-- More items are never smaller. -/
theorem size_intercalate_initial (sep : String) {l l' : List String} (h : l <+: l') :
    (sep.intercalate l).utf8ByteSize ≤ (sep.intercalate l').utf8ByteSize := by
  by_cases hl : l = []
  · subst hl
    exact Nat.zero_le _
  · obtain ⟨rest, rfl⟩ := h
    have hsize := size_intercalate sep hl
    have hsize' := size_intercalate sep (List.append_ne_nil_of_left_ne_nil hl rest)
    rw [List.map_append, List.sum_append] at hsize'
    omega

/-- **The order of the items does not matter.** -/
theorem size_intercalate_perm (sep : String) {l l' : List String} (h : l.Perm l') :
    (sep.intercalate l).utf8ByteSize = (sep.intercalate l').utf8ByteSize := by
  by_cases hl : l = []
  · subst hl
    rw [List.nil_perm.mp h]
  · have hl' : l' ≠ [] := by
      rintro rfl
      exact hl (List.perm_nil.mp h)
    have hsize := size_intercalate sep hl
    have hsize' := size_intercalate sep hl'
    have hsum := (h.map fun t => t.utf8ByteSize + sep.utf8ByteSize).sum_eq
    omega

/-! ## §2. Characters. -/

theorem size_toList (s : String) : s.utf8ByteSize = total Char.utf8Size s.toList := by
  have hlist : ∀ cs : List Char, (String.ofList cs).utf8ByteSize = total Char.utf8Size cs := by
    intro cs
    induction cs with
    | nil => rfl
    | cons c cs ih =>
        have hcons : String.ofList (c :: cs) = String.singleton c ++ String.ofList cs := by
          apply String.toList_injective
          simp
        rw [hcons, String.utf8ByteSize_append, String.utf8ByteSize_singleton, ih, total_cons]
  have hs := hlist s.toList
  rwa [String.ofList_toList] at hs

/-- The bytes of a character in a quoted text. -/
def escapedSize (c : Char) : Nat := (escaped c).utf8ByteSize

theorem size_quoted (s : String) : (quoted s).utf8ByteSize = total escapedSize s.toList + 2 := by
  have hjoin : ∀ cs : List Char, (String.join (cs.map escaped)).utf8ByteSize = total escapedSize cs := by
    intro cs
    induction cs with
    | nil => rfl
    | cons c cs ih =>
        rw [List.map_cons, String.join_cons, String.utf8ByteSize_append, ih, total_cons]
        rfl
  unfold quoted
  rw [String.utf8ByteSize_append, String.utf8ByteSize_append, hjoin]
  show 1 + _ + 1 = _
  omega

/-- The digits of `\u00…`. -/
theorem size_hex : (∀ n < 16, (String.ofList (Nat.toDigits 16 n)).utf8ByteSize ≤ 1) ∧
    ∀ n < 32, (String.ofList (Nat.toDigits 16 n)).utf8ByteSize ≤ 2 := by
  decide

theorem escapedSize_le (c : Char) : escapedSize c ≤ 6 := by
  unfold escapedSize escaped
  split
  · decide
  split
  · decide
  split
  · decide
  split
  · decide
  split
  · decide
  split
  · decide
  split
  · decide
  split
  · rename_i h
    have hhex := size_hex.1 c.toNat h
    rw [String.utf8ByteSize_append]
    show 5 + _ ≤ 6
    omega
  split
  · rename_i h
    have hhex := size_hex.2 c.toNat h
    rw [String.utf8ByteSize_append]
    show 4 + _ ≤ 6
    omega
  · have hc := c.utf8Size_le_four
    rw [size_toList, String.toList_ofList, total_cons, total_nil]
    omega

theorem escapedSize_pos (c : Char) : 1 ≤ escapedSize c := by
  unfold escapedSize escaped
  split
  · decide
  split
  · decide
  split
  · decide
  split
  · decide
  split
  · decide
  split
  · decide
  split
  · decide
  split
  · rw [String.utf8ByteSize_append]
    exact Nat.le_add_right_of_le (by decide)
  split
  · rw [String.utf8ByteSize_append]
    exact Nat.le_add_right_of_le (by decide)
  · have hc := c.utf8Size_pos
    rw [size_toList, String.toList_ofList, total_cons, total_nil]
    omega

/-! ## §3. Numbers. -/

theorem size_nat {n k : Nat} (hk : 0 < k) (hn : n < 10 ^ k) : (toString n).utf8ByteSize ≤ k := by
  have hone : ∀ cs : List Char, (∀ c ∈ cs, c.isDigit = true) → total Char.utf8Size cs = cs.length := by
    intro cs hcs
    induction cs with
    | nil => rfl
    | cons c cs ih =>
        have hdigit := hcs c List.mem_cons_self
        have hascii : c.utf8Size = 1 := by
          rw [Char.utf8Size_eq_one_iff]
          simp only [Char.isDigit, Bool.and_eq_true, decide_eq_true_eq] at hdigit
          exact UInt32.le_trans hdigit.2 (by decide)
        rw [total_cons, hascii, ih fun d hd => hcs d (List.mem_cons_of_mem _ hd), List.length_cons]
        omega
  show (String.ofList (Nat.toDigits 10 n)).utf8ByteSize ≤ k
  rw [size_toList, String.toList_ofList, hone _ fun c hc => Nat.isDigit_of_mem_toDigits (by decide) (by decide) hc]
  exact (Nat.length_toDigits_le_iff (by decide) hk).mpr hn

/-- A number of 64 bits, with or without a sign, has at most 20 bytes. -/
theorem size_int {n : Int} (hlow : -2 ^ 63 ≤ n) (hhigh : n < 2 ^ 64) : (toString n).utf8ByteSize ≤ 20 := by
  cases n with
  | ofNat n =>
      show (toString n).utf8ByteSize ≤ 20
      refine size_nat (by decide) ?_
      rw [Int.ofNat_eq_natCast] at hhigh
      omega
  | negSucc n =>
      show ("-" ++ toString (n + 1)).utf8ByteSize ≤ 20
      have hdigits := @size_nat (n + 1) 19 (by decide) (by omega)
      rw [String.utf8ByteSize_append]
      show 1 + _ ≤ 20
      omega

end WebBuilder.Context
