/-
  WebBuilder.Events.JsonText — JSON texts.

  The grammar says which texts denote a value, blanks left out.  It allows more
  than one text for a value: a character may be escaped or not.  `encode` is
  `json.dumps` with `ensure_ascii=False` and the compact separators.

  Main results:
    * `isText_encode` — what is encoded is a text of the value;
    * `encode_line` — and one line.
-/
import WebBuilder.Budget.ModelCost
import WebBuilder.Context.Encoding

namespace WebBuilder.Events

open WebBuilder.Budget
open WebBuilder.Context (escaped quoted)

/-! ## §1. The grammar. -/

/-- The letter behind a backslash, and what it stands for. -/
def shortEscapes : List (Char × Char) :=
  [('"', '"'), ('\\', '\\'), ('/', '/'), ('b', Char.ofNat 8), ('f', Char.ofNat 12), ('n', '\n'), ('r', '\r'), ('t', '\t')]

def hexDigits : List Char := "0123456789abcdefABCDEF".toList

def hexDigit (d : Char) : Nat :=
  if d.isDigit then d.toNat - '0'.toNat else if d.isLower then d.toNat - 'a'.toNat + 10 else d.toNat - 'A'.toNat + 10

def hexValue (ds : List Char) : Nat := ds.foldl (fun n d => 16 * n + hexDigit d) 0

/-- How a character is written between quotes. -/
inductive CharText : Char → String → Prop
  | plain {c : Char} (hcontrol : 32 ≤ c.toNat) (hquote : c ≠ '"') (hback : c ≠ '\\') : CharText c (String.ofList [c])
  | short {c letter : Char} (h : (letter, c) ∈ shortEscapes) : CharText c (String.ofList ['\\', letter])
  | hex {c : Char} {ds : List Char} (hlen : ds.length = 4) (hdigits : ∀ d ∈ ds, d ∈ hexDigits)
      (hvalue : hexValue ds = c.toNat) : CharText c (String.ofList ('\\' :: 'u' :: ds))

inductive CharsText : List Char → String → Prop
  | nil : CharsText [] ""
  | cons {c : Char} {cs : List Char} {t ts : String} (h : CharText c t) (hs : CharsText cs ts) :
      CharsText (c :: cs) (t ++ ts)

def Digits (ds : List Char) : Prop := ds ≠ [] ∧ ∀ d ∈ ds, d.isDigit = true

/-- A number: a sign, digits, a fraction and an exponent. -/
def IsNumber (text : String) : Prop :=
  ∃ sign int frac exp : List Char, text.toList = sign ++ int ++ frac ++ exp ∧ (sign = [] ∨ sign = ['-']) ∧
    Digits int ∧ (int.head? = some '0' → int = ['0']) ∧
    (frac = [] ∨ ∃ ds, Digits ds ∧ frac = '.' :: ds) ∧
    (exp = [] ∨ ∃ e sign ds, (e = 'e' ∨ e = 'E') ∧ (sign = [] ∨ sign = ['+'] ∨ sign = ['-']) ∧ Digits ds ∧
      exp = e :: (sign ++ ds))

mutual

/-- The text denotes the value. -/
inductive IsText : Json → String → Prop
  | null : IsText .null "null"
  | yes : IsText (.bool true) "true"
  | no : IsText (.bool false) "false"
  | int {n : Int} (h : IsNumber (toString n)) : IsText (.int n) (toString n)
  | float {isZero : Bool} {repr : String} (h : IsNumber repr) : IsText (.float isZero repr) repr
  | str {s t : String} (h : CharsText s.toList t) : IsText (.str s) ("\"" ++ t ++ "\"")
  | list {xs : List Json} {ts : String} (h : ItemsText xs ts) : IsText (.list xs) ("[" ++ ts ++ "]")
  | dict {fields : List (String × Json)} {ts : String} (h : FieldsText fields ts) :
      IsText (.dict fields) ("\x7b" ++ ts ++ "\x7d")

inductive ItemsText : List Json → String → Prop
  | nil : ItemsText [] ""
  | one {x : Json} {t : String} (h : IsText x t) : ItemsText [x] t
  | cons {x y : Json} {xs : List Json} {t ts : String} (h : IsText x t) (hs : ItemsText (y :: xs) ts) :
      ItemsText (x :: y :: xs) (t ++ "," ++ ts)

inductive FieldsText : List (String × Json) → String → Prop
  | nil : FieldsText [] ""
  | one {k : String} {v : Json} {t u : String} (hk : CharsText k.toList t) (h : IsText v u) :
      FieldsText [(k, v)] ("\"" ++ t ++ "\"" ++ ":" ++ u)
  | cons {k : String} {v : Json} {field : String × Json} {fields : List (String × Json)} {t u ts : String}
      (hk : CharsText k.toList t) (h : IsText v u) (hs : FieldsText (field :: fields) ts) :
      FieldsText ((k, v) :: field :: fields) ("\"" ++ t ++ "\"" ++ ":" ++ u ++ "," ++ ts)

end

/-! ## §2. `json.dumps(value, ensure_ascii=False, separators=(',', ':'))`. -/

mutual

def encode : Json → String
  | .null => "null"
  | .bool b => if b then "true" else "false"
  | .int n => toString n
  | .float _ repr => repr
  | .str s => quoted s
  | .list xs => "[" ++ ",".intercalate (encodeItems xs) ++ "]"
  | .dict fields => "\x7b" ++ ",".intercalate (encodeFields fields) ++ "\x7d"

def encodeItems : List Json → List String
  | [] => []
  | x :: xs => encode x :: encodeItems xs

def encodeFields : List (String × Json) → List String
  | [] => []
  | (k, v) :: fields => (quoted k ++ ":" ++ encode v) :: encodeFields fields

end

mutual

/-- The floats of a value, at any depth. -/
def floats : Json → List String
  | .dict fields => floatsFields fields
  | .list xs => floatsItems xs
  | .float _ repr => [repr]
  | .null => []
  | .bool _ => []
  | .int _ => []
  | .str _ => []

def floatsItems : List Json → List String
  | [] => []
  | x :: xs => floats x ++ floatsItems xs

def floatsFields : List (String × Json) → List String
  | [] => []
  | (_, v) :: fields => floats v ++ floatsFields fields

end

/-- No float is infinite or not a number: JSON has no text for those. -/
def Finite (value : Json) : Prop := ∀ repr ∈ floats value, IsNumber repr

/-! ## §3. Characters and numbers. -/

theorem digit_hex : ∀ n < 16, n.digitChar ∈ hexDigits ∧ hexDigit n.digitChar = n := by decide

/-- A control character has two digits of its own. -/
theorem charText_control {c : Char} (h : c.toNat < 32) : CharText c
    (String.ofList ('\\' :: 'u' :: ['0', '0', (c.toNat / 16).digitChar, (c.toNat % 16).digitChar])) := by
  obtain ⟨hhigh, hhighValue⟩ := digit_hex (c.toNat / 16) (by omega)
  obtain ⟨hlow, hlowValue⟩ := digit_hex (c.toNat % 16) (Nat.mod_lt _ (by decide))
  have hzero : '0' ∈ hexDigits := by decide
  refine CharText.hex rfl (fun d hd => ?_) ?_
  · simp only [List.mem_cons, List.not_mem_nil, or_false] at hd
    rcases hd with rfl | rfl | rfl | rfl
    · exact hzero
    · exact hzero
    · exact hhigh
    · exact hlow
  · show 16 * (16 * 0 + hexDigit (c.toNat / 16).digitChar) + hexDigit (c.toNat % 16).digitChar = c.toNat
    rw [hhighValue, hlowValue]
    omega

theorem charText_escaped (c : Char) : CharText c (escaped c) := by
  have hofNat : ∀ n, c.toNat = n → c = Char.ofNat n := by
    intro n hn
    rw [← hn, Char.ofNat_toNat]
  unfold escaped
  split
  · rename_i h
    subst h
    exact @CharText.short _ '"' (by decide)
  split
  · rename_i h
    subst h
    exact @CharText.short _ '\\' (by decide)
  split
  · rename_i h
    subst h
    exact @CharText.short _ 'n' (by decide)
  split
  · rename_i h
    subst h
    exact @CharText.short _ 'r' (by decide)
  split
  · rename_i h
    subst h
    exact @CharText.short _ 't' (by decide)
  split
  · rename_i h
    rw [hofNat 8 h]
    exact @CharText.short _ 'b' (by decide)
  split
  · rename_i h
    rw [hofNat 12 h]
    exact @CharText.short _ 'f' (by decide)
  split
  · rename_i h
    have htext : "\\u000" ++ String.ofList (Nat.toDigits 16 c.toNat) =
        String.ofList ('\\' :: 'u' :: ['0', '0', (c.toNat / 16).digitChar, (c.toNat % 16).digitChar]) := by
      rw [Nat.toDigits_of_lt_base h, Nat.div_eq_of_lt h, Nat.mod_eq_of_lt h, ← String.toList_inj,
        String.toList_append, String.toList_ofList, String.toList_ofList, String.toList_ofList]
      rfl
    rw [htext]
    exact charText_control (by omega)
  split
  · rename_i hlow h
    have htext : "\\u00" ++ String.ofList (Nat.toDigits 16 c.toNat) =
        String.ofList ('\\' :: 'u' :: ['0', '0', (c.toNat / 16).digitChar, (c.toNat % 16).digitChar]) := by
      rw [Nat.toDigits_of_base_le (by decide) (by omega), Nat.toDigits_of_lt_base (by omega), ← String.toList_inj,
        String.toList_append, String.toList_ofList, String.toList_ofList, String.toList_ofList]
      rfl
    rw [htext]
    exact charText_control h
  · rename_i hquote hback _ _ _ _ _ _ hcontrol
    exact CharText.plain (not_lt.mp hcontrol) hquote hback

theorem charsText_join (cs : List Char) : CharsText cs (String.join (cs.map escaped)) := by
  induction cs with
  | nil => exact CharsText.nil
  | cons c cs ih =>
      rw [List.map_cons, String.join_cons]
      exact CharsText.cons (charText_escaped c) ih

/-- A number other than zero does not start with a zero. -/
theorem toDigits_head {n : Nat} (h : 0 < n) : (Nat.toDigits 10 n).head? ≠ some '0' := by
  induction n using Nat.strongRecOn with
  | ind n ih =>
      by_cases hsmall : n < 10
      · have hall : ∀ m < 10, 0 < m → (Nat.toDigits 10 m).head? ≠ some '0' := by decide
        exact hall n hsmall h
      · rw [Nat.toDigits_of_base_le (by decide) (not_lt.mp hsmall), List.head?_append_of_ne_nil _ Nat.toDigits_ne_nil]
        exact ih (n / 10) (by omega) (by omega)

theorem digits_toDigits (n : Nat) : Digits (Nat.toDigits 10 n) :=
  ⟨Nat.toDigits_ne_nil, fun _ hd => Nat.isDigit_of_mem_toDigits (by decide) (by decide) hd⟩

theorem isNumber_toString (n : Int) : IsNumber (toString n) := by
  have hzero : ∀ m : Nat, (Nat.toDigits 10 m).head? = some '0' → Nat.toDigits 10 m = ['0'] := by
    intro m hm
    have hm0 : m = 0 := Nat.eq_zero_of_not_pos fun hpos => toDigits_head hpos hm
    subst hm0
    rfl
  cases n with
  | ofNat m =>
      refine ⟨[], Nat.toDigits 10 m, [], [], ?_, Or.inl rfl, digits_toDigits m, hzero m, Or.inl rfl, Or.inl rfl⟩
      show (String.ofList (Nat.toDigits 10 m)).toList = _
      rw [String.toList_ofList, List.nil_append, List.append_nil, List.append_nil]
  | negSucc m =>
      refine ⟨['-'], Nat.toDigits 10 (m + 1), [], [], ?_, Or.inr rfl, digits_toDigits _, hzero _, Or.inl rfl, Or.inl rfl⟩
      show ("-" ++ String.ofList (Nat.toDigits 10 (m + 1))).toList = _
      rw [String.toList_append, String.toList_ofList, String.toList_ofList, List.append_nil, List.append_nil]

/-! ## §4. What is encoded. -/

theorem finite_items {x : Json} {xs : List Json} (h : ∀ repr ∈ floatsItems (x :: xs), IsNumber repr) :
    Finite x ∧ ∀ repr ∈ floatsItems xs, IsNumber repr := by
  unfold floatsItems at h
  exact ⟨fun repr hr => h repr (List.mem_append_left _ hr), fun repr hr => h repr (List.mem_append_right _ hr)⟩

theorem finite_fields {k : String} {v : Json} {fields : List (String × Json)}
    (h : ∀ repr ∈ floatsFields ((k, v) :: fields), IsNumber repr) :
    Finite v ∧ ∀ repr ∈ floatsFields fields, IsNumber repr := by
  unfold floatsFields at h
  exact ⟨fun repr hr => h repr (List.mem_append_left _ hr), fun repr hr => h repr (List.mem_append_right _ hr)⟩

mutual

/-- **What is encoded is a text of the value.** -/
theorem isText_encode : ∀ value : Json, Finite value → IsText value (encode value)
  | .dict fields => fun h => IsText.dict (fieldsText_encode fields h)
  | .list xs => fun h => IsText.list (itemsText_encode xs h)
  | .str s => fun _ => IsText.str (charsText_join s.toList)
  | .null => fun _ => IsText.null
  | .bool true => fun _ => IsText.yes
  | .bool false => fun _ => IsText.no
  | .int n => fun _ => IsText.int (isNumber_toString n)
  | .float _ repr => fun h => IsText.float (h repr List.mem_cons_self)

theorem itemsText_encode : ∀ xs : List Json, (∀ repr ∈ floatsItems xs, IsNumber repr) →
    ItemsText xs (",".intercalate (encodeItems xs))
  | [] => fun _ => ItemsText.nil
  | [x] => fun h => ItemsText.one (isText_encode x (finite_items h).1)
  | x :: y :: xs => fun h => by
      have hx := isText_encode x (finite_items h).1
      have hxs := itemsText_encode (y :: xs) (finite_items h).2
      rw [encodeItems] at hxs ⊢
      rw [encodeItems, String.intercalate_cons_cons]
      exact ItemsText.cons hx hxs

theorem fieldsText_encode : ∀ fields : List (String × Json), (∀ repr ∈ floatsFields fields, IsNumber repr) →
    FieldsText fields (",".intercalate (encodeFields fields))
  | [] => fun _ => FieldsText.nil
  | [(k, v)] => fun h => FieldsText.one (charsText_join k.toList) (isText_encode v (finite_fields h).1)
  | (k, v) :: (k', v') :: fields => fun h => by
      have hv := isText_encode v (finite_fields h).1
      have hfields := fieldsText_encode ((k', v') :: fields) (finite_fields h).2
      rw [encodeFields] at hfields ⊢
      rw [encodeFields, String.intercalate_cons_cons]
      exact FieldsText.cons (charsText_join k.toList) hv hfields

end

/-! ## §5. One line. -/

/-- The text does not end its line. -/
def OneLine (text : String) : Prop := '\n' ∉ text.toList

instance (text : String) : Decidable (OneLine text) := inferInstanceAs (Decidable ('\n' ∉ text.toList))

theorem OneLine.append {s t : String} (hs : OneLine s) (ht : OneLine t) : OneLine (s ++ t) := by
  unfold OneLine
  rw [String.toList_append, List.mem_append]
  exact not_or.mpr ⟨hs, ht⟩

theorem CharText.oneLine {c : Char} {t : String} (h : CharText c t) : OneLine t := by
  unfold OneLine
  cases h with
  | plain hcontrol hquote hback =>
      rw [String.toList_ofList, List.mem_singleton]
      rintro rfl
      exact absurd hcontrol (by decide)
  | short hshort =>
      rename_i letter
      have hletters : ∀ e ∈ shortEscapes, '\n' ∉ ['\\', e.1] := by decide
      rw [String.toList_ofList]
      exact hletters _ hshort
  | hex hlen hdigits hvalue =>
      rw [String.toList_ofList, List.mem_cons, List.mem_cons]
      rintro (hback | hu | hmem)
      · exact absurd hback (by decide)
      · exact absurd hu (by decide)
      · exact absurd (hdigits _ hmem) (by decide)

theorem CharsText.oneLine {cs : List Char} {t : String} (h : CharsText cs t) : OneLine t := by
  induction h with
  | nil => exact List.not_mem_nil
  | cons h _ ih => exact h.oneLine.append ih

theorem Digits.oneLine {ds : List Char} (h : Digits ds) : '\n' ∉ ds := by
  intro hmem
  exact absurd (h.2 _ hmem) (by decide)

theorem IsNumber.oneLine {text : String} (h : IsNumber text) : OneLine text := by
  obtain ⟨sign, int, frac, exp, htext, hsign, hint, _, hfrac, hexp⟩ := h
  have hsign' : '\n' ∉ sign := by
    rcases hsign with rfl | rfl
    · decide
    · decide
  have hfrac' : '\n' ∉ frac := by
    rcases hfrac with rfl | ⟨ds, hds, rfl⟩
    · decide
    · rw [List.mem_cons]
      exact not_or.mpr ⟨by decide, hds.oneLine⟩
  have hexp' : '\n' ∉ exp := by
    rcases hexp with rfl | ⟨e, s, ds, he, hs, hds, rfl⟩
    · decide
    · rw [List.mem_cons, List.mem_append]
      refine not_or.mpr ⟨?_, not_or.mpr ⟨?_, hds.oneLine⟩⟩
      · rcases he with rfl | rfl
        · decide
        · decide
      · rcases hs with rfl | rfl | rfl
        · decide
        · decide
        · decide
  unfold OneLine
  rw [htext, List.mem_append, List.mem_append, List.mem_append]
  exact not_or.mpr ⟨not_or.mpr ⟨not_or.mpr ⟨hsign', hint.oneLine⟩, hfrac'⟩, hexp'⟩

mutual

/-- **A text without blanks is one line.** -/
theorem IsText.oneLine {value : Json} {text : String} (h : IsText value text) : OneLine text := by
  cases h with
  | null => decide
  | yes => decide
  | no => decide
  | int h => exact h.oneLine
  | float h => exact h.oneLine
  | str h => exact (OneLine.append (by decide) h.oneLine).append (by decide)
  | list h => exact (OneLine.append (by decide) h.oneLine).append (by decide)
  | dict h => exact (OneLine.append (by decide) h.oneLine).append (by decide)

theorem ItemsText.oneLine {xs : List Json} {text : String} (h : ItemsText xs text) : OneLine text := by
  cases h with
  | nil => exact List.not_mem_nil
  | one h => exact h.oneLine
  | cons h hs => exact (h.oneLine.append (by decide)).append hs.oneLine

theorem FieldsText.oneLine {fields : List (String × Json)} {text : String} (h : FieldsText fields text) :
    OneLine text := by
  have hfield : ∀ {k v : String}, OneLine k → OneLine v → OneLine ("\"" ++ k ++ "\"" ++ ":" ++ v) := by
    intro k v hk hv
    have hquoted := (OneLine.append (by decide : OneLine "\"") hk).append (by decide : OneLine "\"")
    exact (hquoted.append (by decide)).append hv
  cases h with
  | nil => exact List.not_mem_nil
  | one hk h => exact hfield hk.oneLine h.oneLine
  | cons hk h hs => exact ((hfield hk.oneLine h.oneLine).append (by decide)).append hs.oneLine

end

theorem encode_line {value : Json} (h : Finite value) : OneLine (encode value) := (isText_encode value h).oneLine

end WebBuilder.Events
