import Mathlib.Data.String.Basic
import Mathlib.Tactic.IntervalCases

/-! Compact JSON, decimal and fixed-width hexadecimal texts, with their sizes in UTF-8 bytes. -/

namespace Tysel.Text

open List Nat Bool

open String (utf8Len)

abbrev size (s : String) : ℕ := s.utf8ByteSize

theorem size_eq_utf8Len (s : String) : size s = utf8Len s.toList := by
  rw [← String.utf8ByteSize_ofList, String.ofList_toList]

theorem size_append (s t : String) : size (s ++ t) = size s + size t :=
  String.utf8ByteSize_append

/-- The characters before the last boundary within the first `bytes` bytes. -/
def takeBytes : ℕ → List Char → List Char
  | _, [] => []
  | bytes, c :: cs =>
    if c.utf8Size ≤ bytes then c :: takeBytes (bytes - c.utf8Size) cs else []

theorem takeBytes_len_le (bytes : ℕ) (cs : List Char) : utf8Len (takeBytes bytes cs) ≤ bytes := by
  induction cs generalizing bytes with
  | nil => simp [takeBytes]
  | cons c _ ih =>
    have htail := ih (bytes - c.utf8Size)
    rw [takeBytes]
    split
    · rw [String.utf8Len_cons]
      omega
    · simp

def jsonChar (c : Char) : String :=
  if c = '"' then "\\\""
  else if c = '\\' then "\\\\"
  else if c = '\x08' then "\\b"
  else if c = '\x0c' then "\\f"
  else if c = '\n' then "\\n"
  else if c = '\r' then "\\r"
  else if c = '\t' then "\\t"
  else if c.toNat < 32 then
    "\\u00" ++ String.ofList [Nat.digitChar (c.toNat / 16), Nat.digitChar (c.toNat % 16)]
  else String.singleton c

def jsonChars : List Char → String
  | [] => ""
  | c :: cs => jsonChar c ++ jsonChars cs

def jsonString (s : String) : String := "\"" ++ jsonChars s.toList ++ "\""

def commas : List String → String
  | [] => ""
  | [x] => x
  | x :: y :: xs => x ++ "," ++ commas (y :: xs)

def jsonArray (items : List String) : String := "[" ++ commas items ++ "]"

def jsonObject (fields : List (String × String)) : String :=
  "\x7b" ++ commas (fields.map fun f => jsonString f.1 ++ ":" ++ f.2) ++ "\x7d"

def jsonBool (b : Bool) : String := if b then "true" else "false"

def jsonOption {α : Type*} (f : α → String) : Option α → String
  | none => "null"
  | some a => f a

theorem digitChar_size {n : ℕ} (h : n < 16) : (digitChar n).utf8Size = 1 := by
  interval_cases n <;> rfl

theorem jsonChar_size_le (c : Char) : size (jsonChar c) ≤ 6 * c.utf8Size := by
  have hpos : 1 ≤ c.utf8Size := c.utf8Size_pos
  have htwo : size "\\\"" = 2 ∧ size "\\\\" = 2 ∧ size "\\b" = 2 ∧ size "\\f" = 2 ∧
      size "\\n" = 2 ∧ size "\\r" = 2 ∧ size "\\t" = 2 ∧ size "\\u00" = 4 := by decide
  unfold jsonChar
  split_ifs with _ _ _ _ _ _ _ hcontrol
  all_goals try omega
  · have hhigh : (digitChar (c.toNat / 16)).utf8Size = 1 := digitChar_size (by omega)
    have hlow : (digitChar (c.toNat % 16)).utf8Size = 1 := digitChar_size (by omega)
    have hdigits : size (String.ofList
        [digitChar (c.toNat / 16), digitChar (c.toNat % 16)]) = 2 := by
      rw [size, String.utf8ByteSize_ofList]
      simp [hhigh, hlow]
    have hescape := htwo.2.2.2.2.2.2.2
    rw [size_append]
    omega
  · rw [size, String.utf8ByteSize_singleton]
    omega

theorem jsonChars_size_le (cs : List Char) : size (jsonChars cs) ≤ 6 * utf8Len cs := by
  induction cs with
  | nil => simp [jsonChars]
  | cons c _ ih =>
    have hc := jsonChar_size_le c
    rw [jsonChars, size_append, String.utf8Len_cons]
    omega

theorem jsonString_size_le (s : String) : size (jsonString s) ≤ 6 * size s + 2 := by
  have hchars := jsonChars_size_le s.toList
  have hquote : size "\"" = 1 := by decide
  rw [← size_eq_utf8Len] at hchars
  rw [jsonString, size_append, size_append]
  omega

theorem commas_size (xs : List String) :
    size (commas xs) = (xs.map size).sum + (xs.length - 1) := by
  induction xs with
  | nil => rfl
  | cons _ xs ih =>
    cases xs with
    | nil => simp [commas]
    | cons =>
      have hcomma : size "," = 1 := by decide
      rw [commas, size_append, size_append]
      simp only [map_cons, sum_cons, length_cons] at ih ⊢
      omega

theorem jsonArray_size (items : List String) :
    size (jsonArray items) = (items.map size).sum + (items.length - 1) + 2 := by
  have hcommas := commas_size items
  have hopen : size "[" = 1 := by decide
  have hclose : size "]" = 1 := by decide
  rw [jsonArray, size_append, size_append]
  omega

/-- The bytes of the members of an object, each with its colon and a separator. -/
def memberBytes : List (String × String) → ℕ
  | [] => 0
  | (key, value) :: fields => size (jsonString key) + size value + 2 + memberBytes fields

theorem memberBytes_eq (fields : List (String × String)) : memberBytes fields =
    (fields.map fun f => size (jsonString f.1 ++ ":" ++ f.2)).sum + fields.length := by
  have hcolon : size ":" = 1 := by decide
  induction fields with
  | nil => rfl
  | cons _ _ ih =>
    rw [memberBytes, ih, map_cons, sum_cons, length_cons]
    simp only [size_append]
    omega

theorem jsonObject_size (field : String × String) (fields : List (String × String)) :
    size (jsonObject (field :: fields)) = memberBytes (field :: fields) + 1 := by
  have hcommas := commas_size ((field :: fields).map fun f => jsonString f.1 ++ ":" ++ f.2)
  have hopen : size "\x7b" = 1 := by decide
  have hclose : size "\x7d" = 1 := by decide
  rw [map_map, length_map, length_cons] at hcommas
  rw [memberBytes_eq, length_cons, jsonObject, size_append, size_append]
  simp only [Function.comp_def] at hcommas
  omega

theorem jsonBool_size_le (b : Bool) : size (jsonBool b) ≤ 5 := by
  cases b <;> decide

theorem utf8Len_eq_length {cs : List Char} (h : ∀ c ∈ cs, c.utf8Size = 1) :
    utf8Len cs = cs.length := by
  induction cs with
  | nil => rfl
  | cons c _ ih =>
    have hc := h c (mem_cons_self ..)
    have hcs := ih fun d hd => h d (mem_cons_of_mem _ hd)
    rw [String.utf8Len_cons, length_cons]
    omega

theorem digit_size {c : Char} (h : c.isDigit = true) : c.utf8Size = 1 := by
  rw [Char.utf8Size_eq_one_iff]
  simp only [Char.isDigit, and_eq_true, decide_eq_true_eq] at h
  exact UInt32.le_trans h.2 (by decide)

theorem decimal_size_le {n e : ℕ} (he : 0 < e) (h : n < 10 ^ e) : size (toString n) ≤ e := by
  have hlength : (toDigits 10 n).length ≤ e := (length_toDigits_le_iff (by omega) he).mpr h
  have hdigits : ∀ c ∈ toDigits 10 n, c.utf8Size = 1 := fun c hc =>
    digit_size (isDigit_of_mem_toDigits (by omega) le_rfl hc)
  rw [toString_eq_ofList_toDigits, size, String.utf8ByteSize_ofList, utf8Len_eq_length hdigits]
  exact hlength

/-- The last `width` hexadecimal digits of a number, in lower case. -/
def hexChars : ℕ → ℕ → List Char
  | 0, _ => []
  | width + 1, n => hexChars width (n / 16) ++ [Nat.digitChar (n % 16)]

def isLowerHex (c : Char) : Bool := c.isDigit || (decide ('a' ≤ c) && decide (c ≤ 'f'))

def hexValue (c : Char) : ℕ :=
  if c.isDigit then c.toNat - '0'.toNat else c.toNat - 'a'.toNat + 10

def ofHexChars (cs : List Char) : ℕ := cs.foldl (fun n c => 16 * n + hexValue c) 0

theorem hexChars_length (width n : ℕ) : (hexChars width n).length = width := by
  induction width generalizing n with
  | zero => rfl
  | succ _ ih => simp [hexChars, ih]

theorem hexChars_isLowerHex (width n : ℕ) : ∀ c ∈ hexChars width n, isLowerHex c = true := by
  induction width generalizing n with
  | zero => simp [hexChars]
  | succ _ ih =>
    intro c hc
    rcases mem_append.mp hc with hc | hc
    · exact ih (n / 16) c hc
    · obtain rfl := mem_singleton.mp hc
      have hlt : n % 16 < 16 := mod_lt _ (by omega)
      interval_cases n % 16 <;> decide

theorem hexValue_digitChar {d : ℕ} (h : d < 16) : hexValue (digitChar d) = d := by
  interval_cases d <;> decide

theorem ofHexChars_hexChars (width n : ℕ) : ofHexChars (hexChars width n) = n % 16 ^ width := by
  induction width generalizing n with
  | zero => simp [hexChars, ofHexChars, mod_one]
  | succ _ ih =>
    have hlast := hexValue_digitChar (mod_lt n (by omega))
    have hinit := ih (n / 16)
    unfold ofHexChars at hinit ⊢
    rw [hexChars, foldl_append, foldl_cons, foldl_nil, hinit, hlast, pow_succ', mod_mul]
    omega

theorem hexChar_size {c : Char} (h : isLowerHex c = true) : c.utf8Size = 1 := by
  rw [isLowerHex, or_eq_true, and_eq_true, decide_eq_true_eq, decide_eq_true_eq] at h
  rcases h with h | ⟨-, hle⟩
  · exact digit_size h
  · rw [Char.utf8Size_eq_one_iff]
    exact UInt32.le_trans hle (by decide)

end Tysel.Text
