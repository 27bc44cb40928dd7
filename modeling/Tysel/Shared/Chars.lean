import Mathlib.Data.List.Basic

/-! The trimming and splitting functions of a text, as Rust's `str` has them. -/

namespace Tysel.Text

/-- `char::is_whitespace`. -/
def isWhitespace (c : Char) : Bool :=
  let n := c.toNat
  (9 ≤ n && n ≤ 13) || n = 0x20 || n = 0x85 || n = 0xa0 || n = 0x1680 ||
    (0x2000 ≤ n && n ≤ 0x200a) || n = 0x2028 || n = 0x2029 || n = 0x202f || n = 0x205f ||
    n = 0x3000

def trimEndMatches (p : Char → Bool) (cs : List Char) : List Char :=
  (cs.reverse.dropWhile p).reverse

def trim (cs : List Char) : List Char := trimEndMatches isWhitespace (cs.dropWhile isWhitespace)

/-- `str::split_once` at a character. -/
def splitOnce (c : Char) : List Char → Option (List Char × List Char)
  | [] => none
  | x :: xs =>
    if x = c then some ([], xs)
    else (splitOnce c xs).map fun parts => (x :: parts.1, parts.2)

def rsplitOnce (c : Char) (cs : List Char) : Option (List Char × List Char) :=
  (splitOnce c cs.reverse).map fun parts => (parts.2.reverse, parts.1.reverse)

def stripPrefix (lead : String) (cs : List Char) : Option (List Char) :=
  if lead.toList.isPrefixOf cs then some (cs.drop lead.toList.length) else none

def startsWith (cs : List Char) (lead : String) : Bool := lead.toList.isPrefixOf cs

theorem startsWith_of_stripPrefix {lead : String} {cs rest : List Char}
    (h : stripPrefix lead cs = some rest) : startsWith cs lead = true := by
  unfold stripPrefix at h
  split at h
  · assumption
  · cases h

/-- A text starts with at most one of two leads that differ in their first character. -/
theorem not_startsWith_of_head_ne {cs : List Char} {first second : String} {a b : Char}
    (hfirst : startsWith cs first = true) (ha : first.toList.head? = some a)
    (hb : second.toList.head? = some b) (hne : a ≠ b) : startsWith cs second = false := by
  unfold startsWith at *
  cases cs with
  | nil => cases hs : second.toList with
      | nil => simp [hs] at hb
      | cons => rfl
  | cons c =>
    cases hs : first.toList with
    | nil => simp [hs] at ha
    | cons =>
      cases ht : second.toList with
      | nil => simp [ht] at hb
      | cons y =>
        simp only [hs, ht, List.head?_cons, Option.some.injEq, List.isPrefixOf_cons_cons,
          Bool.and_eq_true, beq_iff_eq] at hfirst ha hb ⊢
        have hy : y ≠ c := fun h => hne (ha.symm.trans (hfirst.1.trans (h.symm.trans hb)))
        simp [hy]

/-- `str::to_ascii_lowercase`. -/
def asciiLowercase (s : String) : String := String.ofList (s.toList.map Char.toLower)

/-- `str::to_ascii_uppercase`. -/
def asciiUppercase (s : String) : String := String.ofList (s.toList.map Char.toUpper)

end Tysel.Text
