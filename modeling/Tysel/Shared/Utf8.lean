import Mathlib.Data.String.Basic

/-! UTF-8 encoding of a text, and the decoding that replaces whatever is not UTF-8. -/

namespace Tysel.Text

open List

def utf8 (cs : List Char) : List UInt8 := cs.flatMap String.utf8EncodeChar

def ValidUtf8 (bytes : List UInt8) : Prop := ∃ cs, bytes = utf8 cs

def decodeFirst (bytes : List UInt8) : Option Char := bytes.toByteArray.utf8DecodeChar? 0

def isContinuation (b : UInt8) : Bool := 0x80 ≤ b && b ≤ 0xbf

/-- The byte may follow the first byte of a sequence of three. -/
def isSecondOfThree (lead b : UInt8) : Bool :=
  (lead == 0xe0 && 0xa0 ≤ b && b ≤ 0xbf) || (0xe1 ≤ lead && lead ≤ 0xec && isContinuation b) ||
    (lead == 0xed && 0x80 ≤ b && b ≤ 0x9f) || (0xee ≤ lead && lead ≤ 0xef && isContinuation b)

/-- The byte may follow the first byte of a sequence of four. -/
def isSecondOfFour (lead b : UInt8) : Bool :=
  (lead == 0xf0 && 0x90 ≤ b && b ≤ 0xbf) || (0xf1 ≤ lead && lead ≤ 0xf3 && isContinuation b) ||
    (lead == 0xf4 && 0x80 ≤ b && b ≤ 0x8f)

/-- How many bytes after the first belong to a broken sequence: the longest that could have been
continued to a character. -/
def brokenTail : List UInt8 → ℕ
  | lead :: second :: third :: _ =>
    if isSecondOfThree lead second then 1
    else if isSecondOfFour lead second then (if isContinuation third then 2 else 1)
    else 0
  | [lead, second] => if isSecondOfThree lead second || isSecondOfFour lead second then 1 else 0
  | _ => 0

/-- Decodes a text and puts U+FFFD for every broken sequence. -/
def fromUtf8Lossy : List UInt8 → List Char
  | [] => []
  | b :: bytes =>
    match decodeFirst (b :: bytes) with
    | some c => c :: fromUtf8Lossy (bytes.drop (c.utf8Size - 1))
    | none => '�' :: fromUtf8Lossy (bytes.drop (brokenTail (b :: bytes)))
termination_by bytes => bytes.length
decreasing_by all_goals simp only [List.length_drop, List.length_cons]; omega

theorem decodeFirst_encode (c : Char) (rest : List UInt8) :
    decodeFirst (String.utf8EncodeChar c ++ rest) = some c := by
  rw [decodeFirst, toByteArray_append]
  exact ByteArray.utf8DecodeChar?_utf8EncodeChar_append

theorem fromUtf8Lossy_encode (c : Char) (rest : List UInt8) :
    fromUtf8Lossy (String.utf8EncodeChar c ++ rest) = c :: fromUtf8Lossy rest := by
  have hlength : (String.utf8EncodeChar c).length = c.utf8Size := String.length_utf8EncodeChar c
  have hpos : 0 < c.utf8Size := c.utf8Size_pos
  have hfirst := decodeFirst_encode c rest
  cases hbytes : String.utf8EncodeChar c with
  | nil => rw [hbytes, length_nil] at hlength; omega
  | cons _ bytes =>
    rw [hbytes, length_cons] at hlength
    rw [hbytes, cons_append] at hfirst
    have hdrop : (bytes ++ rest).drop (c.utf8Size - 1) = rest := drop_left' (by omega)
    rw [cons_append, fromUtf8Lossy, hfirst]
    simp only [hdrop]

theorem fromUtf8Lossy_utf8 (cs : List Char) : fromUtf8Lossy (utf8 cs) = cs := by
  induction cs with
  | nil => rw [utf8, flatMap_nil, fromUtf8Lossy]
  | cons c _ ih =>
    rw [utf8, flatMap_cons, fromUtf8Lossy_encode]
    exact congrArg (c :: ·) ih

theorem utf8_fromUtf8Lossy_iff (bytes : List UInt8) :
    utf8 (fromUtf8Lossy bytes) = bytes ↔ ValidUtf8 bytes := by
  constructor
  · intro h
    exact ⟨_, h.symm⟩
  · rintro ⟨-, rfl⟩
    rw [fromUtf8Lossy_utf8]

end Tysel.Text
