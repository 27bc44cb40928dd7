import Mathlib.Tactic.Ring

/-! Little-endian numbers and windows of a byte string. -/

namespace Tysel.Bytes

open List

/-- The `width` low bytes of a number, the lowest first. -/
def leBytes : ℕ → ℕ → List UInt8
  | 0, _ => []
  | width + 1, n => UInt8.ofNat (n % 256) :: leBytes width (n / 256)

def ofLeBytes : List UInt8 → ℕ
  | [] => 0
  | b :: bytes => b.toNat + 256 * ofLeBytes bytes

@[simp] theorem leBytes_length (width n : ℕ) : (leBytes width n).length = width := by
  induction width generalizing n with
  | zero => rfl
  | succ _ ih => rw [leBytes, length_cons, ih]

theorem ofLeBytes_leBytes {width n : ℕ} (h : n < 256 ^ width) :
    ofLeBytes (leBytes width n) = n := by
  induction width generalizing n with
  | zero =>
    rw [pow_zero] at h
    rw [leBytes, ofLeBytes]
    omega
  | succ width ih =>
    have hrest : n / 256 < 256 ^ width := by
      rw [pow_succ] at h
      exact Nat.div_lt_of_lt_mul (by omega)
    have hlow : (UInt8.ofNat (n % 256)).toNat = n % 256 := by
      rw [UInt8.toNat_ofNat']
      omega
    rw [leBytes, ofLeBytes, ih hrest, hlow]
    omega

theorem ofLeBytes_lt (bytes : List UInt8) : ofLeBytes bytes < 256 ^ bytes.length := by
  induction bytes with
  | nil => exact Nat.one_pos
  | cons b bytes ih =>
    have hb := b.toNat_lt
    rw [ofLeBytes, length_cons, pow_succ]
    omega

def textBytes (text : String) : List UInt8 := text.toByteArray.data.toList

theorem textBytes_length (text : String) : (textBytes text).length = text.utf8ByteSize := by
  rw [textBytes, Array.length_toList]
  rfl

def window (bytes : List UInt8) (start n : ℕ) : List UInt8 := (bytes.drop start).take n

theorem window_append {l r : List UInt8} {start n : ℕ} (h : start + n ≤ l.length) :
    window (l ++ r) start n = window l start n := by
  rw [window, window, drop_append_of_le_length (by omega),
    take_append_of_le_length (by rw [length_drop]; omega)]

theorem window_middle (front bytes back : List UInt8) :
    window (front ++ bytes ++ back) front.length bytes.length = bytes := by
  rw [window, append_assoc, drop_left, take_left]

end Tysel.Bytes
