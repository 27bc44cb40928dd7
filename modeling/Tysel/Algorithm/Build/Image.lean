import Mathlib.Data.List.Infix
import Tysel.Shared.Bytes
import Tysel.Shared.Chars
import Tysel.Shared.Except
import Tysel.Shared.Utf8

/-! The inspection of an ELF file, with the checks that the language makes of its additions and
accesses. `usize` has 64 bits. -/

namespace Tysel.Build

open Tysel.Bytes Tysel.Text

inductive Stop where
  | error (text : String)
  | overflow
  | outOfRange

/-- What `fs::read` returns: no vector is longer than `isize::MAX`. -/
abbrev ByteVec := { bytes : List UInt8 // bytes.length < 2 ^ 63 }

variable (path : String) (bytes : List UInt8) (offset : ℕ) (enforceDefaultGlibc : Bool)

def byteAt : Except Stop UInt8 := require bytes[offset]? .outOfRange

/-- A slice that is there has `width` bytes, so that it converts to an array. -/
def readUnsigned (width : ℕ) : Except Stop ℕ := do
  reject (2 ^ 64 ≤ offset + width) .overflow
  reject (bytes.length < offset + width) (.error "truncated ELF header")
  return ofLeBytes (window bytes offset width)

def readU16 : Except Stop ℕ := readUnsigned bytes offset 2

def readU32 : Except Stop ℕ := readUnsigned bytes offset 4

def readU64 : Except Stop ℕ := readUnsigned bytes offset 8

/-- The turn of the loop for the entry at `offset`. -/
def validateEntry : Except Stop Unit := do
  if (← readU32 bytes offset) ≠ 3 then return
  reject (2 ^ 64 ≤ offset + 8) .overflow
  let stringOffset ← readU64 bytes (offset + 8)
  reject (2 ^ 64 ≤ offset + 32) .overflow
  let stringLen ← readU64 bytes (offset + 32)
  let stop := stringOffset + stringLen
  reject (2 ^ 64 ≤ stop ∨ bytes.length < stop) (.error s!"{path} has a truncated ELF interpreter")
  reject (stop < stringOffset ∨ bytes.length < stop) .outOfRange
  let interpreter := fromUtf8Lossy (window bytes stringOffset stringLen)
  reject (enforceDefaultGlibc = true ∧ ¬ "ld-linux".toList <:+: interpreter)
    (.error (s!"{path} uses interpreter '" ++
      String.ofList (trimEndMatches (· = Char.ofNat 0) interpreter) ++
      "', incompatible with the default glibc distroless image"))

def validateInterpreter : Except Stop Unit := do
  let programOffset ← readU64 bytes 32
  let entrySize ← readU16 bytes 54
  let entryCount ← readU16 bytes 56
  reject (0 < entryCount ∧ entrySize < 56)
    (.error s!"{path} has an invalid ELF program header size")
  (List.range entryCount).forM fun index => do
    let offset := programOffset + min (index * entrySize) (2 ^ 64 - 1)
    reject (2 ^ 64 ≤ offset) (.error s!"{path} has an invalid ELF program table")
    validateEntry path bytes offset enforceDefaultGlibc

def platformOf : ℕ → Except Stop String
  | 62 => .ok "linux/amd64"
  | 183 => .ok "linux/arm64"
  | machine => .error (.error
      s!"{path} uses unsupported ELF machine {machine}; expected x86_64 or aarch64")

def validateLinuxExecutable (bytes : ByteVec) : Except Stop String := do
  reject (bytes.val.length < 64 ∨ ¬ [0x7f, 0x45, 0x4c, 0x46] <+: bytes.val)
    (.error s!"{path} is not a Linux ELF executable")
  reject ((← byteAt bytes 4) ≠ 2 ∨ (← byteAt bytes 5) ≠ 1)
    (.error s!"{path} must be a 64-bit little-endian Linux ELF executable")
  let elfType ← readU16 bytes 16
  reject (elfType ≠ 2 ∧ elfType ≠ 3) (.error s!"{path} is not an executable or PIE ELF file")
  let platform ← platformOf path (← readU16 bytes 18)
  validateInterpreter path bytes enforceDefaultGlibc
  return platform

end Tysel.Build
