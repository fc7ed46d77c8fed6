import Mathlib.Algebra.Order.Ring.Int
import Mathlib.Data.List.Basic
/-!
# Base — UTF-8 helpers

The model of `utf8_trunc`, `utf8_lcpy` and `utf8_count_chars` of `utils.c`. A
pointer is what memory holds from it on; reading or writing behind that is
`none`.
-/

namespace OpenBlue

namespace Utf8

/-- Memory. -/
abbrev Bytes := List UInt8

/-- `ASCII_CHAR`. -/
def asciiChar : UInt8 := 0x7f

/-- `SEQUENCE_FIRST_MASK`. -/
def sequenceFirstMask : UInt8 := 0xc0

/-- `SEQUENCE_LEN_2_BYTE`. -/
def sequenceLen2Byte : UInt8 := 0xc0

/-- `SEQUENCE_LEN_3_BYTE`. -/
def sequenceLen3Byte : UInt8 := 0xe0

/-- `SEQUENCE_LEN_4_BYTE`. -/
def sequenceLen4Byte : UInt8 := 0xf0

/-- `MSB_SET`. -/
def msbSet : UInt8 := 0x80

/-- `-EINVAL`. -/
def einval : Int32 := -22

/-! ## `string.h` -/

/-- `strlen`. -/
def strlen (str : Bytes) : Option ℕ := str.findIdx? (· = 0)

/-- `strncpy`. Behind the end of `src` NUL bytes are written. -/
def strncpy : Bytes → Bytes → ℕ → Option Bytes
  | dst, _, 0 => some dst
  | _ :: dst, b :: src, n + 1 => (strncpy dst (if b = 0 then [0] else src) n).map (b :: ·)
  | _, _, _ + 1 => none

/-- `dst[i] = b`. -/
def store (dst : Bytes) (i : ℕ) (b : UInt8) : Option Bytes :=
  if i < dst.length then some (dst.set i b) else none

/-! ## `utils.c` -/

/-- The loop of `utf8_trunc` that looks for the starting byte: where it stops,
and `bytes_truncated`. -/
def findStart (str : Bytes) : ℕ → UInt8 → ℕ × UInt8
  | 0, truncated => (0, truncated)
  | i + 1, truncated =>
    if str.getD (i + 1) 0 &&& sequenceFirstMask ≠ sequenceFirstMask then
      findStart str i (truncated + 1)
    else (i + 1, truncated)

/-- The last sequence has as many bytes as its starting byte says. -/
def lastComplete (seqStartByte bytesTruncated : UInt8) : Bool :=
  if seqStartByte &&& sequenceLen4Byte = sequenceLen4Byte then bytesTruncated = 4
  else if seqStartByte &&& sequenceLen3Byte = sequenceLen3Byte then bytesTruncated = 3
  else if seqStartByte &&& sequenceLen2Byte = sequenceLen2Byte then bytesTruncated = 2
  else false

/-- `utf8_trunc`. -/
def utf8Trunc (str : Bytes) : Option Bytes := do
  let len ← strlen str
  if len = 0 then return str
  let last := str.getD (len - 1) 0
  if last &&& asciiChar = last then return str
  let (start, truncated) := findStart str (len - 1) 0
  if lastComplete (str.getD start 0) (truncated + 1) then return str
  return str.set start 0

/-- `utf8_lcpy`. -/
def utf8Lcpy (dst src : Bytes) (n : ℕ) : Option Bytes :=
  if n > 0 then do
    let dst ← strncpy dst src (n - 1)
    let dst ← store dst (n - 1) 0
    if n ≠ 1 then utf8Trunc dst else return dst
  else return dst

/-- A byte that goes on with a sequence. -/
def continues (b : UInt8) : Bool := b &&& sequenceFirstMask = msbSet

/-- The loop of `utf8_count_chars`. A byte is read only where the one before it
did not end the search. -/
def countLoop (count : Int32) : Bytes → Option Int32
  | [] => none
  | b :: p =>
    if b = 0 then some count
    else if b &&& msbSet = 0 then countLoop (count + 1) p
    else if b &&& sequenceLen3Byte = sequenceFirstMask then
      match p with
      | [] => none
      | b₁ :: p => if continues b₁ then countLoop (count + 1) p else some einval
    else if b &&& sequenceLen4Byte = sequenceLen3Byte then
      match p with
      | [] => none
      | b₁ :: p =>
        if continues b₁ then
          match p with
          | [] => none
          | b₂ :: p => if continues b₂ then countLoop (count + 1) p else some einval
        else some einval
    else if b &&& 0xf8 = sequenceLen4Byte then
      match p with
      | [] => none
      | b₁ :: p =>
        if continues b₁ then
          match p with
          | [] => none
          | b₂ :: p =>
            if continues b₂ then
              match p with
              | [] => none
              | b₃ :: p => if continues b₃ then countLoop (count + 1) p else some einval
            else some einval
        else some einval
    else some einval

/-- `utf8_count_chars`. -/
def utf8CountChars (s : Bytes) : Option Int32 := countLoop 0 s

end Utf8

end OpenBlue
