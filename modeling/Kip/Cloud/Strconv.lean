import Mathlib

/-!
# Kip.Cloud.Strconv

`strconv.ParseUint(s, 10, bitSize)` as `SortImages` calls it on an image's
version field, with `bitSize = 32`.  The empty string is a syntax error; a
bit size of `0` stands for `strconv.IntSize` (64), and one below `0` or
above `64` is an error with the value `0`.  The digits are read left to
right; the first character that is not a decimal digit stops the parse with
a syntax error and the value `0`, and the first digit that takes the value
past `2^bitSize - 1` stops it with a range error and that maximum.  The
caller ignores the error and keeps the value.

`parseUint_fst` describes the value in one line: `0` for a bit size out of
range, else the maximum when the digits before the first non-digit already
exceed it, else the number a non-empty all-digit string denotes, else `0`.
So a version such as `5000000000x` ranks as `2^32 - 1`, not as `0`.
-/

namespace Kip

/-- The errors `ParseUint` reports. -/
inductive NumError where
  | errSyntax
  | errRange
  | errBitSize
  deriving DecidableEq, Repr

/-- The value of a digit character. -/
def digitVal (c : Char) : Nat := c.toNat - '0'.toNat

/-- The number a list of decimal digits denotes. -/
def decimalValue (cs : List Char) : Nat := cs.foldl (fun n c => n * 10 + digitVal c) 0

/-- The digit loop of `ParseUint` in base 10, from the value `n` read so
far, with `maxVal = 1<<bitSize - 1`.  In Go the loop also stops when
`n * 10` overflows 64 bits; that happens only past `maxVal`, which this
test already catches. -/
def parseUintLoop (maxVal : Nat) : Nat → List Char → Nat × Option NumError
  | n, [] => (n, none)
  | n, c :: cs =>
    if c.isDigit then
      if maxVal < n * 10 + digitVal c then (maxVal, some .errRange)
      else parseUintLoop maxVal (n * 10 + digitVal c) cs
    else (0, some .errSyntax)

/-- `strconv.IntSize`, on the 64-bit platforms Kip runs on. -/
def intSize : Nat := 64

/-- `strconv.ParseUint(s, 10, bitSize)`: the empty string is checked
first, then the bit size (`0` meaning `IntSize`), then the digits. -/
def parseUint (s : String) (bitSize : Int) : Nat × Option NumError :=
  if s = "" then (0, some .errSyntax)
  else if bitSize < 0 ∨ 64 < bitSize then (0, some .errBitSize)
  else parseUintLoop (2 ^ (if bitSize = 0 then intSize else bitSize.toNat) - 1) 0 s.data

theorem le_foldl_digits (cs : List Char) (n : Nat) :
    n ≤ cs.foldl (fun n c => n * 10 + digitVal c) n := by
  induction cs generalizing n with
  | nil => exact le_rfl
  | cons c cs ih => exact le_trans (show n ≤ n * 10 + digitVal c by omega) (ih _)

/-- The loop from a value within range, in closed form. -/
theorem parseUintLoop_fst (maxVal : Nat) (cs : List Char) {n : Nat} (hn : n ≤ maxVal) :
    (parseUintLoop maxVal n cs).1 =
      if maxVal < (cs.takeWhile Char.isDigit).foldl (fun n c => n * 10 + digitVal c) n then maxVal
      else if cs.all Char.isDigit then cs.foldl (fun n c => n * 10 + digitVal c) n else 0 := by
  induction cs generalizing n with
  | nil => simp [parseUintLoop, Nat.not_lt.mpr hn]
  | cons c cs ih =>
    by_cases hc : c.isDigit
    · by_cases hover : maxVal < n * 10 + digitVal c
      · have := le_foldl_digits (cs.takeWhile Char.isDigit) (n * 10 + digitVal c)
        simp [parseUintLoop, hc, hover, List.takeWhile_cons, show maxVal < _ from
          lt_of_lt_of_le hover this]
      · simp [parseUintLoop, hc, hover, List.takeWhile_cons, ih (Nat.le_of_not_lt hover)]
    · simp [parseUintLoop, hc, List.takeWhile_cons, Nat.not_lt.mpr hn]

/-- The value `ParseUint(s, 10, bitSize)` returns: `0` for a bit size out
of range; otherwise, with `64` bits for a bit size of `0`, the maximum when
the digits before the first non-digit exceed it, else the number a
non-empty all-digit string denotes, else `0`. -/
theorem parseUint_fst (s : String) (bitSize : Int) :
    (parseUint s bitSize).1 =
      if bitSize < 0 ∨ 64 < bitSize then 0
      else if 2 ^ (if bitSize = 0 then 64 else bitSize.toNat) - 1 <
          decimalValue (s.data.takeWhile Char.isDigit) then
        2 ^ (if bitSize = 0 then 64 else bitSize.toNat) - 1
      else if s ≠ "" ∧ s.data.all Char.isDigit then decimalValue s.data else 0 := by
  unfold parseUint
  by_cases hs : s = ""
  · subst hs; simp [decimalValue]
  · by_cases hb : bitSize < 0 ∨ 64 < bitSize
    · simp only [if_neg hs, if_pos hb]
    · rw [if_neg hs, if_neg hb, if_neg hb, parseUintLoop_fst _ _ (Nat.zero_le _)]
      simp [hs, decimalValue, intSize]

end Kip
