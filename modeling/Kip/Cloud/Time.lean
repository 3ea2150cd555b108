import Kip.Cloud.Strconv
import Kip.Cloud.BootImageTags

/-!
# Kip.Cloud.Time

`BootImageTags.Timestamp`: `time.Parse("20060102 150405", date + " " +
time)`.  Go's parser is modelled for this one layout, chunk by chunk: a
four-digit year, two-digit month (1 to 12) and day, the literal space
(which matches a run of spaces), an hour of one or two digits below 24, a
two-digit minute and second below 60, then an optional fractional second
(`.` or `,` and digits, of which nine count) that Go accepts although the
layout has none.  Nothing may follow, and the day must exist in its month.
The result is the instant in UTC, as nanoseconds since the Unix epoch;
`time.Time.Before` compares exactly these.
-/

namespace Kip

namespace Time

/-- `getnum(s, fixed)`: two digits, or one when `fixed` is false and the
next character is not a digit. -/
def getnum (s : List Char) (fixed : Bool) : Option (Nat × List Char) :=
  match s with
  | c₀ :: c₁ :: rest =>
    if c₀.isDigit then
      if c₁.isDigit then some (digitVal c₀ * 10 + digitVal c₁, rest)
      else if fixed then none else some (digitVal c₀, c₁ :: rest)
    else none
  | [c₀] => if c₀.isDigit && !fixed then some (digitVal c₀, []) else none
  | [] => none

/-- `stdLongYear`: exactly four digits. -/
def longYear (s : List Char) : Option (Nat × List Char) :=
  match s with
  | a :: b :: c :: d :: rest =>
    if [a, b, c, d].all Char.isDigit then some (decimalValue [a, b, c, d], rest) else none
  | _ => none

/-- `skip(value, " ")`: a space of the layout matches a run of spaces, and
an exhausted value passes. -/
def skipSpace (s : List Char) : Option (List Char) :=
  match s with
  | [] => some []
  | c :: _ => if c = ' ' then some (s.dropWhile (· = ' ')) else none

/-- `parseNanoseconds`: the first nine digits of a fraction, scaled to
nanoseconds. -/
def fracNanos (digits : List Char) : Nat :=
  decimalValue (digits.take 9) * 10 ^ (9 - (digits.take 9).length)

/-- The fractional second after `05`: a `.` or `,` followed by a digit
starts one, which runs to the last digit. -/
def fracSecond (s : List Char) : Nat × List Char :=
  match s with
  | sep :: c :: rest =>
    if (sep = '.' ∨ sep = ',') ∧ c.isDigit then
      (fracNanos ((c :: rest).takeWhile Char.isDigit), (c :: rest).dropWhile Char.isDigit)
    else (0, s)
  | _ => (0, s)

/-- `isLeap(year)`. -/
def isLeap (year : Nat) : Bool := year % 4 = 0 ∧ (year % 100 ≠ 0 ∨ year % 400 = 0)

/-- `daysIn(month, year)`. -/
def daysIn (month year : Nat) : Nat :=
  if month = 2 then (if isLeap year then 29 else 28)
  else if month = 4 ∨ month = 6 ∨ month = 9 ∨ month = 11 then 30 else 31

/-- Days from 1970-01-01 to a date of the proleptic Gregorian calendar. -/
def daysFromCivil (year month day : Nat) : Int :=
  let y : Int := if month ≤ 2 then (year : Int) - 1 else year
  let era := Int.fdiv y 400
  let yoe := y - era * 400
  let doy : Int := (153 * ((month + 9) % 12) + 2) / 5 + day - 1
  era * 146097 + yoe * 365 + yoe / 4 - yoe / 100 + doy - 719468

/-- `time.Parse("20060102 150405", value)`: the instant in nanoseconds
since the Unix epoch, or `none` on a parse error.  The chunks are read in
the layout's order, each test where Go makes it. -/
def parse (value : String) : Option Int :=
  match longYear value.data with
  | none => none
  | some (year, v) =>
  match getnum v true with
  | none => none
  | some (month, v) =>
  if ¬ (1 ≤ month ∧ month ≤ 12) then none else
  match getnum v true with
  | none => none
  | some (day, v) =>
  match skipSpace v with
  | none => none
  | some v =>
  match getnum v false with
  | none => none
  | some (hour, v) =>
  if ¬ hour < 24 then none else
  match getnum v true with
  | none => none
  | some (min, v) =>
  if ¬ min < 60 then none else
  match getnum v true with
  | none => none
  | some (sec, v) =>
  if ¬ sec < 60 then none else
  match fracSecond v with
  | (nsec, v) =>
  if ¬ v = [] then none else
  if ¬ (1 ≤ day ∧ day ≤ daysIn month year) then none else
  some (((daysFromCivil year month day * 86400 + hour * 3600 + min * 60 + sec) * 1000000000
    + nsec : Int))

end Time

/-- `bit.Timestamp()`. -/
def BootImageTags.timestamp (bit : BootImageTags) : Option Int :=
  Time.parse (bit.date ++ " " ++ bit.time)

end Kip
