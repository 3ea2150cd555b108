import Kip.Cloud.Time

/-!
# Kip.Cloud.Timestamp

What `Timestamp` computes on the names of `kip` images, whose date and
time fields are `YYYYMMDD` and `HHMMSS`.

The calendar is stated by counting: the days before a year are the lengths
of the years before it, the days before a month the lengths of the months
before it (`civilDays`).  `daysFromCivil`, the era arithmetic of the model,
agrees with the count on every date (`daysFromCivil_eq_civilDays`).

A `DateTime` carries the bounds of a valid date and time of day, so only
valid ones can be built.  The text it is written as parses to its Unix time
(`parse_canonical`), and two Unix times compare as the fourteen-digit
numbers their date and time fields spell (`timestamp_canonical`): the
order `SortImages` gives equal versions is the order of their names' dates
and times read as numbers.  Conversely, the parser accepts exactly the
text of a valid date-time, with any run of spaces between its fields and
an optional fraction of a second, and returns that date-time's Unix time
plus the fraction (`parse_eq_some_iff`).
-/

namespace Kip

namespace Time

/-! ## The calendar by counting -/

/-- The days of `year`. -/
def yearLength (year : Nat) : Nat := if isLeap year then 366 else 365

/-- The days of the years before `year`, from year `0`. -/
def daysBeforeYear (year : Nat) : Nat := ((List.range year).map yearLength).sum

/-- The days of the months of `year` before `month`. -/
def daysBeforeMonth (year : Nat) : Nat → Nat
  | 0 => 0
  | 1 => 0
  | m + 2 => daysBeforeMonth year (m + 1) + daysIn (m + 1) year

/-- The days from 1970-01-01 to a date, counted. -/
def civilDays (year month day : Nat) : Int :=
  (daysBeforeYear year : Int) + daysBeforeMonth year month + day - 1 - daysBeforeYear 1970

/-- The leap years among `1, …, z` by the Gregorian rule (`0` for `z = -1`). -/
def leapsThrough (z : Int) : Int := z / 4 - z / 100 + z / 400

theorem leapsThrough_natCast (y : Nat) :
    leapsThrough y = leapsThrough (y - 1 : Int) + if isLeap y then 1 else 0 := by
  unfold leapsThrough isLeap
  split_ifs with h <;> simp only [decide_eq_true_eq] at h <;> omega

theorem daysBeforeYear_succ (y : Nat) :
    daysBeforeYear (y + 1) = daysBeforeYear y + yearLength y := by
  simp [daysBeforeYear, List.range_succ]

/-- The days before a year in closed form. -/
theorem daysBeforeYear_eq (y : Nat) :
    (daysBeforeYear y : Int) = 365 * y + leapsThrough (y - 1 : Int) + 1 := by
  induction y with
  | zero => rfl
  | succ y ih =>
    rw [daysBeforeYear_succ]
    push_cast
    rw [ih, add_sub_cancel_right, leapsThrough_natCast y, yearLength]
    split_ifs <;> push_cast <;> ring

/-- `daysFromCivil` with its era arithmetic folded: `365` days a year and
one per leap year, the year starting in March. -/
theorem daysFromCivil_eq (y m d : Nat) :
    daysFromCivil y m d =
      365 * (if m ≤ 2 then (y - 1 : Int) else y) +
        leapsThrough (if m ≤ 2 then (y - 1 : Int) else y) +
        (153 * ((m + 9) % 12 : Nat) + 2) / 5 + d - 1 - 719468 := by
  simp only [daysFromCivil, leapsThrough,
    Int.fdiv_eq_ediv _ (show (0 : Int) ≤ 400 by norm_num)]
  split_ifs <;> push_cast <;> omega

/-- The days before a month depend on the year only through whether it is a
leap year. -/
theorem daysBeforeMonth_congr {y y' : Nat} (h : isLeap y = isLeap y') :
    ∀ m, daysBeforeMonth y m = daysBeforeMonth y' m
  | 0 => rfl
  | 1 => rfl
  | m + 2 => by
    rw [daysBeforeMonth, daysBeforeMonth, daysBeforeMonth_congr h (m + 1), daysIn, daysIn, h]

/-- The days before a month against the March-based count of
`daysFromCivil`: January and February close the previous year. -/
theorem daysBeforeMonth_eq_doy (y : Nat) {m : Nat} (h1 : 1 ≤ m) (h2 : m ≤ 12) :
    (daysBeforeMonth y m : Int) = (153 * ((m + 9) % 12 : Nat) + 2) / 5 +
      if m ≤ 2 then -306 else 59 + if isLeap y then 1 else 0 := by
  -- the months of the leap year `0` and of the common year `1`
  have hmonths : ∀ b : Bool, ∀ m < 13, 1 ≤ m →
      (daysBeforeMonth (if b then 0 else 1) m : Int) = (153 * ((m + 9) % 12 : Nat) + 2) / 5 +
        if m ≤ 2 then -306 else 59 + if b then 1 else 0 := by decide
  rw [← daysBeforeMonth_congr (y := if isLeap y then 0 else 1) (by cases isLeap y <;> rfl)]
  exact hmonths (isLeap y) m (by omega) h1

/-- The era arithmetic counts the days of the calendar. -/
theorem daysFromCivil_eq_civilDays (y m d : Nat) (h1 : 1 ≤ m) (h2 : m ≤ 12) :
    daysFromCivil y m d = civilDays y m d := by
  have h1970 : (daysBeforeYear 1970 : Int) = 719528 := by rw [daysBeforeYear_eq]; rfl
  rw [daysFromCivil_eq, civilDays, h1970, daysBeforeYear_eq, daysBeforeMonth_eq_doy y h1 h2]
  have hl := leapsThrough_natCast y
  split_ifs at hl ⊢ <;> omega

/-! ## Order of days -/

theorem daysBeforeMonth_succ (y : Nat) {m : Nat} (h : 1 ≤ m) :
    daysBeforeMonth y (m + 1) = daysBeforeMonth y m + daysIn m y := by
  obtain ⟨k, rfl⟩ := Nat.exists_eq_add_of_le' h
  rfl

theorem daysBeforeMonth_le {y m m' : Nat} (h1 : 1 ≤ m) (h : m < m') :
    daysBeforeMonth y m + daysIn m y ≤ daysBeforeMonth y m' := by
  induction m', h using Nat.le_induction with
  | base => rw [daysBeforeMonth_succ y h1]
  | succ m' hm ih => rw [daysBeforeMonth_succ y (by omega)]; omega

/-- The twelve months fill the year. -/
theorem daysBeforeMonth_thirteen (y : Nat) : daysBeforeMonth y 13 = yearLength y := by
  simp only [daysBeforeMonth, daysIn, yearLength, reduceIte, Nat.reduceEqDiff, or_self,
    or_false, false_or, or_true, true_or, if_false, if_true]
  split_ifs <;> rfl

theorem daysBeforeYear_le {y y' : Nat} (h : y < y') :
    daysBeforeYear y + yearLength y ≤ daysBeforeYear y' := by
  induction y', h using Nat.le_induction with
  | base => rw [daysBeforeYear_succ]
  | succ y' _ ih => rw [daysBeforeYear_succ]; omega

/-! ## Date-times and their text -/

/-- The character of a decimal digit. -/
def digit (n : Nat) : Char := Char.ofNat (48 + n)

theorem isDigit_digit {n : Nat} (h : n < 10) : (digit n).isDigit = true := by
  interval_cases n <;> rfl

theorem digitVal_digit {n : Nat} (h : n < 10) : digitVal (digit n) = n := by
  interval_cases n <;> rfl

theorem digit_ne_space {n : Nat} (h : n < 10) : digit n ≠ ' ' := by
  interval_cases n <;> decide

theorem daysIn_le (month year : Nat) : daysIn month year ≤ 31 := by
  unfold daysIn; split_ifs <;> omega

/-- Two digits, zero-padded. -/
def pad2 (n : Nat) : List Char := [digit (n / 10), digit (n % 10)]

/-- Four digits, zero-padded. -/
def pad4 (n : Nat) : List Char :=
  [digit (n / 1000), digit (n / 100 % 10), digit (n / 10 % 10), digit (n % 10)]

/-- A date and time of day as the names of images write them, within the
bounds `time.Parse` checks. -/
structure DateTime where
  year : Nat
  month : Nat
  day : Nat
  hour : Nat
  minute : Nat
  second : Nat
  year_lt : year < 10000
  month_pos : 1 ≤ month
  month_le : month ≤ 12
  day_pos : 1 ≤ day
  day_le : day ≤ daysIn month year
  hour_lt : hour < 24
  minute_lt : minute < 60
  second_lt : second < 60

namespace DateTime

/-- The date field, `YYYYMMDD`. -/
def date (t : DateTime) : String := ⟨pad4 t.year ++ pad2 t.month ++ pad2 t.day⟩

/-- The time field, `HHMMSS`. -/
def time (t : DateTime) : String := ⟨pad2 t.hour ++ pad2 t.minute ++ pad2 t.second⟩

/-- The instant in nanoseconds since the Unix epoch, by the counted
calendar. -/
def unixNanos (t : DateTime) : Int :=
  (civilDays t.year t.month t.day * 86400 + t.hour * 3600 + t.minute * 60 + t.second) * 1000000000

/-- The number the fourteen digits of the date and time spell. -/
def code (t : DateTime) : Nat :=
  ((((t.year * 100 + t.month) * 100 + t.day) * 100 + t.hour) * 100 + t.minute) * 100 + t.second

/-- The bounds of the fields, with the day's bound made uniform. -/
theorem bounds (t : DateTime) :
    t.month ≤ 12 ∧ t.day ≤ 31 ∧ t.hour < 24 ∧ t.minute < 60 ∧ t.second < 60 :=
  ⟨t.month_le, t.day_le.trans (daysIn_le _ _), t.hour_lt, t.minute_lt, t.second_lt⟩

end DateTime

@[simp] theorem length_pad2 (n : Nat) : (pad2 n).length = 2 := rfl

@[simp] theorem length_pad4 (n : Nat) : (pad4 n).length = 4 := rfl

theorem getnum_pad2 {n : Nat} (h : n < 100) (fixed : Bool) (rest : List Char) :
    getnum (pad2 n ++ rest) fixed = some (n, rest) := by
  have h₁ : n / 10 < 10 := by omega
  have h₂ : n % 10 < 10 := Nat.mod_lt _ (by norm_num)
  simp only [pad2, List.cons_append, List.nil_append, getnum, isDigit_digit h₁, isDigit_digit h₂,
    if_true, digitVal_digit h₁, digitVal_digit h₂, Option.some.injEq, Prod.mk.injEq, and_true]
  omega

theorem longYear_pad4 {n : Nat} (h : n < 10000) (rest : List Char) :
    longYear (pad4 n ++ rest) = some (n, rest) := by
  have h₁ : n / 1000 < 10 := by omega
  have h₂ : n / 100 % 10 < 10 := Nat.mod_lt _ (by norm_num)
  have h₃ : n / 10 % 10 < 10 := Nat.mod_lt _ (by norm_num)
  have h₄ : n % 10 < 10 := Nat.mod_lt _ (by norm_num)
  simp only [pad4, List.cons_append, List.nil_append, longYear, List.all_cons, List.all_nil,
    isDigit_digit h₁, isDigit_digit h₂, isDigit_digit h₃, isDigit_digit h₄, Bool.and_self,
    if_true, decimalValue, List.foldl, digitVal_digit h₁, digitVal_digit h₂, digitVal_digit h₃,
    digitVal_digit h₄, Option.some.injEq, Prod.mk.injEq, and_true]
  omega

/-- A run of spaces before a two-digit number is skipped. -/
theorem skipSpace_spaces {n : Nat} (h : n < 100) (k : Nat) (rest : List Char) :
    skipSpace (' ' :: (List.replicate k ' ' ++ (pad2 n ++ rest))) = some (pad2 n ++ rest) := by
  have hd := digit_ne_space (show n / 10 < 10 by omega)
  simp only [skipSpace, if_true]
  induction k with
  | zero => simp [pad2, hd]
  | succ k ih => simpa [List.replicate_succ] using ih

/-- The text of a date-time, with a run of spaces between its fields and a
tail `frac`, parses as far as the fraction reader reads the tail. -/
theorem parse_text (t : DateTime) (k : Nat) (frac : List Char) :
    parse ⟨t.date.data ++ ' ' :: (List.replicate k ' ' ++ t.time.data ++ frac)⟩ =
      if (fracSecond frac).2 = [] then some (t.unixNanos + (fracSecond frac).1) else none := by
  have hdata : t.date.data ++ ' ' :: (List.replicate k ' ' ++ t.time.data ++ frac) =
      pad4 t.year ++ (pad2 t.month ++ (pad2 t.day ++ ' ' :: (List.replicate k ' ' ++
        (pad2 t.hour ++ (pad2 t.minute ++ (pad2 t.second ++ frac)))))) := by
    simp [DateTime.date, DateTime.time]
  obtain ⟨hmonth, hday, hhour, hminute, hsecond⟩ : t.month < 100 ∧ t.day < 100 ∧
      t.hour < 100 ∧ t.minute < 100 ∧ t.second < 100 := by
    have := t.bounds; omega
  simp only [parse, hdata, longYear_pad4 t.year_lt, getnum_pad2 hmonth, getnum_pad2 hday,
    skipSpace_spaces hhour, getnum_pad2 hhour, getnum_pad2 hminute, getnum_pad2 hsecond,
    t.month_pos, t.month_le, t.day_pos, t.hour_lt, t.minute_lt, t.second_lt, t.day_le]
  obtain ⟨nsec, v⟩ := fracSecond frac
  by_cases hv : v = [] <;>
    simp [hv, DateTime.unixNanos, daysFromCivil_eq_civilDays _ _ _ t.month_pos t.month_le]

/-- The text of a date-time parses to its Unix time. -/
theorem parse_canonical (t : DateTime) :
    parse (t.date ++ " " ++ t.time) = some t.unixNanos := by
  have h := parse_text t 0 []
  simp only [fracSecond, if_true, Nat.cast_zero, add_zero] at h
  rw [← h]
  congr 1

/-! ## Order -/

/-- A date's day count from year `0`, one-based. -/
def DateTime.dayIndex (t : DateTime) : Nat :=
  daysBeforeYear t.year + daysBeforeMonth t.year t.month + t.day

/-- A month's days fit in its year. -/
theorem daysBeforeMonth_add_le_yearLength (t : DateTime) :
    daysBeforeMonth t.year t.month + t.day ≤ yearLength t.year := by
  have := @daysBeforeMonth_le t.year _ 13 t.month_pos (Nat.lt_succ_of_le t.month_le)
  rw [daysBeforeMonth_thirteen] at this
  have := t.day_le
  omega

/-- Earlier dates have smaller day counts. -/
theorem dayIndex_lt {s t : DateTime} (h : s.year < t.year ∨ s.year = t.year ∧
    (s.month < t.month ∨ s.month = t.month ∧ s.day < t.day)) : s.dayIndex < t.dayIndex := by
  unfold DateTime.dayIndex
  have := t.day_pos
  rcases h with hy | ⟨hy, hm | ⟨hm, hd⟩⟩
  · have := daysBeforeYear_le hy
    have := daysBeforeMonth_add_le_yearLength s
    omega
  · have := @daysBeforeMonth_le s.year _ _ s.month_pos hm
    have := s.day_le
    rw [hy] at *
    omega
  · rw [hy, hm]; omega

theorem civilDays_eq_dayIndex (t : DateTime) :
    civilDays t.year t.month t.day = t.dayIndex - 1 - daysBeforeYear 1970 := by
  simp [civilDays, DateTime.dayIndex]

/-- A later date, or a later time on the same date, is a later instant. -/
theorem unixNanos_lt_of_code_lt {s t : DateTime} (h : s.code < t.code) :
    s.unixNanos < t.unixNanos := by
  have := s.bounds; have := t.bounds
  unfold DateTime.unixNanos
  rw [civilDays_eq_dayIndex, civilDays_eq_dayIndex]
  unfold DateTime.code at h
  by_cases hdate : s.year < t.year ∨ s.year = t.year ∧
      (s.month < t.month ∨ s.month = t.month ∧ s.day < t.day)
  · have := dayIndex_lt hdate
    omega
  · have hsame : s.year = t.year ∧ s.month = t.month ∧ s.day = t.day := by omega
    simp only [DateTime.dayIndex, hsame.1, hsame.2.1, hsame.2.2]
    omega

/-- Appending two digits is injective. -/
theorem mul100_add_inj {a b c d : Nat} (hb : b < 100) (hd : d < 100) :
    a * 100 + b = c * 100 + d ↔ a = c ∧ b = d := by
  omega

/-- Two date-times with the same digits are the same instant. -/
theorem unixNanos_eq_of_code_eq {s t : DateTime} (h : s.code = t.code) :
    s.unixNanos = t.unixNanos := by
  have := s.bounds; have := t.bounds
  unfold DateTime.code at h
  simp (disch := omega) only [mul100_add_inj] at h
  obtain ⟨⟨⟨⟨⟨hy, hm⟩, hd⟩, hh⟩, hmi⟩, hs⟩ := h
  simp only [DateTime.unixNanos, hy, hm, hd, hh, hmi, hs]

theorem foldl_digits (cs : List Char) (n : Nat) :
    cs.foldl (fun n c => n * 10 + digitVal c) n =
      n * 10 ^ cs.length + cs.foldl (fun n c => n * 10 + digitVal c) 0 := by
  induction cs generalizing n with
  | nil => simp
  | cons c cs ih =>
    rw [List.foldl_cons, List.foldl_cons, ih, ih (0 * 10 + digitVal c), List.length_cons]
    ring

theorem decimalValue_append (a b : List Char) :
    decimalValue (a ++ b) = decimalValue a * 10 ^ b.length + decimalValue b := by
  rw [decimalValue, List.foldl_append, foldl_digits]
  rfl

theorem decimalValue_pad2 {n : Nat} (h : n < 100) : decimalValue (pad2 n) = n := by
  simp only [pad2, decimalValue, List.foldl, digitVal_digit (show n / 10 < 10 by omega),
    digitVal_digit (Nat.mod_lt n (show 10 > 0 by norm_num))]
  omega

theorem decimalValue_pad4 {n : Nat} (h : n < 10000) : decimalValue (pad4 n) = n := by
  simp only [pad4, decimalValue, List.foldl, digitVal_digit (show n / 1000 < 10 by omega),
    digitVal_digit (Nat.mod_lt (n / 100) (show 10 > 0 by norm_num)),
    digitVal_digit (Nat.mod_lt (n / 10) (show 10 > 0 by norm_num)),
    digitVal_digit (Nat.mod_lt n (show 10 > 0 by norm_num))]
  omega

/-- The fourteen digits of the date and time spell `code`. -/
theorem decimalValue_text (t : DateTime) : decimalValue (t.date ++ t.time).data = t.code := by
  obtain ⟨hmonth, hday, hhour, hminute, hsecond⟩ : t.month < 100 ∧ t.day < 100 ∧
      t.hour < 100 ∧ t.minute < 100 ∧ t.second < 100 := by
    have := t.bounds; omega
  simp only [DateTime.date, DateTime.time, String.data_append, decimalValue_append,
    List.length_append, length_pad2, length_pad4, decimalValue_pad4 t.year_lt,
    decimalValue_pad2 hmonth, decimalValue_pad2 hday, decimalValue_pad2 hhour,
    decimalValue_pad2 hminute, decimalValue_pad2 hsecond, DateTime.code]
  ring

/-- `Timestamp` on an image name whose date and time fields are the text of
a valid date-time returns its Unix time, counted by the calendar; and two
such times compare as the fourteen-digit numbers the fields spell. -/
theorem timestamp_canonical (s t : DateTime) (bit : BootImageTags) :
    { bit with date := s.date, time := s.time }.timestamp = some s.unixNanos ∧
      (s.unixNanos < t.unixNanos ↔
        decimalValue (s.date ++ s.time).data < decimalValue (t.date ++ t.time).data) := by
  refine ⟨parse_canonical s, ?_⟩
  rw [decimalValue_text, decimalValue_text]
  refine ⟨fun h => ?_, unixNanos_lt_of_code_lt⟩
  rcases lt_trichotomy s.code t.code with hc | hc | hc
  · exact hc
  · exact absurd (unixNanos_eq_of_code_eq hc) (ne_of_lt h)
  · exact absurd (unixNanos_lt_of_code_lt hc) (not_lt_of_lt h)

/-! ## What the parser accepts

One soundness lemma per chunk reader: what it read is the padded text of
the number it returns.  Assembled, they give every text the parser accepts
(`parse_sound`); the converse computes the parse of such a text
(`parse_text`), and the two together are `parse_eq_some_iff`. -/

/-- A digit character is worth less than ten. -/
theorem digitVal_lt {c : Char} (h : c.isDigit = true) : digitVal c < 10 := by
  simp only [Char.isDigit, Bool.and_eq_true, decide_eq_true_eq] at h
  have h₁ : c.toNat ≤ 57 := h.2
  have h₀ : '0'.toNat = 48 := rfl
  unfold digitVal
  omega

/-- A digit character is the `digit` of its value. -/
theorem digit_digitVal {c : Char} (h : c.isDigit = true) : digit (digitVal c) = c := by
  simp only [Char.isDigit, Bool.and_eq_true, decide_eq_true_eq] at h
  have h₁ : 48 ≤ c.toNat := h.1
  rw [digit, digitVal, show '0'.toNat = 48 from rfl, Nat.add_sub_cancel' h₁, Char.ofNat_toNat]

theorem add_digit_div_ten {x d : Nat} (hd : d < 10) : (x * 10 + d) / 10 = x := by omega

theorem add_digit_mod_ten {x d : Nat} (hd : d < 10) : (x * 10 + d) % 10 = d := by omega

/-- The digits of a two-digit number, zero-padded. -/
theorem pad2_of_lt {a b : Nat} (hb : b < 10) : pad2 (a * 10 + b) = [digit a, digit b] := by
  rw [pad2, add_digit_div_ten hb, add_digit_mod_ten hb]

/-- The digits of a four-digit number, zero-padded: `/ 1000` and `/ 100`
are repeated `/ 10`. -/
theorem pad4_of_lt {a b c d : Nat} (hb : b < 10) (hc : c < 10) (hd : d < 10) :
    pad4 (((a * 10 + b) * 10 + c) * 10 + d) = [digit a, digit b, digit c, digit d] := by
  simp only [pad4, show 1000 = 10 * 10 * 10 from rfl, show 100 = 10 * 10 from rfl,
    ← Nat.div_div_eq_div_mul, add_digit_div_ten, add_digit_mod_ten, hb, hc, hd]

/-- Two digit characters are the padded text of the number they spell. -/
theorem pad2_digits {c₀ c₁ : Char} (h₀ : c₀.isDigit = true) (h₁ : c₁.isDigit = true) :
    pad2 (digitVal c₀ * 10 + digitVal c₁) = [c₀, c₁] := by
  rw [pad2_of_lt (digitVal_lt h₁), digit_digitVal h₀, digit_digitVal h₁]

/-- Four digit characters are the padded text of the number they spell. -/
theorem pad4_digits {a b c d : Char} (ha : a.isDigit = true) (hb : b.isDigit = true)
    (hc : c.isDigit = true) (hd : d.isDigit = true) : pad4 (decimalValue [a, b, c, d]) = [a, b, c, d] := by
  have hv : decimalValue [a, b, c, d] =
      ((digitVal a * 10 + digitVal b) * 10 + digitVal c) * 10 + digitVal d := by
    simp [decimalValue]
  rw [hv, pad4_of_lt (digitVal_lt hb) (digitVal_lt hc) (digitVal_lt hd),
    digit_digitVal ha, digit_digitVal hb, digit_digitVal hc, digit_digitVal hd]

/-- `getnum` finds no number at a character that is not a digit. -/
theorem getnum_of_not_digit {c : Char} (hc : c.isDigit = false) (rest : List Char) (fixed : Bool) :
    getnum (c :: rest) fixed = none := by
  cases rest <;> simp [getnum, hc]

/-- A fixed-width `getnum` read the padded text of its number. -/
theorem getnum_true_sound {s v : List Char} {n : Nat} (h : getnum s true = some (n, v)) :
    s = pad2 n ++ v := by
  unfold getnum at h
  split at h
  · split_ifs at h with h₀ h₁ hfixed
    · obtain ⟨rfl, rfl⟩ := Prod.mk.inj (Option.some.inj h)
      rw [pad2_digits h₀ h₁]
      rfl
    · exact absurd rfl hfixed
  · simp at h
  · cases h

/-- The hour's `getnum`, followed by a fixed-width one, read two digits. -/
theorem getnum_false_sound {s v : List Char} {n : Nat} (h : getnum s false = some (n, v))
    (hv : getnum v true ≠ none) : s = pad2 n ++ v := by
  unfold getnum at h
  split at h
  · split_ifs at h with h₀ h₁
    · obtain ⟨rfl, rfl⟩ := Prod.mk.inj (Option.some.inj h)
      rw [pad2_digits h₀ h₁]
      rfl
    · obtain ⟨-, rfl⟩ := Prod.mk.inj (Option.some.inj h)
      exact absurd (getnum_of_not_digit (Bool.eq_false_iff.mpr h₁) _ _) hv
  · split_ifs at h
    obtain ⟨-, rfl⟩ := Prod.mk.inj (Option.some.inj h)
    exact absurd rfl hv
  · cases h

/-- `stdLongYear` read the padded text of its year. -/
theorem longYear_sound {s v : List Char} {year : Nat} (h : longYear s = some (year, v)) :
    s = pad4 year ++ v := by
  unfold longYear at h
  split at h
  · split_ifs at h with hd
    obtain ⟨rfl, rfl⟩ := Prod.mk.inj (Option.some.inj h)
    simp only [List.all_cons, List.all_nil, Bool.and_true, Bool.and_eq_true] at hd
    rw [pad4_digits hd.1 hd.2.1 hd.2.2.1 hd.2.2.2]
    rfl
  · cases h

/-- A skipped space, when something follows, was a run of spaces. -/
theorem skipSpace_sound {s v : List Char} (h : skipSpace s = some v) (hv : v ≠ []) :
    ∃ k, s = ' ' :: (List.replicate k ' ' ++ v) := by
  unfold skipSpace at h
  split at h
  · exact absurd (Option.some.inj h).symm hv
  · rename_i c rest
    split_ifs at h with hc
    subst hc
    obtain rfl := Option.some.inj h
    have hspaces : rest.takeWhile (· = ' ') = List.replicate (rest.takeWhile (· = ' ')).length ' ' :=
      List.eq_replicate_iff.mpr ⟨rfl, fun b hb => by simpa using List.mem_takeWhile_imp hb⟩
    refine ⟨(rest.takeWhile (· = ' ')).length, ?_⟩
    rw [List.dropWhile_cons_of_pos (by simp), ← hspaces, List.takeWhile_append_dropWhile]

/-- A fraction that leaves nothing behind is absent, or a separator and
digits. -/
theorem fracSecond_sound {s : List Char} {nsec : Nat} (h : fracSecond s = (nsec, [])) :
    (s = [] ∧ nsec = 0) ∨ ∃ sep ds, s = sep :: ds ∧ (sep = '.' ∨ sep = ',') ∧ ds ≠ [] ∧
      (∀ c ∈ ds, c.isDigit = true) ∧ nsec = fracNanos ds := by
  unfold fracSecond at h
  split at h
  · rename_i sep c rest
    split_ifs at h with hsep
    · obtain ⟨rfl, hdrop⟩ := Prod.mk.inj h
      have hall : ∀ x ∈ c :: rest, x.isDigit = true := List.dropWhile_eq_nil_iff.mp hdrop
      rw [List.takeWhile_eq_self_iff.mpr hall]
      exact .inr ⟨sep, c :: rest, rfl, hsep.1, List.cons_ne_nil _ _, hall, rfl⟩
    · cases (Prod.mk.inj h).2
  · obtain ⟨h₀, rfl⟩ := Prod.mk.inj h
    exact .inl ⟨rfl, h₀.symm⟩

/-- The fraction a separator and digits spell. -/
theorem fracSecond_digits {sep : Char} {ds : List Char} (hsep : sep = '.' ∨ sep = ',')
    (hne : ds ≠ []) (hds : ∀ c ∈ ds, c.isDigit = true) :
    fracSecond (sep :: ds) = (fracNanos ds, []) := by
  obtain ⟨c, rest, rfl⟩ := List.exists_cons_of_ne_nil hne
  simp only [fracSecond]
  rw [if_pos ⟨hsep, hds c (List.mem_cons_self _ _)⟩, List.takeWhile_eq_self_iff.mpr hds,
    List.dropWhile_eq_nil_iff.mpr hds]

/-- The leading digit counts for its place. -/
theorem decimalValue_cons (c : Char) (cs : List Char) :
    decimalValue (c :: cs) = digitVal c * 10 ^ cs.length + decimalValue cs := by
  rw [← List.singleton_append, decimalValue_append]
  simp [decimalValue]

/-- `k` digits spell a number below `10 ^ k`. -/
theorem decimalValue_lt {cs : List Char} (h : ∀ c ∈ cs, c.isDigit = true) :
    decimalValue cs < 10 ^ cs.length := by
  induction cs with
  | nil => simp [decimalValue]
  | cons c cs ih =>
    have hc := digitVal_lt (h c (List.mem_cons_self _ _))
    have hcs := ih fun c hc => h c (List.mem_cons_of_mem _ hc)
    have hmul := Nat.mul_le_mul_right (10 ^ cs.length) (Nat.le_of_lt_succ hc)
    rw [decimalValue_cons, List.length_cons, pow_succ']
    omega

/-- A four-digit year is below `10000`. -/
theorem longYear_lt {s rest : List Char} {year : Nat} (h : longYear s = some (year, rest)) :
    year < 10000 := by
  unfold longYear at h
  split at h
  · split_ifs at h with hd
    obtain ⟨rfl, -⟩ := Prod.mk.inj (Option.some.inj h)
    simpa using decimalValue_lt (List.all_eq_true.mp hd)
  · cases h

/-- Nine digits of a fraction at most: less than a second. -/
theorem fracNanos_lt {ds : List Char} (h : ∀ c ∈ ds, c.isDigit = true) :
    fracNanos ds < 1000000000 := by
  have hlen := List.length_take_le 9 ds
  have hval := @decimalValue_lt (ds.take 9) fun c hc => h c (List.mem_of_mem_take hc)
  calc _ < 10 ^ _ * 10 ^ (9 - _) := Nat.mul_lt_mul_of_pos_right hval (by positivity)
    _ = 1000000000 := by rw [← pow_add, Nat.add_sub_cancel' hlen]; rfl

/-- A check `if ¬ P then none else x` that produced a value passed. -/
theorem imp_of_guard {P Q : Prop} [Decidable P] {x : Option Int} {n : Int}
    (hx : P → x = some n → Q) : (if ¬ P then none else x) = some n → Q := by
  intro h
  by_cases hp : P
  · exact hx hp (by rwa [if_neg (not_not.mpr hp)] at h)
  · rw [if_pos hp] at h
    cases h

/-- What the parser accepts: a valid date-time's date field, a run of
spaces, its time field and an optional fraction; and the instant it
returns. -/
def Accepts (value : String) (n : Int) : Prop :=
  ∃ (t : DateTime) (spaces : Nat) (frac : List Char),
    value.data = t.date.data ++ ' ' :: (List.replicate spaces ' ' ++ t.time.data ++ frac) ∧
    ((frac = [] ∧ n = t.unixNanos) ∨
      ∃ sep ds, frac = sep :: ds ∧ (sep = '.' ∨ sep = ',') ∧ ds ≠ [] ∧
        (∀ c ∈ ds, c.isDigit = true) ∧ fracNanos ds < 1000000000 ∧ n = t.unixNanos + fracNanos ds)
/-- Every text the parser accepts is a valid date-time's text, with a run
of spaces and an optional fraction, and its result is that date-time's
instant plus the fraction. -/
theorem parse_sound {value : String} {n : Int} (h : parse value = some n) : Accepts value n := by
  revert h
  unfold parse
  rcases hyear : longYear value.data with _ | ⟨year, v₁⟩
  · rintro ⟨⟩
  dsimp only
  rcases hmon : getnum v₁ true with _ | ⟨month, v₂⟩
  · rintro ⟨⟩
  refine imp_of_guard fun hmonth => ?_
  rcases hd : getnum v₂ true with _ | ⟨day, v₃⟩
  · rintro ⟨⟩
  dsimp only
  rcases hsp : skipSpace v₃ with _ | v₄
  · rintro ⟨⟩
  dsimp only
  rcases hh : getnum v₄ false with _ | ⟨hour, v₅⟩
  · rintro ⟨⟩
  refine imp_of_guard fun hhour => ?_
  rcases hmin : getnum v₅ true with _ | ⟨minute, v₆⟩
  · rintro ⟨⟩
  refine imp_of_guard fun hminute => ?_
  rcases hs : getnum v₆ true with _ | ⟨second, v₇⟩
  · rintro ⟨⟩
  refine imp_of_guard fun hsecond => ?_
  rcases hfrac : fracSecond v₇ with ⟨nsec, v₈⟩
  refine imp_of_guard fun hend => imp_of_guard fun hday => ?_
  rintro ⟨⟩
  subst hend
  let t : DateTime := ⟨year, month, day, hour, minute, second, longYear_lt hyear, hmonth.1,
    hmonth.2, hday.1, hday.2, hhour, hminute, hsecond⟩
  have hv₄ : v₄ ≠ [] := by rintro rfl; simp [getnum] at hh
  obtain ⟨k, hv₃⟩ := skipSpace_sound hsp hv₄
  have htext : value.data = t.date.data ++ ' ' :: (List.replicate k ' ' ++ t.time.data ++ v₇) := by
    rw [longYear_sound hyear, getnum_true_sound hmon, getnum_true_sound hd, hv₃,
      getnum_false_sound hh (by simp [hmin]), getnum_true_sound hmin, getnum_true_sound hs]
    simp [t, DateTime.date, DateTime.time]
  have hnanos : ((daysFromCivil year month day * 86400 + hour * 3600 + minute * 60 + second) *
      1000000000 + nsec : Int) = t.unixNanos + nsec := by
    rw [DateTime.unixNanos, daysFromCivil_eq_civilDays _ _ _ hmonth.1 hmonth.2]
  refine ⟨t, k, v₇, htext, ?_⟩
  rcases fracSecond_sound hfrac with ⟨rfl, rfl⟩ | ⟨sep, ds, rfl, hsep, hne, hds, rfl⟩
  · exact .inl ⟨rfl, by simpa using hnanos⟩
  · exact .inr ⟨sep, ds, rfl, hsep, hne, hds, fracNanos_lt hds, hnanos⟩

/-- `time.Parse("20060102 150405", value)` succeeds exactly on the text of
a valid date-time (`YYYYMMDD`, one or more spaces, `HHMMSS`), optionally
followed by `.` or `,` and digits; it then returns that date-time's
instant, counted by the calendar, plus the nanoseconds the first nine
digits of the fraction spell. -/
theorem parse_eq_some_iff (value : String) (n : Int) : parse value = some n ↔ Accepts value n := by
  refine ⟨parse_sound, ?_⟩
  rintro ⟨t, k, frac, hv, hfrac⟩
  obtain rfl : value = ⟨t.date.data ++ ' ' :: (List.replicate k ' ' ++ t.time.data ++ frac)⟩ :=
    String.ext hv
  rw [parse_text]
  rcases hfrac with ⟨rfl, rfl⟩ | ⟨sep, ds, rfl, hsep, hne, hds, -, rfl⟩
  · simp [fracSecond]
  · simp [fracSecond_digits hsep hne hds]

/-- A fraction Go accepts although the layout has none: half a second. -/
example : parse "20200315 123456.5" = some 1584275696500000000 := by decide

end Time

end Kip
