import Mathlib.Algebra.Order.Ring.Nat
import Mathlib.Data.List.TakeWhile
import Mathlib.Data.Nat.Digits.Defs

/-! Points in time of the ISO calendar, and the text of ISO 8601. -/

namespace AshA2A.Calendar

/-! ## Digits -/

/-- The last digits of the number, as many as the width. -/
def digits : Nat → Nat → List Char
  | 0, _ => []
  | width + 1, number => Nat.digitChar (number / 10 ^ width % 10) :: digits width number

/-- Zeros before a number that is too short; a longer one is not cut. -/
def zeroPad (width number : Nat) : List Char :=
  if number < 10 ^ width then digits width number else Nat.toDigits 10 number

def digit (char : Char) : Option Nat :=
  if '0' ≤ char ∧ char ≤ '9' then some (char.toNat - '0'.toNat) else none

/-- So many digits, after what was read of the number before. -/
def number : Nat → Nat → List Char → Option (Nat × List Char)
  | 0, seen, chars => some (seen, chars)
  | _ + 1, _, [] => none
  | width + 1, seen, char :: chars => (digit char).bind fun value => number width (seen * 10 + value) chars

theorem digit_digitChar : ∀ value : Fin 10, digit (Nat.digitChar value) = some value.val := by decide

theorem digit_mod (number : Nat) : digit (Nat.digitChar (number % 10)) = some (number % 10) :=
  digit_digitChar ⟨_, Nat.mod_lt _ (by decide)⟩

theorem number_digits (width value seen : Nat) (rest : List Char) :
    number width seen (digits width value ++ rest) = some (seen * 10 ^ width + value % 10 ^ width, rest) := by
  induction width generalizing seen with
  | zero => simp [number, digits, Nat.mod_one]
  | succ width ih =>
    have whole : (seen * 10 + value / 10 ^ width % 10) * 10 ^ width + value % 10 ^ width =
        seen * 10 ^ (width + 1) + value % 10 ^ (width + 1) := by
      rw [Nat.mod_pow_succ, Nat.pow_succ]
      ring
    rw [digits, List.cons_append, number, digit_mod, Option.bind_some, ih, whole]

theorem number_zeroPad {width value : Nat} (small : value < 10 ^ width) (rest : List Char) :
    number width 0 (zeroPad width value ++ rest) = some (value, rest) := by
  rw [zeroPad, if_pos small, number_digits, Nat.mod_eq_of_lt small, Nat.zero_mul, Nat.zero_add]

theorem digits_length (width value : Nat) : (digits width value).length = width := by
  induction width with
  | zero => rfl
  | succ width ih => rw [digits, List.length_cons, ih]

theorem digits_isDigit (width value : Nat) : ∀ char ∈ digits width value, (digit char).isSome := by
  induction width with
  | zero => exact fun _ member => absurd member List.not_mem_nil
  | succ width ih =>
    refine List.forall_mem_cons.mpr ⟨?_, ih⟩
    rw [digit_mod]
    rfl

/-- A multiple of a power of ten ends in zeros. -/
theorem take_digits {width value kept : Nat} (within : kept ≤ width) (round : 10 ^ (width - kept) ∣ value) :
    (digits width value).take kept ++ List.replicate (width - kept) '0' = digits width value := by
  induction width generalizing kept with
  | zero =>
    cases Nat.le_zero.mp within
    rfl
  | succ width ih =>
    cases kept with
    | zero =>
      have rest := ih (Nat.zero_le _) ((Nat.pow_dvd_pow 10 (Nat.le_succ width)).trans round)
      obtain ⟨factor, rfl⟩ := round
      have last : 10 ^ (width + 1) * factor / 10 ^ width % 10 = 0 := by
        rw [Nat.pow_succ, Nat.mul_assoc, Nat.mul_div_cancel_left _ (Nat.pow_pos (by decide)), Nat.mul_mod_right]
      rw [digits, Nat.sub_zero] at *
      rw [last, ← rest, Nat.sub_zero]
      rfl
    | succ kept =>
      have rest := ih (Nat.le_of_succ_le_succ within) (by simpa using round)
      rw [digits, List.take_succ_cons, List.cons_append, Nat.succ_sub_succ, rest]

/-! ## Dates and times -/

/-- Date and time of day in UTC. -/
structure Moment where
  year : Int
  month : Nat
  day : Nat
  hour : Nat
  minute : Nat
  second : Nat
  microsecond : Nat := 0
  /-- How many digits of the fraction are known. -/
  precision : Nat := 0
  deriving Repr, DecidableEq

/-- A moment as a clock of some zone shows it. -/
structure DateTime where
  utc : Moment
  timeZone : String := "Etc/UTC"
  zoneAbbr : String := "UTC"
  utcOffset : Int := 0
  stdOffset : Int := 0
  deriving Repr, DecidableEq

def leapYear (year : Int) : Bool := year % 4 = 0 && (year % 100 ≠ 0 || year % 400 = 0)

def daysInMonth (year : Int) (month : Nat) : Nat :=
  match month with
  | 2 => if leapYear year then 29 else 28
  | 4 | 6 | 9 | 11 => 30
  | _ => 31

namespace Moment

/-- The years that the calendar counts. -/
def InRange (moment : Moment) : Prop := -9999 ≤ moment.year ∧ moment.year ≤ 9999

instance (moment : Moment) : Decidable moment.InRange := inferInstanceAs (Decidable (_ ∧ _))

/-- A date and a time of day. -/
structure Valid (moment : Moment) : Prop where
  month : 1 ≤ moment.month ∧ moment.month ≤ 12
  day : 1 ≤ moment.day ∧ moment.day ≤ daysInMonth moment.year moment.month
  hour : moment.hour < 24
  minute : moment.minute < 60
  second : moment.second < 60
  microsecond : moment.microsecond < 10 ^ 6
  precision : moment.precision ≤ 6
  /-- No digit beyond the precision. -/
  truncated : 10 ^ (6 - moment.precision) ∣ moment.microsecond

def nextDay (moment : Moment) : Moment :=
  if moment.day < daysInMonth moment.year moment.month then { moment with day := moment.day + 1 }
  else if moment.month < 12 then { moment with day := 1, month := moment.month + 1 }
  else { moment with day := 1, month := 1, year := moment.year + 1 }

def previousDay (moment : Moment) : Moment :=
  if 1 < moment.day then { moment with day := moment.day - 1 }
  else if 1 < moment.month then
    { moment with day := daysInMonth moment.year (moment.month - 1), month := moment.month - 1 }
  else { moment with day := 31, month := 12, year := moment.year - 1 }

/-- What is UTC where a clock so many seconds ahead shows the moment. -/
def behind (moment : Moment) (offset : Int) : Moment :=
  let seconds := moment.hour * 3600 + moment.minute * 60 + moment.second - offset
  let moment :=
    if seconds < 0 then moment.previousDay else if 86400 ≤ seconds then moment.nextDay else moment
  let seconds := (seconds % 86400).toNat
  { moment with hour := seconds / 3600, minute := seconds / 60 % 60, second := seconds % 60 }

end Moment

/-! ## Writing -/

def fractionText (moment : Moment) : List Char :=
  if moment.precision = 0 then [] else '.' :: (zeroPad 6 moment.microsecond).take moment.precision

def dateText (year : Int) (month day : Nat) : List Char :=
  (if year < 0 then ['-'] else []) ++ zeroPad 4 year.natAbs ++ '-' :: zeroPad 2 month ++ '-' :: zeroPad 2 day

def timeText (hour minute second : Nat) : List Char :=
  zeroPad 2 hour ++ ':' :: zeroPad 2 minute ++ ':' :: zeroPad 2 second

def text (moment : Moment) : List Char :=
  dateText moment.year moment.month moment.day ++ 'T' :: timeText moment.hour moment.minute moment.second ++
    fractionText moment ++ ['Z']

/-- `DateTime.to_iso8601/1` of a moment in UTC. -/
def toIso8601 (moment : Moment) : String := .ofList (text moment)

/-! ## Reading -/

/-- Whether the year is negative. -/
def sign : List Char → Bool × List Char
  | '-' :: rest => (true, rest)
  | '+' :: rest => (false, rest)
  | rest => (false, rest)

def skip (expected : List Char) : List Char → Option (List Char)
  | char :: rest => if char ∈ expected then some rest else none
  | [] => none

def readDate (chars : List Char) : Option (Int × Nat × Nat × List Char) := do
  let (negative, chars) := sign chars
  let (year, chars) ← number 4 0 chars
  let (month, chars) ← number 2 0 (← skip ['-'] chars)
  let (day, chars) ← number 2 0 (← skip ['-'] chars)
  return (if negative then -year else year, month, day, chars)

def readTime (chars : List Char) : Option (Nat × Nat × Nat × List Char) := do
  let (hour, chars) ← number 2 0 chars
  let (minute, chars) ← number 2 0 (← skip [':'] chars)
  let (second, chars) ← number 2 0 (← skip [':'] chars)
  return (hour, minute, second, chars)

/-- At least one digit; those after the sixth are dropped. -/
def fractionDigits (chars : List Char) : Option (Nat × Nat × List Char) :=
  let kept := (chars.takeWhile fun char => (digit char).isSome).take 6
  if kept = [] then none
  else (number 6 0 (kept ++ List.replicate (6 - kept.length) '0')).map fun read =>
    (read.1, kept.length, chars.dropWhile fun char => (digit char).isSome)

/-- Microseconds and precision. -/
def fraction : List Char → Option (Nat × Nat × List Char)
  | '.' :: rest | ',' :: rest => fractionDigits rest
  | rest => some (0, 0, rest)

def offsetSeconds (sign hours minutes : List Char) : Option Int := do
  let (hours, _) ← number 2 0 hours
  let (minutes, _) ← number 2 0 minutes
  if hours < 24 ∧ minutes < 60 then
    let seconds : Int := (hours * 60 + minutes) * 60
    match sign with
    | ['+'] => some seconds
    | ['-'] => some (-seconds)
    | _ => none
  else none

/-- The rest of the text; none of the inner kind is a clock without a zone. -/
def offset : List Char → Option (Option Int)
  | [] => some none
  | ['Z'] => some (some 0)
  | ['-', '0', '0', ':', '0', '0'] => none
  | [sign, h, h', ':', m, m'] | [sign, h, h', m, m'] => (offsetSeconds [sign] [h, h'] [m, m']).map some
  | [sign, h, h'] => (offsetSeconds [sign] [h, h'] ['0', '0']).map some
  | _ => none

/-- `DateTime.from_iso8601/1`, in UTC. -/
def fromIso8601 (text : String) : Option Moment := do
  let (year, month, day, chars) ← readDate text.toList
  let (hour, minute, second, chars) ← readTime (← skip ['T', ' '] chars)
  let (microsecond, precision, chars) ← fraction chars
  let offset ← ← offset chars
  if 1 ≤ month ∧ month ≤ 12 ∧ 1 ≤ day ∧ day ≤ daysInMonth year month ∧ hour < 24 ∧ minute < 60 ∧ second < 60 then
    let moment : Moment := ⟨year, month, day, hour, minute, second, microsecond, precision⟩
    some (if offset = 0 then moment else moment.behind offset)
  else none

/-! ## What is written is read back -/

theorem skip_cons {expected : List Char} {char : Char} (rest : List Char) (given : char ∈ expected) :
    skip expected (char :: rest) = some rest := if_pos given

theorem zeroPad_of_lt {width value : Nat} (small : value < 10 ^ width) : zeroPad width value = digits width value :=
  if_pos small

theorem digit_ne_sign {char : Char} (given : (digit char).isSome) : char ≠ '-' ∧ char ≠ '+' := by
  constructor <;> rintro rfl <;> exact absurd given (by decide)

theorem sign_of_digit {char : Char} (given : (digit char).isSome) (rest : List Char) :
    sign (char :: rest) = (false, char :: rest) := by
  obtain ⟨minus, plus⟩ := digit_ne_sign given
  rw [sign.eq_def]
  split
  next same => exact absurd (List.cons.inj same).1 minus
  next same => exact absurd (List.cons.inj same).1 plus
  next => rfl

theorem sign_year {year : Int} (small : year.natAbs < 10 ^ 4) (rest : List Char) :
    sign ((if year < 0 then ['-'] else []) ++ (zeroPad 4 year.natAbs ++ rest)) =
      (decide (year < 0), zeroPad 4 year.natAbs ++ rest) := by
  rw [zeroPad_of_lt small]
  by_cases negative : year < 0
  · simp [negative, sign]
  · simp only [negative, if_false, List.nil_append, decide_false]
    rw [digits, List.cons_append]
    exact sign_of_digit (by rw [digit_mod]; rfl) _

theorem takeWhile_digits {chars : List Char} (all : ∀ char ∈ chars, (digit char).isSome) :
    (chars ++ ['Z']).takeWhile (fun char => (digit char).isSome) = chars ∧
      (chars ++ ['Z']).dropWhile (fun char => (digit char).isSome) = ['Z'] := by
  rw [List.takeWhile_append_of_pos all, List.dropWhile_append_of_pos all]
  exact ⟨List.append_nil chars, rfl⟩

theorem fraction_text {moment : Moment} (valid : moment.Valid) :
    fraction (fractionText moment ++ ['Z']) = some (moment.microsecond, moment.precision, ['Z']) := by
  have small := valid.microsecond
  unfold fractionText
  by_cases whole : moment.precision = 0
  · have none_left : moment.microsecond = 0 := by
      have round := valid.truncated
      rw [whole] at round
      exact Nat.eq_zero_of_dvd_of_lt round small
    rw [if_pos whole, whole, none_left]
    rfl
  · have size : ((digits 6 moment.microsecond).take moment.precision).length = moment.precision := by
      rw [List.length_take, digits_length]
      exact Nat.min_eq_left valid.precision
    have all : ∀ char ∈ (digits 6 moment.microsecond).take moment.precision, (digit char).isSome :=
      fun char member => digits_isDigit 6 _ char (List.mem_of_mem_take member)
    obtain ⟨taken, left⟩ := takeWhile_digits all
    have some_kept : (digits 6 moment.microsecond).take moment.precision ≠ [] := fun none_kept =>
      whole (by rw [← size, none_kept]; rfl)
    have back := number_digits 6 moment.microsecond 0 []
    rw [List.append_nil, Nat.zero_mul, Nat.zero_add, Nat.mod_eq_of_lt small] at back
    rw [if_neg whole, zeroPad_of_lt small, List.cons_append]
    show fractionDigits _ = _
    unfold fractionDigits
    rw [taken, left]
    rw [List.take_of_length_le (size.trans_le valid.precision)]
    simp only [some_kept, if_false, size]
    rw [take_digits valid.precision valid.truncated, back]
    rfl

theorem readDate_text (year : Int) (month day : Nat) (year_small : year.natAbs < 10 ^ 4)
    (month_small : month < 10 ^ 2) (day_small : day < 10 ^ 2) (rest : List Char) :
    readDate (dateText year month day ++ rest) = some (year, month, day, rest) := by
  have year_back : (if decide (year < 0) then -(year.natAbs : Int) else year.natAbs) = year := by
    by_cases negative : year < 0
    · rw [if_pos (decide_eq_true negative)]
      omega
    · rw [if_neg (by simpa using negative)]
      omega
  unfold readDate dateText
  rw [List.append_assoc, List.append_assoc, List.append_assoc, sign_year year_small]
  simp only [number_zeroPad year_small, Option.bind_eq_bind, Option.bind_some, List.cons_append,
    skip_cons _ (List.mem_singleton_self _), number_zeroPad month_small, number_zeroPad day_small]
  rw [year_back]
  rfl

theorem readTime_text (hour minute second : Nat) (hour_small : hour < 10 ^ 2) (minute_small : minute < 10 ^ 2)
    (second_small : second < 10 ^ 2) (rest : List Char) :
    readTime (timeText hour minute second ++ rest) = some (hour, minute, second, rest) := by
  unfold readTime timeText
  rw [List.append_assoc, List.append_assoc]
  simp only [number_zeroPad hour_small, Option.bind_eq_bind, Option.bind_some, List.cons_append,
    skip_cons _ (List.mem_singleton_self _), number_zeroPad minute_small, number_zeroPad second_small]
  rfl

theorem daysInMonth_le (year : Int) (month : Nat) : daysInMonth year month ≤ 31 := by
  unfold daysInMonth
  split <;> (try split) <;> omega

theorem fromIso8601_toIso8601 {moment : Moment} (valid : moment.Valid) (inRange : moment.InRange) :
    fromIso8601 (toIso8601 moment) = some moment := by
  obtain ⟨above, below⟩ := inRange
  obtain ⟨month_pos, month_le⟩ := valid.month
  obtain ⟨day_pos, day_le⟩ := valid.day
  have hour_lt := valid.hour
  have minute_lt := valid.minute
  have second_lt := valid.second
  have days := daysInMonth_le moment.year moment.month
  have date := readDate_text moment.year moment.month moment.day (by omega) (by omega) (by omega)
  have time := readTime_text moment.hour moment.minute moment.second (by omega) (by omega) (by omega)
  have ranges : 1 ≤ moment.month ∧ moment.month ≤ 12 ∧ 1 ≤ moment.day ∧
      moment.day ≤ daysInMonth moment.year moment.month ∧ moment.hour < 24 ∧ moment.minute < 60 ∧
      moment.second < 60 := ⟨month_pos, month_le, day_pos, day_le, hour_lt, minute_lt, second_lt⟩
  unfold fromIso8601 toIso8601 text
  rw [String.toList_ofList, List.append_assoc, List.append_assoc, date]
  simp only [Option.bind_eq_bind, Option.bind_some, List.cons_append, skip_cons _ (List.mem_cons_self ..), time,
    fraction_text valid]
  exact if_pos ranges

theorem isSome_of_isDigit {char : Char} (given : char.isDigit) : (digit char).isSome := by
  simp only [Char.isDigit, Bool.and_eq_true, decide_eq_true_eq] at given
  unfold digit
  rw [if_pos ⟨given.1, given.2⟩]
  rfl

theorem zeroPad_isDigit (width value : Nat) : ∀ char ∈ zeroPad width value, (digit char).isSome := by
  unfold zeroPad
  split
  · exact digits_isDigit width value
  · exact fun char member => isSome_of_isDigit (Nat.isDigit_of_mem_toDigits (by decide) (by decide) member)

/-- The text has digits, signs and the two letters of the form. -/
theorem text_chars (moment : Moment) :
    ∀ char ∈ text moment, (digit char).isSome ∨ char ∈ ['-', 'T', ':', '.', 'Z'] := by
  have padded (width value : Nat) : ∀ char ∈ zeroPad width value, (digit char).isSome ∨ char ∈ ['-', 'T', ':', '.', 'Z'] :=
    fun char member => .inl (zeroPad_isDigit width value char member)
  have date : ∀ char ∈ dateText moment.year moment.month moment.day,
      (digit char).isSome ∨ char ∈ ['-', 'T', ':', '.', 'Z'] := by
    unfold dateText
    simp only [List.forall_mem_append, List.forall_mem_cons, and_assoc]
    refine ⟨?_, padded _ _, .inr (by decide), padded _ _, .inr (by decide), padded _ _⟩
    intro char member
    split at member
    · exact .inr (List.mem_cons.mpr (.inl (List.mem_singleton.mp member)))
    · exact absurd member List.not_mem_nil
  have time : ∀ char ∈ timeText moment.hour moment.minute moment.second,
      (digit char).isSome ∨ char ∈ ['-', 'T', ':', '.', 'Z'] := by
    unfold timeText
    simp only [List.forall_mem_append, List.forall_mem_cons, and_assoc]
    exact ⟨padded _ _, .inr (by decide), padded _ _, .inr (by decide), padded _ _⟩
  have fraction : ∀ char ∈ fractionText moment, (digit char).isSome ∨ char ∈ ['-', 'T', ':', '.', 'Z'] := by
    unfold fractionText
    split
    · exact nofun
    · exact List.forall_mem_cons.mpr
        ⟨.inr (by decide), fun char member => padded _ _ char (List.mem_of_mem_take member)⟩
  unfold text
  simp only [List.forall_mem_append, List.forall_mem_cons, and_assoc]
  exact ⟨date, .inr (by decide), time, fraction, .inr (by decide), nofun⟩

/-- A year of five digits has no date after its first four. -/
theorem readDate_long {chars : List Char} (long : 4 < chars.length) (all : ∀ char ∈ chars, (digit char).isSome)
    (negative : Bool) (rest : List Char) :
    readDate ((if negative then ['-'] else []) ++ (chars ++ rest)) = none := by
  obtain ⟨a, b, c, d, e, tail, rfl⟩ : ∃ a b c d e tail, chars = a :: b :: c :: d :: e :: tail := by
    match chars, long with
    | a :: b :: c :: d :: e :: tail, _ => exact ⟨a, b, c, d, e, tail, rfl⟩
  simp only [List.forall_mem_cons] at all
  obtain ⟨first, second, third, fourth, fifth, _⟩ := all
  have signed : sign ((if negative then ['-'] else []) ++ (a :: b :: c :: d :: e :: tail ++ rest)) =
      (negative, a :: b :: c :: d :: e :: tail ++ rest) := by
    cases negative with
    | true => rfl
    | false => exact sign_of_digit first _
  obtain ⟨_, first⟩ := Option.isSome_iff_exists.mp first
  obtain ⟨_, second⟩ := Option.isSome_iff_exists.mp second
  obtain ⟨_, third⟩ := Option.isSome_iff_exists.mp third
  obtain ⟨_, fourth⟩ := Option.isSome_iff_exists.mp fourth
  have stuck : skip ['-'] (e :: (tail ++ rest)) = none :=
    if_neg fun given => (digit_ne_sign fifth).1 (List.mem_singleton.mp given)
  unfold readDate
  rw [signed]
  simp only [List.cons_append, number, first, second, third, fourth, Option.bind_some, Option.bind_eq_bind, stuck,
    Option.bind_none]

theorem fromIso8601_outOfRange {moment : Moment} (outside : ¬ moment.InRange) :
    fromIso8601 (toIso8601 moment) = none := by
  have large : ¬ moment.year.natAbs < 10 ^ 4 := by
    unfold Moment.InRange at outside
    omega
  have long : 4 < (Nat.toDigits 10 moment.year.natAbs).length :=
    Nat.lt_of_not_le fun short => large ((Nat.length_toDigits_le_iff (by decide) (by decide)).mp short)
  have all : ∀ char ∈ Nat.toDigits 10 moment.year.natAbs, (digit char).isSome := fun char member =>
    isSome_of_isDigit (Nat.isDigit_of_mem_toDigits (by decide) (by decide) member)
  have date := readDate_long long all (decide (moment.year < 0))
  simp only [decide_eq_true_eq] at date
  unfold fromIso8601 toIso8601 text dateText
  rw [String.toList_ofList, zeroPad, if_neg large]
  simp only [List.append_assoc, date, Option.bind_eq_bind, Option.bind_none]

theorem fromIso8601_toIso8601_iff {moment : Moment} (valid : moment.Valid) :
    fromIso8601 (toIso8601 moment) = some moment ↔ moment.InRange := by
  refine ⟨fun back => by_contra fun outside => ?_, fromIso8601_toIso8601 valid⟩
  rw [fromIso8601_outOfRange outside] at back
  cases back

end AshA2A.Calendar
