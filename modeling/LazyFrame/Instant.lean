import LazyFrame.Number.Basic

/-!
# Instants

An instant is a whole number of milliseconds since the start of 1970, UTC, and at most `latest` of
them away from it. Anything further away is no instant.

`isoText` is the text of an instant in answers and logs (`2024-02-29T12:00:00.000Z`), `longText` the
one used inside a sentence (`Thu Feb 29 2024 12:00:00 GMT+0000 (Coordinated Universal Time)`). Both
split the milliseconds into a day and a time of day; the day becomes a date of the Gregorian
calendar, extended backwards without end.
-/

namespace LazyFrame

/-- A date of the Gregorian calendar; months and days count from one. -/
structure CivilDate where
  year : Int
  month : Nat
  day : Nat
  deriving DecidableEq, Inhabited

namespace CivilDate

/-- The date that lies `days` days after the first of January 1970. Years are counted from March
inside, so that the leap day is the last one; an era is 400 years. -/
def ofDays (days : Int) : CivilDate :=
  let shifted := days + 719468
  let era := shifted / 146097
  let dayOfEra := (shifted % 146097).toNat
  let yearOfEra := (dayOfEra - dayOfEra / 1460 + dayOfEra / 36524 - dayOfEra / 146096) / 365
  let dayOfYear := dayOfEra - (365 * yearOfEra + yearOfEra / 4 - yearOfEra / 100)
  let marchMonth := (5 * dayOfYear + 2) / 153
  let month := if marchMonth < 10 then marchMonth + 3 else marchMonth - 9
  { year := (yearOfEra : Int) + era * 400 + (if month ≤ 2 then 1 else 0)
    month := month
    day := dayOfYear - (153 * marchMonth + 2) / 5 + 1 }

end CivilDate

namespace Instant

/-- Milliseconds in a day. -/
def day : Int := 86400000

/-- The instant furthest from the start of 1970. -/
def latest : Int := 8640000000000000

/-- Drops the fraction of a number of milliseconds; `none` beyond `latest` and for what is no finite
number. -/
def ofNumber? (n : Number) : Option Int :=
  match n.truncate.toRat? with
  | some q => if q.num.natAbs ≤ latest.toNat then some q.num else none
  | none => none

/-- Decimal digits of `n`, with zeros in front up to `width`. -/
def padded (width n : Nat) : String :=
  let digits := toString n
  String.ofList (List.replicate (width - digits.length) '0') ++ digits

/-- A year in four digits, or with a sign in six when it does not lie between 0 and 9999. -/
def isoYear (year : Int) : String :=
  if 0 ≤ year ∧ year ≤ 9999 then padded 4 year.toNat
  else (if year < 0 then "-" else "+") ++ padded 6 year.natAbs

/-- Hours, minutes and seconds of a time of day. -/
def clockText (time : Nat) : String :=
  padded 2 (time / 3600000) ++ ":" ++ padded 2 (time / 60000 % 60) ++ ":" ++
    padded 2 (time / 1000 % 60)

/-- Date, `T`, time with milliseconds, `Z`. -/
def isoText (ms : Int) : String :=
  let date := CivilDate.ofDays (ms / day)
  let time := (ms % day).toNat
  isoYear date.year ++ "-" ++ padded 2 date.month ++ "-" ++ padded 2 date.day ++ "T" ++
    clockText time ++ "." ++ padded 3 (time % 1000) ++ "Z"

/-- Names of the days of the week; the first of January 1970 was a Thursday. -/
def weekdays : List String := ["Thu", "Fri", "Sat", "Sun", "Mon", "Tue", "Wed"]

/-- Names of the months. -/
def months : List String :=
  ["Jan", "Feb", "Mar", "Apr", "May", "Jun", "Jul", "Aug", "Sep", "Oct", "Nov", "Dec"]

/-- Weekday, date, time and zone. -/
def longText (ms : Int) : String :=
  let days := ms / day
  let date := CivilDate.ofDays days
  let year := (if date.year < 0 then "-" else "") ++ padded 4 date.year.natAbs
  weekdays.getD (days % 7).toNat "" ++ " " ++ months.getD (date.month - 1) "" ++ " " ++
    padded 2 date.day ++ " " ++
    year ++ " " ++ clockText (ms % day).toNat ++ " GMT+0000 (Coordinated Universal Time)"

end Instant

end LazyFrame
