import VehicleRentals.Domain.Errors

/-!
# Instants and spans of time

A Python `datetime` normalised to UTC and a `timedelta`, both in whole
microseconds, with the ranges the standard library represents and the
`OverflowError` it raises outside them.
-/

namespace VehicleRentals

/-- Microseconds since 1970-01-01T00:00Z. -/
abbrev Instant := Int

/-- Microseconds. -/
abbrev Timedelta := Int

def microsecondsPerMinute : Int := 60000000
def microsecondsPerHour : Int := 3600000000
def microsecondsPerDay : Int := 86400000000

/-- `datetime.min`, 0001-01-01T00:00Z. -/
def Instant.min : Instant := -62135596800000000

/-- `datetime.max`, 9999-12-31T23:59:59.999999Z. -/
def Instant.max : Instant := 253402300799999999

/-- `timedelta.min` and `timedelta.max`. -/
def Timedelta.min : Timedelta := -86399999913600000000
def Timedelta.max : Timedelta := 86399999999999999999

/-- `timedelta(hours=n)` and `timedelta(days=n)`. -/
def Timedelta.hours (n : Int) : Timedelta := n * microsecondsPerHour
def Timedelta.minutes (n : Int) : Timedelta := n * microsecondsPerMinute
def Timedelta.days (n : Int) : Timedelta := n * microsecondsPerDay

/-- `datetime - timedelta`. -/
def Instant.sub (t : Instant) (d : Timedelta) : Except Exn Instant :=
  if Instant.min ≤ t - d ∧ t - d ≤ Instant.max then .ok (t - d) else .error .overflowError

/-- `timedelta + timedelta`. -/
def Timedelta.add (a b : Timedelta) : Except Exn Timedelta :=
  if Timedelta.min ≤ a + b ∧ a + b ≤ Timedelta.max then .ok (a + b) else .error .overflowError

/-- `n` in decimal with at least `width` digits. -/
def padded (width : Nat) (n : Int) : String :=
  let digits := toString n
  String.ofList (List.replicate (width - digits.length) '0') ++ digits

/-- Year, month and day of a day counted from 1970-01-01, in the proleptic
Gregorian calendar. -/
def civilFromDays (days : Int) : Int × Int × Int :=
  -- counted from 0000-03-01, in eras of 400 years, so that leap days come last
  let z := days + 719468
  let era := z / 146097
  let dayOfEra := z % 146097
  let yearOfEra := (dayOfEra - dayOfEra / 1460 + dayOfEra / 36524 - dayOfEra / 146096) / 365
  let dayOfYear := dayOfEra - (365 * yearOfEra + yearOfEra / 4 - yearOfEra / 100)
  let monthFromMarch := (5 * dayOfYear + 2) / 153
  let day := dayOfYear - (153 * monthFromMarch + 2) / 5 + 1
  let month := if monthFromMarch < 10 then monthFromMarch + 3 else monthFromMarch - 9
  (yearOfEra + era * 400 + (if month ≤ 2 then 1 else 0), month, day)

/-- `f"{t:%Y-%m-%d %H:%M}"`. -/
def Instant.strftime (t : Instant) : String :=
  let date := civilFromDays (t / microsecondsPerDay)
  let minute := t % microsecondsPerDay / microsecondsPerMinute
  padded 4 date.1 ++ "-" ++ padded 2 date.2.1 ++ "-" ++ padded 2 date.2.2 ++ " " ++
    padded 2 (minute / 60) ++ ":" ++ padded 2 (minute % 60)

example : civilFromDays 20463 = (2026, 1, 10) ∧ civilFromDays (-719162) = (1, 1, 1) ∧
    civilFromDays 19782 = (2024, 2, 29) := by decide

end VehicleRentals
