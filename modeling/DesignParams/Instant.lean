import DesignParams.Text.Basic

/-!
# Instants

A point in time, counted from the beginning of 1970 in universal time. Its text has milliseconds,
cut off and not rounded. A second that is counted twice is written as the sixtieth of its minute.
-/
set_option autoImplicit false

namespace DesignParams

structure Instant where
  seconds : Int
  /-- Nanoseconds into the second; from `10 ^ 9` on it is the second counted twice. -/
  nanos : Nat
deriving DecidableEq, Repr

structure CalendarDay where
  year : Int
  month : Nat
  day : Nat
deriving DecidableEq, Repr

namespace CalendarDay

/-- The calendar day a number of days behind the beginning of 1970. Years are taken to begin in
March, so that the leap day is their last, and 400 of them have 146097 days. -/
def ofDays (days : Int) : CalendarDay :=
  let shifted := days + 719468
  let era := Int.fdiv shifted 146097
  let dayOfEra := (Int.fmod shifted 146097).toNat
  let yearOfEra := (dayOfEra - dayOfEra / 1460 + dayOfEra / 36524 - dayOfEra / 146096) / 365
  let dayOfYear := dayOfEra - (365 * yearOfEra + yearOfEra / 4 - yearOfEra / 100)
  let marchMonth := (5 * dayOfYear + 2) / 153
  let month := if marchMonth < 10 then marchMonth + 3 else marchMonth - 9
  { year := era * 400 + yearOfEra + if month ≤ 2 then 1 else 0
    month
    day := dayOfYear - (153 * marchMonth + 2) / 5 + 1 }

end CalendarDay

namespace Instant

def padded (width n : Nat) : Text :=
  let digits := Text.ofNat n
  Text.repeated '0' (width - digits.length) ++ digits

/-- Years of more or less than four digits carry their sign. -/
def yearText (year : Int) : Text :=
  if 0 ≤ year ∧ year ≤ 9999 then padded 4 year.toNat
  else (if year < 0 then '-' else '+') :: padded 4 year.natAbs

def text (t : Instant) : Text :=
  let date := CalendarDay.ofDays (Int.fdiv t.seconds 86400)
  let second := (Int.fmod t.seconds 86400).toNat
  yearText date.year ++ '-' :: padded 2 date.month ++ '-' :: padded 2 date.day ++
    'T' :: padded 2 (second / 3600) ++ ':' :: padded 2 (second / 60 % 60) ++
    ':' :: padded 2 (second % 60 + t.nanos / 1000000000) ++
    '.' :: padded 3 (t.nanos % 1000000000 / 1000000) ++ ['Z']

end Instant

end DesignParams
