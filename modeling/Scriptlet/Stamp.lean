import Scriptlet.Bytes

/-! # Time stamps

A moment, given as seconds since the start of 1970, written as a date and a time of day in UTC.
-/
namespace Scriptlet

namespace Stamp

structure Date where
  year : Nat
  month : Nat
  day : Nat
  deriving DecidableEq, Repr

/-- The date a number of days after the first of January 1970. Years are counted from March on, so
that a leap day is the last day of its year; 400 years have 146097 days. -/
def dateOfDays (days : Nat) : Date :=
  let n := days + 719468
  let era := n / 146097
  let dayOfEra := n % 146097
  let yearOfEra := (dayOfEra - dayOfEra / 1460 + dayOfEra / 36524 - dayOfEra / 146096) / 365
  let dayOfYear := dayOfEra - (365 * yearOfEra + yearOfEra / 4 - yearOfEra / 100)
  let shifted := (5 * dayOfYear + 2) / 153
  let month := if shifted < 10 then shifted + 3 else shifted - 9
  { year := 400 * era + yearOfEra + (if month ≤ 2 then 1 else 0)
    month
    day := dayOfYear - (153 * shifted + 2) / 5 + 1 }

/-- A number with leading zeros up to a width. -/
def padded (width n : Nat) : Bytes :=
  let digits := decimal n
  List.replicate (width - digits.length) 0x30 ++ digits

def ofSeconds (seconds : Nat) : Bytes :=
  let date := dateOfDays (seconds / 86400)
  let time := seconds % 86400
  padded 4 date.year ++ utf8 "-" ++ padded 2 date.month ++ utf8 "-" ++ padded 2 date.day ++
    utf8 "T" ++ padded 2 (time / 3600) ++ utf8 ":" ++ padded 2 (time / 60 % 60) ++ utf8 ":" ++
    padded 2 (time % 60) ++ utf8 "Z"

end Stamp

end Scriptlet
