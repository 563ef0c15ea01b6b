/-
Points in time as text, in universal time and to the second:
`2025-09-04T17:12:09Z`. Time is counted in seconds from the start of 1970.
-/

namespace CilWeave

/-- A point in time, to the second. -/
structure Timestamp where
  /-- Seconds since the start of 1970, negative before it. -/
  seconds : Int
  deriving DecidableEq, Repr, Inhabited

/-- A day of the calendar. -/
structure CalendarDay where
  /-- The year. -/
  year : Int
  /-- The month, from 1 on. -/
  month : Nat
  /-- The day of the month, from 1 on. -/
  day : Nat
  deriving DecidableEq, Repr, Inhabited

namespace CalendarDay

/-- The day so many days after the first of January 1970. The count is taken from the
first of March of year zero, in eras of 400 years, which are all equally long; a
year that starts in March has its leap day last. -/
def ofDayCount (days : Int) : CalendarDay :=
  let shifted := days + 719468
  let era := shifted / 146097
  let dayOfEra := (shifted % 146097).toNat
  let yearOfEra := (dayOfEra - dayOfEra / 1460 + dayOfEra / 36524 - dayOfEra / 146096) / 365
  let dayOfYear := dayOfEra - (365 * yearOfEra + yearOfEra / 4 - yearOfEra / 100)
  let monthFromMarch := (5 * dayOfYear + 2) / 153
  let month := if monthFromMarch < 10 then monthFromMarch + 3 else monthFromMarch - 9
  let year : Int := yearOfEra + era * 400
  ⟨if month ≤ 2 then year + 1 else year, month,
    dayOfYear - (153 * monthFromMarch + 2) / 5 + 1⟩

end CalendarDay

namespace Timestamp

/-- A number in at least so many decimal digits. -/
def padded (width n : Nat) : String :=
  let digits := Nat.toDigits 10 n
  String.ofList (List.replicate (width - digits.length) '0' ++ digits)

/-- A year in four digits, with a sign if it does not fit them. -/
def yearText (year : Int) : String :=
  if 0 ≤ year ∧ year ≤ 9999 then padded 4 year.toNat
  else (if year < 0 then "-" else "+") ++ padded 4 year.natAbs

def text (t : Timestamp) : String :=
  let date := CalendarDay.ofDayCount (t.seconds / 86400)
  let second := (t.seconds % 86400).toNat
  yearText date.year ++ "-" ++ padded 2 date.month ++ "-" ++ padded 2 date.day ++ "T"
    ++ padded 2 (second / 3600) ++ ":" ++ padded 2 (second / 60 % 60) ++ ":"
    ++ padded 2 (second % 60) ++ "Z"

end Timestamp

end CilWeave
