import Mathlib.Data.String.Basic

/-!
# Dates and their ISO texts

A `Date` of ECMAScript is a whole number of milliseconds since 1970, at most
8.64e15 away from it, or invalid.  `toISOString` writes years outside
0..9999 with a sign and six digits, so the order of the texts is the order of
the dates for years 0..9999 only.
-/

namespace Rbo.Foundation

/-- A `Date`; `none` is the invalid one. -/
structure Date where
  time : Option Int
  deriving DecidableEq

namespace Date

/-- The largest distance from 1970 that a date can have. -/
def maxTime : Int := 8640000000000000

/-- `new Date(value)` for a whole number of milliseconds. -/
def ofTime (value : Int) : Date :=
  if -maxTime ≤ value ∧ value ≤ maxTime then ⟨some value⟩ else ⟨none⟩

/-- A number in decimal, padded with zeros on the left. -/
def padded (width value : Nat) : String :=
  let digits := toString value
  String.ofList (List.replicate (width - digits.length) '0') ++ digits

/-- Years 0..9999 have four digits, the others a sign and six. -/
def yearText (year : Int) : String :=
  if 0 ≤ year ∧ year ≤ 9999 then padded 4 year.toNat
  else if year < 0 then "-" ++ padded 6 (-year).toNat
  else "+" ++ padded 6 year.toNat

/-- Year, month and day of a day number in the proleptic Gregorian
calendar, counted in eras of 400 years that start in March. -/
def civil (days : Int) : Int × Nat × Nat :=
  let shifted := days + 719468
  let era := shifted / 146097
  let dayOfEra := (shifted % 146097).toNat
  let yearOfEra :=
    (dayOfEra - dayOfEra / 1460 + dayOfEra / 36524 - dayOfEra / 146096) / 365
  let dayOfYear :=
    dayOfEra - (365 * yearOfEra + yearOfEra / 4 - yearOfEra / 100)
  let shiftedMonth := (5 * dayOfYear + 2) / 153
  let day := dayOfYear - (153 * shiftedMonth + 2) / 5 + 1
  let month := if shiftedMonth < 10 then shiftedMonth + 3
    else shiftedMonth - 9
  let year : Int := yearOfEra + era * 400
  (if month ≤ 2 then year + 1 else year, month, day)

/-- The ISO text of a time value. -/
def isoText (time : Int) : String :=
  let date := civil (time / 86400000)
  let rest := (time % 86400000).toNat
  yearText date.1 ++ "-" ++ padded 2 date.2.1 ++ "-" ++ padded 2 date.2.2 ++
    "T" ++ padded 2 (rest / 3600000) ++ ":" ++
    padded 2 (rest / 60000 % 60) ++ ":" ++ padded 2 (rest / 1000 % 60) ++
    "." ++ padded 3 (rest % 1000) ++ "Z"

/-- `toISOString`; an invalid date has no text. -/
def toISOString? (date : Date) : Option String :=
  date.time.map isoText

end Date

end Rbo.Foundation
