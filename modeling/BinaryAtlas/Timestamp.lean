/-!
Points in time in the Gregorian calendar, written as `2024-01-02T03:04:05.678Z`.
-/

set_option autoImplicit false

namespace BinaryAtlas

/-- A point in time, counted from the beginning of 1970. A leap second belongs to the second before
it, which then has nanoseconds from `10 ^ 9` on. -/
structure Timestamp where
  seconds : Int
  nanoseconds : Nat
  deriving DecidableEq, Inhabited

namespace Timestamp

def daysOfDate (year month day : Int) : Int :=
  -- The days from the beginning of 1970 to a date. Years are counted from March, so that the leap
  -- day is the last of its year, and in cycles of 400 years of the same length.
  let y := if month ≤ 2 then year - 1 else year
  let m := if 2 < month then month - 3 else month + 9
  let inCycle := y % 400
  (y / 400) * 146097 + inCycle * 365 + inCycle / 4 - inCycle / 100 + (153 * m + 2) / 5 + day - 1 -
    719468

def dateOfDays (days : Int) : Int × Int × Int :=
  let z := days + 719468
  let inCycle := z % 146097
  let y := (inCycle - inCycle / 1460 + inCycle / 36524 - inCycle / 146096) / 365
  let inYear := inCycle - (365 * y + y / 4 - y / 100)
  let m := (5 * inYear + 2) / 153
  let month := if m < 10 then m + 3 else m - 9
  ((z / 146097) * 400 + y + (if month ≤ 2 then 1 else 0), month, inYear - (153 * m + 2) / 5 + 1)

def padded (width n : Nat) : String :=
  let digits := Nat.toDigits 10 n
  String.ofList (List.replicate (width - digits.length) '0' ++ digits)

def fractionText (nanoseconds : Nat) : String :=
  if nanoseconds = 0 then ""
  else if nanoseconds % 1000000 = 0 then "." ++ padded 3 (nanoseconds / 1000000)
  else if nanoseconds % 1000 = 0 then "." ++ padded 6 (nanoseconds / 1000)
  else "." ++ padded 9 nanoseconds

def yearText (year : Int) : String :=
  -- A year in four digits. One before the year 0 or behind the year 9999 has a sign.
  if year < 0 then "-" ++ padded 4 year.natAbs
  else if 9999 < year then "+" ++ padded 4 year.natAbs
  else padded 4 year.natAbs

def text (t : Timestamp) : String :=
  let (year, month, day) := dateOfDays (t.seconds / 86400)
  let ofDay := (t.seconds % 86400).toNat
  yearText year ++ "-" ++ padded 2 month.toNat ++ "-" ++ padded 2 day.toNat ++ "T" ++
    padded 2 (ofDay / 3600) ++ ":" ++ padded 2 (ofDay / 60 % 60) ++ ":" ++
    padded 2 (ofDay % 60 + t.nanoseconds / 1000000000) ++
    fractionText (t.nanoseconds % 1000000000) ++ "Z"

end Timestamp

end BinaryAtlas
