/-! # Points in time as text

* **`CivilDate`**, **`CivilDate.ofDays`** — the date of a day in the Gregorian calendar.
* **`timestampText`** — a point in universal time as `YYYY-MM-DDTHH:MM:SSZ`.

Years are counted from March here, so that a leap day is the last day of its year, and 400 years are
a whole period of the calendar.
-/

namespace AliasReport

/-- A date of the Gregorian calendar. -/
structure CivilDate where
  year : Nat
  month : Nat
  day : Nat
deriving DecidableEq, Repr

/-- The date of a day, counted from the first day of 1970. -/
def CivilDate.ofDays (days : Nat) : CivilDate :=
  let sinceMarch := days + 719468
  let period := sinceMarch / 146097
  let dayOfPeriod := sinceMarch % 146097
  let yearOfPeriod :=
    (dayOfPeriod - dayOfPeriod / 1460 + dayOfPeriod / 36524 - dayOfPeriod / 146096) / 365
  let dayOfYear := dayOfPeriod - (365 * yearOfPeriod + yearOfPeriod / 4 - yearOfPeriod / 100)
  let monthFromMarch := (5 * dayOfYear + 2) / 153
  let day := dayOfYear - (153 * monthFromMarch + 2) / 5 + 1
  let month := if monthFromMarch < 10 then monthFromMarch + 3 else monthFromMarch - 9
  ⟨yearOfPeriod + period * 400 + (if month ≤ 2 then 1 else 0), month, day⟩

/-- A number with zeros in front up to a width. -/
def zeroPadded (width n : Nat) : String :=
  let digits := Nat.toDigits 10 n
  String.ofList (List.replicate (width - digits.length) '0' ++ digits)

/-- The text of a point in universal time, given in seconds from the start of 1970. -/
def timestampText (seconds : Nat) : String :=
  let date := CivilDate.ofDays (seconds / 86400)
  let time := seconds % 86400
  zeroPadded 4 date.year ++ "-" ++ zeroPadded 2 date.month ++ "-" ++ zeroPadded 2 date.day ++ "T"
    ++ zeroPadded 2 (time / 3600) ++ ":" ++ zeroPadded 2 (time / 60 % 60) ++ ":"
    ++ zeroPadded 2 (time % 60) ++ "Z"

end AliasReport
