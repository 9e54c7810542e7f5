import EndpointCatalog.Text.Pad

/-! Dates of the Gregorian calendar, extended in both directions, from seconds since
the start of 1970. Days are counted from the first of March of the year 0, so that
a leap day is the last day of its year. -/

namespace EndpointCatalog.Report

structure Timestamp where
  year : Int
  month : Int
  day : Int
  hour : Int
  minute : Int
  second : Int
  deriving DecidableEq, Repr

namespace Timestamp

/-- Days from the first of March of the year 0 to the start of 1970. -/
def epochDay : Int := 719468

def daysPerEra : Int := 146097

def ofSeconds (seconds : Int) : Timestamp :=
  let time := seconds % 86400
  let days := seconds / 86400 + epochDay
  let era := days / daysPerEra
  let dayOfEra := days % daysPerEra
  let yearOfEra := (dayOfEra - dayOfEra / 1460 + dayOfEra / 36524 - dayOfEra / 146096) / 365
  let dayOfYear := dayOfEra - (365 * yearOfEra + yearOfEra / 4 - yearOfEra / 100)
  let shifted := (5 * dayOfYear + 2) / 153
  let month := if shifted < 10 then shifted + 3 else shifted - 9
  { year := yearOfEra + era * 400 + (if month ≤ 2 then 1 else 0)
    month
    day := dayOfYear - (153 * shifted + 2) / 5 + 1
    hour := time / 3600
    minute := time / 60 % 60
    second := time % 60 }

def two (n : Int) : String := Text.padLeft '0' 2 (toString n.natAbs)

/-- Four digits at least; a year outside of 0 to 9999 has a sign. -/
def yearText (y : Int) : String :=
  let digits := Text.padLeft '0' 4 (toString y.natAbs)
  if y < 0 then "-" ++ digits else if 9999 < y then "+" ++ digits else digits

def dateText (t : Timestamp) : String := yearText t.year ++ "-" ++ two t.month ++ "-" ++ two t.day

def timeText (t : Timestamp) : String := two t.hour ++ ":" ++ two t.minute ++ ":" ++ two t.second

/-- The form for readers, as in `1970-01-01 00:00:00 UTC`. -/
def text (t : Timestamp) : String := t.dateText ++ " " ++ t.timeText ++ " UTC"

/-- The form for programs, as in `1970-01-01T00:00:00+00:00`. -/
def isoText (t : Timestamp) : String := t.dateText ++ "T" ++ t.timeText ++ "+00:00"

end Timestamp

end EndpointCatalog.Report
