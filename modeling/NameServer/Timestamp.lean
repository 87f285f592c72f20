/-!
# Timestamp — moments of Universal Time

A store remembers when it was opened. The moment is counted in seconds and nanoseconds since the
start of 1970 and shown as a date of the Gregorian calendar.
-/

namespace NameServer

/-- A moment, as seconds since the start of 1970 and nanoseconds into the second. -/
structure Timestamp where
  seconds : Nat
  nanos : Nat
  deriving DecidableEq, Repr

namespace Timestamp

/-- The year, month and day of the day with this number, counted from the start of 1970. Years are
taken to begin in March, so that the leap day is the last of its year. -/
def civil (day : Nat) : Nat × Nat × Nat :=
  let z := day + 719468
  let era := z / 146097
  let dayOfEra := z % 146097
  let yearOfEra := (dayOfEra - dayOfEra / 1460 + dayOfEra / 36524 - dayOfEra / 146096) / 365
  let dayOfYear := dayOfEra - (365 * yearOfEra + yearOfEra / 4 - yearOfEra / 100)
  let m := (5 * dayOfYear + 2) / 153
  let day := dayOfYear - (153 * m + 2) / 5 + 1
  let month := if m < 10 then m + 3 else m - 9
  let year := yearOfEra + era * 400
  (if month ≤ 2 then year + 1 else year, month, day)

/-- A number in at least `width` digits. -/
def padded (width n : Nat) : String :=
  let digits := Nat.toDigits 10 n
  String.ofList (List.replicate (width - digits.length) '0' ++ digits)

/-- The part of a second, in three, six or nine digits, or nothing. -/
def fraction (nanos : Nat) : String :=
  if nanos = 0 then ""
  else if nanos % 1000000 = 0 then "." ++ padded 3 (nanos / 1000000)
  else if nanos % 1000 = 0 then "." ++ padded 6 (nanos / 1000)
  else "." ++ padded 9 nanos

/-- The date of a moment. -/
def date (t : Timestamp) : String :=
  let (year, month, day) := civil (t.seconds / 86400)
  s!"{padded 4 year}-{padded 2 month}-{padded 2 day}"

/-- The time of day of a moment. -/
def time (t : Timestamp) : String :=
  let s := t.seconds % 86400
  s!"{padded 2 (s / 3600)}:{padded 2 (s / 60 % 60)}:{padded 2 (s % 60)}{fraction t.nanos}"

/-- The moment for people to read. -/
def text (t : Timestamp) : String :=
  s!"{t.date} {t.time} UTC"

/-- The moment in the notation of Internet time stamps. -/
def internetText (t : Timestamp) : String :=
  s!"{t.date}T{t.time}Z"

end Timestamp
end NameServer
