/-!
# Toml.Date — dates of a settings file

A date is `2024-02-29`, a time of day `23:59`, `23:59:60` or `23:59:59.25`, and a moment is a date
and a time with the letter T or a space between them, perhaps with its distance from Universal Time.
-/

namespace NameServer
namespace Toml
namespace Date

/-- The value of exactly `width` decimal digits, read after digits worth `value`, and what follows
them. -/
def digitsFrom? (value : Nat) : Nat → List Char → Option (Nat × List Char)
  | 0, cs => some (value, cs)
  | width + 1, c :: cs =>
    if c.isDigit then digitsFrom? (10 * value + (c.toNat - '0'.toNat)) width cs else none
  | _ + 1, [] => none

/-- The value of exactly `width` decimal digits, and what follows them. -/
def digits? (width : Nat) (cs : List Char) : Option (Nat × List Char) :=
  digitsFrom? 0 width cs

/-- The text behind a character that has to be in front. -/
def behind? (c : Char) : List Char → Option (List Char)
  | d :: cs => if d = c then some cs else none
  | [] => none

/-- The number of days of a month. -/
def daysOfMonth (year month : Nat) : Nat :=
  if month = 2 then
    if year % 4 = 0 ∧ (year % 100 ≠ 0 ∨ year % 400 = 0) then 29 else 28
  else if month = 4 ∨ month = 6 ∨ month = 9 ∨ month = 11 then 30
  else 31

/-- What follows a day of the calendar. -/
def afterDay? (cs : List Char) : Option (List Char) := do
  let (year, cs) ← digits? 4 cs
  let (month, cs) ← digits? 2 (← behind? '-' cs)
  let (day, cs) ← digits? 2 (← behind? '-' cs)
  if 1 ≤ month ∧ month ≤ 12 ∧ 1 ≤ day ∧ day ≤ daysOfMonth year month then return cs else none

/-- What follows the part of a second, which may be missing. -/
def afterFraction? : List Char → Option (List Char)
  | '.' :: c :: cs => if c.isDigit then some (cs.dropWhile Char.isDigit) else none
  | '.' :: [] => none
  | cs => some cs

/-- What follows the seconds, which may be missing. -/
def afterSeconds? : List Char → Option (List Char)
  | ':' :: cs => do
    let (second, cs) ← digits? 2 cs
    if second ≤ 60 then afterFraction? cs else none
  | cs => some cs

/-- What follows a time of day. -/
def afterTime? (cs : List Char) : Option (List Char) := do
  let (hour, cs) ← digits? 2 cs
  let (minute, cs) ← digits? 2 (← behind? ':' cs)
  if hour ≤ 23 ∧ minute ≤ 59 then afterSeconds? cs else none

/-- Whether a text is a distance from Universal Time. -/
def isOffset (cs : List Char) : Bool :=
  match cs with
  | ['Z'] | ['z'] => true
  | '+' :: rest | '-' :: rest =>
    match (do
      let (hours, rest) ← digits? 2 rest
      let (minutes, rest) ← digits? 2 (← behind? ':' rest)
      return (hours, minutes, rest)) with
    | some (hours, minutes, []) => hours ≤ 23 && minutes ≤ 59
    | _ => false
  | _ => false

/-- Whether a text is a day, a time of day or a moment. -/
def isDate (cs : List Char) : Bool :=
  match afterDay? cs with
  | some [] => true
  | some (c :: rest) =>
    (c == 'T' || c == 't' || c == ' ') &&
      match afterTime? rest with
      | some [] => true
      | some offset => isOffset offset
      | none => false
  | none => afterTime? cs == some []

end Date
end Toml
end NameServer
