import NameServer.Text.Numeral
import NameServer.ZoneFile.Error

/-!
# ZoneFile.Ttl — lifetimes in text

A TTL is a number of seconds, of hours or of days, and at most 2³¹ - 1 seconds.
-/

namespace NameServer
namespace Ttl

/-- The longest lifetime that a text can name, in seconds. -/
def maxSeconds : Nat := 0x7FFFFFFF

/-- The seconds of the unit that a letter stands for. -/
def unit? : Char → Option Nat
  | 'd' | 'D' => some 86400
  | 'h' | 'H' => some 3600
  | _ => none

/-- A text without the unit at its end, and the seconds of that unit. -/
def cutUnit (cs : List Char) : List Char × Nat :=
  match cs.getLast?.bind unit? with
  | some seconds => (cs.dropLast, seconds)
  | none => (cs, 1)

/-- The lifetime that a text names. -/
def ofText (text : String) : Except EntryError UInt32 :=
  let (digits, unit) := cutUnit text.toList
  match Text.decimal? digits with
  | none => .error (.badTtl text)
  | some count =>
    if count * unit ≤ maxSeconds then .ok (UInt32.ofNat (count * unit))
    else .error (.largeTtl text)

end Ttl
end NameServer
