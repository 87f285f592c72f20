/-!
# Text.Numeral — reading unsigned numbers

Numbers in names of record types, record payloads and options are runs of decimal digits of any
length; their value has to fit the field they are for.
-/

namespace NameServer
namespace Text

/-- The value of an ASCII decimal digit. -/
def digit? (c : Char) : Option Nat :=
  if c.isDigit then some (c.toNat - '0'.toNat) else none

/-- The value of a hexadecimal digit. -/
def hexDigit? (c : Char) : Option Nat :=
  if c.isDigit then some (c.toNat - '0'.toNat)
  else if 'a' ≤ c ∧ c ≤ 'f' then some (c.toNat - 'a'.toNat + 10)
  else if 'A' ≤ c ∧ c ≤ 'F' then some (c.toNat - 'A'.toNat + 10)
  else none

/-- The value of a run of digits, read after digits worth `value`. -/
def digitsFrom? (value : Nat) : List Char → Option Nat
  | [] => some value
  | c :: cs => (digit? c).bind fun d => digitsFrom? (10 * value + d) cs

/-- The value of one or more decimal digits; leading zeros are allowed. -/
def decimal? : List Char → Option Nat
  | [] => none
  | cs => digitsFrom? 0 cs

/-- A number below `bound`, with at most one plus sign in front of its digits. -/
def unsigned? (bound : Nat) (cs : List Char) : Option Nat :=
  let digits := match cs with
    | '+' :: rest => rest
    | _ => cs
  (decimal? digits).filter (· < bound)

/-- A number that fits 16 bits. -/
def word16? (cs : List Char) : Option UInt16 :=
  (unsigned? UInt16.size cs).map UInt16.ofNat

/-- A number that fits 32 bits. -/
def word32? (cs : List Char) : Option UInt32 :=
  (unsigned? UInt32.size cs).map UInt32.ofNat

/-- A number that fits 64 bits. -/
def word64? (cs : List Char) : Option UInt64 :=
  (unsigned? UInt64.size cs).map UInt64.ofNat

end Text
end NameServer
