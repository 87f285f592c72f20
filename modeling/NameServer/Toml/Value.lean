/-!
# Toml.Value — values of a settings file

A settings file is a table of values under keys. Tables remember how they came about, because that
decides what may still be added to them while the file is read.
-/

namespace NameServer
namespace Toml

/-- A number with a point or an exponent. -/
inductive Decimal
  /-- The digits, times a power of ten. -/
  | finite (negative : Bool) (digits : Nat) (exponent : Int)
  | infinite (negative : Bool)
  | notANumber
  deriving DecidableEq, Repr

/-- How a table came about. -/
inductive TableKind
  /-- By a header of its own. -/
  | header
  /-- On the way to the table of a header. -/
  | implied
  /-- On the way to the value of a dotted key. -/
  | dotted
  /-- As a value between braces. -/
  | braced
  deriving DecidableEq, Repr

/-- A value of a settings file. -/
inductive Value
  | text (text : String)
  /-- An integer; none if its digits are not those of its base. -/
  | integer (value? : Option Int)
  | decimal (value : Decimal)
  | boolean (value : Bool)
  /-- A date, a time of day or both, as it is written. -/
  | date (text : String)
  /-- Values in order; `growing` if they are the tables of headers in double brackets. -/
  | array (growing : Bool) (items : List Value)
  | table (kind : TableKind) (entries : List (String × Value))
  deriving Repr

/-- Values under distinct keys, in the order in which they were added. -/
abbrev Entries := List (String × Value)

/-! ## Values beyond every number type -/

/-- The least number that is rounded to infinity among doubles. -/
def doubleBound : Nat := Nat.pow 2 1024 - Nat.pow 2 970

/-- Whether a number is below the largest that a double can be rounded to. Its size decides unless
it has 309 digits in front of the point. -/
def Decimal.isDouble : Decimal → Bool
  | finite _ digits exponent =>
    let size := (Nat.toDigits 10 digits).length + exponent
    digits == 0 || size < 309 ||
      (size == 309 &&
        digits * Nat.pow 10 exponent.toNat < doubleBound * Nat.pow 10 (-exponent).toNat)
  | infinite _ | notANumber => true

namespace Value

mutual

/-- Whether all numbers in a value are known and fit the widest types: 128 bits for integers,
doubles for the others. -/
def isReadable : Value → Bool
  | integer (some value) =>
    -Int.ofNat (Nat.pow 2 127) ≤ value && value < Int.ofNat (Nat.pow 2 128)
  | integer none => false
  | decimal value => value.isDouble
  | array _ items => allReadable items
  | table _ entries => entriesReadable entries
  | text _ | boolean _ | date _ => true

/-- Whether all items are readable. -/
def allReadable : List Value → Bool
  | [] => true
  | item :: items => item.isReadable && allReadable items

/-- Whether all values of entries are readable. -/
def entriesReadable : List (String × Value) → Bool
  | [] => true
  | (_, value) :: entries => value.isReadable && entriesReadable entries

end

end Value
end Toml
end NameServer
