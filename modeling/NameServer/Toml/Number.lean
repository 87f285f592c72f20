import NameServer.Text.Numeral
import NameServer.Toml.Value

/-!
# Toml.Number — numbers of a settings file

Integers are decimal with an optional sign, or hexadecimal, octal or binary without one. Single
underscores may stand between digits, and decimal numbers have no leading zero. A word may have the
shape of an integer and nothing in the place of digits, or other characters than digits behind an
underscore, but no space; such an integer has no value.
-/

namespace NameServer
namespace Toml
namespace Number

/-! ## Digits -/

/-- The value of a digit in a base of at most sixteen. -/
def digit? (base : Nat) (c : Char) : Option Nat :=
  (Text.hexDigit? c).filter (· < base)

/-- Whether a character is a digit in a base of at most sixteen. -/
def isDigit (base : Nat) (c : Char) : Bool :=
  (digit? base c).isSome

/-- The value of digits that follow digits worth `value`. -/
def digitsFrom? (base value : Nat) : List Char → Option Nat
  | [] => some value
  | c :: cs => (digit? base c).bind fun d => digitsFrom? base (base * value + d) cs

/-- The value of one or more digits. -/
def digits? (base : Nat) : List Char → Option Nat
  | [] => none
  | cs => digitsFrom? base 0 cs

/-- A text without its underscores. -/
def withoutUnderscores (cs : List Char) : List Char :=
  cs.filter (· ≠ '_')

/-- Whether every underscore of a text stands between two digits, where `afterDigit` tells whether
the text itself follows a digit. -/
def isSpacedAfter (base : Nat) (afterDigit : Bool) : List Char → Bool
  | [] => true
  | ['_'] => false
  | '_' :: c :: cs => afterDigit && isDigit base c && isSpacedAfter base true cs
  | c :: cs => isSpacedAfter base (isDigit base c) cs

/-- Whether every underscore of a text stands between two digits. -/
def isSpaced (base : Nat) (cs : List Char) : Bool :=
  isSpacedAfter base false cs

/-- The decimal digits at the front of a text, without the underscores between them, and what
follows them. -/
def cutDigits (cs : List Char) : List Char × List Char :=
  let (digits, rest) := cs.span fun c => c.isDigit || c == '_'
  (withoutUnderscores digits, rest)

/-! ## Signs -/

/-- The sign of a word, if it has one, and what is behind it. -/
def cutSign : List Char → Option Char × List Char
  | '-' :: cs => (some '-', cs)
  | '+' :: cs => (some '+', cs)
  | cs => (none, cs)

/-- A number with a sign. -/
def signed (sign? : Option Char) (n : Nat) : Int :=
  if sign? = some '-' then -n else n

/-! ## Numbers -/

/-- The integer behind the letter of its base. -/
def based? (base : Nat) (cs : List Char) : Option Value :=
  let digits := withoutUnderscores cs
  if digits.all (isDigit base) && isSpaced base cs then
    some (.integer ((digits? base digits).map Int.ofNat))
  else none

/-- The integer that a sign and what is behind it spell. -/
def integer? (sign? : Option Char) (body : List Char) : Option Value :=
  if body.isEmpty || (body.head? = some '0' && body ≠ ['0']) then none
  else if isSpaced 16 body then
    some (.integer ((digits? 10 (withoutUnderscores body)).map (signed sign?)))
  else none

/-- The digits of a fraction, which may be missing, and what follows them. -/
def fraction? : List Char → Option (List Char × List Char)
  | '.' :: cs =>
    let (digits, rest) := cutDigits cs
    if digits.isEmpty then none else some (digits, rest)
  | cs => some ([], cs)

/-- The power of ten of an exponent, which may be missing. -/
def exponent? : List Char → Option Int
  | [] => some 0
  | c :: cs =>
    let (sign?, cs) := cutSign cs
    let (digits, rest) := cutDigits cs
    if (c = 'e' || c = 'E') && rest.isEmpty then (digits? 10 digits).map (signed sign?) else none

/-- The number with a point or an exponent that a sign and what is behind it spell. -/
def decimal? (sign? : Option Char) (body : List Char) : Option Value := do
  let (whole, rest) := cutDigits body
  let (fraction, rest) ← fraction? rest
  let exponent ← exponent? rest
  if whole.isEmpty || (1 < whole.length && body.head? = some '0') then none
  if !isSpaced 10 body then none
  let digits ← digits? 10 (whole ++ fraction)
  return .decimal (.finite (sign? = some '-') digits (exponent - fraction.length))

/-- The number that a word spells. What follows the first digits tells which kind it is. -/
def ofWord? (cs : List Char) : Option Value :=
  match cs with
  | '0' :: 'x' :: cs => based? 16 cs
  | '0' :: 'o' :: cs => based? 8 cs
  | '0' :: 'b' :: cs => based? 2 cs
  | _ =>
    let (sign?, body) := cutSign cs
    if body = ['i', 'n', 'f'] then some (.decimal (.infinite (sign? = some '-')))
    else if body = ['n', 'a', 'n'] then some (.decimal .notANumber)
    else
      let rest := body.dropWhile Char.isDigit
      if rest.contains ' ' then none
      else if rest.any fun c => c == '.' || c == 'e' || c == 'E' then decimal? sign? body
      else if rest.isEmpty || rest.head? = some '_' then integer? sign? body
      else none

end Number
end Toml
end NameServer
