import NameServer.Text.Blank
import NameServer.Text.Numeral
import NameServer.Text.Utf8

/-!
# Text.Percent — bytes and parameters in an address

In an address a percent sign and two hexadecimal digits stand for a byte. The parameters behind its
question mark are names and values; among them a plus sign stands for a space.
-/

namespace NameServer
namespace Text

/-- The bytes that a text with percent signs stands for. A percent sign without two digits behind it
stands for itself. -/
def percentBytes : List Char → List UInt8
  | [] => []
  | '%' :: high :: low :: cs =>
    match hexDigit? high, hexDigit? low with
    | some h, some l => UInt8.ofNat (16 * h + l) :: percentBytes cs
    | _, _ => 0x25 :: percentBytes (high :: low :: cs)
  | c :: cs => bytes (String.singleton c) ++ percentBytes cs

/-- The text of a part of a parameter. -/
def parameterText (cs : List Char) : String :=
  lossy (percentBytes (cs.map fun c => if c = '+' then ' ' else c))

/-- The names and values of parameters, which ampersands separate. A parameter without an equals
sign has the empty value, and an empty one is none. -/
def parameters (cs : List Char) : List (String × String) :=
  ((splitOn '&' cs).filter (· ≠ [])).map fun parameter =>
    let (name, value) := parameter.span (· ≠ '=')
    (parameterText name, parameterText value.tail)

end Text
end NameServer
