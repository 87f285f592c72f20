import NameServer.Text.GraphemeExtend
import NameServer.Text.Hidden

/-!
# Text.Quotation — texts between quotes

Between quotes everything is visible: what leaves no mark, or would merge with the character in
front, is written by its number.
-/

namespace NameServer
namespace Text

/-- A character as it stands between quotes. -/
def escaped : Char → List Char
  | '\x00' => ['\\', '0']
  | '\t' => ['\\', 't']
  | '\n' => ['\\', 'n']
  | '\r' => ['\\', 'r']
  | '"' => ['\\', '"']
  | '\\' => ['\\', '\\']
  | c =>
    if isHidden c || extendsGrapheme c then
      ['\\', 'u', '\x7b'] ++ Nat.toDigits 16 c.toNat ++ ['\x7d']
    else [c]

/-- A text between quotes. -/
def quoted (text : String) : String :=
  String.ofList ('"' :: text.toList.flatMap escaped ++ ['"'])

end Text
end NameServer
