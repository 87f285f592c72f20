import NameServer.Database.Refusal
import NameServer.Text.Percent

/-!
# Database.Uri — a file and its options

A URI is the word `file:`, perhaps an authority behind two slashes, a path, options behind a
question mark and anything behind a number sign. A part of it ends early at a zero byte.
-/

namespace NameServer
namespace Database

/-- What a URI says. -/
structure Uri where
  path : String
  /-- The names and values of the options, in order. -/
  options : List (String × String) := []
  deriving DecidableEq, Repr

namespace Uri

/-- The text in front of the first zero byte. -/
def untilZero (text : String) : String :=
  String.ofList (text.toList.takeWhile (· ≠ '\x00'))

/-- The text of a part, with its percent signs read. -/
def part (cs : List Char) : String :=
  untilZero (Text.lossy (Text.percentBytes cs))

/-- The options of a text. Those without a name are none. -/
def optionsOf (cs : List Char) : List (String × String) :=
  ((Text.splitOn '&' cs).map fun option =>
    let (name, value) := option.span (· ≠ '=')
    (part name, part value.tail)).filter fun option => option.1 ≠ ""

/-- What is behind the authority, which may be empty or the machine itself. -/
def withoutAuthority : List Char → Except Refusal (List Char)
  | '/' :: '/' :: cs =>
    let (authority, rest) := cs.span (· ≠ '/')
    if authority.isEmpty || authority = "localhost".toList then .ok rest
    else .error (.authority (String.ofList authority))
  | cs => .ok cs

/-- The scheme of a URI. -/
def scheme : List Char := "file:".toList

/-- What a text says, if it is a URI. -/
def ofText? (text : String) : Except Refusal (Option Uri) := do
  let cs := text.toList
  if scheme.isPrefixOf cs then
    let cs ← withoutAuthority (cs.drop scheme.length)
    let (path, options) := (cs.takeWhile (· ≠ '#')).span (· ≠ '?')
    return some ⟨part path, optionsOf options.tail⟩
  else return none

/-- The value of digits in a base. -/
def valueOf (base : Nat) (digits : List Char) : Nat :=
  digits.foldl (fun n c => base * n + (Text.hexDigit? c).getD 0) 0

/-- The number at the front of a text, decimal or hexadecimal. -/
def leadingNumber (cs : List Char) : Nat :=
  match cs with
  | '0' :: 'x' :: cs | '0' :: 'X' :: cs =>
    valueOf 16 (cs.takeWhile fun c => (Text.hexDigit? c).isSome)
  | cs => valueOf 10 (cs.takeWhile Char.isDigit)

/-- Whether a text says yes, by a word or by a number; of a number the last eight bits count. -/
def isYes (text : String) : Bool :=
  let number := leadingNumber text.toList
  ["on", "yes", "true"].contains text.toLower || (number < 2147483648 && number % 256 != 0)

end Uri
end Database
end NameServer
