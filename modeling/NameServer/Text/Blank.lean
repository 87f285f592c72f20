/-!
# Text.Blank — white space and the fields between it

Lines of a zone file and of the console are cut into fields at white space. White space is the
Unicode property `White_Space`, both between fields and around a line.
-/

namespace NameServer
namespace Text

/-- The characters with the Unicode property `White_Space`. -/
def isBlank (c : Char) : Bool :=
  let n := c.toNat
  (0x09 ≤ n && n ≤ 0x0D) || n == 0x20 || n == 0x85 || n == 0xA0 || n == 0x1680 ||
    (0x2000 ≤ n && n ≤ 0x200A) || n == 0x2028 || n == 0x2029 || n == 0x202F || n == 0x205F ||
    n == 0x3000

/-! ## Trimming -/

/-- The text from its first character that is not blank. -/
def dropBlank (cs : List Char) : List Char :=
  cs.dropWhile isBlank

/-- The text without the white space around it. -/
def trim (cs : List Char) : List Char :=
  (dropBlank (dropBlank cs).reverse).reverse

/-! ## Fields -/

/-- The maximal runs of characters that are not blank, in order. -/
def fields : List Char → List (List Char)
  | [] => []
  | c :: cs =>
    if isBlank c then
      fields cs
    else
      match cs, fields cs with
      | [], _ => [[c]]
      | d :: _, rest =>
        if isBlank d then
          [c] :: rest
        else
          match rest with
          | [] => [[c]]
          | word :: words => (c :: word) :: words

/-- The text after its first field and the white space that follows it. -/
def dropField (cs : List Char) : List Char :=
  dropBlank (cs.dropWhile fun c => !isBlank c)

/-- The text after its first `count` fields; inner white space of the rest is kept as it is. -/
def afterFields : Nat → List Char → List Char
  | 0, cs => dropBlank cs
  | count + 1, cs => afterFields count (dropField (dropBlank cs))

/-! ## Cutting at a separator -/

/-- The pieces between the occurrences of `separator`; there is always one more piece than there
are separators. -/
def splitOn {α : Type} [DecidableEq α] (separator : α) : List α → List (List α)
  | [] => [[]]
  | c :: cs =>
    if c = separator then
      [] :: splitOn separator cs
    else
      match splitOn separator cs with
      | [] => [[c]]
      | piece :: pieces => (c :: piece) :: pieces

end Text
end NameServer
