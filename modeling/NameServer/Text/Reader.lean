/-!
# Text.Reader — reading from the front of a text

A reader takes characters from the front of a text and yields a value, or fails.
-/

namespace NameServer
namespace Text

/-- What takes a value off the front of a text. -/
abbrev Reader := StateT (List Char) Option

namespace Reader

/-- The text that is left. -/
def rest : Reader (List Char) :=
  get

/-- A reader of a function that yields a value and the text behind it. -/
def ofFunction {α : Type} (f : List Char → Option (α × List Char)) : Reader α :=
  f

/-- Changes the text that is left. -/
def skip (f : List Char → List Char) : Reader Unit :=
  modify f

/-- The longest run of characters of a class. -/
def takeWhile (p : Char → Bool) : Reader (List Char) := do
  let cs ← get
  set (cs.dropWhile p)
  return cs.takeWhile p

/-- Takes a word off the front, if it is there. -/
def accept (word : List Char) : Reader Bool := do
  let cs ← get
  if word.isPrefixOf cs then
    set (cs.drop word.length)
    return true
  else return false

/-- Takes a word that has to be at the front. -/
def expect (word : List Char) : Reader Unit := do
  if ← accept word then return () else failure

end Reader
end Text
end NameServer
