import NameServer.Text.Reader
import NameServer.Toml.Date
import NameServer.Toml.Entries
import NameServer.Toml.Quoted

/-!
# Toml.Document — a settings file as a whole

A document is a sequence of lines: headers of tables and values under keys, with blank lines and
comments between them. It reads as one table.
-/

namespace NameServer
namespace Toml

open Text (Reader)

/-! ## Between the parts -/

/-- A space or a tab. -/
def isSpace (c : Char) : Bool :=
  c == ' ' || c == '\t'

/-- The text behind blanks, line ends and comments; `comment` says whether a comment has started. -/
def dropGap (comment : Bool) : List Char → List Char
  | [] => []
  | '\r' :: '\n' :: cs => dropGap false cs
  | c :: cs =>
    if c = '\n' then dropGap false cs
    else if comment then if Quoted.isPlain c then dropGap true cs else c :: cs
    else if isSpace c then dropGap false cs
    else if c = '#' then dropGap true cs
    else c :: cs

namespace Document

/-- Skips blanks. -/
def blanks : Reader Unit :=
  Reader.skip (List.dropWhile isSpace)

/-- Skips blanks, line ends and comments. -/
def gap : Reader Unit :=
  Reader.skip (dropGap false)

/-- The end of a line, with a comment perhaps. -/
def lineEnd : Reader Unit := do
  blanks
  if ← Reader.accept ['#'] then Reader.skip (List.dropWhile Quoted.isPlain)
  unless (← Reader.rest).isEmpty || (← Reader.accept ['\n']) do Reader.expect ['\r', '\n']

/-! ## Keys -/

/-- Whether a character may stand in a key without quotes. -/
def isBare (c : Char) : Bool :=
  c.isAlphanum || c == '_' || c == '-'

/-- One part of a key. -/
def keyPart : Reader String := do
  match (← Reader.rest).head? with
  | some '"' | some '\'' => return String.ofList (← Reader.ofFunction Quoted.line?)
  | _ =>
    let cs ← Reader.takeWhile isBare
    if cs.isEmpty then failure else return String.ofList cs

/-- At most so many parts of a key, with points between them. -/
def keyParts : Nat → Reader (List String)
  | 0 => failure
  | count + 1 => do
    blanks
    let part ← keyPart
    blanks
    if ← Reader.accept ['.'] then return part :: (← keyParts count) else return [part]

/-- The largest number of parts of a key. -/
def maxParts : Nat := 80

/-- A key and the blanks around it. -/
def key : Reader (List String) :=
  keyParts maxParts

/-! ## Values -/

/-- Whether a character belongs to a word without quotes, and does not end it. -/
def isAtomic (c : Char) : Bool :=
  !isSpace c && c != '\r' && c != '\n' && !"=,[]{}#".toList.contains c

/-- Whether a word without quotes goes on behind blanks. A quote starts a text of its own. -/
def isContinued (cs : List Char) : Bool :=
  match cs.dropWhile isSpace with
  | c :: _ => isAtomic c && c != '"' && c != '\''
  | [] => false

/-- The word without quotes at the front of a text, and what follows it. Blanks inside it belong to
it. -/
def cutWord : List Char → List Char × List Char
  | [] => ([], [])
  | c :: cs =>
    if isAtomic c || (isSpace c && isContinued cs) then
      let (word, rest) := cutWord cs
      (c :: word, rest)
    else ([], c :: cs)

/-- The value that a word without quotes stands for. -/
def atom? (cs : List Char) : Option Value :=
  if cs = ['t', 'r', 'u', 'e'] then some (.boolean true)
  else if cs = ['f', 'a', 'l', 's', 'e'] then some (.boolean false)
  else if Date.isDate cs then some (.date (String.ofList cs))
  else Number.ofWord? cs

/-- A value without quotes. -/
def atom : Reader Value := do
  let word ← Reader.ofFunction fun cs => some (cutWord cs)
  match atom? word with
  | some value => return value
  | none => failure

/-- At most so many items up to a closing word, with commas between them and perhaps one behind
them. -/
def items {α : Type} (item : Reader α) (close : List Char) : Nat → Reader (List α)
  | 0 => failure
  | count + 1 => do
    gap
    if ← Reader.accept close then return []
    let first ← item
    gap
    if ← Reader.accept [','] then return first :: (← items item close count)
    Reader.expect close
    return [first]

/-- All items up to a closing word. Every item takes a character at least. -/
def allItems {α : Type} (item : Reader α) (close : List Char) : Reader (List α) := do
  items item close ((← Reader.rest).length + 1)

/-- A key and the value behind it, with `space` around the equals sign. -/
def pair (space : Reader Unit) (value : Reader Value) : Reader (List String × Value) := do
  let path ← key
  space
  Reader.expect ['=']
  space
  return (path, ← value)

/-- The entries of a table between braces. -/
def braced? (pairs : List (List String × Value)) : Option Entries :=
  pairs.foldlM (fun entries (path, value) => Entries.assign path value .header entries) []

/-- A value in which at most `depth` brackets and braces are open at once. -/
def value (depth : Nat) : Reader Value := do
  match (← Reader.rest).head? with
  | some '"' | some '\'' => return .text (String.ofList (← Reader.ofFunction Quoted.text?))
  | some '[' =>
    match depth with
    | 0 => failure
    | depth + 1 =>
      Reader.expect ['[']
      return .array false (← allItems (value depth) [']'])
  | some '{' =>
    match depth with
    | 0 => failure
    | depth + 1 =>
      Reader.expect ['{']
      match braced? (← allItems (pair gap (value depth)) ['}']) with
      | some entries => return .table .braced entries
      | none => failure
  | _ => atom

/-- The largest number of brackets and braces that are open at once. -/
def maxDepth : Nat := 80

/-! ## Lines -/

/-- What a line says. -/
inductive Statement
  | table (path : List String)
  | tables (path : List String)
  | pair (path : List String) (value : Value)

/-- A line that is neither blank nor a comment. -/
def statement : Reader Statement := do
  if ← Reader.accept ['[', '['] then
    let path ← key
    Reader.expect [']', ']']
    return .tables path
  else if ← Reader.accept ['['] then
    let path ← key
    Reader.expect [']']
    return .table path
  else
    let (path, value) ← pair blanks (value maxDepth)
    return .pair path value

/-- At most so many lines. -/
def statements : Nat → Reader (List Statement)
  | 0 => failure
  | count + 1 => do
    gap
    if (← Reader.rest).isEmpty then return []
    let first ← statement
    lineEnd
    return first :: (← statements count)

/-- The table of a document so far, and the path of its last header. -/
structure Progress where
  entries : Entries
  path : List String

/-- What a line adds to a document. -/
def Progress.add? (progress : Progress) : Statement → Option Progress
  | .table path => do return ⟨← progress.entries.openTable path, path⟩
  | .tables path => do return ⟨← progress.entries.pushTable path, path⟩
  | .pair path value => do
    let entries ← Entries.within false (Entries.assign path value) .header progress.path
      progress.entries
    return { progress with entries }

/-- A text without the byte order mark in front of it. -/
def withoutMark : List Char → List Char
  | '\uFEFF' :: cs => cs
  | cs => cs

/-- The entries of the table that a text spells. -/
def ofText? (text : String) : Option Entries := do
  let cs := withoutMark text.toList
  let (lines, _) ← (statements (cs.length + 1)).run cs
  let progress ← lines.foldlM Progress.add? ⟨[], []⟩
  return progress.entries

end Document
end Toml
end NameServer
