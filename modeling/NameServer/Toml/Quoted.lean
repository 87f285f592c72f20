import NameServer.Toml.Number

/-!
# Toml.Quoted — texts between quotes

Between double quotes a backslash starts an escape; between single quotes all characters stand for
themselves. Three quotes enclose a text of several lines, the first line feed of which is no part of
it, and up to two further quotes may stand in front of the three that end it. Every function yields
the text and what follows its closing quotes.
-/

namespace NameServer
namespace Toml
namespace Quoted

/-- Whether a character may stand in a line: a tab, or no control character. -/
def isPlain (c : Char) : Bool :=
  c == '\t' || (' ' ≤ c && c != '\x7F')

/-- A text with one more character in front. -/
def push (c : Char) : List Char × List Char → List Char × List Char
  | (text, rest) => (c :: text, rest)

/-! ## Escapes -/

/-- The character that an escape of one letter stands for. -/
def named? : Char → Option Char
  | 'b' => some '\x08'
  | 't' => some '\t'
  | 'n' => some '\n'
  | 'f' => some '\x0C'
  | 'r' => some '\r'
  | 'e' => some '\x1B'
  | '"' => some '"'
  | '\\' => some '\\'
  | _ => none

/-- The number of hexadecimal digits that follow the letter of an escape. -/
def codeLength? : Char → Option Nat
  | 'x' => some 2
  | 'u' => some 4
  | 'U' => some 8
  | _ => none

/-- The character with a number. -/
def character? (n : Nat) : Option Char :=
  if n.isValidChar then some (Char.ofNat n) else none

/-- What a backslash has left open. -/
inductive Escape
  | closed
  /-- A backslash was last. -/
  | opened
  /-- So many digits of a code are to come after digits worth `value`. -/
  | code (owed value : Nat)
  /-- Blanks up to the end of the line are left out. -/
  | lineEnd
  /-- Blanks and line ends are left out. -/
  | lineStart
  deriving DecidableEq, Repr

/-- What follows a backslash and a letter, and what the letter stands for by itself. -/
def letter? (c : Char) : Option (Escape × Option Char) :=
  match named? c with
  | some d => some (.closed, some d)
  | none => (codeLength? c).map fun owed => (.code owed 0, none)

/-- What follows one more digit of a code, and the character that the code stands for if it was the
last. -/
def codeDigit? (owed value : Nat) (c : Char) : Option (Escape × Option Char) := do
  let value := 16 * value + (← Text.hexDigit? c)
  if owed ≤ 1 then return (.closed, some (← character? value))
  else return (.code (owed - 1) value, none)

/-- A text with the character of an escape in front, if it is complete. -/
def pushEscaped (c? : Option Char) (text : List Char × List Char) : List Char × List Char :=
  match c? with
  | some c => push c text
  | none => text

/-! ## One line -/

/-- The rest of a text between double quotes. -/
def basicFrom : Escape → List Char → Option (List Char × List Char)
  | _, [] => none
  | .opened, c :: cs => do
    let (next, c?) ← letter? c
    return pushEscaped c? (← basicFrom next cs)
  | .code owed value, c :: cs => do
    let (next, c?) ← codeDigit? owed value c
    return pushEscaped c? (← basicFrom next cs)
  | _, c :: cs =>
    if c = '"' then some ([], cs)
    else if c = '\\' then basicFrom .opened cs
    else if isPlain c then (basicFrom .closed cs).map (push c)
    else none

/-- The rest of a text between single quotes. -/
def literal : List Char → Option (List Char × List Char)
  | [] => none
  | c :: cs =>
    if c = '\'' then some ([], cs)
    else if isPlain c then (literal cs).map (push c)
    else none

/-! ## Several lines -/

/-- The text without the line end at its front. -/
def withoutLineEnd : List Char → List Char
  | '\n' :: cs => cs
  | '\r' :: '\n' :: cs => cs
  | cs => cs

/-- The rest of a text between three double quotes. -/
def longBasicFrom : Escape → List Char → Option (List Char × List Char)
  | _, [] => none
  | .code owed value, c :: cs => do
    let (next, c?) ← codeDigit? owed value c
    return pushEscaped c? (← longBasicFrom next cs)
  | .opened, '\r' :: '\n' :: cs => longBasicFrom .lineStart cs
  | .opened, c :: cs => do
    if c = '\n' then longBasicFrom .lineStart cs
    else if c = ' ' ∨ c = '\t' then longBasicFrom .lineEnd cs
    else
      let (next, c?) ← letter? c
      return pushEscaped c? (← longBasicFrom next cs)
  | .lineEnd, '\r' :: '\n' :: cs => longBasicFrom .lineStart cs
  | .lineEnd, c :: cs =>
    if c = '\n' then longBasicFrom .lineStart cs
    else if c = ' ' ∨ c = '\t' then longBasicFrom .lineEnd cs
    else none
  | _, '"' :: '"' :: '"' :: '"' :: '"' :: cs => some (['"', '"'], cs)
  | _, '"' :: '"' :: '"' :: '"' :: cs => some (['"'], cs)
  | _, '"' :: '"' :: '"' :: cs => some ([], cs)
  | state, '\r' :: '\n' :: cs =>
    if state = .lineStart then longBasicFrom state cs
    else (longBasicFrom .closed cs).map fun text => push '\r' (push '\n' text)
  | state, c :: cs =>
    if state = .lineStart ∧ (c = ' ' ∨ c = '\t' ∨ c = '\n') then longBasicFrom state cs
    else if c = '\\' then longBasicFrom .opened cs
    else if isPlain c ∨ c = '\n' then (longBasicFrom .closed cs).map (push c)
    else none

/-- The rest of a text between three single quotes. -/
def longLiteral : List Char → Option (List Char × List Char)
  | [] => none
  | '\'' :: '\'' :: '\'' :: '\'' :: '\'' :: cs => some (['\'', '\''], cs)
  | '\'' :: '\'' :: '\'' :: '\'' :: cs => some (['\''], cs)
  | '\'' :: '\'' :: '\'' :: cs => some ([], cs)
  | '\r' :: '\n' :: cs => (longLiteral cs).map fun text => push '\r' (push '\n' text)
  | c :: cs => if isPlain c ∨ c = '\n' then (longLiteral cs).map (push c) else none

/-! ## All forms -/

/-- The text between quotes at the front, on one line. -/
def line? : List Char → Option (List Char × List Char)
  | '"' :: cs => basicFrom .closed cs
  | '\'' :: cs => literal cs
  | _ => none

/-- The text between quotes at the front. -/
def text? : List Char → Option (List Char × List Char)
  | '"' :: '"' :: '"' :: cs => longBasicFrom .closed (withoutLineEnd cs)
  | '\'' :: '\'' :: '\'' :: cs => longLiteral (withoutLineEnd cs)
  | cs => line? cs

end Quoted
end Toml
end NameServer
