import NameServer.Text.Blank

/-!
# Text.Lines — the lines of a text

A line ends at a line feed, and a carriage return in front of the feed belongs to the end. What
stands behind the last line feed is a line of its own. Bytes are cut into lines as texts are.
-/

namespace NameServer
namespace Text

variable {α : Type} [DecidableEq α]

/-- A line without the carriage return at its end. -/
def withoutReturn (ret : α) (line : List α) : List α :=
  if line.getLast? = some ret then line.dropLast else line

/-- The lines that line feeds end, and the line behind the last feed if it is not empty. -/
def linesBy (feed ret : α) (as : List α) : List (List α) :=
  let pieces := splitOn feed as
  pieces.dropLast.map (withoutReturn ret) ++ (pieces.getLast?.toList.filter (· ≠ []))

/-- The lines of a text. -/
def lines (cs : List Char) : List (List Char) :=
  linesBy '\n' '\r' cs

/-- The lines of bytes. -/
def byteLines (bs : List UInt8) : List (List UInt8) :=
  linesBy 0x0A 0x0D bs

end Text
end NameServer
