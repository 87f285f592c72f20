import NameServer.Text.Blank

/-!
# CommandLine.Path — the way to a file

A location is the way to a file or a directory from the working directory, or from the root if its
first part is a slash. Slashes stand between the parts of a path.
-/

namespace NameServer
namespace CommandLine

/-- The parts of the way to a file. -/
abbrev Location := List String

namespace Path

/-- The root. -/
def root : Location := ["/"]

/-- Where the path that a text spells starts, and its parts. -/
def ofText (text : String) : Location × List String :=
  let parts := (Text.splitOn '/' text.toList).map String.ofList
  if text.startsWith "/" then (root, parts.tail) else ([], parts)

/-- The directory above. There is nothing above the root, and what is above the working directory
has no name. -/
def above (location : Location) : Location :=
  match location.getLast? with
  | none | some ".." => location ++ [".."]
  | some "/" => location
  | some _ => location.dropLast

/-- One part further. -/
def enter (location : Location) (part : String) : Location :=
  if part = "" ∨ part = "." then location
  else if part = ".." then above location
  else location ++ [part]

/-- The text of a location. -/
def spell (location : Location) : String :=
  match location with
  | [] => "."
  | "/" :: parts => "/" ++ "/".intercalate parts
  | parts => "/".intercalate parts

end Path
end CommandLine
end NameServer
