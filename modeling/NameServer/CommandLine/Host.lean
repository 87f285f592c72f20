import NameServer.Text.Utf8
import NameServer.Timestamp

/-!
# CommandLine.Host — what a run needs of the machine

A run reads and writes files, prints, asks for the time and goes through the lines of its input. All
of it happens through a host, so that a run is the same on any machine.
-/

namespace NameServer
namespace CommandLine

/-- Why a file cannot be used. -/
inductive FileError
  | missing
  | denied
  | noDirectory
  | isDirectory
  /-- The file is none that keeps what is written. -/
  | invalid
  | longName
  | other (text : String)
  deriving DecidableEq, Repr

/-- The wording of an error, as the operating system has it. -/
def FileError.message : FileError → String
  | missing => "No such file or directory (os error 2)"
  | denied => "Permission denied (os error 13)"
  | noDirectory => "Not a directory (os error 20)"
  | isDirectory => "Is a directory (os error 21)"
  | invalid => "Invalid argument (os error 22)"
  | longName => "File name too long (os error 36)"
  | other text => text

/-- What may be at the end of a path. -/
inductive FileKind
  | file
  | directory
  deriving DecidableEq, Repr

/-- The services of a machine. -/
structure Host (m : Type → Type) where
  /-- What is at a path. -/
  look : String → m (Except FileError FileKind)
  readFile : String → m (Except FileError (List UInt8))
  writeFile : String → List UInt8 → m (Except FileError Unit)
  print : String → m Unit
  now : m Timestamp
  /-- Goes through the lines of the input, each with its line feed, until a step ends it. -/
  forLines : {α : Type} → α → (List UInt8 → α → m (ForInStep α)) → m α

end CommandLine
end NameServer
