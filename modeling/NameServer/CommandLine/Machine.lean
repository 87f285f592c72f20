import NameServer.CommandLine.Host
import NameServer.CommandLine.Path

/-!
# CommandLine.Machine — a machine in memory

A machine that is nothing but a value: files in a working directory, an input, a clock that stands
still and what has been printed. Runs on it are functions.
-/

namespace NameServer
namespace CommandLine

/-- A machine in memory. -/
structure Machine where
  files : List (Location × List UInt8)
  input : List UInt8
  clock : Timestamp
  output : String

namespace Machine

/-! ## Files -/

/-- The null device, in which nothing is kept. -/
def nullDevice : Location := ["/", "dev", "null"]

/-- The directories of every machine. -/
def directories : List Location :=
  [[], Path.root] ++
    ["bin", "dev", "etc", "home", "lib", "opt", "proc", "root", "run", "sbin", "sys", "tmp", "usr",
      "var"].map fun name => Path.root ++ [name]

/-- A machine with files in its working directory. -/
def ofFiles (files : List (String × List UInt8)) : Machine where
  files := (nullDevice, []) :: files.map fun file =>
    let (start, parts) := Path.ofText file.1
    (parts.foldl Path.enter start, file.2)
  input := []
  clock := ⟨0, 0⟩
  output := ""

/-- Whether a directory is at a location. Above the working directory there are only directories. -/
def isDirectory (machine : Machine) (location : Location) : Bool :=
  directories.contains location || location.all (· == "..") || machine.files.any fun file =>
    location.length < file.1.length && location.isPrefixOf file.1

/-- What is at a location. -/
def lookAt (machine : Machine) (location : Location) : Except FileError FileKind :=
  if machine.isDirectory location then .ok .directory
  else if (machine.files.lookup location).isSome then .ok .file
  else .error .missing

/-- The largest size of a part of a path, in bytes. -/
def maxNameSize : Nat := 255

/-- The largest size of a path, in bytes. -/
def maxPathSize : Nat := 4095

/-- The location behind parts, each of which is looked up in a directory. -/
def walk (machine : Machine) (location : Location) : List String → Except FileError Location
  | [] => .ok location
  | part :: parts =>
    match machine.lookAt location with
    | .error cause => .error cause
    | .ok .file => .error .noDirectory
    | .ok .directory =>
      if maxNameSize < part.utf8ByteSize then .error .longName
      else machine.walk (Path.enter location part) parts

/-- The location that a text spells. Nothing may be there, but its directory is. -/
def find (machine : Machine) (text : String) : Except FileError Location :=
  if text.isEmpty then .error .missing
  else if maxPathSize < text.utf8ByteSize then .error .longName
  else
    let (start, parts) := Path.ofText text
    machine.walk start parts

/-- What is at a path. -/
def look (machine : Machine) (text : String) : Except FileError FileKind := do
  machine.lookAt (← machine.find text)

/-- The bytes of a file. -/
def read (machine : Machine) (text : String) : Except FileError (List UInt8) := do
  let location ← machine.find text
  match machine.files.lookup location with
  | some bytes => return bytes
  | none => throw (if machine.isDirectory location then .isDirectory else .missing)

/-- The machine with other bytes in a file. -/
def write (machine : Machine) (text : String) (bytes : List UInt8) :
    Except FileError Machine := do
  let location ← machine.find text
  if location = nullDevice then throw .invalid
  if machine.isDirectory location then throw .isDirectory
  let others := machine.files.filter fun file => file.1 ≠ location
  return { machine with files := others ++ [(location, bytes)] }

/-! ## Services -/

/-- The lines of bytes, each with its line feed; `line` is what the first of them starts with. -/
def linesFrom (line : List UInt8) : List UInt8 → List (List UInt8)
  | [] => if line.isEmpty then [] else [line.reverse]
  | b :: bs =>
    if b = 10 then (b :: line).reverse :: linesFrom [] bs else linesFrom (b :: line) bs

/-- Goes through lines until a step ends it. -/
def forLines {m : Type → Type} [Monad m] {α : Type} (step : List UInt8 → α → m (ForInStep α)) :
    α → List (List UInt8) → m α
  | a, [] => return a
  | a, line :: lines => do
    match ← step line a with
    | .done b => return b
    | .yield b => forLines step b lines

/-- The services of a machine in memory. -/
def host : Host (StateM Machine) where
  look path := do return (← get).look path
  readFile path := do return (← get).read path
  writeFile path bytes := do
    match (← get).write path bytes with
    | .ok machine =>
      set machine
      return .ok ()
    | .error cause => return .error cause
  print text := modify fun machine => { machine with output := machine.output ++ text }
  now := do return (← get).clock
  forLines a step := do forLines step a (linesFrom [] (← get).input)

end Machine
end CommandLine
end NameServer
