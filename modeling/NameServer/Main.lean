import Std.Time.DateTime.Timestamp
import NameServer.CommandLine.Run

/-!
# Main — the program on a real machine
-/

namespace NameServer
namespace CommandLine

/-- The number of an error, which some services of the system give below zero. -/
def errorNumber (code : UInt32) : UInt32 :=
  min code (0 - code)

/-- The error of the operating system. -/
def fileError : IO.Error → FileError
  | .noFileOrDirectory .. => .missing
  | .permissionDenied .. => .denied
  | .inappropriateType _ code _ => if errorNumber code = 20 then .noDirectory else .isDirectory
  | .invalidArgument _ code _ => if errorNumber code = 36 then .longName else .invalid
  | error => .other error.toString

/-- Goes through the lines of the standard input until a step ends it. -/
partial def forInput {α : Type} (a : α) (step : List UInt8 → α → IO (ForInStep α)) : IO α := do
  (← IO.getStdout).flush
  let line ← (← IO.getStdin).getLine
  if line.isEmpty then return a
  else
    match ← step (Text.bytes line) a with
    | .done b => return b
    | .yield b => forInput b step

/-- The services of a real machine. -/
def machine : Host IO where
  look path := do
    try
      let _ ← IO.FS.readBinFile path
      return .ok .file
    catch error =>
      match fileError error with
      | .isDirectory => return .ok .directory
      | cause => return .error cause
  readFile path := do
    try return .ok (← IO.FS.readBinFile path).data.toList
    catch error => return .error (fileError error)
  writeFile path bytes := do
    try
      IO.FS.writeBinFile path ⟨bytes.toArray⟩
      return .ok ()
    catch error => return .error (fileError error)
  print text := IO.print text
  now := do
    let nanos := (← Std.Time.Timestamp.now).toNanosecondsSinceUnixEpoch.val.toNat
    return ⟨nanos / 1000000000, nanos % 1000000000⟩
  forLines a step := forInput a step

end CommandLine
end NameServer

/-- Runs the program and yields its exit status. -/
def main (arguments : List String) : IO UInt32 := do
  let ending ← NameServer.CommandLine.run NameServer.CommandLine.machine arguments
  if let some complaint := ending.complaint? then IO.eprintln complaint
  return ending.status
