import NameServer.CommandLine.Host
import NameServer.CommandLine.Path
import NameServer.Database.Place
import NameServer.Settings.Basic
import NameServer.Zone.ReadOnly
import NameServer.Zone.Snapshot
import NameServer.Zone.Unprepared

/-!
# CommandLine.Storage — databases in files

A database is opened, is made ready for zones if it is empty, is worked on and is kept. Its path is
put straight first: of a part and two points behind it nothing remains.
-/

namespace NameServer
namespace CommandLine

/-- A store that has been opened. -/
inductive Storage
  /-- Rows that end with the run. -/
  | transient (rows : Zone.Relations)
  /-- A database that another connection has made ready, but not the one that is asked. -/
  | unprepared (store : Zone.Unprepared)
  /-- Rows that can only be read. -/
  | readOnly (store : Zone.ReadOnly)
  /-- Rows that are kept in a file. -/
  | kept (path : String) (rows : Zone.Relations)

namespace Storage

variable {m : Type → Type} [Monad m]

/-- What may fail on a machine because of a database. -/
abbrev Opening (m : Type → Type) := ExceptT Database.Error m

/-! ## Paths -/

/-- The location behind parts, without detours. What is met on the way may be missing, but nothing
else may be wrong with it. -/
def straighten (host : Host m) (location : Location) : List String → Opening m Location
  | [] => return location
  | part :: parts => do
    let next := Path.enter location part
    if next.length ≤ location.length then straighten host next parts
    else
      match ← host.look (Path.spell next) with
      | .ok _ | .error .missing => straighten host next parts
      | .error _ => throw (.opening .cannotOpen)

/-- The location of the file of a database, which is not the root. -/
def locate (host : Host m) (path : String) : Opening m Location := do
  let (start, parts) := Path.ofText path
  let location ← straighten host start parts
  if location = Path.root then throw (.opening .cannotOpen)
  return location

/-! ## Files -/

/-- Checks that there is a file that another takes its permissions from. -/
def checkPattern (host : Host m) (path : String) : Opening m Unit := do
  match ← host.look path with
  | .ok _ => return ()
  | .error _ => throw (.opening .noPattern)

/-- The bytes of the file of a database, which is created if it may be. -/
def openFile (host : Host m) (path : String) (access : Database.Access) :
    Opening m (List UInt8) := do
  match ← host.look path with
  | .ok .directory =>
    throw (.opening (if access = .read then .unreadable else .cannotOpen))
  | .error .missing =>
    if access = .create then
      match ← host.writeFile path [] with
      | .ok () => return []
      | .error _ => throw (.opening .cannotOpen)
    else throw (.opening .cannotOpen)
  | .error _ => throw (.opening .cannotOpen)
  | .ok .file =>
    match ← host.readFile path with
    | .ok bytes => return bytes
    | .error _ => throw (.opening .cannotOpen)

/-- The longest name of a file beside which there is room for the name of its journal, in bytes. -/
def maxNameSize : Nat := 247

/-- Rows in a file that was empty. -/
def createRows (host : Host m) (location : Location) (startedAt : Timestamp) :
    Opening m Zone.Relations := do
  if maxNameSize < (location.getLast?.getD "").utf8ByteSize then throw (.preparing .cannotOpen)
  let rows := Zone.Relations.empty startedAt
  match ← host.writeFile (Path.spell location) (Zone.Snapshot.ofRelations rows) with
  | .ok () => return rows
  | .error _ => throw (.preparing .notKept)

/-- The longest wait for a database, in seconds. -/
def maxBusySeconds : UInt64 := 2147483

/-- Opens a database. A file with less than two bytes is an empty one. -/
def openPlace (host : Host m) (settings : DatabaseSettings) (place : Database.Place) :
    Opening m Storage := do
  let startedAt ← host.now
  match place with
  | .transient isSealed isCommon =>
    if maxBusySeconds < settings.busySeconds then throw .waiting
    if isSealed then throw (.preparing .readOnly)
    return if isCommon || settings.connections ≤ 1 then .transient (.empty startedAt)
      else .unprepared ⟨⟩
  | .file file =>
    let location ← locate host file.path
    if let some pattern := file.pattern? then checkPattern host pattern
    let bytes ← openFile host (Path.spell location) file.access
    if maxBusySeconds < settings.busySeconds then throw .waiting
    if bytes.length < 2 then
      if file.isSealed then throw (.preparing .readOnly)
      return .kept (Path.spell location) (← createRows host location startedAt)
    else
      match Zone.Snapshot.ofBytes? startedAt bytes with
      | none => throw (.preparing .notDatabase)
      | some rows =>
        return if file.isSealed then .readOnly ⟨rows⟩ else .kept (Path.spell location) rows

/-- Opens the database that settings name. -/
def openDatabase (host : Host m) (settings : DatabaseSettings) : Opening m Storage := do
  let place ← Database.Place.ofUrl settings.url
  openPlace host settings place

end Storage
end CommandLine
end NameServer
