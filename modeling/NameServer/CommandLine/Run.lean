import NameServer.CommandLine.Arguments
import NameServer.CommandLine.Output
import NameServer.CommandLine.Storage
import NameServer.Console
import NameServer.Settings.File
import NameServer.Zone.Tree

/-!
# CommandLine.Run — one run of the program

A run reads its settings, opens the store that they name, does what its command says and keeps what
has become of the store. The commands that need the network are taken up to the point where they
would open a socket.
-/

namespace NameServer
namespace CommandLine

/-! ## Failures -/

/-- Why a run fails. -/
inductive RunError
  | readSettings (path : String) (cause : FileError)
  | settingsNotText (path : String)
  | parseSettings
  | database (cause : Database.Error)
  | openZoneFile (path : String) (cause : FileError)
  | readZoneFile (cause : FileError)
  | store (cause : Fault)
  | name (cause : WireError)
  | type (word : String)
  | address
  | input (flaw : Text.Flaw)
  | noSocket
  deriving DecidableEq

/-- The wording of a failure. -/
def RunError.message : RunError → String
  | readSettings path cause => s!"Failed to read config file {path}: {cause.message}"
  | settingsNotText path =>
    s!"Failed to read config file {path}: stream did not contain valid UTF-8"
  | parseSettings => "Failed to parse config"
  | database cause => cause.message
  | openZoneFile path cause => s!"cannot open {path}: {cause.message}"
  | readZoneFile cause => s!"I/O error: {cause.message}"
  | store cause => cause.message
  | name cause => cause.message
  | type word => s!"Invalid record type: {word}"
  | address => "invalid IP address syntax"
  | input flaw => flaw.message
  | noSocket => "no socket is available"

/-- How a run ends. -/
inductive Ending
  | success
  | failure (cause : RunError)
  | usage (error : UsageError)
  deriving DecidableEq

namespace Ending

/-- The exit status of the program. -/
def status : Ending → UInt32
  | success => 0
  | failure _ => 1
  | usage _ => 2

/-- What is printed to the side. -/
def complaint? : Ending → Option String
  | success => none
  | failure cause => some s!"Error: {cause.message}"
  | usage error => some s!"error: {error.message}"

end Ending

variable {m : Type → Type} [Monad m]

/-- What may fail on a machine. -/
abbrev Attempt (m : Type → Type) := ExceptT RunError m

/-- What is done to a store, which is kept even if it fails. -/
abbrev Work (m : Type → Type) := {σ : Type} → [Zone.Store σ] → σ → m (Except RunError Unit × σ)

/-- Prints lines. -/
def printLines (host : Host m) (lines : List String) : m Unit :=
  host.print (String.join (lines.map (· ++ "\n")))

/-! ## Settings -/

/-- Where settings are looked for if no file is named. -/
def settingsPaths : List String :=
  ["chiral-dns.toml", "/etc/chiral-dns/config.toml"]

/-- The settings in a file. -/
def readSettings (host : Host m) (path : String) : Attempt m Settings := do
  match ← host.readFile path with
  | .error cause => throw (.readSettings path cause)
  | .ok bytes =>
    match Text.ofBytes? bytes with
    | none => throw (.settingsNotText path)
    | some text =>
      match Settings.ofText? text with
      | some settings => return settings
      | none => throw .parseSettings

/-- The settings in the first of some files that is there, or none. -/
def findSettings (host : Host m) : List String → Attempt m Settings
  | [] => return {}
  | path :: paths => do
    match ← host.look path with
    | .ok _ => readSettings host path
    | .error _ => findSettings host paths

/-- The settings of a run. -/
def settingsOf (host : Host m) (invocation : Invocation) : Attempt m Settings := do
  let settings ← match invocation.settingsFile? with
    | some path => readSettings host path
    | none => findSettings host settingsPaths
  return settings.override invocation.overrides

/-! ## Stores -/

/-- Does some work on a store that has been opened, and keeps what has become of it. -/
def withStorage (host : Host m) (work : Work m) : Storage → Attempt m Unit
  | .transient rows => do
    let (result, _) ← work rows
    ofExcept result
  | .unprepared store => do
    let (result, _) ← work store
    ofExcept result
  | .readOnly store => do
    let (result, _) ← work store
    ofExcept result
  | .kept path rows => do
    let (result, rows) ← work rows
    match ← host.writeFile path (Zone.Snapshot.ofRelations rows) with
    | .ok () => ofExcept result
    | .error _ => throw (.store (.database .notKept))

/-- Does some work on the store that the settings name. -/
def withStore (host : Host m) (settings : DatabaseSettings) (work : Work m) : Attempt m Unit := do
  match settings.backend with
  | .memory =>
    let (result, _) ← work (Zone.Tree.empty (← host.now))
    ofExcept result
  | .sqlite =>
    let storage ← (Storage.openDatabase host settings).adapt .database
    withStorage host work storage

/-! ## Commands -/

/-- Loads a zone file and reports about it. -/
def loadFile (host : Host m) (path : String) : Work m := fun store => do
  match ← host.readFile path with
  | .error .isDirectory => return (.error (.readZoneFile .isDirectory), store)
  | .error cause => return (.error (.openZoneFile path cause), store)
  | .ok bytes =>
    match (Zone.Load.file bytes).perform store with
    | (.error cause, store) => return (.error (.store cause), store)
    | (.ok report, store) =>
      printLines host (loadLines path report)
      return (.ok (), store)

/-- Prints what is stored. -/
def showStatistics (host : Host m) (json : Bool) : Work m := fun store => do
  match Zone.Store.statistics store with
  | .error cause => return (.error (.store cause), store)
  | .ok stats =>
    printLines host (if json then statisticsObject stats else statisticsLines stats)
    return (.ok (), store)

/-- A conversation in the console. -/
structure Dialogue (σ : Type) where
  mode : Console.Mode
  store : σ
  /-- How the conversation ended, unless the input did. -/
  result? : Option (Except RunError Unit)

/-- One line of a conversation. -/
def turn (host : Host m) {σ : Type} [Zone.Store σ] (line : List UInt8) (dialogue : Dialogue σ) :
    m (ForInStep (Dialogue σ)) := do
  match Text.decode ((Text.byteLines line).headD []) with
  | .error flaw => return .done { dialogue with result? := some (.error (.input flaw)) }
  | .ok text =>
    let (output, mode, store) := Console.execute dialogue.mode text dialogue.store
    printLines host output.lines
    if output.quit then return .done ⟨mode, store, some (.ok ())⟩
    host.print mode.prompt
    return .yield ⟨mode, store, none⟩

/-- Holds a conversation in the console. -/
def converse (host : Host m) : Work m := fun store => do
  printLines host [Console.banner]
  host.print Console.Mode.main.prompt
  let dialogue ← host.forLines ⟨.main, store, none⟩ (turn host)
  match dialogue.result? with
  | some result => return (result, dialogue.store)
  | none =>
    host.print "\n"
    return (.ok (), dialogue.store)

/-- Checks a query before it would be sent. -/
def checkQuery (name type server : String) : Except RunError Unit := do
  let _ ← (Name.ofText name).mapError .name
  if (RecordType.ofText? type).isNone then throw (.type type)
  if !isAddress server then throw .address

/-- Loads a zone file, if one is named. -/
def loadFile? (host : Host m) : Option String → Work m
  | some path => loadFile host path
  | none => fun store => return (.ok (), store)

/-- Does what a command says. -/
def perform (host : Host m) (invocation : Invocation) : Attempt m Unit := do
  let settings ← settingsOf host invocation
  match invocation.command with
  | .serve zoneFile? =>
    withStore host settings.database (loadFile? host zoneFile?)
    if isAddress settings.listen.address then throw .noSocket else throw .address
  | .load file => withStore host settings.database (loadFile host file)
  | .dig name type server _ _ =>
    ofExcept (checkQuery name type server)
    throw .noSocket
  | .console => withStore host settings.database (converse host)
  | .stats json => withStore host settings.database (showStatistics host json)

/-- Runs the program. -/
def run (host : Host m) (arguments : List String) : m Ending := do
  match request arguments with
  | .error error => return .usage error
  | .ok .help =>
    printLines host help
    return .success
  | .ok .version =>
    printLines host [version]
    return .success
  | .ok (.run invocation) =>
    match ← (perform host invocation).run with
    | .ok () => return .success
    | .error cause => return .failure cause

end CommandLine
end NameServer
