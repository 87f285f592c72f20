import NameServer.Database.Address
import NameServer.Database.Uri

/-!
# Database.Place — where a database is

An address leads to a file or to a database that ends with the run. If the address names a file
system or an immutable file, its path is that of the file; any other path may be a URI with options
of its own.
-/

namespace NameServer
namespace Database

/-- Why a database cannot be used. -/
inductive Error
  | address (cause : AddressError)
  /-- A zero byte in a path. -/
  | zeroByte
  /-- It refuses to open. -/
  | opening (cause : Refusal)
  /-- It cannot wait for as long as it is told to. -/
  | waiting
  /-- It refuses what makes it ready for zones. -/
  | preparing (cause : Refusal)
  deriving DecidableEq, Repr

/-- The wording of an error. -/
def Error.message : Error → String
  | address cause => cause.message
  | zeroByte =>
    "error communicating with database: filename passed to SQLite must not contain nul bytes"
  | opening cause => cause.message
  | waiting => "attempted to communicate with a crashed background worker"
  | preparing cause => s!"while executing migrations: {cause.message}"

/-! ## Access -/

/-- How far a database may be used, each including the one in front of it. -/
inductive Access
  | read
  | write
  | create
  deriving DecidableEq, Repr

/-- The place of an access in their order. -/
def Access.rank : Access → Nat
  | read => 0
  | write => 1
  | create => 2

/-- How a database is opened. -/
structure Mode where
  access : Access
  /-- Whether it ends with the run. -/
  transient : Bool
  /-- Whether connections share what they have read. -/
  shared : Bool
  deriving DecidableEq, Repr

namespace Mode

/-- The access that a word stands for, and whether the database ends with the run. -/
def accessOfWord? : String → Option (Access × Bool)
  | "ro" => some (.read, false)
  | "rw" => some (.write, false)
  | "rwc" => some (.create, false)
  | "memory" => some (.create, true)
  | _ => none

/-- A mode with one more option of a URI. Of what is not transient the access may only become
less. -/
def withOption (mode : Mode) (name value : String) : Except Refusal Mode :=
  match name, value with
  | "cache", "shared" => .ok { mode with shared := true }
  | "cache", "private" => .ok { mode with shared := false }
  | "cache", _ => .error (.noMode "cache" value)
  | "mode", _ =>
    match accessOfWord? value with
    | none => .error (.noMode "access" value)
    | some (access, transient) =>
      if transient || mode.transient || access.rank ≤ mode.access.rank then
        .ok { mode with access, transient }
      else .error (.modeNotAllowed value)
  | _, _ => .ok mode

end Mode

/-! ## Places -/

/-- The file of a database, and how it is opened. -/
structure DatabaseFile where
  path : String
  access : Access
  immutable : Bool
  /-- The file that a new one takes its permissions from. -/
  pattern? : Option String
  deriving DecidableEq, Repr

/-- Whether nothing can be written to the file. -/
def DatabaseFile.isSealed (file : DatabaseFile) : Bool :=
  file.access = .read || file.immutable

/-- Where a database is. -/
inductive Place
  | file (file : DatabaseFile)
  /-- A database that ends with the run. Nothing can be written to a sealed one; unless it is common
  to all connections, each has one of its own. -/
  | transient (isSealed isCommon : Bool)
  deriving DecidableEq, Repr

namespace Place

/-- The file systems that keep files, the usual one in front. -/
def systems : List String :=
  ["unix", "unix-none", "unix-dotfile", "unix-excl"]

/-- The file system that keeps nothing. -/
def memorySystem : String := "memdb"

/-- Whether a file system that keeps nothing has a name for all connections. -/
def isCommonName (path : String) : Bool :=
  1 < path.length && path.startsWith "/"

/-- The place that a URI leads to. -/
def ofUri (mode : Mode) (uri : Uri) : Except Refusal Place := do
  let immutable := ((uri.options.lookup "immutable").map Uri.isYes).getD false
  let mode ← uri.options.foldlM (fun mode option => mode.withOption option.1 option.2) mode
  let system := (uri.options.reverse.lookup "vfs").getD "unix"
  if !(memorySystem :: systems).contains system then throw (.noSystem system)
  let isSealed := mode.access = .read
  if uri.path = "" then return .transient isSealed false
  else if mode.transient || uri.path = ":memory:" then return .transient isSealed mode.shared
  else if system = memorySystem then
    return .transient (isSealed || immutable) (mode.shared || isCommonName uri.path)
  else return .file ⟨uri.path, mode.access, immutable, uri.options.lookup "modeof"⟩

/-- The place that a path leads to which is not a URI. Only what has a URI is shared. -/
def ofPath (mode : Mode) (path : String) : Except Refusal Place :=
  ofUri { mode with shared := false } { path }

/-- A URI in the words of an address. -/
def uriOf (address : Address) : Uri where
  path := Uri.untilZero address.path
  options :=
    (if address.immutable then [("immutable", "true")] else []) ++
      address.system?.toList.map fun system =>
        ("vfs", Uri.untilZero (system.map fun c => if c = ' ' then '+' else c))

/-- The place that an address leads to. -/
def ofAddress (address : Address) : Except Error Place :=
  let access := if address.readOnly then .read else .create
  let mode : Mode := ⟨access, address.transient, address.shared⟩
  if address.immutable || address.system?.isSome then
    (ofUri mode (uriOf address)).mapError .opening
  else if address.path.toList.contains '\x00' then .error .zeroByte
  else
    Except.mapError .opening do
      match ← Uri.ofText? address.path with
      | some uri => ofUri mode uri
      | none => ofPath mode address.path

/-- The place that the text of an address leads to. -/
def ofUrl (url : String) : Except Error Place := do
  let address ← (Address.ofUrl url).mapError .address
  ofAddress address

end Place
end Database
end NameServer
