import NameServer.ResponseCache

/-!
# Settings.Basic — what can be set

The settings have five sections. Whatever is not set has the value given here.
-/

namespace NameServer

/-- Where the server listens. -/
structure ListenSettings where
  address : String := "0.0.0.0"
  port : UInt16 := 53
  workers : UInt64 := 1
  deriving DecidableEq, Repr

/-- How much work a question may cause. -/
structure QuerySettings where
  /-- Records looked up for one zone and type. -/
  recordLimit : UInt64 := 13
  timeoutMillis : UInt64 := 2000
  concurrency : UInt64 := 64
  deriving DecidableEq, Repr

/-- Which replies are kept, and for how many seconds. -/
structure CacheSettings where
  enabled : Bool := false
  capacity : UInt64 := 10000
  maxTtl : UInt32 := 3600
  negativeTtl : UInt32 := 60
  deriving DecidableEq, Repr

/-- The kinds of zone store. -/
inductive Backend
  /-- A database file. -/
  | sqlite
  /-- Nothing outlives the process. -/
  | memory
  deriving DecidableEq, Repr

/-- Where zones are kept. -/
structure DatabaseSettings where
  backend : Backend := .sqlite
  path : String := "./chiral-dns.db"
  connections : UInt32 := 5
  busySeconds : UInt64 := 5
  deriving DecidableEq, Repr

/-- The forms of a log. -/
inductive LogFormat
  | text
  | json
  deriving DecidableEq, Repr

/-- What is logged, and how. -/
structure LogSettings where
  level : String := "info"
  format : LogFormat := .text
  deriving DecidableEq, Repr

/-- The settings of the server. -/
structure Settings where
  listen : ListenSettings := {}
  query : QuerySettings := {}
  cache : CacheSettings := {}
  database : DatabaseSettings := {}
  log : LogSettings := {}
  deriving DecidableEq, Repr

namespace Backend

/-- The word for a kind of store. -/
def word : Backend → String
  | sqlite => "sqlite"
  | memory => "memory"

/-- The kind of store that a word names. -/
def ofWord? (word : String) : Option Backend :=
  [sqlite, memory].find? fun backend => backend.word == word

end Backend

namespace LogFormat

/-- The word for a form. -/
def word : LogFormat → String
  | text => "text"
  | json => "json"

/-- The form that a word names. -/
def ofWord? (word : String) : Option LogFormat :=
  [text, json].find? fun format => format.word == word

end LogFormat

/-! ## What follows from settings -/

/-- The cache that settings ask for. A cache without room is none. -/
def CacheSettings.cache? (settings : CacheSettings) : Option ResponseCache :=
  if settings.enabled && settings.capacity != 0 then
    some (.empty settings.capacity.toNat settings.maxTtl settings.negativeTtl)
  else none

/-- The address of a database, which is its path unless the path says so itself. -/
def DatabaseSettings.url (settings : DatabaseSettings) : String :=
  if settings.path.startsWith "sqlite:" then settings.path else "sqlite://" ++ settings.path

/-! ## Overrides -/

/-- Settings of the command line, which win over those of a file. -/
structure Overrides where
  port? : Option UInt16 := none
  address? : Option String := none
  databasePath? : Option String := none
  logLevel? : Option String := none
  deriving DecidableEq, Repr

/-- Settings with overrides in their place. -/
def Settings.override (settings : Settings) (overrides : Overrides) : Settings :=
  { settings with
    listen := { settings.listen with
      port := overrides.port?.getD settings.listen.port
      address := overrides.address?.getD settings.listen.address }
    database := { settings.database with
      path := overrides.databasePath?.getD settings.database.path }
    log := { settings.log with level := overrides.logLevel?.getD settings.log.level } }

end NameServer
