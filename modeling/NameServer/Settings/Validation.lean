import NameServer.Settings.Basic

/-!
# Settings.Validation — settings that make no sense
-/

namespace NameServer

/-- What is wrong with settings. -/
inductive SettingsError
  | zeroPort
  | noWorker
  | noRecord
  | noConcurrency
  | fullCache
  | unknownLevel (level : String)
  deriving DecidableEq, Repr

namespace SettingsError

/-- The wording of an error. -/
def detail : SettingsError → String
  | zeroPort => "DNS port cannot be 0"
  | noWorker => "At least one server worker is required"
  | noRecord => "dns.record_limit must be positive"
  | noConcurrency => "dns.max_concurrent_queries must be positive"
  | fullCache => "cache.max_entries must be positive when the cache is enabled"
  | unknownLevel level => s!"Unknown log level '{level}'"

/-- The full message. -/
def message (error : SettingsError) : String :=
  "Configuration validation error: " ++ error.detail

end SettingsError

/-- The levels of a log, from the most to the least. -/
def logLevels : List String :=
  ["trace", "debug", "info", "warn", "error"]

/-- Whether a word names a level, in letters of either case. -/
def isLogLevel (word : String) : Bool :=
  logLevels.contains (String.ofList (word.toList.map Char.toLower))

/-- Finds the first thing that is wrong with settings. -/
def Settings.validate (settings : Settings) : Except SettingsError Unit :=
  if settings.listen.port = 0 then .error .zeroPort
  else if settings.listen.workers = 0 then .error .noWorker
  else if settings.query.recordLimit = 0 then .error .noRecord
  else if settings.query.concurrency = 0 then .error .noConcurrency
  else if settings.cache.enabled ∧ settings.cache.capacity = 0 then .error .fullCache
  else if !isLogLevel settings.log.level then .error (.unknownLevel settings.log.level)
  else .ok ()

end NameServer
