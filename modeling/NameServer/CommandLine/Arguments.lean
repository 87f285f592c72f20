import NameServer.Settings.Basic
import NameServer.Text.Numeral

/-!
# CommandLine.Arguments — what the arguments ask for

The options of the settings may stand in front of the command or behind it; every command has
further options and words of its own. An option is given at most once on either side of the command,
and what stands behind the command wins.
-/

namespace NameServer
namespace CommandLine

/-! ## Requests -/

/-- What the program is to do. -/
inductive Command
  /-- Answers queries, after a zone file has been loaded. -/
  | serve (zoneFile? : Option String)
  /-- Loads a zone file. -/
  | load (file : String)
  /-- Sends one query to a server. -/
  | dig (name type server : String) (port : UInt16) (timeoutMillis : UInt64)
  /-- Administers the store line by line. -/
  | console
  /-- Tells how much is stored. -/
  | stats (json : Bool)
  deriving DecidableEq, Repr

/-- A command and what it runs under. -/
structure Invocation where
  settingsFile? : Option String
  overrides : Overrides
  command : Command
  deriving DecidableEq, Repr

/-- What the arguments ask for. -/
inductive Request
  | run (invocation : Invocation)
  | help
  | version
  deriving DecidableEq, Repr

/-- Why arguments are refused. -/
inductive UsageError
  | unknownCommand (word : String)
  | unexpected (word : String)
  | missingValue (option : String)
  | missingWord (what : String)
  | badValue (option value : String)
  | repeated (option : String)
  deriving DecidableEq, Repr

/-- The wording of an error. -/
def UsageError.message : UsageError → String
  | unknownCommand word => s!"unrecognized subcommand '{word}'"
  | unexpected word => s!"unexpected argument '{word}' found"
  | missingValue option => s!"a value is required for '{option}' but none was supplied"
  | missingWord what => s!"the required argument {what} was not provided"
  | badValue option value => s!"invalid value '{value}' for '{option}'"
  | repeated option => s!"the argument '{option}' cannot be used multiple times"

/-- Where arguments stand: in front of the command, or behind one. -/
inductive Scope
  | main
  | serve
  | load
  | dig
  | console
  | stats
  | help
  deriving DecidableEq, Repr

namespace Scope

/-- The scope behind a word that is a command. -/
def ofCommand? : String → Option Scope
  | "serve" => some serve
  | "load" => some load
  | "dig" => some dig
  | "console" => some console
  | "stats" => some stats
  | "help" => some help
  | _ => none

/-- The largest number of words besides options. -/
def maxWords : Scope → Nat
  | main | serve | console | stats => 0
  | load | help => 1
  | dig => 2

end Scope

/-! ## Options -/

/-- The options. -/
inductive Flag
  | config
  | dnsPort
  | bind
  | database
  | logLevel
  | zoneFile
  | server
  | port
  | timeout
  | json
  | help
  | version
  deriving DecidableEq, Repr

namespace Flag

/-- All options. -/
def all : List Flag :=
  [config, dnsPort, bind, database, logLevel, zoneFile, server, port, timeout, json, help, version]

/-- The name of an option, which two hyphens introduce. -/
def long : Flag → String
  | config => "config"
  | dnsPort => "dns-port"
  | bind => "bind"
  | database => "database"
  | logLevel => "log-level"
  | zoneFile => "zone-file"
  | server => "server"
  | port => "port"
  | timeout => "timeout"
  | json => "json"
  | help => "help"
  | version => "version"

/-- The letter of an option, which one hyphen introduces. -/
def short? : Flag → Option Char
  | config => some 'c'
  | dnsPort => some 'd'
  | bind => some 'b'
  | help => some 'h'
  | version => some 'V'
  | _ => none

/-- Whether an option comes with a value. -/
def hasValue : Flag → Bool
  | json | help | version => false
  | _ => true

/-- Whether an option may stand in a scope. -/
def isIn (scope : Scope) : Flag → Bool
  | config | dnsPort | bind | database | logLevel | help => true
  | zoneFile => scope = .serve
  | server | port | timeout => scope = .dig
  | json => scope = .stats
  | version => scope = .main

/-- The option of a scope with a name. -/
def ofLong? (scope : Scope) (name : String) : Option Flag :=
  all.find? fun flag => flag.isIn scope && flag.long == name

/-- The option of a scope with a letter. -/
def ofShort? (scope : Scope) (letter : Char) : Option Flag :=
  all.find? fun flag => flag.isIn scope && flag.short? == some letter

/-- A port number: zero may have a minus sign. -/
def port? (text : String) : Option UInt16 :=
  match text.toList with
  | '-' :: cs => ((Text.decimal? cs).filter (· = 0)).map UInt16.ofNat
  | cs => Text.word16? cs

/-- A time in milliseconds. -/
def millis? (text : String) : Option UInt64 :=
  Text.word64? text.toList

/-- Whether an option takes a value. -/
def accepts (flag : Flag) (value : String) : Bool :=
  match flag with
  | dnsPort | port => (port? value).isSome
  | timeout => (millis? value).isSome
  | zoneFile => !value.isEmpty
  | _ => true

end Flag

/-! ## Reading -/

/-- The options of one side of the command, with their values. -/
abbrev Options := List (Flag × String)

/-- What has been read of the arguments. -/
structure Progress where
  scope : Scope := .main
  /-- The options in front of the command. -/
  front : Options := []
  /-- The options behind the command. -/
  back : Options := []
  words : List String := []
  /-- The option that awaits its value. -/
  pending? : Option Flag := none
  /-- Whether two hyphens have put an end to options. -/
  literal : Bool := false
  deriving DecidableEq, Repr

/-- Why reading ends early. -/
inductive Stop
  | request (request : Request)
  | error (error : UsageError)
  deriving DecidableEq, Repr

namespace Progress

/-- Refuses the arguments. -/
def refuse {α : Type} (error : UsageError) : Except Stop α :=
  .error (.error error)

/-- One more option. Help and the version are given at once, whatever may follow. -/
def addOption (progress : Progress) (flag : Flag) (value : String) : Except Stop Progress :=
  let options := if progress.scope = .main then progress.front else progress.back
  if flag = .help then .error (.request .help)
  else if flag = .version then .error (.request .version)
  else if (options.lookup flag).isSome then refuse (.repeated ("--" ++ flag.long))
  else if !flag.accepts value then refuse (.badValue ("--" ++ flag.long) value)
  else if progress.scope = .main then .ok { progress with front := options ++ [(flag, value)] }
  else .ok { progress with back := options ++ [(flag, value)] }

/-- An option by name, with the value that an equals sign joins to it. -/
def addLong (progress : Progress) (word : String) (cs : List Char) : Except Stop Progress :=
  let (name, value) := cs.span (· ≠ '=')
  match Flag.ofLong? progress.scope (String.ofList name) with
  | none => refuse (.unexpected word)
  | some flag =>
    match flag.hasValue, value with
    | true, _ :: value => progress.addOption flag (String.ofList value)
    | true, [] => .ok { progress with pending? := some flag }
    | false, [] => progress.addOption flag ""
    | false, _ :: _ => refuse (.unexpected word)

/-- Options by letter. What follows the letter of an option with a value is its value, perhaps
behind an equals sign. -/
def addShort (progress : Progress) (word : String) : List Char → Except Stop Progress
  | [] => .ok progress
  | letter :: cs =>
    match Flag.ofShort? progress.scope letter with
    | none => refuse (.unexpected word)
    | some flag =>
      if flag.hasValue then
        match cs with
        | [] => .ok { progress with pending? := some flag }
        | '=' :: value => progress.addOption flag (String.ofList value)
        | value => progress.addOption flag (String.ofList value)
      else do
        let progress ← progress.addOption flag ""
        progress.addShort word cs

/-- A word that is neither an option nor a value. -/
def addWord (progress : Progress) (word : String) : Except Stop Progress :=
  if progress.words.length < progress.scope.maxWords then
    .ok { progress with words := progress.words ++ [word] }
  else if progress.scope = .main then refuse (.unknownCommand word)
  else refuse (.unexpected word)

/-- One more argument. An option that awaits its value takes no argument that looks like an
option, and behind the word for help there are no options. -/
def add (progress : Progress) (word : String) : Except Stop Progress :=
  if progress.literal || progress.scope = .help then progress.addWord word
  else
    match progress.pending?, word.toList with
    | some flag, '-' :: _ :: _ => refuse (.missingValue ("--" ++ flag.long))
    | some flag, _ => { progress with pending? := none }.addOption flag word
    | none, ['-', '-'] => .ok { progress with literal := true }
    | none, '-' :: '-' :: cs => progress.addLong word cs
    | none, '-' :: c :: cs => progress.addShort word (c :: cs)
    | none, _ =>
      match progress.scope, Scope.ofCommand? word with
      | .main, some scope => .ok { progress with scope }
      | _, _ => progress.addWord word

/-! ## The request -/

/-- The value of an option, on either side of the command. -/
def value? (progress : Progress) (flag : Flag) : Option String :=
  (progress.back.lookup flag).or (progress.front.lookup flag)

/-- The command that has been read. -/
def command (progress : Progress) : Except Stop Command :=
  match progress.scope, progress.words with
  | .main, _ => .ok (.serve none)
  | .serve, _ => .ok (.serve (progress.value? .zoneFile))
  | .load, [file] =>
    if file.isEmpty then refuse (.badValue "<FILE>" file) else .ok (.load file)
  | .load, _ => refuse (.missingWord "<FILE>")
  | .dig, name :: words =>
    let port? := (progress.value? .port).bind Flag.port?
    let timeout? := (progress.value? .timeout).bind Flag.millis?
    .ok (.dig name (words.head?.getD "A") ((progress.value? .server).getD "127.0.0.1")
      (port?.getD 53) (timeout?.getD 2000))
  | .dig, [] => refuse (.missingWord "<NAME>")
  | .console, _ => .ok .console
  | .stats, _ => .ok (.stats (progress.value? .json).isSome)
  | .help, words =>
    match words.find? fun word => (Scope.ofCommand? word).isNone with
    | some word => refuse (.unknownCommand word)
    | none => .error (.request .help)

/-- The request that has been read. -/
def finish (progress : Progress) : Except Stop Request := do
  if let some flag := progress.pending? then refuse (.missingValue ("--" ++ flag.long))
  let overrides : Overrides := {
    port? := (progress.value? .dnsPort).bind Flag.port?
    address? := progress.value? .bind
    databasePath? := progress.value? .database
    logLevel? := progress.value? .logLevel }
  let command ← progress.command
  return .run ⟨progress.value? .config, overrides, command⟩

end Progress

/-- What arguments ask for. -/
def request (arguments : List String) : Except UsageError Request :=
  match arguments.foldlM Progress.add {} >>= Progress.finish with
  | .ok request => .ok request
  | .error (.request request) => .ok request
  | .error (.error error) => .error error

end CommandLine
end NameServer
