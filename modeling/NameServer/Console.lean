import NameServer.Zone.Admin

/-!
# Console — administration line by line

A session is in the main mode or inside a zone. Each line is one command; what it has to say is
output, errors included, and a command that fails changes neither the mode nor, as far as the
administration leaves it alone, the store.
-/

namespace NameServer
namespace Console

open Zone (Store Change Statistics)

/-! ## Sessions -/

/-- Where a session stands. -/
inductive Mode
  | main
  /-- Inside a fully resolved zone. -/
  | zone (name : Name)
  deriving DecidableEq

/-- What a line has to say, and whether it ends the session. -/
structure Output where
  lines : List String
  quit : Bool
  deriving DecidableEq, Repr

/-- Output that does not end the session. -/
def say (lines : List String) : Output :=
  ⟨lines, false⟩

/-- The prompt of a mode. -/
def Mode.prompt : Mode → String
  | .main => "chiral-dns> "
  | .zone name => name.text ++ "> "

/-- What a session says when it starts. -/
def banner : String :=
  "Chiral DNS command console. Type 'help' for commands."

def mainHelp : List String :=
  ["Commands:",
    "  zone <name>          enter zone mode for an existing zone",
    "  add <name>           create a zone and enter it (prefix *. for a wildcard zone)",
    "  del <name>           delete an empty zone and its records",
    "  lz [name]            list child zones (of the root by default)",
    "  lr <name> [types..]  list records at a zone",
    "  find <name>          show how far a name resolves",
    "  stats                show store statistics",
    "  quit                 leave the console"]

def zoneHelp : List String :=
  ["Zone commands:",
    "  lr [types..]               list records in this zone",
    "  lz                         list child zones",
    "  add <type> <ttl> <args..>  add a record, e.g. 'add MX 12h 10 mail.example.com'",
    "  del <type>                 delete every record of a type",
    "  zone <name>                switch to another zone",
    "  back                       return to the main menu",
    "  help                       show this text"]

def wrongArguments (command : String) : Output :=
  say [s!"Wrong arguments for '{command}'; try 'help'"]

def unknownCommand (command : String) : Output :=
  say [s!"Unknown command: {command}"]

/-! ## Arguments -/

/-- The name in an argument. -/
def name (text : String) : Except Fault Name :=
  (Name.ofText text).mapError .wire

/-- The stored type in an argument. -/
def kind (word : String) : Except Fault RecordKind :=
  (Payload.kind word).mapError .entry

/-! ## Listings -/

variable {σ : Type} [Store σ]

/-- A number in at least six places. -/
def column (id : ZoneId) : String :=
  let digits := toString id
  "".pushn ' ' (6 - digits.length) ++ digits

/-- The zone that an argument names, if all of it exists. -/
def findZone (store : σ) (text : String) : Except Fault Name := do
  Zone.Admin.findZone store (← name text)

/-- The children of a zone. -/
def listZones (store : σ) (parent : Name) (zone : ZoneId) : Output :=
  match Store.children store zone with
  | [] => say [s!"{parent.text} has no child zones"]
  | children =>
    let rest := if parent.isRoot then "" else parent.text
    say (children.map fun child =>
      let star := if child.wildcard then " *" else ""
      s!"  {column child.id}  {child.label.text}.{rest}{star}")

/-- The records of a zone, by type. -/
def listRecords (store : σ) (zone : Name) (words : List String) : Except Fault Output := do
  let kinds ← words.mapM kind
  let listed ← Zone.Admin.listRecords store zone.zoneId (kinds.map RecordKind.type)
  if listed.isEmpty then return say [s!"No records at {zone.text}"]
  else
    return say (listed.flatMap fun (type, records) =>
      s!"{type.text} records:" ::
        records.map fun rdata => s!"     {rdata.ttl} {rdata.text}")

/-- How far a name resolves. -/
def find (store : σ) (text : String) : Except Fault Output := do
  let name ← name text
  let resolved ← Zone.Admin.find store name
  if resolved.isFullyResolved then
    return say [s!"{name.text} is zone {resolved.zoneId}"]
  else if resolved.resolvedCount = 0 then
    return say [s!"{name.text} is not in the store"]
  else
    let reached := resolved.resolvedPart.text
    let star := if resolved.isStar then ", wildcard" else ""
    return say [s!"{name.text} resolves as far as {reached} (zone {resolved.zoneId}{star})"]

/-- How much a store holds. -/
def showStatistics (stats : Statistics) : Output :=
  say ["Resolver statistics:",
    s!"Resolver started at: {stats.startedAt.text}",
    s!"Zone count: {stats.zones}",
    s!"A record count: {stats.a}",
    s!"NS record count: {stats.ns}",
    s!"CNAME record count: {stats.cname}",
    s!"MX record count: {stats.mx}",
    s!"SOA record count: {stats.soa}",
    s!"TXT record count: {stats.txt}"]

/-! ## Commands -/

/-- What a command yields: its output and the mode after it. -/
abbrev Reaction := Output × Mode

/-- Enters an existing zone. -/
def enterZone (text : String) : Change σ Reaction := do
  let zone ← Change.ask fun store => findZone store text
  return (say [s!"Entering zone {zone.text} (id {zone.zoneId})"], .zone zone)

/-- Creates a zone and enters it. -/
def addZone (text : String) : Change σ Reaction := do
  let (owner, wildcard) := ZoneEntry.cutStar text.toList
  let name ← Change.ask fun _ => name (String.ofList owner)
  let zone ← Zone.Admin.addName name wildcard
  let star := if zone.isStar then ", wildcard" else ""
  return (say [s!"Zone {zone.text} added (id {zone.zoneId}{star})",
    s!"Entering zone {zone.text}"], .zone zone)

/-- Deletes a zone. -/
def deleteZone (text : String) : Change σ Output := do
  let zone ← Change.ask fun store => findZone store text
  Zone.Admin.deleteZone zone.zoneId
  return say [s!"Zone {zone.text} deleted"]

/-- Adds a record to a zone. -/
def addRecord (zone : Name) (word ttl : String) (arguments : List String) : Change σ Output := do
  let rdata ← Change.ask fun _ => do
    let kind ← kind word
    let ttl ← (Ttl.ofText ttl).mapError .entry
    (Payload.ofArguments kind.type ttl arguments).mapError .entry
  let record ← Zone.Admin.addRecord zone rdata
  return say [s!"Record added: {record.text}"]

/-- Deletes the records of a type from a zone. -/
def deleteRecords (zone : Name) (word : String) : Change σ Output := do
  let kind ← Change.ask fun _ => kind word
  let removed ← Zone.Admin.deleteRecords zone.zoneId kind.type
  return say [s!"{removed} {kind.type.text} record(s) deleted"]

/-- A command in the main mode; `verb` is the command word in lower case. -/
def mainCommand (command verb : String) (arguments : List String) : Change σ Reaction :=
  match verb, arguments with
  | "help", _ => stay (pure (say mainHelp))
  | "zone", [text] => enterZone text
  | "add", [text] => addZone text
  | "del", [text] => stay (deleteZone text)
  | "lz", [] => stay (Change.ask fun store => .ok (listZones store .root rootZone))
  | "lz", [text] => stay (Change.ask fun store => do
      let zone ← findZone store text
      return listZones store zone zone.zoneId)
  | "lr", text :: words => stay (Change.ask fun store => do
      listRecords store (← findZone store text) words)
  | "find", [text] => stay (Change.ask fun store => find store text)
  | "stats", [] => stay (Change.ask fun store => showStatistics <$> Store.statistics store)
  | "quit", _ | "exit", _ => stay (pure ⟨["Shutting down command console."], true⟩)
  | verb, _ =>
    if verb ∈ ["zone", "add", "del", "lz", "lr", "find", "stats"] then
      stay (pure (wrongArguments command))
    else stay (pure (unknownCommand command))
where
  stay (output : Change σ Output) : Change σ Reaction := do return (← output, .main)

/-- A command inside a zone; `verb` is the command word in lower case. -/
def zoneCommand (zone : Name) (command verb : String) (arguments : List String) :
    Change σ Reaction :=
  match verb, arguments with
  | "help", _ => stay (pure (say zoneHelp))
  | "back", [] => pure (say [], .main)
  | "zone", [text] => enterZone text
  | "lr", words => stay (Change.ask fun store => listRecords store zone words)
  | "lz", [] => stay (Change.ask fun store => .ok (listZones store zone zone.zoneId))
  | "del", [word] => stay (deleteRecords zone word)
  | "add", word :: ttl :: argument :: arguments =>
    stay (addRecord zone word ttl (argument :: arguments))
  | verb, _ =>
    if verb ∈ ["back", "zone", "lz", "del", "add"] then stay (pure (wrongArguments command))
    else stay (pure (unknownCommand command))
where
  stay (output : Change σ Output) : Change σ Reaction := do return (← output, .zone zone)

/-- One line in a mode. A line without a word does nothing, and a command that fails leaves the mode
as it is. -/
def execute (mode : Mode) (line : String) (store : σ) : Output × Mode × σ :=
  match ZoneEntry.fields line.toList with
  | [] => (say [], mode, store)
  | command :: arguments =>
    let verb := String.ofList (command.toList.map Char.toLower)
    let change : Change σ Reaction := match mode with
      | .main => mainCommand command verb arguments
      | .zone zone => zoneCommand zone command verb arguments
    match change.perform store with
    | (.ok (output, mode), store) => (output, mode, store)
    | (.error fault, store) => (say [s!"Error: {fault.message}"], mode, store)

end Console
end NameServer
