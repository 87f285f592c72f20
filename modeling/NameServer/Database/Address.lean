import NameServer.Text.Percent
import NameServer.Text.Quotation

/-!
# Database.Address — the address of a database

An address is a path behind its scheme, perhaps with parameters behind a question mark. They say
whether the database is kept at all, whether it is written, and by which file system.
-/

namespace NameServer
namespace Database

/-- Why an address is refused. -/
inductive AddressError
  | pathNotText (flaw : Text.Flaw)
  | unknownName (name : String)
  | unknownValue (name value : String)
  deriving DecidableEq, Repr

/-- The wording of a refusal. -/
def AddressError.message : AddressError → String
  | pathNotText flaw => s!"error with configuration: {flaw.message}"
  | unknownName name =>
    s!"error with configuration: unknown query parameter \x60{name}\x60 while parsing connection URL"
  | unknownValue name value =>
    s!"error with configuration: unknown value {Text.quoted value} for \x60{name}\x60"

/-- What an address says. -/
structure Address where
  path : String
  /-- Whether the database ends with the run. -/
  transient : Bool := false
  /-- Whether connections share what they have read. -/
  shared : Bool := false
  readOnly : Bool := false
  /-- Whether nobody else changes the file, so that it is not written either. -/
  immutable : Bool := false
  /-- The name of the file system, unless it is the usual one. -/
  system? : Option String := none
  deriving DecidableEq, Repr

namespace Address

/-- A text without a word as often as it stands in front, at most `count` times. -/
def dropRepeated (word : List Char) : Nat → List Char → List Char
  | 0, cs => cs
  | count + 1, cs =>
    if word.isPrefixOf cs then dropRepeated word count (cs.drop word.length) else cs

/-- An address without its scheme. -/
def withoutScheme (url : String) : List Char :=
  dropRepeated "sqlite:".toList url.length
    (dropRepeated "sqlite://".toList url.length url.toList)

/-- The address of a path without parameters. -/
def ofPath (cs : List Char) : Except AddressError Address :=
  if cs = ":memory:".toList then .ok { path := "file:memory", transient := true, shared := true }
  else
    match Text.decode (Text.percentBytes cs) with
    | .ok path => .ok { path }
    | .error flaw => .error (.pathNotText flaw)

/-- An address with one more parameter. -/
def withParameter (address : Address) (name value : String) : Except AddressError Address :=
  match name, value with
  | "mode", "ro" => .ok { address with readOnly := true }
  | "mode", "memory" => .ok { address with transient := true, shared := true }
  | "mode", "rw" | "mode", "rwc" => .ok address
  | "cache", "private" => .ok { address with shared := false }
  | "cache", "shared" => .ok { address with shared := true }
  | "immutable", "true" | "immutable", "1" => .ok { address with immutable := true }
  | "immutable", "false" | "immutable", "0" => .ok { address with immutable := false }
  | "vfs", _ => .ok { address with system? := some value }
  | _, _ =>
    if name ∈ ["mode", "cache", "immutable"] then .error (.unknownValue name value)
    else .error (.unknownName name)

/-- The address that a text spells. -/
def ofUrl (url : String) : Except AddressError Address := do
  let (path, parameters) := (withoutScheme url).span (· ≠ '?')
  (Text.parameters parameters.tail).foldlM
    (fun address parameter => address.withParameter parameter.1 parameter.2) (← ofPath path)

end Address
end Database
end NameServer
