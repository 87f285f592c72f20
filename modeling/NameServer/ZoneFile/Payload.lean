import NameServer.Rdata.Wire
import NameServer.ZoneFile.Ttl

/-!
# ZoneFile.Payload — payloads in text

Each stored type takes a fixed number of arguments, except a text, which is everything that follows
and may stand between quotes.
-/

namespace NameServer
namespace Payload

/-- The name in an argument. -/
def name (text : String) : Except EntryError Name :=
  (Name.ofText text).mapError (.badName text)

/-- The type that a word names. -/
def type (word : String) : Except EntryError RecordType :=
  match RecordType.ofText? word with
  | some type => .ok type
  | none => .error (.unknownType word)

/-- The stored type that a word names. -/
def kind (word : String) : Except EntryError RecordKind := do
  let type ← type word
  match type.kind? with
  | some kind => return kind
  | none => .error (.unsupported type)

/-- The address in an argument. -/
def address (text : String) : Except EntryError IPv4 :=
  match IPv4.ofText? text with
  | some address => .ok address
  | none => .error (.badAddress text)

/-- The preference in an argument. -/
def preference (text : String) : Except EntryError UInt16 :=
  match Text.word16? text.toList with
  | some preference => .ok preference
  | none => .error (.badPreference text)

/-- A number of an SOA in an argument. -/
def number (text : String) : Except EntryError UInt32 :=
  match Text.word32? text.toList with
  | some number => .ok number
  | none => .error (.badNumber text)

/-- A text without the quotes around it; a single quote is no pair. -/
def unquoted : List Char → List Char
  | '"' :: rest => if rest.getLast? = some '"' then rest.dropLast else '"' :: rest
  | cs => cs

/-- The text payload of everything that follows. -/
def txt (ttl : UInt32) (raw : String) : Except EntryError (Rdata Name) :=
  if raw.isEmpty then .error .noText
  else
    let rdata := Rdata.txt ttl (String.ofList (unquoted raw.toList))
    if rdata.size ≤ maxRdataSize then .ok rdata else .error (.longText rdata.size)

/-- The payload of a type with these arguments. -/
def ofArguments (type : RecordType) (ttl : UInt32) (arguments : List String) :
    Except EntryError (Rdata Name) :=
  match type.kind? with
  | none => .error (.unsupported type)
  | some .a =>
    match arguments with
    | [text] => do return .a ttl (← address text)
    | _ => .error (.arguments .a 1 arguments.length)
  | some .ns =>
    match arguments with
    | [server] => do return .ns ttl (← name server)
    | _ => .error (.arguments .ns 1 arguments.length)
  | some .cname =>
    match arguments with
    | [target] => do return .cname ttl (← name target)
    | _ => .error (.arguments .cname 1 arguments.length)
  | some .mx =>
    match arguments with
    | [value, exchange] => do
      let value ← preference value
      return .mx ttl value (← name exchange)
    | _ => .error (.arguments .mx 2 arguments.length)
  | some .soa =>
    match arguments with
    | [mname, rname, serial, refresh, retry, expire, minimum] => do
      let mname ← name mname
      let rname ← name rname
      let serial ← number serial
      let refresh ← number refresh
      let retry ← number retry
      let expire ← number expire
      let minimum ← number minimum
      return .soa { mname, rname, serial, refresh, retry, expire, minimum }
    | _ => .error (.arguments .soa 7 arguments.length)
  | some .txt => txt ttl (" ".intercalate arguments)

end Payload
end NameServer
