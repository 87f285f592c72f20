import NameServer.ZoneFile.Payload

/-!
# ZoneFile.Entry — one line of a zone file

A line is an owner, a TTL, a type and arguments, with white space between them:

```text
mp 43200 SOA ns1.nic.mp hostmaster.nic.mp 3 14400 7200 604800 43200
*.foo.mp 1h A 192.0.2.7
; comment
# comment
```

The owner of a wildcard starts with an asterisk label, which is not part of its name. A text is the
rest of the line as it stands.
-/

namespace NameServer

/-- What one line of a zone file says. -/
structure ZoneEntry where
  name : Name
  wildcard : Bool
  rdata : Rdata Name
  deriving DecidableEq

namespace ZoneEntry

/-- An owner without the asterisk label in front of it, and whether there was one. -/
def cutStar : List Char → List Char × Bool
  | '*' :: '.' :: rest => (rest, true)
  | cs => (cs, false)

/-- Whether a trimmed line says nothing: it is empty or a comment. -/
def isComment : List Char → Bool
  | [] | '#' :: _ | ';' :: _ => true
  | _ => false

/-- The fields of a line, as texts. -/
def fields (cs : List Char) : List String :=
  (Text.fields cs).map String.ofList

/-- What a trimmed line that is no comment says. -/
def ofFields (line : List Char) : Except EntryError ZoneEntry :=
  match fields line with
  | owner :: ttl :: word :: argument :: arguments => do
    let (owner, wildcard) := cutStar owner.toList
    let name ← Payload.name (String.ofList owner)
    let ttl ← Ttl.ofText ttl
    let type ← Payload.type word
    let rdata ←
      if type = .txt then Payload.txt ttl (String.ofList (Text.afterFields 3 line))
      else Payload.ofArguments type ttl (argument :: arguments)
    return { name, wildcard, rdata }
  | short => .error (.fewFields short.length)

/-- What a line says; blank lines and comments say nothing. -/
def ofLine (line : String) : Except EntryError (Option ZoneEntry) :=
  let line := Text.trim line.toList
  if isComment line then .ok none
  else do return some (← ofFields line)

end ZoneEntry
end NameServer
