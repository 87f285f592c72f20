import NameServer.Wire.Error

/-!
# ZoneFile.Error — why a record in text is refused
-/

namespace NameServer

/-- The causes for which a line of a zone file, or a part of one, is refused. -/
inductive EntryError
  | fewFields (count : Nat)
  | badName (text : String) (cause : WireError)
  | badTtl (text : String)
  | largeTtl (text : String)
  | unknownType (word : String)
  | unsupported (type : RecordType)
  | arguments (kind : RecordKind) (expected got : Nat)
  | badAddress (text : String)
  | badPreference (text : String)
  | badNumber (text : String)
  | noText
  | longText (size : Nat)
  deriving DecidableEq, Repr

namespace EntryError

/-- The wording of a cause. -/
def detail : EntryError → String
  | fewFields count => s!"expected 'name ttl TYPE args...', got {count} fields"
  | badName text cause => s!"invalid name '{text}': {cause.message}"
  | badTtl text => s!"invalid TTL '{text}'"
  | largeTtl text => s!"TTL '{text}' is out of range"
  | unknownType word => s!"Invalid record type: {word}"
  | unsupported type => s!"record type {type.text} is not supported"
  | arguments kind expected got =>
    s!"{kind.type.text} takes {expected} argument(s), got {got}"
  | badAddress text => s!"invalid IPv4 address '{text}'"
  | badPreference text => s!"invalid MX preference '{text}'"
  | badNumber text => s!"invalid SOA number '{text}'"
  | noText => "TXT needs text"
  | longText size => s!"TXT data of {size} bytes exceeds 65535"

end EntryError
end NameServer
