import NameServer.Text.Lines
import NameServer.Zone.Relations

/-!
# Zone.Snapshot — relations in a file

The first line of a snapshot marks it as one, its second line holds the numbers that were given
last, and every further line is a row. Texts stand in it as hexadecimal digits.
-/

namespace NameServer
namespace Zone
namespace Snapshot

/-! ## Words -/

/-- The bytes of a text in hexadecimal digits, behind a letter that keeps an empty text visible. -/
def hex (text : String) : String :=
  String.ofList ('x' :: (Text.bytes text).flatMap fun b =>
    [Nat.digitChar (b.toNat / 16), Nat.digitChar (b.toNat % 16)])

/-- The bytes of pairs of hexadecimal digits. -/
def unhex? : List Char → Option (List UInt8)
  | [] => some []
  | c :: d :: cs => do
    let high ← Text.hexDigit? c
    let low ← Text.hexDigit? d
    return UInt8.ofNat (16 * high + low) :: (← unhex? cs)
  | [_] => none

/-- The text of a word of hexadecimal digits. -/
def text? (word : List Char) : Option String :=
  match word with
  | 'x' :: digits => (unhex? digits).bind Text.ofBytes?
  | _ => none

/-- The number of a zone in a word. -/
def zone? (word : List Char) : Option ZoneId :=
  (Text.decimal? word).map Int.ofNat

/-- The truth value of a word. -/
def flag? : List Char → Option Bool
  | ['0'] => some false
  | ['1'] => some true
  | _ => none

/-! ## Rows -/

/-- The words of a payload. -/
def rdata : Rdata ZoneId → List String
  | .a ttl address => ["A", toString ttl, address.text]
  | .ns ttl server => ["NS", toString ttl, toString server]
  | .cname ttl target => ["CNAME", toString ttl, toString target]
  | .mx ttl preference exchange =>
    ["MX", toString ttl, toString preference, toString exchange]
  | .soa s =>
    ["SOA", toString s.mname, toString s.rname, toString s.serial, toString s.refresh,
      toString s.retry, toString s.expire, toString s.minimum]
  | .txt ttl text => ["TXT", toString ttl, hex text]

/-- The payload of words. -/
def rdata? (words : List (List Char)) : Option (Rdata ZoneId) :=
  match words with
  | ['A'] :: [ttl, address] => do
    return .a (← Text.word32? ttl) (← IPv4.ofChars? address)
  | ['N', 'S'] :: [ttl, server] => do
    return .ns (← Text.word32? ttl) (← zone? server)
  | ['C', 'N', 'A', 'M', 'E'] :: [ttl, target] => do
    return .cname (← Text.word32? ttl) (← zone? target)
  | ['M', 'X'] :: [ttl, preference, exchange] => do
    return .mx (← Text.word32? ttl) (← Text.word16? preference) (← zone? exchange)
  | ['S', 'O', 'A'] :: [mname, rname, serial, refresh, retry, expire, minimum] => do
    return .soa {
      mname := ← zone? mname
      rname := ← zone? rname
      serial := ← Text.word32? serial
      refresh := ← Text.word32? refresh
      retry := ← Text.word32? retry
      expire := ← Text.word32? expire
      minimum := ← Text.word32? minimum }
  | ['T', 'X', 'T'] :: [ttl, text] => do
    return .txt (← Text.word32? ttl) (← text? text)
  | _ => none

/-- The line of a node. -/
def zoneLine (row : ZoneRow) : List String :=
  ["zone", toString row.id, toString row.parent, if row.wildcard then "1" else "0",
    hex row.label.text]

/-- The node of a line. -/
def zoneRow? (words : List (List Char)) : Option ZoneRow :=
  match words with
  | [['z', 'o', 'n', 'e'], id, parent, wildcard, label] => do
    let label ← (Label.ofText (← text? label)).toOption
    return ⟨← zone? id, label, ← zone? parent, ← flag? wildcard⟩
  | _ => none

/-- The line of a record. -/
def recordLine (row : RecordRow) : List String :=
  "record" :: toString row.id :: toString row.zone :: rdata row.rdata

/-- The record of a line. -/
def recordRow? (words : List (List Char)) : Option RecordRow :=
  match words with
  | ['r', 'e', 'c', 'o', 'r', 'd'] :: id :: zone :: payload => do
    return ⟨← Text.decimal? id, ← zone? zone, ← rdata? payload⟩
  | _ => none

/-! ## Files -/

/-- What every snapshot starts with. Its last byte is in no text, so no text is a snapshot. -/
def mark : List UInt8 :=
  Text.bytes ("A snapshot of a zone store: first the numbers given last, " ++
    "then a line for each zone and each record. 1") ++ [0xF8]

/-- The numbers given last: that of a zone, and those of records by type. -/
def numbers (rows : Relations) : List String :=
  toString rows.lastZone :: RecordKind.all.map fun kind => toString (rows.lastRecord kind)

/-- The bytes of a snapshot. -/
def ofRelations (rows : Relations) : List UInt8 :=
  let lines := numbers rows :: rows.zones.map zoneLine ++ rows.records.map recordLine
  mark ++ Text.bytes (String.join (lines.map fun line => "\n" ++ " ".intercalate line))

/-- The relations in lines behind the mark. -/
def ofLines? (startedAt : Timestamp) : List (List (List Char)) → Option Relations
  | (lastZone :: lastRecords) :: rows => do
    let lastRecords ← lastRecords.mapM Text.decimal?
    return {
      zones := rows.filterMap zoneRow?
      records := rows.filterMap recordRow?
      lastZone := ← zone? lastZone
      lastRecord := fun kind => lastRecords.getD (RecordKind.all.idxOf kind) 0
      startedAt := startedAt }
  | _ => none

/-- The relations in a snapshot, as a store that opens at `startedAt`. -/
def ofBytes? (startedAt : Timestamp) (bytes : List UInt8) : Option Relations := do
  if !mark.isPrefixOf bytes then none
  let text ← Text.ofBytes? (bytes.drop mark.length)
  ofLines? startedAt ((Text.lines text.toList).tail.map Text.fields)

end Snapshot
end Zone
end NameServer
