import NameServer.Message.Header
import NameServer.Rdata.Wire

/-!
# Message.Basic — questions, records and messages

A message is a header, one question and three sections of records. This module has their bytes and
how they are read; compression and the limit of a datagram follow in modules of their own.
-/

namespace NameServer

/-! ## Questions -/

/-- What a message asks: the records of a type at a name, in the Internet class. -/
structure Question where
  name : Name
  type : RecordType
  deriving DecidableEq

namespace Question

/-- The class of every question. -/
def cls (_ : Question) : RecordClass := .internet

/-- The bytes that the question takes. -/
def size (question : Question) : Nat :=
  question.name.size + 4

/-- The question in a packet. -/
def wire (question : Question) : List UInt8 :=
  question.name.wire ++ Octets.ofWord16 question.type.code ++
    Octets.ofWord16 RecordClass.internet.code

/-- The question at `pos` and the offset behind it. -/
def read (packet : Packet) (pos : Nat) : Except WireError (Question × Nat) := do
  let (name, pos) ← Name.read packet pos
  let type ← packet.field16 pos
  let cls ← packet.field16 (pos + 2)
  if cls ≠ RecordClass.internet.code then .error (.questionClass ⟨cls⟩)
  else return (⟨name, ⟨type⟩⟩, pos + 4)

/-- The name and type of a question as text. -/
def text (question : Question) : String :=
  s!"{question.name.text} {question.type.text}"

end Question

/-! ## Records -/

/-- A payload at its owner. The TTL of the record is its own: one that was read may differ from the
payload's. -/
structure Record where
  name : Name
  rdata : Rdata Name
  ttl : UInt32
  deriving DecidableEq

namespace Record

/-- The payload at `name`, with the payload's TTL. -/
def of (name : Name) (rdata : Rdata Name) : Record :=
  ⟨name, rdata, rdata.ttl⟩

/-- The record type of the payload. -/
def type (record : Record) : RecordType :=
  record.rdata.type

/-- The bytes between the owner and the payload: type, class, TTL and length. -/
def fixedSize : Nat := 10

/-- The bytes that the record takes. -/
def size (record : Record) : Nat :=
  record.name.size + fixedSize + record.rdata.size

/-- The bytes that records take together. -/
def totalSize : List Record → Nat
  | [] => 0
  | record :: records => record.size + totalSize records

/-- The record in a packet. A payload that is too large for its length field declares the rest of
its size modulo 2¹⁶. -/
def wire (record : Record) : List UInt8 :=
  record.name.wire ++ Octets.ofWord16 record.type.code ++
    Octets.ofWord16 RecordClass.internet.code ++ Octets.ofWord32 record.ttl ++
    Octets.ofWord16 (UInt16.ofNat record.rdata.size) ++ record.rdata.wire

/-- The record at `pos` and the offset behind it. -/
def read (packet : Packet) (pos : Nat) : Except WireError (Record × Nat) := do
  let (name, pos) ← Name.read packet pos
  let type ← packet.field16 pos
  let cls ← packet.field16 (pos + 2)
  if cls ≠ RecordClass.internet.code then .error (.recordClass ⟨cls⟩)
  else do
    let ttl ← packet.field32 (pos + 4)
    let length ← packet.field16 (pos + 8)
    let rdata ← Rdata.read ⟨type⟩ ttl packet (pos + fixedSize) length.toNat
    return (⟨name, rdata, ttl⟩, pos + fixedSize + length.toNat)

/-- Whether two records have the same owner and payload, ASCII case aside. -/
def SameAs (r s : Record) : Prop :=
  r.name.SameAs s.name ∧ r.rdata.SameAs s.rdata

instance (r s : Record) : Decidable (r.SameAs s) :=
  inferInstanceAs (Decidable (r.name.SameAs s.name ∧ r.rdata.SameAs s.rdata))

/-- The record as text. -/
def text (record : Record) : String :=
  s!"{record.name.text} {record.ttl} IN {record.rdata.text}"

/-- `count` records from `pos` on, and the offset behind them. -/
def readMany (packet : Packet) : Nat → Nat → Except WireError (List Record × Nat)
  | 0, pos => .ok ([], pos)
  | count + 1, pos => do
    let (record, pos) ← read packet pos
    let (records, pos) ← readMany packet count pos
    return (record :: records, pos)

end Record

/-! ## Messages -/

/-- A message. -/
structure Message where
  header : Header
  question : Question
  answer : List Record
  authority : List Record
  additional : List Record
  deriving DecidableEq

namespace Message

/-- A standard query. -/
def query (id : UInt16) (recursionDesired : Bool) (question : Question) : Message where
  header := { Header.query id with recursionDesired }
  question := question
  answer := []
  authority := []
  additional := []

/-- The number of entries of a section, as far as a header can tell it. -/
def sectionCount (records : List Record) : UInt16 :=
  UInt16.ofNat (min records.length 0xFFFF)

/-- The sizes of the sections. -/
def counts (message : Message) : SectionCounts :=
  ⟨1, sectionCount message.answer, sectionCount message.authority, sectionCount message.additional⟩

/-- All records, section by section. -/
def records (message : Message) : List Record :=
  message.answer ++ message.authority ++ message.additional

/-- The bytes that the message takes. -/
def size (message : Message) : Nat :=
  headerSize + message.question.size + Record.totalSize message.records

/-- The bytes of the message. -/
def wire (message : Message) : List UInt8 :=
  message.header.wire message.counts ++ message.question.wire ++
    message.records.flatMap Record.wire

/-- The header and the question of a packet; what follows them is not looked at. -/
def readQuery (packet : Packet) : Except WireError Message := do
  let (header, _) ← Header.read packet
  let (question, _) ← Question.read packet headerSize
  return ⟨header, question, [], [], []⟩

/-- The message in a packet, and the offset behind its last record. -/
def readTo (packet : Packet) : Except WireError (Message × Nat) := do
  let (header, counts) ← Header.read packet
  let (question, pos) ← Question.read packet headerSize
  let (answer, pos) ← Record.readMany packet counts.answer.toNat pos
  let (authority, pos) ← Record.readMany packet counts.authority.toNat pos
  let (additional, pos) ← Record.readMany packet counts.additional.toNat pos
  return (⟨header, question, answer, authority, additional⟩, pos)

/-- The message in a packet. -/
def read (packet : Packet) : Except WireError Message := do
  let (message, _) ← readTo packet
  return message

/-- The message without its last section. -/
def withoutAdditional (message : Message) : Message :=
  { message with additional := [] }

/-- The question alone, marked as truncated. -/
def truncated (message : Message) : Message :=
  ⟨{ message.header with truncated := true }, message.question, [], [], []⟩

/-- The least TTL of the records. -/
def minTtl? (message : Message) : Option UInt32 :=
  (message.records.map Record.ttl).min?

end Message
end NameServer
