import NameServer.Compression

/-!
# Message.Header — the fixed part of a message

The header holds an identifier, a word of flags and the sizes of the four sections. A message has
exactly one question; the sizes of the other sections follow from the message, so a header that is
read comes with them and one that is written is given them.
-/

namespace NameServer

/-! ## Codes -/

/-- What a message asks for. -/
inductive Opcode
  | query
  | inverseQuery
  | status
  deriving DecidableEq, Repr

namespace Opcode

def code : Opcode → Nat
  | query => 0
  | inverseQuery => 1
  | status => 2

def ofCode? : Nat → Option Opcode
  | 0 => some query
  | 1 => some inverseQuery
  | 2 => some status
  | _ => none

def text : Opcode → String
  | query => "QUERY"
  | inverseQuery => "IQUERY"
  | status => "STATUS"

theorem ofCode?_code (opcode : Opcode) : ofCode? opcode.code = some opcode := by
  cases opcode <;> rfl

theorem code_lt (opcode : Opcode) : opcode.code < 16 := by
  cases opcode <;> decide

end Opcode

/-- How a question was answered. -/
inductive ResponseCode
  | noError
  | formatError
  | serverFailure
  | nameError
  | notImplemented
  | refused
  deriving DecidableEq, Repr

namespace ResponseCode

def code : ResponseCode → Nat
  | noError => 0
  | formatError => 1
  | serverFailure => 2
  | nameError => 3
  | notImplemented => 4
  | refused => 5

def ofCode? : Nat → Option ResponseCode
  | 0 => some noError
  | 1 => some formatError
  | 2 => some serverFailure
  | 3 => some nameError
  | 4 => some notImplemented
  | 5 => some refused
  | _ => none

def text : ResponseCode → String
  | noError => "NOERROR"
  | formatError => "FORMERR"
  | serverFailure => "SERVFAIL"
  | nameError => "NXDOMAIN"
  | notImplemented => "NOTIMP"
  | refused => "REFUSED"

theorem ofCode?_code (rcode : ResponseCode) : ofCode? rcode.code = some rcode := by
  cases rcode <;> rfl

theorem code_lt (rcode : ResponseCode) : rcode.code < 16 := by
  cases rcode <;> decide

end ResponseCode

/-! ## The header -/

/-- The header of a message, without the sizes of its sections. -/
structure Header where
  id : UInt16
  response : Bool
  opcode : Opcode
  authoritative : Bool
  truncated : Bool
  recursionDesired : Bool
  recursionAvailable : Bool
  rcode : ResponseCode
  deriving DecidableEq, Repr

/-- The number of entries of each section. -/
structure SectionCounts where
  question : UInt16
  answer : UInt16
  authority : UInt16
  additional : UInt16
  deriving DecidableEq, Repr

namespace Header

/-- The header of a standard query. -/
def query (id : UInt16) : Header :=
  ⟨id, false, .query, false, false, false, false, .noError⟩

/-- The header of a response to `query`: its identifier, opcode and wish for recursion come back. -/
def responseTo (query : Header) : Header :=
  ⟨query.id, true, query.opcode, false, false, query.recursionDesired, false, .noError⟩

/-- What a bit of the flags is worth when it is set or not. -/
def bit (weight : Nat) (b : Bool) : Nat :=
  if b then weight else 0

/-- The word of flags. Its bits 4 to 6 are always zero. -/
def flags (header : Header) : UInt16 :=
  UInt16.ofNat
    (bit 0x8000 header.response + header.opcode.code * 0x800 + bit 0x400 header.authoritative +
      bit 0x200 header.truncated + bit 0x100 header.recursionDesired +
      bit 0x80 header.recursionAvailable + header.rcode.code)

/-- Whether the bit worth `weight` is set. -/
def hasBit (flags : UInt16) (weight : Nat) : Bool :=
  flags.toNat / weight % 2 == 1

/-- The header in a packet, with section sizes. -/
def wire (header : Header) (counts : SectionCounts) : List UInt8 :=
  [header.id, header.flags, counts.question, counts.answer, counts.authority,
    counts.additional].flatMap Octets.ofWord16

/-- The header with this word of flags. -/
def ofFlags (id flags : UInt16) : Except WireError Header :=
  let opcode := flags.toNat / 0x800 % 16
  let rcode := flags.toNat % 16
  match Opcode.ofCode? opcode with
  | none => .error (.opcode opcode)
  | some opcode =>
    match ResponseCode.ofCode? rcode with
    | none => .error (.responseCode rcode)
    | some rcode =>
      .ok ⟨id, hasBit flags 0x8000, opcode, hasBit flags 0x400, hasBit flags 0x200,
        hasBit flags 0x100, hasBit flags 0x80, rcode⟩

/-- The header of a packet and its section sizes. There has to be exactly one question, and the
opcode and the response code have to be known. -/
def read (packet : Packet) : Except WireError (Header × SectionCounts) :=
  if packet.size < headerSize then .error (.shortHeader packet.size)
  else do
    let id ← packet.field16 0
    let flags ← packet.field16 2
    let question ← packet.field16 4
    let answer ← packet.field16 6
    let authority ← packet.field16 8
    let additional ← packet.field16 10
    if question ≠ 1 then .error (.questionCount question)
    else do
      let header ← ofFlags id flags
      return (header, { question, answer, authority, additional })

end Header
end NameServer
