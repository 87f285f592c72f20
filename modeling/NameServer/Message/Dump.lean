import NameServer.Message.Header

/-!
# Message.Dump — a packet shown field by field

The dump names every field with its offset. It follows no pointers and needs no valid packet: it
stops at the first field that runs past the end, and says so, or says how many bytes are left after
the last section.
-/

namespace NameServer

/-- How far a packet has been shown: the next offset and the lines so far, the last one first. -/
structure Trace where
  pos : Nat
  lines : List String
  deriving DecidableEq, Repr

/-- A step of showing a packet; it fails where a field runs past the end. -/
abbrev Showing := Except Trace Trace

namespace Trace

/-- One more line. -/
def say (trace : Trace) (line : String) : Trace :=
  { trace with lines := line :: trace.lines }

/-- Ahead by `count` bytes. -/
def skip (trace : Trace) (count : Nat) : Trace :=
  { trace with pos := trace.pos + count }

/-- Shows a 16-bit field; `line` words it. -/
def word16 (packet : Packet) (trace : Trace) (line : UInt16 → String) :
    Except Trace (UInt16 × Trace) :=
  match packet.word16? trace.pos with
  | some w => .ok (w, (trace.say s!"{trace.pos}: {line w}").skip 2)
  | none => .error trace

/-- Shows a 32-bit field; `line` words it. -/
def word32 (packet : Packet) (trace : Trace) (line : UInt32 → String) : Showing :=
  match packet.word32? trace.pos with
  | some w => .ok ((trace.say s!"{trace.pos}: {line w}").skip 4)
  | none => .error trace

/-! ## Fields -/

/-- The sixteen binary digits of a word. -/
def binary (w : UInt16) : String :=
  String.ofList ((List.range 16).reverse.map fun place =>
    if w.toNat.testBit place then '1' else '0')

/-- The word of flags in words. -/
def flagsLine (flags : UInt16) : String :=
  let opcode := flags.toNat / 0x800 % 16
  let rcode := flags.toNat % 16
  let marks := [(0x400, " AA"), (0x200, " TC"), (0x100, " RD"), (0x80, " RA")]
  s!"FLAGS: ({binary flags})" ++ (if Header.hasBit flags 0x8000 then " QR" else "") ++
    (match Opcode.ofCode? opcode with
      | some known => " " ++ known.text
      | none => s!" OPCODE={opcode}?") ++
    String.join (marks.map fun (weight, mark) => if Header.hasBit flags weight then mark else "") ++
    s!" Z={flags.toNat / 16 % 8}" ++
    (match ResponseCode.ofCode? rcode with
      | some known => " " ++ known.text
      | none => s!" RCODE={rcode}?")

/-- A record type with its code. -/
def typeText (code : UInt16) : String :=
  s!"{(RecordType.mk code).text} ({code})"

/-- A TTL read as a signed number. -/
def signed (ttl : UInt32) : Int :=
  if ttl.toNat < 0x80000000 then ttl.toNat else (ttl.toNat : Int) - 0x100000000

/-- Shows the labels of a name up to its zero byte or its first pointer. -/
def name (packet : Packet) (trace : Trace) : Showing :=
  let pos := trace.pos
  match hbyte : packet[pos]? with
  | none => .error trace
  | some byte =>
    let size := byte.toNat
    if size = 0 then .ok ((trace.say s!"{pos}: Null label").skip 1)
    else if size < 0x40 then
      match packet.slice? (pos + 1) size with
      | none => .error (trace.skip 1)
      | some bs =>
        have _ : trace.pos < packet.size := (Array.getElem?_eq_some_iff.1 hbyte).1
        name packet ((trace.say s!"{pos}: Label: {Text.lossy bs}").skip (1 + size))
    else if 0xC0 ≤ size then
      match packet[pos + 1]? with
      | none => .error (trace.skip 1)
      | some low =>
        .ok ((trace.say s!"{pos}: Pointer ==> {(size - 0xC0) * 0x100 + low.toNat}").skip 2)
    else .ok ((trace.say s!"{pos}: Unknown label type: {size / 0x40}").skip 1)
  termination_by packet.size - trace.pos
  decreasing_by
    simp only [skip, say]
    omega

/-- Shows the strings of a text payload that ends at `limit`. -/
def strings (packet : Packet) (limit : Nat) (trace : Trace) : Showing :=
  let pos := trace.pos
  if _ : pos < limit then
    match packet[pos]? with
    | none => .error trace
    | some size =>
      match packet.slice? (pos + 1) size.toNat with
      | none => .error (trace.skip 1)
      | some bs =>
        strings packet limit
          ((trace.say s!"{pos}: TEXT: \"{Text.lossy bs}\"").skip (1 + size.toNat))
  else .ok trace
  termination_by limit - trace.pos
  decreasing_by
    simp only [skip, say]
    omega

/-- Shows a payload of `length` bytes, all of which are in the packet. -/
def payload (packet : Packet) (type : RecordType) (length : Nat) (trace : Trace) : Showing :=
  let start := trace.pos
  match type.kind? with
  | some .a =>
    match packet.slice? start length with
    | some [a, b, c, d] => .ok (trace.say s!"{start}: {a}.{b}.{c}.{d}")
    | _ => .ok (trace.say s!"{start}: ({length} bytes not decoded)")
  | some .ns | some .cname => name packet trace
  | some .mx => do
    let (_, trace) ← word16 packet trace fun preference => s!"PREFERENCE: {preference}"
    name packet trace
  | some .txt => strings packet (start + length) trace
  | _ => .ok (trace.say s!"{start}: ({length} bytes not decoded)")

/-! ## Sections -/

/-- Shows a question. -/
def question (packet : Packet) (trace : Trace) : Showing := do
  let trace ← name packet trace
  let (_, trace) ← word16 packet trace fun type => s!"QTYPE: {typeText type}"
  let (_, trace) ← word16 packet trace fun cls => s!"QCLASS: {cls}"
  return trace

/-- Shows a record. Behind it the dump goes on where its payload is declared to end. -/
def record (packet : Packet) (trace : Trace) : Showing := do
  let trace ← name packet (trace.say "ResourceRecord:")
  let (type, trace) ← word16 packet trace fun type => s!"TYPE: {typeText type}"
  let (_, trace) ← word16 packet trace fun cls => s!"CLASS: {cls}"
  let trace ← word32 packet trace fun ttl => s!"TTL: {signed ttl}"
  let (length, trace) ← word16 packet trace fun length => s!"RDLENGTH: {length}"
  let limit := trace.pos + length.toNat
  if packet.size < limit then .error trace
  else do
    let trace ← payload packet ⟨type⟩ length.toNat trace
    return { trace with pos := limit }

/-- Repeats a step. -/
def times (step : Trace → Showing) : Nat → Trace → Showing
  | 0, trace => .ok trace
  | count + 1, trace => do times step count (← step trace)

/-- Shows a section of records. -/
def records (packet : Packet) (title empty : String) (count : UInt16) (trace : Trace) : Showing :=
  let trace := trace.say title
  times (record packet) count.toNat (if count = 0 then trace.say empty else trace)

/-- Shows a whole packet. -/
def message (packet : Packet) : Showing := do
  let trace := say ⟨0, []⟩ "HEADER:"
  let (_, trace) ← word16 packet trace fun id => s!"ID: {id}"
  let (_, trace) ← word16 packet trace flagsLine
  let (questions, trace) ← word16 packet trace fun count => s!"QDCOUNT: {count}"
  let (answers, trace) ← word16 packet trace fun count => s!"ANCOUNT: {count}"
  let (authorities, trace) ← word16 packet trace fun count => s!"NSCOUNT: {count}"
  let (additionals, trace) ← word16 packet trace fun count => s!"ARCOUNT: {count}"
  let trace := if questions = 1 then trace else trace.say "Error: QDCOUNT must be 1"
  let trace ← times (question packet) questions.toNat (trace.say "QUESTION SECTION:")
  let trace ← records packet "ANSWER SECTION:" "(no entries in answer section)" answers trace
  let trace ← records packet "NS SECTION:" "(no entries in ns section)" authorities trace
  records packet "ADDITIONAL SECTION:" "(no entries in ar section)" additionals trace

end Trace

namespace Packet

/-- The lines of the dump of a packet. -/
def dumpLines (packet : Packet) : List String :=
  match Trace.message packet with
  | .error trace =>
    (trace.say s!"TRUNCATED: packet ends at offset {trace.pos} ({packet.size} bytes)").lines.reverse
  | .ok trace =>
    if trace.pos < packet.size then
      (trace.say
        s!"{trace.pos}: {packet.size - trace.pos} trailing bytes not decoded").lines.reverse
    else trace.lines.reverse

/-- The dump of a packet; every line ends with a line feed. -/
def dump (packet : Packet) : String :=
  String.join (packet.dumpLines.map fun line => line ++ "\n")

end Packet
end NameServer
