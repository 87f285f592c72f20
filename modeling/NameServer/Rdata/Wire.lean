import NameServer.Name.Wire
import NameServer.Rdata.Basic

/-!
# Rdata.Wire — payloads in a packet

Each type has its own layout. A text is cut into strings of at most 255 bytes, each behind its
length; an empty text is one empty string. A payload that is read has to fill exactly the bytes that
are declared for it.
-/

namespace NameServer

/-- The largest payload whose length a record can declare, in bytes. -/
def maxRdataSize : Nat := 0xFFFF

namespace Rdata

/-! ## Writing -/

/-- The largest number of bytes of one string of a text payload. -/
def maxStringSize : Nat := 255

/-- Bytes cut into strings of full size and a last one that may be shorter. -/
def strings : List UInt8 → List (List UInt8)
  | [] => []
  | b :: bs => (b :: bs.take (maxStringSize - 1)) :: strings (bs.drop (maxStringSize - 1))
  termination_by bs => bs.length
  decreasing_by
    simp only [List.length_drop, List.length_cons]
    omega

/-- A string behind its length. -/
def stringWire (string : List UInt8) : List UInt8 :=
  UInt8.ofNat string.length :: string

/-- A text as the strings it is cut into, at least one. -/
def textWire (text : String) : List UInt8 :=
  match Text.bytes text with
  | [] => stringWire []
  | bs => (strings bs).flatMap stringWire

/-- The number of strings that a text of `size` bytes is cut into. -/
def stringCount (size : Nat) : Nat :=
  max 1 ((size + (maxStringSize - 1)) / maxStringSize)

/-- The bytes that the payload takes in a packet. -/
def size : Rdata Name → Nat
  | a _ _ => 4
  | ns _ server => server.size
  | cname _ target => target.size
  | mx _ _ exchange => 2 + exchange.size
  | soa s => s.mname.size + s.rname.size + 20
  | txt _ text => text.utf8ByteSize + stringCount text.utf8ByteSize

/-- The payload as it stands in a packet. -/
def wire : Rdata Name → List UInt8
  | a _ address => address.octets
  | ns _ server => server.wire
  | cname _ target => target.wire
  | mx _ preference exchange => Octets.ofWord16 preference ++ exchange.wire
  | soa s =>
    s.mname.wire ++ s.rname.wire ++
      [s.serial, s.refresh, s.retry, s.expire, s.minimum].flatMap Octets.ofWord32
  | txt _ text => textWire text

/-! ## Reading -/

/-- The bytes of the strings from `pos` up to `limit`, and the offset behind the last of them. -/
def readStrings (packet : Packet) (limit pos : Nat) : Except WireError (List UInt8 × Nat) :=
  if _ : pos < limit then
    match packet[pos]? with
    | none => .error (.chunkRunsOut pos)
    | some size =>
      match packet.slice? (pos + 1) size.toNat with
      | none => .error (.chunkRunsOut pos)
      | some string => do
        let (strings, next) ← readStrings packet limit (pos + 1 + size.toNat)
        return (string ++ strings, next)
  else .ok ([], pos)
  termination_by limit - pos

/-- An SOA payload at `pos` and the offset behind it. -/
def readSoa (packet : Packet) (pos : Nat) : Except WireError (Soa Name × Nat) := do
  let (mname, pos) ← Name.read packet pos
  let (rname, pos) ← Name.read packet pos
  let serial ← packet.field32 pos
  let refresh ← packet.field32 (pos + 4)
  let retry ← packet.field32 (pos + 8)
  let expire ← packet.field32 (pos + 12)
  let minimum ← packet.field32 (pos + 16)
  return ({ mname, rname, serial, refresh, retry, expire, minimum }, pos + 20)

/-- The payload of a stored type at `pos` and the offset behind it; `limit` is where it should
end. -/
def readKind (kind : RecordKind) (ttl : UInt32) (packet : Packet) (pos limit : Nat) :
    Except WireError (Rdata Name × Nat) :=
  match kind with
  | .a =>
    match packet.slice? pos 4 with
    | some [w, x, y, z] => .ok (.a ttl ⟨w, x, y, z⟩, pos + 4)
    | _ => .error (.addressRunsOut pos)
  | .ns => do
    let (server, next) ← Name.read packet pos
    return (.ns ttl server, next)
  | .cname => do
    let (target, next) ← Name.read packet pos
    return (.cname ttl target, next)
  | .mx => do
    let preference ← packet.field16 pos
    let (exchange, next) ← Name.read packet (pos + 2)
    return (.mx ttl preference exchange, next)
  | .soa => do
    let (start, next) ← readSoa packet pos
    return (.soa start, next)
  | .txt => do
    let (bs, next) ← readStrings packet limit pos
    match Text.ofBytes? bs with
    | some text => return (.txt ttl text, next)
    | none => .error .textNotText

/-- The payload of `type` in the `length` bytes at `pos`. Whoever reads a record passes an offset
within the packet and a 16-bit length, and the sum of the two is far from the largest 64-bit number.
What becomes of a larger sum is said where the reader is written down with sums of words. -/
def read (type : RecordType) (ttl : UInt32) (packet : Packet) (pos length : Nat) :
    Except WireError (Rdata Name) :=
  if packet.size < pos + length then .error (.payloadRunsOut pos)
  else
    match type.kind? with
    | none => .error (.payloadType type)
    | some kind => do
      let (rdata, next) ← readKind kind ttl packet pos (pos + length)
      -- Most payloads end where their fields do, wherever the record says that they should.
      if next = pos + length then return rdata
      else .error (.payloadLength type pos length (next - pos))

end Rdata
end NameServer
