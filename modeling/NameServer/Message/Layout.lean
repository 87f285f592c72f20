import NameServer.Message.Basic

/-!
# Message.Layout — compressed messages

Laying a message out walks it front to back, keeps the offset at which the next byte will stand, and
places each name there with one compression table for the whole message.
-/

namespace NameServer

/-- Where the next byte of a message will stand, and the suffixes before it. -/
structure Layout where
  offset : Nat
  table : Compressor
  deriving DecidableEq, Repr

/-- A step of laying a message out. -/
abbrev Laying := StateT Layout (Except WireError)

namespace Layout

/-- The layout of a message behind its header. -/
def start : Layout := ⟨headerSize, .empty⟩

/-- Leaves room for `count` bytes that are no name. -/
def skip (count : Nat) : Laying Unit :=
  modify fun layout => { layout with offset := layout.offset + count }

/-- Places a name at the next byte. -/
def placeName (name : Name) : Laying Name := fun layout =>
  match layout.table.place name layout.offset with
  | .ok (placed, table) => .ok (placed, ⟨layout.offset + placed.size, table⟩)
  | .error e => .error e

end Layout

/-- The payload with its names placed. -/
def Rdata.lay : Rdata Name → Laying (Rdata Name)
  | .a ttl address => do
    Layout.skip 4
    return .a ttl address
  | .ns ttl server => do return .ns ttl (← Layout.placeName server)
  | .cname ttl target => do return .cname ttl (← Layout.placeName target)
  | .mx ttl preference exchange => do
    Layout.skip 2
    return .mx ttl preference (← Layout.placeName exchange)
  | .soa s => do
    let mname ← Layout.placeName s.mname
    let rname ← Layout.placeName s.rname
    Layout.skip 20
    return .soa { s with mname, rname }
  | .txt ttl text => do
    Layout.skip (Rdata.txt ttl text).size
    return .txt ttl text

/-- The question with its name placed. -/
def Question.lay (question : Question) : Laying Question := do
  let name ← Layout.placeName question.name
  Layout.skip 4
  return { question with name }

/-- The record with its names placed. -/
def Record.lay (record : Record) : Laying Record := do
  let name ← Layout.placeName record.name
  Layout.skip Record.fixedSize
  let rdata ← record.rdata.lay
  return { record with name, rdata }

/-- The message with its names placed, section by section. -/
def Message.lay (message : Message) : Laying Message := do
  let question ← message.question.lay
  let answer ← message.answer.mapM Record.lay
  let authority ← message.authority.mapM Record.lay
  let additional ← message.additional.mapM Record.lay
  return { message with question, answer, authority, additional }

/-- The message with its names compressed. It is refused when a name would stand where no pointer
reaches. -/
def Message.compress (message : Message) : Except WireError Message :=
  (message.lay.run Layout.start).map Prod.fst

end NameServer
