import NameServer.Message.Layout

/-!
# Message.Datagram — messages within 512 bytes

A datagram holds 512 bytes. A message that is too large for it loses its additional section, and if
that is not enough all its records, which it says by the truncation flag.
-/

namespace NameServer

/-- The bytes of a datagram. -/
def maxDatagram : Nat := 512

namespace Message

/-- The compressed bytes of a message, if they fit a datagram. A message whose plain form runs past
the reach of pointers does not fit. -/
def fitted? (message : Message) : Except WireError (Option (List UInt8)) :=
  if maxPointer < message.size then .ok none
  else do
    let compressed ← message.compress
    if maxDatagram < compressed.size then return none
    else return some compressed.wire

/-- The bytes to send for a message: all of it if it fits, else without the additional section if
that fits, else the question alone, marked as truncated. -/
def datagram (message : Message) : Except WireError (List UInt8) := do
  match ← message.fitted? with
  | some bytes => return bytes
  | none =>
    match ← message.withoutAdditional.fitted? with
    | some bytes => return bytes
    | none => return (← message.truncated.compress).wire

end Message
end NameServer
