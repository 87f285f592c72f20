import NameServer.Message.Datagram
import NameServer.Resolver
import NameServer.ResponseCache

/-!
# Responder — from one datagram to the next

The responder reads a packet, drops it unless it is a standard query, and otherwise answers it from
the cache or from the store. A reply from the cache is adapted to the query: its identifier, its
wish for recursion and the spelling of its name.
-/

namespace NameServer

/-- What happened to the packets so far. The counters stand for unsigned 64-bit ones, which would
wrap around after 2 ^ 64 packets; here they have no bound. -/
structure Counters where
  received : Nat
  answered : Nat
  dropped : Nat
  cacheHits : Nat
  failures : Nat
  deriving DecidableEq, Repr

/-- Nothing has happened yet. -/
def Counters.zero : Counters :=
  ⟨0, 0, 0, 0, 0⟩

/-- What the responder remembers between packets. -/
structure Responder where
  limit : Nat
  cache? : Option ResponseCache
  counters : Counters
  deriving DecidableEq, Repr

namespace Responder

open Zone (Store)

/-- A responder that looks up at most `limit` records at once, but always one. -/
def start (limit : Nat) (cache? : Option ResponseCache) : Responder :=
  ⟨max limit 1, cache?, .zero⟩

/-! ## Cached replies -/

/-- Bytes with `name` in front, if they have the same bytes there, ASCII case aside. -/
def respell (name bytes : List UInt8) : List UInt8 :=
  if (bytes.take name.length).map foldByte = name.map foldByte then name ++ bytes.drop name.length
  else bytes

/-- A reply adapted to another query for the same question. The name of the question stands behind
the header, three bytes of which are in front of `rest`. -/
def adapt (reply : List UInt8) (id : UInt16) (recursionDesired : Bool) (name : List UInt8) :
    List UInt8 :=
  match reply with
  | _ :: _ :: flags :: rest =>
    -- The wish for recursion is the lowest bit of the first byte of flags.
    let flags := UInt8.ofNat (flags.toNat / 2 * 2 + if recursionDesired then 1 else 0)
    Octets.ofWord16 id ++ flags ::
      (rest.take (headerSize - 3) ++ respell name (rest.drop (headerSize - 3)))
  | _ => reply

/-- The reply that is kept for a question, if there is a cache and it has one. -/
def lookUp (responder : Responder) (now : Nat) (key : QuestionKey) :
    Option (List UInt8) × Responder :=
  match responder.cache? with
  | none => (none, responder)
  | some cache =>
    let (cached?, cache) := cache.get now key
    (cached?, { responder with cache? := some cache })

/-- The responder with a reply kept for a question, if there is a cache. -/
def keep (responder : Responder) (now : Nat) (key : QuestionKey) (bytes : List UInt8)
    (minTtl? : Option UInt32) : Responder :=
  match responder.cache? with
  | none => responder
  | some cache => { responder with cache? := some (cache.insert now key bytes minTtl?) }

/-! ## Packets -/

variable {σ : Type} [Store σ]

/-- The responder after an event that its counters show. -/
def count (responder : Responder) (event : Counters → Counters) : Responder :=
  { responder with counters := event responder.counters }

/-- The reply to a query, worked out from the store, and the least TTL of its records. -/
def resolve (store : σ) (limit : Nat) (query : Message) :
    Except Fault (List UInt8 × Option UInt32) := do
  let response ← Resolver.respond store limit query
  let bytes ← response.datagram.mapError .wire
  return (bytes, response.minTtl?)

/-- The reply to a standard query. -/
def answer (store : σ) (now : Nat) (query : Message) (responder : Responder) :
    Except Fault (Option (List UInt8)) × Responder :=
  let key := query.question.key
  let (cached?, responder) := responder.lookUp now key
  match cached? with
  | some cached =>
    let reply := adapt cached query.header.id query.header.recursionDesired
      query.question.name.wire
    (.ok (some reply), responder.count fun c =>
      { c with cacheHits := c.cacheHits + 1, answered := c.answered + 1 })
  | none =>
    match resolve store responder.limit query with
    | .error fault =>
      (.error fault, responder.count fun c => { c with failures := c.failures + 1 })
    | .ok (bytes, minTtl?) =>
      (.ok (some bytes), (responder.keep now key bytes minTtl?).count fun c =>
        { c with answered := c.answered + 1 })

/-- The reply to a packet, if it gets one. Dropped without a reply is what cannot be read, what is a
response itself, and what is no standard query. -/
def handle (store : σ) (now : Nat) (packet : Packet) (responder : Responder) :
    Except Fault (Option (List UInt8)) × Responder :=
  let responder := responder.count fun c => { c with received := c.received + 1 }
  let drop := (.ok none, responder.count fun c => { c with dropped := c.dropped + 1 })
  match Message.readQuery packet with
  | .error _ => drop
  | .ok query =>
    if query.header.response || query.header.opcode != .query then drop
    else answer store now query responder

end Responder
end NameServer
