import NameServer.Message.Basic

/-!
# ResponseCache — replies kept for a while

The cache keeps encoded replies by question. It holds at most `capacity` of them and drops the one
that was not used for longest; a reply also leaves when its lifetime is over. Questions that differ
in ASCII case only share a reply. Moments and lifetimes are in milliseconds.
-/

namespace NameServer

/-- What a reply is kept under: the folded name and the type of its question. -/
structure QuestionKey where
  name : List (List UInt8)
  type : RecordType
  deriving DecidableEq, Repr

/-- The key of a question. -/
def Question.key (question : Question) : QuestionKey :=
  ⟨question.name.folded, question.type⟩

/-- A reply that is kept until a moment. -/
structure CachedReply where
  key : QuestionKey
  reply : List UInt8
  expiresAt : Nat
  deriving DecidableEq, Repr

/-- Replies, the last used first. -/
structure ResponseCache where
  capacity : Nat
  /-- The longest lifetime, in seconds. -/
  maxTtl : UInt32
  /-- The lifetime of a reply without records, in seconds. -/
  negativeTtl : UInt32
  entries : List CachedReply
  deriving DecidableEq, Repr

namespace ResponseCache

/-- A cache without replies. -/
def empty (capacity : Nat) (maxTtl negativeTtl : UInt32) : ResponseCache :=
  ⟨capacity, maxTtl, negativeTtl, []⟩

/-- The number of replies. -/
def size (cache : ResponseCache) : Nat :=
  cache.entries.length

/-- The lifetime, in seconds, of a reply with this least TTL. -/
def lifetime (cache : ResponseCache) (minTtl? : Option UInt32) : UInt32 :=
  min (minTtl?.getD cache.negativeTtl) cache.maxTtl

/-- The replies that are not kept under `key`. -/
def without (cache : ResponseCache) (key : QuestionKey) : List CachedReply :=
  cache.entries.filter fun entry => entry.key ≠ key

/-- The reply kept under a key, which counts as a use of it. A reply whose time is over is dropped
instead. -/
def get (cache : ResponseCache) (now : Nat) (key : QuestionKey) :
    Option (List UInt8) × ResponseCache :=
  match cache.entries.find? fun entry => entry.key = key with
  | none => (none, cache)
  | some entry =>
    if now < entry.expiresAt then
      (some entry.reply, { cache with entries := entry :: cache.without key })
    else (none, { cache with entries := cache.without key })

/-- Keeps a reply, in place of an earlier one under the same key. A reply without a lifetime is not
kept. -/
def insert (cache : ResponseCache) (now : Nat) (key : QuestionKey) (reply : List UInt8)
    (minTtl? : Option UInt32) : ResponseCache :=
  let lifetime := cache.lifetime minTtl?
  if lifetime = 0 then cache
  else
    let entry : CachedReply := ⟨key, reply, now + 1000 * lifetime.toNat⟩
    -- Entries stand in the order of their last use, so what does not fit is the least used.
    { cache with entries := (entry :: cache.without key).take cache.capacity }

/-- Forgets all replies. -/
def clear (cache : ResponseCache) : ResponseCache :=
  { cache with entries := [] }

end ResponseCache
end NameServer
