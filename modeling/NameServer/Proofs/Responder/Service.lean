import NameServer.Proofs.Message.Datagram
import NameServer.Proofs.Resolver.Provenance
import NameServer.Proofs.Responder.Caching
import NameServer.Proofs.Tree.Administration

/-!
# Proofs.Responder.Service — a server that is administered while it answers

A server starts with an empty tree. From then on it gets requests to its administration and packets,
in any order and at any moments. However they come, each packet is dropped for what it is or gets a
reply that can be read, also from a cache whose replies were made when the tree was another one.

* `Responder.Running tree responder` — the states that such a server comes to;
* `Responder.Sound` — the invariant: the tree stands, every kept reply was made from a tree that
  stood, and the counters are balanced;
* `Responder.resolve_replied` — from a tree that stands every standard query gets a reply;
* `Responder.handle_sound` — so does every packet, from the tree or from the cache;
* `Responder.handled_of_running` — and this in every state that the server comes to.
-/

namespace NameServer

namespace Counters

/-- Every packet is counted as answered, as dropped or as a failure, and only answers come from the
cache. -/
structure Balanced (counters : Counters) : Prop where
  received : counters.received = counters.answered + counters.dropped + counters.failures
  cacheHits : counters.cacheHits ≤ counters.answered

variable {counters : Counters}

theorem Balanced.drop (h : counters.Balanced) :
    { counters with
      received := counters.received + 1
      dropped := counters.dropped + 1 : Counters }.Balanced := by
  refine ⟨?_, h.cacheHits⟩
  have hreceived := h.received
  dsimp only
  omega

theorem Balanced.answer (h : counters.Balanced) {hits : Nat} (hhits : hits ≤ 1) :
    { counters with
      received := counters.received + 1
      answered := counters.answered + 1
      cacheHits := counters.cacheHits + hits : Counters }.Balanced := by
  refine ⟨?_, Nat.add_le_add h.cacheHits hhits⟩
  have hreceived := h.received
  dsimp only
  omega

end Counters

namespace Message

/-- The front of a packet that is read to its end. -/
theorem readQuery_of_read {packet : Packet} {message : Message}
    (h : Message.read packet = .ok message) :
    readQuery packet = .ok ⟨message.header, message.question, [], [], []⟩ := by
  rcases exists_of_bind h with ⟨_, hread, hmessage⟩
  cases hmessage
  rcases exists_of_bind hread with ⟨⟨header, counts⟩, hheader, hread⟩
  rcases exists_of_bind hread with ⟨⟨question, pos⟩, hquestion, hread⟩
  rcases exists_of_bind hread with ⟨⟨answer, _⟩, _, hread⟩
  rcases exists_of_bind hread with ⟨⟨authority, _⟩, _, hread⟩
  rcases exists_of_bind hread with ⟨⟨additional, _⟩, _, hmessage⟩
  cases hmessage
  unfold readQuery
  rw [hheader, ok_bind]
  dsimp only
  rw [hquestion]
  rfl

/-- A query has no records, so nothing in it is too large. -/
theorem encodable_query (id : UInt16) (desired : Bool) {question : Question}
    (h : question.name.isCompressed = false) : (query id desired question).Encodable where
  names := List.forall_mem_singleton.2 h
  ttl _ hmem := absurd hmem List.not_mem_nil
  answer := Nat.zero_le 0xFFFF
  authority := Nat.zero_le 0xFFFF
  additional := Nat.zero_le 0xFFFF
  payload _ hmem := absurd hmem List.not_mem_nil

/-- A query that is written is read as it was. -/
theorem readQuery_query (id : UInt16) (desired : Bool) {question : Question}
    (h : question.name.form = .plain) :
    readQuery (query id desired question).wire.toArray = .ok (query id desired question) := by
  have hplain : question.name.toPlain = question.name := Name.ext rfl h.symm
  rw [readQuery_of_read (read_wire_toPlain (encodable_query id desired
    (Name.isCompressed_of_form h)))]
  unfold query toPlain
  rw [hplain]

end Message

namespace Responder

open Zone (Tree)
open Zone.Admin (Request)

variable {tree : Tree} {responder : Responder} {query : Message} {packet : Packet}

/-! ## What packets get -/

/-- The packet is no standard query. -/
def Dropped (packet : Packet) : Prop :=
  (∃ e, Message.readQuery packet = .error e) ∨
    ∃ query, Message.readQuery packet = .ok query ∧
      (query.header.response = true ∨ query.header.opcode ≠ .query)

/-- The bytes fit a datagram, and what is read from them is a response to the query: it has the
identifier of the query, its wish for recursion and its question, spelled alike. -/
structure Replied (query : Message) (bytes : List UInt8) : Prop where
  length_le : bytes.length ≤ maxDatagram
  read : ∃ got, Message.read bytes.toArray = .ok got ∧ got.question = query.question ∧
    got.header.response = true ∧ got.header.recursionAvailable = false ∧
    got.header.id = query.header.id ∧
    got.header.recursionDesired = query.header.recursionDesired

/-- What becomes of a packet: it never fails, it gets no reply exactly when it is no standard query,
it is counted as received, and the counters are balanced after it. -/
structure Handled (packet : Packet) (outcome : Except Fault (Option (List UInt8)))
    (before after : Counters) : Prop where
  succeeds : Succeeds outcome
  dropped_iff : outcome = .ok none ↔ Dropped packet
  replied : ∀ bytes, outcome = .ok (some bytes) →
    ∃ query, Message.readQuery packet = .ok query ∧ Replied query bytes
  received : after.received = before.received + 1
  balanced : after.Balanced

/-! ## Replies from a tree -/

/-- What is sent for a response is a reply to the query, whatever had to be left out. -/
theorem replied_of_sentAs {response sent : Message} {bytes : List UInt8} {store : Tree}
    (hquery : Standard query) (h : Resolver.Responds store query response)
    (hsent : sent ∈ [response, response.withoutAdditional, response.truncated])
    (hbytes : sent.SentAs bytes) : Replied query bytes := by
  have hquestion : sent.question = query.question := by
    rw [← h.question]
    simp only [List.mem_cons, List.not_mem_nil, or_false] at hsent
    rcases hsent with rfl | rfl | rfl <;> rfl
  have hheader : sent.header =
      { response.header with truncated := sent.header.truncated } := by
    simp only [List.mem_cons, List.not_mem_nil, or_false] at hsent
    rcases hsent with rfl | rfl | rfl <;> rfl
  rcases hbytes.read with ⟨got, hgot, hconveys⟩
  have hplain : query.question.name.toPlain = query.question.name :=
    Name.ext rfl hquery.name.symm
  refine ⟨hbytes.length_le, got, hgot, ?_, ?_⟩
  · rw [hconveys.question, hquestion, hplain]
  · rw [hconveys.header, hheader, h.header]
    exact ⟨rfl, rfl, rfl, rfl⟩

/-- From a tree that stands every standard query gets a reply. -/
theorem resolve_replied (h : tree.Standing []) (hquery : Standard query) (limit : Nat) :
    ∃ bytes minTtl?, resolve tree limit query = .ok (bytes, minTtl?) ∧ Replied query bytes := by
  have hreads : Resolver.ReadsSucceed tree :=
    ⟨h.sound.resolve_total, h.sound.records_succeed h.grounded⟩
  rcases Resolver.respond_succeeds hreads limit query with ⟨response, hresponse⟩
  have hresponds := Resolver.respond_served tree limit hquery.name response hresponse
  have hwritable := hresponds.writable (Resolver.spelledOut_of_names tree.names) hquery.name
  rcases Message.datagram_decodes hwritable with ⟨bytes, hbytes, sent, hsent, hsentAs⟩
  refine ⟨bytes, response.minTtl?, ?_, replied_of_sentAs hquery hresponds hsent hsentAs⟩
  unfold resolve
  rw [hresponse, ok_bind, hbytes]
  rfl

/-! ## The invariant -/

/-- The reply was made from some tree that stood at that time, whatever became of it. -/
def MadeFromTree (key : QuestionKey) (reply : List UInt8) : Prop :=
  ∃ tree : Tree, tree.Standing [] ∧ ∃ limit, RepliesTo tree limit key reply

/-- The tree stands, the replies that are kept were made from trees that did, and the counters are
balanced. -/
structure Sound (tree : Tree) (responder : Responder) : Prop where
  standing : tree.Standing []
  keeps : responder.Keeps MadeFromTree
  balanced : responder.counters.Balanced

/-- A kept reply is adapted to a reply to any query for its question. -/
theorem MadeFromTree.adapt {reply : List UInt8} (h : MadeFromTree query.question.key reply)
    (hquery : Standard query) :
    Replied query (adapt reply query.header.id query.header.recursionDesired
      query.question.name.wire) := by
  rcases h with ⟨tree, hstanding, limit, hreplies⟩
  -- It is the reply that the tree of that time would give to this query.
  rcases hreplies.adapt Tree.caseBlind hquery with ⟨_, hadapted⟩
  rcases resolve_replied hstanding hquery limit with ⟨bytes, _, hbytes, hreplied⟩
  rw [hadapted] at hbytes
  cases hbytes
  exact hreplied

/-! ## One packet -/

/-- A standard query is answered, from the cache or from the tree, and is counted as that. -/
theorem answer_replied (hstanding : tree.Standing []) (hkeeps : responder.Keeps MadeFromTree)
    (hquery : Standard query) (now : Nat) :
    ∃ bytes, (answer tree now query responder).1 = .ok (some bytes) ∧ Replied query bytes ∧
      (answer tree now query responder).2.Keeps MadeFromTree ∧
      ∃ hits ≤ 1, (answer tree now query responder).2.counters =
        { responder.counters with
          answered := responder.counters.answered + 1
          cacheHits := responder.counters.cacheHits + hits } := by
  have hlookUp := hkeeps.lookUp now query.question.key
  have hcounters := counters_lookUp responder now query.question.key
  unfold answer
  dsimp only
  split
  · rename_i cached hcached
    refine ⟨_, rfl, (hkeeps.of_lookUp hcached).adapt hquery, hlookUp.count _, 1, Nat.le_refl _, ?_⟩
    simp only [count, hcounters]
  · rcases resolve_replied hstanding hquery (responder.lookUp now query.question.key).2.limit with
      ⟨bytes, minTtl?, hresolve, hreplied⟩
    rw [hresolve]
    have hmade : MadeFromTree query.question.key bytes :=
      ⟨tree, hstanding, _, query, hquery, rfl, minTtl?, hresolve⟩
    refine ⟨bytes, rfl, hreplied, (hlookUp.keep hmade now minTtl?).count _, 0, Nat.zero_le 1, ?_⟩
    simp only [count, counters_keep, hcounters, Nat.add_zero]

/-- A packet is dropped, or it is a standard query. -/
theorem dropped_or_standard (packet : Packet) :
    (Dropped packet ∧ ∀ (tree : Tree) (now : Nat) (responder : Responder),
      handle tree now packet responder = (.ok none, responder.count fun c =>
        { c with received := c.received + 1, dropped := c.dropped + 1 })) ∨
    (¬Dropped packet ∧ ∃ query, Message.readQuery packet = .ok query ∧ Standard query ∧
      ∀ (tree : Tree) (now : Nat) (responder : Responder),
        handle tree now packet responder =
          answer tree now query (responder.count fun c => { c with received := c.received + 1 })) := by
  unfold Dropped handle
  cases hread : Message.readQuery packet with
  | error e => exact Or.inl ⟨Or.inl ⟨e, rfl⟩, fun _ _ _ => rfl⟩
  | ok query =>
      dsimp only
      by_cases hdrop : (query.header.response || query.header.opcode != .query) = true
      · left
        have hwhy := hdrop
        simp only [Bool.or_eq_true, bne_iff_ne] at hwhy
        refine ⟨Or.inr ⟨query, rfl, hwhy⟩, fun tree now responder => ?_⟩
        rw [if_pos hdrop]
        rfl
      · right
        have hwhy := hdrop
        simp only [Bool.or_eq_true, bne_iff_ne, not_or, not_not] at hwhy
        refine ⟨?_, query, rfl, ⟨hwhy.2, form_of_readQuery hread⟩, fun tree now responder => ?_⟩
        · rintro (⟨e, herror⟩ | ⟨other, hother, hcause⟩)
          · cases herror
          · cases hother
            exact hcause.elim hwhy.1 fun hne => hne hwhy.2
        · rw [if_neg hdrop]

/-- Every packet is handled, and the server stays sound. -/
theorem handle_sound (h : Sound tree responder) (now : Nat) (packet : Packet) :
    Handled packet (handle tree now packet responder).1 responder.counters
        (handle tree now packet responder).2.counters ∧
      Sound tree (handle tree now packet responder).2 := by
  rcases dropped_or_standard packet with ⟨hdropped, hhandle⟩ | ⟨hkept, query, hread, hquery, hhandle⟩
  · rw [hhandle]
    refine ⟨⟨Succeeds.ok none, iff_of_true rfl hdropped, nofun, rfl, h.balanced.drop⟩, ?_⟩
    exact ⟨h.standing, h.keeps.count _, h.balanced.drop⟩
  · rw [hhandle]
    rcases answer_replied h.standing (h.keeps.count fun c => { c with received := c.received + 1 })
      hquery now with ⟨bytes, hbytes, hreplied, hkeeps, hits, hle, hcounters⟩
    rw [hbytes, hcounters]
    have hbalanced := h.balanced.answer hle
    refine ⟨⟨Succeeds.ok _, iff_of_false nofun hkept, ?_, rfl, hbalanced⟩,
      h.standing, hkeeps, hcounters ▸ hbalanced⟩
    intro sent hsent
    cases hsent
    exact ⟨query, hread, hreplied⟩

/-! ## Every state -/

/-- The states of a server that starts with an empty tree and without kept replies, and that gets
requests and packets one after the other. -/
inductive Running : Tree → Responder → Prop
  | start (startedAt : Timestamp) (limit : Nat) {cache? : Option ResponseCache} :
      (∀ cache, cache? = some cache → cache.entries = []) →
        Running (.empty startedAt) (.start limit cache?)
  | request {tree : Tree} {responder : Responder} (request : Request) :
      Running tree responder → Running (request.change.perform tree).2 responder
  | packet {tree : Tree} {responder : Responder} (now : Nat) (packet : Packet) :
      Running tree responder → Running tree (handle tree now packet responder).2

theorem sound_of_running (h : Running tree responder) : Sound tree responder := by
  induction h with
  | start startedAt limit hempty =>
      exact ⟨Tree.standing_empty startedAt, keeps_start MadeFromTree limit hempty, rfl, Nat.le_refl _⟩
  | request request _ ih => exact { ih with standing := Tree.standing_after ih.standing request }
  | packet now packet _ ih => exact (handle_sound ih now packet).2

/-- Whatever a server was asked for before, every packet is handled. -/
theorem handled_of_running (h : Running tree responder) (now : Nat) (packet : Packet) :
    Handled packet (handle tree now packet responder).1 responder.counters
      (handle tree now packet responder).2.counters :=
  (handle_sound (sound_of_running h) now packet).1

/-- A server that was asked to store an address, and that was asked for it once already, answers the
query when it comes again. -/
theorem handled_of_running_sampleName :
    let query := Message.query 7 true ⟨Zone.sampleName.toPlain, .a⟩
    let packet : Packet := query.wire.toArray
    let tree := ((Request.addRecord Zone.sampleName.toPlain (.a 60 ⟨10, 0, 0, 1⟩)).change.perform
      (Tree.empty ⟨0, 0⟩)).2
    let responder := (handle tree 0 packet (start 13 (some (.empty 8 3600 60)))).2
    Running tree responder ∧ ∃ bytes, (handle tree 1 packet responder).1 = .ok (some bytes) ∧
      Replied query bytes := by
  intro query packet tree responder
  have hrunning : Running tree responder :=
    .packet 0 packet (.request _ (.start ⟨0, 0⟩ 13 fun cache hcache => by cases hcache; rfl))
  have hread : Message.readQuery packet = .ok query := Message.readQuery_query 7 true rfl
  have hhandled := handled_of_running hrunning 1 packet
  refine ⟨hrunning, ?_⟩
  rcases hhandled.succeeds with ⟨_ | bytes, hreply⟩
  · rcases hhandled.dropped_iff.1 hreply with ⟨e, herror⟩ | ⟨other, hother, hcause⟩
    · rw [hread] at herror
      cases herror
    · rw [hread] at hother
      cases hother
      exact absurd hcause (by decide)
  · rcases hhandled.replied bytes hreply with ⟨other, hother, hreplied⟩
    rw [hread] at hother
    cases hother
    exact ⟨bytes, hreply, hreplied⟩

end Responder
end NameServer
