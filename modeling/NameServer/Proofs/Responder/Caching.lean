import NameServer.Proofs.Message.RoundTrip
import NameServer.Proofs.Responder.Adaptation

/-!
# Proofs.Responder.Caching — a cache is not seen

A responder with a cache replies to every packet as one without a cache would, whatever came before.

* `Responder.replyTo` — the reply to a packet by itself;
* `Responder.Keeps` — what is known of every reply that is kept;
* `Responder.Serves` — the invariant: every kept reply is the one to some spelling of its question;
* `Responder.handle_serves` — one packet gets its reply and keeps the invariant;
* `Responder.run_serves` — so does a run of packets;
* `Responder.cache_transparent` — every store can be cached.
-/

namespace NameServer

open Zone (Store CaseBlind)

namespace ResponseCache

variable {cache : ResponseCache} {now : Nat} {key : QuestionKey} {entry : CachedReply}

theorem mem_of_mem_without (h : entry ∈ cache.without key) : entry ∈ cache.entries :=
  List.mem_of_mem_filter h

/-- Looking a reply up keeps no entry that was not there. -/
theorem mem_of_mem_get (h : entry ∈ (cache.get now key).2.entries) : entry ∈ cache.entries := by
  unfold get at h
  split at h
  · exact h
  · rename_i found hfind
    split at h
    · rcases List.mem_cons.1 h with rfl | hmem
      · exact List.mem_of_find?_eq_some hfind
      · exact mem_of_mem_without hmem
    · exact mem_of_mem_without h

/-- A reply that is found is kept under its key. -/
theorem exists_of_get {reply : List UInt8} (h : (cache.get now key).1 = some reply) :
    ∃ entry ∈ cache.entries, entry.key = key ∧ entry.reply = reply := by
  unfold get at h
  split at h
  · cases h
  · rename_i found hfind
    split at h
    · have hkey := List.find?_some hfind
      exact ⟨found, List.mem_of_find?_eq_some hfind, of_decide_eq_true hkey, Option.some.inj h⟩
    · cases h

/-- Keeping a reply adds no other entry. -/
theorem mem_insert {reply : List UInt8} {minTtl? : Option UInt32}
    (h : entry ∈ (cache.insert now key reply minTtl?).entries) :
    (entry.key = key ∧ entry.reply = reply) ∨ entry ∈ cache.entries := by
  unfold insert at h
  dsimp only at h
  split at h
  · exact Or.inr h
  · rcases List.mem_cons.1 (List.mem_of_mem_take h) with rfl | hmem
    · exact Or.inl ⟨rfl, rfl⟩
    · exact Or.inr (mem_of_mem_without hmem)

end ResponseCache

namespace Responder

variable {σ : Type} [Store σ]

/-! ## Replies without a cache -/

/-- A standard query as it is read from a packet. -/
structure Standard (query : Message) : Prop where
  opcode : query.header.opcode = .query
  name : query.question.name.form = .plain

/-- The reply to a standard query by itself. -/
def replyToQuery (store : σ) (limit : Nat) (query : Message) : Except Fault (Option (List UInt8)) :=
  (resolve store limit query).map fun out => some out.1

/-- The reply to a packet by itself. -/
def replyTo (store : σ) (limit : Nat) (packet : Packet) : Except Fault (Option (List UInt8)) :=
  match Message.readQuery packet with
  | .error _ => .ok none
  | .ok query =>
    if query.header.response || query.header.opcode != .query then .ok none
    else replyToQuery store limit query

theorem form_of_readQuery {packet : Packet} {query : Message}
    (h : Message.readQuery packet = .ok query) : query.question.name.form = .plain := by
  rcases exists_of_bind h with ⟨⟨header, counts⟩, -, h⟩
  rcases exists_of_bind h with ⟨⟨question, pos⟩, hquestion, heq⟩
  cases heq
  exact Question.read_form hquestion

/-! ## What looking up and keeping leave alone -/

theorem limit_lookUp (responder : Responder) (now : Nat) (key : QuestionKey) :
    (responder.lookUp now key).2.limit = responder.limit := by
  unfold lookUp
  split <;> rfl

theorem counters_lookUp (responder : Responder) (now : Nat) (key : QuestionKey) :
    (responder.lookUp now key).2.counters = responder.counters := by
  unfold lookUp
  split <;> rfl

theorem limit_keep (responder : Responder) (now : Nat) (key : QuestionKey) (bytes : List UInt8)
    (minTtl? : Option UInt32) : (responder.keep now key bytes minTtl?).limit = responder.limit := by
  unfold keep
  split <;> rfl

theorem counters_keep (responder : Responder) (now : Nat) (key : QuestionKey) (bytes : List UInt8)
    (minTtl? : Option UInt32) :
    (responder.keep now key bytes minTtl?).counters = responder.counters := by
  unfold keep
  split <;> rfl

/-! ## Kept replies -/

/-- Every reply that the responder keeps has a property, together with its key. -/
def Keeps (P : QuestionKey → List UInt8 → Prop) (responder : Responder) : Prop :=
  ∀ cache, responder.cache? = some cache → ∀ entry ∈ cache.entries, P entry.key entry.reply

section Keeps

variable {P : QuestionKey → List UInt8 → Prop} {responder : Responder} {now : Nat}
variable {key : QuestionKey} {reply : List UInt8}

theorem Keeps.count (h : responder.Keeps P) (event : Counters → Counters) :
    (responder.count event).Keeps P :=
  h

theorem Keeps.lookUp (h : responder.Keeps P) (now : Nat) (key : QuestionKey) :
    (responder.lookUp now key).2.Keeps P := by
  unfold Responder.lookUp
  split
  · exact h
  · rename_i cache hcache
    rintro _ hsome entry hmem
    cases hsome
    exact h cache hcache entry (ResponseCache.mem_of_mem_get hmem)

theorem Keeps.keep (h : responder.Keeps P) (hreply : P key reply) (now : Nat)
    (minTtl? : Option UInt32) : (responder.keep now key reply minTtl?).Keeps P := by
  unfold Responder.keep
  split
  · exact h
  · rename_i cache hcache
    rintro _ hsome entry hmem
    cases hsome
    rcases ResponseCache.mem_insert hmem with ⟨hkey, hbytes⟩ | hold
    · rw [hkey, hbytes]
      exact hreply
    · exact h cache hcache entry hold

/-- A reply that is found was kept under its key. -/
theorem Keeps.of_lookUp (h : responder.Keeps P)
    (hfound : (responder.lookUp now key).1 = some reply) : P key reply := by
  unfold Responder.lookUp at hfound
  split at hfound
  · cases hfound
  · rename_i cache hcache
    rcases ResponseCache.exists_of_get hfound with ⟨entry, hmem, rfl, rfl⟩
    exact h cache hcache entry hmem

/-- A responder starts without replies. -/
theorem keeps_start (P : QuestionKey → List UInt8 → Prop) (limit : Nat)
    {cache? : Option ResponseCache} (hempty : ∀ cache, cache? = some cache → cache.entries = []) :
    (start limit cache?).Keeps P := by
  intro cache hcache entry hmem
  rw [hempty cache hcache] at hmem
  cases hmem

end Keeps

/-- The bytes are the reply to some query for a question. -/
def RepliesTo (store : σ) (limit : Nat) (key : QuestionKey) (reply : List UInt8) : Prop :=
  ∃ query, Standard query ∧ query.question.key = key ∧
    ∃ minTtl?, resolve store limit query = .ok (reply, minTtl?)

/-! ## The invariant -/

/-- The responder looks up `limit` records, and each reply that it keeps is the reply to some query
for the same question. -/
structure Serves (store : σ) (limit : Nat) (responder : Responder) : Prop where
  limit_eq : responder.limit = limit
  keeps : responder.Keeps (RepliesTo store limit)

variable {store : σ} {limit now : Nat} {responder : Responder} {query : Message}

theorem Serves.count (h : Serves store limit responder) (event : Counters → Counters) :
    Serves store limit (responder.count event) :=
  ⟨h.limit_eq, h.keeps.count event⟩

theorem Serves.lookUp (h : Serves store limit responder) (key : QuestionKey) :
    Serves store limit (responder.lookUp now key).2 where
  limit_eq := (limit_lookUp responder now key).trans h.limit_eq
  keeps := h.keeps.lookUp now key

theorem Serves.keep (h : Serves store limit responder) (hquery : Standard query)
    {bytes : List UInt8} {minTtl? : Option UInt32}
    (hresolve : resolve store limit query = .ok (bytes, minTtl?)) :
    Serves store limit (responder.keep now query.question.key bytes minTtl?) where
  limit_eq := (limit_keep responder now _ bytes minTtl?).trans h.limit_eq
  keeps := h.keeps.keep ⟨query, hquery, rfl, minTtl?, hresolve⟩ now minTtl?

/-- The reply to a query, adapted to another query for the same question, is the reply to that. -/
theorem RepliesTo.adapt (hblind : CaseBlind σ) {reply : List UInt8}
    (h : RepliesTo store limit query.question.key reply) (hquery : Standard query) :
    ∃ minTtl?, resolve store limit query = .ok (adapt reply query.header.id
      query.header.recursionDesired query.question.name.wire, minTtl?) := by
  -- The first query has the same key as this one, so it is a twin of it.
  rcases h with ⟨first, hfirst, hkey, minTtl?, hresolve⟩
  have hfolded : first.question.name.folded = query.question.name.folded :=
    congrArg QuestionKey.name hkey
  have htype : first.question.type = query.question.type := congrArg QuestionKey.type hkey
  have htwin : Name.Twin first.question.name.folded first.question.name query.question.name :=
    ⟨hfirst.name.trans hquery.name.symm, hfolded, List.suffix_refl _⟩
  have hagree := resolve_twin hblind store limit (hfirst.opcode.trans hquery.opcode.symm) htwin
    htype
  rcases hagree.exists_of_ok hresolve with ⟨⟨bytes, minTtl?⟩, hout, hadapts⟩
  unfold Message.Adapts at hadapts
  dsimp only at hadapts
  rw [hadapts] at hout
  exact ⟨minTtl?, hout⟩

/-- A kept reply, adapted to a query for the same question, is the reply to that query. -/
theorem Serves.adapt_lookUp (hblind : CaseBlind σ) (h : Serves store limit responder)
    (hquery : Standard query) {cached : List UInt8}
    (hcached : (responder.lookUp now query.question.key).1 = some cached) :
    replyToQuery store limit query = .ok (some (adapt cached query.header.id
      query.header.recursionDesired query.question.name.wire)) := by
  rcases (h.keeps.of_lookUp hcached).adapt hblind hquery with ⟨minTtl?, hout⟩
  unfold replyToQuery
  rw [hout]
  rfl

/-! ## One packet -/

theorem answer_serves (hblind : CaseBlind σ) (h : Serves store limit responder)
    (hquery : Standard query) :
    (answer store now query responder).1 = replyToQuery store limit query ∧
      Serves store limit (answer store now query responder).2 := by
  have hkept : Serves store limit (responder.lookUp now query.question.key).2 := h.lookUp _
  unfold answer
  dsimp only
  split
  · rename_i cached hcached
    refine ⟨(h.adapt_lookUp hblind hquery hcached).symm, ?_⟩
    dsimp only
    exact hkept.count _
  · rw [hkept.limit_eq]
    unfold replyToQuery
    cases hresolve : resolve store limit query with
    | error fault =>
        refine ⟨rfl, ?_⟩
        dsimp only
        exact hkept.count _
    | ok out =>
        refine ⟨rfl, ?_⟩
        dsimp only
        exact (hkept.keep hquery hresolve).count _

/-- A packet gets the reply that it would get by itself. -/
theorem handle_serves (hblind : CaseBlind σ) (h : Serves store limit responder)
    (packet : Packet) :
    (handle store now packet responder).1 = replyTo store limit packet ∧
      Serves store limit (handle store now packet responder).2 := by
  unfold handle replyTo
  cases hread : Message.readQuery packet with
  | error e =>
      refine ⟨rfl, ?_⟩
      dsimp only
      exact (h.count _).count _
  | ok query =>
      dsimp only
      by_cases hdrop : (query.header.response || query.header.opcode != .query) = true
      · rw [if_pos hdrop, if_pos hdrop]
        refine ⟨rfl, ?_⟩
        dsimp only
        exact (h.count _).count _
      · rw [if_neg hdrop, if_neg hdrop]
        have hquery : Standard query := by
          refine ⟨?_, form_of_readQuery hread⟩
          simp only [Bool.or_eq_true, not_or, bne_iff_ne, ne_eq, not_not] at hdrop
          exact hdrop.2
        exact answer_serves hblind (h.count _) hquery

/-! ## A run of packets -/

/-- The replies to packets that come in one after the other, each at a moment. -/
def run (store : σ) : List (Nat × Packet) → Responder →
    List (Except Fault (Option (List UInt8)))
  | [], _ => []
  | (now, packet) :: packets, responder =>
    (handle store now packet responder).1 ::
      run store packets (handle store now packet responder).2

theorem run_serves (hblind : CaseBlind σ) (h : Serves store limit responder)
    (packets : List (Nat × Packet)) :
    run store packets responder = packets.map fun arrival => replyTo store limit arrival.2 := by
  -- The responder changes with every packet; that it serves the store is what carries over.
  induction packets generalizing responder with
  | nil => rfl
  | cons arrival packets ih =>
      rcases arrival with ⟨now, packet⟩
      have hhandle : (handle store now packet responder).1 = replyTo store limit packet ∧
          Serves store limit (handle store now packet responder).2 :=
        handle_serves hblind h packet
      rcases hhandle with ⟨hreply, hnext⟩
      unfold run
      rw [hreply, ih hnext]
      rfl

theorem serves_start (store : σ) (limit : Nat) (cache? : Option ResponseCache)
    (hempty : ∀ cache, cache? = some cache → cache.entries = []) :
    Serves store (max limit 1) (start limit cache?) :=
  ⟨rfl, keeps_start (RepliesTo store (max limit 1)) limit hempty⟩

/-- For every state of a store, every limit, every cache and every sequence of packets, each packet
gets the reply that a responder without a cache gives to it alone. -/
def CacheTransparent (σ : Type) [Store σ] : Prop :=
  ∀ (store : σ) (limit capacity : Nat) (maxTtl negativeTtl : UInt32)
    (packets : List (Nat × Packet)),
    run store packets (start limit (some (.empty capacity maxTtl negativeTtl))) =
      packets.map fun arrival => (handle store arrival.1 arrival.2 (start limit none)).1

theorem cacheTransparent_of_caseBlind (hblind : CaseBlind σ) : CacheTransparent σ := by
  intro store limit capacity maxTtl negativeTtl packets
  have hcached : Serves store (max limit 1)
      (start limit (some (.empty capacity maxTtl negativeTtl))) := by
    refine serves_start store limit _ ?_
    rintro _ hsome
    cases hsome
    rfl
  have hplain : Serves store (max limit 1) (start limit none) :=
    serves_start store limit none fun _ hnone => by cases hnone
  -- Both sides are what the packets get by themselves.
  rw [run_serves hblind hcached]
  refine List.map_congr_left fun arrival _ => ?_
  exact (handle_serves hblind hplain arrival.2).1.symm

/-- No store shows whether its replies are cached. -/
theorem cache_transparent :
    CacheTransparent Zone.Tree ∧ CacheTransparent Zone.Relations ∧
      CacheTransparent Zone.ReadOnly ∧ CacheTransparent Zone.Unprepared :=
  ⟨cacheTransparent_of_caseBlind Zone.Tree.caseBlind,
    cacheTransparent_of_caseBlind Zone.Relations.caseBlind,
    cacheTransparent_of_caseBlind Zone.ReadOnly.caseBlind,
    cacheTransparent_of_caseBlind Zone.Unprepared.caseBlind⟩

end Responder

end NameServer
