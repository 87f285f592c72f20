import Mathlib.Data.Finset.Card
import NameServer.Proofs.Firsts
import NameServer.ResponseCache

/-!
# Proofs.Responder.Recency — which replies a cache holds

A full cache drops the reply whose key was not used for longest. So what it holds is told by the
uses of keys since it was cleared: a reply is there until as many other keys have been used as the
cache has room for.

* `ResponseCache.Use` — what counts as a use of a key: a reply is kept under it, or is found;
* `ResponseCache.ranking` — the keys in the order of their last use;
* `ResponseCache.Ranks` — the invariant: the cache holds the first keys of the ranking, each with the
  reply that was kept last;
* `ResponseCache.Ranks.perform` — one call keeps it, `ResponseCache.ranks_run` — so does a run;
* `ResponseCache.recency` — a reply is found if it was kept since the last clear and fewer other
  keys than there is room for were used since its key was.
-/

namespace NameServer

/-! ## Keys in the order of their last use -/

section Firsts

variable {α : Type} [DecidableEq α] {x : α} {xs : List α}

theorem mem_firsts_iff : x ∈ firsts (· = ·) xs ↔ x ∈ xs := by
  constructor
  · exact fun h => (firsts_sublist _ xs).subset h
  · intro h
    rcases exists_first (· = ·) (fun _ => rfl) Eq.trans h with ⟨y, hy, rfl⟩
    exact hy

theorem nodup_firsts (xs : List α) : (firsts (· = ·) xs).Nodup :=
  pairwise_firsts (· = ·) xs

/-- There are as many first elements as different elements. -/
theorem length_firsts (xs : List α) : (firsts (· = ·) xs).length = xs.toFinset.card := by
  have hsame : (firsts (· = ·) xs).toFinset = xs.toFinset := by
    ext x
    simp [mem_firsts_iff]
  rw [← hsame, List.toFinset_card_of_nodup (nodup_firsts xs)]

/-- The first elements in front of `x` are those of what is in front of `x`. -/
theorem takeWhile_firsts (x : α) (xs : List α) :
    (firsts (· = ·) xs).takeWhile (· ≠ x) = firsts (· = ·) (xs.takeWhile (· ≠ x)) := by
  induction xs with
  | nil => rfl
  | cons y xs ih =>
      by_cases hy : y = x
      · simp [firsts, hy]
      · -- What is left out because of `y` is not `x`, so it stops no one.
        have hstop : (fun z => !decide (¬y = z) || decide (z ≠ x)) = fun z => decide (z ≠ x) := by
          funext z
          by_cases hz : y = z
          · simp [← hz, hy]
          · simp [hz]
        calc (firsts (· = ·) (y :: xs)).takeWhile (· ≠ x)
            = y :: ((firsts (· = ·) xs).filter fun z => ¬y = z).takeWhile (· ≠ x) := by
                simp [firsts, hy]
          _ = y :: ((firsts (· = ·) xs).takeWhile (· ≠ x)).filter fun z => ¬y = z := by
                rw [List.takeWhile_filter, hstop]
          _ = y :: (firsts (· = ·) (xs.takeWhile (· ≠ x))).filter fun z => ¬y = z := by
                rw [ih]
          _ = firsts (· = ·) ((y :: xs).takeWhile (· ≠ x)) := by
                simp [firsts, hy]

/-- An element is among the first `n` if fewer than `n` stand in front of it. -/
theorem mem_take_iff (n : Nat) :
    x ∈ xs.take n ↔ x ∈ xs ∧ (xs.takeWhile (· ≠ x)).length < n := by
  induction xs generalizing n with
  | nil => simp
  | cons y xs ih =>
      cases n with
      | zero => simp
      | succ n =>
          by_cases hy : y = x
          · simp [hy]
          · simp [hy, Ne.symm hy, ih]

theorem filter_ne_of_not_mem (h : x ∉ xs) : xs.filter (· ≠ x) = xs := by
  refine List.filter_eq_self.2 fun y hy => ?_
  have hne : y ≠ x := fun heq => h (heq ▸ hy)
  simpa using hne

/-- Where nothing is repeated, what is put in front of the first `n` elements may be put in front of
all of them before they are cut off. -/
theorem take_moveToFront (hnodup : xs.Nodup) (n : Nat) :
    (x :: (xs.take n).filter (· ≠ x)).take n = (x :: xs.filter (· ≠ x)).take n := by
  cases n with
  | zero => rfl
  | succ n =>
      rw [List.take_succ_cons, List.take_succ_cons]
      congr 1
      -- At most one element goes, so the first `n + 1` have `n` others among them.
      induction xs generalizing n with
      | nil => rfl
      | cons y xs ih =>
          rcases List.nodup_cons.1 hnodup with ⟨hnew, hrest⟩
          by_cases hy : y = x
          · subst hy
            have hnewer : y ∉ xs.take n := fun hmem => hnew (List.mem_of_mem_take hmem)
            calc ((y :: xs).take (n + 1) |>.filter (· ≠ y)).take n
                = ((xs.take n).filter (· ≠ y)).take n := by simp
              _ = xs.take n := by rw [filter_ne_of_not_mem hnewer, List.take_take, Nat.min_self]
              _ = (xs.filter (· ≠ y)).take n := by rw [filter_ne_of_not_mem hnew]
              _ = ((y :: xs).filter (· ≠ y)).take n := by simp
          · cases n with
            | zero => simp [hy]
            | succ n => simpa [hy] using ih hrest n

end Firsts

namespace ResponseCache

/-! ## Uses -/

/-- A use of a key: a reply is kept under it, or the reply that is kept under it is found. -/
inductive Use
  | kept (key : QuestionKey) (reply : List UInt8)
  | found (key : QuestionKey)
  deriving DecidableEq, Repr

namespace Use

/-- The key that is used. -/
def key : Use → QuestionKey
  | kept key _ | found key => key

/-- The reply that is kept under a key by this use. -/
def reply? (key : QuestionKey) : Use → Option (List UInt8)
  | kept other reply => if other = key then some reply else none
  | found _ => none

@[simp] theorem key_kept (key : QuestionKey) (reply : List UInt8) : (kept key reply).key = key :=
  rfl

@[simp] theorem key_found (key : QuestionKey) : (found key).key = key :=
  rfl

@[simp] theorem reply?_found (key other : QuestionKey) : reply? key (found other) = none :=
  rfl

end Use

/-- The reply that was kept last under a key; uses stand newest first. -/
def lastKept? (uses : List Use) (key : QuestionKey) : Option (List UInt8) :=
  uses.findSome? (Use.reply? key)

theorem lastKept?_cons (use : Use) (uses : List Use) (key : QuestionKey) :
    lastKept? (use :: uses) key = (use.reply? key).or (lastKept? uses key) := by
  unfold lastKept?
  rw [List.findSome?_cons]
  cases use.reply? key <;> rfl

/-- The keys of the uses that are newer than the last one of `key`. -/
def usedSince (uses : List Use) (key : QuestionKey) : List QuestionKey :=
  (uses.map Use.key).takeWhile (· ≠ key)

/-- The keys that were used, the last used first. -/
def ranking (uses : List Use) : List QuestionKey :=
  firsts (· = ·) (uses.map Use.key)

/-- A key is among the first of the ranking if few others were used since it was. -/
theorem mem_take_ranking_iff {uses : List Use} {key : QuestionKey} {n : Nat} :
    key ∈ (ranking uses).take n ↔
      key ∈ uses.map Use.key ∧ (usedSince uses key).toFinset.card < n := by
  unfold ranking usedSince
  rw [mem_take_iff, mem_firsts_iff, takeWhile_firsts, length_firsts]

theorem ranking_cons (use : Use) (uses : List Use) :
    ranking (use :: uses) = use.key :: (ranking uses).filter (· ≠ use.key) := by
  simp [ranking, firsts, eq_comm]

theorem mem_of_lastKept? {uses : List Use} {key : QuestionKey} {reply : List UInt8}
    (h : lastKept? uses key = some reply) : key ∈ uses.map Use.key := by
  rcases List.exists_of_findSome?_eq_some h with ⟨use, hmem, huse⟩
  cases use with
  | kept other said =>
      by_cases hkey : other = key
      · exact List.mem_map.2 ⟨_, hmem, hkey⟩
      · simp [Use.reply?, hkey] at huse
  | found other => simp at huse

/-! ## Calls -/

/-- A call of a cache, at a moment. -/
inductive Call
  | get (now : Nat) (key : QuestionKey)
  | insert (now : Nat) (key : QuestionKey) (reply : List UInt8) (minTtl? : Option UInt32)
  | clear
  deriving DecidableEq, Repr

namespace Call

/-- The cache after a call. -/
def perform (cache : ResponseCache) : Call → ResponseCache
  | get now key => (cache.get now key).2
  | insert now key reply minTtl? => cache.insert now key reply minTtl?
  | clear => cache.clear

/-- The uses since the cache was cleared, after a call: a lookup that finds nothing and a reply
without a lifetime are none. -/
def log (cache : ResponseCache) (uses : List Use) : Call → List Use
  | get now key => if (cache.get now key).1.isSome then .found key :: uses else uses
  | insert _ key reply minTtl? =>
    if cache.lifetime minTtl? = 0 then uses else .kept key reply :: uses
  | clear => []

end Call

/-- The time of no reply is over at a moment. -/
def Current (cache : ResponseCache) (now : Nat) : Prop :=
  ∀ entry ∈ cache.entries, now < entry.expiresAt

instance (cache : ResponseCache) (now : Nat) : Decidable (cache.Current now) :=
  inferInstanceAs (Decidable (∀ entry ∈ cache.entries, now < entry.expiresAt))

/-- The cache and the uses since it was cleared, after calls one after the other. -/
def run (cache : ResponseCache) (uses : List Use) : List Call → ResponseCache × List Use
  | [] => (cache, uses)
  | call :: calls => run (call.perform cache) (call.log cache uses) calls

/-- Whenever something is looked up, the time of no reply is over. -/
def Lasting (cache : ResponseCache) : List Call → Prop
  | [] => True
  | call :: calls =>
    (∀ now key, call = .get now key → cache.Current now) ∧ Lasting (call.perform cache) calls

/-! ## The invariant -/

variable {cache : ResponseCache} {uses : List Use} {now : Nat} {key : QuestionKey}

/-- The keys of the replies, the last used first. -/
def keys (cache : ResponseCache) : List QuestionKey :=
  cache.entries.map CachedReply.key

/-- The cache holds the first keys of the ranking, each with the reply that was kept last. -/
structure Ranks (cache : ResponseCache) (uses : List Use) : Prop where
  keys : cache.keys = (ranking uses).take cache.capacity
  replies : ∀ entry ∈ cache.entries, lastKept? uses entry.key = some entry.reply

/-- Without the entry of a key, the keys are the others. -/
theorem map_without (cache : ResponseCache) (key : QuestionKey) :
    (cache.without key).map CachedReply.key = cache.keys.filter (· ≠ key) := by
  unfold without keys
  rw [List.filter_map]
  rfl

/-- A use moves its key to the front; what no longer fits goes. -/
theorem Ranks.keys_use (h : Ranks cache uses) (use : Use) :
    (use.key :: (cache.without use.key).map CachedReply.key).take cache.capacity =
      (ranking (use :: uses)).take cache.capacity := by
  rw [map_without, h.keys, ranking_cons]
  exact take_moveToFront (nodup_firsts _) _

/-- A use does not change what was kept under other keys. -/
theorem lastKept?_cons_of_ne {use : Use} (h : use.key ≠ key) :
    lastKept? (use :: uses) key = lastKept? uses key := by
  cases use with
  | kept other reply => simp [lastKept?_cons, Use.reply?, show other ≠ key from h]
  | found other => simp [lastKept?_cons]

theorem Ranks.replies_without (h : Ranks cache uses) (use : Use) :
    ∀ entry ∈ cache.without use.key, lastKept? (use :: uses) entry.key = some entry.reply := by
  intro entry hmem
  rcases List.mem_filter.1 hmem with ⟨hold, hne⟩
  rw [lastKept?_cons_of_ne (Ne.symm (of_decide_eq_true hne))]
  exact h.replies entry hold

theorem Ranks.length_le (h : Ranks cache uses) : cache.size ≤ cache.capacity := by
  have hlength := congrArg List.length h.keys
  simp only [ResponseCache.keys, List.length_map, List.length_take] at hlength
  unfold size
  omega

/-! ## Lookups -/

/-- While no time is over, what is kept under a key is found. -/
theorem get_of_current (h : cache.Current now) (key : QuestionKey) :
    (cache.entries.find? (·.key = key) = none ∧ cache.get now key = (none, cache)) ∨
      ∃ entry ∈ cache.entries, entry.key = key ∧ cache.get now key =
        (some entry.reply, { cache with entries := entry :: cache.without key }) := by
  cases hfind : cache.entries.find? (·.key = key) with
  | none =>
      refine Or.inl ⟨rfl, ?_⟩
      simp [get, hfind]
  | some entry =>
      have hmem : entry ∈ cache.entries := List.mem_of_find?_eq_some hfind
      have hkey : entry.key = key := by simpa using List.find?_some hfind
      refine Or.inr ⟨entry, hmem, hkey, ?_⟩
      simp [get, hfind, h entry hmem]

/-- A reply is found if it was the last to be kept and few other keys were used since. -/
theorem Ranks.get_eq_some_iff (h : Ranks cache uses) (hcurrent : cache.Current now)
    {reply : List UInt8} :
    (cache.get now key).1 = some reply ↔
      lastKept? uses key = some reply ∧
        (usedSince uses key).toFinset.card < cache.capacity := by
  have hkeys : key ∈ cache.keys ↔ key ∈ uses.map Use.key ∧
      (usedSince uses key).toFinset.card < cache.capacity := by
    rw [h.keys, mem_take_ranking_iff]
  rcases get_of_current hcurrent key with ⟨hnone, hget⟩ | ⟨entry, hmem, rfl, hget⟩
  · -- No entry has the key, so it is not among the first of the ranking.
    have hmissing : key ∉ cache.keys := by
      simpa [ResponseCache.keys] using List.find?_eq_none.1 hnone
    rw [hget]
    constructor
    · exact fun hsome => nomatch hsome
    · rintro ⟨hlast, hfew⟩
      exact absurd (hkeys.2 ⟨mem_of_lastKept? hlast, hfew⟩) hmissing
  · have hthere : entry.key ∈ cache.keys := List.mem_map_of_mem hmem
    rw [hget, h.replies entry hmem]
    constructor
    · exact fun hsome => ⟨hsome, (hkeys.1 hthere).2⟩
    · exact fun hsome => hsome.1

/-! ## One call -/

theorem ranks_empty (capacity : Nat) (maxTtl negativeTtl : UInt32) :
    Ranks (empty capacity maxTtl negativeTtl) [] where
  keys := by simp [empty, ResponseCache.keys, ranking, firsts]
  replies := by simp [empty]

/-- A lookup that finds a reply is a use of its key, and any other changes nothing. -/
theorem Ranks.get (h : Ranks cache uses) (hcurrent : cache.Current now) (key : QuestionKey) :
    Ranks (cache.get now key).2 (Call.log cache uses (.get now key)) := by
  rcases get_of_current hcurrent key with ⟨-, hget⟩ | ⟨entry, hmem, rfl, hget⟩
  · simpa [Call.log, hget] using h
  · have hreply : lastKept? (.found entry.key :: uses) entry.key = some entry.reply := by
      simpa [lastKept?_cons] using h.replies entry hmem
    have hfits : (entry.key :: (cache.without entry.key).map CachedReply.key).length ≤
        cache.capacity := by
      -- At least the entry that is found is taken from its old place.
      have hfewer : (cache.without entry.key).length < cache.entries.length :=
        List.length_filter_lt_length_iff_exists.2 ⟨entry, hmem, by simp⟩
      have hall := h.length_le
      unfold size at hall
      simp only [List.length_cons, List.length_map]
      omega
    have hkeys := h.keys_use (.found entry.key)
    simp only [Call.log, hget, Option.isSome_some, if_true]
    refine ⟨?_, ?_⟩
    · simpa [ResponseCache.keys, List.take_of_length_le hfits] using hkeys
    · exact List.forall_mem_cons.2 ⟨hreply, h.replies_without (.found entry.key)⟩

/-- Keeping a reply is a use of its key, unless the reply has no lifetime. -/
theorem Ranks.insert (h : Ranks cache uses) (now : Nat) (key : QuestionKey) (reply : List UInt8)
    (minTtl? : Option UInt32) :
    Ranks (cache.insert now key reply minTtl?)
      (Call.log cache uses (.insert now key reply minTtl?)) := by
  by_cases hzero : cache.lifetime minTtl? = 0
  · simpa [ResponseCache.insert, Call.log, hzero] using h
  · have hreply : lastKept? (.kept key reply :: uses) key = some reply := by
      simp [lastKept?_cons, Use.reply?]
    simp only [ResponseCache.insert, Call.log, hzero, if_false]
    refine ⟨?_, ?_⟩
    · simpa [ResponseCache.keys, List.map_take] using h.keys_use (.kept key reply)
    · intro entry hmem
      rcases List.mem_cons.1 (List.mem_of_mem_take hmem) with rfl | hold
      · exact hreply
      · exact h.replies_without (.kept key reply) entry hold

theorem ranks_clear (cache : ResponseCache) : Ranks cache.clear [] where
  keys := by simp [clear, ResponseCache.keys, ranking, firsts]
  replies := by simp [clear]

theorem Ranks.perform (h : Ranks cache uses) (call : Call)
    (hcurrent : ∀ now key, call = .get now key → cache.Current now) :
    Ranks (call.perform cache) (call.log cache uses) := by
  cases call with
  | get now key => exact h.get (hcurrent now key rfl) key
  | insert now key reply minTtl? => exact h.insert now key reply minTtl?
  | clear => exact ranks_clear cache

/-! ## Runs -/

theorem ranks_run (h : Ranks cache uses) {calls : List Call} (hlasting : Lasting cache calls) :
    Ranks (run cache uses calls).1 (run cache uses calls).2 := by
  induction calls generalizing cache uses with
  | nil => exact h
  | cons call calls ih => exact ih (h.perform call hlasting.1) hlasting.2

theorem capacity_perform (cache : ResponseCache) (call : Call) :
    (call.perform cache).capacity = cache.capacity := by
  cases call with
  | get now key =>
      unfold Call.perform ResponseCache.get
      dsimp only
      split
      · rfl
      · split <;> rfl
  | insert now key reply minTtl? =>
      unfold Call.perform ResponseCache.insert
      dsimp only
      split <;> rfl
  | clear => rfl

theorem capacity_run (cache : ResponseCache) (uses : List Use) (calls : List Call) :
    (run cache uses calls).1.capacity = cache.capacity := by
  induction calls generalizing cache uses with
  | nil => rfl
  | cons call calls ih => exact (ih _ _).trans (capacity_perform cache call)

/-- Keys are the same for questions that differ in ASCII case only. -/
theorem key_eq_iff (q q' : Question) :
    q.key = q'.key ↔ q.name.SameAs q'.name ∧ q.type = q'.type := by
  simp [Question.key, Name.SameAs]

/-- After any calls during which no reply is over when one is looked up, the cache is not larger than
its capacity. A reply is found if it was the last to be kept under its key since the cache was
cleared and fewer other keys than there is room for were used since the key was. Lookups in vain and
replies without a lifetime change nothing, and keys do not depend on ASCII case. -/
theorem recency (capacity : Nat) (maxTtl negativeTtl : UInt32) {calls : List Call}
    (h : Lasting (empty capacity maxTtl negativeTtl) calls) :
    let (cache, uses) := run (empty capacity maxTtl negativeTtl) [] calls
    cache.size ≤ capacity ∧
      (∀ now key, cache.Current now → ∀ reply, (cache.get now key).1 = some reply ↔
        lastKept? uses key = some reply ∧ (usedSince uses key).toFinset.card < capacity) ∧
      (∀ now key, cache.Current now → (cache.get now key).1 = none →
        (cache.get now key).2 = cache) ∧
      (∀ now key reply minTtl?, cache.lifetime minTtl? = 0 →
        cache.insert now key reply minTtl? = cache) ∧
      ∀ q q' : Question, q.key = q'.key ↔ q.name.SameAs q'.name ∧ q.type = q'.type := by
  have hranks := ranks_run (ranks_empty capacity maxTtl negativeTtl) h
  have hcapacity := capacity_run (empty capacity maxTtl negativeTtl) [] calls
  cases hrun : run (empty capacity maxTtl negativeTtl) [] calls with
  | mk cache uses =>
      rw [hrun] at hranks hcapacity
      have hroom : cache.capacity = capacity := hcapacity
      refine ⟨hroom ▸ hranks.length_le, ?_, ?_, ?_, key_eq_iff⟩
      · intro now key hcurrent reply
        rw [← hroom]
        exact hranks.get_eq_some_iff hcurrent
      · intro now key hcurrent hnone
        rcases get_of_current hcurrent key with ⟨-, hget⟩ | ⟨entry, -, -, hget⟩
        · rw [hget]
        · simp [hget] at hnone
      · intro now key reply minTtl? hzero
        simp [insert, hzero]

/-- The question for the address of a name of one label. -/
def sampleQuestion (label : Label) : Question :=
  ⟨⟨[label], .plain, by
    have := label.size_le
    simp only [Name.wireSize, Name.literalSize, Label.size, maxNameSize, maxLabelSize] at *
    omega, trivial⟩, .a⟩

/-- Calls of a cache for two replies: the reply for `mail` is found, in another spelling, before a third
reply comes, and what follows is no use of a key. -/
def sampleCalls : List Call :=
  let mail := (sampleQuestion ⟨"mail", by decide, by decide, by decide⟩).key
  let upper := (sampleQuestion ⟨"MAIL", by decide, by decide, by decide⟩).key
  let news := (sampleQuestion ⟨"news", by decide, by decide, by decide⟩).key
  let ftp := (sampleQuestion ⟨"ftp", by decide, by decide, by decide⟩).key
  [.insert 0 mail [1] (some 60), .insert 0 news [2] (some 60), .get 1 upper,
    .insert 2 ftp [3] (some 60), .insert 2 news [4] none, .get 3 news]

/-- The reply for `news` is the one that had to go. -/
theorem recency_sampleCalls :
    let (cache, _) := run (empty 2 300 0) [] sampleCalls
    Lasting (empty 2 300 0) sampleCalls ∧ cache.Current 4 ∧ cache.size ≤ 2 ∧
      (cache.get 4 (sampleQuestion ⟨"Mail", by decide, by decide, by decide⟩).key).1 = some [1] ∧
      (cache.get 4 (sampleQuestion ⟨"news", by decide, by decide, by decide⟩).key).1 ≠ some [2] := by
  have hlasting : Lasting (empty 2 300 0) sampleCalls := by
    refine ⟨?_, ?_, ?_, ?_, ?_, ?_, trivial⟩ <;> rintro now key ⟨⟩ <;> decide +kernel
  have hcurrent : (run (empty 2 300 0) [] sampleCalls).1.Current 4 := by decide +kernel
  rcases recency 2 300 0 hlasting with ⟨hsize, hget, -⟩
  refine ⟨hlasting, hcurrent, hsize, ?_, ?_⟩
  · exact (hget 4 _ hcurrent [1]).2 (by decide +kernel)
  · exact fun hfound => absurd ((hget 4 _ hcurrent [2]).1 hfound).2 (by decide +kernel)

end ResponseCache
end NameServer
