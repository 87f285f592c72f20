import NameServer.Proofs.Resolver.Answers
import NameServer.Proofs.Resolver.Provenance
import NameServer.Proofs.Resolver.Servers
import NameServer.Proofs.Zone.Places

/-!
# Proofs.Resolver.Glue — the additional section

The additional section is told by the records of the other two sections and by the addresses that
are stored. The records refer to names, which are taken in the order of their first mention, and
each of them brings the first addresses of its node.

* `Record.referenced?`, `Resolver.references`, `Resolver.mentions` — these names;
* `Resolver.named_of_respond` — the store has given them to zones;
* `Resolver.lists_of_glueFrom` — collecting addresses goes through the names one by one;
* `Resolver.Glues` and `Resolver.gluing` — what the additional section of every response holds.
-/

namespace NameServer

/-- The name of a server or of an exchange that a record refers to. An alias refers to none. -/
def Record.referenced? (record : Record) : Option Name :=
  match record.rdata with
  | .ns _ server => some server
  | .mx _ _ exchange => some exchange
  | .soa start => some start.mname
  | .a _ _ | .cname _ _ | .txt _ _ => none

namespace Resolver

open Zone (Store View FindsNames CaseBlind)

/-! ## Names that records refer to -/

/-- The names that records refer to, one for each mention. -/
def references (records : List Record) : List Name :=
  records.filterMap Record.referenced?

/-- The names other than the root that records refer to, in the order of their first mention. -/
def mentions (records : List Record) : List Name :=
  (firsts Name.SameAs (references records)).filter fun name => !name.isRoot

variable {σ : Type} [Store σ] {view : View σ} {store : σ} {limit : Nat} {type : RecordType}
variable {zone : ZoneId} {owner name : Name} {names : List Name} {query response : Message}
variable {records found additional list : List Record} {record : Record}

theorem mem_references_of_referenced? (h : record.referenced? = some name) :
    name ∈ record.rdata.references := by
  rcases record with ⟨owner, rdata, ttl⟩
  cases rdata with
  | a ttl address | txt ttl text | cname ttl target => cases h
  | ns ttl server | mx ttl preference server =>
      cases h
      exact List.mem_singleton_self _
  | soa start =>
      cases h
      exact List.mem_cons_self

theorem targets_eq_references (records : List Record) :
    ((records.filter fun record => record.type ≠ .a ∧ record.type ≠ .cname).flatMap
      fun record => record.rdata.targets) = references records := by
  unfold references
  induction records with
  | nil => rfl
  | cons record records ih =>
      rcases record with ⟨owner, rdata, ttl⟩
      cases rdata with
      | a ttl address | cname ttl target =>
          rw [List.filter_cons_of_neg Bool.false_ne_true, ih]
          rfl
      | txt ttl text | ns ttl server | mx ttl preference server | soa start =>
          rw [List.filter_cons_of_pos rfl, List.flatMap_cons, ih]
          rfl

theorem mentioned_eq (records : List Record) :
    mentioned records = firsts Name.SameAs (references records) := by
  unfold mentioned
  rw [targets_eq_references, foldl_push Name.SameAs Eq.trans]
  simp

/-! ## Where the names come from -/

/-- All names that records refer to were given to zones by the store. -/
def Named (store : σ) (records : List Record) : Prop :=
  ∀ record ∈ records, ∀ name ∈ record.rdata.references,
    ∃ zone, Store.nameOf? store zone = .ok (some name)

theorem named_nil (store : σ) : Named store [] :=
  fun _ hrecord => absurd hrecord List.not_mem_nil

/-- What is served of a payload has names from the store. -/
theorem named_of_lists (hnames : view.Names store)
    (h : view.Lists store limit zone owner type records) : Named store records := by
  rcases h with ⟨payloads, hpayloads, rfl⟩
  intro record hrecord
  rcases List.mem_map.1 hrecord with ⟨payload, hpayload, rfl⟩
  rcases exists_of_mem_right (forall₂_of_mapM hpayloads) hpayload with ⟨stored, -, hnamed⟩
  rw [hnames.named_eq] at hnamed
  refine Rdata.gives_mapM (P := fun name => ∃ zone, Store.nameOf? store zone = .ok (some name)) ?_
    stored payload hnamed
  intro target name hname
  exact ⟨target, Zone.nameOf?_of_targetName hname⟩

theorem named_distinct (h : Named store records) : Named store (Record.distinct records) :=
  fun record hrecord => h record (Record.mem_of_mem_distinct hrecord)

theorem named_append (h : Named store records) (hfound : Named store found) :
    Named store (records ++ found) := by
  intro record hrecord
  rcases List.mem_append.1 hrecord with hmem | hmem
  · exact h record hmem
  · exact hfound record hmem

theorem named_of_follows (hnames : view.Names store)
    (h : view.Follows store limit zone owner type records) : Named store records := by
  rcases h with ⟨-, rfl⟩ | ⟨ttl, target, name, found, -, hname, -, -, hfound, rfl⟩
  · exact named_nil store
  · refine List.forall_mem_cons.2 ⟨?_, named_distinct (named_of_lists hnames hfound)⟩
    exact List.forall_mem_singleton.2 ⟨target, hname⟩

theorem named_of_answers (hnames : view.Names store)
    (h : Answers view store limit name type records) : Named store records := by
  by_cases hany : type = .any
  · by_cases hexists : view.Exists store name
    · rcases h.any hany hexists with ⟨a, mx, ns, cname, ha, hmx, hns, hcname, rfl⟩
      have hlists {zone : ZoneId} {type : RecordType} {list : List Record}
          (hlist : view.Lists store limit zone name type list) : Named store list :=
        named_of_lists hnames hlist
      exact named_distinct (named_append (named_append (named_append (hlists ha) (hlists hmx))
        (hlists hns)) (hlists hcname))
    · rw [h.any_missing hany hexists]
      exact named_nil store
  · by_cases hthere : view.Exists store name ∨ view.EndsInStar store name
    · by_cases hfound : view.Holds store name type (view.depth store name) ∨ type = .cname
      · exact named_of_lists hnames (h.stored hany hthere hfound)
      · rw [not_or] at hfound
        exact named_of_follows hnames (h.follows hany hthere hfound.1 hfound.2)
    · rw [not_or] at hthere
      rw [h.missing hany hthere.1 hthere.2]
      exact named_nil store

/-- The names that the first two sections of a response refer to were given to zones. -/
theorem named_of_respond (hnames : view.Names store) (hmarked : view.Marked store)
    (hlimit : 1 ≤ limit) (h : respond store limit query = .ok response) :
    Named store (response.answer ++ response.authority) := by
  apply named_append
  · exact named_of_answers hnames (answers_of_respond hnames hmarked hlimit h)
  · rcases authority_of_respond hmarked hlimit h with hempty | ⟨type, depth, -, hserves⟩
    · rw [hempty]
      exact named_nil store
    · exact named_of_lists hnames hserves

/-! ## Collecting addresses -/

/-- Collecting goes through the names other than the root, and pushes the addresses of each behind
those of the names in front of it. -/
theorem lists_of_glueFrom (view : View σ)
    (hfull : ∀ name ∈ names, name.isFullyResolved = true)
    (h : glueFrom store limit records names = .ok found) :
    ∃ lists, List.Forall₂
        (fun name list => view.Lists store limit name.zoneId name.toPlain .a list)
        (names.filter fun name => !name.isRoot) lists ∧
      found = pushUnique records lists.flatten := by
  induction names generalizing records with
  | nil =>
      cases h
      exact ⟨[], List.Forall₂.nil, rfl⟩
  | cons name names ih =>
      rw [List.forall_mem_cons] at hfull
      have hresolved : name.isResolved = true := (Bool.and_eq_true_iff.1 hfull.1).1
      unfold glueFrom at h
      rw [if_pos hresolved] at h
      rcases exists_of_bind h with ⟨_, ⟨⟩, hnext⟩
      dsimp only at hnext
      rw [hfull.1, Bool.not_true, Bool.false_or] at hnext
      by_cases hroot : name.isRoot = true
      · rw [if_pos hroot] at hnext
        rw [List.filter_cons_of_neg (by simp [hroot])]
        exact ih hfull.2 hnext
      · rw [if_neg hroot] at hnext
        rcases exists_of_bind hnext with ⟨list, hlist, hrest⟩
        rcases ih hfull.2 hrest with ⟨lists, hlists, hfound⟩
        rw [List.filter_cons_of_pos (by simp [hroot])]
        refine ⟨list :: lists, List.Forall₂.cons (lists_of_recordsAt hlist) hlists, ?_⟩
        rw [hfound, pushUnique_append, List.flatten_cons]

/-- The additional section is collected from the other two. -/
theorem additional_of_respond (h : respond store limit query = .ok response) :
    glueFrom store limit [] (mentioned (response.answer ++ response.authority)) =
      .ok response.additional := by
  unfold respond at h
  rcases exists_of_bind h with ⟨resolved, -, h⟩
  rcases exists_of_bind h with ⟨answer, -, h⟩
  rcases exists_of_bind h with ⟨authority, -, h⟩
  rcases exists_of_bind h with ⟨authoritative, -, h⟩
  rcases exists_of_bind h with ⟨additional, hadditional, h⟩
  cases h
  exact hadditional

/-! ## The additional section -/

/-- No two of the records are the same. -/
def Once (records : List Record) : Prop :=
  records.Pairwise fun record other => ¬record.SameAs other

instance (records : List Record) : Decidable (Once records) :=
  inferInstanceAs (Decidable (records.Pairwise fun record other => ¬record.SameAs other))

theorem once_distinct (records : List Record) : Once (Record.distinct records) := by
  rw [Record.distinct_eq_firsts]
  exact pairwise_firsts Record.SameAs records

/-- What the additional section holds beside `records`, which are those of the other two sections.
The names that these refer to are names of nodes, and each name other than the root brings the first
addresses of its node, at that name; no address is left out, there are no others, and none is there
twice. -/
structure Glues (view : View σ) (store : σ) (limit : Nat) (records additional : List Record) :
    Prop where
  named : ∀ name ∈ references records, Store.nameOf? store name.zoneId = .ok (some name)
  found : FindsNames store → ∀ name ∈ references records,
    Store.resolve store name = .ok name ∧ (name.isRoot = false → name ∈ mentions records)
  lists : ∃ lists, List.Forall₂
      (fun name list => view.Lists store limit name.zoneId name.toPlain .a list)
      (mentions records) lists ∧
    additional = Record.distinct lists.flatten
  complete : ∀ name ∈ mentions records, ∃ list,
    view.Lists store limit name.zoneId name.toPlain .a list ∧
      ∀ address ∈ list, ∃ other ∈ additional, other.SameAs address
  only : ∀ record ∈ additional, ∃ name ∈ mentions records, ∃ list,
    view.Lists store limit name.zoneId name.toPlain .a list ∧ record ∈ list
  once : Once additional

/-- A name that is referred to is the name of its node. -/
theorem nameOf?_of_references (hnames : view.Names store) (hnamed : Named store records)
    (hname : name ∈ references records) : Store.nameOf? store name.zoneId = .ok (some name) := by
  rcases List.mem_filterMap.1 hname with ⟨record, hrecord, hrefers⟩
  rcases hnamed record hrecord name (mem_references_of_referenced? hrefers) with ⟨zone, hzone⟩
  rwa [(hnames.full zone name hzone).2]

/-- Where zones have names of their own, every name other than the root is mentioned itself, and not
only in another spelling. -/
theorem mem_mentions (hnames : view.Names store) (hblind : CaseBlind σ) (hfinds : FindsNames store)
    (hnamed : Named store records) (hname : name ∈ references records)
    (hroot : name.isRoot = false) : name ∈ mentions records := by
  rcases exists_first Name.SameAs (fun _ => rfl) Eq.trans hname with ⟨first, hfirst, hsame⟩
  have hmem : first ∈ references records := (firsts_sublist Name.SameAs _).subset hfirst
  have heq := (hfinds.eq_of_sameAs hnames hblind (nameOf?_of_references hnames hnamed hmem)
    (nameOf?_of_references hnames hnamed hname) hsame).2
  exact List.mem_filter.2 ⟨heq ▸ hfirst, by simp [hroot]⟩

theorem glues_of_respond (hnames : view.Names store) (hmarked : view.Marked store)
    (hblind : CaseBlind σ) (hlimit : 1 ≤ limit) (h : respond store limit query = .ok response) :
    Glues view store limit (response.answer ++ response.authority) response.additional := by
  have hnamed := named_of_respond hnames hmarked hlimit h
  have hcollect := additional_of_respond h
  generalize response.answer ++ response.authority = records at hnamed hcollect
  have hnode : ∀ name ∈ references records, Store.nameOf? store name.zoneId = .ok (some name) :=
    fun name => nameOf?_of_references hnames hnamed
  rw [mentioned_eq] at hcollect
  have hfull : ∀ name ∈ firsts Name.SameAs (references records),
      name.isFullyResolved = true := fun name hname =>
    (hnames.full _ name (hnode name ((firsts_sublist Name.SameAs _).subset hname))).1
  rcases lists_of_glueFrom view hfull hcollect with ⟨lists, hlists, hadditional⟩
  rw [pushUnique_nil] at hadditional
  refine ⟨hnode, ?found, ⟨lists, hlists, hadditional⟩, ?complete, ?only, ?once⟩
  case found =>
    intro hfinds name hname
    exact ⟨hfinds _ name (hnode name hname), mem_mentions hnames hblind hfinds hnamed hname⟩
  case complete =>
    intro name hname
    rcases exists_of_mem_right hlists.flip hname with ⟨list, hlist, hholds⟩
    refine ⟨list, hholds, ?_⟩
    intro address haddress
    rw [hadditional, Record.distinct_eq_firsts]
    exact exists_first Record.SameAs (fun _ => ⟨rfl, rfl⟩) Record.SameAs.trans
      (List.mem_flatten.2 ⟨list, hlist, haddress⟩)
  case only =>
    intro record hrecord
    rw [hadditional] at hrecord
    rcases List.mem_flatten.1 (Record.mem_of_mem_distinct hrecord) with ⟨list, hlist, hmem⟩
    rcases exists_of_mem_right hlists hlist with ⟨name, hname, hholds⟩
    exact ⟨name, hname, list, hholds, hmem⟩
  case once =>
    rw [hadditional]
    exact once_distinct _

/-- Where the reads of a store succeed every query is answered, and every response has the addresses
that belong to it. -/
def GluesRightly (view : View σ) (store : σ) : Prop :=
  ∀ limit query, 1 ≤ limit →
    (ReadsSucceed store → Succeeds (respond store limit query)) ∧
      ∀ response, respond store limit query = .ok response →
        Glues view store limit (response.answer ++ response.authority) response.additional

theorem gluesRightly_of_names (hnames : view.Names store) (hmarked : view.Marked store)
    (hblind : CaseBlind σ) : GluesRightly view store := by
  intro limit query hlimit
  exact ⟨fun hreads => respond_succeeds hreads limit query,
    fun _ hresponse => glues_of_respond hnames hmarked hblind hlimit hresponse⟩

/-- All stores send the addresses that belong to a response: trees in every state, rows whenever their
numbers are distinct, and a store without tables never responds. In trees and rows that come about
from empty ones, the names of zones lead back to these zones. -/
theorem gluing :
    (∀ tree : Zone.Tree, GluesRightly Zone.Tree.view tree) ∧
    (∀ rows : Zone.Relations, rows.Distinct → GluesRightly Zone.Relations.view rows) ∧
    (∀ store : Zone.ReadOnly, store.rows.Distinct → GluesRightly Zone.ReadOnly.view store) ∧
    (∀ startedAt tree, Zone.Reached (Zone.Tree.empty startedAt) tree → FindsNames tree) ∧
    (∀ startedAt rows, Zone.Reached (Zone.Relations.empty startedAt) rows →
      rows.Distinct ∧ FindsNames rows ∧ FindsNames (Zone.ReadOnly.mk rows)) ∧
    (∀ (store : Zone.Unprepared) limit query response,
      respond store limit query ≠ .ok response) :=
  ⟨fun tree => gluesRightly_of_names tree.names tree.marked Zone.Tree.caseBlind,
    fun rows h => gluesRightly_of_names rows.names h.marked Zone.Relations.caseBlind,
    fun store h => gluesRightly_of_names store.names (Zone.ReadOnly.marked h)
      Zone.ReadOnly.caseBlind,
    fun _ _ => Zone.Tree.findsNames_of_reached,
    fun _ _ h => ⟨Zone.Relations.distinct_of_reached h, Zone.Relations.findsNames_of_reached h,
      Zone.Relations.findsNames_of_reached h⟩,
    respond_unprepared⟩

/-- The sample tree sends the address of `kin` along with its name servers, and sends it once although
it is stored twice. -/
theorem gluing_sampleTree :
    ∃ response, respond Zone.sampleTree defaultLimit (sampleQuery ["kin"] .ns) = .ok response ∧
      response.additional.length = 1 ∧
      ∀ record ∈ response.additional, ∃ list, record ∈ list ∧
        Zone.Tree.view.Lists Zone.sampleTree defaultLimit 1 Zone.sampleName.toPlain .a list := by
  have hcomputed : (respond Zone.sampleTree defaultLimit (sampleQuery ["kin"] .ns)).map
      (fun response => (response.additional.length,
        mentions (response.answer ++ response.authority))) = .ok (1, [Zone.sampleName]) := by
    decide +kernel
  cases hresponse : respond Zone.sampleTree defaultLimit (sampleQuery ["kin"] .ns) with
  | error fault =>
      rw [hresponse] at hcomputed
      cases hcomputed
  | ok response =>
      rw [hresponse] at hcomputed
      rcases Prod.mk.inj (Except.ok.inj hcomputed) with ⟨hlength, hmentions⟩
      have hglues := (gluing.1 Zone.sampleTree defaultLimit _ (by decide)).2 response hresponse
      refine ⟨response, rfl, hlength, ?_⟩
      intro record hrecord
      rcases hglues.only record hrecord with ⟨name, hname, list, hlist, hmem⟩
      rw [hmentions, List.mem_singleton] at hname
      subst hname
      exact ⟨list, hmem, hlist⟩

end Resolver
end NameServer
