import NameServer.Proofs.Resolver.Glue
import NameServer.Proofs.Zone.Administered

/-!
# Proofs.Resolver.Repetitions — records that are sent twice

Stores keep what they are given, and a payload that is given twice is kept twice. Of the ways that
records take into a response some push out what is there already and some do not.

* `Resolver.repeats_iff_of_lists` — what is listed of a zone repeats when the zone does;
* `View.KeepsTwice` — a payload is kept twice among the first of its type at a zone;
* `Resolver.Repeats` and `Resolver.repeating` — answers to a type and authority sections repeat what
  is kept twice, and nothing else in a response does;
* `Resolver.file_loaded_twice` — a zone file that is loaded twice is enough.
-/

namespace NameServer

/-- A payload stands for what becomes of its references, seen through a function. -/
theorem Rdata.Peer.of_mapM {ν μ κ ε : Type} {f : ν → Except ε μ} {r : Rdata ν} {s : Rdata μ}
    (h : r.mapM f = .ok s) (g : μ → κ) :
    Rdata.Peer (fun x z => ∃ y, f x = .ok y ∧ g y = z) r (s.map g) := by
  cases r with
  | a ttl address =>
      cases h
      exact .a ttl address
  | txt ttl text =>
      cases h
      exact .txt ttl text
  | ns ttl x =>
      rcases exists_of_bind h with ⟨y, hy, ⟨⟩⟩
      exact .ns ttl ⟨y, hy, rfl⟩
  | cname ttl x =>
      rcases exists_of_bind h with ⟨y, hy, ⟨⟩⟩
      exact .cname ttl ⟨y, hy, rfl⟩
  | mx ttl preference x =>
      rcases exists_of_bind h with ⟨y, hy, ⟨⟩⟩
      exact .mx ttl preference ⟨y, hy, rfl⟩
  | soa start =>
      rcases exists_of_bind h with ⟨mname, hmname, hrest⟩
      rcases exists_of_bind hrest with ⟨rname, hrname, ⟨⟩⟩
      exact .soa _ _ _ _ _ ⟨mname, hmname, rfl⟩ ⟨rname, hrname, rfl⟩

/-- Whether one of the first payloads of a type at a zone is kept twice. -/
def Zone.View.KeepsTwice {σ : Type} [Zone.Store σ] (view : Zone.View σ) (store : σ) (limit : Nat)
    (zone : ZoneId) (type : RecordType) : Prop :=
  ¬((view.kept store zone type).take limit).Nodup

namespace Resolver

open Zone (Store View FindsNames CaseBlind Administered)

variable {σ : Type} [Store σ] {view : View σ} {store : σ} {limit : Nat} {type : RecordType}
variable {zone : ZoneId} {owner name : Name} {query response : Message}
variable {records found : List Record}

/-! ## Payloads and their names -/

/-- A stored payload with the folded names that the store gives to the zones in it. -/
def Folds (view : View σ) (store : σ) (rdata : Rdata ZoneId)
    (folded : Rdata (List (List UInt8))) : Prop :=
  ∃ found, view.named store rdata = .ok found ∧ found.map Name.folded = folded

/-- Where zones have names of their own, payloads do not become the same by their names. -/
theorem biUnique_folds (hnames : view.Names store) (hblind : CaseBlind σ)
    (hfinds : FindsNames store) : Relator.BiUnique (Folds view store) := by
  constructor
  · rintro rdata _ rdata' ⟨found, hfound, rfl⟩ ⟨found', hfound', hsame⟩
    rw [hnames.named_eq] at hfound hfound'
    -- References with names that are the same refer to one zone, reference by reference.
    have hpeers := (Rdata.Peer.of_mapM hfound Name.folded).join
      (hsame ▸ Rdata.Peer.of_mapM hfound' Name.folded)
    refine hpeers.eq ?_
    rintro target target' ⟨_, ⟨target, htarget, rfl⟩, other, hother, hfolded⟩
    exact (hfinds.eq_of_sameAs hnames hblind (Zone.nameOf?_of_targetName htarget)
      (Zone.nameOf?_of_targetName hother) hfolded.symm).1
  · rintro rdata _ _ ⟨found, hfound, rfl⟩ ⟨found', hfound', rfl⟩
    rw [hfound] at hfound'
    rw [Except.ok.inj hfound']

/-- What is listed of a zone repeats exactly when the zone keeps a payload twice. -/
theorem repeats_iff_of_lists (hnames : view.Names store) (hblind : CaseBlind σ)
    (hfinds : FindsNames store) (h : view.Lists store limit zone owner type records) :
    ¬Once records ↔ view.KeepsTwice store limit zone type := by
  rcases h with ⟨payloads, hpayloads, rfl⟩
  have hfolds : List.Forall₂ (Folds view store) ((view.kept store zone type).take limit)
      (payloads.map fun payload => payload.map Name.folded) := by
    rw [List.forall₂_map_right_iff]
    exact (forall₂_of_mapM hpayloads).imp fun _ found hfound => ⟨found, hfound, rfl⟩
  have hnodup : ((view.kept store zone type).take limit).Nodup ↔
      (payloads.map fun payload => payload.map Name.folded).Nodup :=
    List.rel_nodup (biUnique_folds hnames hblind hfinds) hfolds
  rw [View.KeepsTwice, hnodup, Once, List.Nodup, List.pairwise_map, List.pairwise_map, not_iff_not]
  -- All records are owned by the same name, so only their payloads tell them apart.
  exact List.Pairwise.iff fun payload other => not_congr ⟨And.right, fun hsame => ⟨rfl, hsame⟩⟩

/-! ## Responses -/

/-- An alias is not the same as anything that it leads to. -/
theorem once_of_follows (hcname : type ≠ .cname)
    (h : view.Follows store limit zone owner type records) : Once records := by
  rcases h with ⟨-, rfl⟩ | ⟨ttl, target, name, found, -, -, -, -, hfound, rfl⟩
  · exact List.Pairwise.nil
  · refine List.Pairwise.cons ?_ (once_distinct found)
    intro record hrecord hsame
    have htype := type_of_lists hfound record (Record.mem_of_mem_distinct hrecord)
    exact hcname (htype.symm.trans hsame.type_eq.symm)

/-- Whether the records of one type are looked up at a node that keeps one of the first of them
twice. -/
def AnswersTwice (view : View σ) (store : σ) (limit : Nat) (name : Name) (type : RecordType) :
    Prop :=
  type ≠ .any ∧ (view.Exists store name ∨ view.EndsInStar store name) ∧
    view.KeepsTwice store limit (view.zoneAt store name (view.depth store name)) type

/-- Whether records come from a level that keeps one of the first of them twice. -/
def ServesTwice (view : View σ) (store : σ) (limit : Nat) (name : Name) (records : List Record) :
    Prop :=
  ∃ type depth, depth ≤ view.depth store name ∧ view.Serves store name limit type depth records ∧
    view.KeepsTwice store limit (view.zoneAt store name depth) type

/-- What repeats in a response. The additional section never does; the answer section does exactly
when it gives the records of one type at a node that keeps one of the first of them twice, and the
authority section when the level that it comes from does. -/
structure Repeats (view : View σ) (store : σ) (limit : Nat) (query response : Message) : Prop where
  additional : Once response.additional
  answer : ¬Once response.answer ↔
    AnswersTwice view store limit query.question.name query.question.type
  authority : ¬Once response.authority ↔
    ServesTwice view store limit query.question.name response.authority
  clean : (Once response.answer ∧ Once response.authority ∧ Once response.additional) ↔
    ¬AnswersTwice view store limit query.question.name query.question.type ∧
      ¬ServesTwice view store limit query.question.name response.authority
  clean_of_nodup : (∀ zone type, (view.kept store zone type).Nodup) →
    Once response.answer ∧ Once response.authority ∧ Once response.additional

theorem answer_repeats (hnames : view.Names store) (hblind : CaseBlind σ)
    (hfinds : FindsNames store) (h : Answers view store limit name type records) :
    ¬Once records ↔ AnswersTwice view store limit name type := by
  constructor
  · intro hrepeats
    have hany : type ≠ .any := by
      intro hany
      refine hrepeats ?_
      by_cases hexists : view.Exists store name
      · rcases h.any hany hexists with ⟨a, mx, ns, cname, -, -, -, -, rfl⟩
        exact once_distinct _
      · rw [h.any_missing hany hexists]
        exact List.Pairwise.nil
    have hthere : view.Exists store name ∨ view.EndsInStar store name := by
      by_contra hmissing
      rw [not_or] at hmissing
      rw [h.missing hany hmissing.1 hmissing.2] at hrepeats
      exact hrepeats List.Pairwise.nil
    refine ⟨hany, hthere, ?_⟩
    have hfound : view.Holds store name type (view.depth store name) ∨ type = .cname := by
      by_contra hnone
      rw [not_or] at hnone
      exact hrepeats (once_of_follows hnone.2 (h.follows hany hthere hnone.1 hnone.2))
    exact (repeats_iff_of_lists hnames hblind hfinds (h.stored hany hthere hfound)).1 hrepeats
  · rintro ⟨hany, hthere, hkept⟩
    -- A zone that keeps a payload twice has one.
    have hholds : view.Holds store name type (view.depth store name) := by
      intro hnone
      rw [View.KeepsTwice, hnone, List.take_nil] at hkept
      exact hkept List.nodup_nil
    exact (repeats_iff_of_lists hnames hblind hfinds
      (h.stored hany hthere (Or.inl hholds))).2 hkept

theorem authority_repeats (hnames : view.Names store) (hmarked : view.Marked store)
    (hblind : CaseBlind σ) (hfinds : FindsNames store) (hlimit : 1 ≤ limit)
    (h : respond store limit query = .ok response) :
    ¬Once response.authority ↔
      ServesTwice view store limit query.question.name response.authority := by
  constructor
  · intro hrepeats
    rcases authority_of_respond hmarked hlimit h with hempty | ⟨type, depth, hle, hserves⟩
    · rw [hempty] at hrepeats
      exact absurd List.Pairwise.nil hrepeats
    · exact ⟨type, depth, hle, hserves,
        (repeats_iff_of_lists hnames hblind hfinds hserves).1 hrepeats⟩
  · rintro ⟨type, depth, -, hserves, hkept⟩
    exact (repeats_iff_of_lists hnames hblind hfinds hserves).2 hkept

theorem repeats_of_respond (hnames : view.Names store) (hmarked : view.Marked store)
    (hblind : CaseBlind σ) (hfinds : FindsNames store) (hlimit : 1 ≤ limit)
    (h : respond store limit query = .ok response) : Repeats view store limit query response := by
  have hanswer := answer_repeats hnames hblind hfinds (answers_of_respond hnames hmarked hlimit h)
  have hauthority := authority_repeats hnames hmarked hblind hfinds hlimit h
  have hadditional := (glues_of_respond hnames hmarked hblind hlimit h).once
  have hclean : (Once response.answer ∧ Once response.authority ∧ Once response.additional) ↔
      ¬AnswersTwice view store limit query.question.name query.question.type ∧
        ¬ServesTwice view store limit query.question.name response.authority := by
    rw [← hanswer, ← hauthority, not_not, not_not, and_iff_left hadditional]
  refine ⟨hadditional, hanswer, hauthority, hclean, ?_⟩
  intro hnodup
  refine hclean.2 ⟨?_, ?_⟩
  · rintro ⟨-, -, hkept⟩
    exact hkept ((hnodup _ _).sublist (List.take_sublist _ _))
  · rintro ⟨type, depth, -, -, hkept⟩
    exact hkept ((hnodup _ _).sublist (List.take_sublist _ _))

/-- Every response to a query repeats what is kept twice in this way, and nothing else. -/
def RepeatsRightly (view : View σ) (store : σ) (limit : Nat) (query : Message) : Prop :=
  ∀ response, respond store limit query = .ok response → Repeats view store limit query response

/-- Stores that are empty at first and then administered and loaded repeat only what they keep
twice; a store without tables responds to no query. -/
theorem repeating (limit : Nat) (query : Message) (hlimit : 1 ≤ limit) :
    (∀ startedAt tree, Administered (Zone.Tree.empty startedAt) tree →
      RepeatsRightly Zone.Tree.view tree limit query) ∧
    (∀ startedAt rows, Administered (Zone.Relations.empty startedAt) rows →
      RepeatsRightly Zone.Relations.view rows limit query ∧
        RepeatsRightly Zone.ReadOnly.view (Zone.ReadOnly.mk rows) limit query) ∧
    (∀ (store : Zone.Unprepared) response, respond store limit query ≠ .ok response) := by
  refine ⟨?_, ?_, fun store => respond_unprepared store limit query⟩
  · intro startedAt tree h response hresponse
    exact repeats_of_respond tree.names tree.marked Zone.Tree.caseBlind
      (Zone.Tree.findsNames_of_reached h.reached) hlimit hresponse
  · intro startedAt rows h
    have hdistinct := Zone.Relations.distinct_of_reached h.reached
    have hfinds := Zone.Relations.findsNames_of_reached h.reached
    constructor
    · intro response hresponse
      exact repeats_of_respond rows.names hdistinct.marked Zone.Relations.caseBlind hfinds hlimit
        hresponse
    · intro response hresponse
      exact repeats_of_respond (Zone.ReadOnly.names _) (Zone.ReadOnly.marked hdistinct)
        Zone.ReadOnly.caseBlind hfinds hlimit hresponse

/-! ## A zone file that is loaded twice -/

/-- A zone with an address and a name server. -/
def kinFile : List UInt8 :=
  Zone.Load.sampleFile ["kin 60 A 10.0.0.1", "kin 60 NS ns.kin"]

/-- What a tree holds after the file was loaded, and loaded again. -/
def kinTwice : Zone.Tree :=
  ((Zone.Load.file kinFile).perform
    ((Zone.Load.file kinFile).perform (Zone.Tree.empty ⟨0, 0⟩)).2).2

theorem administered_kinTwice : Administered (Zone.Tree.empty ⟨0, 0⟩) kinTwice :=
  .load kinFile (.load kinFile .start)

/-- The response for the addresses of `kin`, of which only the sections are looked at. -/
theorem respond_kinTwice :
    ∃ response, respond kinTwice defaultLimit (sampleQuery ["kin"] .a) = .ok response ∧
      ¬Once response.answer ∧ ¬Once response.authority := by
  have hcomputed : (respond kinTwice defaultLimit (sampleQuery ["kin"] .a)).map (fun response =>
      (decide (Once response.answer), decide (Once response.authority))) = .ok (false, false) := by
    decide +kernel
  cases hresponse : respond kinTwice defaultLimit (sampleQuery ["kin"] .a) with
  | error fault =>
      rw [hresponse] at hcomputed
      cases hcomputed
  | ok response =>
      rw [hresponse] at hcomputed
      rcases Prod.mk.inj (Except.ok.inj hcomputed) with ⟨hanswer, hauthority⟩
      exact ⟨response, rfl, of_decide_eq_false hanswer, of_decide_eq_false hauthority⟩

/-- Its address is kept twice, which is why it repeats in the answer. -/
theorem repeating_kinTwice :
    ∃ response, respond kinTwice defaultLimit (sampleQuery ["kin"] .a) = .ok response ∧
      Once response.additional ∧
      Zone.Tree.view.KeepsTwice kinTwice defaultLimit 1 .a := by
  rcases respond_kinTwice with ⟨response, hresponse, hanswer, -⟩
  have hrepeats := (repeating defaultLimit _ (by decide)).1 ⟨0, 0⟩ kinTwice administered_kinTwice
    response hresponse
  have hzone : Zone.Tree.view.zoneAt kinTwice (sampleQuery ["kin"] .a).question.name
      (Zone.Tree.view.depth kinTwice (sampleQuery ["kin"] .a).question.name) = 1 := by
    decide +kernel
  rcases hrepeats.answer.1 hanswer with ⟨-, -, hkept⟩
  rw [hzone] at hkept
  exact ⟨response, hresponse, hrepeats.additional, hkept⟩

/-- So it is not true that sections never repeat a record, whatever was loaded. -/
theorem file_loaded_twice :
    ¬∀ startedAt tree, Administered (Zone.Tree.empty startedAt) tree →
      ∀ query response, respond tree defaultLimit query = .ok response →
        Once response.answer ∧ Once response.authority ∧ Once response.additional := by
  intro honce
  rcases respond_kinTwice with ⟨response, hresponse, hanswer, -⟩
  exact hanswer (honce ⟨0, 0⟩ kinTwice administered_kinTwice _ response hresponse).1

end Resolver
end NameServer
