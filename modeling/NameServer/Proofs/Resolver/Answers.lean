import NameServer.Proofs.Firsts
import NameServer.Proofs.Resolver.Denial
import NameServer.Proofs.Zone.Serving

/-!
# Proofs.Resolver.Answers — what the answer section holds

The answer to a question is told by what is stored: by the nodes on the way to its name and by the
payloads at the deepest of them, whatever names the resolver passes around to get at these.

* `Record.distinct` — records without those that are the same as one in front of them;
* `View.Follows` — records are an alias and what is stored at its target, after one hop;
* `Answers` and `answering` — every answer section is one of these, or nothing.
-/

namespace NameServer

/-! ## Records without repetitions -/

namespace Record

variable {r s t : Record}

theorem SameAs.trans (h : r.SameAs s) (h' : s.SameAs t) : r.SameAs t :=
  ⟨Eq.trans h.1 h'.1, Eq.trans h.2 h'.2⟩

/-- Records that are the same have the same type. -/
theorem SameAs.type_eq (h : r.SameAs s) : r.type = s.type := by
  have hkind : r.rdata.kind = s.rdata.kind :=
    calc
      r.rdata.kind = (r.rdata.map Name.folded).kind := (Rdata.kind_map _ _).symm
      _ = (s.rdata.map Name.folded).kind := congrArg Rdata.kind h.2
      _ = s.rdata.kind := Rdata.kind_map _ _
  exact congrArg RecordKind.type hkind

/-- The records without those that are the same as one in front of them. -/
def distinct : List Record → List Record
  | [] => []
  | record :: records => record :: (distinct records).filter fun other => ¬record.SameAs other

theorem distinct_eq_firsts (records : List Record) : distinct records = firsts SameAs records := by
  induction records with
  | nil => rfl
  | cons first records ih => rw [distinct, firsts, ih]

theorem mem_of_mem_distinct {record : Record} {records : List Record}
    (h : record ∈ distinct records) : record ∈ records := by
  rw [distinct_eq_firsts] at h
  exact (firsts_sublist SameAs records).subset h

end Record

/-! ## What is stored -/

namespace Zone.View

variable {σ : Type} [Store σ] (view : View σ) (store : σ)

/-- Whether `records` are the first alias at a zone, at `owner`, and behind it the distinct ones
among the first payloads of a type at the zone it refers to, at the name of that zone. Without an
alias there are none. -/
def Follows (limit : Nat) (zone : ZoneId) (owner : Name) (type : RecordType)
    (records : List Record) : Prop :=
  (view.kept store zone .cname = [] ∧ records = []) ∨
    ∃ ttl target name found,
      (view.kept store zone .cname).head? = some (.cname ttl target) ∧
      Store.nameOf? store target = .ok (some name) ∧
      name.isFullyResolved = true ∧ name.zoneId = target ∧
      view.Lists store limit target name.toPlain type found ∧
      records = Record.of owner (.cname ttl name) :: Record.distinct found

end Zone.View

namespace Resolver

open Zone (Store View)
open Record (distinct)

/-! ## Pushing records behind others -/

theorem pushUnique_eq_foldl (records found : List Record) :
    pushUnique records found = found.foldl (fun records record =>
      if records.any fun other => other.SameAs record then records else records ++ [record])
        records := by
  induction found generalizing records with
  | nil => rfl
  | cons first found ih =>
      rw [pushUnique, List.foldl_cons, ih, ih]
      split <;> rfl

/-- Pushed behind others are the distinct records that are not there already. -/
theorem pushUnique_eq (records found : List Record) :
    pushUnique records found =
      records ++ (distinct found).filter fun record => !records.any fun other => other.SameAs record := by
  rw [pushUnique_eq_foldl, Record.distinct_eq_firsts]
  exact foldl_push Record.SameAs Record.SameAs.trans records found

theorem pushUnique_nil (found : List Record) : pushUnique [] found = distinct found := by
  rw [pushUnique_eq]
  simp

theorem pushUnique_append (records found more : List Record) :
    pushUnique (pushUnique records found) more = pushUnique records (found ++ more) := by
  induction found generalizing records with
  | nil => rfl
  | cons first found ih =>
      rw [List.cons_append, pushUnique, pushUnique]
      split
      · exact ih records
      · exact ih (records ++ [first])

/-- Behind a record of another type stands all that is distinct. -/
theorem pushUnique_singleton {first : Record} {found : List Record}
    (h : ∀ record ∈ found, record.type ≠ first.type) :
    pushUnique [first] found = first :: distinct found := by
  rw [pushUnique_eq, List.singleton_append, List.filter_eq_self.2]
  intro record hrecord
  have hdifferent : ¬first.SameAs record := fun hsame =>
    h record (Record.mem_of_mem_distinct hrecord) hsame.type_eq.symm
  simpa using hdifferent

variable {σ : Type} [Store σ] {view : View σ} {store : σ} {name resolved owner : Name}
variable {limit : Nat} {zone : ZoneId} {type : RecordType} {records found : List Record}

/-! ## Records at a zone -/

theorem lists_nil (h : view.kept store zone type = []) :
    view.Lists store limit zone owner type [] :=
  ⟨[], by rw [h, List.take_nil]; rfl, rfl⟩

/-- Nothing is stored of a type that is never stored. -/
theorem kept_of_unsupported (h : type.kind?.isNone = true) : view.kept store zone type = [] := by
  rw [List.eq_nil_iff_forall_not_mem]
  intro rdata hrdata
  have htype : rdata.kind.type = type := view.type_of_kept hrdata
  rw [← htype, RecordType.kind?_type] at h
  cases h

/-! ## The records of a name -/

/-- A name that exists in full, or at whose deepest node a wildcard stands. -/
def Covered (store : σ) (resolved : Name) : Prop :=
  resolved.isFullyResolved = true ∨
    resolved.resolvedCount ≠ 0 ∧ Store.isWildcard store resolved.zoneId = true

/-- The records of a type at a name that is covered are those at its deepest node. -/
theorem lists_of_recordSet (hcovered : Covered store resolved) (hany : type ≠ .any)
    (h : recordSet store limit resolved owner type = .ok records) :
    view.Lists store limit resolved.zoneId owner type records := by
  unfold recordSet at h
  rw [if_neg hany] at h
  by_cases hkind : type.kind?.isNone = true
  · rw [if_pos hkind] at h
    cases h
    exact lists_nil (kept_of_unsupported hkind)
  · have hthere : ¬(!resolved.isFullyResolved &&
        (resolved.resolvedCount == 0 || !Store.isWildcard store resolved.zoneId)) = true := by
      rcases hcovered with hfull | ⟨hcount, hstar⟩
      · simp [hfull]
      · simp [hcount, hstar]
    rw [if_neg hkind, if_neg hthere] at h
    exact lists_of_recordsAt h

/-- Merged are the first records of each type, one type after the other and without repetitions. -/
theorem exists_of_merged {types : List RecordType}
    (h : merged store limit zone owner records types = .ok found) :
    ∃ lists, List.Forall₂ (fun type list => view.Lists store limit zone owner type list) types
      lists ∧ found = pushUnique records lists.flatten := by
  induction types generalizing records with
  | nil =>
      cases h
      exact ⟨[], List.Forall₂.nil, rfl⟩
  | cons type types ih =>
      rcases exists_of_bind h with ⟨list, hlist, hrest⟩
      rcases ih hrest with ⟨lists, hlists, hfound⟩
      refine ⟨list :: lists, List.Forall₂.cons (lists_of_recordsAt hlist) hlists, ?_⟩
      rw [hfound, pushUnique_append, List.flatten_cons]

/-- The records of any type at a name that exists. -/
theorem lists_of_recordSet_any (hfull : resolved.isFullyResolved = true)
    (h : recordSet store limit resolved owner .any = .ok records) :
    ∃ a mx ns cname, view.Lists store limit resolved.zoneId owner .a a ∧
      view.Lists store limit resolved.zoneId owner .mx mx ∧
      view.Lists store limit resolved.zoneId owner .ns ns ∧
      view.Lists store limit resolved.zoneId owner .cname cname ∧
      records = distinct (a ++ mx ++ ns ++ cname) := by
  unfold recordSet at h
  rw [if_pos rfl, if_pos hfull] at h
  rcases exists_of_merged h with ⟨lists, hlists, hrecords⟩
  rcases hlists with _ | ⟨ha, _ | ⟨hmx, _ | ⟨hns, _ | ⟨hcname, _ | _⟩⟩⟩⟩
  rw [pushUnique_nil] at hrecords
  refine ⟨_, _, _, _, ha, hmx, hns, hcname, ?_⟩
  simpa using hrecords

/-! ## Aliases -/

/-- What is served of an alias that is stored. -/
theorem exists_of_lists_cname (hnames : view.Names store) (hlimit : 1 ≤ limit)
    {rdata : Rdata ZoneId} {rest : List (Rdata ZoneId)}
    (hkept : view.kept store zone .cname = rdata :: rest)
    (h : view.Lists store limit zone owner .cname records) :
    ∃ ttl target name others, rdata = .cname ttl target ∧
      Store.nameOf? store target = .ok (some name) ∧
      records = Record.of owner (.cname ttl name) :: others := by
  rcases h with ⟨payloads, hpayloads, rfl⟩
  have htake : (rdata :: rest).take limit = rdata :: rest.take (limit - 1) := by
    cases limit with
    | zero => cases hlimit
    | succ limit => rfl
  rw [hkept, htake, List.mapM_cons] at hpayloads
  rcases exists_of_bind hpayloads with ⟨payload, hpayload, hrest⟩
  rcases exists_of_bind hrest with ⟨others, -, hothers⟩
  cases hothers
  rw [hnames.named_eq] at hpayload
  have htype : rdata.type = .cname := view.type_of_kept (hkept ▸ List.mem_cons_self)
  cases rdata with
  | cname ttl target =>
      rcases exists_of_bind hpayload with ⟨name, hname, hpayload⟩
      cases hpayload
      exact ⟨ttl, target, name, _, rfl, Zone.nameOf?_of_targetName hname, rfl⟩
  | a | ns | mx | soa | txt => cases htype

/-- Following the alias of a covered name makes one hop. -/
theorem follows_of_followAlias (hnames : view.Names store) (hlimit : 1 ≤ limit)
    (hcovered : Covered store resolved) (hany : type ≠ .any) (hcname : type ≠ .cname)
    (h : followAlias store limit resolved owner type = .ok records) :
    view.Follows store limit resolved.zoneId owner type records := by
  rcases exists_of_bind h with ⟨aliases, haliases, hrest⟩
  have hlists : view.Lists store limit resolved.zoneId owner .cname aliases :=
    lists_of_recordSet hcovered (by decide) haliases
  cases hkept : view.kept store resolved.zoneId .cname with
  | nil =>
      rw [(eq_nil_iff_of_lists hlimit hlists).2 hkept] at hrest
      cases hrest
      exact Or.inl ⟨hkept, rfl⟩
  | cons rdata rest =>
      rcases exists_of_lists_cname hnames hlimit hkept hlists with
        ⟨ttl, target, name, others, rfl, hname, rfl⟩
      rcases hnames.full target name hname with ⟨hfull, hzone⟩
      have hresolved : name.isResolved = true := by
        unfold Name.isFullyResolved at hfull
        exact (Bool.and_eq_true_iff.1 hfull).1
      -- The name of the target comes out of the store with its nodes, so it is not resolved again.
      change (do
        let target ← if name.isResolved then pure name else Store.resolve store name
        let found ← recordSet store limit target target.toPlain type
        return pushUnique [Record.of owner (.cname ttl name)] found) = _ at hrest
      rw [if_pos hresolved] at hrest
      rcases exists_of_bind hrest with ⟨_, hsame, hrest⟩
      cases hsame
      rcases exists_of_bind hrest with ⟨found, hfound, hrecords⟩
      cases hrecords
      have hfoundLists : view.Lists store limit name.zoneId name.toPlain type found :=
        lists_of_recordSet (Or.inl hfull) hany hfound
      rw [hzone] at hfoundLists
      refine Or.inr ⟨ttl, target, name, found, by rw [hkept]; rfl, hname, hfull, hzone,
        hfoundLists, ?_⟩
      apply pushUnique_singleton
      intro record hrecord
      rw [type_of_lists hfoundLists record hrecord]
      exact hcname

/-! ## The answer -/

/-- What the answer section holds for a name and a type. At the deepest node of the name are the
records of an existing name and those that a wildcard gives to the names below it. -/
structure Answers (view : View σ) (store : σ) (limit : Nat) (name : Name) (type : RecordType)
    (records : List Record) : Prop where
  any : type = .any → view.Exists store name →
    ∃ a mx ns cname,
      view.Lists store limit (view.zoneAt store name (view.depth store name)) name .a a ∧
      view.Lists store limit (view.zoneAt store name (view.depth store name)) name .mx mx ∧
      view.Lists store limit (view.zoneAt store name (view.depth store name)) name .ns ns ∧
      view.Lists store limit (view.zoneAt store name (view.depth store name)) name .cname cname ∧
      records = distinct (a ++ mx ++ ns ++ cname)
  any_missing : type = .any → ¬view.Exists store name → records = []
  stored : type ≠ .any → view.Exists store name ∨ view.EndsInStar store name →
    view.Holds store name type (view.depth store name) ∨ type = .cname →
      view.Lists store limit (view.zoneAt store name (view.depth store name)) name type records
  follows : type ≠ .any → view.Exists store name ∨ view.EndsInStar store name →
    ¬view.Holds store name type (view.depth store name) → type ≠ .cname →
      view.Follows store limit (view.zoneAt store name (view.depth store name)) name type records
  missing : type ≠ .any → ¬view.Exists store name → ¬view.EndsInStar store name → records = []

/-- The nodes on the way tell whether a name is covered. -/
theorem covered_of_view (hresolved : ResolvesTo view store name resolved)
    (hmarked : view.Marked store) (h : view.Exists store name ∨ view.EndsInStar store name) :
    Covered store resolved := by
  rcases h with hexists | ⟨node, hlast, hmark⟩
  · exact Or.inl (hresolved.isFullyResolved.2 hexists)
  · right
    constructor
    · rw [hresolved.resolvedCount]
      intro hzero
      rw [List.length_eq_zero_iff.1 hzero] at hlast
      cases hlast
    · have hzone : resolved.zoneId = node.id := by
        unfold Name.zoneId
        rw [hresolved.nodes, hlast]
      rw [hzone, ← hmarked name node (List.mem_of_getLast? hlast), hmark]

/-- An alias is followed where nothing is found; otherwise what is found is the answer. -/
theorem follow_or_found (h : answerSection store limit resolved owner type = .ok records) :
    ∃ found, recordSet store limit resolved owner type = .ok found ∧
      ((found = [] ∧ type ≠ .cname ∧ type ≠ .any ∧
          followAlias store limit resolved owner type = .ok records) ∨
        ((found ≠ [] ∨ type = .cname ∨ type = .any) ∧ records = found)) := by
  rcases exists_of_bind h with ⟨found, hfound, hrest⟩
  refine ⟨found, hfound, ?_⟩
  by_cases hfollow : (found.isEmpty && type != .cname && type != .any) = true
  · rw [if_pos hfollow] at hrest
    simp only [Bool.and_eq_true, bne_iff_ne, List.isEmpty_iff] at hfollow
    exact Or.inl ⟨hfollow.1.1, hfollow.1.2, hfollow.2, hrest⟩
  · rw [if_neg hfollow] at hrest
    cases hrest
    refine Or.inr ⟨?_, rfl⟩
    by_contra hnone
    simp only [not_or, not_not] at hnone
    exact hfollow (by simp [hnone])

theorem answers_of_answerSection (hnames : view.Names store) (hmarked : view.Marked store)
    (hlimit : 1 ≤ limit) (hresolved : ResolvesTo view store name resolved)
    (h : answerSection store limit resolved name type = .ok records) :
    Answers view store limit name type records := by
  have hmissing : ¬view.Exists store name → ¬view.EndsInStar store name → records = [] := by
    intro hpartial hplain
    rw [answerSection_of_missing (Bool.eq_false_iff.2 (mt hresolved.isFullyResolved.1 hpartial))
      (plain_of_not_endsInStar hresolved hmarked hplain)] at h
    exact (Except.ok.inj h).symm
  rcases follow_or_found h with ⟨found, hfound, hcases⟩
  by_cases hany : type = .any
  · subst hany
    have hrecords : records = found := by
      rcases hcases with ⟨-, -, hne, -⟩ | ⟨-, hrecords⟩
      · exact absurd rfl hne
      · exact hrecords
    refine ⟨?_, ?_, fun hne => absurd rfl hne, fun hne => absurd rfl hne, fun hne => absurd rfl hne⟩
    · intro _ hexists
      rw [hrecords, ← hresolved.zoneId]
      exact lists_of_recordSet_any (hresolved.isFullyResolved.2 hexists) hfound
    · intro _ hpartial
      unfold recordSet at hfound
      rw [if_pos rfl, if_neg (mt hresolved.isFullyResolved.1 hpartial)] at hfound
      rw [hrecords]
      exact (Except.ok.inj hfound).symm
  · have hlists (hthere : view.Exists store name ∨ view.EndsInStar store name) :
        view.Lists store limit (view.zoneAt store name (view.depth store name)) name type found :=
      hresolved.zoneId ▸
        lists_of_recordSet (covered_of_view hresolved hmarked hthere) hany hfound
    refine ⟨fun h => absurd h hany, fun h => absurd h hany, ?_, ?_, fun _ => hmissing⟩
    · intro _ hthere hholds
      rcases hcases with ⟨hempty, hcname, -, -⟩ | ⟨-, hrecords⟩
      · -- Nothing was found, so nothing is stored and the type is not that of aliases.
        rcases hholds with hholds | htype
        · exact absurd ((eq_nil_iff_of_lists hlimit (hlists hthere)).1 hempty) hholds
        · exact absurd htype hcname
      · rw [hrecords]
        exact hlists hthere
    · intro _ hthere hnone hcname
      have hempty := (eq_nil_iff_of_lists hlimit (hlists hthere)).2 (not_not.1 hnone)
      rcases hcases with ⟨-, -, -, hfollow⟩ | ⟨hfound | htype | htype, -⟩
      · rw [← hresolved.zoneId]
        exact follows_of_followAlias hnames hlimit (covered_of_view hresolved hmarked hthere) hany
          hcname hfollow
      · exact absurd hempty hfound
      · exact absurd htype hcname
      · exact absurd htype hany

theorem answers_of_respond (hnames : view.Names store) (hmarked : view.Marked store)
    (hlimit : 1 ≤ limit) {query response : Message} (h : respond store limit query = .ok response) :
    Answers view store limit query.question.name query.question.type response.answer := by
  rcases exists_of_respond h with ⟨resolved, hparts⟩
  exact answers_of_answerSection hnames hmarked hlimit (resolvesTo_of_resolve view hparts.resolve)
    hparts.answer

/-- A store answers rightly when it keeps payloads in order, every query is answered where the reads
succeed, and every answer is what is stored. -/
structure AnswersRightly (view : View σ) (store : σ) : Prop where
  inOrder : view.InOrder store
  succeeds : ReadsSucceed store → ∀ limit query, Succeeds (respond store limit query)
  answers : ∀ limit query response, 1 ≤ limit → respond store limit query = .ok response →
    Answers view store limit query.question.name query.question.type response.answer

theorem answersRightly_of_names (hnames : view.Names store) (horder : view.InOrder store)
    (hmarked : view.Marked store) : AnswersRightly view store where
  inOrder := horder
  succeeds hreads limit query := respond_succeeds hreads limit query
  answers _ _ _ hlimit h := answers_of_respond hnames hmarked hlimit h

/-- All stores answer rightly: trees in every state, rows whenever their numbers are distinct, which
they are in every state that comes about from no rows, and a store without tables never. -/
theorem answering :
    (∀ tree : Zone.Tree, AnswersRightly Zone.Tree.view tree) ∧
    (∀ rows : Zone.Relations, rows.Distinct → AnswersRightly Zone.Relations.view rows) ∧
    (∀ store : Zone.ReadOnly, store.rows.Distinct → AnswersRightly Zone.ReadOnly.view store) ∧
    (∀ startedAt rows, Zone.Reached (Zone.Relations.empty startedAt) rows → rows.Distinct) ∧
    (∀ (store : Zone.Unprepared) limit query response,
      respond store limit query ≠ .ok response) :=
  ⟨fun tree => answersRightly_of_names tree.names tree.inOrder tree.marked,
    fun rows h => answersRightly_of_names rows.names rows.inOrder h.marked,
    fun store h => answersRightly_of_names store.names store.inOrder (Zone.ReadOnly.marked h),
    fun _ _ => Zone.Relations.distinct_of_reached, respond_unprepared⟩

/-- The sample tree answers a question for the addresses of `www.kin.` with the alias of that name
and what it leads to. -/
theorem answering_sampleTree :
    ∃ response, respond Zone.sampleTree defaultLimit (sampleQuery ["www", "kin"] .a) = .ok response ∧
      Zone.Tree.view.Follows Zone.sampleTree defaultLimit 2
        (sampleQuery ["www", "kin"] .a).question.name .a response.answer ∧
      response.answer.length = 2 := by
  let query := sampleQuery ["www", "kin"] .a
  have hpath : Zone.Tree.view.path Zone.sampleTree query.question.name =
      [⟨1, false⟩, ⟨2, false⟩] := by decide +kernel
  have hlength : (respond Zone.sampleTree defaultLimit query).map (·.answer.length) = .ok 2 := by
    decide +kernel
  cases hresponse : respond Zone.sampleTree defaultLimit query with
  | error fault =>
      rw [hresponse] at hlength
      cases hlength
  | ok response =>
      rw [hresponse] at hlength
      have hanswers := (answering.1 Zone.sampleTree).answers defaultLimit query response (by decide)
        hresponse
      have hexists : Zone.Tree.view.Exists Zone.sampleTree query.question.name := by
        unfold View.Exists View.depth
        rw [hpath]
        decide
      have hzone : Zone.Tree.view.zoneAt Zone.sampleTree query.question.name
          (Zone.Tree.view.depth Zone.sampleTree query.question.name) = 2 := by decide +kernel
      have hfollows := hanswers.follows (by decide) (Or.inl hexists)
        (by unfold View.Holds; rw [hzone]; decide +kernel) (by decide)
      rw [hzone] at hfollows
      exact ⟨response, rfl, hfollows, Except.ok.inj hlength⟩

end Resolver
end NameServer
