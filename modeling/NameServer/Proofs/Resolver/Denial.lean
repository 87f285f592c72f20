import NameServer.Proofs.Resolver.Levels
import NameServer.Proofs.Resolver.Totality
import NameServer.Zone.Unprepared

/-!
# Proofs.Resolver.Denial — responses without an answer

The resolver decides on the answer, on the authority section, on its own authority and on the
response code one by one, with reads of its own for each. This file brings the four together for
responses that have no answer.

* `Resolver.exists_of_respond` — the parts that a response is made of;
* `Resolver.authoritySection_noAnswer` — without an answer the authority section holds the name
  servers of a cut at the deepest node or else the closest start of authority;
* `Resolver.Denies` and `Resolver.denial` — what a response says with authority;
* `Resolver.Refers` and `Resolver.referral` — what it says without;
* `Resolver.GivesClosestServers` and `Resolver.servers_withheld` — name servers that stand above the
  deepest node are not looked for, and neither are those of a wildcard or of the root.
-/

namespace NameServer

namespace Resolver

open Zone (Store View)

variable {σ : Type} [Store σ] {view : View σ} {store : σ} {name resolved owner : Name}
variable {limit : Nat} {type : RecordType} {records : List Record} {query response : Message}

/-! ## The parts of a response -/

/-- The parts of a response that are about its name. -/
structure Parts (store : σ) (limit : Nat) (query response : Message) (resolved : Name) : Prop where
  resolve : Store.resolve store query.question.name = .ok resolved
  answer : answerSection store limit resolved query.question.name query.question.type =
    .ok response.answer
  authority : authoritySection store limit resolved response.answer.isEmpty =
    .ok response.authority
  authoritative : isAuthoritative store resolved = .ok response.header.authoritative
  rcode : response.header.rcode =
    if resolved.isFullyResolved || resolved.isStar || !response.header.authoritative then .noError
    else .nameError

theorem exists_of_respond (h : respond store limit query = .ok response) :
    ∃ resolved, Parts store limit query response resolved := by
  unfold respond at h
  rcases exists_of_bind h with ⟨resolved, hresolve, h⟩
  rcases exists_of_bind h with ⟨answer, hanswer, h⟩
  rcases exists_of_bind h with ⟨authority, hauthority, h⟩
  rcases exists_of_bind h with ⟨authoritative, hauthoritative, h⟩
  rcases exists_of_bind h with ⟨additional, -, h⟩
  cases h
  exact ⟨resolved, hresolve, hanswer, hauthority, hauthoritative, rfl⟩

/-! ## Names that do not exist -/

/-- No record belongs to a name that does not exist and is covered by no wildcard. -/
theorem recordSet_of_missing (hpartial : resolved.isFullyResolved = false)
    (hplain : resolved.resolvedCount = 0 ∨ Store.isWildcard store resolved.zoneId = false) :
    recordSet store limit resolved owner type = .ok [] := by
  have hnothing : (!resolved.isFullyResolved &&
      (resolved.resolvedCount == 0 || !Store.isWildcard store resolved.zoneId)) = true := by
    rcases hplain with hzero | hmark
    · simp [hpartial, hzero]
    · simp [hpartial, hmark]
  unfold recordSet
  by_cases hany : type = .any
  · rw [if_pos hany, hpartial]
    rfl
  · rw [if_neg hany]
    by_cases hkind : type.kind?.isNone = true
    · exact if_pos hkind
    · rw [if_neg hkind]
      exact if_pos hnothing

/-- So its answer section is empty, with or without an alias. -/
theorem answerSection_of_missing (hpartial : resolved.isFullyResolved = false)
    (hplain : resolved.resolvedCount = 0 ∨ Store.isWildcard store resolved.zoneId = false) :
    answerSection store limit resolved owner type = .ok [] := by
  have hset : ∀ type, recordSet store limit resolved owner type = .ok [] := fun type =>
    recordSet_of_missing hpartial hplain
  unfold answerSection followAlias
  rw [hset, hset]
  exact ite_self _

/-- A name whose deepest node is not marked is covered by no wildcard. -/
theorem plain_of_not_endsInStar (hresolved : ResolvesTo view store name resolved)
    (hmarked : view.Marked store) (h : ¬view.EndsInStar store name) :
    resolved.resolvedCount = 0 ∨ Store.isWildcard store resolved.zoneId = false := by
  cases hlast : (view.path store name).getLast? with
  | none =>
      left
      rw [hresolved.resolvedCount, View.depth, List.getLast?_eq_none_iff.1 hlast]
      rfl
  | some node =>
      right
      have hmark : node.wildcard = false := by
        apply Bool.eq_false_iff.2
        intro htrue
        exact h ⟨node, hlast, htrue⟩
      have hzone : resolved.zoneId = node.id := by
        unfold Name.zoneId
        rw [hresolved.nodes, hlast]
      rw [hzone, ← hmarked name node (List.mem_of_getLast? hlast), hmark]

/-! ## Authority without an answer -/

/-- Without an answer, name servers are given only from the deepest node, when it is no wildcard and
has no start of authority; otherwise the closest start of authority is given. -/
theorem authoritySection_noAnswer (hresolved : ResolvesTo view store name resolved)
    (h : authoritySection store limit resolved true = .ok records) (hlimit : 1 ≤ limit) :
    (¬view.EndsInStar store name ∧ 0 < view.depth store name ∧
        view.Holds store name .ns (view.depth store name) ∧
        ¬view.Holds store name .soa (view.depth store name) ∧
        view.Serves store name limit .ns (view.depth store name) records) ∨
      ((view.EndsInStar store name ∨ view.depth store name = 0 ∨
          ¬view.Holds store name .ns (view.depth store name) ∨
          view.Holds store name .soa (view.depth store name)) ∧
        firstOf store limit [.soa] (levels resolved) = .ok records) := by
  unfold authoritySection at h
  rw [Bool.and_true] at h
  by_cases hstar : resolved.isStar = true
  · rw [if_pos hstar] at h
    exact Or.inr ⟨Or.inl (hresolved.isStar.1 hstar), h⟩
  · have hplain : ¬view.EndsInStar store name := mt hresolved.isStar.2 hstar
    rw [if_neg hstar, if_pos rfl, hresolved.resolvedCount] at h
    by_cases hzero : view.depth store name = 0
    · rw [if_pos hzero] at h
      exact Or.inr ⟨Or.inr (Or.inl hzero), h⟩
    · rw [if_neg hzero, hresolved.resolvedPart_toPlain, hresolved.zoneId] at h
      rcases exists_of_bind h with ⟨cut, hcut, hrest⟩
      have hserves : view.Serves store name limit .ns (view.depth store name) cut :=
        serves_of_recordsAt hcut
      have hempty := eq_nil_iff_of_serves hlimit hserves
      cases cut with
      | nil => exact Or.inr ⟨Or.inr (Or.inr (Or.inl (hempty.1 rfl))), hrest⟩
      | cons record cut =>
          have hservers := not_not.1 (mt hempty.2 (List.cons_ne_nil record cut))
          rcases exists_of_bind hrest with ⟨soa, hsoa, hlast⟩
          have hholds := holds_of_hasRecords hsoa
          cases soa with
          | true => exact Or.inr ⟨Or.inr (Or.inr (Or.inr (hholds.1 rfl))), hlast⟩
          | false =>
              cases hlast
              have hnone := mt hholds.2 Bool.false_ne_true
              exact Or.inl ⟨hplain, Nat.pos_of_ne_zero hzero, hservers, hnone, hserves⟩

/-! ## A sample store -/

/-- A zone `mp` with name servers below a root that has name servers; below `mp` a cut `sub` with a
node `host`, and a wildcard `foo` that has name servers, too. -/
def sampleRows : Zone.Relations where
  zones := [
    ⟨1, ⟨"mp", by decide, by decide, by decide⟩, rootZone, false⟩,
    ⟨2, ⟨"sub", by decide, by decide, by decide⟩, 1, false⟩,
    ⟨3, ⟨"host", by decide, by decide, by decide⟩, 2, false⟩,
    ⟨4, ⟨"foo", by decide, by decide, by decide⟩, 1, true⟩]
  records := [
    ⟨1, rootZone, .ns 60 1⟩, ⟨1, 1, .soa ⟨1, 1, 1, 2, 3, 4, 60⟩⟩, ⟨2, 1, .ns 60 1⟩,
    ⟨3, 2, .ns 60 1⟩, ⟨4, 4, .ns 60 1⟩]
  lastZone := 4
  lastRecord := fun kind => if kind = .soa then 1 else if kind = .ns then 4 else 0
  startedAt := ⟨0, 0⟩

theorem distinct_sampleRows : sampleRows.Distinct where
  nodup := by decide
  id_le := by decide

/-- A query for a name of these labels. -/
def sampleQuery (labels : List String) (type : RecordType) : Message :=
  .query 1 false ⟨((labels.mapM Label.ofText).bind Name.ofLabels).toOption.getD .root, type⟩

/-- The sample store responds to a query as a check demands. -/
def Checks (check : Message → Bool) (query : Message) : Bool :=
  match respond sampleRows defaultLimit query with
  | .ok response => check response
  | .error _ => false

theorem exists_of_checks {check : Message → Bool} (h : Checks check query = true) :
    ∃ response, respond sampleRows defaultLimit query = .ok response ∧ check response = true := by
  unfold Checks at h
  cases hresponse : respond sampleRows defaultLimit query with
  | error fault =>
      rw [hresponse] at h
      cases h
  | ok response =>
      rw [hresponse] at h
      exact ⟨response, rfl, h⟩

/-! ## Responses with authority -/

/-- What a response to a query says with authority. It denies a name exactly when the server has
authority for it, some label has no node and the deepest node is no wildcard. Without an answer it
gives the first records of the closest start of authority, below which there are no name servers. -/
structure Denies (view : View σ) (store : σ) (limit : Nat) (query response : Message) : Prop where
  nameError : response.header.rcode = .nameError ↔
    response.header.authoritative = true ∧ ¬view.Exists store query.question.name ∧
      ¬view.EndsInStar store query.question.name
  noError : response.header.rcode ≠ .nameError → response.header.rcode = .noError
  answer : response.header.rcode = .nameError → response.answer = []
  authority : response.header.authoritative = true → response.answer = [] →
    response.authority ≠ [] ∧
    ∃ depth, view.Closest store query.question.name .soa depth ∧
      view.Serves store query.question.name limit .soa depth response.authority ∧
      ∀ deeper, depth < deeper → deeper ≤ view.depth store query.question.name →
        ¬view.Holds store query.question.name .ns deeper

/-- The response code, by what is known of the name. -/
theorem rcode_eq_nameError (hresolved : ResolvesTo view store query.question.name resolved)
    (hparts : Parts store limit query response resolved) :
    response.header.rcode = .nameError ↔
      response.header.authoritative = true ∧ ¬view.Exists store query.question.name ∧
        ¬view.EndsInStar store query.question.name := by
  rw [hparts.rcode, ← hresolved.isFullyResolved, ← hresolved.isStar]
  cases resolved.isFullyResolved <;> cases resolved.isStar <;>
    cases response.header.authoritative <;> simp

/-- With authority and without an answer the two climbs meet at one level. -/
theorem closest_of_authoritative (hlimit : 1 ≤ limit)
    (hresolved : ResolvesTo view store name resolved)
    (hauthoritative : isAuthoritative store resolved = .ok true)
    (hauthority : authoritySection store limit resolved true = .ok records) :
    records ≠ [] ∧
    ∃ depth, view.Closest store name .soa depth ∧
      view.Serves store name limit .soa depth records ∧
      ∀ deeper, depth < deeper → deeper ≤ view.depth store name →
        ¬view.Holds store name .ns deeper := by
  rcases (isAuthoritative_levels hresolved hauthoritative).1 rfl with ⟨top, htop, hsoa, hbelow⟩
  rcases authoritySection_noAnswer hresolved hauthority hlimit with
    ⟨-, -, hservers, hnone, -⟩ | ⟨-, hfirst⟩
  · -- A cut at the deepest node would stand below the start of authority, or beside it.
    rcases Nat.lt_or_eq_of_le htop with hlt | heq
    · exact absurd hservers (hbelow _ hlt (Nat.le_refl _))
    · exact absurd (heq ▸ hsoa) hnone
  · rcases firstOf_levels hlimit hresolved hfirst with ⟨depth, hclosest, hserves⟩ | ⟨-, hnowhere⟩
    · refine ⟨?_, depth, hclosest, hserves, ?_⟩
      · exact mt (eq_nil_iff_of_serves hlimit hserves).1 (not_not.2 hclosest.holds)
      · intro deeper hlt hdeepest
        have hle : top ≤ depth := by
          by_contra hgt
          exact hclosest.none_below top (Nat.lt_of_not_le hgt) htop hsoa
        exact hbelow deeper (Nat.lt_of_le_of_lt hle hlt) hdeepest
    · exact absurd hsoa (hnowhere top htop)

theorem denies_of_respond (hmarked : view.Marked store) (hlimit : 1 ≤ limit)
    (h : respond store limit query = .ok response) : Denies view store limit query response := by
  rcases exists_of_respond h with ⟨resolved, hparts⟩
  have hresolved := resolvesTo_of_resolve view hparts.resolve
  have hrcode := rcode_eq_nameError hresolved hparts
  refine ⟨hrcode, ?noError, ?answer, ?authority⟩
  case noError =>
    intro hne
    rw [hparts.rcode] at hne ⊢
    by_cases hcase : (resolved.isFullyResolved || resolved.isStar ||
        !response.header.authoritative) = true
    · exact if_pos hcase
    · exact absurd (if_neg hcase) hne
  case answer =>
    intro hdenied
    rcases hrcode.1 hdenied with ⟨-, hpartial, hplain⟩
    have hanswer := hparts.answer
    rw [answerSection_of_missing (Bool.eq_false_iff.2 (mt hresolved.isFullyResolved.1 hpartial))
      (plain_of_not_endsInStar hresolved hmarked hplain)] at hanswer
    exact (Except.ok.inj hanswer).symm
  case authority =>
    intro hauthoritative hempty
    have hsection := hparts.authority
    have hclimb := hparts.authoritative
    rw [hempty] at hsection
    rw [hauthoritative] at hclimb
    exact closest_of_authoritative hlimit hresolved hclimb hsection

/-- Where the reads of a store succeed every query is answered, and every response denies rightly. -/
def DeniesRightly (view : View σ) (store : σ) : Prop :=
  ∀ limit query, 1 ≤ limit →
    (ReadsSucceed store → Succeeds (respond store limit query)) ∧
      ∀ response, respond store limit query = .ok response →
        Denies view store limit query response

theorem deniesRightly_of_marked (hmarked : view.Marked store) : DeniesRightly view store := by
  intro limit query hlimit
  exact ⟨fun hreads => respond_succeeds hreads limit query,
    fun _ hresponse => denies_of_respond hmarked hlimit hresponse⟩

/-- A store without tables responds to no query, since it cannot tell of any authority. -/
theorem respond_unprepared (store : Zone.Unprepared) (limit : Nat) (query response : Message) :
    respond store limit query ≠ .ok response := by
  intro h
  rcases exists_of_respond h with ⟨resolved, hparts⟩
  have hclimb := hparts.authoritative
  have hfails : ∀ levels : List (Name × ZoneId), levels ≠ [] →
      isAuthority store levels = .error Zone.Unprepared.failure := by
    intro levels hne
    cases levels with
    | nil => exact absurd rfl hne
    | cons level levels => rfl
  unfold isAuthoritative at hclimb
  rw [hfails _ (by simp [levels])] at hclimb
  cases hclimb

/-- All stores deny rightly: trees in every state, rows whenever their numbers are distinct, which
they are in every state that comes about from no rows, and a store without tables never. -/
theorem denial :
    (∀ tree : Zone.Tree, DeniesRightly Zone.Tree.view tree) ∧
    (∀ rows : Zone.Relations, rows.Distinct → DeniesRightly Zone.Relations.view rows) ∧
    (∀ store : Zone.ReadOnly, store.rows.Distinct → DeniesRightly Zone.ReadOnly.view store) ∧
    (∀ startedAt rows, Zone.Reached (Zone.Relations.empty startedAt) rows → rows.Distinct) ∧
    (∀ (store : Zone.Unprepared) limit query response,
      respond store limit query ≠ .ok response) :=
  ⟨fun tree => deniesRightly_of_marked tree.marked,
    fun _ hdistinct => deniesRightly_of_marked hdistinct.marked,
    fun _ hdistinct => deniesRightly_of_marked (Zone.ReadOnly.marked hdistinct),
    fun _ _ hreached => Zone.Relations.distinct_of_reached hreached,
    respond_unprepared⟩

/-- A name below `mp` that does not exist is denied. -/
theorem denial_sampleRows :
    ∃ response, respond sampleRows defaultLimit (sampleQuery ["no", "mp"] .a) = .ok response ∧
      response.header.rcode = .nameError ∧ response.answer = [] ∧ response.authority ≠ [] := by
  have hchecks : Checks (fun response => response.header.rcode == .nameError)
      (sampleQuery ["no", "mp"] .a) = true := by decide +kernel
  rcases exists_of_checks hchecks with ⟨response, hresponse, hcheck⟩
  have hdenies := (denial.2.1 sampleRows distinct_sampleRows defaultLimit _ (by decide)).2 response
    hresponse
  have hrcode : response.header.rcode = .nameError := by simpa using hcheck
  have hanswer := hdenies.answer hrcode
  exact ⟨response, hresponse, hrcode, hanswer,
    (hdenies.authority (hdenies.nameError.1 hrcode).1 hanswer).1⟩

/-! ## Responses without authority -/

/-- What the authority section holds without an answer and without authority. Name servers come
from the deepest node alone, and not from a wildcard or from the root; otherwise the closest start
of authority is given, if there is any, although name servers stand below it. -/
structure Refers (view : View σ) (store : σ) (limit : Nat) (name : Name) (records : List Record) :
    Prop where
  cut : ¬view.EndsInStar store name → 0 < view.depth store name →
    view.Holds store name .ns (view.depth store name) →
      view.Serves store name limit .ns (view.depth store name) records ∧ records ≠ [] ∧
        ∀ record ∈ records, record.type ≠ .soa
  start : view.EndsInStar store name ∨ view.depth store name = 0 ∨
      ¬view.Holds store name .ns (view.depth store name) →
    (∃ depth, view.Closest store name .soa depth ∧
        view.Serves store name limit .soa depth records) ∨
      (records = [] ∧ ∀ depth ≤ view.depth store name, ¬view.Holds store name .soa depth)
  servers_below : ∀ depth ≤ view.depth store name, view.Holds store name .soa depth →
    ∃ deeper, depth < deeper ∧ deeper ≤ view.depth store name ∧ view.Holds store name .ns deeper
  nothing : (∀ depth ≤ view.depth store name, ¬view.Holds store name .ns depth) → records = []

theorem refers_of_respond (hlimit : 1 ≤ limit) (h : respond store limit query = .ok response)
    (hempty : response.answer = []) (hauthority : response.header.authoritative = false) :
    Refers view store limit query.question.name response.authority := by
  rcases exists_of_respond h with ⟨resolved, hparts⟩
  have hresolved := resolvesTo_of_resolve view hparts.resolve
  have hsection := hparts.authority
  rw [hempty] at hsection
  -- Every start of authority has name servers below it, or there would be authority.
  have hbelow : ∀ depth ≤ view.depth store query.question.name,
      view.Holds store query.question.name .soa depth →
        ∃ deeper, depth < deeper ∧ deeper ≤ view.depth store query.question.name ∧
          view.Holds store query.question.name .ns deeper := by
    intro depth hdepth hsoa
    by_contra hnone
    have htrue := (isAuthoritative_levels hresolved hparts.authoritative).2 ⟨depth, hdepth, hsoa,
      fun deeper hlt hdeepest hservers => hnone ⟨deeper, hlt, hdeepest, hservers⟩⟩
    rw [hauthority] at htrue
    cases htrue
  have hnoStart : ¬view.Holds store query.question.name .soa
      (view.depth store query.question.name) := by
    intro hsoa
    rcases hbelow _ (Nat.le_refl _) hsoa with ⟨deeper, hlt, hle, -⟩
    omega
  rcases authoritySection_noAnswer hresolved hsection hlimit with
    ⟨hplain, hpos, hservers, -, hserves⟩ | ⟨hcase, hfirst⟩
  · refine ⟨?_, ?_, hbelow, ?_⟩
    · intro _ _ _
      refine ⟨hserves, mt (eq_nil_iff_of_serves hlimit hserves).1 (not_not.2 hservers), ?_⟩
      intro record hrecord
      rw [type_of_serves hserves record hrecord]
      decide
    · rintro (hstar | hzero | hnone)
      · exact absurd hstar hplain
      · omega
      · exact absurd hservers hnone
    · intro hnone
      exact absurd hservers (hnone _ (Nat.le_refl _))
  · have hstart := firstOf_levels hlimit hresolved hfirst
    refine ⟨?_, fun _ => hstart, hbelow, ?_⟩
    · intro hplain hpos hservers
      rcases hcase with hstar | hzero | hnone | hsoa
      · exact absurd hstar hplain
      · omega
      · exact absurd hservers hnone
      · exact absurd hsoa hnoStart
    · intro hnone
      rcases hstart with ⟨depth, hclosest, -⟩ | ⟨hempty, -⟩
      · rcases hbelow depth hclosest.le hclosest.holds with ⟨deeper, -, hle, hservers⟩
        exact absurd hservers (hnone deeper hle)
      · exact hempty

/-- Every response without an answer and without authority refers in this way. -/
def RefersRightly (view : View σ) (store : σ) : Prop :=
  ∀ limit query response, 1 ≤ limit → respond store limit query = .ok response →
    response.answer = [] → response.header.authoritative = false →
      Refers view store limit query.question.name response.authority

/-- All stores refer rightly in every state; a store without tables responds to no query. -/
theorem referral :
    (∀ tree : Zone.Tree, RefersRightly Zone.Tree.view tree) ∧
    (∀ rows : Zone.Relations, RefersRightly Zone.Relations.view rows) ∧
    (∀ store : Zone.ReadOnly, RefersRightly Zone.ReadOnly.view store) ∧
    (∀ (store : Zone.Unprepared) limit query response,
      respond store limit query ≠ .ok response) :=
  ⟨fun _ _ _ _ hlimit h hempty hauthority => refers_of_respond hlimit h hempty hauthority,
    fun _ _ _ _ hlimit h hempty hauthority => refers_of_respond hlimit h hempty hauthority,
    fun _ _ _ _ hlimit h hempty hauthority => refers_of_respond hlimit h hempty hauthority,
    respond_unprepared⟩

/-- A name below the cut `sub` is referred to the name servers of `sub`. -/
theorem referral_sampleRows :
    ∃ response, respond sampleRows defaultLimit (sampleQuery ["www", "sub", "mp"] .a) =
        .ok response ∧
      Zone.Relations.view.Serves sampleRows
        (sampleQuery ["www", "sub", "mp"] .a).question.name defaultLimit .ns 2
        response.authority := by
  have hchecks : Checks
      (fun response => response.answer == [] && response.header.authoritative == false)
      (sampleQuery ["www", "sub", "mp"] .a) = true := by decide +kernel
  rcases exists_of_checks hchecks with ⟨response, hresponse, hcheck⟩
  rw [Bool.and_eq_true, beq_iff_eq, beq_iff_eq] at hcheck
  have hrefers := referral.2.1 sampleRows defaultLimit _ response (by decide) hresponse hcheck.1
    hcheck.2
  have hpath : Zone.Relations.view.path sampleRows
      (sampleQuery ["www", "sub", "mp"] .a).question.name = [⟨1, false⟩, ⟨2, false⟩] := by
    decide +kernel
  have hplain : ¬Zone.Relations.view.EndsInStar sampleRows
      (sampleQuery ["www", "sub", "mp"] .a).question.name := by
    rintro ⟨node, hlast, hmark⟩
    rw [hpath] at hlast
    cases hlast
    cases hmark
  have hdepth : Zone.Relations.view.depth sampleRows
      (sampleQuery ["www", "sub", "mp"] .a).question.name = 2 := congrArg List.length hpath
  have hcut := hrefers.cut hplain
  rw [hdepth] at hcut
  exact ⟨response, hresponse, (hcut (by decide) (by unfold View.Holds; decide +kernel)).1⟩

/-! ## Where name servers are withheld -/

/-- What one may expect of a response without an answer and without authority: the first name
servers of the closest zone on the way that has any, and no start of authority. -/
structure GivesClosestServers (view : View σ) (store : σ) (limit : Nat) (name : Name)
    (records : List Record) : Prop where
  no_start : ∀ record ∈ records, record.type ≠ .soa
  servers :
    (∃ depth, view.Closest store name .ns depth ∧
        view.Serves store name limit .ns depth records) ∨
      (records = [] ∧ ∀ depth ≤ view.depth store name, ¬view.Holds store name .ns depth)

/-- A response with a start of authority is no such one. -/
theorem not_givesClosestServers_of_start (h : records.map Record.type = [.soa]) :
    ¬GivesClosestServers view store limit name records := by
  intro hgives
  have hmem : RecordType.soa ∈ records.map Record.type := by
    rw [h]
    exact List.mem_singleton_self _
  rcases List.mem_map.1 hmem with ⟨record, hrecord, htype⟩
  exact hgives.no_start record hrecord htype

/-- Nor is one without records where the root has name servers. -/
theorem not_givesClosestServers_of_root (hlimit : 1 ≤ limit)
    (hroot : view.Holds store name .ns 0) :
    ¬GivesClosestServers view store limit name [] := by
  intro hgives
  rcases hgives.servers with ⟨depth, hclosest, hserves⟩ | ⟨-, hnone⟩
  · exact (eq_nil_iff_of_serves hlimit hserves).1 rfl hclosest.holds
  · exact hnone 0 (Nat.zero_le _) hroot

/-- The sample store withholds the name servers of the closest zone from a query. -/
def Withholds (query : Message) : Prop :=
  ∃ response, respond sampleRows defaultLimit query = .ok response ∧
    response.answer = [] ∧ response.header.authoritative = false ∧
    ¬GivesClosestServers Zone.Relations.view sampleRows defaultLimit query.question.name
      response.authority

/-- It does so when it gives a start of authority, or nothing, without an answer and without
authority. -/
theorem withholds_of_checks
    (h : Checks (fun response => response.answer == [] &&
      response.header.authoritative == false && (response.authority.map Record.type == [.soa] ||
        response.authority == [])) query = true) : Withholds query := by
  rcases exists_of_checks h with ⟨response, hresponse, hcheck⟩
  simp only [Bool.and_eq_true, Bool.or_eq_true, beq_iff_eq] at hcheck
  rcases hcheck with ⟨⟨hanswer, hauthority⟩, hstart | hnone⟩
  · exact ⟨response, hresponse, hanswer, hauthority, not_givesClosestServers_of_start hstart⟩
  · refine ⟨response, hresponse, hanswer, hauthority, ?_⟩
    have hroot : Zone.Relations.view.kept sampleRows rootZone .ns ≠ [] := by decide +kernel
    rw [hnone]
    exact not_givesClosestServers_of_root (by decide) hroot

/-- Name servers are withheld at a node below a cut, at a wildcard that has them itself, and for a
name without any node: the first two get the start of authority that stands above, the last gets
nothing. -/
theorem servers_withheld :
    Withholds (sampleQuery ["host", "sub", "mp"] .mx) ∧
      Withholds (sampleQuery ["bar", "foo", "mp"] .mx) ∧ Withholds (sampleQuery ["zz"] .a) :=
  ⟨withholds_of_checks (by decide +kernel), withholds_of_checks (by decide +kernel),
    withholds_of_checks (by decide +kernel)⟩

end Resolver

end NameServer
