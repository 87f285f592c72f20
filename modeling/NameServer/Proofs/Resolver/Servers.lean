import NameServer.Proofs.Resolver.Denial

/-!
# Proofs.Resolver.Servers — the authority section beside an answer

Beside an answer the resolver looks for name servers, in one of three ways by what it knows of the
name, and in a fourth for start of authority and name servers at once. An answer rules that fourth
way out, and the other three are one: name servers come from the closest level that has any.

* `Resolver.covered_of_answer` — only a name that exists or that a wildcard covers has an answer;
* `Resolver.authoritySection_answer` — the authority section beside it;
* `Resolver.Affirms` and `Resolver.affirmation` — what every response with an answer says.
-/

namespace NameServer
namespace Resolver

open Zone (Store View)

variable {σ : Type} [Store σ] {view : View σ} {store : σ} {name resolved : Name}
variable {limit : Nat} {records : List Record} {query response : Message}

/-! ## The way that an answer rules out -/

/-- A name with an answer exists in full, or its deepest node is a wildcard. -/
theorem covered_of_answer (hmarked : view.Marked store)
    (hresolved : ResolvesTo view store query.question.name resolved)
    (hparts : Parts store limit query response resolved) (hanswer : response.answer ≠ []) :
    view.Exists store query.question.name ∨ view.EndsInStar store query.question.name := by
  by_contra hnone
  rcases not_or.1 hnone with ⟨hpartial, hplain⟩
  -- Such a name has no records of any type and no alias, whoever owns them.
  have hempty : answerSection store limit resolved query.question.name query.question.type =
      .ok [] :=
    answerSection_of_missing (Bool.eq_false_iff.2 (mt hresolved.isFullyResolved.1 hpartial))
      (plain_of_not_endsInStar hresolved hmarked hplain)
  rw [hparts.answer] at hempty
  exact hanswer (Except.ok.inj hempty)

/-! ## The ways that are left -/

/-- Name servers of the closest level are no start of authority. -/
theorem givesClosestServers_of_servers
    (h : (∃ depth, view.Closest store name .ns depth ∧
        view.Serves store name limit .ns depth records) ∨
      (records = [] ∧ ∀ depth ≤ view.depth store name, ¬view.Holds store name .ns depth)) :
    GivesClosestServers view store limit name records := by
  refine ⟨?_, h⟩
  intro record hrecord
  rcases h with ⟨depth, -, hserves⟩ | ⟨hempty, -⟩
  · rw [type_of_serves hserves record hrecord]
    decide
  · rw [hempty] at hrecord
    cases hrecord

/-- A name without any node is served from the root, which is the only level it has. -/
theorem givesClosestServers_of_root (hlimit : 1 ≤ limit) (hdepth : view.depth store name = 0)
    (hserves : view.Serves store name limit .ns 0 records) :
    GivesClosestServers view store limit name records := by
  apply givesClosestServers_of_servers
  by_cases hempty : records = []
  · right
    refine ⟨hempty, ?_⟩
    intro depth hle
    have hzero : depth = 0 := by omega
    rw [hzero]
    exact (eq_nil_iff_of_serves hlimit hserves).1 hempty
  · left
    have hholds := not_not.1 (mt (eq_nil_iff_of_serves hlimit hserves).2 hempty)
    refine ⟨0, ⟨Nat.zero_le _, hholds, ?_⟩, hserves⟩
    intro deeper hlt hle
    omega

/-- Beside the answer for a name that exists or that a wildcard covers stand the closest name
servers. -/
theorem authoritySection_answer (hlimit : 1 ≤ limit)
    (hresolved : ResolvesTo view store name resolved)
    (hcovered : view.Exists store name ∨ view.EndsInStar store name)
    (h : authoritySection store limit resolved false = .ok records) :
    GivesClosestServers view store limit name records := by
  have hthere : (resolved.isFullyResolved || resolved.isStar) = true := by
    rw [Bool.or_eq_true]
    exact hcovered.imp hresolved.isFullyResolved.2 hresolved.isStar.2
  unfold authoritySection at h
  rw [Bool.and_false, if_neg Bool.false_ne_true, if_neg Bool.false_ne_true,
    hresolved.resolvedCount] at h
  by_cases hzero : view.depth store name = 0
  · rw [if_pos hzero, ← Name.ending_zero name] at h
    exact givesClosestServers_of_root hlimit hzero (serves_of_recordsAt h)
  · rw [if_neg hzero, if_pos hthere] at h
    exact givesClosestServers_of_servers (firstOf_levels hlimit hresolved h)

/-! ## Responses with an answer -/

/-- What a response says beside its answer for a name. The name exists in full or its deepest node
is a wildcard, and the authority section holds the first name servers of the closest zone on the way
that has any, and nothing else. -/
structure Affirms (view : View σ) (store : σ) (limit : Nat) (name : Name) (records : List Record) :
    Prop where
  covered : view.Exists store name ∨ view.EndsInStar store name
  authority : GivesClosestServers view store limit name records

theorem affirms_of_respond (hmarked : view.Marked store) (hlimit : 1 ≤ limit)
    (h : respond store limit query = .ok response) (hanswer : response.answer ≠ []) :
    Affirms view store limit query.question.name response.authority := by
  rcases exists_of_respond h with ⟨resolved, hparts⟩
  have hresolved := resolvesTo_of_resolve view hparts.resolve
  have hcovered := covered_of_answer hmarked hresolved hparts hanswer
  have hsection := hparts.authority
  rw [List.isEmpty_eq_false_iff.2 hanswer] at hsection
  exact ⟨hcovered, authoritySection_answer hlimit hresolved hcovered hsection⟩

/-- With or without an answer, the authority section comes from one level. -/
theorem authority_of_respond (hmarked : view.Marked store) (hlimit : 1 ≤ limit)
    (h : respond store limit query = .ok response) :
    response.authority = [] ∨ ∃ type depth, depth ≤ view.depth store query.question.name ∧
      view.Serves store query.question.name limit type depth response.authority := by
  by_cases hanswer : response.answer = []
  · rcases exists_of_respond h with ⟨resolved, hparts⟩
    have hresolved := resolvesTo_of_resolve view hparts.resolve
    have hsection := hparts.authority
    rw [hanswer] at hsection
    rcases authoritySection_noAnswer hresolved hsection hlimit with
      ⟨-, -, -, -, hserves⟩ | ⟨-, hfirst⟩
    · exact Or.inr ⟨_, _, Nat.le_refl _, hserves⟩
    · rcases firstOf_levels hlimit hresolved hfirst with ⟨depth, hclosest, hserves⟩ | ⟨hempty, -⟩
      · exact Or.inr ⟨_, depth, hclosest.le, hserves⟩
      · exact Or.inl hempty
  · rcases (affirms_of_respond hmarked hlimit h hanswer).authority.servers with
      ⟨depth, hclosest, hserves⟩ | ⟨hempty, -⟩
    · exact Or.inr ⟨_, depth, hclosest.le, hserves⟩
    · exact Or.inl hempty

/-- Where the reads of a store succeed every query is answered, and every response with an answer
affirms rightly. -/
def AffirmsRightly (view : View σ) (store : σ) : Prop :=
  ∀ limit query, 1 ≤ limit →
    (ReadsSucceed store → Succeeds (respond store limit query)) ∧
      ∀ response, respond store limit query = .ok response → response.answer ≠ [] →
        Affirms view store limit query.question.name response.authority

theorem affirmsRightly_of_marked (hmarked : view.Marked store) : AffirmsRightly view store := by
  intro limit query hlimit
  exact ⟨fun hreads => respond_succeeds hreads limit query,
    fun _ hresponse hanswer => affirms_of_respond hmarked hlimit hresponse hanswer⟩

/-- All stores affirm rightly: trees in every state, rows whenever their numbers are distinct, which
they are in every state that comes about from no rows, and a store without tables never. -/
theorem affirmation :
    (∀ tree : Zone.Tree, AffirmsRightly Zone.Tree.view tree) ∧
    (∀ rows : Zone.Relations, rows.Distinct → AffirmsRightly Zone.Relations.view rows) ∧
    (∀ store : Zone.ReadOnly, store.rows.Distinct → AffirmsRightly Zone.ReadOnly.view store) ∧
    (∀ startedAt rows, Zone.Reached (Zone.Relations.empty startedAt) rows → rows.Distinct) ∧
    (∀ (store : Zone.Unprepared) limit query response,
      respond store limit query ≠ .ok response) :=
  ⟨fun tree => affirmsRightly_of_marked tree.marked,
    fun _ hdistinct => affirmsRightly_of_marked hdistinct.marked,
    fun _ hdistinct => affirmsRightly_of_marked (Zone.ReadOnly.marked hdistinct),
    fun _ _ hreached => Zone.Relations.distinct_of_reached hreached,
    respond_unprepared⟩

/-- A name below the wildcard `foo` is answered with the name servers of `foo`, which stand beside
that answer, too, although `mp` and the root have name servers of their own. -/
theorem affirmation_sampleRows :
    ∃ response, respond sampleRows defaultLimit (sampleQuery ["bar", "foo", "mp"] .ns) =
        .ok response ∧ response.answer ≠ [] ∧
      Zone.Relations.view.Serves sampleRows (sampleQuery ["bar", "foo", "mp"] .ns).question.name
        defaultLimit .ns 2 response.authority := by
  have hchecks : Checks (fun response => !response.answer.isEmpty)
      (sampleQuery ["bar", "foo", "mp"] .ns) = true := by decide +kernel
  rcases exists_of_checks hchecks with ⟨response, hresponse, hcheck⟩
  have hanswer : response.answer ≠ [] := by simpa using hcheck
  have haffirms := (affirmation.2.1 sampleRows distinct_sampleRows defaultLimit _ (by decide)).2
    response hresponse hanswer
  have hdepth : Zone.Relations.view.depth sampleRows
      (sampleQuery ["bar", "foo", "mp"] .ns).question.name = 2 := by decide +kernel
  have hholds : Zone.Relations.view.Holds sampleRows
      (sampleQuery ["bar", "foo", "mp"] .ns).question.name .ns 2 := by
    unfold View.Holds
    decide +kernel
  refine ⟨response, hresponse, hanswer, ?_⟩
  rcases haffirms.authority.servers with ⟨depth, hclosest, hserves⟩ | ⟨-, hnone⟩
  · -- The deepest node has name servers, so no other level is closest.
    have hle := hclosest.le
    have htwo : depth = 2 := by
      by_contra hne
      exact hclosest.none_below 2 (by omega) (by omega) hholds
    rwa [htwo] at hserves
  · exact absurd hholds (hnone 2 (by omega))

end Resolver
end NameServer
