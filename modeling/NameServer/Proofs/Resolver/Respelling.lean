import NameServer.Proofs.Message.Twin
import NameServer.Proofs.Zone.CaseBlind
import NameServer.Resolver

/-!
# Proofs.Resolver.Respelling — one question in two spellings

Two queries that differ in the spelling of their name get the same response but for the owners that
are cut from that name, which come in the spelling of the query.

* `Resolver.answerSection_twin`, `Resolver.authoritySection_twin` — the sections of two responses
  are twins, record by record;
* `Resolver.mentioned_twin` — the names for which addresses are added are the same;
* `Resolver.respond_twin` — the responses are twins.
-/

namespace NameServer

open Zone (Store CaseBlind)

open Record (Twin Twins)

namespace Resolver

variable {σ : Type} [Store σ] {key : List (List UInt8)} {m m' owner owner' : Name}
variable {records records' found found' : List Record}

theorem pushUnique_twin (h : Twins key records records') (hfound : Twins key found found') :
    Twins key (pushUnique records found) (pushUnique records' found') := by
  induction hfound generalizing records records' with
  | nil => exact h
  | @cons r r' rest rest' hr _ ih =>
      unfold pushUnique
      rw [h.any_sameAs hr]
      split
      · exact ih h
      · exact ih (List.rel_append h (List.Forall₂.cons hr List.Forall₂.nil))

/-! ## Looking up -/

theorem recordsAt_twin (store : σ) (limit : Nat) (zone : ZoneId) (type : RecordType)
    (howner : Name.Alike key owner owner') :
    Agree (Twins key) (recordsAt store limit zone owner type)
      (recordsAt store limit zone owner' type) := by
  unfold recordsAt
  refine Agree.bind_same _ fun payloads => ?_
  refine List.forall₂_map_left_iff.2 (List.forall₂_map_right_iff.2 (List.forall₂_same.2 ?_))
  exact fun rdata _ => ⟨howner, rfl, rfl⟩

theorem merged_twin (store : σ) (limit : Nat) (zone : ZoneId) (types : List RecordType)
    (howner : Name.Alike key owner owner') (h : Twins key records records') :
    Agree (Twins key) (merged store limit zone owner records types)
      (merged store limit zone owner' records' types) := by
  induction types generalizing records records' with
  | nil => exact h
  | cons type types ih =>
      unfold merged
      refine (recordsAt_twin store limit zone type howner).bind ?_
      intro found found' hfound
      exact ih (pushUnique_twin h hfound)

theorem recordSet_twin (store : σ) (limit : Nat) (type : RecordType) (hname : Name.Twin key m m')
    (howner : Name.Alike key owner owner') :
    Agree (Twins key) (recordSet store limit m owner type)
      (recordSet store limit m' owner' type) := by
  -- Which branch is taken depends on the nodes of the name, which its spellings share.
  unfold recordSet
  rw [hname.isFullyResolved, hname.zoneId, hname.resolvedCount]
  have hnothing : Agree (ε := Fault) (Twins key) (.ok []) (.ok []) := List.Forall₂.nil
  split
  · split
    · exact merged_twin store limit _ _ howner List.Forall₂.nil
    · exact hnothing
  · split
    · exact hnothing
    · split
      · exact hnothing
      · exact recordsAt_twin store limit _ type howner

/-! ## The answer -/

theorem followAlias_twin (store : σ) (limit : Nat) (type : RecordType)
    (hname : Name.Twin key m m') (howner : Name.Alike key owner owner') :
    Agree (Twins key) (followAlias store limit m owner type)
      (followAlias store limit m' owner' type) := by
  unfold followAlias
  refine (recordSet_twin store limit .cname hname howner).bind ?_
  intro hops hops' hhops
  cases hhops with
  | nil => exact List.Forall₂.nil
  | @cons hop hop' rest rest' hhop _ =>
      have hone : Twins key [hop] [hop'] := List.Forall₂.cons hhop List.Forall₂.nil
      -- The alias points at a name of the store, which is the same for both spellings.
      have hend : ∀ target, Agree (Twins key)
          (do
            let found ← recordSet store limit target target.toPlain type
            return pushUnique [hop] found)
          (do
            let found ← recordSet store limit target target.toPlain type
            return pushUnique [hop'] found) := by
        intro target
        refine Agree.bind_same _ fun found => ?_
        exact pushUnique_twin hone (Twins.refl found)
      simp only [List.head?_cons]
      rw [← hhop.rdata]
      split
      · exact hone
      · split
        · exact hend _
        · refine Agree.bind_same _ fun target => ?_
          exact hend target

/-- The answers to two spellings are twins. -/
theorem answerSection_twin (store : σ) (limit : Nat) (type : RecordType)
    (hname : Name.Twin key m m') (howner : Name.Alike key owner owner') :
    Agree (Twins key) (answerSection store limit m owner type)
      (answerSection store limit m' owner' type) := by
  unfold answerSection
  refine (recordSet_twin store limit type hname howner).bind ?_
  intro answer answer' hanswer
  rw [hanswer.isEmpty]
  split
  · exact followAlias_twin store limit type hname howner
  · exact hanswer

/-! ## Authority -/

/-- Levels of two spellings: the same zones, with names that are the same or twins. -/
abbrev Levels (key : List (List UInt8)) : List (Name × ZoneId) → List (Name × ZoneId) → Prop :=
  List.Forall₂ fun level level' => Name.Alike key level.1 level'.1 ∧ level.2 = level'.2

theorem levels_twin (hname : Name.Twin key m m') : Levels key (levels m) (levels m') := by
  unfold levels
  refine List.rel_append ?_ (List.Forall₂.cons ⟨Or.inl rfl, rfl⟩ List.Forall₂.nil)
  refine List.forall₂_map_left_iff.2 (List.forall₂_map_right_iff.2 ?_)
  exact hname.ancestors.imp fun level level' hlevel => ⟨Or.inr hlevel.1.toPlain, hlevel.2⟩

theorem atLevel_twin (store : σ) (limit : Nat) (zone : ZoneId) (types : List RecordType)
    (howner : Name.Alike key owner owner') :
    Agree (Twins key) (firstOf.atLevel store limit owner zone types)
      (firstOf.atLevel store limit owner' zone types) := by
  induction types with
  | nil => exact List.Forall₂.nil
  | cons type types ih =>
      unfold firstOf.atLevel
      refine (recordsAt_twin store limit zone type howner).bind ?_
      intro found found' hfound
      rw [hfound.isEmpty]
      split
      · exact ih
      · exact hfound

theorem firstOf_twin (store : σ) (limit : Nat) (types : List RecordType)
    {above above' : List (Name × ZoneId)} (h : Levels key above above') :
    Agree (Twins key) (firstOf store limit types above) (firstOf store limit types above') := by
  induction h with
  | nil => exact List.Forall₂.nil
  | @cons level level' rest rest' hlevel _ ih =>
      rcases level with ⟨owner, zone⟩
      rcases level' with ⟨owner', zone'⟩
      rcases hlevel with ⟨howner, hzone⟩
      change zone = zone' at hzone
      subst hzone
      unfold firstOf
      refine (atLevel_twin store limit zone types howner).bind ?_
      intro found found' hfound
      rw [hfound.isEmpty]
      split
      · exact ih
      · exact hfound

/-- The authority sections for two spellings are twins. -/
theorem authoritySection_twin (store : σ) (limit : Nat) (noAnswer : Bool)
    (hname : Name.Twin key m m') :
    Agree (Twins key) (authoritySection store limit m noAnswer)
      (authoritySection store limit m' noAnswer) := by
  have hlevels := levels_twin hname
  unfold authoritySection
  rw [hname.isStar, hname.resolvedCount, hname.zoneId, hname.isFullyResolved]
  split
  · exact firstOf_twin store limit _ hlevels
  · split
    · -- What is chosen at a cut depends on whether the cut is empty, not on its owners.
      have hbehind : ∀ cut cut', Twins key cut cut' → Agree (Twins key)
          (if cut.isEmpty then firstOf store limit [.soa] (levels m)
            else do
              if ← hasRecords store m'.zoneId .soa then firstOf store limit [.soa] (levels m)
              else return cut)
          (if cut'.isEmpty then firstOf store limit [.soa] (levels m')
            else do
              if ← hasRecords store m'.zoneId .soa then firstOf store limit [.soa] (levels m')
              else return cut') := by
        intro cut cut' hcut
        rw [hcut.isEmpty]
        split
        · exact firstOf_twin store limit _ hlevels
        · refine Agree.bind_same _ fun found => ?_
          split
          · exact firstOf_twin store limit _ hlevels
          · exact hcut
      dsimp only
      split
      · exact hbehind [] [] List.Forall₂.nil
      · exact (recordsAt_twin store limit _ _ (Or.inr hname.resolvedPart.toPlain)).bind hbehind
    · split
      · exact Agree.refl Twins.refl _
      · split
        · exact firstOf_twin store limit _ hlevels
        · exact firstOf_twin store limit _ hlevels

theorem isAuthority_twin (store : σ) {above above' : List (Name × ZoneId)}
    (h : Levels key above above') : isAuthority store above = isAuthority store above' := by
  induction h with
  | nil => rfl
  | @cons level level' rest rest' hlevel _ ih =>
      rcases level with ⟨owner, zone⟩
      rcases level' with ⟨owner', zone'⟩
      rcases hlevel with ⟨-, hzone⟩
      change zone = zone' at hzone
      subst hzone
      unfold isAuthority
      rw [ih]

/-! ## Additional records -/

/-- What records refer to does not depend on their owners. -/
theorem mentioned_twin (h : Twins key records records') :
    mentioned records = mentioned records' := by
  have htargets :
      ((records.filter fun record => record.type ≠ .a ∧ record.type ≠ .cname).flatMap
          fun record => record.rdata.targets) =
        (records'.filter fun record => record.type ≠ .a ∧ record.type ≠ .cname).flatMap
          fun record => record.rdata.targets := by
    induction h with
    | nil => rfl
    | @cons r r' rest rest' hr _ ih =>
        have htype : r.type = r'.type := congrArg Rdata.type hr.rdata
        simp only [List.filter_cons, htype]
        split
        · rw [List.flatMap_cons, List.flatMap_cons, ih, hr.rdata]
        · exact ih
  unfold mentioned
  rw [htargets]

/-! ## The response -/

/-- Two spellings of a query get responses that are twins, each with the header fields and the
question of its query. -/
theorem respond_twin (hblind : CaseBlind σ) (store : σ) (limit : Nat) {query query' : Message}
    (hopcode : query.header.opcode = query'.header.opcode)
    (hname : Name.Twin query.question.name.folded query.question.name query'.question.name)
    (htype : query.question.type = query'.question.type) :
    Agree (fun m m' => m.Twin m' ∧ m'.question = query'.question ∧
        m'.header.id = query'.header.id ∧
          m'.header.recursionDesired = query'.header.recursionDesired)
      (respond store limit query) (respond store limit query') := by
  unfold respond
  refine (hblind store _ _ hname.folded).bind ?_
  intro name name' htwin
  rw [← htype]
  refine (answerSection_twin store limit _ htwin (Or.inr hname)).bind ?_
  intro answer answer' hanswer
  rw [hanswer.isEmpty]
  refine (authoritySection_twin store limit _ htwin).bind ?_
  intro authority authority' hauthority
  have hlevels := isAuthority_twin store (levels_twin htwin)
  unfold isAuthoritative
  rw [hlevels]
  refine Agree.bind_same _ fun authoritative => ?_
  unfold additionalSection
  rw [mentioned_twin (List.rel_append hanswer hauthority)]
  refine Agree.bind_same _ fun additional => ?_
  refine ⟨⟨?_, hname, htype, hanswer, hauthority, Twins.refl additional⟩, rfl, rfl, rfl⟩
  simp only [Header.responseTo, hopcode, htwin.isFullyResolved, htwin.isStar]

end Resolver

end NameServer
