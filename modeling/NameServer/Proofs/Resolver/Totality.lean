import NameServer.Proofs.Outcome
import NameServer.Resolver

/-!
# Proofs.Resolver.Totality — a query fails only when a read does

Absent data is no error for the resolver. Where a store resolves every name and serves every list
of records, every query gets a response.

* `Resolver.ReadsSucceed store` — all reads of the store succeed;
* `Resolver.respond_succeeds` — then so does the response to any query.
-/

namespace NameServer

namespace Resolver

open Zone (Store)

variable {σ : Type} [Store σ] {store : σ}

/-- Every name is resolved and every list of records is served. -/
structure ReadsSucceed (store : σ) : Prop where
  resolve : ∀ name, Succeeds (Store.resolve store name)
  records : ∀ zone type limit, Succeeds (Store.records store zone type limit)

namespace ReadsSucceed

/-! ## Looking up -/

theorem recordsAt (h : ReadsSucceed store) (limit : Nat) (zone : ZoneId) (owner : Name)
    (type : RecordType) : Succeeds (recordsAt store limit zone owner type) :=
  (h.records zone type limit).bind fun _ => Succeeds.ok _

theorem hasRecords (h : ReadsSucceed store) (zone : ZoneId) (type : RecordType) :
    Succeeds (hasRecords store zone type) :=
  (h.records zone type 1).bind fun _ => Succeeds.ok _

theorem atLevel (h : ReadsSucceed store) (limit : Nat) (owner : Name) (zone : ZoneId)
    (types : List RecordType) : Succeeds (firstOf.atLevel store limit owner zone types) := by
  induction types with
  | nil => exact Succeeds.ok _
  | cons type types ih =>
      unfold firstOf.atLevel
      exact (h.recordsAt limit zone owner type).bind fun _ => Succeeds.ite ih (Succeeds.ok _)

theorem firstOf (h : ReadsSucceed store) (limit : Nat) (types : List RecordType)
    (levels : List (Name × ZoneId)) : Succeeds (firstOf store limit types levels) := by
  induction levels with
  | nil => exact Succeeds.ok _
  | cons level levels ih =>
      rcases level with ⟨owner, zone⟩
      unfold Resolver.firstOf
      exact (h.atLevel limit owner zone types).bind fun _ => Succeeds.ite ih (Succeeds.ok _)

theorem isAuthority (h : ReadsSucceed store) (levels : List (Name × ZoneId)) :
    Succeeds (isAuthority store levels) := by
  induction levels with
  | nil => exact Succeeds.ok _
  | cons level levels ih =>
      rcases level with ⟨owner, zone⟩
      unfold Resolver.isAuthority
      refine (h.hasRecords zone .soa).bind fun _ => Succeeds.ite (Succeeds.ok _) ?_
      exact (h.hasRecords zone .ns).bind fun _ => Succeeds.ite (Succeeds.ok _) ih

/-! ## Sections -/

theorem merged (h : ReadsSucceed store) (limit : Nat) (zone : ZoneId) (owner : Name)
    (types : List RecordType) (records : List Record) :
    Succeeds (merged store limit zone owner records types) := by
  induction types generalizing records with
  | nil => exact Succeeds.ok _
  | cons type types ih =>
      unfold Resolver.merged
      exact (h.recordsAt limit zone owner type).bind fun found => ih (pushUnique records found)

theorem recordSet (h : ReadsSucceed store) (limit : Nat) (name owner : Name) (type : RecordType) :
    Succeeds (recordSet store limit name owner type) := by
  unfold Resolver.recordSet
  apply Succeeds.ite
  · exact Succeeds.ite (h.merged limit _ owner _ []) (Succeeds.ok _)
  · apply Succeeds.ite (Succeeds.ok _)
    exact Succeeds.ite (Succeeds.ok _) (h.recordsAt limit _ owner type)

theorem followAlias (h : ReadsSucceed store) (limit : Nat) (name owner : Name)
    (type : RecordType) : Succeeds (followAlias store limit name owner type) := by
  unfold Resolver.followAlias
  apply (h.recordSet limit name owner .cname).bind
  intro aliases
  cases aliases.head? with
  | none => exact Succeeds.ok _
  | some hop =>
      dsimp only
      cases hop.rdata.targets.head? with
      | none => exact Succeeds.ok _
      | some target =>
          have hfound : ∀ resolved : Name, Succeeds (do
              let found ← Resolver.recordSet store limit resolved resolved.toPlain type
              return pushUnique [hop] found) := fun resolved =>
            (h.recordSet limit resolved _ type).bind fun _ => Succeeds.ok _
          -- A target that is resolved already is not looked up again.
          exact Succeeds.ite (hfound target) ((h.resolve target).bind hfound)

theorem answerSection (h : ReadsSucceed store) (limit : Nat) (name owner : Name)
    (type : RecordType) : Succeeds (answerSection store limit name owner type) := by
  unfold Resolver.answerSection
  apply (h.recordSet limit name owner type).bind
  intro answer
  exact Succeeds.ite (h.followAlias limit name owner type) (Succeeds.ok _)

theorem authoritySection (h : ReadsSucceed store) (limit : Nat) (name : Name) (noAnswer : Bool) :
    Succeeds (authoritySection store limit name noAnswer) := by
  unfold Resolver.authoritySection
  apply Succeeds.ite (h.firstOf limit _ _)
  apply Succeeds.ite
  · -- The records at the deepest node come from a read, or are none without one.
    have hcut : ∀ cut : List Record, Succeeds (do
        if cut.isEmpty then Resolver.firstOf store limit [.soa] (levels name)
        else if ← Resolver.hasRecords store name.zoneId .soa then
          Resolver.firstOf store limit [.soa] (levels name)
        else return cut) := by
      intro cut
      apply Succeeds.ite (h.firstOf limit _ _)
      apply (h.hasRecords _ _).bind
      intro soa
      exact Succeeds.ite (h.firstOf limit _ _) (Succeeds.ok _)
    exact Succeeds.ite (hcut []) ((h.recordsAt limit _ _ _).bind hcut)
  · apply Succeeds.ite (h.recordsAt limit _ _ _)
    exact Succeeds.ite (h.firstOf limit _ _) (h.firstOf limit _ _)

theorem glueFrom (h : ReadsSucceed store) (limit : Nat) (records : List Record)
    (targets : List Name) : Succeeds (glueFrom store limit records targets) := by
  induction targets generalizing records with
  | nil => exact Succeeds.ok _
  | cons target targets ih =>
      unfold Resolver.glueFrom
      have hmore : ∀ resolved : Name, Succeeds (do
          if !resolved.isFullyResolved || resolved.isRoot then
            Resolver.glueFrom store limit records targets
          else
            let found ← Resolver.recordsAt store limit resolved.zoneId resolved.toPlain .a
            Resolver.glueFrom store limit (pushUnique records found) targets) := by
        intro resolved
        apply Succeeds.ite (ih records)
        exact (h.recordsAt limit _ _ .a).bind fun found => ih (pushUnique records found)
      exact Succeeds.ite (hmore target) ((h.resolve target).bind hmore)

end ReadsSucceed

/-! ## The response -/

/-- Where all reads succeed, every query gets a response. -/
theorem respond_succeeds (h : ReadsSucceed store) (limit : Nat) (query : Message) :
    Succeeds (respond store limit query) := by
  unfold respond
  apply (h.resolve query.question.name).bind
  intro name
  apply (h.answerSection limit name query.question.name query.question.type).bind
  intro answer
  apply (h.authoritySection limit name answer.isEmpty).bind
  intro authority
  apply (h.isAuthority (levels name)).bind
  intro authoritative
  apply (h.glueFrom limit [] (mentioned (answer ++ authority))).bind
  intro additional
  exact Succeeds.ok _

end Resolver

end NameServer
