import NameServer.Proofs.Message.Reading
import NameServer.Proofs.Name.Spelling
import NameServer.Proofs.Resolver.Levels
import NameServer.Proofs.Resolver.Totality
import NameServer.Proofs.Zone.Serving

/-!
# Proofs.Resolver.Provenance — every record comes from the store

The resolver makes nothing up: a record of a response is a payload that the store serves, at a plain
name. What is known of all payloads that a store serves is known of all that it sends.

* `Resolver.Served store record` — the record is a payload that the store serves, at a plain name;
* `Resolver.respond_served` — what a response takes from the query, and that all its records are
  served;
* `Resolver.Responds.writable` — where payloads are served with full names, responses can be written.
-/

namespace NameServer

namespace Resolver

open Zone (Store View)

variable {σ : Type} [Store σ] {store : σ} {records found : List Record} {owner : Name}

/-! ## Records that are served -/

/-- The record is a payload that the store serves, at a plain name. -/
def Served (store : σ) (record : Record) : Prop :=
  ∃ owner zone type limit payloads, owner.form = .plain ∧
    Store.records store zone type limit = .ok payloads ∧
    ∃ rdata ∈ payloads, record = .of owner rdata

/-- All records are served. -/
def AllServed (store : σ) (records : List Record) : Prop :=
  ∀ record ∈ records, Served store record

theorem AllServed.nil : AllServed store [] :=
  fun _ hmem => absurd hmem List.not_mem_nil

theorem AllServed.append (h : AllServed store records) (hfound : AllServed store found) :
    AllServed store (records ++ found) := by
  intro record hmem
  rcases List.mem_append.1 hmem with hmem | hmem
  · exact h record hmem
  · exact hfound record hmem

theorem AllServed.pushUnique (h : AllServed store records) (hfound : AllServed store found) :
    AllServed store (pushUnique records found) := by
  induction found generalizing records with
  | nil => exact h
  | cons first found ih =>
      rcases List.forall_mem_cons.1 hfound with ⟨hfirst, hrest⟩
      unfold Resolver.pushUnique
      split
      · exact ih h hrest
      · exact ih (h.append (List.forall_mem_singleton.2 hfirst)) hrest

/-! ## Looking up -/

theorem recordsAt_served (store : σ) (limit : Nat) (zone : ZoneId) (type : RecordType)
    (howner : owner.form = .plain) :
    Gives (AllServed store) (recordsAt store limit zone owner type) := by
  intro records hrecords
  rcases exists_of_bind hrecords with ⟨payloads, hpayloads, hmap⟩
  cases hmap
  intro record hrecord
  rcases List.mem_map.1 hrecord with ⟨rdata, hrdata, rfl⟩
  exact ⟨owner, zone, type, limit, payloads, howner, hpayloads, rdata, hrdata, rfl⟩

theorem atLevel_served (store : σ) (limit : Nat) (zone : ZoneId) (types : List RecordType)
    (howner : owner.form = .plain) :
    Gives (AllServed store) (firstOf.atLevel store limit owner zone types) := by
  induction types with
  | nil => exact Gives.ok AllServed.nil
  | cons type types ih =>
      unfold firstOf.atLevel
      exact (recordsAt_served store limit zone type howner).bind fun _ hfound =>
        Gives.ite ih (Gives.ok hfound)

theorem firstOf_served (store : σ) (limit : Nat) (types : List RecordType)
    {levels : List (Name × ZoneId)} (hlevels : ∀ level ∈ levels, level.1.form = .plain) :
    Gives (AllServed store) (firstOf store limit types levels) := by
  induction levels with
  | nil => exact Gives.ok AllServed.nil
  | cons level levels ih =>
      rcases List.forall_mem_cons.1 hlevels with ⟨hlevel, hrest⟩
      unfold firstOf
      exact (atLevel_served store limit level.2 types hlevel).bind fun _ hfound =>
        Gives.ite (ih hrest) (Gives.ok hfound)

theorem form_of_mem_levels {name : Name} : ∀ level ∈ levels name, level.1.form = .plain := by
  intro level hlevel
  rcases List.mem_append.1 hlevel with hmem | hmem
  · rcases List.mem_map.1 hmem with ⟨above, -, rfl⟩
    rfl
  · rw [List.mem_singleton] at hmem
    rw [hmem]
    rfl

/-! ## Sections -/

theorem merged_served (store : σ) (limit : Nat) (zone : ZoneId) (types : List RecordType)
    (howner : owner.form = .plain) (h : AllServed store records) :
    Gives (AllServed store) (merged store limit zone owner records types) := by
  induction types generalizing records with
  | nil => exact Gives.ok h
  | cons type types ih =>
      unfold merged
      exact (recordsAt_served store limit zone type howner).bind fun _ hfound =>
        ih (h.pushUnique hfound)

theorem recordSet_served (store : σ) (limit : Nat) (name : Name) (type : RecordType)
    (howner : owner.form = .plain) :
    Gives (AllServed store) (recordSet store limit name owner type) := by
  have hnothing : Gives (ε := Fault) (AllServed store) (.ok []) := Gives.ok AllServed.nil
  unfold recordSet
  refine Gives.ite ?_ (Gives.ite hnothing ?_)
  · exact Gives.ite (merged_served store limit _ _ howner AllServed.nil) hnothing
  · exact Gives.ite hnothing (recordsAt_served store limit _ type howner)

theorem followAlias_served (store : σ) (limit : Nat) (name : Name) (type : RecordType)
    (howner : owner.form = .plain) :
    Gives (AllServed store) (followAlias store limit name owner type) := by
  unfold followAlias
  refine (recordSet_served store limit name .cname howner).bind fun aliases haliases => ?_
  cases hhead : aliases.head? with
  | none => exact Gives.ok AllServed.nil
  | some hop =>
      have hhop : AllServed store [hop] :=
        List.forall_mem_singleton.2 (haliases hop (List.mem_of_head? hhead))
      dsimp only
      cases hop.rdata.targets.head? with
      | none => exact Gives.ok hhop
      | some target =>
          -- What is found at the target is owned by its plain name.
          have hfound : ∀ target : Name, Gives (AllServed store) (do
              let found ← recordSet store limit target target.toPlain type
              return pushUnique [hop] found) := fun target =>
            (recordSet_served store limit target type rfl).bind fun _ hfound =>
              Gives.ok (hhop.pushUnique hfound)
          exact Gives.ite (hfound target) (Gives.after hfound)

theorem answerSection_served (store : σ) (limit : Nat) (name : Name) (type : RecordType)
    (howner : owner.form = .plain) :
    Gives (AllServed store) (answerSection store limit name owner type) := by
  unfold answerSection
  exact (recordSet_served store limit name type howner).bind fun _ hanswer =>
    Gives.ite (followAlias_served store limit name type howner) (Gives.ok hanswer)

theorem authoritySection_served (store : σ) (limit : Nat) (name : Name) (noAnswer : Bool) :
    Gives (AllServed store) (authoritySection store limit name noAnswer) := by
  have hfirst (types : List RecordType) :
      Gives (AllServed store) (firstOf store limit types (levels name)) :=
    firstOf_served store limit types form_of_mem_levels
  have hcut : ∀ cut : List Record, AllServed store cut → Gives (AllServed store) (do
      if cut.isEmpty then firstOf store limit [.soa] (levels name)
      else if ← hasRecords store name.zoneId .soa then firstOf store limit [.soa] (levels name)
      else return cut) := fun cut hcut =>
    Gives.ite (hfirst _) (Gives.after fun _ => Gives.ite (hfirst _) (Gives.ok hcut))
  unfold authoritySection
  refine Gives.ite (hfirst _) (Gives.ite ?_ (Gives.ite ?_ ?_))
  · exact Gives.ite (hcut [] AllServed.nil) ((recordsAt_served store limit _ .ns rfl).bind hcut)
  · exact recordsAt_served store limit _ .ns rfl
  · exact Gives.ite (hfirst _) (hfirst _)

theorem glueFrom_served (store : σ) (limit : Nat) (targets : List Name)
    (h : AllServed store records) :
    Gives (AllServed store) (glueFrom store limit records targets) := by
  induction targets generalizing records with
  | nil => exact Gives.ok h
  | cons target targets ih =>
      have hmore : ∀ resolved : Name, Gives (AllServed store) (do
          if !resolved.isFullyResolved || resolved.isRoot then
            glueFrom store limit records targets
          else
            let found ← recordsAt store limit resolved.zoneId resolved.toPlain .a
            glueFrom store limit (pushUnique records found) targets) := fun resolved =>
        Gives.ite (ih h) ((recordsAt_served store limit _ .a rfl).bind fun _ hfound =>
          ih (h.pushUnique hfound))
      unfold glueFrom
      exact Gives.ite (hmore target) (Gives.after hmore)

/-! ## The response -/

/-- What a response takes from the query, and where its records come from. -/
structure Responds (store : σ) (query response : Message) : Prop where
  question : response.question = query.question
  header : response.header = { Header.responseTo query.header with
    authoritative := response.header.authoritative, rcode := response.header.rcode }
  served : AllServed store response.records

theorem respond_served (store : σ) (limit : Nat) {query : Message}
    (hquery : query.question.name.form = .plain) :
    Gives (Responds store query) (respond store limit query) := by
  unfold respond
  refine Gives.after fun name => ?_
  refine (answerSection_served store limit name query.question.type hquery).bind
    fun answer hanswer => ?_
  refine (authoritySection_served store limit name answer.isEmpty).bind
    fun authority hauthority => ?_
  refine Gives.after fun authoritative => ?_
  refine (glueFrom_served store limit (mentioned (answer ++ authority)) AllServed.nil).bind
    fun additional hadditional => ?_
  exact Gives.ok ⟨rfl, rfl, (hanswer.append hauthority).append hadditional⟩

/-! ## Writing -/

/-- All payloads are served with names that can be written as they are. -/
def SpelledOut (store : σ) : Prop :=
  ∀ zone type limit, Gives (fun payloads => ∀ rdata ∈ payloads, ∀ n ∈ rdata.references,
    n.isCompressed = false) (Store.records store zone type limit)

/-- The full names of zones can. -/
theorem spelledOut_of_names {view : View σ} (hnames : view.Names store) : SpelledOut store := by
  intro zone type limit payloads hpayloads rdata hrdata
  rw [view.records_eq] at hpayloads
  rcases exists_of_mem_right (forall₂_of_mapM hpayloads) hrdata with ⟨stored, -, hnamed⟩
  rw [hnames.named_eq] at hnamed
  refine Rdata.gives_mapM (P := fun n => n.isCompressed = false) ?_ stored rdata hnamed
  intro target name hname
  have hfull := (hnames.full target name (Zone.nameOf?_of_targetName hname)).1
  unfold Name.isFullyResolved Name.isResolved at hfull
  unfold Name.isCompressed
  cases hform : name.form with
  | compressed pointer literal =>
      rw [hform] at hfull
      cases hfull
  | plain | resolved nodes => rfl

/-- A response with such payloads can be written. -/
theorem Responds.writable {query response : Message} (h : Responds store query response)
    (hspelled : SpelledOut store) (hquery : query.question.name.form = .plain) :
    response.Writable where
  names := by
    intro n hn
    rcases List.mem_cons.1 hn with rfl | hmem
    · rw [h.question]
      exact Name.isCompressed_of_form hquery
    · rcases List.mem_flatMap.1 hmem with ⟨record, hrecord, hname⟩
      rcases h.served record hrecord with
        ⟨owner, zone, type, limit, payloads, howner, hpayloads, rdata, hrdata, rfl⟩
      rcases List.mem_cons.1 hname with heq | hreference
      · rw [heq]
        exact Name.isCompressed_of_form howner
      · exact hspelled zone type limit payloads hpayloads rdata hrdata n hreference
  ttl := by
    intro record hrecord
    rcases h.served record hrecord with ⟨_, _, _, _, _, _, _, rdata, _, rfl⟩
    exact fun _ => rfl

end Resolver

end NameServer
