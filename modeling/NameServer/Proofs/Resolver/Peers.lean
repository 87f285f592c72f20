import NameServer.Proofs.Name.Peer
import NameServer.Resolver

/-!
# Proofs.Resolver.Peers — two stores that show the same

A resolver sees of a store which nodes lie on the way to the name in question, which of them are
wildcards, and what records are served for zones that it has got to know. Where two stores show the
same to it, under whatever numbers and spellings, it says the same.

* `Resolver.Peers` — stores that serve records and marks that stand for each other;
* `Resolver.answerSection_peers`, `Resolver.authoritySection_peers`,
  `Resolver.additionalSection_peers` — the sections stand for each other, record by record;
* `Resolver.respond_peers` — and so do the responses.
-/

namespace NameServer

open Zone (Store)

/-- Messages with the same header and question whose records stand for each other. -/
structure Message.Peer (p : Peering) (m m' : Message) : Prop where
  header : m.header = m'.header
  question : m.question = m'.question
  answer : Record.Peers p m.answer m'.answer
  authority : Record.Peers p m.authority m'.authority
  additional : Record.Peers p m.additional m'.additional

theorem Message.Peer.eq {m m' : Message} (h : Message.Peer .same m m') : m = m' := by
  have heq : ∀ {records records'}, Record.Peers .same records records' → records = records' :=
    fun hrecords => eq_of_forall₂ hrecords fun _ _ hr => hr.eq
  cases m
  cases m'
  rw [Message.mk.injEq]
  exact ⟨h.header, h.question, heq h.answer, heq h.authority, heq h.additional⟩

namespace Resolver

variable {σ τ : Type} [Store σ] [Store τ] {p : Peering} {store : σ} {other : τ}
variable {name name' owner owner' : Name} {zone zone' : ZoneId}
variable {records records' found found' : List Record}

/-- Zones that stand for each other have the same mark and records that stand for each other. -/
structure Peers (p : Peering) (store : σ) (other : τ) : Prop where
  records : ∀ {zone zone'}, p.zone zone zone' → ∀ type limit,
    Agree (List.Forall₂ (Rdata.Peer (Name.Served p))) (Store.records store zone type limit)
      (Store.records other zone' type limit)
  isWildcard : ∀ {zone zone'}, p.zone zone zone' →
    Store.isWildcard store zone = Store.isWildcard other zone'

theorem pushUnique_peers (h : Record.Peers p records records')
    (hfound : Record.Peers p found found') :
    Record.Peers p (pushUnique records found) (pushUnique records' found') := by
  induction hfound generalizing records records' with
  | nil => exact h
  | cons hr _ ih =>
      unfold pushUnique
      rw [h.any_sameAs hr]
      split
      · exact ih h
      · exact ih (List.rel_append h (List.Forall₂.cons hr List.Forall₂.nil))

/-! ## Looking up -/

theorem recordsAt_peers (h : Peers p store other) (limit : Nat) (hzone : p.zone zone zone')
    (type : RecordType) (howner : Name.Owners p owner owner') :
    Agree (Record.Peers p) (recordsAt store limit zone owner type)
      (recordsAt other limit zone' owner' type) := by
  unfold recordsAt
  refine (h.records hzone type limit).bind fun payloads payloads' hpayloads => ?_
  refine List.forall₂_map_left_iff.2 (List.forall₂_map_right_iff.2 (hpayloads.imp ?_))
  exact fun _ _ hrdata => ⟨howner, hrdata, hrdata.ttl⟩

theorem hasRecords_peers (h : Peers p store other) (hzone : p.zone zone zone')
    (type : RecordType) : hasRecords store zone type = hasRecords other zone' type := by
  unfold hasRecords
  rcases agree_iff.1 (h.records hzone type 1) with ⟨e, hx, hy⟩ | ⟨xs, ys, hx, hy, hrows⟩
  · rw [hx, hy]
  · rw [hx, hy]
    cases hrows <;> rfl

/-- Levels that stand for each other. -/
abbrev PeerLevels (p : Peering) : List (Name × ZoneId) → List (Name × ZoneId) → Prop :=
  List.Forall₂ fun level level' => Name.Owners p level.1 level'.1 ∧ p.zone level.2 level'.2

theorem levels_peers (hname : Name.Peer p name name') :
    PeerLevels p (levels name) (levels name') := by
  unfold levels
  refine List.rel_append ?_ (List.Forall₂.cons ⟨Name.Owners.root p, p.root⟩ List.Forall₂.nil)
  refine List.forall₂_map_left_iff.2 (List.forall₂_map_right_iff.2 ?_)
  exact hname.ancestors.imp fun _ _ hlevel => ⟨hlevel.1.toPlain, hlevel.2⟩

theorem atLevel_peers (h : Peers p store other) (limit : Nat) (types : List RecordType)
    (howner : Name.Owners p owner owner') (hzone : p.zone zone zone') :
    Agree (Record.Peers p) (firstOf.atLevel store limit owner zone types)
      (firstOf.atLevel other limit owner' zone' types) := by
  induction types with
  | nil => exact List.Forall₂.nil
  | cons type types ih =>
      unfold firstOf.atLevel
      refine (recordsAt_peers h limit hzone type howner).bind fun found found' hfound => ?_
      rw [hfound.isEmpty]
      split
      · exact ih
      · exact hfound

theorem firstOf_peers (h : Peers p store other) (limit : Nat) (types : List RecordType)
    {above above' : List (Name × ZoneId)} (habove : PeerLevels p above above') :
    Agree (Record.Peers p) (firstOf store limit types above)
      (firstOf other limit types above') := by
  induction habove with
  | nil => exact List.Forall₂.nil
  | cons hlevel _ ih =>
      unfold firstOf
      refine (atLevel_peers h limit types hlevel.1 hlevel.2).bind fun found found' hfound => ?_
      rw [hfound.isEmpty]
      split
      · exact ih
      · exact hfound

/-! ## The answer -/

theorem merged_peers (h : Peers p store other) (limit : Nat) (types : List RecordType)
    (hzone : p.zone zone zone') (howner : Name.Owners p owner owner')
    (hrecords : Record.Peers p records records') :
    Agree (Record.Peers p) (merged store limit zone owner records types)
      (merged other limit zone' owner' records' types) := by
  induction types generalizing records records' with
  | nil => exact hrecords
  | cons type types ih =>
      unfold merged
      refine (recordsAt_peers h limit hzone type howner).bind fun found found' hfound => ?_
      exact ih (pushUnique_peers hrecords hfound)

theorem recordSet_peers (h : Peers p store other) (limit : Nat) (type : RecordType)
    (hname : Name.Peer p name name') (howner : Name.Owners p owner owner') :
    Agree (Record.Peers p) (recordSet store limit name owner type)
      (recordSet other limit name' owner' type) := by
  have hnothing : Agree (ε := Fault) (Record.Peers p) (.ok []) (.ok []) := List.Forall₂.nil
  unfold recordSet
  rw [hname.isFullyResolved, hname.resolvedCount, h.isWildcard hname.zoneId]
  split
  · split
    · exact merged_peers h limit _ hname.zoneId howner List.Forall₂.nil
    · exact hnothing
  · split
    · exact hnothing
    · split
      · exact hnothing
      · exact recordsAt_peers h limit hname.zoneId type howner

theorem followAlias_peers (h : Peers p store other) (limit : Nat) (type : RecordType)
    (hname : Name.Peer p name name') (howner : Name.Owners p owner owner') :
    Agree (Record.Peers p) (followAlias store limit name owner type)
      (followAlias other limit name' owner' type) := by
  unfold followAlias
  refine (recordSet_peers h limit .cname hname howner).bind fun hops hops' hhops => ?_
  cases hhops with
  | nil => exact List.Forall₂.nil
  | @cons hop hop' rest rest' hhop _ =>
      have hone : Record.Peers p [hop] [hop'] := List.Forall₂.cons hhop List.Forall₂.nil
      simp only [List.head?_cons]
      have htargets := hhop.rdata.targets
      generalize hop.rdata.targets = targets at htargets
      generalize hop'.rdata.targets = targets' at htargets
      cases htargets with
      | nil => exact hone
      | @cons target target' rest rest' htarget _ =>
          -- What an alias points at came out of the store, so it is not looked up again.
          simp only [List.head?_cons]
          rw [← htarget.1.isResolved, htarget.2, if_pos rfl, if_pos rfl]
          refine (recordSet_peers h limit type htarget.1 htarget.1.toPlain).bind fun _ _ hfound => ?_
          exact pushUnique_peers hone hfound

theorem answerSection_peers (h : Peers p store other) (limit : Nat) (type : RecordType)
    (hname : Name.Peer p name name') (howner : Name.Owners p owner owner') :
    Agree (Record.Peers p) (answerSection store limit name owner type)
      (answerSection other limit name' owner' type) := by
  unfold answerSection
  refine (recordSet_peers h limit type hname howner).bind fun answer answer' hanswer => ?_
  rw [hanswer.isEmpty]
  split
  · exact followAlias_peers h limit type hname howner
  · exact hanswer

/-! ## Authority -/

theorem authoritySection_peers (h : Peers p store other) (limit : Nat) (noAnswer : Bool)
    (hname : Name.Peer p name name') :
    Agree (Record.Peers p) (authoritySection store limit name noAnswer)
      (authoritySection other limit name' noAnswer) := by
  have hfirst (types : List RecordType) := firstOf_peers h limit types (levels_peers hname)
  have hsoa := hasRecords_peers h hname.zoneId .soa
  unfold authoritySection
  rw [hname.isStar, hname.resolvedCount, hname.isFullyResolved]
  split
  · exact hfirst _
  · split
    · have hbehind : ∀ cut cut', Record.Peers p cut cut' → Agree (Record.Peers p)
          (if cut.isEmpty then firstOf store limit [.soa] (levels name)
            else do
              if ← hasRecords store name.zoneId .soa then firstOf store limit [.soa] (levels name)
              else return cut)
          (if cut'.isEmpty then firstOf other limit [.soa] (levels name')
            else do
              if ← hasRecords other name'.zoneId .soa then
                firstOf other limit [.soa] (levels name')
              else return cut') := by
        intro cut cut' hcut
        rw [hcut.isEmpty, hsoa]
        split
        · exact hfirst _
        · refine Agree.bind_same _ fun found => ?_
          split
          · exact hfirst _
          · exact hcut
      dsimp only
      split
      · exact hbehind [] [] List.Forall₂.nil
      · exact (recordsAt_peers h limit hname.zoneId .ns hname.resolvedPart.toPlain).bind hbehind
    · split
      · exact recordsAt_peers h limit p.root .ns (Name.Owners.root p)
      · split
        · exact hfirst _
        · exact hfirst _

theorem isAuthority_peers (h : Peers p store other) {above above' : List (Name × ZoneId)}
    (habove : PeerLevels p above above') : isAuthority store above = isAuthority other above' := by
  induction habove with
  | nil => rfl
  | cons hlevel _ ih =>
      unfold isAuthority
      rw [ih, hasRecords_peers h hlevel.2, hasRecords_peers h hlevel.2]

/-! ## Additional records -/

/-- Names that stand for each other are mentioned first in the same places. -/
theorem mentioned_peers (h : Record.Peers p records records') :
    List.Forall₂ (Name.Served p) (mentioned records) (mentioned records') := by
  have htargets : List.Forall₂ (Name.Served p)
      ((records.filter fun record => record.type ≠ .a ∧ record.type ≠ .cname).flatMap
        fun record => record.rdata.targets)
      ((records'.filter fun record => record.type ≠ .a ∧ record.type ≠ .cname).flatMap
        fun record => record.rdata.targets) := by
    induction h with
    | nil => exact List.Forall₂.nil
    | @cons r r' _ _ hr _ ih =>
        have htype : r.type = r'.type := hr.rdata.type
        simp only [List.filter_cons, htype]
        split
        · exact List.rel_append hr.rdata.targets ih
        · exact ih
  unfold mentioned
  dsimp only
  generalize (records.filter _).flatMap _ = targets at htargets
  generalize (records'.filter _).flatMap _ = targets' at htargets
  suffices hfrom : ∀ names names', List.Forall₂ (Name.Served p) names names' →
      List.Forall₂ (Name.Served p)
        (targets.foldl (fun names target =>
          if names.any fun name => name.SameAs target then names else names ++ [target]) names)
        (targets'.foldl (fun names target =>
          if names.any fun name => name.SameAs target then names else names ++ [target]) names') from
    hfrom [] [] List.Forall₂.nil
  induction htargets with
  | nil => exact fun _ _ h => h
  | @cons target target' _ _ htarget _ ih =>
      intro names names' hnames
      have hany : (names.any fun name => name.SameAs target) =
          names'.any fun name => name.SameAs target' := by
        induction hnames with
        | nil => rfl
        | @cons n n' _ _ hname _ ihnames =>
            have hsame : n.SameAs target ↔ n'.SameAs target' := by
              unfold Name.SameAs
              rw [hname.1.folded, htarget.1.folded]
            rw [List.any_cons, List.any_cons, ihnames, decide_eq_decide.2 hsame]
      rw [List.foldl_cons, List.foldl_cons, hany]
      split
      · exact ih _ _ hnames
      · exact ih _ _ (List.rel_append hnames (List.Forall₂.cons htarget List.Forall₂.nil))

theorem glueFrom_peers (h : Peers p store other) (limit : Nat) {targets targets' : List Name}
    (htargets : List.Forall₂ (Name.Served p) targets targets')
    (hrecords : Record.Peers p records records') :
    Agree (Record.Peers p) (glueFrom store limit records targets)
      (glueFrom other limit records' targets') := by
  induction htargets generalizing records records' with
  | nil => exact hrecords
  | @cons target target' _ _ htarget _ ih =>
      unfold glueFrom
      rw [← htarget.1.isResolved, htarget.2, if_pos rfl, if_pos rfl]
      change Agree (Record.Peers p)
        (if !target.isFullyResolved || target.isRoot then _ else _)
        (if !target'.isFullyResolved || target'.isRoot then _ else _)
      rw [htarget.1.isFullyResolved, htarget.1.isRoot]
      split
      · exact ih hrecords
      · refine (recordsAt_peers h limit htarget.1.zoneId .a htarget.1.toPlain).bind
          fun found found' hfound => ?_
        exact ih (pushUnique_peers hrecords hfound)

theorem additionalSection_peers (h : Peers p store other) (limit : Nat)
    {answer answer' authority authority' : List Record}
    (hanswer : Record.Peers p answer answer') (hauthority : Record.Peers p authority authority') :
    Agree (Record.Peers p) (additionalSection store limit answer authority)
      (additionalSection other limit answer' authority') :=
  glueFrom_peers h limit (mentioned_peers (List.rel_append hanswer hauthority)) List.Forall₂.nil

/-! ## The response -/

/-- A query gets the same response from both stores when its name is resolved alike. -/
theorem respond_peers (h : Peers p store other) (limit : Nat) {query : Message}
    (hresolve : Agree (Name.Peer p) (Store.resolve store query.question.name)
      (Store.resolve other query.question.name))
    (howner : List.Forall₂ p.label query.question.name.labels query.question.name.labels) :
    Agree (Message.Peer p) (respond store limit query) (respond other limit query) := by
  unfold respond
  refine hresolve.bind fun name name' hname => ?_
  refine (answerSection_peers h limit _ hname ⟨howner, rfl⟩).bind fun answer answer' hanswer => ?_
  rw [hanswer.isEmpty]
  refine (authoritySection_peers h limit _ hname).bind fun authority authority' hauthority => ?_
  unfold isAuthoritative
  rw [isAuthority_peers h (levels_peers hname)]
  refine Agree.bind_same _ fun authoritative => ?_
  refine (additionalSection_peers h limit hanswer hauthority).bind
    fun additional additional' hadditional => ?_
  refine ⟨?_, rfl, hanswer, hauthority, hadditional⟩
  simp only [hname.isFullyResolved, hname.isStar]

end Resolver
end NameServer
