import NameServer.Proofs.Resolver.Answers
import NameServer.Proofs.Tree.Ways
import NameServer.Proofs.Zone.BackEnds

/-!
# Proofs.Resolver.Mentions — a name that is mentioned leaves its wildcard

Storing a record creates the names that it refers to, and a name with a node of its own is no longer
covered by the wildcard above it. So a record that refers to a name takes the answers away that the
wildcard gave to it, and to the names that share a new node with it; all others keep theirs.

* `View.Covers`, `View.Outside`, `View.Meets` — a wildcard answers a question, an owner is not below
  it, and a name shares the next node on the way to another;
* `Resolver.Hides` — what becomes of the answer of the wildcard;
* `Resolver.hides_of_stores` — it is gone when a reference meets the way to the name, and else it is
  what it was;
* `Resolver.mentioning` — so it is in every administered store;
* `Resolver.mention_hides` — answers are not kept whatever is mentioned.
-/

namespace NameServer

namespace Zone.View

section Wildcards

variable {σ : Type} [Store σ] (view : View σ) (store : σ)

/-- Whether a wildcard answers a question: some label of the name has no node, the deepest node on
the way to it is a wildcard, and this has records of the type. -/
structure Covers (question : Question) : Prop where
  below : ¬view.Exists store question.name
  star : view.EndsInStar store question.name
  holds : view.Holds store question.name question.type (view.depth store question.name)

/-- Whether an owner is neither the deepest node on the way to a name nor below it. -/
def Outside (name owner : Name) : Prop :=
  ∀ node ∈ view.path store owner, node.id ≠ view.zoneAt store name (view.depth store name)

/-- Whether a target has the labels of a name up to the first one that has no node. -/
def Meets (name target : Name) : Prop :=
  (target.ending (view.depth store name + 1)).SameAs (name.ending (view.depth store name + 1))

end Wildcards

variable {σ τ : Type} [Store σ] [Store τ] {view : View σ} {view' : View τ} {store : σ} {other : τ}
variable {name : Name} {question : Question}

/-- The way to a name tells how deep it is and which zones lie on it. -/
theorem zoneAt_congr (h : view.path store name = view'.path other name) (depth : Nat) :
    view.zoneAt store name depth = view'.zoneAt other name depth := by
  cases depth with
  | zero => rfl
  | succ depth => simp only [zoneAt, h]

theorem depth_congr (h : view.path store name = view'.path other name) :
    view.depth store name = view'.depth other name :=
  congrArg List.length h

/-- A wildcard that covers a question does so wherever the way and the records at its end are the
same. -/
theorem Covers.congr (h : view.Covers store question)
    (hpath : view.path store question.name = view'.path other question.name)
    (hkept : ∀ type,
      view'.kept other (view.zoneAt store question.name (view.depth store question.name)) type =
        view.kept store (view.zoneAt store question.name (view.depth store question.name)) type) :
    view'.Covers other question where
  below := by
    have hbelow := h.below
    unfold Exists at hbelow ⊢
    rwa [← depth_congr hpath]
  star := by
    have hstar := h.star
    unfold EndsInStar at hstar ⊢
    rwa [← hpath]
  holds := by
    have hholds := h.holds
    unfold Holds at hholds ⊢
    rwa [← depth_congr hpath, ← zoneAt_congr hpath, hkept]

end Zone.View

namespace Resolver

open Zone (Store View Tree Relations Mirrors)

variable {σ : Type} [Store σ] {view : View σ} {store : σ} {limit : Nat} {type : RecordType}
variable {name owner : Name} {query : Message} {rdata : Rdata Name} {zone : ZoneId}
variable {records before after : List Record}

/-- What becomes of the answer of a wildcard when a payload is stored outside. It is gone when the
payload refers to the name, or to one that meets its way, and else it is what it was. -/
structure Hides (view : View σ) (store : σ) (name : Name) (rdata : Rdata Name)
    (before after : List Record) : Prop where
  mentioned : ∀ target ∈ rdata.references, target.SameAs name → after = []
  met : ∀ target ∈ rdata.references, view.Meets store name target → after = []
  spared : (∀ target ∈ rdata.references, ¬view.Meets store name target) → after = before

/-! ## Answers -/

/-- At a node without records nothing is found, and no alias either. -/
theorem answer_eq_nil (hlimit : 1 ≤ limit) (h : Answers view store limit name type records)
    (hany : type ≠ .any)
    (hnone : ∀ type, view.kept store (view.zoneAt store name (view.depth store name)) type = []) :
    records = [] := by
  by_cases hthere : view.Exists store name ∨ view.EndsInStar store name
  · by_cases hcname : type = .cname
    · exact (eq_nil_iff_of_lists hlimit (h.stored hany hthere (Or.inr hcname))).2 (hnone type)
    · rcases h.follows hany hthere (not_not_intro (hnone type)) hcname with ⟨-, hempty⟩ |
        ⟨_, _, _, _, hhead, -⟩
      · exact hempty
      · rw [hnone] at hhead
        cases hhead
  · rw [not_or] at hthere
    exact h.missing hany hthere.1 hthere.2

/-- Records of any type at once are never stored. -/
theorem ne_any_of_holds {depth : Nat} (h : view.Holds store name type depth) : type ≠ .any := by
  rintro rfl
  exact h (kept_of_unsupported (by decide))

/-- The wildcard that covers a question answers it. -/
theorem lists_of_covers (hnames : view.Names store) (hmarked : view.Marked store)
    (hlimit : 1 ≤ limit) {response : Message} (hcovers : view.Covers store query.question)
    (h : respond store limit query = .ok response) :
    view.Lists store limit (view.zoneAt store query.question.name
        (view.depth store query.question.name)) query.question.name query.question.type
      response.answer ∧ response.answer ≠ [] := by
  have hlists := (answers_of_respond hnames hmarked hlimit h).stored (ne_any_of_holds hcovers.holds)
    (Or.inr hcovers.star) (Or.inl hcovers.holds)
  exact ⟨hlists, mt (eq_nil_iff_of_lists hlimit hlists).1 hcovers.holds⟩

theorem lists_unique {other : List Record} (h : view.Lists store limit zone owner type records)
    (h' : view.Lists store limit zone owner type other) : records = other := by
  rcases h with ⟨payloads, hpayloads, rfl⟩
  rcases h' with ⟨payloads', hpayloads', rfl⟩
  rw [hpayloads] at hpayloads'
  rw [Except.ok.inj hpayloads']

/-- A name meets its own way. -/
theorem meets_of_sameAs {target : Name} (h : target.SameAs name) : view.Meets store name target := by
  unfold View.Meets Name.SameAs
  rw [Name.folded_ending, Name.folded_ending, show target.folded = name.folded from h]

/-! ## Trees -/

section Stored

variable {tree next : Tree} {settled : Name} {stored : Rdata Name} {question : Question}

/-- The nodes of the tree stay as they are. -/
theorem keeps_of_stores (hstores : tree.Stores owner false rdata settled stored next) :
    tree.Keeps next :=
  hstores.plants.keeps (List.forall_mem_cons.2 ⟨rfl, List.forall_mem_map.2 fun _ _ => rfl⟩)

/-- What was listed of a zone is listed of it while its records and all nodes stay. -/
theorem lists_keeps (h : next.Sound) (hkeeps : tree.Keeps next)
    (hrecords : next.recordsAt zone = tree.recordsAt zone)
    (hlists : Tree.view.Lists tree limit zone owner type records) :
    Tree.view.Lists next limit zone owner type records := by
  rcases hlists with ⟨payloads, hpayloads, rfl⟩
  refine ⟨payloads, ?_, rfl⟩
  change (((next.recordsAt zone).filter _).take limit).mapM next.withNames = _
  rw [hrecords]
  exact mapM_of_forall₂ ((forall₂_of_mapM hpayloads).imp fun _ _ => h.withNames_keeps hkeeps)

/-! ### The wildcard -/

variable (h : tree.Sound) (hcovers : Tree.view.Covers tree question)

include h hcovers

theorem depth_lt_of_covers :
    Tree.view.depth tree question.name < question.name.labels.length := by
  rcases h.resolve_total question.name with ⟨resolved, hresolve⟩
  have hresolved : ResolvesTo Tree.view tree question.name resolved :=
    resolvesTo_of_resolve _ hresolve
  exact Nat.lt_of_le_of_ne hresolved.depth_le hcovers.below

/-- A target meets the way to the name when it ends with the first label that has no node. -/
theorem meets_iff {target : Name} : Tree.view.Meets tree question.name target ↔
    (question.name.ending (Tree.view.depth tree question.name + 1)).folded <:+ target.folded :=
  Name.ending_sameAs_iff (depth_lt_of_covers h hcovers)

/-! ### An owner outside -/

variable (houtside : Tree.view.Outside tree question.name owner)

include houtside

/-- No owner outside has a name below the wildcard. -/
theorem not_suffix_of_outside :
    ¬(question.name.ending (Tree.view.depth tree question.name)).folded <:+ owner.folded := by
  intro hsuffix
  rcases hcovers.star with ⟨node, hlast, -⟩
  have hmem := (h.path_prefix hsuffix).subset (List.mem_of_getLast? hlast)
  exact houtside node hmem (View.zoneAt_depth hlast).symm

/-- Below the wildcard nothing but the references of the payload is planted. -/
theorem planted_of_outside {plant : Site × Bool} (hplant : plant ∈ (owner.folded, false) ::
      rdata.references.map fun target => (target.folded, false))
    (hsuffix : (question.name.ending (Tree.view.depth tree question.name + 1)).folded <:+ plant.1) :
    ∃ target ∈ rdata.references, plant.1 = target.folded := by
  rcases List.mem_cons.1 hplant with rfl | hmem
  · have hshorter := question.name.ending_suffix_ending
      (Nat.le_succ (Tree.view.depth tree question.name))
    exact absurd (hshorter.trans hsuffix) (not_suffix_of_outside h hcovers houtside)
  · rcases List.mem_map.1 hmem with ⟨target, htarget, rfl⟩
    exact ⟨target, htarget, rfl⟩

/-! ### The payload is stored -/

variable (hstores : tree.Stores owner false rdata settled stored next)

include hstores

/-- The payload is not stored on the way to the name, at the wildcard or below. -/
theorem recordsAt_of_outside {count : Nat} (hcount : Tree.view.depth tree question.name ≤ count)
    (hat : next.At zone (question.name.ending count).folded) :
    next.recordsAt zone = tree.recordsAt zone := by
  rw [hstores.recordsAt, if_neg]
  rintro rfl
  -- An owner that was settled at this site would have a name that ends with that of the wildcard.
  have howner := hstores.settled.at.unique hat
  rw [Name.folded, hstores.labels] at howner
  refine not_suffix_of_outside h hcovers houtside ?_
  rw [show owner.folded = (question.name.ending count).folded from howner]
  exact question.name.ending_suffix_ending hcount

/-- When a reference meets the way to the name, nothing is kept at the node where it ends then. -/
theorem kept_of_met {target : Name} (htarget : target ∈ rdata.references)
    (hmet : Tree.view.Meets tree question.name target) (type : RecordType) :
    Tree.view.kept next (Tree.view.zoneAt next question.name
      (Tree.view.depth next question.name)) type = [] := by
  rcases hstores.plants.deepest_new h (depth_lt_of_covers h hcovers)
    (List.mem_cons_of_mem _ (List.mem_map_of_mem htarget)) ((meets_iff h hcovers).1 hmet) with
    ⟨hdeeper, hnew⟩
  -- What is kept there now was kept before, when there was no such node.
  have hrecords := recordsAt_of_outside h hcovers houtside hstores (Nat.le_of_lt hdeeper)
    (hstores.plants.sound.at_deepest question.name)
  change (next.recordsAt _).filter _ = []
  rw [hrecords, h.recordsAt_eq_nil hnew, List.filter_nil]

/-- When none does, the way to the name is what it was. -/
theorem path_of_spared
    (hspared : ∀ target ∈ rdata.references, ¬Tree.view.Meets tree question.name target) :
    Tree.view.path next question.name = Tree.view.path tree question.name := by
  refine hstores.plants.path_eq h (keeps_of_stores hstores) (depth_lt_of_covers h hcovers) ?_
  intro plant hplant hsuffix
  rcases planted_of_outside h hcovers houtside hplant hsuffix with ⟨target, htarget, hsite⟩
  exact hspared target htarget ((meets_iff h hcovers).2 (hsite ▸ hsuffix))

end Stored

/-! ### The answers before and after -/

section Answered

variable {tree next : Tree} {settled : Name} {stored : Rdata Name} {response response' : Message}
variable (h : tree.Sound) (hlimit : 1 ≤ limit) (hcovers : Tree.view.Covers tree query.question)
variable (houtside : Tree.view.Outside tree query.question.name owner)
variable (hstores : tree.Stores owner false rdata settled stored next)
variable (hbefore : respond tree limit query = .ok response)
variable (hafter : respond next limit query = .ok response')

include h hlimit hcovers houtside hstores hbefore hafter

/-- When none does, the wildcard answers as it did. -/
theorem answer_of_spared
    (hspared : ∀ target ∈ rdata.references, ¬Tree.view.Meets tree query.question.name target) :
    response'.answer = response.answer := by
  have hpath := path_of_spared h hcovers houtside hstores hspared
  have hzone := (View.zoneAt_congr hpath (Tree.view.depth next query.question.name)).trans
    (congrArg _ (View.depth_congr hpath))
  have hrecords := recordsAt_of_outside h hcovers houtside hstores (Nat.le_refl _)
    (hstores.plants.stays _ _ (h.at_deepest query.question.name))
  -- So the wildcard covers the question still, and the same payloads are listed of it.
  have hnext : Tree.view.Covers next query.question := by
    refine hcovers.congr hpath.symm fun type => ?_
    change (next.recordsAt _).filter _ = (tree.recordsAt _).filter _
    rw [hrecords]
  have hold := (lists_of_covers tree.names tree.marked hlimit hcovers hbefore).1
  have hnew := (lists_of_covers next.names next.marked hlimit hnext hafter).1
  rw [hzone] at hnew
  exact lists_unique hnew
    (lists_keeps hstores.plants.sound (keeps_of_stores hstores) hrecords hold)

/-- What storing a payload outside makes of the answer of a wildcard. -/
theorem hides_of_stores :
    Hides Tree.view tree query.question.name rdata response.answer response'.answer := by
  have hmet : ∀ target ∈ rdata.references,
      Tree.view.Meets tree query.question.name target → response'.answer = [] := by
    intro target htarget hmeets
    exact answer_eq_nil hlimit (answers_of_respond next.names next.marked hlimit hafter)
      (ne_any_of_holds hcovers.holds) (kept_of_met h hcovers houtside hstores htarget hmeets)
  exact ⟨fun target htarget hsame => hmet target htarget (meets_of_sameAs hsame), hmet,
    fun hspared => answer_of_spared h hlimit hcovers houtside hstores hbefore hafter hspared⟩

end Answered

/-! ## Administered stores -/

/-- Storing a payload succeeds, the question is answered before and after, before by the wildcard,
and the answer is hidden as the payload demands. -/
def Hiding (view : View σ) (store : σ) (limit : Nat) (query : Message) (owner : Name)
    (rdata : Rdata Name) : Prop :=
  ∃ record next before after,
    (Zone.Admin.addRecord owner rdata).perform store = (.ok record, next) ∧
    respond store limit query = .ok before ∧ respond next limit query = .ok after ∧
    view.Lists store limit (view.zoneAt store query.question.name
      (view.depth store query.question.name)) query.question.name query.question.type
      before.answer ∧ before.answer ≠ [] ∧
    Hides view store query.question.name rdata before.answer after.answer

theorem readsSucceed_of_standing {tree : Tree} {zones : List ZoneId} (h : tree.Standing zones) :
    ReadsSucceed tree where
  resolve := h.sound.resolve_total
  records := h.sound.records_succeed h.grounded

theorem standing_of_addRecord {tree next : Tree} {record : Record} (h : tree.Standing [])
    (hperform : (Zone.Admin.addRecord owner rdata).perform tree = (.ok record, next)) :
    next.Standing [] := by
  have hensures := Tree.addAt_ensures owner false rdata tree h
  rw [show (Zone.Admin.addAt owner false rdata).perform tree = _ from hperform] at hensures
  exact hensures

/-- A tree hides the answer of a wildcard when its references have names. -/
theorem hiding_of_standing {tree : Tree} (rdata : Rdata Name) (h : tree.Standing [])
    (hlimit : 1 ≤ limit) (hcovers : Tree.view.Covers tree query.question)
    (houtside : Tree.view.Outside tree query.question.name owner) :
    Hiding Tree.view tree limit query owner rdata := by
  have hplain : owner.isRoot = true → false = false := fun _ => rfl
  rcases h.sound.addAt_stores rdata hplain with ⟨settled, stored, next, hperform, hstores⟩
  rcases respond_succeeds (readsSucceed_of_standing h) limit query with ⟨before, hbefore⟩
  rcases respond_succeeds (readsSucceed_of_standing (standing_of_addRecord h hperform)) limit query
    with ⟨after, hafter⟩
  rcases lists_of_covers tree.names tree.marked hlimit hcovers hbefore with ⟨hlists, hanswered⟩
  exact ⟨_, next, before, after, hperform, hbefore, hafter, hlists, hanswered,
    hides_of_stores h.sound hlimit hcovers houtside hstores hbefore hafter⟩

/-- Rows hide the answer of a wildcard as the tree does that they mirror. -/
theorem hiding_of_mirrors {held asked : Label → Prop} {tree : Tree} {rows : Relations}
    (h : Mirrors held tree rows) (hascii : Relations.ComparesAscii held asked)
    (hstanding : tree.Standing []) (hlimit : 1 ≤ limit) (hname : query.question.name.Among asked)
    (howner : owner.Among held) (hrefers : ∀ target ∈ rdata.references, target.Among held)
    (hcovers : Relations.view.Covers rows query.question)
    (houtside : Relations.view.Outside rows query.question.name owner) :
    Hiding Relations.view rows limit query owner rdata := by
  have hpath {name : Name} (hname : name.Among asked) :
      Relations.view.path rows name = Tree.view.path tree name :=
    (h.walk_eq hascii (fun label hlabel => hname label (List.mem_reverse.1 hlabel)) _).symm
  have hdepth := View.depth_congr (hpath hname)
  have hzone := (View.zoneAt_congr (hpath hname)
    (Relations.view.depth rows query.question.name)).trans (congrArg _ hdepth)
  have hcovers' := hcovers.congr (hpath hname) fun type => (h.kept_eq _ type).symm
  have houtside' : Tree.view.Outside tree query.question.name owner := by
    have hasked : owner.Among asked := fun label hlabel =>
      hascii.asked_of_held label (howner label hlabel)
    unfold View.Outside at houtside ⊢
    rwa [hpath hasked, hzone] at houtside
  rcases hiding_of_standing rdata hstanding hlimit hcovers' houtside' with
    ⟨record, next, before, after, hperform, hbefore, hafter, -, -, hhides⟩
  -- The payload is stored in both, and what is left mirrors each other and answers alike.
  have houtcomes := Zone.addAt_tandem hascii howner false hrefers tree rows h
  rw [show (Zone.Admin.addAt owner false rdata).perform tree = _ from hperform] at houtcomes
  generalize hperform' : (Zone.Admin.addAt owner false rdata).perform rows = outcome at houtcomes
  cases houtcomes with
  | @ok _ record' _ next' hrecord hnext =>
      have hgrounded := (standing_of_addRecord hstanding hperform).grounded
      rw [h.respond_eq hascii hstanding.grounded limit hname] at hbefore
      rw [hnext.respond_eq hascii hgrounded limit hname] at hafter
      rcases lists_of_covers rows.names h.distinct.marked hlimit hcovers hbefore with
        ⟨hlists, hanswered⟩
      refine ⟨record', next', before, after, hperform', hbefore, hafter, hlists, hanswered,
        hhides.mentioned, ?_, ?_⟩
      · intro target htarget hmeets
        unfold View.Meets at hmeets
        rw [hdepth] at hmeets
        exact hhides.met target htarget hmeets
      · intro hspared
        unfold View.Meets at hspared
        rw [hdepth] at hspared
        exact hhides.spared hspared

theorem standing_serve {tree : Tree} (h : tree.Standing []) (requests : List Zone.Admin.Request) :
    (Zone.Admin.serve requests tree).2.Standing [] := by
  induction requests generalizing tree with
  | nil => exact h
  | cons request requests ih =>
      have hafter := Tree.standing_after h request
      rw [← request.perform_serve] at hafter
      exact ih hafter

/-- Whatever was asked of a store that was empty at first, storing a payload outside a wildcard hides
the answers that the wildcard gave to the names which the payload's references meet, and no others.
Rows must tell the labels apart as the tree does. -/
theorem mentioning :
    (∀ startedAt requests limit query owner rdata, 1 ≤ limit →
      let tree := (Zone.Admin.serve requests (Tree.empty startedAt)).2
      Tree.view.Covers tree query.question → Tree.view.Outside tree query.question.name owner →
        Hiding Tree.view tree limit query owner rdata) ∧
    (∀ held asked, Relations.ComparesAscii held asked → ∀ startedAt requests limit query owner rdata,
      (∀ request ∈ requests, request.Among held asked) → query.question.name.Among asked →
      Zone.Admin.Request.Among held asked (.addRecord owner rdata) → 1 ≤ limit →
      let rows := (Zone.Admin.serve requests (Relations.empty startedAt)).2
      Relations.view.Covers rows query.question →
        Relations.view.Outside rows query.question.name owner →
        Hiding Relations.view rows limit query owner rdata) := by
  constructor
  · intro startedAt requests limit query owner rdata hlimit tree hcovers houtside
    exact hiding_of_standing rdata (standing_serve (Tree.standing_empty startedAt) requests) hlimit
      hcovers houtside
  · intro held asked hascii startedAt requests limit query owner rdata hrequests hname hadd hlimit
      rows hcovers houtside
    rcases (Zone.mirrors_empty held startedAt startedAt).serve hascii
      (Tree.standing_empty startedAt) hrequests with ⟨-, hmirrors, hstanding⟩
    exact hiding_of_mirrors hmirrors hascii hstanding hlimit hname hadd.1 hadd.2 hcovers houtside

/-! ## A wildcard and a name below it -/

/-- A wildcard `kin` that has an address. -/
def starRequests : List Zone.Admin.Request := [
  .addName Zone.sampleName.toPlain true, .addRecord Zone.sampleName.toPlain (.a 60 ⟨10, 0, 0, 1⟩)]

def starTree : Tree :=
  (Zone.Admin.serve starRequests (Tree.empty ⟨0, 0⟩)).2

/-- A query for the address of `gate.kin`. -/
def hostQuery : Message :=
  .query 1 false ⟨Zone.sampleHost, .a⟩

theorem covers_starTree : Tree.view.Covers starTree hostQuery.question where
  below := by
    unfold View.Exists
    decide +kernel
  star := ⟨⟨1, true⟩, by decide +kernel, rfl⟩
  holds := by
    unfold View.Holds
    decide +kernel

theorem outside_starTree : Tree.view.Outside starTree hostQuery.question.name Name.root :=
  fun _ hnode => absurd hnode List.not_mem_nil

/-- When `gate.kin` becomes the exchange of the root, it loses the address of the wildcard. -/
theorem mentioning_starTree :
    ∃ next before after,
      ((Zone.Admin.addRecord Name.root (.mx 60 10 Zone.sampleHost)).perform starTree).2 = next ∧
      respond starTree defaultLimit hostQuery = .ok before ∧
      respond next defaultLimit hostQuery = .ok after ∧
      before.answer ≠ [] ∧ after.answer = [] := by
  rcases mentioning.1 ⟨0, 0⟩ starRequests defaultLimit hostQuery Name.root
    (.mx 60 10 Zone.sampleHost) (by decide) covers_starTree outside_starTree with
    ⟨record, next, before, after, hperform, hbefore, hafter, -, hanswered, hhides⟩
  refine ⟨next, before, after, congrArg Prod.snd hperform, hbefore, hafter, hanswered, ?_⟩
  exact hhides.mentioned Zone.sampleHost List.mem_cons_self rfl

/-- So it is not true that a wildcard keeps the answers to the names that are mentioned. -/
theorem mention_hides :
    ¬∀ startedAt requests limit query owner rdata, 1 ≤ limit →
      let tree := (Zone.Admin.serve requests (Tree.empty startedAt)).2
      Tree.view.Covers tree query.question → Tree.view.Outside tree query.question.name owner →
        (∃ target ∈ rdata.references, target.SameAs query.question.name) →
        ∀ record next before after,
          (Zone.Admin.addRecord owner rdata).perform tree = (.ok record, next) →
          respond tree limit query = .ok before → respond next limit query = .ok after →
          after.answer = before.answer := by
  intro hkept
  have hstanding : starTree.Standing [] :=
    standing_serve (Tree.standing_empty ⟨0, 0⟩) starRequests
  have hmentioned : ∃ target ∈ (Rdata.mx 60 10 Zone.sampleHost).references,
      target.SameAs hostQuery.question.name := ⟨Zone.sampleHost, List.mem_cons_self, rfl⟩
  have hlimit : 1 ≤ defaultLimit := by decide
  rcases hiding_of_standing (.mx 60 10 Zone.sampleHost) hstanding hlimit covers_starTree
    outside_starTree with
    ⟨record, next, before, after, hperform, hbefore, hafter, -, hanswered, hhides⟩
  have hsame := hkept ⟨0, 0⟩ starRequests defaultLimit hostQuery Name.root _ hlimit
    covers_starTree outside_starTree hmentioned record next before after hperform hbefore hafter
  rw [hhides.mentioned Zone.sampleHost List.mem_cons_self rfl] at hsame
  exact hanswered hsame.symm

end Resolver
end NameServer
