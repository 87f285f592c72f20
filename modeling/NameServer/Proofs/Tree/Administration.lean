import NameServer.Proofs.Tree.References
import NameServer.Zone.Admin

/-!
# Proofs.Tree.Administration — administered trees

The administration never stores a name that is not there: what a record refers to is created just
before the record is stored. So in a tree that is only changed by it, all references have names,
whatever it is asked for and wherever a request breaks off.

* `Change.Ensures` — what a change makes of the states that it meets, with a rule for each way to
  build changes;
* `Tree.Standing` — a sound and grounded tree in which some zones have names;
* `Tree.addName_ensures`, `Tree.addTargets_ensures`, `Tree.addAt_ensures` — names that are added have
  one, and records are stored with such names;
* `Admin.Request` and `Tree.standing_after` — every request leaves a tree standing.
-/

namespace NameServer
namespace Zone

/-! ## What changes ensure -/

namespace Change

variable {σ α β : Type} {pre fail : σ → Prop} {post : α → σ → Prop} {post' : β → σ → Prop}

theorem perform_bind (change : Change σ α) (f : α → Change σ β) (store : σ) :
    (change >>= f).perform store =
      match change.perform store with
      | (.ok a, next) => (f a).perform next
      | (.error fault, next) => (.error fault, next) := by
  change ExceptT.bindCont f (change.perform store).1 (change.perform store).2 = _
  cases change.perform store with
  | mk outcome next => cases outcome <;> rfl

/-- From states with `pre` on, the change yields values with `post`, and where it fails it leaves
states with `fail`. -/
def Ensures (pre : σ → Prop) (change : Change σ α) (post : α → σ → Prop) (fail : σ → Prop) : Prop :=
  ∀ store, pre store →
    match change.perform store with
    | (.ok a, next) => post a next
    | (.error _, next) => fail next

namespace Ensures

theorem pure (a : α) (h : ∀ store, pre store → post a store) :
    Ensures pre (Pure.pure a : Change σ α) post fail :=
  h

theorem throw (fault : Fault) (h : ∀ store, pre store → fail store) :
    Ensures pre (MonadExcept.throw fault : Change σ α) post fail :=
  h

theorem bind {mid : α → σ → Prop} {change : Change σ α} {f : α → Change σ β}
    (h : Ensures pre change mid fail) (hnext : ∀ a, Ensures (mid a) (f a) post' fail) :
    Ensures pre (change >>= f) post' fail := by
  intro store hpre
  rw [perform_bind]
  have hfirst := h store hpre
  cases hperform : change.perform store with
  | mk outcome next =>
      rw [hperform] at hfirst
      cases outcome with
      | error fault => exact hfirst
      | ok a => exact hnext a next hfirst

theorem imp {pre' fail' : σ → Prop} {change : Change σ α} (h : Ensures pre change post fail)
    (hpre : ∀ store, pre' store → pre store) (hfail : ∀ store, fail store → fail' store) :
    Ensures pre' change post fail' := by
  intro store hstore
  have hafter := h store (hpre store hstore)
  cases hperform : change.perform store with
  | mk outcome next =>
      rw [hperform] at hafter
      cases outcome with
      | error fault => exact hfail next hafter
      | ok a => exact hafter

theorem imp_post {post' : α → σ → Prop} {change : Change σ α} (h : Ensures pre change post fail)
    (hpost : ∀ a store, post a store → post' a store) : Ensures pre change post' fail := by
  intro store hstore
  have hafter := h store hstore
  cases hperform : change.perform store with
  | mk outcome next =>
      rw [hperform] at hafter
      cases outcome with
      | error fault => exact hafter
      | ok a => exact hpost a next hafter

/-- A look ensures what is known of a value that is seen. -/
theorem ask {f : σ → Except Fault α} (h : ∀ store a, pre store → f store = .ok a → post a store)
    (hfail : ∀ store, pre store → fail store) : Ensures pre (ask f) post fail := by
  intro store hpre
  change match (f store, store) with
    | (.ok a, next) => post a next
    | (.error _, next) => fail next
  cases hf : f store with
  | error fault => exact hfail store hpre
  | ok a => exact h store a hpre hf

/-- A look changes nothing. -/
theorem look {f : σ → Except Fault α} (h : ∀ store, pre store → fail store) :
    Ensures pre (Change.ask f) (fun _ => pre) fail :=
  ask (fun _ _ hpre _ => hpre) h

/-- A step ensures what it makes of a state when it happens. -/
theorem step {f : σ → Except Fault (α × σ)}
    (h : ∀ store a next, pre store → f store = .ok (a, next) → post a next)
    (hfail : ∀ store, pre store → fail store) : Ensures pre (step f) post fail := by
  intro store hpre
  cases hf : f store with
  | error fault =>
      rw [perform_step_error hf]
      exact hfail store hpre
  | ok result =>
      rw [perform_step_ok hf]
      exact h store result.1 result.2 hpre hf

/-- What is ensured whatever a witness is, is ensured when there is one. -/
theorem exists_pre {ι : Type} {pre : ι → σ → Prop} {change : Change σ α}
    (h : ∀ i, Ensures (pre i) change post fail) :
    Ensures (fun store => ∃ i, pre i store) change post fail :=
  fun store ⟨i, hpre⟩ => h i store hpre

/-- What does not depend on the state may be assumed. -/
theorem and_pre {φ : Prop} {change : Change σ α} (h : φ → Ensures pre change post fail) :
    Ensures (fun store => φ ∧ pre store) change post fail :=
  fun store ⟨hφ, hpre⟩ => h hφ store hpre

/-- What holds after a change whether it succeeds or fails. -/
theorem after {change : Change σ α} (h : Ensures pre change (fun _ => fail) fail) {store : σ}
    (hpre : pre store) : fail (change.perform store).2 := by
  have hafter := h store hpre
  cases hperform : change.perform store with
  | mk outcome next =>
      rw [hperform] at hafter
      cases outcome <;> exact hafter

end Ensures

end Change

/-! ## Requests -/

namespace Admin

variable {σ : Type} [Store σ]

/-- What the administration can be asked for. -/
inductive Request
  | addName (name : Name) (wildcard : Bool)
  | addRecord (owner : Name) (rdata : Rdata Name)
  | addEntry (entry : ZoneEntry)
  | find (name : Name)
  | findZone (name : Name)
  | listChildren (zone : ZoneId)
  | listRecords (zone : ZoneId) (types : List RecordType)
  | statistics
  | deleteRecords (zone : ZoneId) (type : RecordType)
  | deleteZone (zone : ZoneId)

/-- What a request does to a store; its answer goes to the one who asked. -/
def Request.change : Request → Change σ Unit
  | addName name wildcard => do let _ ← Admin.addName name wildcard; return
  | addRecord owner rdata => do let _ ← Admin.addRecord owner rdata; return
  | addEntry entry => do let _ ← Admin.addEntry entry; return
  | find name => do let _ ← Change.ask fun store => Admin.find store name; return
  | findZone name => do let _ ← Change.ask fun store => Admin.findZone store name; return
  | listChildren zone => do let _ ← Change.ask fun store => .ok (Store.children store zone); return
  | listRecords zone types => do
    let _ ← Change.ask fun store => Admin.listRecords store zone types
    return
  | statistics => do let _ ← Change.ask fun store => Store.statistics store; return
  | deleteRecords zone type => do let _ ← Admin.deleteRecords zone type; return
  | deleteZone zone => Admin.deleteZone zone

end Admin

namespace Tree

open Change (Ensures)

variable {tree next : Tree} {zones : List ZoneId} {zone parent : ZoneId}

/-! ## Standing trees -/

/-- The tree is sound, its references have names, and so have some zones. -/
structure Standing (zones : List ZoneId) (tree : Tree) : Prop where
  sound : tree.Sound
  grounded : tree.Grounded
  named : ∀ zone ∈ zones, tree.HasName zone

theorem Standing.mono {fewer : List ZoneId} (h : tree.Standing zones) (hsub : fewer ⊆ zones) :
    tree.Standing fewer :=
  ⟨h.sound, h.grounded, fun zone hzone => h.named zone (hsub hzone)⟩

theorem Standing.cons (h : tree.Standing zones) (hzone : tree.HasName zone) :
    tree.Standing (zone :: zones) :=
  ⟨h.sound, h.grounded, List.forall_mem_cons.2 ⟨hzone, h.named⟩⟩

theorem standing_empty (startedAt : Timestamp) : (empty startedAt).Standing [] :=
  ⟨sound_empty startedAt, grounded_empty startedAt, nofun⟩

/-- A call that deletes no node, and stores no record with names that are not there, leaves a tree
standing. -/
theorem Standing.steps (h : tree.Standing zones) {call : Call} {outcome : Except Fault Answer}
    (hsteps : tree.Steps call outcome next) (hkeeps : ∀ gone, call ≠ .deleteNode gone)
    (hnew : ∀ zone rdata, call = .addRecord zone rdata → ∀ target ∈ rdata.references,
      target.zoneId ∈ zones) : next.Standing zones where
  sound := h.sound.steps hsteps
  grounded := h.grounded.steps h.sound hsteps fun zone rdata hcall target htarget =>
    h.named _ (hnew zone rdata hcall target htarget)
  named zone hzone := (h.named zone hzone).steps h.sound hsteps fun hcall =>
    absurd hcall (hkeeps zone)

/-! ## Adding names -/

theorem addNode_ensures (parent : ZoneId) (label : Label) (wildcard : Bool) (front : List Label) :
    Ensures (fun tree => tree.Standing zones ∧ tree.Spells parent front)
      (Store.addNode parent label wildcard : Change Tree ZoneId)
      (fun id tree => tree.Standing zones ∧ tree.Spells id (label :: front))
      (Standing zones) := by
  refine Ensures.step (f := fun tree : Tree => tree.addNode parent label wildcard) ?_
    fun _ hpre => hpre.1
  rintro tree id next ⟨hstanding, hspells⟩ hadd
  have hadds := adds_of_addNode hadd
  have hsteps := Steps.adds hadds
  have hnext : next.Standing zones := hstanding.steps hsteps (fun _ => nofun) fun _ _ => nofun
  rcases hspells.steps hstanding.sound hsteps nofun with ⟨path, hclimb, hlabels⟩
  have hnode : next.nodes[id]? = some ⟨label, parent, wildcard⟩ := by
    rw [hadds.node, if_pos rfl]
  have hne : id ≠ rootZone := Int.ne_of_gt (hnext.sound.id_pos id _ hnode)
  refine ⟨hnext, (id, ⟨label, parent, wildcard⟩) :: path, Climb.node hne hnode hclimb, ?_⟩
  rw [← hlabels]
  rfl

/-- Nodes that are added one below the other spell their labels in front of those of the zone they
are added to. -/
theorem addBelow_ensures (wildcard : Bool) (labels : List Label) (parent : ZoneId)
    (front : List Label) :
    Ensures (fun tree => tree.Standing zones ∧ tree.Spells parent front)
      (Admin.addBelow parent wildcard labels : Change Tree (List ZoneNode))
      (fun nodes tree => tree.Standing zones ∧
        tree.Spells (Name.lastId parent nodes) (labels.reverse ++ front))
      (Standing zones) := by
  induction labels generalizing parent front with
  | nil => exact Ensures.pure [] fun _ hpre => hpre
  | cons label labels ih =>
      unfold Admin.addBelow
      refine Ensures.bind (addNode_ensures parent label _ front) fun id => ?_
      refine Ensures.bind (ih id (label :: front)) fun nodes => ?_
      refine Ensures.pure _ fun tree hpost => ?_
      rw [Name.lastId_cons, List.reverse_cons, List.append_assoc]
      exact hpost

theorem lastId_markLast (zone : ZoneId) (nodes : List ZoneNode) :
    Name.lastId zone (Admin.markLast nodes) = Name.lastId zone nodes := by
  induction nodes generalizing zone with
  | nil => rfl
  | cons node nodes ih =>
      cases nodes with
      | nil => rfl
      | cons other nodes =>
          rw [Admin.markLast, Name.lastId_cons, Name.lastId_cons]
          · exact ih node.id
          · simp

/-- A name with nodes that end at a zone with a name. -/
theorem attach_ensures {pre : Tree → Prop} {name : Name} {nodes : List ZoneNode}
    (h : ∀ tree, pre tree → tree.Standing zones ∧ tree.HasName (Name.lastId rootZone nodes)) :
    Ensures pre (Admin.attach name nodes)
      (fun resolved tree => tree.Standing (resolved.zoneId :: zones)) (Standing zones) := by
  refine Ensures.ask ?_ fun tree hpre => (h tree hpre).1
  intro tree resolved hpre hresolved
  rcases h tree hpre with ⟨hstanding, hname⟩
  cases hresolve : name.resolve nodes with
  | error e =>
      rw [hresolve] at hresolved
      cases hresolved
  | ok found =>
      rw [hresolve] at hresolved
      cases hresolved
      rw [Name.zoneId_eq_lastId, Name.nodes_of_form (Name.labels_of_resolve hresolve).2]
      exact hstanding.cons hname

/-- The deepest node of a name spells the labels that were found. -/
theorem resolve_ensures (name : Name) :
    Ensures (Standing zones) (Change.ask fun tree : Tree => Store.resolve tree name)
      (fun resolved tree => ∃ spelled, spelled.map Label.folded =
          (name.labels.drop (name.labels.length - resolved.resolvedCount)).map Label.folded ∧
        tree.Standing (resolved.zoneId :: zones) ∧ tree.Spells resolved.zoneId spelled)
      (Standing zones) := by
  refine Ensures.ask ?_ fun _ hpre => hpre
  intro tree resolved hpre hresolve
  rcases hpre.sound.spells_of_resolve hresolve with ⟨-, spelled, hspells, hfolded⟩
  exact ⟨spelled, hfolded, hpre.cons (hpre.sound.hasName_of_resolve hresolve), hspells⟩

theorem setWildcard_ensures (zone : ZoneId) (wildcard : Bool) :
    Ensures (Standing zones) (Store.setWildcard zone wildcard : Change Tree Unit)
      (fun _ tree => tree.Standing zones) (Standing zones) := by
  refine Ensures.step (f := fun tree : Tree => tree.setWildcard zone wildcard) ?_
    fun _ hpre => hpre
  intro tree done next hpre hmark
  exact hpre.steps (Steps.marks (marks_of_setWildcard hmark)) (fun _ => nofun) fun _ _ => nofun

/-- A zone that spells the labels that a name lacks in front of those that were found has a name. -/
theorem hasName_of_spells {name : Name} {count : Nat} {spelled : List Label}
    (hfolded : spelled.map Label.folded = (name.labels.drop count).map Label.folded)
    (hspells : tree.Spells zone (name.labels.take count ++ spelled)) : tree.HasName zone := by
  refine ⟨_, hspells, ?_⟩
  have hsize := name.size_le
  unfold Name.wireSize at hsize ⊢
  rw [Name.literalSize_append, Name.literalSize_congr hfolded, ← Name.literalSize_append,
    List.take_append_drop]
  exact hsize

/-- A name that is added has nodes that spell it. -/
theorem addName_ensures (name : Name) (wildcard : Bool) :
    Ensures (Standing zones) (Admin.addName name wildcard)
      (fun added tree => tree.Standing (added.zoneId :: zones)) (Standing zones) := by
  unfold Admin.addName
  split
  · split
    · exact Ensures.throw _ fun _ hpre => hpre
    · exact attach_ensures fun tree hpre => ⟨hpre, tree.hasName_root⟩
  · refine Ensures.bind (resolve_ensures name) fun resolved => ?_
    refine Ensures.exists_pre fun spelled => Ensures.and_pre fun hfolded => ?_
    dsimp only
    split
    · split
      · -- The nodes are there, and the last of them gets the mark.
        refine Ensures.bind ((setWildcard_ensures resolved.zoneId true).imp
          (fun _ hpre => hpre.1) fun _ hfail => hfail.mono (List.subset_cons_self _ _))
          fun _ => attach_ensures fun tree hpre => ?_
        rw [lastId_markLast, ← Name.zoneId_eq_lastId]
        exact ⟨hpre.mono (List.subset_cons_self _ _), hpre.named _ List.mem_cons_self⟩
      · exact Ensures.pure _ fun _ hpre => hpre.1
    · refine Ensures.bind ((addBelow_ensures wildcard _ resolved.zoneId spelled).imp
        (fun _ hpre => ⟨hpre.1.mono (List.subset_cons_self _ _), hpre.2⟩) fun _ hfail => hfail)
        fun nodes => attach_ensures fun tree hpre => ⟨hpre.1, ?_⟩
      rw [Name.lastId_append, ← Name.zoneId_eq_lastId]
      refine hasName_of_spells hfolded ?_
      rw [← List.reverse_reverse (List.take _ _)]
      exact hpre.2

/-! ## Adding records -/

/-- The names that a payload refers to get nodes. -/
theorem addTargets_ensures (rdata : Rdata Name) :
    Ensures (Standing zones) (Admin.addTargets rdata)
      (fun rdata tree => tree.Standing (rdata.references.map Name.zoneId ++ zones))
      (Standing zones) := by
  cases rdata with
  | a ttl address | txt ttl text => exact Ensures.pure _ fun _ hpre => hpre
  | ns ttl name | cname ttl name | mx ttl preference name =>
      exact Ensures.bind (addName_ensures name false) fun _ => Ensures.pure _ fun _ hpost => hpost
  | soa start =>
      refine Ensures.bind (addName_ensures start.mname false) fun mname => ?_
      refine Ensures.bind ((addName_ensures start.rname false).imp (fun _ hpre => hpre)
        fun _ hfail => hfail.mono (List.subset_cons_self _ _)) fun rname => ?_
      exact Ensures.pure _ fun _ hpost => hpost.mono (List.Perm.swap _ _ _).subset

theorem addRecord_ensures (zone : ZoneId) (rdata : Rdata Name) :
    Ensures (Standing (rdata.references.map Name.zoneId ++ zones))
      (Store.addRecord zone rdata : Change Tree Nat) (fun _ tree => tree.Standing zones)
      (Standing zones) := by
  refine Ensures.step (f := fun tree : Tree => tree.addRecord zone rdata) ?_
    fun _ hpre => hpre.mono (List.subset_append_right _ _)
  intro tree number next hpre hadd
  refine (hpre.steps (Steps.records number (records_of_addRecord hadd)) nofun ?_).mono
    (List.subset_append_right _ _)
  intro _ _ hcall target htarget
  cases hcall
  exact List.mem_append_left _ (List.mem_map_of_mem htarget)

/-- A record is stored with names that were just given nodes. -/
theorem addAt_ensures (name : Name) (wildcard : Bool) (rdata : Rdata Name) :
    Ensures (Standing zones) (Admin.addAt name wildcard rdata)
      (fun _ tree => tree.Standing zones) (Standing zones) := by
  unfold Admin.addAt
  refine Ensures.bind (addName_ensures name wildcard) fun owner => ?_
  have hdrop : ∀ tree, Standing (owner.zoneId :: zones) tree → Standing zones tree :=
    fun _ h => h.mono (List.subset_cons_self _ _)
  refine Ensures.bind ((addTargets_ensures rdata).imp hdrop fun _ hfail => hfail) fun rdata => ?_
  refine Ensures.bind (addRecord_ensures owner.zoneId rdata) fun number => ?_
  exact Ensures.pure _ fun _ hpost => hpost

/-! ## Deleting -/

theorem deleteRecords_ensures (zone : ZoneId) (type : RecordType) :
    Ensures (Standing zones) (Store.deleteRecords zone type : Change Tree Nat)
      (fun _ tree => tree.Standing zones) (Standing zones) := by
  refine Ensures.step (f := fun tree : Tree => .ok (tree.deleteRecords zone type)) ?_
    fun _ hpre => hpre
  intro tree count next hpre hdelete
  have hclears := clears_deleteRecords tree zone type
  rw [Except.ok.inj hdelete] at hclears
  exact hpre.steps (Steps.clears count hclears) (fun _ => nofun) fun _ _ => nofun

/-- A node that is deleted takes its name with it, but no record refers to it. -/
theorem deleteNode_ensures (zone : ZoneId) :
    Ensures (Standing []) (Store.deleteNode zone : Change Tree Unit)
      (fun _ tree => tree.Standing []) (Standing []) := by
  refine Ensures.step (f := fun tree : Tree => tree.deleteNode zone) ?_ fun _ hpre => hpre
  intro tree done next hpre hdelete
  have hsteps := Steps.removes (removes_of_deleteNode hdelete)
  exact ⟨hpre.sound.steps hsteps, hpre.grounded.steps hpre.sound hsteps nofun, nofun⟩

theorem deleteZone_ensures (zone : ZoneId) :
    Ensures (Standing []) (Admin.deleteZone zone : Change Tree Unit)
      (fun _ tree => tree.Standing []) (Standing []) := by
  unfold Admin.deleteZone
  split
  · exact Ensures.throw _ fun _ hpre => hpre
  · refine Ensures.bind (Ensures.look fun _ hpre => hpre) fun children => ?_
    split
    · exact deleteNode_ensures zone
    · exact Ensures.throw _ fun _ hpre => hpre

/-! ## Every request -/

/-- Every request leaves a tree standing, also when it fails on the way. -/
theorem standing_after (h : tree.Standing []) (request : Admin.Request) :
    (request.change.perform tree).2.Standing [] := by
  suffices hkeeps : Ensures (Standing []) request.change (fun _ => Standing []) (Standing []) from
    hkeeps.after h
  cases request with
  | addName name wildcard =>
      exact Ensures.bind (addName_ensures name wildcard) fun _ =>
        Ensures.pure _ fun _ hpost => hpost.mono (List.nil_subset _)
  | addRecord owner rdata =>
      exact Ensures.bind (addAt_ensures owner false rdata) fun _ => Ensures.pure _ fun _ h => h
  | addEntry entry =>
      exact Ensures.bind (addAt_ensures entry.name entry.wildcard entry.rdata) fun _ =>
        Ensures.pure _ fun _ h => h
  | find | findZone | listChildren | listRecords | statistics =>
      exact Ensures.bind (Ensures.look fun _ h => h) fun _ => Ensures.pure _ fun _ h => h
  | deleteRecords zone type =>
      exact Ensures.bind (deleteRecords_ensures zone type) fun _ => Ensures.pure _ fun _ h => h
  | deleteZone zone => exact deleteZone_ensures zone

end Tree
end Zone
end NameServer
