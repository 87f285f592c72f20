import NameServer.Proofs.Lists
import NameServer.Proofs.Tree.Names

/-!
# Proofs.Tree.References — what stored records refer to

Storing a record looks at the form of the names in it, and deleting a node looks at the records that
are stored. Between the two a name can grow stale: it was resolved, its node was deleted, and it is
stored after that. Without stale names no record ever refers to a zone that is not there.

* `Tree.Grounded` — every stored reference is to a zone that has a name;
* `Tree.Sound.records_succeed` — then records are always served;
* `Tree.isReturned`, `Tree.isFresh`, `Tree.isSourced` — where the names in stored records come from;
* `Tree.references_lost` — that names were resolved before is not enough;
* `Tree.references_kept` — it is when their zones were not deleted since.
-/

namespace NameServer

namespace Zone
namespace Tree

variable {tree next : Tree} {zone : ZoneId} {name : Name} {events : List Event}

/-! ## Grounded trees -/

/-- Every stored record refers to zones that have a name. -/
def Grounded (tree : Tree) : Prop :=
  ∀ zone, ∀ rdata ∈ tree.recordsAt zone, ∀ target ∈ rdata.references, tree.HasName target

/-- Where references have names, every payload is put together. -/
theorem Sound.withNames_succeeds (h : tree.Sound) (hgrounded : tree.Grounded)
    {rdata : Rdata ZoneId} (hrdata : rdata ∈ tree.recordsAt zone) :
    Succeeds (tree.withNames rdata) := by
  apply Rdata.succeeds_mapM
  intro target htarget
  rcases h.exists_nameOf? (hgrounded zone rdata hrdata target htarget) with ⟨name, hname⟩
  rw [hname]
  exact Succeeds.ok name

/-- Then records are always served. -/
theorem Sound.records_succeed (h : tree.Sound) (hgrounded : tree.Grounded) (zone : ZoneId)
    (type : RecordType) (limit : Nat) : Succeeds (Store.records tree zone type limit) :=
  succeeds_mapM fun _ hrdata => h.withNames_succeeds hgrounded
    (List.mem_of_mem_filter (List.mem_of_mem_take hrdata))

theorem grounded_empty (startedAt : Timestamp) : (empty startedAt).Grounded := by
  intro zone rdata hrdata
  rw [show (empty startedAt).recordsAt zone = [] from Std.TreeMap.getD_emptyc] at hrdata
  cases hrdata

/-- Calls keep a tree grounded when the records that they store are. -/
theorem Grounded.steps (h : tree.Grounded) (hsound : tree.Sound) {call : Call}
    {outcome : Except Fault Answer} (hsteps : tree.Steps call outcome next)
    (hnew : ∀ zone rdata, call = .addRecord zone rdata → ∀ target ∈ rdata.references,
      tree.HasName target.zoneId) : next.Grounded := by
  intro zone rdata hrdata target htarget
  -- Only the deletion of a node takes names away, and it finds no reference to that node.
  have hkeeps : ∀ target, tree.HasName target →
      (∀ gone, call = .deleteNode gone → target ≠ gone) → next.HasName target := by
    intro target hname hne
    exact hname.steps hsound hsteps fun hcall => absurd rfl (hne target hcall)
  cases hsteps with
  | reads | fails => exact h zone rdata hrdata target htarget
  | adds hadds =>
      rw [hadds.recordsAt] at hrdata
      exact hkeeps target (h zone rdata hrdata target htarget) fun _ hcall => by cases hcall
  | marks hmarks =>
      rw [hmarks.recordsAt] at hrdata
      exact hkeeps target (h zone rdata hrdata target htarget) fun _ hcall => by cases hcall
  | clears _ hclears =>
      have hold := (hclears.sublist zone).subset hrdata
      exact hkeeps target (h zone rdata hold target htarget) fun _ hcall => by cases hcall
  | @records _ at? added _ hrecords =>
      refine hkeeps target ?_ fun _ hcall => by cases hcall
      rw [hrecords.recordsAt] at hrdata
      split at hrdata
      · rcases List.mem_append.1 hrdata with hold | hadded
        · exact h at? rdata hold target htarget
        · rw [List.mem_singleton] at hadded
          rw [hadded, Rdata.references_map] at htarget
          rcases List.mem_map.1 htarget with ⟨name, hname, rfl⟩
          exact hnew at? added rfl name hname
      · exact h zone rdata hrdata target htarget
  | @removes _ gone hremoves =>
      rw [hremoves.recordsAt] at hrdata
      split at hrdata
      · cases hrdata
      · rename_i hother
        refine hkeeps target (h zone rdata hrdata target htarget) ?_
        rintro _ hcall rfl
        cases hcall
        exact hremoves.unreferenced zone (Ne.symm hother) rdata hrdata htarget

/-! ## Where names come from -/

/-- Whether an event gives a name out. -/
def returns (name : Name) (event : Event) : Bool :=
  match event.call, event.outcome with
  | .resolve _, .ok (.name found) => found = name
  | .nameOf _, .ok (.name? found?) => found? = some name
  | _, _ => false

/-- Whether an earlier event gave a name out. -/
def isReturned (earlier : List Event) (name : Name) : Bool :=
  earlier.any (returns name)

/-- Whether an earlier event gave a name out whose zone was not deleted since. -/
def isFresh : List Event → Name → Bool
  | [], _ => false
  | event :: earlier, name =>
    returns name event || (event ≠ ⟨.deleteNode name.zoneId, .ok .done⟩ && isFresh earlier name)

/-- Whether all names in records that were to be stored are fully resolved and come from where they
may. -/
def isSourced (source : List Event → Name → Bool) : List Event → Bool
  | [] => true
  | event :: earlier =>
    (match event.call with
      | .addRecord _ rdata =>
        rdata.references.all fun target => target.isFullyResolved && source earlier target
      | _ => true) && isSourced source earlier

/-- Every stored record refers to the root or to nodes, and records are always served. -/
structure Intact (tree : Tree) : Prop where
  refers : ∀ zone, ∀ rdata ∈ tree.recordsAt zone, ∀ target ∈ rdata.references,
    tree.hasZone target = true
  served : ∀ zone type limit, Succeeds (Store.records tree zone type limit)

/-! ## Stale names -/

/-- A name is resolved, its node is deleted, and a record that refers to it is stored. -/
def staleCalls : List Call := [
  .addNode rootZone sampleLabel false, .resolve sampleName.toPlain, .deleteNode 1,
  .addRecord rootZone (.ns 60 sampleName)]

/-- That a name was resolved earlier is not enough: its node may be gone when it is stored. The
record then refers to a zone that is not there, and it is not served. -/
theorem references_lost :
    ∃ events tree, History (empty ⟨0, 0⟩) events tree ∧ isSourced isReturned events = true ∧
      (∃ rdata ∈ tree.recordsAt rootZone, 1 ∈ rdata.references) ∧ tree.hasZone 1 = false ∧
      Store.records tree rootZone .ns 13 = .error (.dangling 1) :=
  ⟨_, _, history_foldl_record _ staleCalls, by decide +kernel, by decide +kernel,
    by decide +kernel, by decide +kernel⟩

/-! ## Fresh names -/

/-- What gives a name out is one of the two calls that look for names. -/
theorem call_of_returns {event : Event} (h : returns name event = true) :
    (∃ asked, event.call = .resolve asked ∧ event.outcome = .ok (.name name)) ∨
      ∃ zone, event.call = .nameOf zone ∧ event.outcome = .ok (.name? (some name)) := by
  rcases event with ⟨call, outcome⟩
  unfold returns at h
  split at h
  · rename_i asked found hcall houtcome
    rw [← of_decide_eq_true h]
    exact Or.inl ⟨asked, hcall, houtcome⟩
  · rename_i zone found? hcall houtcome
    rw [← of_decide_eq_true h]
    exact Or.inr ⟨zone, hcall, houtcome⟩
  · cases h

/-- A name that an event gives out is one that its zone has. -/
theorem Sound.hasName_of_returns (h : tree.Sound) {call : Call}
    (hreturns : returns name ⟨call, (call.perform tree).1⟩ = true) :
    (call.perform tree).2.HasName name.zoneId := by
  rcases call_of_returns hreturns with ⟨asked, hcall, houtcome⟩ | ⟨zone, hcall, houtcome⟩
  · cases hcall
    change (tree.resolve asked).map Answer.name = _ at houtcome
    cases hresolve : tree.resolve asked with
    | error fault =>
        rw [hresolve] at houtcome
        cases houtcome
    | ok resolved =>
        rw [hresolve] at houtcome
        cases houtcome
        exact h.hasName_of_resolve hresolve
  · cases hcall
    have hname : tree.nameOf? zone = some name := Answer.name?.inj (Except.ok.inj houtcome)
    rw [(zoneId_of_nameOf? hname).2]
    exact hasName_of_nameOf? hname

/-- The zone of a fresh name has one. -/
theorem hasName_of_isFresh {startedAt : Timestamp} (h : History (empty startedAt) events tree)
    (hfresh : isFresh events name = true) : tree.HasName name.zoneId := by
  induction h with
  | start => cases hfresh
  | @call events tree call hbefore ih =>
      have hsound := sound_of_history hbefore
      rw [isFresh, Bool.or_eq_true, Bool.and_eq_true] at hfresh
      rcases hfresh with hreturns | ⟨hstays, hearlier⟩
      · exact hsound.hasName_of_returns hreturns
      · refine (ih hearlier).steps hsound (tree.steps call) fun hcall houtcome => ?_
        refine of_decide_eq_true hstays ?_
        rw [houtcome, hcall]

theorem grounded_of_isSourced {startedAt : Timestamp} (h : History (empty startedAt) events tree)
    (hsourced : isSourced isFresh events = true) : tree.Grounded := by
  induction h with
  | start => exact grounded_empty startedAt
  | @call events tree call hbefore ih =>
      rw [isSourced, Bool.and_eq_true] at hsourced
      rcases hsourced with ⟨hnow, hearlier⟩
      refine (ih hearlier).steps (sound_of_history hbefore) (tree.steps call) ?_
      rintro zone rdata rfl target htarget
      have hfresh := List.all_eq_true.1 hnow target htarget
      exact hasName_of_isFresh hbefore (Bool.and_eq_true_iff.1 hfresh).2

/-- Records that are stored with fresh names refer to zones that are there, and stay so. -/
theorem references_kept {startedAt : Timestamp} (h : History (empty startedAt) events tree)
    (hsourced : isSourced isFresh events = true) : tree.Intact := by
  have hgrounded := grounded_of_isSourced h hsourced
  exact {
    refers := fun zone rdata hrdata target htarget =>
      (hgrounded zone rdata hrdata target htarget).hasZone
    served := (sound_of_history h).records_succeed hgrounded }

/-- The names in the records of the sample tree were fresh when these were stored. -/
theorem references_kept_sampleCalls :
    isSourced isFresh (sampleCalls.foldl record ([], empty ⟨0, 0⟩)).1 = true ∧
      sampleTree.Intact := by
  have hsourced : isSourced isFresh (sampleCalls.foldl record ([], empty ⟨0, 0⟩)).1 = true := by
    decide +kernel
  exact ⟨hsourced, references_kept (history_foldl_record _ sampleCalls) hsourced⟩

end Tree
end Zone
end NameServer
