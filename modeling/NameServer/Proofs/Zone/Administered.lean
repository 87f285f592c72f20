import NameServer.Proofs.Zone.Loading

/-!
# Proofs.Zone.Administered — the administration changes stores by their own changes

Requests and loads of zone files are put together from the changes that a store offers. Whatever
they leave behind, wherever they break off, comes about by these.

* `Change.Reaches` — a change leaves what comes about from where its own state does, with a rule for
  each way to build changes;
* `Administered start store` — `store` comes about from `start` by requests and by loads;
* `Administered.reached` — then it comes about by changes.
-/

namespace NameServer
namespace Zone

/-! ## Changes that are put together -/

namespace Change

variable {σ α β : Type} [Store σ]

/-- What the change leaves comes about from wherever its state does. -/
def Reaches (change : Change σ α) : Prop :=
  ∀ start store, Reached start store → Reached start (change.perform store).2

namespace Reaches

theorem pure (a : α) : Reaches (Pure.pure a : Change σ α) :=
  fun _ _ h => h

theorem throw (fault : Fault) : Reaches (MonadExcept.throw fault : Change σ α) :=
  fun _ _ h => h

theorem ask (f : σ → Except Fault α) : Reaches (Change.ask f) :=
  fun _ _ h => h

theorem bind {change : Change σ α} {f : α → Change σ β} (h : Reaches change)
    (hnext : ∀ a, Reaches (f a)) : Reaches (change >>= f) := by
  intro start store hstore
  rw [perform_bind]
  have hfirst := h start store hstore
  cases hperform : change.perform store with
  | mk outcome next =>
      rw [hperform] at hfirst
      cases outcome with
      | error fault => exact hfirst
      | ok a => exact hnext a start next hfirst

theorem map {change : Change σ α} (f : α → β) (h : Reaches change) : Reaches (f <$> change) := by
  rw [map_eq_pure_bind]
  exact h.bind fun a => pure (f a)

theorem tryCatch {change : Change σ α} {handler : Fault → Change σ α} (h : Reaches change)
    (hhandler : ∀ fault, Reaches (handler fault)) :
    Reaches (MonadExcept.tryCatch change handler) := by
  intro start store hstore
  have hperform := perform_tryCatch change handler store
  have hfirst := h start store hstore
  cases hchange : change.perform store with
  | mk outcome next =>
      rw [hchange] at hfirst hperform
      cases outcome with
      | error fault => exact hperform ▸ hhandler fault start next hfirst
      | ok a => exact hperform ▸ hfirst

theorem ite {c : Prop} [Decidable c] {change other : Change σ α} (h : Reaches change)
    (hother : Reaches other) : Reaches (if c then change else other) := by
  by_cases hc : c
  · rwa [if_pos hc]
  · rwa [if_neg hc]

end Reaches

end Change

/-! ## Requests and loads -/

section Administered

open Change (Reaches)

variable {σ : Type} [Store σ]

theorem addBelow_reaches (wildcard : Bool) (labels : List Label) (parent : ZoneId) :
    Reaches (Admin.addBelow parent wildcard labels : Change σ (List ZoneNode)) := by
  induction labels generalizing parent with
  | nil => exact Reaches.pure []
  | cons label labels ih =>
      have hadd : Reaches (Store.addNode parent label (wildcard && labels.isEmpty) :
          Change σ ZoneId) := fun _ _ => Reached.addNode _ _ _
      exact hadd.bind fun id => (ih id).bind fun nodes => Reaches.pure _

theorem addName_reaches (name : Name) (wildcard : Bool) :
    Reaches (Admin.addName name wildcard : Change σ Name) := by
  have hattach (nodes : List ZoneNode) :
      Reaches (Admin.attach name nodes : Change σ Name) := Reaches.ask _
  unfold Admin.addName
  refine Reaches.ite (Reaches.ite (Reaches.throw _) (hattach [])) ((Reaches.ask _).bind ?_)
  intro resolved
  refine Reaches.ite (Reaches.ite ?_ (Reaches.pure _)) ?_
  · have hmark : Reaches (Store.setWildcard resolved.zoneId true : Change σ Unit) :=
      fun _ _ => Reached.setWildcard _ _
    exact hmark.bind fun _ => hattach _
  · exact (addBelow_reaches _ _ _).bind fun _ => hattach _

theorem addTargets_reaches (rdata : Rdata Name) :
    Reaches (Admin.addTargets rdata : Change σ (Rdata Name)) := by
  have hadd (target : Name) : Reaches (Admin.addName target false : Change σ Name) :=
    addName_reaches target false
  cases rdata with
  | a ttl address | txt ttl text => exact Reaches.pure _
  | ns ttl target | cname ttl target | mx ttl preference target =>
      exact (hadd target).bind fun _ => Reaches.pure _
  | soa start =>
      exact (hadd start.mname).bind fun _ => (hadd start.rname).bind fun _ => Reaches.pure _

theorem addAt_reaches (name : Name) (wildcard : Bool) (rdata : Rdata Name) :
    Reaches (Admin.addAt name wildcard rdata : Change σ Record) := by
  refine (addName_reaches name wildcard).bind fun owner =>
    (addTargets_reaches rdata).bind fun stored => ?_
  have hadd : Reaches (Store.addRecord owner.zoneId stored : Change σ Nat) :=
    fun _ _ => Reached.addRecord _ _
  exact hadd.bind fun _ => Reaches.pure _

theorem request_reaches (request : Admin.Request) : Reaches (request.change : Change σ Unit) := by
  cases request with
  | addName name wildcard => exact (addName_reaches name wildcard).bind fun _ => Reaches.pure ()
  | addRecord owner rdata => exact (addAt_reaches owner false rdata).bind fun _ => Reaches.pure ()
  | addEntry entry => exact (addAt_reaches _ _ _).bind fun _ => Reaches.pure ()
  | find | findZone | listChildren | listRecords | statistics =>
      exact (Reaches.ask _).bind fun _ => Reaches.pure ()
  | deleteRecords zone type =>
      have hdelete : Reaches (Store.deleteRecords zone type : Change σ Nat) :=
        fun _ _ => Reached.deleteRecords _ _
      exact hdelete.bind fun _ => Reaches.pure ()
  | deleteZone zone =>
      refine Reaches.ite (Reaches.throw _) ((Reaches.ask _).bind fun children => ?_)
      exact Reaches.ite (fun _ _ => Reached.deleteNode _) (Reaches.throw _)

theorem line_reaches (text : String) : Reaches (Load.line text : Change σ (Option Record)) := by
  unfold Load.line
  split
  · exact Reaches.throw _
  · exact Reaches.pure none
  · exact (addAt_reaches _ _ _).map some

theorem linesFrom_reaches (number : Nat) (report : LoadReport) (texts : List String) :
    Reaches (Load.linesFrom number report texts : Change σ LoadReport) := by
  induction texts generalizing number report with
  | nil => exact Reaches.pure report
  | cons text rest ih =>
      unfold Load.linesFrom
      refine (Reaches.tryCatch ((line_reaches text).bind fun added => ?_) fun fault => ?_).bind
        fun report => ih (number + 1) report
      · cases added <;> exact Reaches.pure _
      · exact Reaches.ite (Reaches.throw _) (Reaches.pure _)

theorem file_reaches (bytes : List UInt8) : Reaches (Load.file bytes : Change σ LoadReport) := by
  unfold Load.file
  refine (linesFrom_reaches 1 ⟨0, []⟩ _).bind fun report => ?_
  cases (Load.readable (Text.byteLines bytes)).2 with
  | some flaw => exact Reaches.throw _
  | none => exact Reaches.pure report

/-- The states that come about by requests and by loads of zone files, whether these succeed or
fail. -/
inductive Administered (start : σ) : σ → Prop
  | start : Administered start start
  | request {store : σ} (request : Admin.Request) :
      Administered start store → Administered start (request.change.perform store).2
  | load {store : σ} (bytes : List UInt8) :
      Administered start store → Administered start ((Load.file bytes).perform store).2

/-- They come about by the changes that the store offers. -/
theorem Administered.reached {start store : σ} (h : Administered start store) :
    Reached start store := by
  induction h with
  | start => exact Reached.start
  | request request _ ih => exact request_reaches request _ _ ih
  | load bytes _ ih => exact file_reaches bytes _ _ ih

end Administered

end Zone
end NameServer
