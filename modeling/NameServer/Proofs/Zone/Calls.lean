import NameServer.Proofs.Zone.View

/-!
# Proofs.Zone.Calls — sequences of calls to a store

A store is used by one call after another, whoever makes them. Each call either yields an answer or
fails, and the next one meets the state that it leaves.

* `Call.perform` — the outcome of a call, and the state after it;
* `History start events store` — `events` are the calls on the way from `start` to `store` with
  their outcomes, the last one first;
* `history_foldl_record` — all calls have a history.
-/

namespace NameServer
namespace Zone

/-! ## Calls -/

/-- A call to a store. -/
inductive Call
  | resolve (name : Name)
  | records (zone : ZoneId) (type : RecordType) (limit : Nat)
  | isWildcard (zone : ZoneId)
  | nameOf (zone : ZoneId)
  | children (zone : ZoneId)
  | statistics
  | addNode (parent : ZoneId) (label : Label) (wildcard : Bool)
  | addRecord (zone : ZoneId) (rdata : Rdata Name)
  | setWildcard (zone : ZoneId) (wildcard : Bool)
  | deleteRecords (zone : ZoneId) (type : RecordType)
  | deleteNode (zone : ZoneId)
  deriving DecidableEq

/-- What a call yields. -/
inductive Answer
  | name (name : Name)
  | records (payloads : List (Rdata Name))
  | flag (holds : Bool)
  | name? (name? : Option Name)
  | children (children : List Child)
  | statistics (stats : Statistics)
  | zone (id : ZoneId)
  | count (count : Nat)
  | done
  deriving DecidableEq

/-- The outcome of a change as an answer, and the store after it. -/
def Change.answered {σ α : Type} (answer : α → Answer) (change : Change σ α) (store : σ) :
    Except Fault Answer × σ :=
  ((change.perform store).1.map answer, (change.perform store).2)

/-- Whether a call only looks at the store. -/
def Call.isRead : Call → Bool
  | resolve _ | records _ _ _ | isWildcard _ | nameOf _ | children _ | statistics => true
  | _ => false

variable {σ : Type} [Store σ]

/-- The outcome of a call on a store, and the store after it. -/
def Call.perform (store : σ) : Call → Except Fault Answer × σ
  | resolve name => ((Store.resolve store name).map .name, store)
  | records zone type limit => ((Store.records store zone type limit).map .records, store)
  | isWildcard zone => (.ok (.flag (Store.isWildcard store zone)), store)
  | nameOf zone => ((Store.nameOf? store zone).map .name?, store)
  | children zone => (.ok (.children (Store.children store zone)), store)
  | statistics => ((Store.statistics store).map .statistics, store)
  | addNode parent label wildcard =>
    Change.answered .zone (Store.addNode parent label wildcard) store
  | addRecord zone rdata => Change.answered .count (Store.addRecord zone rdata) store
  | setWildcard zone wildcard =>
    Change.answered (fun _ => .done) (Store.setWildcard zone wildcard) store
  | deleteRecords zone type => Change.answered .count (Store.deleteRecords zone type) store
  | deleteNode zone => Change.answered (fun _ => .done) (Store.deleteNode zone) store

/-! ## Histories -/

/-- A call that was made, with its outcome. -/
structure Event where
  call : Call
  outcome : Except Fault Answer
  deriving DecidableEq

/-- The events on the way from one state to another, the last one first. -/
inductive History (start : σ) : List Event → σ → Prop
  | start : History start [] start
  | call {events : List Event} {store : σ} (call : Call) :
      History start events store →
        History start (⟨call, (call.perform store).1⟩ :: events) (call.perform store).2

/-- What happened so far, with one more call. -/
def record (sofar : List Event × σ) (call : Call) : List Event × σ :=
  (⟨call, (call.perform sofar.2).1⟩ :: sofar.1, (call.perform sofar.2).2)

/-- Calls that are made one after the other have a history. -/
theorem history_foldl_record (start : σ) (calls : List Call) :
    History start (calls.foldl record ([], start)).1 (calls.foldl record ([], start)).2 := by
  suffices hfrom : ∀ sofar : List Event × σ, History start sofar.1 sofar.2 →
      History start (calls.foldl record sofar).1 (calls.foldl record sofar).2 from
    hfrom _ History.start
  induction calls with
  | nil => exact fun _ h => h
  | cons call calls ih => exact fun sofar h => ih _ (History.call call h)

/-! ## A sample -/

/-- The label `kin`. -/
def sampleLabel : Label :=
  ⟨"kin", by decide, by decide, by decide⟩

/-- The name `kin.` with its node. -/
def sampleName : Name :=
  ⟨[sampleLabel], .resolved [⟨1, false⟩], by decide,
    And.intro (by decide) (And.intro (by decide) (by decide))⟩

/-- Calls that lead to a zone `kin` with an address, given twice, and name servers, to a node `www`
below it with an alias for `kin`, and to a node `old` that is gone again. -/
def sampleCalls : List Call := [
  .addNode rootZone sampleLabel false,
  .addNode 1 ⟨"www", by decide, by decide, by decide⟩ false,
  .addNode 1 ⟨"old", by decide, by decide, by decide⟩ true,
  .resolve sampleName.toPlain,
  .addRecord 1 (.a 60 ⟨10, 0, 0, 1⟩), .addRecord 1 (.a 60 ⟨10, 0, 0, 1⟩),
  .addRecord 1 (.ns 60 sampleName), .addRecord 2 (.cname 60 sampleName), .deleteNode 3]

/-- The tree that they lead to. -/
def sampleTree : Tree :=
  (sampleCalls.foldl record ([], Tree.empty ⟨0, 0⟩)).2

end Zone
end NameServer
