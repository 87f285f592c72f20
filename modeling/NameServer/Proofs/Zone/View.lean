import Mathlib.Data.List.Nodup
import NameServer.Proofs.Rdata
import NameServer.Zone.ReadOnly
import NameServer.Zone.Tree

/-!
# Proofs.Zone.View — what the reads of a store show

Stores keep their nodes and records in different ways, but all that a reader gets to see of one is
the nodes on the way to a name and, for a zone and a type, a list of payloads from whose front it is
served.

* `Zone.View σ` — for every state of a store those nodes and those payloads, with the laws of its
  reads; `Tree.view`, `Relations.view` and `ReadOnly.view` are the views of the stores;
* `View.Marked` — the nodes on the way carry the marks of the store. A tree always has this, rows
  have it when their numbers are distinct;
* `Reached start store` — `store` comes about from `start` by changes, and
  `Relations.distinct_of_reached` — from no rows only rows with distinct numbers do.
-/

namespace NameServer

namespace Zone

/-! ## Views -/

/-- What the reads of a store show of its states. -/
structure View (σ : Type) [Store σ] where
  /-- The nodes on the way from the root to a name, as far as they exist. -/
  path : σ → Name → List ZoneNode
  /-- The payloads of a type at a zone, in the order in which they are served. -/
  kept : σ → ZoneId → RecordType → List (Rdata ZoneId)
  /-- A payload with the names of the zones it refers to. -/
  named : σ → Rdata ZoneId → Except Fault (Rdata Name)
  resolve_eq : ∀ store name,
    Store.resolve store name = (name.resolve (path store name)).mapError .wire
  records_eq : ∀ store zone type limit,
    Store.records store zone type limit = ((kept store zone type).take limit).mapM (named store)
  type_of_kept : ∀ {store zone type rdata}, rdata ∈ kept store zone type → rdata.type = type
  type_of_named : ∀ {store rdata found}, named store rdata = .ok found → found.type = rdata.type

/-- The nodes on the way to a name carry the marks that the store tells of them. -/
def View.Marked {σ : Type} [Store σ] (view : View σ) (store : σ) : Prop :=
  ∀ name, ∀ node ∈ view.path store name, node.wildcard = Store.isWildcard store node.id

/-! ## Trees -/

namespace Tree

/-- What a tree shows. -/
def view : View Tree where
  path tree name := tree.walk rootZone name.labels.reverse
  kept tree zone type := (tree.recordsAt zone).filter fun rdata => rdata.type = type
  named := withNames
  resolve_eq _ _ := rfl
  records_eq _ _ _ _ := rfl
  type_of_kept := by
    intro store zone type rdata h
    simpa using (List.mem_filter.1 h).2
  type_of_named h := Rdata.type_of_mapM h

theorem wildcard_of_mem_walk (tree : Tree) {parent : ZoneId} {labels : List Label}
    {node : ZoneNode} (h : node ∈ tree.walk parent labels) :
    node.wildcard = tree.isWildcard node.id := by
  induction labels generalizing parent with
  | nil => cases h
  | cons label labels ih =>
      unfold walk at h
      cases hchild : tree.child? parent label with
      | none => rw [hchild] at h; cases h
      | some id =>
          rw [hchild] at h
          rcases List.mem_cons.1 h with rfl | hmem
          · rfl
          · exact ih hmem

theorem marked (tree : Tree) : view.Marked tree := by
  intro name node hmem
  exact tree.wildcard_of_mem_walk hmem

end Tree

/-! ## Rows -/

namespace Relations

/-- What rows show. -/
def view : View Relations where
  path rows name := rows.walk rootZone name.labels.reverse
  kept rows zone type := (rows.recordRows zone type).map RecordRow.rdata
  named := withNames
  resolve_eq _ _ := rfl
  records_eq := by
    intro rows zone type limit
    rw [← List.map_take, List.mapM_map]
    rfl
  type_of_kept := by
    intro rows zone type rdata h
    rcases List.mem_map.1 h with ⟨row, hrow, rfl⟩
    have hmatch := (List.mem_filter.1 hrow).2
    exact (of_decide_eq_true hmatch).2
  type_of_named h := Rdata.type_of_mapM h

/-- No two nodes have the same number, and none has one that is still to be given. -/
structure Distinct (rows : Relations) : Prop where
  nodup : (rows.zones.map ZoneRow.id).Nodup
  id_le : ∀ row ∈ rows.zones, row.id ≤ rows.lastZone

variable {rows : Relations}

/-- Every row is found by its number. -/
theorem Distinct.row?_id (h : rows.Distinct) {row : ZoneRow} (hmem : row ∈ rows.zones) :
    rows.row? row.id = some row := by
  cases hfind : rows.row? row.id with
  | none =>
      have hnone := List.find?_eq_none.1 hfind row hmem
      exact absurd rfl (of_decide_eq_false (eq_false_of_ne_true hnone))
  | some other =>
      have hid : other.id = row.id := by simpa using List.find?_some hfind
      have hother : other ∈ rows.zones := List.mem_of_find?_eq_some hfind
      rw [List.inj_on_of_nodup_map h.nodup hother hmem hid]

theorem mem_of_child? {parent : ZoneId} {label : Label} {row : ZoneRow}
    (h : rows.child? parent label = some row) : row ∈ rows.zones :=
  List.mem_of_find?_eq_some h

theorem Distinct.wildcard_of_mem_walk (h : rows.Distinct) {parent : ZoneId} {labels : List Label}
    {node : ZoneNode} (hmem : node ∈ rows.walk parent labels) :
    node.wildcard = rows.isWildcard node.id := by
  induction labels generalizing parent with
  | nil => cases hmem
  | cons label labels ih =>
      unfold walk at hmem
      cases hchild : rows.child? parent label with
      | none => rw [hchild] at hmem; cases hmem
      | some row =>
          rw [hchild] at hmem
          rcases List.mem_cons.1 hmem with rfl | hmem
          · -- The mark is looked up by number, so another row of that number could answer.
            unfold isWildcard
            rw [ZoneRow.node, h.row?_id (mem_of_child? hchild)]
          · exact ih hmem

theorem Distinct.marked (h : rows.Distinct) : view.Marked rows := by
  intro name node hmem
  exact h.wildcard_of_mem_walk hmem

end Relations

/-! ## Rows that stay as they are -/

/-- What a read-only store shows: what its rows do. -/
def ReadOnly.view : View ReadOnly where
  path store := Relations.view.path store.rows
  kept store := Relations.view.kept store.rows
  named store := Relations.view.named store.rows
  resolve_eq store := Relations.view.resolve_eq store.rows
  records_eq store := Relations.view.records_eq store.rows
  type_of_kept := Relations.view.type_of_kept
  type_of_named := Relations.view.type_of_named

theorem ReadOnly.marked {store : ReadOnly} (h : store.rows.Distinct) :
    ReadOnly.view.Marked store :=
  h.marked

/-! ## States that come about -/

/-- The states that come about by changes, whether these succeed or fail. -/
inductive Reached {σ : Type} [Store σ] (start : σ) : σ → Prop
  | start : Reached start start
  | addNode {store : σ} (parent : ZoneId) (label : Label) (wildcard : Bool) :
      Reached start store →
        Reached start ((Store.addNode parent label wildcard : Change σ ZoneId).perform store).2
  | addRecord {store : σ} (zone : ZoneId) (rdata : Rdata Name) :
      Reached start store →
        Reached start ((Store.addRecord zone rdata : Change σ Nat).perform store).2
  | setWildcard {store : σ} (zone : ZoneId) (wildcard : Bool) :
      Reached start store →
        Reached start ((Store.setWildcard zone wildcard : Change σ Unit).perform store).2
  | deleteRecords {store : σ} (zone : ZoneId) (type : RecordType) :
      Reached start store →
        Reached start ((Store.deleteRecords zone type : Change σ Nat).perform store).2
  | deleteNode {store : σ} (zone : ZoneId) :
      Reached start store →
        Reached start ((Store.deleteNode zone : Change σ Unit).perform store).2

theorem Change.perform_step_ok {σ α : Type} {f : σ → Except Fault (α × σ)} {store next : σ} {a : α}
    (h : f store = .ok (a, next)) : (Change.step f).perform store = (.ok a, next) := by
  simp only [Change.perform, Change.step, ExceptT.run_mk, StateT.run, h]

theorem Change.perform_step_error {σ α : Type} {f : σ → Except Fault (α × σ)} {store : σ}
    {fault : Fault} (h : f store = .error fault) :
    (Change.step f).perform store = (.error fault, store) := by
  simp only [Change.perform, Change.step, ExceptT.run_mk, StateT.run, h]

/-- What holds of a state holds behind a step that keeps it when it happens. -/
theorem Change.perform_step {σ α : Type} {P : σ → Prop} {f : σ → Except Fault (α × σ)} {store : σ}
    (h : P store) (hstep : ∀ a next, f store = .ok (a, next) → P next) :
    P ((Change.step f).perform store).2 := by
  cases hf : f store with
  | error fault =>
      rw [Change.perform_step_error hf]
      exact h
  | ok result =>
      rw [Change.perform_step_ok hf]
      exact hstep result.1 result.2 hf

namespace Relations

variable {rows next : Relations}

theorem distinct_empty (startedAt : Timestamp) : (empty startedAt).Distinct where
  nodup := List.nodup_nil
  id_le := by
    intro row hmem
    cases hmem

/-- A new node gets a number beyond all that were given. -/
theorem Distinct.addNode (h : rows.Distinct) {parent id : ZoneId} {label : Label} {wildcard : Bool}
    (hadd : rows.addNode parent label wildcard = .ok (id, next)) : next.Distinct := by
  unfold Relations.addNode at hadd
  split at hadd
  · cases hadd
  · split at hadd
    · cases hadd
    · cases hadd
      constructor
      · -- All numbers given before are at most the last one, and the new one is its successor.
        rw [List.map_append, List.nodup_append]
        refine ⟨h.nodup, List.nodup_singleton _, ?_⟩
        intro old hold new hnew
        rcases List.mem_map.1 hold with ⟨row, hrow, rfl⟩
        rw [List.map_singleton, List.mem_singleton] at hnew
        subst hnew
        exact Int.ne_of_lt (Int.lt_add_one_of_le (h.id_le row hrow))
      · intro row hmem
        dsimp only at hmem ⊢
        rcases List.mem_append.1 hmem with hold | hnew
        · exact Int.le_of_lt (Int.lt_add_one_of_le (h.id_le row hold))
        · rw [List.mem_singleton] at hnew
          subst hnew
          exact Int.le_refl _

/-- A state whose nodes have numbers of `rows` has distinct ones with them. -/
theorem Distinct.of_sublist (h : rows.Distinct)
    (hids : (next.zones.map ZoneRow.id).Sublist (rows.zones.map ZoneRow.id))
    (hlast : next.lastZone = rows.lastZone) : next.Distinct := by
  constructor
  · exact h.nodup.sublist hids
  · intro row hmem
    have hid : row.id ∈ rows.zones.map ZoneRow.id := hids.subset (List.mem_map_of_mem hmem)
    rcases List.mem_map.1 hid with ⟨old, hold, heq⟩
    rw [hlast, ← heq]
    exact h.id_le old hold

theorem Distinct.addRecord (h : rows.Distinct) {zone : ZoneId} {rdata : Rdata Name} {id : Nat}
    (hadd : rows.addRecord zone rdata = .ok (id, next)) : next.Distinct := by
  unfold Relations.addRecord at hadd
  split at hadd
  · cases hadd
  · cases hstored : rdata.mapM reference with
    | error fault => rw [hstored] at hadd; cases hadd
    | ok stored =>
        rw [hstored] at hadd
        cases hadd
        exact h.of_sublist (List.Sublist.refl _) rfl

theorem Distinct.setWildcard (h : rows.Distinct) {zone : ZoneId} {wildcard : Bool} {done : Unit}
    (hset : rows.setWildcard zone wildcard = .ok (done, next)) : next.Distinct := by
  unfold Relations.setWildcard at hset
  split at hset
  · cases hset
  · cases hset
    -- The rows keep their numbers one by one.
    have hids : (rows.zones.map fun row =>
        if row.id = zone then { row with wildcard } else row).map ZoneRow.id =
          rows.zones.map ZoneRow.id := by
      rw [List.map_map]
      refine List.map_congr_left fun row _ => ?_
      by_cases hrow : row.id = zone <;> simp [hrow]
    exact h.of_sublist (hids ▸ List.Sublist.refl _) rfl

theorem Distinct.deleteRecords (h : rows.Distinct) (zone : ZoneId) (type : RecordType) :
    (rows.deleteRecords zone type).2.Distinct :=
  h.of_sublist (List.Sublist.refl _) rfl

theorem Distinct.deleteNode (h : rows.Distinct) {zone : ZoneId} {done : Unit}
    (hdelete : rows.deleteNode zone = .ok (done, next)) : next.Distinct := by
  unfold Relations.deleteNode at hdelete
  repeat' split at hdelete
  all_goals cases hdelete
  exact h.of_sublist (List.filter_sublist.map _) rfl

/-- Rows that come about from none by changes have distinct numbers. -/
theorem distinct_of_reached {startedAt : Timestamp} (h : Reached (empty startedAt) rows) :
    rows.Distinct := by
  induction h with
  | start => exact distinct_empty startedAt
  | addNode parent label wildcard _ ih => exact Change.perform_step ih fun _ _ => ih.addNode
  | addRecord zone rdata _ ih => exact Change.perform_step ih fun _ _ => ih.addRecord
  | setWildcard zone wildcard _ ih => exact Change.perform_step ih fun _ _ => ih.setWildcard
  | deleteRecords zone type _ ih =>
      apply Change.perform_step ih
      intro count next hdelete
      cases hdelete
      exact ih.deleteRecords zone type
  | deleteNode zone _ ih => exact Change.perform_step ih fun _ _ => ih.deleteNode

end Relations

end Zone

end NameServer
