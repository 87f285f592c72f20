import NameServer.Proofs.Tree.Paths

/-!
# Proofs.Zone.Serving — what stores serve

Stores keep records in a row and the zones that these refer to by number.

* `View.Names` — what is served of a payload has the names that the store gives to the zones it
  refers to, and these are the full names of the zones;
* `View.InOrder` — payloads are served in the order in which they were added: changes only put new
  ones behind the others or take some out;
* `Tree.names`, `Tree.inOrder` and their siblings — all stores serve in this way.
-/

namespace NameServer
namespace Zone

/-! ## Names -/

section Names

variable {σ : Type} [Store σ]

/-- The name of a zone that a record refers to. -/
def targetName (store : σ) (zone : ZoneId) : Except Fault Name := do
  match ← Store.nameOf? store zone with
  | some name => return name
  | none => .error (.dangling zone)

/-- Payloads are served with the names that the store gives to zones, and these are the full names
of the zones. -/
structure View.Names (view : View σ) (store : σ) : Prop where
  named_eq : ∀ rdata, view.named store rdata = rdata.mapM (targetName store)
  full : ∀ zone name, Store.nameOf? store zone = .ok (some name) →
    name.isFullyResolved = true ∧ name.zoneId = zone

theorem nameOf?_of_targetName {store : σ} {zone : ZoneId} {name : Name}
    (h : targetName store zone = .ok name) : Store.nameOf? store zone = .ok (some name) := by
  rcases exists_of_bind h with ⟨name?, hname, hsome⟩
  cases name? with
  | none => cases hsome
  | some found =>
      cases hsome
      exact hname

/-- A name that is there, whatever errors and absence are called. -/
theorem ok_of_mapError_map_some {α ε η : Type} {f : ε → η} {x : Except ε α} {a : α}
    (h : (x.map some).mapError f = .ok (some a)) : x = .ok a := by
  cases x with
  | error e => cases h
  | ok b =>
      cases h
      rfl

end Names

theorem Tree.names (tree : Tree) : Tree.view.Names tree where
  named_eq _ := rfl
  full _ _ h := zoneId_of_nameOf? (Except.ok.inj h)

namespace Relations

variable {rows : Relations} {zone : ZoneId} {name : Name}

/-- The rows on the way up from a zone begin with its own. -/
theorem head_chain {steps : Nat} : ∀ row ∈ (rows.chain steps zone).head?, row.id = zone := by
  cases steps with
  | zero => simp [chain]
  | succ steps =>
      unfold chain
      cases hrow : rows.row? zone with
      | none => simp
      | some row =>
          intro first hfirst
          cases hfirst
          simpa [row?] using List.find?_some hrow

/-- The name that rows spell is fully resolved, and its deepest node is that of the first row. -/
theorem full_of_spelled {chain : List ZoneRow}
    (h : (Name.ofLabels (chain.map ZoneRow.label) >>= fun plain =>
      plain.resolve (chain.map ZoneRow.node).reverse) = .ok name) :
    name.isFullyResolved = true ∧
      name.zoneId = (chain.head?.map ZoneRow.id).getD rootZone := by
  rcases exists_of_bind h with ⟨plain, hplain, hresolve⟩
  rcases Name.labels_of_resolve hresolve with ⟨hlabels, hform⟩
  rw [Name.labels_of_ofLabels hplain] at hlabels
  constructor
  · refine Name.isFullyResolved_of_form hform ?_
    rw [hlabels]
    simp
  · rw [Name.zoneId_of_form hform]
    cases chain <;> rfl

theorem full_of_nameOf? (h : rows.nameOf? zone = .ok (some name)) :
    name.isFullyResolved = true ∧ name.zoneId = zone := by
  unfold nameOf? at h
  by_cases hroot : zone = rootZone
  · subst hroot
    rw [if_pos rfl] at h
    cases h
    exact ⟨rfl, rfl⟩
  · rw [if_neg hroot] at h
    dsimp only at h
    generalize hchain : rows.chain maxDepth zone = chain at h
    have hhead : ∀ row ∈ chain.head?, row.id = zone := hchain ▸ head_chain
    split at h
    · cases h
    · rename_i last hlast
      split at h
      · cases h
      · have hspelled := ok_of_mapError_map_some h
        rcases full_of_spelled hspelled with ⟨hfull, hzone⟩
        refine ⟨hfull, hzone.trans ?_⟩
        cases chain with
        | nil => cases hlast
        | cons row chain => exact hhead row rfl

theorem names (rows : Relations) : view.Names rows where
  named_eq _ := rfl
  full _ _ h := full_of_nameOf? h

end Relations

theorem ReadOnly.names (store : ReadOnly) : ReadOnly.view.Names store where
  named_eq _ := rfl
  full _ _ h := Relations.full_of_nameOf? h

/-! ## Order -/

section Order

variable {σ : Type} [Store σ]

/-- Of each type at each zone, `after` has what `store` has, or some of it, in the same order; only
the call that stores a payload puts it behind the others. -/
def View.KeepsOrder (view : View σ) (call : Call) (store after : σ) : Prop :=
  ∀ zone type, (view.kept after zone type).Sublist (view.kept store zone type) ∨
    ∃ rdata, call = .addRecord zone rdata ∧
      view.kept after zone type = view.kept store zone type ++ [rdata.map Name.zoneId]

/-- Every call keeps the order in which payloads are served. -/
def View.InOrder (view : View σ) (store : σ) : Prop :=
  ∀ call : Call, view.KeepsOrder call store (call.perform store).2

theorem View.KeepsOrder.refl (view : View σ) (call : Call) (store : σ) :
    view.KeepsOrder call store store :=
  fun _ _ => Or.inl (List.Sublist.refl _)

/-- A step keeps the order when it does so whenever it happens. -/
theorem View.KeepsOrder.step {view : View σ} {call : Call} {store : σ} {α : Type}
    {f : σ → Except Fault (α × σ)}
    (h : ∀ a next, f store = .ok (a, next) → view.KeepsOrder call store next) :
    view.KeepsOrder call store ((Change.step f).perform store).2 :=
  Change.perform_step (P := view.KeepsOrder call store) (.refl _ _ _) h

end Order

namespace Tree

variable {tree next : Tree}

theorem Records.keepsOrder {zone : ZoneId} {rdata : Rdata Name}
    (h : tree.Records zone rdata next) : view.KeepsOrder (.addRecord zone rdata) tree next := by
  intro other type
  unfold view
  dsimp only
  rw [h.recordsAt]
  by_cases hzone : zone = other
  · subst hzone
    rw [if_pos rfl, List.filter_append]
    by_cases htype : (rdata.map Name.zoneId).type = type
    · right
      exact ⟨rdata, rfl, by rw [List.filter_cons_of_pos (by simpa using htype), List.filter_nil]⟩
    · left
      rw [List.filter_cons_of_neg (by simpa using htype), List.filter_nil, List.append_nil]
  · rw [if_neg hzone]
    exact Or.inl (List.Sublist.refl _)

/-- Records only leave. -/
theorem keepsOrder_of_sublist {call : Call}
    (h : ∀ zone, (next.recordsAt zone).Sublist (tree.recordsAt zone)) :
    view.KeepsOrder call tree next :=
  fun zone _ => Or.inl ((h zone).filter _)

theorem inOrder (tree : Tree) : view.InOrder tree := by
  intro call
  have hsteps := tree.steps call
  revert hsteps
  generalize (call.perform tree).1 = outcome, (call.perform tree).2 = next
  intro hsteps
  cases hsteps with
  | reads | fails => exact View.KeepsOrder.refl _ _ _
  | records number hrecords => exact hrecords.keepsOrder
  | adds hadds => exact keepsOrder_of_sublist fun zone => hadds.recordsAt zone ▸ List.Sublist.refl _
  | marks hmarks =>
      exact keepsOrder_of_sublist fun zone => hmarks.recordsAt zone ▸ List.Sublist.refl _
  | clears count hclears => exact keepsOrder_of_sublist hclears.sublist
  | removes hremoves => exact keepsOrder_of_sublist hremoves.sublist

end Tree

namespace Relations

variable {rows next : Relations}

/-- Rows only leave. -/
theorem keepsOrder_of_sublist {call : Call} (h : next.records.Sublist rows.records) :
    view.KeepsOrder call rows next :=
  fun _ _ => Or.inl ((h.filter _).map _)

theorem map_of_mapM_reference {rdata : Rdata Name} {stored : Rdata ZoneId}
    (h : rdata.mapM reference = .ok stored) : stored = rdata.map Name.zoneId := by
  have hzone : ∀ {name : Name} {zone : ZoneId}, reference name = .ok zone → zone = name.zoneId := by
    intro name zone hname
    unfold reference at hname
    split at hname
    · cases hname
      rfl
    · cases hname
  cases rdata with
  | a ttl address | txt ttl text =>
      cases h
      rfl
  | ns ttl name | cname ttl name | mx ttl preference name =>
      rcases exists_of_bind h with ⟨zone, hname, hstored⟩
      cases hstored
      rw [hzone hname]
      rfl
  | soa start =>
      rcases exists_of_bind h with ⟨mname, hmname, hrest⟩
      rcases exists_of_bind hrest with ⟨rname, hrname, hstored⟩
      cases hstored
      rw [hzone hmname, hzone hrname]
      rfl

theorem keepsOrder_addRecord {zone : ZoneId} {rdata : Rdata Name} {number : Nat}
    (h : rows.addRecord zone rdata = .ok (number, next)) :
    view.KeepsOrder (.addRecord zone rdata) rows next := by
  unfold addRecord at h
  split at h
  · cases h
  · rcases exists_of_bind h with ⟨stored, hstored, hnext⟩
    cases hnext
    have hstored := map_of_mapM_reference hstored
    subst hstored
    intro other type
    unfold view recordRows
    dsimp only
    rw [List.filter_append, List.map_append]
    by_cases hmatch : zone = other ∧ (rdata.map Name.zoneId).type = type
    · right
      refine ⟨rdata, by rw [hmatch.1], ?_⟩
      rw [List.filter_cons_of_pos (by simpa using hmatch), List.filter_nil]
      rfl
    · left
      rw [List.filter_cons_of_neg (by simpa using hmatch), List.filter_nil, List.map_nil,
        List.append_nil]

theorem inOrder (rows : Relations) : view.InOrder rows := by
  intro call
  cases call with
  | resolve | records | isWildcard | nameOf | children | statistics =>
      exact View.KeepsOrder.refl _ _ _
  | addNode parent label wildcard =>
      refine View.KeepsOrder.step
        (f := fun rows : Relations => rows.addNode parent label wildcard) fun id next hadd => ?_
      unfold addNode at hadd
      split at hadd
      · cases hadd
      · split at hadd
        · cases hadd
        · cases hadd
          exact keepsOrder_of_sublist (List.Sublist.refl _)
  | addRecord zone rdata =>
      exact View.KeepsOrder.step (f := fun rows : Relations => rows.addRecord zone rdata)
        fun _ _ => keepsOrder_addRecord
  | setWildcard zone wildcard =>
      refine View.KeepsOrder.step
        (f := fun rows : Relations => rows.setWildcard zone wildcard) fun _ next hset => ?_
      unfold setWildcard at hset
      split at hset
      · cases hset
      · cases hset
        exact keepsOrder_of_sublist (List.Sublist.refl _)
  | deleteRecords zone type =>
      refine View.KeepsOrder.step
        (f := fun rows : Relations => .ok (rows.deleteRecords zone type)) fun count next hdelete => ?_
      cases hdelete
      exact keepsOrder_of_sublist List.filter_sublist
  | deleteNode zone =>
      refine View.KeepsOrder.step
        (f := fun rows : Relations => rows.deleteNode zone) fun _ next hdelete => ?_
      unfold deleteNode at hdelete
      repeat' split at hdelete
      all_goals cases hdelete
      exact keepsOrder_of_sublist List.filter_sublist

end Relations

/-- Rows that stay as they are keep their order. -/
theorem ReadOnly.inOrder (store : ReadOnly) : ReadOnly.view.InOrder store := by
  intro call
  cases call <;> exact View.KeepsOrder.refl _ _ _

end Zone
end NameServer
