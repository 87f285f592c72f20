import NameServer.Proofs.Tree.Walks
import NameServer.Proofs.Zone.Serving

/-!
# Proofs.Zone.Places — the names of zones lead back to them

Stores name a zone by going up from it, and look a name up by going down from the root. The way down
is the way up again where no two children of a zone have labels that the store takes for the same.

* `FindsNames` — looking up the name that a store gives to a zone yields that name, with its nodes;
* `FindsNames.eq_of_sameAs` — then zones whose names differ at most in ASCII case are the same;
* `Tree.findsNames_of_reached` — trees that come about from an empty one find their names;
* `Relations.Placed` and `Relations.findsNames_of_reached` — and so do rows, whatever bytes the
  labels in them have.
-/

namespace NameServer

namespace Zone

section FindsNames

variable {σ : Type} [Store σ] {view : View σ} {store : σ} {zone zone' : ZoneId} {name name' : Name}

/-- Looking up the name of a zone yields that name, with its nodes. -/
def FindsNames (store : σ) : Prop :=
  ∀ zone name, Store.nameOf? store zone = .ok (some name) → Store.resolve store name = .ok name

/-- Zones whose names differ at most in ASCII case are the same, and so are their names. -/
theorem FindsNames.eq_of_sameAs (h : FindsNames store) (hnames : view.Names store)
    (hblind : CaseBlind σ) (hname : Store.nameOf? store zone = .ok (some name))
    (hname' : Store.nameOf? store zone' = .ok (some name')) (hsame : name.SameAs name') :
    zone = zone' ∧ name = name' := by
  have htwin := hblind store name name' hsame
  rw [h zone name hname, h zone' name' hname'] at htwin
  have hzone : zone = zone' :=
    calc
      zone = name.zoneId := (hnames.full zone name hname).2.symm
      _ = name'.zoneId := Name.Twin.zoneId htwin
      _ = zone' := (hnames.full zone' name' hname').2
  subst hzone
  rw [hname] at hname'
  exact ⟨rfl, Option.some.inj (Except.ok.inj hname')⟩

/-- Whatever comes about by changes comes about by calls. -/
theorem Reached.history {start : σ} (h : Reached start store) :
    ∃ events, History start events store := by
  have hcall : ∀ {store : σ} (call : Call), (∃ events, History start events store) →
      ∃ events, History start events (call.perform store).2 :=
    fun call ⟨_, hevents⟩ => ⟨_, hevents.call call⟩
  induction h with
  | start => exact ⟨[], History.start⟩
  | addNode parent label wildcard _ ih => exact hcall (.addNode parent label wildcard) ih
  | addRecord zone rdata _ ih => exact hcall (.addRecord zone rdata) ih
  | setWildcard zone wildcard _ ih => exact hcall (.setWildcard zone wildcard) ih
  | deleteRecords zone type _ ih => exact hcall (.deleteRecords zone type) ih
  | deleteNode zone _ ih => exact hcall (.deleteNode zone) ih

end FindsNames

/-! ## Trees -/

/-- Trees that come about from an empty one find their names. -/
theorem Tree.findsNames_of_reached {tree : Tree} {startedAt : Timestamp}
    (h : Reached (Tree.empty startedAt) tree) : FindsNames tree := by
  rcases h.history with ⟨events, hevents⟩
  intro zone name hname
  exact (sound_of_history hevents).resolve_of_nameOf? (Except.ok.inj hname)

/-! ## Rows -/

namespace Relations

variable {rows next : Relations} {zone parent : ZoneId} {label : Label} {name : Name}

/-- What tells a node apart from the other children of its parent. -/
def place (row : ZoneRow) : ZoneId × (Nat × List UInt8) :=
  (row.parent, labelKey row.label)

/-- Nodes have numbers and places of their own. -/
structure Placed (rows : Relations) : Prop where
  distinct : rows.Distinct
  places : (rows.zones.map place).Nodup

/-- Every row is found by its place. -/
theorem Placed.child?_of_mem (h : rows.Placed) {row : ZoneRow} (hmem : row ∈ rows.zones) :
    rows.child? row.parent row.label = some row := by
  cases hfind : rows.child? row.parent row.label with
  | none => exact absurd (decide_eq_true ⟨rfl, rfl⟩) (List.find?_eq_none.1 hfind row hmem)
  | some other =>
      have hplace : place other = place row := by
        simpa [place] using List.find?_some hfind
      rw [List.inj_on_of_nodup_map h.places (mem_of_child? hfind) hmem hplace]

/-! ### Changes -/

theorem placed_empty (startedAt : Timestamp) : (empty startedAt).Placed where
  distinct := distinct_empty startedAt
  places := List.nodup_nil

/-- A new node takes a place that is free. -/
theorem Placed.addNode (h : rows.Placed) {wildcard : Bool} {id : ZoneId}
    (hadd : rows.addNode parent label wildcard = .ok (id, next)) : next.Placed := by
  refine ⟨h.distinct.addNode hadd, ?_⟩
  unfold Relations.addNode at hadd
  split at hadd
  · cases hadd
  · split at hadd
    · cases hadd
    · rename_i hfree
      cases hadd
      have hnone : rows.child? parent label = none := by simpa using hfree
      rw [List.map_append, List.nodup_append]
      refine ⟨h.places, List.nodup_singleton _, ?_⟩
      rintro old hold new hnew rfl
      rcases List.mem_map.1 hold with ⟨row, hrow, hplace⟩
      rw [List.map_singleton, List.mem_singleton] at hnew
      have hthere : row.parent = parent ∧ labelKey row.label = labelKey label :=
        Prod.mk.inj (hplace.trans hnew)
      exact absurd (decide_eq_true hthere) (List.find?_eq_none.1 hnone row hrow)

/-- Where nodes only leave or change their marks, places stay distinct. -/
theorem Placed.of_sublist (h : rows.Placed) (hdistinct : next.Distinct)
    (hplaces : (next.zones.map place).Sublist (rows.zones.map place)) : next.Placed :=
  ⟨hdistinct, h.places.sublist hplaces⟩

theorem Placed.addRecord (h : rows.Placed) {rdata : Rdata Name} {id : Nat}
    (hadd : rows.addRecord zone rdata = .ok (id, next)) : next.Placed := by
  refine h.of_sublist (h.distinct.addRecord hadd) ?_
  unfold Relations.addRecord at hadd
  split at hadd
  · cases hadd
  · rcases exists_of_bind hadd with ⟨stored, -, hnext⟩
    cases hnext
    exact List.Sublist.refl _

theorem Placed.setWildcard (h : rows.Placed) {wildcard : Bool} {done : Unit}
    (hset : rows.setWildcard zone wildcard = .ok (done, next)) : next.Placed := by
  refine h.of_sublist (h.distinct.setWildcard hset) ?_
  unfold Relations.setWildcard at hset
  split at hset
  · cases hset
  · cases hset
    rw [List.map_map, List.map_congr_left (g := place)]
    intro row _
    by_cases hrow : row.id = zone <;> simp [hrow, place]

theorem Placed.deleteNode (h : rows.Placed) {done : Unit}
    (hdelete : rows.deleteNode zone = .ok (done, next)) : next.Placed := by
  refine h.of_sublist (h.distinct.deleteNode hdelete) ?_
  unfold Relations.deleteNode at hdelete
  repeat' split at hdelete
  all_goals cases hdelete
  exact List.filter_sublist.map _

/-- Rows that come about from none by changes have places of their own. -/
theorem placed_of_reached {startedAt : Timestamp} (h : Reached (empty startedAt) rows) :
    rows.Placed := by
  induction h with
  | start => exact placed_empty startedAt
  | addNode parent label wildcard _ ih => exact Change.perform_step ih fun _ _ => ih.addNode
  | addRecord zone rdata _ ih => exact Change.perform_step ih fun _ _ => ih.addRecord
  | setWildcard zone wildcard _ ih => exact Change.perform_step ih fun _ _ => ih.setWildcard
  | deleteRecords zone type _ ih =>
      apply Change.perform_step ih
      intro count next hdelete
      cases hdelete
      exact ⟨ih.distinct.deleteRecords zone type, ih.places⟩
  | deleteNode zone _ ih => exact Change.perform_step ih fun _ _ => ih.deleteNode

/-! ### Up and down -/

/-- The labels of a chain that ends below the root lead down through its nodes. -/
theorem Placed.walk_of_chain (h : rows.Placed) {steps : Nat} (more : List Label)
    (hlast : ∃ last, (rows.chain steps zone).getLast? = some last ∧ last.parent = rootZone) :
    rows.walk rootZone (((rows.chain steps zone).map ZoneRow.label).reverse ++ more) =
      ((rows.chain steps zone).map ZoneRow.node).reverse ++ rows.walk zone more := by
  -- The way down to the parent comes first; from there the label of the zone leads one step on.
  induction steps generalizing zone more with
  | zero =>
      rcases hlast with ⟨last, hlast, -⟩
      cases hlast
  | succ steps ih =>
      unfold chain at hlast ⊢
      cases hrow : rows.row? zone with
      | none =>
          rw [hrow] at hlast
          rcases hlast with ⟨last, hlast, -⟩
          cases hlast
      | some row =>
          rw [hrow] at hlast
          have hmem : row ∈ rows.zones := List.mem_of_find?_eq_some hrow
          have hid : row.id = zone := by simpa using List.find?_some hrow
          have hstep : rows.walk row.parent (row.label :: more) =
              row.node :: rows.walk zone more := by
            rw [walk, h.child?_of_mem hmem]
            exact hid ▸ rfl
          dsimp only at hlast ⊢
          rw [List.map_cons, List.map_cons, List.reverse_cons, List.reverse_cons,
            List.append_assoc, List.append_assoc, List.singleton_append, List.singleton_append]
          cases hrest : rows.chain steps row.parent with
          | nil =>
              rw [hrest] at hlast
              rcases hlast with ⟨_, ⟨⟩, hparent⟩
              change row.parent = rootZone at hparent
              rw [hparent] at hstep
              exact hstep
          | cons above rest =>
              rw [hrest, List.getLast?_cons_cons, ← hrest] at hlast
              rw [← hrest, ih _ hlast, hstep]

theorem Placed.findsNames (h : rows.Placed) : FindsNames rows := by
  intro zone name hname
  change rows.nameOf? zone = _ at hname
  change rows.resolve name = _
  unfold nameOf? at hname
  by_cases hroot : zone = rootZone
  · subst hroot
    rw [if_pos rfl] at hname
    cases hname
    rfl
  · rw [if_neg hroot] at hname
    dsimp only at hname
    split at hname
    · cases hname
    · rename_i last hlast
      split at hname
      · cases hname
      · rename_i hparent
        rcases exists_of_bind (ok_of_mapError_map_some hname) with ⟨plain, hplain, hresolve⟩
        have hlabels : name.labels = (rows.chain maxDepth zone).map ZoneRow.label :=
          (Name.labels_of_resolve hresolve).1.trans (Name.labels_of_ofLabels hplain)
        have hwalk := h.walk_of_chain [] ⟨last, hlast, not_not.1 hparent⟩
        rw [List.append_nil, walk, List.append_nil] at hwalk
        unfold resolve
        rw [hlabels, hwalk, Name.resolve_again hresolve]
        rfl

/-- Rows that come about from none find their names. -/
theorem findsNames_of_reached {startedAt : Timestamp} (h : Reached (empty startedAt) rows) :
    FindsNames rows :=
  (placed_of_reached h).findsNames

end Relations

end Zone
end NameServer
