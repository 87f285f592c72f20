import NameServer.Proofs.Zone.Tandem

/-!
# Proofs.Zone.References — what stored rows refer to

Rows tell fewer labels apart than a tree, so the same calls need not have the same outcomes on both.
But there is always a tree with the same contents: what a call does to the rows is something that a
call does to that tree. So what is known of the references of trees is known of those of rows.

* `Mirrors.steps` — the tree follows every call on the rows;
* `Mirrors.hasName_of_returns` — a name that the rows give out is one that its zone has;
* `Relations.followed_of_history` — rows that come about by calls are followed by a tree;
* `Relations.intact_of_history` — records that are stored with fresh names refer to zones that are
  there, and are served.
-/

namespace NameServer
namespace Zone

variable {tree : Tree} {rows rows' : Relations} {zone parent : ZoneId} {name : Name}
variable {held : Label → Prop}

/-- Rows spell the name that the nodes they tell of spell. -/
theorem Tree.nameOfPath_rows (chain : List ZoneRow) :
    nameOfPath (chain.map fun row => (row.id, row.toNode)) =
      Name.ofLabels (chain.map ZoneRow.label) >>= fun name =>
        name.resolve (chain.map ZoneRow.node).reverse := by
  unfold nameOfPath
  rw [List.map_map, List.map_map]
  rfl

/-! ## Calls that are followed -/

namespace Mirrors

/-- A change of rows that fails does nothing; one that succeeds is followed if it is known to be. -/
theorem follows_of_step {α : Type} {f : Relations → Except Fault (α × Relations)}
    {answer : α → Answer} {call : Call} (h : Mirrors held tree rows)
    (hstep : ∀ a rows', f rows = .ok (a, rows') →
      ∃ next, tree.Steps call (.ok (answer a)) next ∧ Mirrors held next rows') :
    ∃ next, tree.Steps call (Change.answered answer (Change.step f) rows).1 next ∧
      Mirrors held next (Change.answered answer (Change.step f) rows).2 := by
  unfold Change.answered
  cases hf : f rows with
  | error fault =>
      rw [Change.perform_step_error hf]
      exact ⟨tree, .fails call fault, h⟩
  | ok result =>
      rcases result with ⟨a, rows'⟩
      rw [Change.perform_step_ok hf]
      exact hstep a rows' hf

theorem follows_addNode (h : Mirrors held tree rows) {label : Label} {wildcard : Bool} {id : ZoneId}
    (hlabel : held label) (hadd : rows.addNode parent label wildcard = .ok (id, rows')) :
    ∃ next, tree.Steps (.addNode parent label wildcard) (.ok (.zone id)) next ∧
      Mirrors held next rows' := by
  unfold Relations.addNode at hadd
  split at hadd
  · cases hadd
  · rename_i hparent
    split at hadd
    · cases hadd
    · rename_i hfree
      cases hadd
      rw [Bool.not_eq_true', Bool.not_eq_false, h.hasZone_eq] at hparent
      rcases Tree.exists_addNode hparent (h.child?_eq_none (by simpa using hfree)) wildcard with
        ⟨id, next, -, hadds⟩
      obtain rfl : id = rows.lastZone + 1 := hadds.id_eq.trans h.nextZone
      exact ⟨next, .adds hadds, h.adds hlabel hadds⟩

theorem follows_addRecord (h : Mirrors held tree rows) {rdata : Rdata Name} {number : Nat}
    (hadd : rows.addRecord zone rdata = .ok (number, rows')) :
    ∃ next, tree.Steps (.addRecord zone rdata) (.ok (.count number)) next ∧
      Mirrors held next rows' := by
  unfold Relations.addRecord at hadd
  split at hadd
  · cases hadd
  · rename_i hzone
    rw [Bool.not_eq_true', Bool.not_eq_false, h.hasZone_eq] at hzone
    rcases exists_of_bind hadd with ⟨stored, hstored, hnext⟩
    have hfull : ∀ target ∈ rdata.references, target.isFullyResolved = true := by
      intro target htarget
      rcases Rdata.succeeds_of_mapM hstored target htarget with ⟨id, hid⟩
      unfold Relations.reference at hid
      split at hid
      · assumption
      · cases hid
    rw [mapM_reference hfull] at hstored
    cases hstored
    cases hnext
    rcases Tree.exists_addRecord hzone hfull with ⟨-, next, -, hrecords⟩
    exact ⟨next, .records _ hrecords, h.records hrecords _ _⟩

theorem follows_setWildcard (h : Mirrors held tree rows) {wildcard : Bool} {done : Unit}
    (hset : rows.setWildcard zone wildcard = .ok (done, rows')) :
    ∃ next, tree.Steps (.setWildcard zone wildcard) (.ok .done) next ∧
      Mirrors held next rows' := by
  unfold Relations.setWildcard at hset
  split at hset
  · cases hset
  · rename_i hrow
    cases hset
    cases hnode : tree.nodes[zone]? with
    | none => rw [h.row?_eq, hnode] at hrow; exact absurd rfl hrow
    | some node =>
        rcases Tree.exists_setWildcard hnode wildcard with ⟨next, -, hmarks⟩
        exact ⟨next, .marks hmarks, h.marks hmarks⟩

theorem follows_deleteNode (h : Mirrors held tree rows) {done : Unit}
    (hdelete : rows.deleteNode zone = .ok (done, rows')) :
    ∃ next, tree.Steps (.deleteNode zone) (.ok .done) next ∧ Mirrors held next rows' := by
  have hroot : zone ≠ rootZone := by
    rintro rfl
    cases hdelete
  have hchildless : tree.children zone = [] := by
    rw [h.children_eq, ← List.length_eq_zero_iff]
    by_contra hchildren
    unfold Relations.deleteNode at hdelete
    rw [if_neg hroot, if_pos hchildren] at hdelete
    cases hdelete
  have hboth := h.deleteNode hroot hchildless
  rw [hdelete] at hboth
  generalize htree : tree.deleteNode zone = result at hboth
  cases hboth with
  | happen _ hnext => exact ⟨_, .removes (Tree.removes_of_deleteNode htree), hnext⟩

/-- Whatever a call does to the rows, it does something to the tree that makes it mirror them. -/
theorem steps (h : Mirrors (fun _ => True) tree rows) (call : Call) :
    ∃ next, tree.Steps call (call.perform rows).1 next ∧
      Mirrors (fun _ => True) next (call.perform rows).2 := by
  cases call with
  | resolve | records | isWildcard | nameOf | children | statistics =>
      exact ⟨tree, .reads _ rfl, h⟩
  | addNode parent label wildcard =>
      exact h.follows_of_step fun _ _ => h.follows_addNode trivial
  | addRecord zone rdata => exact h.follows_of_step fun _ _ => h.follows_addRecord
  | setWildcard zone wildcard => exact h.follows_of_step fun _ _ => h.follows_setWildcard
  | deleteRecords zone type =>
      refine h.follows_of_step (f := fun rows => .ok (rows.deleteRecords zone type)) ?_
      rintro count rows' hdelete
      have hclears := Tree.clears_deleteRecords tree zone type
      have hnext := h.clears hclears
      rw [Except.ok.inj hdelete] at hnext
      exact ⟨_, .clears count hclears, hnext⟩
  | deleteNode zone => exact h.follows_of_step fun _ _ => h.follows_deleteNode

/-! ## Names that rows give out -/

/-- A walk along rows ends at a zone whose labels are as long as those it found rows for. -/
theorem exists_spells_of_walk (h : Mirrors held tree rows) (labels : List Label)
    {front : List Label} (hfront : tree.Spells parent front) :
    ∃ spelled, tree.Spells (Name.lastId parent (rows.walk parent labels)) spelled ∧
      Name.literalSize spelled ≤ Name.literalSize labels + Name.literalSize front := by
  induction labels generalizing parent front with
  | nil => exact ⟨front, hfront, by simp [Name.literalSize]⟩
  | cons label labels ih =>
      unfold Relations.walk
      cases hchild : rows.child? parent label with
      | none => exact ⟨front, hfront, Nat.le_add_left _ _⟩
      | some row =>
          have hnode := (h.zones row).1 (Relations.mem_of_child? hchild)
          have hfound : row.parent = parent ∧
              Relations.labelKey row.label = Relations.labelKey label := by
            simpa using List.find?_some hchild
          rcases hfound with ⟨rfl, hkey⟩
          rcases hfront with ⟨path, hclimb, rfl⟩
          have hstep : tree.Spells row.id (row.label :: Tree.labelsOfPath path) :=
            ⟨(row.id, row.toNode) :: path,
              .node (Int.ne_of_gt (h.sound.id_pos row.id _ hnode)) hnode hclimb, rfl⟩
          rcases ih hstep with ⟨spelled, hspelled, hsize⟩
          refine ⟨spelled, by dsimp only; rw [Name.lastId_cons]; exact hspelled, ?_⟩
          have hlabel : row.label.size = label.size := congrArg Prod.fst hkey
          simp only [Name.literalSize] at hsize ⊢
          omega

/-- A name that rows resolve ends at a zone that has a name. -/
theorem hasName_of_resolve (h : Mirrors held tree rows) {asked : Name}
    (hresolve : rows.resolve asked = .ok name) : tree.HasName name.zoneId := by
  unfold Relations.resolve at hresolve
  cases hnodes : asked.resolve (rows.walk rootZone asked.labels.reverse) with
  | error e =>
      rw [hnodes] at hresolve
      cases hresolve
  | ok found =>
      rw [hnodes] at hresolve
      cases hresolve
      rcases h.exists_spells_of_walk asked.labels.reverse tree.spells_root with
        ⟨spelled, hspelled, hsize⟩
      rw [Name.zoneId_eq_lastId, Name.nodes_of_form (Name.labels_of_resolve hnodes).2]
      refine ⟨spelled, hspelled, ?_⟩
      have hasked := asked.size_le
      rw [Name.literalSize_reverse] at hsize
      unfold Name.wireSize at hasked ⊢
      exact Nat.le_trans (Nat.succ_le_succ hsize) hasked

/-- A chain of rows that ends below the root is the way up of the tree. -/
theorem climb_of_chain (h : Mirrors held tree rows) {steps : Nat} {last : ZoneRow}
    (hlast : (rows.chain steps zone).getLast? = some last) (hparent : last.parent = rootZone) :
    tree.Climb zone ((rows.chain steps zone).map fun row => (row.id, row.toNode)) := by
  induction steps generalizing zone with
  | zero => cases hlast
  | succ steps ih =>
      unfold Relations.chain at hlast ⊢
      cases hrow : rows.row? zone with
      | none =>
          rw [hrow] at hlast
          cases hlast
      | some row =>
          rw [hrow] at hlast
          dsimp only at hlast ⊢
          have hmem := List.mem_of_find?_eq_some hrow
          have hnode := (h.zones row).1 hmem
          have hid : row.id = zone := by simpa using List.find?_some hrow
          subst hid
          have hne : row.id ≠ rootZone := Int.ne_of_gt (h.sound.id_pos row.id _ hnode)
          cases hrest : rows.chain steps row.parent with
          | nil =>
              rw [hrest] at hlast
              cases hlast
              refine Tree.Climb.node hne hnode ?_
              rw [show row.toNode.parent = rootZone from hparent]
              exact Tree.Climb.root
          | cons next others =>
              rw [hrest] at hlast
              rw [← hrest]
              refine Tree.Climb.node hne hnode (ih ?_)
              rw [show row.toNode.parent = row.parent from rfl, hrest]
              simpa using hlast

/-- A name that rows put together is the one that the tree does. -/
theorem nameOf?_of_rows (h : Mirrors held tree rows)
    (hname : rows.nameOf? zone = .ok (some name)) : tree.nameOf? zone = some name := by
  unfold Relations.nameOf? at hname
  by_cases hroot : zone = rootZone
  · subst hroot
    rw [if_pos rfl] at hname
    refine h.sound.nameOf?_of_climb Tree.Climb.root ?_
    change Name.root.resolve [] = .ok name
    cases hresolve : Name.root.resolve [] with
    | error e =>
        rw [hresolve] at hname
        cases hname
    | ok found =>
        rw [hresolve] at hname
        cases hname
        rfl
  · rw [if_neg hroot] at hname
    dsimp only at hname
    cases hlast : (rows.chain Relations.maxDepth zone).getLast? with
    | none =>
        rw [hlast] at hname
        cases hname
    | some last =>
        rw [hlast] at hname
        dsimp only at hname
        split at hname
        · cases hname
        · rename_i hparent
          refine h.sound.nameOf?_of_climb (h.climb_of_chain hlast (not_not.1 hparent)) ?_
          rw [← Tree.nameOfPath_rows] at hname
          cases hspelled : Tree.nameOfPath ((rows.chain Relations.maxDepth zone).map
              fun row => (row.id, row.toNode)) with
          | error e =>
              rw [hspelled] at hname
              cases hname
          | ok made =>
              rw [hspelled] at hname
              cases hname
              rfl

/-- A name that is given out is one that its zone has. -/
theorem hasName_of_returns (h : Mirrors held tree rows) {call : Call}
    (hreturns : Tree.returns name ⟨call, (call.perform rows).1⟩ = true) :
    tree.HasName name.zoneId := by
  rcases Tree.call_of_returns hreturns with ⟨asked, rfl, houtcome⟩ | ⟨zone, rfl, houtcome⟩
  · change (rows.resolve asked).map Answer.name = _ at houtcome
    cases hresolve : rows.resolve asked with
    | error fault =>
        rw [hresolve] at houtcome
        cases houtcome
    | ok resolved =>
        rw [hresolve] at houtcome
        cases houtcome
        exact h.hasName_of_resolve hresolve
  · change (rows.nameOf? zone).map Answer.name? = _ at houtcome
    cases hname : rows.nameOf? zone with
    | error fault =>
        rw [hname] at houtcome
        cases houtcome
    | ok found? =>
        rw [hname] at houtcome
        cases houtcome
        have hfound := h.nameOf?_of_rows hname
        rw [(Tree.zoneId_of_nameOf? hfound).2]
        exact Tree.hasName_of_nameOf? hfound

end Mirrors

/-! ## Histories of rows -/

namespace Relations

/-- The tree mirrors the rows and has all names that are still fresh, and where only fresh names were
stored, all its references have names. -/
structure Followed (events : List Event) (rows : Relations) (tree : Tree) : Prop where
  mirrors : Mirrors (fun _ => True) tree rows
  named : ∀ name, Tree.isFresh events name = true → tree.HasName name.zoneId
  grounded : Tree.isSourced Tree.isFresh events = true → tree.Grounded

theorem followed_of_history {startedAt : Timestamp} {events : List Event}
    (h : History (empty startedAt) events rows) : ∃ tree, Followed events rows tree := by
  induction h with
  | start =>
      refine ⟨Tree.empty startedAt, mirrors_empty _ _ _, fun _ hfresh => ?_, fun _ => ?_⟩
      · cases hfresh
      · exact Tree.grounded_empty startedAt
  | @call events rows call hbefore ih =>
      rcases ih with ⟨tree, hmirrors, hnamed, hgrounded⟩
      rcases hmirrors.steps call with ⟨next, hsteps, hnext⟩
      refine ⟨next, hnext, fun name hfresh => ?_, fun hsourced => ?_⟩
      · -- This call gives the name out, or it was fresh before and its zone is not deleted now.
        rw [Tree.isFresh, Bool.or_eq_true, Bool.and_eq_true] at hfresh
        rcases hfresh with hreturns | ⟨hstays, hearlier⟩
        · refine (hmirrors.hasName_of_returns hreturns).steps hmirrors.sound hsteps ?_
          rintro rfl
          cases hreturns
        · refine (hnamed name hearlier).steps hmirrors.sound hsteps fun hcall houtcome => ?_
          refine of_decide_eq_true hstays ?_
          rw [houtcome, hcall]
      · rw [Tree.isSourced, Bool.and_eq_true] at hsourced
        rcases hsourced with ⟨hnow, hearlier⟩
        refine (hgrounded hearlier).steps hmirrors.sound hsteps ?_
        rintro zone rdata rfl target htarget
        have hfresh := List.all_eq_true.1 hnow target htarget
        exact hnamed target (Bool.and_eq_true_iff.1 hfresh).2

/-- Every stored record refers to the root or to nodes, and records are always served. -/
structure Intact (rows : Relations) : Prop where
  refers : ∀ row ∈ rows.records, ∀ target ∈ row.rdata.references, rows.hasZone target = true
  served : ∀ zone type limit, Succeeds (Store.records rows zone type limit)

/-- Records that are stored with fresh names refer to zones that are there, and stay so. -/
theorem intact_of_history {startedAt : Timestamp} {events : List Event}
    (h : History (empty startedAt) events rows)
    (hsourced : Tree.isSourced Tree.isFresh events = true) : rows.Intact := by
  rcases followed_of_history h with ⟨tree, hmirrors, -, hgrounded⟩
  have hgrounded := hgrounded hsourced
  constructor
  case refers =>
    intro row hrow target htarget
    rw [hmirrors.hasZone_eq]
    refine (hgrounded row.zone row.rdata ?_ target htarget).hasZone
    rw [hmirrors.recordsAt]
    exact List.mem_map_of_mem (List.mem_filter.2 ⟨hrow, decide_eq_true rfl⟩)
  case served =>
    intro zone type limit
    rw [← hmirrors.records_eq hgrounded]
    exact hmirrors.sound.records_succeed hgrounded zone type limit

/-- The sample stores fresh names only, and records that refer to them. -/
example :
    let rows := sampleCalls.foldl record ([], empty ⟨0, 0⟩)
    Tree.isSourced Tree.isFresh rows.1 = true ∧
      (rows.2.records.any fun row => row.rdata.references.contains 1) = true := by
  decide +kernel

end Relations
end Zone
end NameServer
