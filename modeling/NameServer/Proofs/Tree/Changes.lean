import NameServer.Proofs.Zone.Calls

/-!
# Proofs.Tree.Changes — what each change does to a tree

Each change of a tree of maps is described once, by all that it asks for and all that it does, so
that nothing else has to be known of the maps.

* `Tree.Adds`, `Tree.Records`, `Tree.Marks`, `Tree.Clears`, `Tree.Removes` — a new node, a new
  record, a new mark, the records of a type and a node that are gone;
* `Tree.adds_of_addNode` and its siblings — a change that succeeds does that;
* `Tree.steps` — every call only looks, fails and does nothing, or makes one of these changes;
* `Tree.perform_error` — a call that fails leaves the tree as it was.
-/

namespace NameServer
namespace Zone

namespace Tree

variable {tree next : Tree} {zone parent id : ZoneId} {label : Label} {wildcard : Bool}

/-! ## What a tree tells -/

/-- The nodes are listed in the order of their numbers. -/
theorem nodes_rise (tree : Tree) :
    tree.nodes.toList.Pairwise fun entry later => entry.1 < later.1 :=
  Std.TreeMap.ordered_keys_toList.imp fun hlt => Std.compare_eq_lt.1 hlt

theorem hasZone_iff : tree.hasZone zone = true ↔
    zone = rootZone ∨ ∃ node, tree.nodes[zone]? = some node := by
  unfold hasZone
  rw [Bool.or_eq_true, beq_iff_eq, Std.TreeMap.contains_eq_isSome_getElem?,
    Option.isSome_iff_exists]

theorem mem_children {child : Child} : child ∈ tree.children zone ↔
    ∃ node, tree.nodes[child.id]? = some node ∧ node.parent = zone ∧
      child = ⟨child.id, node.label, node.wildcard⟩ := by
  simp only [children, List.mem_map, List.mem_filter, decide_eq_true_eq, Prod.exists,
    Std.TreeMap.mem_toList_iff_getElem?_eq_some]
  constructor
  · rintro ⟨id, node, ⟨hnode, hparent⟩, rfl⟩
    exact ⟨node, hnode, hparent, rfl⟩
  · rintro ⟨node, hnode, hparent, hchild⟩
    exact ⟨child.id, node, ⟨hnode, hparent⟩, hchild.symm⟩

/-- A zone has no children when no node hangs below it. -/
theorem isEmpty_children : (tree.children zone).isEmpty = true ↔
    ∀ (id : ZoneId) (node : Node), tree.nodes[id]? = some node → node.parent ≠ zone := by
  rw [List.isEmpty_iff, List.eq_nil_iff_forall_not_mem]
  constructor
  · intro h id node hnode hparent
    exact h ⟨id, node.label, node.wildcard⟩ (mem_children.2 ⟨node, hnode, hparent, rfl⟩)
  · intro h child hchild
    rcases mem_children.1 hchild with ⟨node, hnode, hparent, -⟩
    exact h child.id node hnode hparent

theorem recordsAt_eq {records : List (Rdata ZoneId)} (h : tree.records[zone]? = some records) :
    tree.recordsAt zone = records := by
  unfold recordsAt
  rw [Std.TreeMap.getD_eq_getD_getElem?, h]
  rfl

theorem getElem?_records_of_mem {rdata : Rdata ZoneId} (h : rdata ∈ tree.recordsAt zone) :
    tree.records[zone]? = some (tree.recordsAt zone) := by
  cases hrecords : tree.records[zone]? with
  | some records => rw [recordsAt_eq hrecords]
  | none =>
      unfold recordsAt at h
      rw [Std.TreeMap.getD_eq_getD_getElem?, hrecords] at h
      cases h

/-- A zone is not referred to when no record at another zone does so. -/
theorem isReferenced_eq_false : tree.isReferenced zone = false ↔
    ∀ other, other ≠ zone → ∀ rdata ∈ tree.recordsAt other, zone ∉ rdata.references := by
  unfold isReferenced
  rw [List.any_eq_false]
  constructor
  · intro h other hne rdata hrdata hmem
    refine h (other, tree.recordsAt other) ?_ ?_
    · exact Std.TreeMap.mem_toList_iff_getElem?_eq_some.2 (getElem?_records_of_mem hrdata)
    · simp only [Bool.and_eq_true, bne_iff_ne, List.any_eq_true, List.contains_iff_mem]
      exact ⟨hne, rdata, hrdata, hmem⟩
  · rintro h ⟨other, records⟩ hentry hreferred
    have hrecords := Std.TreeMap.mem_toList_iff_getElem?_eq_some.1 hentry
    simp only [Bool.and_eq_true, bne_iff_ne, List.any_eq_true, List.contains_iff_mem] at hreferred
    rcases hreferred with ⟨hne, rdata, hrdata, hmem⟩
    exact h other hne rdata (recordsAt_eq hrecords ▸ hrdata) hmem

/-! ## A new node -/

/-- `next` is the tree with a node `id` below `parent`. -/
structure Adds (tree : Tree) (parent : ZoneId) (label : Label) (wildcard : Bool) (id : ZoneId)
    (next : Tree) : Prop where
  hasParent : tree.hasZone parent = true
  free : tree.index[(parent, label.folded)]? = none
  id_eq : id = tree.nextZone
  nextZone : next.nextZone = id + 1
  node : ∀ zone : ZoneId, next.nodes[zone]? =
    if id = zone then some ⟨label, parent, wildcard⟩ else tree.nodes[zone]?
  index : ∀ place : Place, next.index[place]? =
    if (parent, label.folded) = place then some id else tree.index[place]?
  records : next.records = tree.records

theorem Adds.recordsAt (h : tree.Adds parent label wildcard id next) (zone : ZoneId) :
    next.recordsAt zone = tree.recordsAt zone := by
  unfold Tree.recordsAt
  rw [h.records]

theorem adds_of_addNode (h : tree.addNode parent label wildcard = .ok (id, next)) :
    tree.Adds parent label wildcard id next := by
  unfold addNode child? at h
  split at h
  · cases h
  · rename_i hparent
    split at h
    · cases h
    · rename_i hfree
      cases h
      exact {
        hasParent := by simpa using hparent
        free := hfree
        id_eq := rfl
        nextZone := rfl
        node := fun zone => by
          simp only [Std.TreeMap.getElem?_insert, Std.LawfulEqCmp.compare_eq_iff_eq]
        index := fun place => by
          simp only [Std.TreeMap.getElem?_insert, Std.LawfulEqCmp.compare_eq_iff_eq, Node.place]
        records := rfl }

/-! ## A new record -/

/-- `next` is the tree with one more record at `zone`. -/
structure Records (tree : Tree) (zone : ZoneId) (rdata : Rdata Name) (next : Tree) : Prop where
  hasZone : tree.hasZone zone = true
  resolved : ∀ name ∈ rdata.references, name.isFullyResolved = true
  nodes : next.nodes = tree.nodes
  index : next.index = tree.index
  nextZone : next.nextZone = tree.nextZone
  mem_records : ∀ other, other ∈ next.records ↔ zone = other ∨ other ∈ tree.records
  recordsAt : ∀ other, next.recordsAt other =
    if zone = other then tree.recordsAt zone ++ [rdata.map Name.zoneId] else tree.recordsAt other

theorem records_of_addRecord {rdata : Rdata Name} {number : Nat}
    (h : tree.addRecord zone rdata = .ok (number, next)) : tree.Records zone rdata next := by
  unfold addRecord at h
  split at h
  · cases h
  · rename_i hzone
    split at h
    · cases h
    · rename_i hresolved
      cases h
      exact {
        hasZone := by simpa using hzone
        resolved := by simpa using hresolved
        nodes := rfl
        index := rfl
        nextZone := rfl
        mem_records := fun other => by
          simp only [Std.TreeMap.mem_insert, Std.LawfulEqCmp.compare_eq_iff_eq]
        recordsAt := fun other => by
          simp only [Tree.recordsAt, Std.TreeMap.getD_insert, Std.LawfulEqCmp.compare_eq_iff_eq] }

/-! ## A new mark -/

/-- `next` is the tree with the mark of the node `zone` set or cleared. -/
structure Marks (tree : Tree) (zone : ZoneId) (wildcard : Bool) (next : Tree) : Prop where
  node : ∃ node, tree.nodes[zone]? = some node ∧ ∀ other : ZoneId, next.nodes[other]? =
    if zone = other then some { node with wildcard } else tree.nodes[other]?
  index : next.index = tree.index
  nextZone : next.nextZone = tree.nextZone
  records : next.records = tree.records

theorem Marks.recordsAt (h : tree.Marks zone wildcard next) (other : ZoneId) :
    next.recordsAt other = tree.recordsAt other := by
  unfold Tree.recordsAt
  rw [h.records]

theorem marks_of_setWildcard {done : Unit} (h : tree.setWildcard zone wildcard = .ok (done, next)) :
    tree.Marks zone wildcard next := by
  unfold setWildcard at h
  split at h
  · cases h
  · rename_i node hnode
    cases h
    exact {
      node := ⟨node, hnode, fun other => by
        simp only [Std.TreeMap.getElem?_insert, Std.LawfulEqCmp.compare_eq_iff_eq]⟩
      index := rfl
      nextZone := rfl
      records := rfl }

/-! ## Records that are gone -/

/-- `next` is the tree without the records of a type at `zone`. -/
structure Clears (tree : Tree) (zone : ZoneId) (type : RecordType) (next : Tree) : Prop where
  nodes : next.nodes = tree.nodes
  index : next.index = tree.index
  nextZone : next.nextZone = tree.nextZone
  mem_records : ∀ other, other ∈ next.records ↔ other ∈ tree.records
  recordsAt : ∀ other, next.recordsAt other =
    if zone = other then (tree.recordsAt zone).filter fun rdata => rdata.type ≠ type
    else tree.recordsAt other

theorem Clears.sublist {type : RecordType} (h : tree.Clears zone type next) (other : ZoneId) :
    (next.recordsAt other).Sublist (tree.recordsAt other) := by
  rw [h.recordsAt]
  by_cases hzone : zone = other
  · subst hzone
    rw [if_pos rfl]
    exact List.filter_sublist
  · rw [if_neg hzone]

theorem clears_deleteRecords (tree : Tree) (zone : ZoneId) (type : RecordType) :
    tree.Clears zone type (tree.deleteRecords zone type).2 := by
  unfold deleteRecords
  cases hrecords : tree.records[zone]? with
  | none =>
      have hnone : tree.recordsAt zone = [] := by
        unfold Tree.recordsAt
        rw [Std.TreeMap.getD_eq_getD_getElem?, hrecords]
        rfl
      refine ⟨rfl, rfl, rfl, fun _ => Iff.rfl, fun other => ?_⟩
      by_cases hzone : zone = other
      · rw [if_pos hzone, hnone, ← hzone]
        exact hnone
      · rw [if_neg hzone]
  | some records =>
      refine ⟨rfl, rfl, rfl, fun other => ?_, fun other => ?_⟩
      · simp only [Std.TreeMap.mem_insert, Std.LawfulEqCmp.compare_eq_iff_eq]
        constructor
        · rintro (rfl | hmem)
          · exact Std.TreeMap.mem_iff_isSome_getElem?.2 (by rw [hrecords]; rfl)
          · exact hmem
        · exact Or.inr
      · rw [recordsAt_eq hrecords]
        simp only [Tree.recordsAt, Std.TreeMap.getD_insert, Std.LawfulEqCmp.compare_eq_iff_eq]

theorem fst_deleteRecords (tree : Tree) (zone : ZoneId) (type : RecordType) :
    (tree.deleteRecords zone type).1 =
      ((tree.recordsAt zone).filter fun rdata => rdata.type = type).length := by
  unfold deleteRecords
  cases hrecords : tree.records[zone]? with
  | none =>
      unfold Tree.recordsAt
      rw [Std.TreeMap.getD_eq_getD_getElem?, hrecords]
      rfl
  | some records =>
      have hlength := List.length_eq_length_filter_add (l := records) fun rdata => rdata.type = type
      rw [recordsAt_eq hrecords]
      simp only [ne_eq, decide_not]
      omega

/-! ## A node that is gone -/

/-- `next` is the tree without the node `zone` and its records. -/
structure Removes (tree : Tree) (zone : ZoneId) (next : Tree) : Prop where
  notRoot : zone ≠ rootZone
  childless : ∀ (id : ZoneId) (node : Node), tree.nodes[id]? = some node → node.parent ≠ zone
  unreferenced : ∀ other, other ≠ zone → ∀ rdata ∈ tree.recordsAt other, zone ∉ rdata.references
  node : ∀ other : ZoneId, next.nodes[other]? =
    if zone = other then none else tree.nodes[other]?
  index : ∃ node, tree.nodes[zone]? = some node ∧ ∀ place : Place, next.index[place]? =
    if node.place = place then none else tree.index[place]?
  nextZone : next.nextZone = tree.nextZone
  mem_records : ∀ other, other ∈ next.records ↔ zone ≠ other ∧ other ∈ tree.records
  recordsAt : ∀ other, next.recordsAt other = if zone = other then [] else tree.recordsAt other

theorem Removes.sublist (h : tree.Removes zone next) (other : ZoneId) :
    (next.recordsAt other).Sublist (tree.recordsAt other) := by
  rw [h.recordsAt]
  by_cases hzone : zone = other
  · rw [if_pos hzone]
    exact List.nil_sublist _
  · rw [if_neg hzone]

theorem removes_of_deleteNode {done : Unit} (h : tree.deleteNode zone = .ok (done, next)) :
    tree.Removes zone next := by
  unfold deleteNode at h
  split at h
  · cases h
  · rename_i hroot
    split at h
    · cases h
    · rename_i hchildren
      split at h
      · cases h
      · rename_i hreferenced
        split at h
        · cases h
        · rename_i node hnode
          cases h
          exact {
            notRoot := hroot
            childless := isEmpty_children.1 (by simpa using hchildren)
            unreferenced := isReferenced_eq_false.1 (by simpa using hreferenced)
            node := fun other => by
              simp only [Std.TreeMap.getElem?_erase, Std.LawfulEqCmp.compare_eq_iff_eq]
            index := ⟨node, hnode, fun place => by
              simp only [Std.TreeMap.getElem?_erase, Std.LawfulEqCmp.compare_eq_iff_eq]⟩
            nextZone := rfl
            mem_records := fun other => by
              simp only [Std.TreeMap.mem_erase, ne_eq, Std.LawfulEqCmp.compare_eq_iff_eq]
            recordsAt := fun other => by
              simp only [Tree.recordsAt, Std.TreeMap.getD_erase,
                Std.LawfulEqCmp.compare_eq_iff_eq] }

/-! ## Calls -/

/-- All that a call can do to a tree: it only looks, it fails and does nothing, or it makes one of
the changes. -/
inductive Steps (tree : Tree) : Call → Except Fault Answer → Tree → Prop
  | reads {call : Call} (outcome : Except Fault Answer) :
      call.isRead = true → Steps tree call outcome tree
  | fails (call : Call) (fault : Fault) : Steps tree call (.error fault) tree
  | adds {next : Tree} {parent id : ZoneId} {label : Label} {wildcard : Bool} :
      tree.Adds parent label wildcard id next →
        Steps tree (.addNode parent label wildcard) (.ok (.zone id)) next
  | records {next : Tree} {zone : ZoneId} {rdata : Rdata Name} (number : Nat) :
      tree.Records zone rdata next → Steps tree (.addRecord zone rdata) (.ok (.count number)) next
  | marks {next : Tree} {zone : ZoneId} {wildcard : Bool} :
      tree.Marks zone wildcard next → Steps tree (.setWildcard zone wildcard) (.ok .done) next
  | clears {next : Tree} {zone : ZoneId} {type : RecordType} (count : Nat) :
      tree.Clears zone type next → Steps tree (.deleteRecords zone type) (.ok (.count count)) next
  | removes {next : Tree} {zone : ZoneId} :
      tree.Removes zone next → Steps tree (.deleteNode zone) (.ok .done) next

/-- A change that fails does nothing; one that succeeds does what is known of it. -/
theorem steps_of_step {α : Type} {f : Tree → Except Fault (α × Tree)} {answer : α → Answer}
    {call : Call} (h : ∀ a next, f tree = .ok (a, next) → tree.Steps call (.ok (answer a)) next) :
    tree.Steps call (Change.answered answer (Change.step f) tree).1
      (Change.answered answer (Change.step f) tree).2 := by
  unfold Change.answered
  cases hf : f tree with
  | error fault =>
      rw [Change.perform_step_error hf]
      exact Steps.fails call fault
  | ok result =>
      rcases result with ⟨a, next⟩
      rw [Change.perform_step_ok hf]
      exact h a next hf

/-- Every call does one of these things. -/
theorem steps (tree : Tree) (call : Call) :
    tree.Steps call (call.perform tree).1 (call.perform tree).2 := by
  cases call with
  | resolve | records | isWildcard | nameOf | children | statistics => exact Steps.reads _ rfl
  | addNode parent label wildcard =>
      exact steps_of_step fun _ _ h => Steps.adds (adds_of_addNode h)
  | addRecord zone rdata =>
      exact steps_of_step fun number _ h => Steps.records number (records_of_addRecord h)
  | setWildcard zone wildcard =>
      exact steps_of_step fun _ _ h => Steps.marks (marks_of_setWildcard h)
  | deleteRecords zone type =>
      refine steps_of_step fun count next h => ?_
      have hclears := clears_deleteRecords tree zone type
      rw [Except.ok.inj h] at hclears
      exact Steps.clears count hclears
  | deleteNode zone =>
      exact steps_of_step fun _ _ h => Steps.removes (removes_of_deleteNode h)

/-- A call that fails leaves the tree as it was. -/
theorem perform_error {call : Call} {fault : Fault} (h : (call.perform tree).1 = .error fault) :
    (call.perform tree).2 = tree := by
  have hsteps := tree.steps call
  rw [h] at hsteps
  generalize (call.perform tree).2 = next at hsteps
  cases hsteps <;> rfl

end Tree
end Zone
end NameServer
