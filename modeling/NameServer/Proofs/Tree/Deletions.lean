import Mathlib.Data.List.Sort
import NameServer.Proofs.Lists
import NameServer.Proofs.Tree.Growth

/-!
# Proofs.Tree.Deletions — a node that is deleted takes nothing else with it

Deleting a node touches all maps of a tree: the nodes, the index of places and the records. It is
refused while something hangs below the node or a record elsewhere refers to it, so nothing that is
left led through the node, but for the names that ended at it.

* `Tree.Deletable` — when a node can be deleted;
* `Tree.Removes.walk_cut` — a walk goes on as before, or it ended at the node and is one step
  shorter;
* `Tree.Removes.nameOf?_eq`, `Tree.Removes.children_eq`, `Tree.Removes.records_eq` — what the other
  zones have;
* `Tree.Without` and `Tree.deleteNode_spares_others` — all of this in every tree that comes about by
  calls.
-/

namespace NameServer

namespace Zone
namespace Tree

variable {tree next : Tree} {zone other parent : ZoneId} {path : List (ZoneId × Node)}
variable {node : Node} {name before : Name} {labels : List Label}

/-! ## When a node can be deleted -/

/-- The zone is a node, nothing hangs below it, and no record at another zone refers to it. -/
structure Deletable (tree : Tree) (zone : ZoneId) : Prop where
  isNode : ∃ node, tree.nodes[zone]? = some node
  notRoot : zone ≠ rootZone
  childless : Store.children tree zone = []
  unreferenced : ∀ other, other ≠ zone → ∀ rdata ∈ tree.recordsAt other, zone ∉ rdata.references

theorem Deletable.deleteNode_ok (h : tree.Deletable zone) :
    ∃ next, tree.deleteNode zone = .ok ((), next) := by
  rcases h.isNode with ⟨node, hnode⟩
  unfold deleteNode
  rw [if_neg h.notRoot, show tree.children zone = [] from h.childless, hnode,
    isReferenced_eq_false.2 h.unreferenced]
  exact ⟨_, rfl⟩

theorem Removes.deletable (h : tree.Removes zone next) : tree.Deletable zone where
  isNode := h.index.imp fun _ => And.left
  notRoot := h.notRoot
  childless := List.isEmpty_iff.1 (isEmpty_children.2 h.childless)
  unreferenced := h.unreferenced

/-! ## What is left -/

namespace Removes

theorem hasZone (h : tree.Removes zone next) (hne : other ≠ zone) :
    next.hasZone other = tree.hasZone other := by
  unfold Tree.hasZone
  rw [Std.TreeMap.contains_eq_isSome_getElem?, Std.TreeMap.contains_eq_isSome_getElem?, h.node,
    if_neg hne.symm]

theorem isWildcard_eq (h : tree.Removes zone next) (hne : other ≠ zone) :
    next.isWildcard other = tree.isWildcard other := by
  unfold Tree.isWildcard
  rw [h.node, if_neg hne.symm]

/-! ### Names of zones -/

/-- The way up from another zone does not lead through a node without children. -/
theorem climb_iff (h : tree.Removes zone next) (hne : other ≠ zone) :
    next.Climb other path ↔ tree.Climb other path := by
  constructor
  · intro hclimb
    refine hclimb.of_mem fun step hstep => ?_
    have hnode := hclimb.node_of_mem step hstep
    rw [h.node] at hnode
    split at hnode
    · cases hnode
    · exact hnode
  · intro hclimb
    refine hclimb.of_mem fun step hstep => ?_
    have hstays := hclimb.ne_of_childless hne h.childless step hstep
    rw [h.node, if_neg hstays.symm]
    exact hclimb.node_of_mem step hstep

theorem nameOf?_eq (h : tree.Removes zone next) (hsound : tree.Sound) (hne : other ≠ zone) :
    next.nameOf? other = tree.nameOf? other := by
  have hpath : next.path? next.nodes.size other = tree.path? tree.nodes.size other := by
    ext path
    rw [(hsound.removes h).path?_eq_some_iff, hsound.path?_eq_some_iff, h.climb_iff hne]
  unfold nameOf?
  rw [hpath]

/-! ### Children -/

theorem toList_nodes (h : tree.Removes zone next) :
    next.nodes.toList = tree.nodes.toList.filter fun entry => entry.1 ≠ zone := by
  let rises : ZoneId × Node → ZoneId × Node → Prop := fun entry later => entry.1 < later.1
  -- Both rise with the numbers, so it is enough that they have the same members.
  have : Std.Antisymm rises := ⟨fun _ _ hlt hgt => absurd hlt (Int.lt_asymm hgt)⟩
  have : Std.Irrefl rises := ⟨fun _ => Int.lt_irrefl _⟩
  refine next.nodes_rise.eq_of_mem_iff (tree.nodes_rise.filter _) fun ⟨id, node⟩ => ?_
  rw [Std.TreeMap.mem_toList_iff_getElem?_eq_some, List.mem_filter,
    Std.TreeMap.mem_toList_iff_getElem?_eq_some, h.node]
  by_cases hid : zone = id
  · simp [hid]
  · simp [hid, Ne.symm hid]

theorem children_eq (h : tree.Removes zone next) (other : ZoneId) :
    next.children other = (tree.children other).filter fun child => child.id ≠ zone := by
  unfold Tree.children
  rw [h.toList_nodes, List.filter_filter, List.filter_map, List.filter_filter]
  exact congrArg _ (List.filter_congr fun entry _ => Bool.and_comm _ _)

/-! ### Records -/

theorem records_eq (h : tree.Removes zone next) (hsound : tree.Sound) (hne : other ≠ zone)
    (type : RecordType) (limit : Nat) :
    next.firstRecords other type limit = tree.firstRecords other type limit := by
  unfold firstRecords
  rw [h.recordsAt, if_neg hne.symm]
  refine mapM_congr fun rdata hrdata => ?_
  have hstored := List.mem_of_mem_filter (List.mem_of_mem_take hrdata)
  -- What is stored elsewhere does not refer to the node, and the names of the others stay.
  refine Rdata.mapM_congr fun target htarget => ?_
  rw [h.nameOf?_eq hsound]
  rintro rfl
  exact h.unreferenced other hne rdata hstored htarget

/-! ### Walks -/

/-- The node has left its place, and nothing else has. -/
theorem child?_eq (h : tree.Removes zone next) (hsound : tree.Sound) (parent : ZoneId)
    (label : Label) :
    next.child? parent label =
      if tree.child? parent label = some zone then none else tree.child? parent label := by
  rcases h.index with ⟨node, hnode, hindex⟩
  have hplace : node.place = (parent, label.folded) ↔ tree.child? parent label = some zone := by
    unfold child?
    rw [hsound.index_iff]
    constructor
    · exact fun hplace => ⟨node, hnode, hplace⟩
    · rintro ⟨found, hfound, hplace⟩
      rw [hnode] at hfound
      cases hfound
      exact hplace
  unfold child? at hplace ⊢
  rw [hindex]
  simp only [hplace]

theorem walk_childless (h : tree.Removes zone next) (hsound : tree.Sound) (labels : List Label) :
    tree.walk zone labels = [] := by
  cases labels with
  | nil => rfl
  | cons label labels =>
      cases hchild : tree.child? zone label with
      | none => exact walk_of_childless hchild labels
      | some id =>
          rcases hsound.exists_of_child? hchild with ⟨node, hnode, hparent, -⟩
          exact absurd hparent (h.childless id node hnode)

/-- A walk goes on as before, unless it ended at the node; then it ends at the parent. -/
theorem walk_cut (h : tree.Removes zone next) (hsound : tree.Sound)
    (hnode : tree.nodes[zone]? = some node) (parent : ZoneId) (labels : List Label) :
    (zone ∉ (tree.walk parent labels).map ZoneNode.id ∧
        next.walk parent labels = tree.walk parent labels) ∨
      (tree.walk parent labels = next.walk parent labels ++ [⟨zone, node.wildcard⟩] ∧
        Name.lastId parent (next.walk parent labels) = node.parent) := by
  induction labels generalizing parent with
  | nil => exact Or.inl ⟨List.not_mem_nil, rfl⟩
  | cons label labels ih =>
      have hnext := h.child?_eq hsound parent label
      cases hchild : tree.child? parent label with
      | none =>
          rw [hchild, if_neg nofun] at hnext
          rw [walk_of_childless hchild, walk_of_childless hnext]
          exact Or.inl ⟨List.not_mem_nil, rfl⟩
      | some id =>
          rw [hchild] at hnext
          by_cases hid : id = zone
          · subst hid
            rw [if_pos rfl] at hnext
            rcases hsound.exists_of_child? hchild with ⟨found, hfound, hparent, -⟩
            rw [hnode] at hfound
            cases hfound
            rw [walk_of_childless hnext, walk_of_child? hchild, h.walk_childless hsound]
            unfold Tree.isWildcard
            rw [hnode]
            exact Or.inr ⟨rfl, hparent.symm⟩
          · rw [if_neg fun heq => hid (Option.some.inj heq)] at hnext
            rw [walk_of_child? hnext, walk_of_child? hchild, h.isWildcard_eq hid, Name.lastId_cons]
            rcases ih id with ⟨hspared, hwalk⟩ | ⟨hwalk, hlast⟩
            · refine Or.inl ⟨?_, by rw [hwalk]⟩
              rw [List.map_cons, List.mem_cons, not_or]
              exact ⟨Ne.symm hid, hspared⟩
            · exact Or.inr ⟨by rw [hwalk, List.cons_append], hlast⟩

end Removes

/-! ## All of it -/

/-- `next` is what is left of a tree when a node is deleted. -/
structure Without (tree : Tree) (zone : ZoneId) (node : Node) (next : Tree) : Prop where
  gone : next.hasZone zone = false
  cleared : next.recordsAt zone = []
  /-- Its label is free again under its parent, in every spelling. -/
  free : ∀ label wildcard, label.SameAs node.label → ∃ id last,
    (Store.addNode node.parent label wildcard).perform next = (.ok id, last)
  zones : ∀ other, other ≠ zone → next.hasZone other = tree.hasZone other
  names : ∀ other, other ≠ zone → Store.nameOf? next other = Store.nameOf? tree other
  marks : ∀ other, other ≠ zone → Store.isWildcard next other = Store.isWildcard tree other
  children : ∀ other, Store.children next other =
    (Store.children tree other).filter fun child => child.id ≠ zone
  stored : ∀ other, other ≠ zone → next.recordsAt other = tree.recordsAt other
  served : ∀ other, other ≠ zone → ∀ type limit,
    Store.records next other type limit = Store.records tree other type limit
  /-- A name that did not pass through the node is resolved as before, and one that did as far as
  the parent of the node. -/
  resolved : ∀ name, ∃ before after, Store.resolve tree name = .ok before ∧
    Store.resolve next name = .ok after ∧
    (zone ∉ before.nodes.map ZoneNode.id → after = before) ∧
    (zone ∈ before.nodes.map ZoneNode.id → after.labels = before.labels ∧
      before.nodes = after.nodes ++ [⟨zone, node.wildcard⟩] ∧ after.zoneId = node.parent)

namespace Removes

theorem free (h : tree.Removes zone next) (hsound : tree.Sound)
    (hnode : tree.nodes[zone]? = some node) {label : Label} (hlabel : label.SameAs node.label)
    (wildcard : Bool) :
    ∃ id last, (Store.addNode node.parent label wildcard).perform next = (.ok id, last) := by
  have hparent : next.hasZone node.parent = true := by
    rw [h.hasZone (h.childless zone node hnode)]
    exact hsound.hasParent zone node hnode
  have hchild : tree.child? node.parent label = some zone := by
    unfold child?
    rw [show label.folded = node.label.folded from hlabel]
    exact hsound.child?_of_node hnode
  have hfree : next.child? node.parent label = none := by
    rw [h.child?_eq hsound, if_pos hchild]
  rcases exists_addNode hparent hfree wildcard with ⟨id, last, hadd, -⟩
  exact ⟨id, last, Change.perform_step_ok hadd⟩

theorem resolve_cut (h : tree.Removes zone next) (hsound : tree.Sound)
    (hnode : tree.nodes[zone]? = some node) (name : Name) :
    ∃ before after, tree.resolve name = .ok before ∧ next.resolve name = .ok after ∧
      (zone ∉ before.nodes.map ZoneNode.id → after = before) ∧
      (zone ∈ before.nodes.map ZoneNode.id → after.labels = before.labels ∧
        before.nodes = after.nodes ++ [⟨zone, node.wildcard⟩] ∧ after.zoneId = node.parent) := by
  have hnext := hsound.removes h
  rcases hsound.resolve_total name with ⟨before, hbefore⟩
  rcases hnext.resolve_total name with ⟨after, hafter⟩
  rcases hsound.resolve_eq_ok_iff.1 hbefore with ⟨hlabels, hform⟩
  rcases hnext.resolve_eq_ok_iff.1 hafter with ⟨hlabels', hform'⟩
  have hnodes := hsound.nodes_of_resolve hbefore
  have hnodes' := hnext.nodes_of_resolve hafter
  refine ⟨before, after, hbefore, hafter, ?_⟩
  rcases h.walk_cut hsound hnode rootZone name.labels.reverse with ⟨hspared, hwalk⟩ | ⟨hwalk, hlast⟩
  · rw [← hnodes] at hspared
    refine ⟨fun _ => ?_, fun hmem => absurd hmem hspared⟩
    exact Name.ext (hlabels'.trans hlabels.symm) (by rw [hform, hform', hwalk])
  · rw [← hnodes, ← hnodes'] at hwalk
    rw [← hnodes', ← Name.zoneId_eq_lastId] at hlast
    refine ⟨fun hspared => absurd ?_ hspared, fun _ => ⟨hlabels'.trans hlabels.symm, hwalk, hlast⟩⟩
    rw [hwalk]
    simp

theorem without (h : tree.Removes zone next) (hsound : tree.Sound)
    (hnode : tree.nodes[zone]? = some node) : tree.Without zone node next where
  gone := by
    refine Bool.eq_false_iff.2 fun hzone => ?_
    rcases hasZone_iff.1 hzone with hroot | ⟨node, hnode⟩
    · exact h.notRoot hroot
    · rw [h.node, if_pos rfl] at hnode
      cases hnode
  cleared := by rw [h.recordsAt, if_pos rfl]
  free label wildcard hlabel := h.free hsound hnode hlabel wildcard
  zones other hne := h.hasZone hne
  names other hne := congrArg Except.ok (h.nameOf?_eq hsound hne)
  marks other hne := h.isWildcard_eq hne
  children := h.children_eq
  stored other hne := by rw [h.recordsAt, if_neg hne.symm]
  served other hne := h.records_eq hsound hne
  resolved := h.resolve_cut hsound hnode

end Removes

/-- In every tree that comes about from an empty one, by calls that succeed or fail, the nodes that
can be deleted are those without children to which no record elsewhere refers. Deleting one takes
it and its records away and nothing else, and an attempt that fails changes nothing. -/
theorem deleteNode_spares_others {startedAt : Timestamp} {events : List Event}
    (h : History (empty startedAt) events tree) (zone : ZoneId) :
    (tree.Deletable zone → ∃ node next, tree.nodes[zone]? = some node ∧
      (Store.deleteNode zone : Change Tree Unit).perform tree = (.ok (), next) ∧
        tree.Without zone node next) ∧
    (¬tree.Deletable zone → ∃ fault,
      (Store.deleteNode zone : Change Tree Unit).perform tree = (.error fault, tree)) := by
  constructor
  · intro hdeletable
    rcases hdeletable.isNode with ⟨node, hnode⟩
    rcases hdeletable.deleteNode_ok with ⟨next, hdelete⟩
    exact ⟨node, next, hnode, Change.perform_step_ok hdelete,
      (removes_of_deleteNode hdelete).without (sound_of_history h) hnode⟩
  · intro hnot
    cases hdelete : tree.deleteNode zone with
    | error fault => exact ⟨fault, Change.perform_step_error hdelete⟩
    | ok result => exact absurd (removes_of_deleteNode hdelete).deletable hnot

/-- In the sample tree the node 2 has an alias for the node 1 above it, so only the first of them
can be deleted. -/
theorem deleteNode_spares_others_sampleCalls :
    (∃ node next, sampleTree.nodes[(2 : ZoneId)]? = some node ∧
      (Store.deleteNode 2 : Change Tree Unit).perform sampleTree = (.ok (), next) ∧
        sampleTree.Without 2 node next) ∧
    ∃ fault, (Store.deleteNode 1 : Change Tree Unit).perform sampleTree =
      (.error fault, sampleTree) := by
  have hhistory := history_foldl_record (empty ⟨0, 0⟩) sampleCalls
  constructor
  · refine (deleteNode_spares_others hhistory 2).1 ⟨?_, by decide, ?_, ?_⟩
    · exact Option.isSome_iff_exists.1 (by decide +kernel)
    · exact List.isEmpty_iff.1 (by decide +kernel)
    · exact isReferenced_eq_false.1 (by decide +kernel)
  · refine (deleteNode_spares_others hhistory 1).2 fun hdeletable => ?_
    have hchildren : (sampleTree.children 1).isEmpty = true :=
      List.isEmpty_iff.2 hdeletable.childless
    revert hchildren
    decide +kernel

end Tree
end Zone
end NameServer
