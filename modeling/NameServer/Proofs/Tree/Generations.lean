import NameServer.Proofs.Tree.Shape

/-!
# Proofs.Tree.Generations — a tree as seen from its root

Whoever lists the children of the root, then their children, and so on, sees every node of a tree
once, and can count what the tree holds.

* `Tree.generation`, `Tree.below` — the zones that are reached after so many steps, and after any;
* `Tree.mem_generation` — a zone is reached after as many steps as its way up has;
* `Tree.Sound.nodup_below`, `Tree.Sound.mem_below` — every node is reached once;
* `Tree.Sound.statistics_eq` — the statistics are those of the zones that are reached;
* `Tree.Orderly` and `Tree.orderly_of_history` — what holds of every tree that comes about by calls.
-/

namespace NameServer
namespace Zone

namespace Tree

variable {tree : Tree} {zone : ZoneId} {path other : List (ZoneId × Node)} {n : Nat}

/-! ## Children -/

theorem nodup_children (tree : Tree) (zone : ZoneId) :
    ((tree.children zone).map Child.id).Nodup := by
  have hkeys : (tree.nodes.toList.map Prod.fst).Nodup := by
    rw [Std.TreeMap.map_fst_toList_eq_keys]
    exact Std.TreeMap.nodup_keys
  have hids : (tree.children zone).map Child.id =
      (tree.nodes.toList.filter fun entry => entry.2.parent = zone).map Prod.fst := by
    unfold children
    rw [List.map_map]
    rfl
  rw [hids]
  exact hkeys.sublist (List.filter_sublist.map _)

theorem mem_children_ids {id : ZoneId} : id ∈ (tree.children zone).map Child.id ↔
    ∃ node, tree.nodes[id]? = some node ∧ node.parent = zone := by
  rw [List.mem_map]
  constructor
  · rintro ⟨child, hchild, rfl⟩
    rcases mem_children.1 hchild with ⟨node, hnode, hparent, -⟩
    exact ⟨node, hnode, hparent⟩
  · rintro ⟨node, hnode, hparent⟩
    exact ⟨⟨id, node.label, node.wildcard⟩, mem_children.2 ⟨node, hnode, hparent, rfl⟩, rfl⟩

/-- No two children of a zone have the same label, ASCII case aside. -/
theorem Sound.nodup_labels (h : tree.Sound) (zone : ZoneId) :
    ((tree.children zone).map fun child => child.label.folded).Nodup := by
  refine List.Nodup.map_on ?_ (List.Nodup.of_map _ (tree.nodup_children zone))
  intro child hchild twin htwin hlabel
  rcases mem_children.1 hchild with ⟨node, hnode, hparent, heq⟩
  rcases mem_children.1 htwin with ⟨node', hnode', hparent', heq'⟩
  -- The index knows one node at the place that both have.
  have hplace : node.place = node'.place := by
    rw [heq, heq'] at hlabel
    exact Prod.ext (hparent.trans hparent'.symm) hlabel
  have hid : child.id = twin.id := by
    have hfirst := (h.index_iff node.place child.id).2 ⟨node, hnode, rfl⟩
    rw [(h.index_iff node.place twin.id).2 ⟨node', hnode', hplace.symm⟩] at hfirst
    exact (Option.some.inj hfirst).symm
  rw [hid, hnode'] at hnode
  cases hnode
  rw [heq, heq', hid]

/-! ## Generations -/

/-- The zones that are reached from the root by listing children so many times. -/
def generation (tree : Tree) : Nat → List ZoneId
  | 0 => [rootZone]
  | n + 1 => (tree.generation n).flatMap fun zone => (tree.children zone).map Child.id

/-- The zones that are reached from the root by listing children again and again. -/
def below (tree : Tree) : List ZoneId :=
  (List.range tree.nodes.size).flatMap fun n => tree.generation (n + 1)

theorem Climb.unique (h : tree.Climb zone path) (hother : tree.Climb zone other) :
    path = other := by
  induction h generalizing other with
  | root => exact (climb_root_iff.1 hother).symm
  | node hne hnode _ ih =>
      cases hother with
      | root => exact absurd rfl hne
      | node _ hnode' hrest =>
          rw [hnode] at hnode'
          cases hnode'
          rw [ih hrest]

/-- A zone is reached after as many steps as its way up has. -/
theorem Sound.mem_generation (h : tree.Sound) :
    zone ∈ tree.generation n ↔ ∃ path, tree.Climb zone path ∧ path.length = n := by
  induction n generalizing zone with
  | zero =>
      rw [generation, List.mem_singleton]
      constructor
      · rintro rfl
        exact ⟨[], Climb.root, rfl⟩
      · rintro ⟨path, hclimb, hlength⟩
        rw [List.length_eq_zero_iff.1 hlength] at hclimb
        cases hclimb
        rfl
  | succ n ih =>
      rw [generation, List.mem_flatMap]
      constructor
      · rintro ⟨parent, hparent, hchild⟩
        rcases mem_children_ids.1 hchild with ⟨node, hnode, rfl⟩
        rcases ih.1 hparent with ⟨path, hclimb, rfl⟩
        exact ⟨_, Climb.node (Int.ne_of_gt (h.id_pos zone node hnode)) hnode hclimb, rfl⟩
      · rintro ⟨path, hclimb, hlength⟩
        cases hclimb with
        | root => cases hlength
        | @node _ node path _ hnode hclimb =>
            exact ⟨node.parent, ih.2 ⟨path, hclimb, Nat.succ.inj hlength⟩,
              mem_children_ids.2 ⟨node, hnode, rfl⟩⟩

/-- No zone is reached twice in the same number of steps. -/
theorem nodup_generation (tree : Tree) (n : Nat) : (tree.generation n).Nodup := by
  induction n with
  | zero => exact List.nodup_singleton _
  | succ n ih =>
      rw [generation, List.nodup_flatMap]
      refine ⟨fun zone _ => tree.nodup_children zone, ih.imp ?_⟩
      -- A node has one parent, so it is no child of two zones.
      intro zone zone' hne id hid hid'
      rcases mem_children_ids.1 hid with ⟨node, hnode, rfl⟩
      rcases mem_children_ids.1 hid' with ⟨node', hnode', rfl⟩
      rw [hnode] at hnode'
      cases hnode'
      exact hne rfl

namespace Sound

theorem disjoint_generation (h : tree.Sound) {m : Nat} (hne : n ≠ m) :
    (tree.generation n).Disjoint (tree.generation m) := by
  intro zone hn hm
  rcases h.mem_generation.1 hn with ⟨path, hclimb, rfl⟩
  rcases h.mem_generation.1 hm with ⟨path', hclimb', rfl⟩
  exact hne (congrArg List.length (hclimb.unique hclimb'))

/-- No zone is reached below those of the last generation. -/
theorem generation_eq_nil (h : tree.Sound) (hn : tree.nodes.size < n) :
    tree.generation n = [] := by
  rw [List.eq_nil_iff_forall_not_mem]
  intro zone hzone
  rcases h.mem_generation.1 hzone with ⟨path, hclimb, rfl⟩
  exact absurd (h.length_le hclimb) (Nat.not_le_of_lt hn)

/-- No node is reached twice. -/
theorem nodup_below (h : tree.Sound) : tree.below.Nodup := by
  unfold below
  rw [List.nodup_flatMap]
  refine ⟨fun n _ => tree.nodup_generation (n + 1), List.nodup_range.imp fun hne => ?_⟩
  exact h.disjoint_generation fun heq => hne (Nat.succ.inj heq)

/-- Every node is reached, and nothing else is. -/
theorem mem_below (h : tree.Sound) : zone ∈ tree.below ↔ zone ∈ tree.nodes := by
  rw [Std.TreeMap.mem_iff_isSome_getElem?, Option.isSome_iff_exists]
  unfold below
  rw [List.mem_flatMap]
  constructor
  · rintro ⟨n, -, hzone⟩
    rcases h.mem_generation.1 hzone with ⟨path, hclimb, hlength⟩
    cases hclimb with
    | root => cases hlength
    | @node _ node _ _ hnode => exact ⟨node, hnode⟩
  · rintro ⟨node, hnode⟩
    rcases h.exists_climb (hasZone_iff.2 (Or.inr ⟨node, hnode⟩)) with ⟨path, hclimb⟩
    have hle := h.length_le hclimb
    cases hclimb with
    | root => exact absurd (h.id_pos _ node hnode) (Int.lt_irrefl _)
    | node hne hnode' hrest =>
        exact ⟨_, List.mem_range.2 hle, h.mem_generation.2 ⟨_, .node hne hnode' hrest, rfl⟩⟩

theorem perm_below (h : tree.Sound) : tree.below.Perm tree.nodes.keys :=
  (List.perm_ext_iff_of_nodup h.nodup_below Std.TreeMap.nodup_keys).2 fun _ =>
    h.mem_below.trans Std.TreeMap.mem_keys.symm

/-! ## Statistics -/

/-- The records of a tree are those at the root and at the nodes below it. -/
theorem perm_allRecords (h : tree.Sound) :
    ((rootZone :: tree.below).flatMap tree.recordsAt).Perm tree.allRecords := by
  have hroot : rootZone ∉ tree.below := by
    intro hroot
    rw [h.mem_below, Std.TreeMap.mem_iff_isSome_getElem?, Option.isSome_iff_exists] at hroot
    rcases hroot with ⟨node, hnode⟩
    exact absurd (h.id_pos _ node hnode) (Int.lt_irrefl _)
  have hzones : (rootZone :: tree.below).Nodup := List.nodup_cons.2 ⟨hroot, h.nodup_below⟩
  -- The zones with a list of records are some of these zones; the others have no records.
  let listed : ZoneId → Bool := fun zone => tree.records.contains zone
  have hlisted : ((rootZone :: tree.below).filter listed).Perm tree.records.keys := by
    refine (List.perm_ext_iff_of_nodup (hzones.filter _) Std.TreeMap.nodup_keys).2 fun zone => ?_
    rw [List.mem_filter, Std.TreeMap.mem_keys]
    refine and_iff_right_of_imp fun hzone => ?_
    rcases hasZone_iff.1 (h.hasZone_of_records zone hzone) with rfl | ⟨node, hnode⟩
    · exact List.mem_cons_self
    · refine List.mem_cons_of_mem _ (h.mem_below.2 ?_)
      rw [Std.TreeMap.mem_iff_isSome_getElem?, hnode]
      rfl
  have hothers : ((rootZone :: tree.below).filter fun zone => !listed zone).flatMap
      tree.recordsAt = [] := by
    rw [List.flatMap_eq_nil_iff]
    intro zone hzone
    have hnone : zone ∉ tree.records := by
      have hfalse : tree.records.contains zone = false := by
        simpa only [listed, Bool.not_eq_true'] using (List.mem_filter.1 hzone).2
      rw [Std.TreeMap.mem_iff_contains, hfalse]
      exact Bool.false_ne_true
    exact Std.TreeMap.getD_eq_fallback hnone
  have hall : tree.records.keys.flatMap tree.recordsAt = tree.allRecords := by
    unfold allRecords
    rw [← Std.TreeMap.map_fst_toList_eq_keys, List.flatMap_map]
    refine List.flatMap_congr fun entry hentry => ?_
    exact recordsAt_eq (Std.TreeMap.mem_toList_iff_getElem?_eq_some.1 hentry)
  calc
    ((rootZone :: tree.below).flatMap tree.recordsAt).Perm
        (((rootZone :: tree.below).filter listed ++
          (rootZone :: tree.below).filter fun zone => !listed zone).flatMap tree.recordsAt) :=
      (List.filter_append_perm listed _).symm.flatMap_right _
    _ = ((rootZone :: tree.below).filter listed).flatMap tree.recordsAt := by
      rw [List.flatMap_append, hothers, List.append_nil]
    _ |>.Perm (tree.records.keys.flatMap tree.recordsAt) := hlisted.flatMap_right _
    _ = tree.allRecords := hall

/-- The statistics are those of the zones that are reached from the root. -/
theorem statistics_eq (h : tree.Sound) :
    tree.statistics = .ofCounts tree.startedAt tree.below.length fun kind =>
      ((rootZone :: tree.below).flatMap tree.recordsAt).countP fun rdata => rdata.kind = kind := by
  have hsize : tree.nodes.size = tree.below.length := by
    rw [h.perm_below.length_eq, Std.TreeMap.length_keys]
  unfold statistics
  rw [hsize]
  congr 1
  funext kind
  exact (h.perm_allRecords.countP_eq _).symm

end Sound

/-! ## Trees that come about -/

/-- What holds of a tree behind the events that lead to it. -/
structure Orderly (events : List Event) (tree : Tree) : Prop where
  sound : tree.Sound
  labels : ∀ zone, ((tree.children zone).map fun child => child.label.folded).Nodup
  /-- From every zone a way up is found. -/
  climbs : ∀ zone, tree.hasZone zone = true →
    ∃ path, tree.path? tree.nodes.size zone = some path ∧ tree.Climb zone path
  /-- Looking for a way up comes to an end, whatever zone it is looked for from. -/
  ends : ∀ zone steps, tree.nodes.size ≤ steps →
    tree.path? steps zone = tree.path? tree.nodes.size zone
  /-- Every node is reached once by listing children from the root, until there are none. -/
  nodup_below : tree.below.Nodup
  mem_below : ∀ zone, zone ∈ tree.below ↔ zone ∈ tree.nodes
  generation_eq_nil : ∀ n, tree.nodes.size < n → tree.generation n = []
  /-- Numbers of nodes are positive, and each is larger than those given before it. -/
  created : (events.filterMap created?).Pairwise fun later earlier => earlier < later
  created_pos : ∀ id ∈ events.filterMap created?, rootZone < id
  statistics : Store.statistics tree =
    .ok (.ofCounts tree.startedAt tree.below.length fun kind =>
      ((rootZone :: tree.below).flatMap tree.recordsAt).countP fun rdata => rdata.kind = kind)
  fails : ∀ (call : Call) (fault : Fault), (call.perform tree).1 = .error fault →
    (call.perform tree).2 = tree

/-- Every tree that comes about from an empty one, by calls that succeed or fail, is orderly. -/
theorem orderly_of_history {startedAt : Timestamp} {events : List Event}
    (h : History (empty startedAt) events tree) : tree.Orderly events := by
  have hsound := sound_of_history h
  exact {
    sound := hsound
    labels := hsound.nodup_labels
    climbs := fun zone hzone =>
      (hsound.exists_climb hzone).imp fun _ hclimb => ⟨hsound.path?_eq_some_iff.2 hclimb, hclimb⟩
    ends := fun _ _ hsteps => hsound.path?_of_le hsteps
    nodup_below := hsound.nodup_below
    mem_below := fun _ => hsound.mem_below
    generation_eq_nil := fun _ hn => hsound.generation_eq_nil hn
    created := (created_of_history h).1
    created_pos := fun id hid => ((created_of_history h).2 id hid).1
    statistics := congrArg Except.ok hsound.statistics_eq
    fails := fun _ _ => perform_error }

/-- The sample tree has two nodes, after the number 3 was given and taken back. -/
theorem orderly_of_history_sampleCalls :
    (sampleCalls.foldl record ([], empty ⟨0, 0⟩)).1.filterMap created? = [3, 2, 1] ∧
      sampleTree.below = [1, 2] ∧
      sampleTree.Orderly (sampleCalls.foldl record ([], empty ⟨0, 0⟩)).1 :=
  ⟨by decide +kernel, by decide +kernel, orderly_of_history (history_foldl_record _ sampleCalls)⟩

end Tree
end Zone
end NameServer
