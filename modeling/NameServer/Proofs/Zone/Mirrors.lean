import NameServer.Proofs.Lists
import NameServer.Proofs.Resolver.Peers
import NameServer.Proofs.Tree.References
import NameServer.Proofs.Tree.Walks
import NameServer.Proofs.Zone.View

/-!
# Proofs.Zone.Mirrors — a tree and rows with the same contents

A tree keeps its nodes under their numbers and its records with the zones that own them; rows stand
in the order in which they were added. When both hold the same, every question has the same answer.

* `Relations.ComparesAscii` — labels that rows tell apart as a tree does, and
  `Relations.comparesAscii_of_no_zero` — those without a zero byte, from all others;
* `Mirrors` — the rows are those of the nodes and of the records of the tree;
* `Mirrors.resolve_eq`, `Mirrors.children_eq`, `Mirrors.statistics_eq`, `Mirrors.records_eq` — what is
  read from both;
* `Mirrors.respond_eq` — a query gets the same response from both.
-/

namespace NameServer

/-- The labels of the name are among these. -/
def Name.Among (labels : Label → Prop) (name : Name) : Prop :=
  ∀ label ∈ name.labels, labels label

namespace Zone

/-! ## Labels that are told apart -/

namespace Relations

/-- Rows tell a label that they hold from one that they are asked for when the two differ in more
than ASCII case. They may be asked for all labels that they hold. -/
structure ComparesAscii (held asked : Label → Prop) : Prop where
  asked_of_held : ∀ label, held label → asked label
  sameAs : ∀ a b, held a → asked b → labelKey a = labelKey b → a.SameAs b

/-- A label without a zero byte is compared with others as a whole. -/
theorem comparesAscii_of_no_zero :
    ComparesAscii (fun label => 0 ∉ label.folded) fun _ => True where
  asked_of_held _ _ := trivial
  sameAs a b ha _ heq := by
    rcases Prod.mk.inj heq with ⟨hsize, hbytes⟩
    have hwhole : a.folded.takeWhile (· ≠ 0) = a.folded := by
      refine List.takeWhile_eq_self_iff.2 fun byte hbyte => decide_eq_true ?_
      rintro rfl
      exact ha hbyte
    -- The bytes of `b` up to a zero byte are as many as `b` has, so there is no such byte.
    have hlength : (b.folded.takeWhile (· ≠ 0)).length = b.folded.length := by
      rw [← hbytes, hwhole, Label.folded, Label.folded, List.length_map, List.length_map,
        a.length_bytes, b.length_bytes, hsize]
    rw [hwhole, (List.takeWhile_prefix _).eq_of_length hlength] at hbytes
    exact hbytes

end Relations

/-! ## The same contents -/

/-- The row that a node makes. -/
def Node.row (id : ZoneId) (node : Node) : ZoneRow :=
  ⟨id, node.label, node.parent, node.wildcard⟩

/-- The node that a row tells of. -/
def ZoneRow.toNode (row : ZoneRow) : Node :=
  ⟨row.label, row.parent, row.wildcard⟩

/-- The rows are those of the nodes and of the records of the tree, and the labels of the nodes are
among these. -/
structure Mirrors (held : Label → Prop) (tree : Tree) (rows : Relations) : Prop where
  sound : tree.Sound
  zones : ∀ row, row ∈ rows.zones ↔ tree.nodes[row.id]? = some row.toNode
  rises : rows.zones.Pairwise fun row later => row.id < later.id
  nextZone : tree.nextZone = rows.lastZone + 1
  labelled : ∀ row ∈ rows.zones, held row.label
  recordsAt : ∀ zone, tree.recordsAt zone =
    (rows.records.filter fun row => row.zone = zone).map RecordRow.rdata

theorem mirrors_empty (held : Label → Prop) (startedAt startedAt' : Timestamp) :
    Mirrors held (Tree.empty startedAt) (Relations.empty startedAt') where
  sound := Tree.sound_empty startedAt
  zones row := by
    rw [show (Tree.empty startedAt).nodes[row.id]? = none from Std.TreeMap.getElem?_emptyc]
    exact iff_of_false List.not_mem_nil (Option.some_ne_none _ ∘ Eq.symm)
  rises := List.Pairwise.nil
  nextZone := rfl
  labelled _ hrow := absurd hrow List.not_mem_nil
  recordsAt _ := Std.TreeMap.getD_emptyc

namespace Mirrors

variable {held asked : Label → Prop} {tree : Tree} {rows : Relations} {zone parent : ZoneId}
variable {label : Label} {name : Name} {path : List (ZoneId × Node)}

/-! ## Nodes -/

theorem distinct (h : Mirrors held tree rows) : rows.Distinct where
  nodup := List.pairwise_map.2 (h.rises.imp fun hlt => Int.ne_of_lt hlt)
  id_le row hrow := by
    have hlt := h.sound.id_lt row.id _ ((h.zones row).1 hrow)
    rw [h.nextZone] at hlt
    exact Int.lt_add_one_iff.1 hlt

/-- A node is found by its number in both. -/
theorem row?_eq (h : Mirrors held tree rows) (zone : ZoneId) :
    rows.row? zone = tree.nodes[zone]?.map (Node.row zone) := by
  cases hnode : tree.nodes[zone]? with
  | some node => exact h.distinct.row?_id ((h.zones (node.row zone)).2 hnode)
  | none =>
      refine List.find?_eq_none.2 fun row hrow hid => ?_
      obtain rfl : row.id = zone := of_decide_eq_true hid
      rw [(h.zones row).1 hrow] at hnode
      cases hnode

theorem hasZone_eq (h : Mirrors held tree rows) (zone : ZoneId) :
    rows.hasZone zone = tree.hasZone zone := by
  unfold Relations.hasZone Tree.hasZone
  rw [h.row?_eq, Option.isSome_map, Std.TreeMap.contains_eq_isSome_getElem?]

theorem isWildcard_eq (h : Mirrors held tree rows) (zone : ZoneId) :
    rows.isWildcard zone = tree.isWildcard zone := by
  unfold Relations.isWildcard Tree.isWildcard
  rw [h.row?_eq]
  cases tree.nodes[zone]? <;> rfl

/-- A label that is free among the rows is free in the tree, which tells more labels apart. -/
theorem child?_eq_none (h : Mirrors held tree rows) (hfree : rows.child? parent label = none) :
    tree.child? parent label = none := by
  cases hid : tree.child? parent label with
  | none => rfl
  | some id =>
      rcases h.sound.exists_of_child? hid with ⟨node, hnode, hparent, hfolded⟩
      refine absurd (decide_eq_true ?_)
        (List.find?_eq_none.1 hfree (node.row id) ((h.zones (node.row id)).2 hnode))
      exact ⟨hparent, Relations.labelKey_congr hfolded⟩

/-- A node is found by its label in both. -/
theorem child?_eq (h : Mirrors held tree rows) (hascii : Relations.ComparesAscii held asked)
    (hlabel : asked label) (parent : ZoneId) :
    (rows.child? parent label).map ZoneRow.node =
      (tree.child? parent label).map fun id => ⟨id, tree.isWildcard id⟩ := by
  cases hchild : rows.child? parent label with
  | some row =>
      have hrow := Relations.mem_of_child? hchild
      have hnode := (h.zones row).1 hrow
      have hfound : row.parent = parent ∧ Relations.labelKey row.label = Relations.labelKey label :=
        by simpa using List.find?_some hchild
      have hplace : row.toNode.place = (parent, label.folded) :=
        Prod.ext hfound.1 (hascii.sameAs _ _ (h.labelled row hrow) hlabel hfound.2)
      have hid : tree.child? parent label = some row.id :=
        (h.sound.index_iff _ _).2 ⟨row.toNode, hnode, hplace⟩
      rw [hid, Option.map_some, Option.map_some]
      unfold Tree.isWildcard
      rw [hnode]
      rfl
  | none =>
      rw [h.child?_eq_none hchild]
      rfl

theorem walk_eq (h : Mirrors held tree rows) (hascii : Relations.ComparesAscii held asked)
    {path : List Label} (hpath : ∀ label ∈ path, asked label) (parent : ZoneId) :
    tree.walk parent path = rows.walk parent path := by
  induction path generalizing parent with
  | nil => rfl
  | cons label path ih =>
      rw [List.forall_mem_cons] at hpath
      have hchild := h.child?_eq hascii hpath.1 parent
      unfold Tree.walk Relations.walk
      cases hrow : rows.child? parent label with
      | none =>
          rw [hrow, Option.map_none, eq_comm, Option.map_eq_none_iff] at hchild
          rw [hchild]
      | some row =>
          rw [hrow, Option.map_some, eq_comm, Option.map_eq_some_iff] at hchild
          rcases hchild with ⟨id, hid, hnode⟩
          obtain rfl : id = row.id := congrArg ZoneNode.id hnode
          rw [hid]
          dsimp only
          rw [hnode, ih hpath.2]

/-- A name is resolved alike by both. -/
theorem resolve_eq (h : Mirrors held tree rows) (hascii : Relations.ComparesAscii held asked)
    (hname : name.Among asked) : tree.resolve name = rows.resolve name := by
  unfold Tree.resolve Relations.resolve
  rw [h.walk_eq hascii fun label hlabel => hname label (List.mem_reverse.1 hlabel)]

/-- The rows are those of the nodes in the order of their numbers. -/
theorem zones_eq (h : Mirrors held tree rows) :
    rows.zones = tree.nodes.toList.map fun entry => entry.2.row entry.1 := by
  have hrises : (tree.nodes.toList.map fun entry => entry.2.row entry.1).Pairwise
      fun row later => row.id < later.id := by
    rw [List.pairwise_map]
    exact tree.nodes_rise
  -- Both rise with the numbers, so it is enough that they have the same members.
  refine List.Perm.eq_of_pairwise (fun _ _ _ _ hlt hgt => absurd hlt (Int.lt_asymm hgt)) h.rises hrises
    ((List.perm_ext_iff_of_nodup (h.rises.imp fun hlt heq => ?_)
      (hrises.imp fun hlt heq => ?_)).2 fun row => ?_)
  · exact absurd (heq ▸ hlt) (Int.lt_irrefl _)
  · exact absurd (heq ▸ hlt) (Int.lt_irrefl _)
  · rw [h.zones, ← Std.TreeMap.mem_toList_iff_getElem?_eq_some, List.mem_map]
    constructor
    · intro hrow
      exact ⟨_, hrow, rfl⟩
    · rintro ⟨entry, hentry, rfl⟩
      exact hentry

theorem children_eq (h : Mirrors held tree rows) (zone : ZoneId) :
    tree.children zone = rows.children zone := by
  unfold Tree.children Relations.children
  rw [h.zones_eq, List.filter_map, List.map_map]
  rfl

/-! ## Names -/

/-- A way up is the same chain of rows. -/
theorem chain_eq (h : Mirrors held tree rows) (hclimb : tree.Climb zone path) {steps : Nat}
    (hsteps : path.length ≤ steps) :
    rows.chain steps zone = path.map fun step => step.2.row step.1 := by
  induction hclimb generalizing steps with
  | root =>
      have hnone : tree.nodes[rootZone]? = none := by
        cases hnode : tree.nodes[rootZone]? with
        | none => rfl
        | some node => exact absurd (h.sound.id_pos _ node hnode) (Int.lt_irrefl _)
      cases steps with
      | zero => rfl
      | succ steps =>
          unfold Relations.chain
          rw [h.row?_eq, hnone]
          rfl
  | @node zone node rest _ hnode _ ih =>
      cases steps with
      | zero => exact absurd hsteps (Nat.not_succ_le_zero _)
      | succ steps =>
          unfold Relations.chain
          rw [h.row?_eq, hnode]
          exact congrArg (node.row zone :: ·) (ih (Nat.le_of_succ_le_succ hsteps))

/-- A way up ends below the root. -/
theorem parent_of_getLast? (hclimb : tree.Climb zone path) :
    ∀ step ∈ path.getLast?, step.2.parent = rootZone := by
  induction hclimb with
  | root => nofun
  | @node zone node rest _ _ hrest ih =>
      cases rest with
      | nil =>
          rintro step ⟨⟩
          exact hrest.head.symm
      | cons step rest => simpa using ih

/-- A zone with a name has it in both. A name has fewer labels than there are rows on a chain. -/
theorem nameOf?_eq (h : Mirrors held tree rows) (hname : tree.nameOf? zone = some name) :
    rows.nameOf? zone = .ok (some name) := by
  rcases Tree.exists_of_nameOf? hname with ⟨path, hclimb, hspelled⟩
  have hlength : path.length ≤ Relations.maxDepth := by
    have hlabels := congrArg List.length (Tree.labels_of_nameOfPath hspelled).1
    rw [List.length_map] at hlabels
    exact hlabels ▸ Nat.le_succ_of_le name.length_labels_le
  unfold Relations.nameOf?
  by_cases hroot : zone = rootZone
  · subst hroot
    rw [Tree.climb_root_iff] at hclimb
    subst hclimb
    rw [if_pos rfl]
    have hresolve : Name.root.resolve [] = .ok name := hspelled
    rw [hresolve]
    rfl
  · rw [if_neg hroot, h.chain_eq hclimb hlength]
    dsimp only
    rw [List.getLast?_map]
    cases hlast : path.getLast? with
    | none =>
        rw [List.getLast?_eq_none_iff] at hlast
        subst hlast
        cases hclimb
        exact absurd rfl hroot
    | some last =>
        have hparent : ¬(last.2.row last.1).parent ≠ rootZone :=
          not_not_intro (parent_of_getLast? hclimb last hlast)
        dsimp only [Option.map_some]
        rw [if_neg hparent, List.map_map, List.map_map]
        change ((Tree.nameOfPath path).map some).mapError _ = _
        rw [hspelled]
        rfl

/-! ## Records -/

/-- The records of a type at a zone are kept in the same order. -/
theorem kept_eq (h : Mirrors held tree rows) (zone : ZoneId) (type : RecordType) :
    Relations.view.kept rows zone type = Tree.view.kept tree zone type := by
  unfold Relations.view Relations.recordRows Tree.view
  dsimp only
  rw [h.recordsAt, List.filter_map, List.filter_filter]
  refine congrArg _ (List.filter_congr fun row _ => ?_)
  rw [Function.comp_apply, Bool.decide_and, Bool.and_comm]

/-- What refers to zones with a name is served alike by both. -/
theorem records_agree (h : Mirrors held tree rows) (hgrounded : tree.Grounded) (zone : ZoneId)
    (type : RecordType) (limit : Nat) :
    Agree (List.Forall₂ (Rdata.Peer (Name.Served .same))) (Store.records tree zone type limit)
      (Store.records rows zone type limit) := by
  rw [Tree.view.records_eq, Relations.view.records_eq, h.kept_eq]
  refine Agree.mapM (R := fun stored stored' =>
    stored ∈ tree.recordsAt zone ∧ stored = stored') (List.forall₂_same.2 fun stored hstored =>
      ⟨List.mem_of_mem_filter (List.mem_of_mem_take hstored), rfl⟩) ?_
  rintro stored _ ⟨hstored, rfl⟩
  refine (Rdata.Peer.of_map_eq (f := id) (g := id) (Eq.refl (stored.map id))).mapM ?_
  rintro target _ ⟨htarget, rfl⟩
  rcases h.sound.exists_nameOf? (hgrounded zone stored hstored target htarget) with ⟨name, hname⟩
  rw [id, hname, h.nameOf?_eq hname]
  have hfull := (Tree.zoneId_of_nameOf? hname).1
  have hresolved : name.isResolved = true := (Bool.and_eq_true_iff.1 hfull).1
  exact ⟨Name.peer_self hresolved, hresolved⟩

theorem records_eq (h : Mirrors held tree rows) (hgrounded : tree.Grounded) (zone : ZoneId)
    (type : RecordType) (limit : Nat) :
    Store.records tree zone type limit = Store.records rows zone type limit := by
  have hserved : ∀ rdata rdata', Rdata.Peer (Name.Served .same) rdata rdata' → rdata = rdata' :=
    fun _ _ hpeer => hpeer.eq fun _ _ hnames => hnames.1.eq
  exact (h.records_agree hgrounded zone type limit).eq fun _ _ hpeers => eq_of_forall₂ hpeers hserved

/-! ## Statistics -/

/-- The records of the tree are those of the rows, zone by zone. -/
theorem perm_allRecords (h : Mirrors held tree rows) :
    tree.allRecords.Perm (rows.records.map RecordRow.rdata) := by
  have hcover : ∀ row ∈ rows.records, row.zone ∈ tree.records.keys := by
    intro row hrow
    have hmem : row.rdata ∈ tree.recordsAt row.zone := by
      rw [h.recordsAt]
      exact List.mem_map_of_mem (List.mem_filter.2 ⟨hrow, decide_eq_true rfl⟩)
    rw [Std.TreeMap.mem_keys, Std.TreeMap.mem_iff_isSome_getElem?,
      Tree.getElem?_records_of_mem hmem]
    rfl
  have hlisted : tree.allRecords = tree.records.keys.flatMap tree.recordsAt := by
    unfold Tree.allRecords
    rw [← Std.TreeMap.map_fst_toList_eq_keys, List.flatMap_map]
    refine List.flatMap_congr fun entry hentry => ?_
    exact (Tree.recordsAt_eq (Std.TreeMap.mem_toList_iff_getElem?_eq_some.1 hentry)).symm
  calc
    tree.allRecords = (tree.records.keys.flatMap fun zone =>
        rows.records.filter fun row => row.zone = zone).map RecordRow.rdata := by
      rw [hlisted, List.map_flatMap]
      exact List.flatMap_congr fun zone _ => h.recordsAt zone
    _ |>.Perm (rows.records.map RecordRow.rdata) :=
      (perm_flatMap_filter RecordRow.zone Std.TreeMap.nodup_keys hcover).map _

/-- As much is stored in both. -/
theorem statistics_eq (h : Mirrors held tree rows) :
    rows.statistics = { tree.statistics with startedAt := rows.startedAt } := by
  have hzones : rows.zones.length = tree.nodes.size := by
    rw [h.zones_eq, List.length_map, Std.TreeMap.length_toList]
  have hrecords : ∀ kind, (rows.records.countP fun row => row.rdata.kind = kind) =
      tree.allRecords.countP fun rdata => rdata.kind = kind := by
    intro kind
    rw [h.perm_allRecords.countP_eq, List.countP_map]
    rfl
  unfold Relations.statistics Tree.statistics
  simp only [hzones, hrecords]
  rfl

/-! ## Queries -/

theorem peers (h : Mirrors held tree rows) (hgrounded : tree.Grounded) :
    Resolver.Peers .same tree rows where
  records := by
    rintro zone _ rfl type limit
    exact h.records_agree hgrounded zone type limit
  isWildcard := by
    rintro zone _ rfl
    exact (h.isWildcard_eq zone).symm

/-- A query for a name with these labels gets the same response from both. -/
theorem respond_eq (h : Mirrors held tree rows) (hascii : Relations.ComparesAscii held asked)
    (hgrounded : tree.Grounded) (limit : Nat) {query : Message}
    (hname : query.question.name.Among asked) :
    Resolver.respond tree limit query = Resolver.respond rows limit query := by
  have hresolve : Agree (Name.Peer .same) (Store.resolve tree query.question.name)
      (Store.resolve rows query.question.name) := by
    change Agree _ (tree.resolve _) (rows.resolve _)
    rw [← h.resolve_eq hascii hname]
    rcases h.sound.resolve_total query.question.name with ⟨resolved, hresolved⟩
    rw [hresolved]
    rcases h.sound.resolve_eq_ok_iff.1 hresolved with ⟨-, hform⟩
    refine Name.peer_self ?_
    unfold Name.isResolved
    rw [hform]
  have howner := List.forall₂_same.2 fun label (_ : label ∈ query.question.name.labels) => Eq.refl label
  exact (Resolver.respond_peers (h.peers hgrounded) limit hresolve howner).eq fun _ _ hm => hm.eq

end Mirrors
end Zone
end NameServer
