import NameServer.Proofs.Name.Spelling
import NameServer.Proofs.Tree.Shape

/-!
# Proofs.Tree.Names — zones with a name

The nodes of a tree spell a name when their labels fit one. A zone whose name was seen once keeps
it as long as it is there: no node changes its label or its parent, and none leaves before its
children.

* `Tree.Spells`, `Tree.HasName` — the labels on the way up from a zone, and that they fit a name;
* `Tree.Sound.resolve_total` — names are always resolved;
* `Tree.Sound.exists_nameOf?` — a zone that has a name gets one;
* `Tree.Sound.spells_of_resolve` — the deepest node of a resolved name spells the labels that were
  found;
* `Tree.Spells.steps`, `Tree.HasName.steps` — calls take a name away only with its zone.
-/

namespace NameServer

/-! ## Names that can be made -/

namespace Name

theorem exists_ofLabels {labels : List Label} (h : wireSize labels ≤ maxNameSize) :
    ∃ name, ofLabels labels = .ok name ∧ name.labels = labels := by
  have hlength : labels.length ≤ maxLabels := length_labels_le ⟨labels, .plain, h, trivial⟩
  refine ⟨⟨labels, .plain, h, trivial⟩, ?_, rfl⟩
  unfold ofLabels
  rw [if_pos hlength, dif_pos h]

/-- The number of the last of some nodes below a zone, or that of the zone. -/
def lastId (zone : ZoneId) (nodes : List ZoneNode) : ZoneId :=
  (nodes.getLast?.map ZoneNode.id).getD zone

theorem lastId_cons (zone : ZoneId) (node : ZoneNode) (nodes : List ZoneNode) :
    lastId zone (node :: nodes) = lastId node.id nodes := by
  unfold lastId
  rw [List.getLast?_cons]
  cases nodes.getLast? <;> rfl

theorem lastId_append (zone : ZoneId) (front nodes : List ZoneNode) :
    lastId zone (front ++ nodes) = lastId (lastId zone front) nodes := by
  induction front generalizing zone with
  | nil => rfl
  | cons node front ih => rw [List.cons_append, lastId_cons, lastId_cons, ih]

theorem zoneId_eq_lastId (name : Name) : name.zoneId = lastId rootZone name.nodes := by
  unfold zoneId lastId
  cases name.nodes.getLast? <;> rfl

end Name

namespace Zone
namespace Tree

variable {tree next : Tree} {zone parent : ZoneId} {path : List (ZoneId × Node)} {name : Name}

/-! ## Zones with a name -/

/-- The labels of the nodes on a way up. -/
def labelsOfPath (path : List (ZoneId × Node)) : List Label :=
  path.map fun step => step.2.label

/-- The nodes from a zone up to the root have these labels. -/
def Spells (tree : Tree) (zone : ZoneId) (labels : List Label) : Prop :=
  ∃ path, tree.Climb zone path ∧ labelsOfPath path = labels

theorem spells_root (tree : Tree) : tree.Spells rootZone [] :=
  ⟨[], Climb.root, rfl⟩

/-- The labels on the way up from a zone fit a name. -/
def HasName (tree : Tree) (zone : ZoneId) : Prop :=
  ∃ labels, tree.Spells zone labels ∧ Name.wireSize labels ≤ maxNameSize

theorem HasName.hasZone (h : tree.HasName zone) : tree.hasZone zone = true := by
  rcases h with ⟨_, ⟨path, hclimb, -⟩, -⟩
  cases hclimb with
  | root => exact hasZone_iff.2 (Or.inl rfl)
  | node _ hnode => exact hasZone_iff.2 (Or.inr ⟨_, hnode⟩)

theorem hasName_root (tree : Tree) : tree.HasName rootZone :=
  ⟨[], tree.spells_root, Name.wireSize_nil_le⟩

theorem hasName_of_nameOf? (h : tree.nameOf? zone = some name) : tree.HasName zone := by
  rcases exists_of_nameOf? h with ⟨path, hclimb, hname⟩
  refine ⟨name.labels, ⟨path, hclimb, (labels_of_nameOfPath hname).1.symm⟩, name.size_le⟩

namespace Sound

/-- The name that is spelled on the way up from a zone is its name. -/
theorem nameOf?_of_climb (h : tree.Sound) (hclimb : tree.Climb zone path)
    (hspelled : nameOfPath path = .ok name) : tree.nameOf? zone = some name := by
  unfold nameOf?
  rw [h.path?_eq_some_iff.2 hclimb, Option.bind_some, hspelled]
  rfl

/-- A zone that has a name gets one. -/
theorem exists_nameOf? (h : tree.Sound) (hname : tree.HasName zone) :
    ∃ name, tree.nameOf? zone = some name := by
  rcases hname with ⟨_, ⟨path, hclimb, rfl⟩, hsize⟩
  rcases Name.exists_ofLabels hsize with ⟨plain, hplain, hlabels⟩
  have hfit : Name.NodesFit plain.labels.length (nodesOfPath path).reverse := by
    refine ⟨?_, ?_, ?_⟩
    · rw [hlabels]
      simp [nodesOfPath, labelsOfPath]
    · intro node hnode
      rw [List.mem_reverse, nodesOfPath, List.mem_map] at hnode
      rcases hnode with ⟨step, hstep, rfl⟩
      exact h.id_pos _ _ (hclimb.node_of_mem step hstep)
    · rw [List.map_reverse, List.nodup_reverse, nodesOfPath, List.map_map]
      exact (h.falls hclimb).2.imp fun hlt => (Int.ne_of_lt hlt).symm
  rcases Name.resolve_total hfit with ⟨name, hname⟩
  refine ⟨name, h.nameOf?_of_climb hclimb ?_⟩
  unfold nameOfPath
  rw [show Name.ofLabels (path.map fun step => step.2.label) = .ok plain from hplain, ok_bind]
  exact hname

/-! ## Names that are resolved -/

/-- The child of a zone with a label is a node there. -/
theorem exists_of_child? (h : tree.Sound) {label : Label} {id : ZoneId}
    (hchild : tree.child? parent label = some id) :
    ∃ node, tree.nodes[id]? = some node ∧ node.parent = parent ∧
      node.label.folded = label.folded := by
  rcases (h.index_iff _ id).1 hchild with ⟨node, hnode, hplace⟩
  exact ⟨node, hnode, congrArg Prod.fst hplace, congrArg Prod.snd hplace⟩

/-- Walking down, numbers rise, and there is at most one node for each label. -/
theorem walk_rises (h : tree.Sound) (parent : ZoneId) (labels : List Label) :
    (tree.walk parent labels).length ≤ labels.length ∧
      (∀ node ∈ tree.walk parent labels, parent < node.id) ∧
        ((tree.walk parent labels).map ZoneNode.id).Pairwise (· < ·) := by
  induction labels generalizing parent with
  | nil => simp [walk]
  | cons label labels ih =>
      unfold walk
      cases hchild : tree.child? parent label with
      | none => simp
      | some id =>
          rcases h.exists_of_child? hchild with ⟨node, hnode, rfl, -⟩
          rcases ih id with ⟨hlength, habove, hrise⟩
          have hlt := h.parent_lt id node hnode
          refine ⟨Nat.succ_le_succ hlength, ?_, ?_⟩
          · rw [List.forall_mem_cons]
            exact ⟨hlt, fun other hother => Int.lt_trans hlt (habove other hother)⟩
          · rw [List.map_cons]
            refine List.Pairwise.cons ?_ hrise
            intro other hother
            rcases List.mem_map.1 hother with ⟨node, hmem, rfl⟩
            exact habove node hmem

/-- Every name is resolved, as far as it exists. -/
theorem resolve_total (h : tree.Sound) (name : Name) :
    ∃ resolved, tree.resolve name = .ok resolved := by
  rcases h.walk_rises rootZone name.labels.reverse with
    ⟨hlength, hpos, hrise⟩
  have hfit : Name.NodesFit name.labels.length (tree.walk rootZone name.labels.reverse) :=
    ⟨by simpa using hlength, hpos, hrise.imp fun hlt => Int.ne_of_lt hlt⟩
  rcases Name.resolve_total hfit with ⟨resolved, hresolved⟩
  exact ⟨resolved, by unfold Tree.resolve; rw [hresolved]; rfl⟩

/-- A walk ends at a zone that spells the labels it found nodes for, ASCII case aside. -/
theorem exists_spells_of_walk (h : tree.Sound) (labels : List Label) {front : List Label}
    (hfront : tree.Spells parent front) :
    ∃ spelled, tree.Spells (Name.lastId parent (tree.walk parent labels)) spelled ∧
      spelled.map Label.folded =
        ((labels.take (tree.walk parent labels).length).map Label.folded).reverse ++
          front.map Label.folded := by
  induction labels generalizing parent front with
  | nil => exact ⟨front, hfront, rfl⟩
  | cons label labels ih =>
      unfold walk
      cases hchild : tree.child? parent label with
      | none => exact ⟨front, hfront, rfl⟩
      | some id =>
          rcases h.exists_of_child? hchild with ⟨node, hnode, rfl, hlabel⟩
          rcases hfront with ⟨path, hclimb, rfl⟩
          have hstep : tree.Spells id (node.label :: labelsOfPath path) :=
            ⟨(id, node) :: path, .node (Int.ne_of_gt (h.id_pos id node hnode)) hnode hclimb, rfl⟩
          rcases ih hstep with ⟨spelled, hspelled, hlabels⟩
          refine ⟨spelled, by rw [Name.lastId_cons]; exact hspelled, ?_⟩
          rw [hlabels]
          simp [hlabel]

/-- The deepest node of a resolved name spells the labels of the name that have nodes. -/
theorem spells_of_resolve (h : tree.Sound) {resolved : Name}
    (hresolve : tree.resolve name = .ok resolved) :
    resolved.labels = name.labels ∧ ∃ spelled, tree.Spells resolved.zoneId spelled ∧
      spelled.map Label.folded =
        (name.labels.drop (name.labels.length - resolved.resolvedCount)).map Label.folded := by
  unfold Tree.resolve at hresolve
  cases hnodes : name.resolve (tree.walk rootZone name.labels.reverse) with
  | error e =>
      rw [hnodes] at hresolve
      cases hresolve
  | ok found =>
      rw [hnodes] at hresolve
      cases hresolve
      rcases Name.labels_of_resolve hnodes with ⟨hlabels, hform⟩
      rcases h.exists_spells_of_walk name.labels.reverse tree.spells_root with
        ⟨spelled, hspelled, hfolded⟩
      refine ⟨hlabels, spelled, ?_, ?_⟩
      · rw [Name.zoneId_eq_lastId, Name.nodes_of_form hform]
        exact hspelled
      · rw [hfolded, Name.resolvedCount, Name.nodes_of_form hform, List.take_reverse]
        simp

/-- So it has a name. -/
theorem hasName_of_resolve (h : tree.Sound) {resolved : Name}
    (hresolve : tree.resolve name = .ok resolved) : tree.HasName resolved.zoneId := by
  rcases h.spells_of_resolve hresolve with ⟨-, spelled, hspelled, hfolded⟩
  refine ⟨spelled, hspelled, ?_⟩
  have hsize := name.size_le
  have hdrop := Name.literalSize_drop_le (name.labels.length - resolved.resolvedCount) name.labels
  unfold Name.wireSize at hsize ⊢
  rw [Name.literalSize_congr hfolded]
  omega

end Sound

/-! ## Names stay -/

/-- A way up stays where the nodes on it keep their places. -/
theorem Climb.of_nodes (h : tree.Climb zone path)
    (hnodes : ∀ step ∈ path, ∃ node, next.nodes[step.1]? = some node ∧
      node.parent = step.2.parent ∧ node.label = step.2.label) :
    ∃ path', next.Climb zone path' ∧ labelsOfPath path' = labelsOfPath path := by
  induction h with
  | root => exact ⟨[], Climb.root, rfl⟩
  | @node zone node path hne _ _ ih =>
      rw [List.forall_mem_cons] at hnodes
      rcases hnodes with ⟨⟨node', hnode', hparent, hlabel⟩, hrest⟩
      rcases ih hrest with ⟨path', hclimb, hlabels⟩
      refine ⟨(zone, node') :: path', Climb.node hne hnode' (hparent ▸ hclimb), ?_⟩
      unfold labelsOfPath at hlabels ⊢
      rw [List.map_cons, List.map_cons, hlabels, hlabel]

/-- A zone without children is on the way up from itself only. -/
theorem Climb.ne_of_childless {gone : ZoneId} (h : tree.Climb zone path) (hne : zone ≠ gone)
    (hchildless : ∀ (id : ZoneId) (node : Node), tree.nodes[id]? = some node →
      node.parent ≠ gone) : ∀ step ∈ path, step.1 ≠ gone := by
  induction h with
  | root => simp
  | @node zone node path _ hnode _ ih =>
      rw [List.forall_mem_cons]
      exact ⟨hne, ih (hchildless zone node hnode)⟩

/-- A zone keeps its labels until it is taken away. -/
theorem Spells.steps {labels : List Label} (h : tree.Spells zone labels) (hsound : tree.Sound)
    {call : Call} {outcome : Except Fault Answer} (hsteps : tree.Steps call outcome next)
    (hstays : call = .deleteNode zone → outcome ≠ .ok .done) : next.Spells zone labels := by
  rcases h with ⟨path, hclimb, rfl⟩
  refine hclimb.of_nodes fun step hstep => ?_
  have hnode := hclimb.node_of_mem step hstep
  cases hsteps with
  | reads | fails => exact ⟨step.2, hnode, rfl, rfl⟩
  | records _ hrecords => exact ⟨step.2, by rw [hrecords.nodes, hnode], rfl, rfl⟩
  | clears _ hclears => exact ⟨step.2, by rw [hclears.nodes, hnode], rfl, rfl⟩
  | adds hadds =>
      refine ⟨step.2, ?_, rfl, rfl⟩
      rw [hadds.node, if_neg, hnode]
      intro heq
      have hlt := hsound.id_lt step.1 step.2 hnode
      rw [← heq, hadds.id_eq] at hlt
      exact Int.lt_irrefl _ hlt
  | marks hmarks =>
      rcases hmarks.node with ⟨marked, hmarked, hother⟩
      rw [hother]
      split
      · rename_i heq
        rw [heq, hnode] at hmarked
        cases hmarked
        exact ⟨_, rfl, rfl, rfl⟩
      · exact ⟨step.2, hnode, rfl, rfl⟩
  | @removes _ gone hremoves =>
      have hne : zone ≠ gone := fun heq => hstays (by rw [heq]) rfl
      refine ⟨step.2, ?_, rfl, rfl⟩
      rw [hremoves.node, if_neg, hnode]
      exact (hclimb.ne_of_childless hne hremoves.childless step hstep).symm

theorem HasName.steps (h : tree.HasName zone) (hsound : tree.Sound) {call : Call}
    {outcome : Except Fault Answer} (hsteps : tree.Steps call outcome next)
    (hstays : call = .deleteNode zone → outcome ≠ .ok .done) : next.HasName zone := by
  rcases h with ⟨labels, hspells, hsize⟩
  exact ⟨labels, hspells.steps hsound hsteps hstays, hsize⟩

end Tree
end Zone
end NameServer
