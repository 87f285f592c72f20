import NameServer.Proofs.Tree.Generations
import NameServer.Proofs.Tree.Names
import NameServer.Proofs.Zone.CaseBlind

/-!
# Proofs.Tree.Walks — down a tree and up again

Looking a name up goes down from the root, label by label through the index of places. Naming a
zone goes up from it, node by node through the parents. In a sound tree the two ways are the same.

* `Tree.Sound.walk_of_climb` — the labels of a way up lead down through its nodes;
* `Tree.Sound.resolve_eq_ok_iff` — a resolved name has the labels of the name and the nodes of the
  walk along them;
* `Tree.Has` — some zone spells these labels, which says nothing of the index;
* `Tree.Sound.has_iff` — a run of last labels is there when the walk along the name gets that far;
* `Tree.Inverse` and `Tree.inverse_of_history` — looking up and naming undo each other in every tree
  that comes about by calls.
-/

namespace NameServer

theorem Name.labels_resolvedPart (name : Name) :
    name.resolvedPart.labels = name.labels.drop (name.labels.length - name.resolvedCount) := rfl

namespace Zone
namespace Tree

variable {tree : Tree} {zone parent : ZoneId} {path : List (ZoneId × Node)} {name resolved : Name}
variable {labels more run : List Label}

/-! ## Walks -/

theorem walk_of_child? {id : ZoneId} {label : Label} (h : tree.child? parent label = some id)
    (labels : List Label) :
    tree.walk parent (label :: labels) = ⟨id, tree.isWildcard id⟩ :: tree.walk id labels := by
  simp only [walk, h]

theorem walk_of_childless {label : Label} (h : tree.child? parent label = none)
    (labels : List Label) : tree.walk parent (label :: labels) = [] := by
  simp only [walk, h]

/-- The labels that a walk found nodes for lead through these nodes. -/
theorem walk_take (tree : Tree) (parent : ZoneId) (labels : List Label) :
    tree.walk parent (labels.take (tree.walk parent labels).length) = tree.walk parent labels := by
  induction labels generalizing parent with
  | nil => rfl
  | cons label labels ih =>
      cases hchild : tree.child? parent label with
      | none =>
          rw [walk_of_childless hchild]
          rfl
      | some id =>
          rw [walk_of_child? hchild, List.length_cons, List.take_succ_cons, walk_of_child? hchild,
            ih id]

namespace Sound

/-- A node is the child of its parent with its label. -/
theorem child?_of_node (h : tree.Sound) {node : Node} (hnode : tree.nodes[zone]? = some node) :
    tree.child? node.parent node.label = some zone :=
  (h.index_iff node.place zone).2 ⟨node, hnode, rfl⟩

/-- The labels of a way up lead down through its nodes. -/
theorem walk_of_climb (h : tree.Sound) (hclimb : tree.Climb zone path) (more : List Label) :
    tree.walk rootZone ((labelsOfPath path).reverse ++ more) =
      (nodesOfPath path).reverse ++ tree.walk zone more := by
  -- The way down to the parent comes first; from there the label of the zone leads one step on.
  induction hclimb generalizing more with
  | root => rfl
  | @node zone node rest _ hnode _ ih =>
      have hmark : tree.isWildcard zone = node.wildcard := by
        unfold isWildcard
        rw [hnode]
      calc
        tree.walk rootZone ((labelsOfPath ((zone, node) :: rest)).reverse ++ more) =
            tree.walk rootZone ((labelsOfPath rest).reverse ++ (node.label :: more)) := by
          simp [labelsOfPath]
        _ = (nodesOfPath rest).reverse ++ tree.walk node.parent (node.label :: more) := ih _
        _ = (nodesOfPath ((zone, node) :: rest)).reverse ++ tree.walk zone more := by
          rw [walk_of_child? (h.child?_of_node hnode), hmark]
          simp [nodesOfPath]

/-- A resolved name has the labels of the name and the nodes of the walk along them. -/
theorem resolve_eq_ok_iff (h : tree.Sound) : tree.resolve name = .ok resolved ↔
    resolved.labels = name.labels ∧
      resolved.form = .resolved (tree.walk rootZone name.labels.reverse) := by
  have hshape : ∀ found, tree.resolve name = .ok found → found.labels = name.labels ∧
      found.form = .resolved (tree.walk rootZone name.labels.reverse) := by
    intro found hfound
    unfold Tree.resolve at hfound
    cases hnodes : name.resolve (tree.walk rootZone name.labels.reverse) with
    | error e =>
        rw [hnodes] at hfound
        cases hfound
    | ok other =>
        rw [hnodes] at hfound
        cases hfound
        exact Name.labels_of_resolve hnodes
  refine ⟨hshape resolved, fun ⟨hlabels, hform⟩ => ?_⟩
  rcases h.resolve_total name with ⟨found, hfound⟩
  rcases hshape found hfound with ⟨hlabels', hform'⟩
  rw [hfound, Name.ext (hlabels.trans hlabels'.symm) (hform.trans hform'.symm)]

theorem nodes_of_resolve (h : tree.Sound) (hresolve : tree.resolve name = .ok resolved) :
    resolved.nodes = tree.walk rootZone name.labels.reverse :=
  Name.nodes_of_form (h.resolve_eq_ok_iff.1 hresolve).2

/-- The name of a zone is found again, with its nodes. -/
theorem resolve_of_nameOf? (h : tree.Sound) (hname : tree.nameOf? zone = some name) :
    tree.resolve name = .ok name := by
  rcases exists_of_nameOf? hname with ⟨path, hclimb, hspelled⟩
  rcases labels_of_nameOfPath hspelled with ⟨hlabels, hform⟩
  refine h.resolve_eq_ok_iff.2 ⟨rfl, hform.trans ?_⟩
  have hwalk := h.walk_of_climb hclimb []
  rw [List.append_nil] at hwalk
  rw [show name.labels = labelsOfPath path from hlabels, hwalk]
  simp [walk]

end Sound

/-! ## Runs of labels -/

/-- Some zone spells these labels, ASCII case aside. -/
def Has (tree : Tree) (labels : List Label) : Prop :=
  ∃ zone spelled, tree.Spells zone spelled ∧ spelled.map Label.folded = labels.map Label.folded

/-- The zones above one spell its labels without the first ones. -/
theorem Spells.drop (h : tree.Spells zone labels) (count : Nat) :
    ∃ above, tree.Spells above (labels.drop count) := by
  rcases h with ⟨path, hclimb, rfl⟩
  induction hclimb generalizing count with
  | root => exact ⟨rootZone, by simpa [labelsOfPath] using tree.spells_root⟩
  | @node zone node rest hne hnode hrest ih =>
      cases count with
      | zero => exact ⟨zone, (zone, node) :: rest, .node hne hnode hrest, rfl⟩
      | succ count => exact ih count

theorem Has.drop (h : tree.Has labels) (count : Nat) : tree.Has (labels.drop count) := by
  rcases h with ⟨zone, spelled, hspells, hfolded⟩
  rcases hspells.drop count with ⟨above, habove⟩
  exact ⟨above, spelled.drop count, habove, by rw [List.map_drop, hfolded, List.map_drop]⟩

/-- Labels that are there lead down through a node for each of them. -/
theorem Sound.length_le_of_has (h : tree.Sound) (hrun : run <:+ labels) (hhas : tree.Has run) :
    run.length ≤ (tree.walk rootZone labels.reverse).length := by
  rcases hrun with ⟨front, rfl⟩
  rcases hhas with ⟨zone, _, ⟨path, hclimb, rfl⟩, hfolded⟩
  have hsame : List.Forall₂ Label.SameAs (labelsOfPath path).reverse run.reverse :=
    List.rel_reverse (Label.map_folded_eq.1 hfolded)
  have hwalk : tree.walk rootZone (front ++ run).reverse =
      (nodesOfPath path).reverse ++ tree.walk zone front.reverse := by
    rw [List.reverse_append, ← h.walk_of_climb hclimb]
    refine (tree.walk_congr rootZone (List.rel_append hsame ?_)).symm
    exact List.forall₂_same.2 fun _ _ => rfl
  have hlength : run.length = (nodesOfPath path).length := by
    simpa [labelsOfPath, nodesOfPath] using hsame.length_eq.symm
  rw [hwalk, List.length_append, List.length_reverse, hlength]
  exact Nat.le_add_right _ _

/-- A run of last labels is there exactly when it is no longer than the part that is resolved. -/
theorem Sound.has_iff (h : tree.Sound) (hresolve : tree.resolve name = .ok resolved)
    (hrun : run <:+ name.labels) : tree.Has run ↔ run.length ≤ resolved.resolvedCount := by
  constructor
  · intro hhas
    rw [Name.resolvedCount, h.nodes_of_resolve hresolve]
    exact h.length_le_of_has hrun hhas
  · intro hle
    rcases h.spells_of_resolve hresolve with ⟨-, spelled, hspells, hfolded⟩
    have hcount : resolved.resolvedCount ≤ name.labels.length :=
      (h.resolve_eq_ok_iff.1 hresolve).1 ▸ resolved.nodes_fit.1
    -- The run is what remains of the resolved part without its first labels.
    have hpart : run = (name.labels.drop (name.labels.length - resolved.resolvedCount)).drop
        (resolved.resolvedCount - run.length) := by
      rw [List.drop_drop, List.suffix_iff_eq_drop.1 hrun, List.length_drop]
      congr 1
      have hlength := hrun.length_le
      omega
    rw [hpart]
    exact Has.drop ⟨_, spelled, hspells, hfolded⟩ _

/-! ## Looking up and naming -/

/-- What looking up a name yields: its labels, with nodes for the longest run of last labels that is
there, and these are the nodes of the zone that the run names. -/
structure Resolves (tree : Tree) (name resolved : Name) : Prop where
  labels : resolved.labels = name.labels
  isResolved : resolved.isResolved = true
  runs : ∀ run, run <:+ name.labels → (tree.Has run ↔ run.length ≤ resolved.resolvedCount)
  named : ∃ found, Store.nameOf? tree resolved.zoneId = .ok (some found) ∧
    found.SameAs resolved.resolvedPart ∧ found.form = resolved.resolvedPart.form

/-- Looking up a name and naming a zone undo each other. -/
structure Inverse (tree : Tree) : Prop where
  found : ∀ zone name, Store.nameOf? tree zone = .ok (some name) →
    Store.resolve tree name = .ok name ∧ name.isFullyResolved = true ∧ name.zoneId = zone
  resolved : ∀ name, ∃ resolved, Store.resolve tree name = .ok resolved ∧
    tree.Resolves name resolved

namespace Sound

/-- The deepest node of a resolved name has the part of the name that is resolved for its own. -/
theorem named_of_resolve (h : tree.Sound) (hresolve : tree.resolve name = .ok resolved) :
    ∃ found, tree.nameOf? resolved.zoneId = some found ∧
      found.SameAs resolved.resolvedPart ∧ found.form = resolved.resolvedPart.form := by
  rcases h.exists_nameOf? (h.hasName_of_resolve hresolve) with ⟨found, hfound⟩
  rcases h.spells_of_resolve hresolve with ⟨hlabels, _, ⟨path, hclimb, rfl⟩, hfolded⟩
  rcases exists_of_nameOf? hfound with ⟨path', hclimb', hspelled⟩
  rw [← hclimb.unique hclimb'] at hspelled
  have hsame : found.SameAs resolved.resolvedPart := by
    unfold Name.SameAs Name.folded
    rw [(labels_of_nameOfPath hspelled).1, Name.labels_resolvedPart, hlabels]
    exact hfolded
  refine ⟨found, hfound, hsame, ?_⟩
  -- Both are the nodes of the walk along the labels that were found.
  have hnodes := h.nodes_of_resolve hresolve
  have hpart : resolved.resolvedPart.labels.reverse =
      name.labels.reverse.take (tree.walk rootZone name.labels.reverse).length := by
    rw [Name.labels_resolvedPart, Name.resolvedCount, hlabels, hnodes, List.take_reverse]
  have hwalk : tree.walk rootZone found.labels.reverse = resolved.nodes :=
    calc
      tree.walk rootZone found.labels.reverse =
          tree.walk rootZone resolved.resolvedPart.labels.reverse :=
        tree.walk_congr rootZone (List.rel_reverse (Label.map_folded_eq.1 hsame))
      _ = tree.walk rootZone name.labels.reverse := by rw [hpart, walk_take]
      _ = resolved.nodes := hnodes.symm
  rw [(h.resolve_eq_ok_iff.1 (h.resolve_of_nameOf? hfound)).2, hwalk]
  rfl

theorem resolves (h : tree.Sound) (hresolve : tree.resolve name = .ok resolved) :
    tree.Resolves name resolved := by
  rcases h.resolve_eq_ok_iff.1 hresolve with ⟨hlabels, hform⟩
  rcases h.named_of_resolve hresolve with ⟨found, hfound, hsame⟩
  exact {
    labels := hlabels
    isResolved := by unfold Name.isResolved; rw [hform]
    runs := fun run hrun => h.has_iff hresolve hrun
    named := ⟨found, congrArg Except.ok hfound, hsame⟩ }

theorem inverse (h : tree.Sound) : tree.Inverse where
  found zone name hname := by
    have hname := Except.ok.inj hname
    exact ⟨h.resolve_of_nameOf? hname, zoneId_of_nameOf? hname⟩
  resolved name := by
    rcases h.resolve_total name with ⟨resolved, hresolve⟩
    exact ⟨resolved, hresolve, h.resolves hresolve⟩

end Sound

/-- In every tree that comes about from an empty one, by calls that succeed or fail, looking up a
name and naming a zone undo each other. -/
theorem inverse_of_history {startedAt : Timestamp} {events : List Event}
    (h : History (empty startedAt) events tree) : tree.Inverse :=
  (sound_of_history h).inverse

/-- In the sample tree a name below `www.kin` is resolved as far as the node 2, whatever the case of
its letters, and that node has the part of the name that is resolved for its own. -/
theorem inverse_of_history_sampleCalls :
    ∃ name resolved, Name.ofText "no.WWW.kin" = .ok name ∧
      Store.resolve sampleTree name = .ok resolved ∧ resolved.zoneId = 2 ∧
      sampleTree.Resolves name resolved := by
  have hinverse : sampleTree.Inverse := inverse_of_history (history_foldl_record _ sampleCalls)
  have hzone : (Name.ofText "no.WWW.kin").toOption.map (fun name =>
      (sampleTree.resolve name).toOption.map Name.zoneId) = some (some 2) := by decide +kernel
  cases hname : Name.ofText "no.WWW.kin" with
  | error e =>
      rw [hname] at hzone
      cases hzone
  | ok name =>
      rcases hinverse.resolved name with ⟨resolved, hresolve, hresolves⟩
      refine ⟨name, resolved, rfl, hresolve, ?_, hresolves⟩
      rw [hname] at hzone
      change some ((Store.resolve sampleTree name).toOption.map Name.zoneId) = _ at hzone
      rw [hresolve] at hzone
      exact Option.some.inj (Option.some.inj hzone)

end Tree
end Zone
end NameServer
