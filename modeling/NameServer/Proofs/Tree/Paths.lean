import NameServer.Proofs.Name.Resolution
import NameServer.Proofs.Tree.Changes

/-!
# Proofs.Tree.Paths — ways up a tree

The name of a node is put together on the way from the node up to the root.

* `Tree.Climb` — the way up from a zone, step by step;
* `Tree.path?_eq_some_iff` — such a way is found when there are steps enough;
* `Tree.zoneId_of_nameOf?` — the name of a zone is fully resolved, and its deepest node is the zone.
-/

namespace NameServer

/-! ## Resolved names -/

namespace Name

variable {name resolved : Name} {nodes : List ZoneNode}

theorem labels_of_ofLabels {labels : List Label} (h : ofLabels labels = .ok name) :
    name.labels = labels := by
  unfold ofLabels at h
  split at h
  · split at h
    · cases h
      rfl
    · cases h
  · cases h

/-- The deepest node of a name is the last one. -/
theorem zoneId_of_form (h : resolved.form = .resolved nodes.reverse) :
    resolved.zoneId = (nodes.head?.map ZoneNode.id).getD rootZone := by
  unfold zoneId
  rw [nodes_of_form h, List.getLast?_reverse]
  cases nodes with
  | nil => rfl
  | cons node nodes => rfl

end Name

namespace Zone
namespace Tree

variable {tree : Tree} {zone : ZoneId} {path : List (ZoneId × Node)} {name : Name}

/-! ## Climbing -/

/-- `path` holds the nodes from a zone up to the root, without the root. -/
inductive Climb (tree : Tree) : ZoneId → List (ZoneId × Node) → Prop
  | root : Climb tree rootZone []
  | node {zone : ZoneId} {node : Node} {path : List (ZoneId × Node)} :
      zone ≠ rootZone → tree.nodes[zone]? = some node → Climb tree node.parent path →
        Climb tree zone ((zone, node) :: path)

theorem climb_root_iff : tree.Climb rootZone path ↔ path = [] := by
  constructor
  · intro h
    cases h with
    | root => rfl
    | node hne => exact absurd rfl hne
  · rintro rfl
    exact Climb.root

theorem path?_root (tree : Tree) (steps : Nat) : tree.path? steps rootZone = some [] := by
  cases steps <;> exact if_pos rfl

/-- A way up is found exactly when it is no longer than the steps that are taken. -/
theorem path?_eq_some_iff {steps : Nat} :
    tree.path? steps zone = some path ↔ tree.Climb zone path ∧ path.length ≤ steps := by
  induction steps generalizing zone path with
  | zero =>
      by_cases hroot : zone = rootZone
      · subst hroot
        rw [path?_root, climb_root_iff, Option.some.injEq, eq_comm]
        exact (and_iff_left_of_imp fun h => by simp [h]).symm
      · unfold path?
        rw [if_neg hroot]
        refine iff_of_false (by simp) ?_
        rintro ⟨hclimb, hlength⟩
        cases hclimb with
        | root => exact hroot rfl
        | node => simp at hlength
  | succ steps ih =>
      by_cases hroot : zone = rootZone
      · subst hroot
        rw [path?_root, climb_root_iff, Option.some.injEq, eq_comm]
        exact (and_iff_left_of_imp fun h => by simp [h]).symm
      · unfold path?
        simp only [if_neg hroot, Option.bind_eq_bind, Option.bind_eq_some_iff, Option.pure_def,
          Option.some.injEq]
        constructor
        · rintro ⟨node, hnode, rest, hrest, rfl⟩
          rcases ih.1 hrest with ⟨hclimb, hlength⟩
          exact ⟨Climb.node hroot hnode hclimb, Nat.succ_le_succ hlength⟩
        · rintro ⟨hclimb, hlength⟩
          cases hclimb with
          | root => exact absurd rfl hroot
          | @node _ node rest _ hnode hrest =>
              exact ⟨node, hnode, rest, ih.2 ⟨hrest, Nat.le_of_succ_le_succ hlength⟩, rfl⟩

/-- A way up begins with the zone itself, unless that is the root. -/
theorem Climb.head (h : tree.Climb zone path) :
    (path.head?.map Prod.fst).getD rootZone = zone := by
  cases h with
  | root => rfl
  | node => rfl

/-! ## Names -/

/-- The node of each step on a way up, as a name carries it. -/
def nodesOfPath (path : List (ZoneId × Node)) : List ZoneNode :=
  path.map fun step => ⟨step.1, step.2.wildcard⟩

theorem labels_of_nameOfPath (h : nameOfPath path = .ok name) :
    name.labels = path.map (fun step => step.2.label) ∧
      name.form = .resolved (nodesOfPath path).reverse := by
  rcases exists_of_bind h with ⟨plain, hplain, hresolve⟩
  rcases Name.labels_of_resolve hresolve with ⟨hlabels, hform⟩
  exact ⟨hlabels.trans (Name.labels_of_ofLabels hplain), hform⟩

theorem exists_of_nameOf? (h : tree.nameOf? zone = some name) :
    ∃ path, tree.Climb zone path ∧ nameOfPath path = .ok name := by
  rcases Option.bind_eq_some_iff.1 h with ⟨path, hpath, hname⟩
  refine ⟨path, (path?_eq_some_iff.1 hpath).1, ?_⟩
  cases hspelled : nameOfPath path with
  | error e => rw [hspelled] at hname; cases hname
  | ok spelled => rw [hspelled] at hname; cases hname; rfl

/-- The name of a zone is fully resolved, and its deepest node is the zone. -/
theorem zoneId_of_nameOf? (h : tree.nameOf? zone = some name) :
    name.isFullyResolved = true ∧ name.zoneId = zone := by
  rcases exists_of_nameOf? h with ⟨path, hclimb, hname⟩
  rcases labels_of_nameOfPath hname with ⟨hlabels, hform⟩
  constructor
  · refine Name.isFullyResolved_of_form hform ?_
    rw [hlabels]
    simp [nodesOfPath]
  · calc
      name.zoneId = ((nodesOfPath path).head?.map ZoneNode.id).getD rootZone :=
        Name.zoneId_of_form hform
      _ = (path.head?.map Prod.fst).getD rootZone := by
        cases path with
        | nil => rfl
        | cons step path => rfl
      _ = zone := hclimb.head

end Tree
end Zone
end NameServer
