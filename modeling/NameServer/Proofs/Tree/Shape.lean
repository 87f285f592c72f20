import Mathlib.Data.List.Perm.Subperm
import NameServer.Proofs.Tree.Paths

/-!
# Proofs.Tree.Shape — the maps of a tree fit together

The nodes, the index of places, the records and the number for the next node of a tree are changed
one by one, but every call leaves them in step with one another.

* `Tree.Sound` — the index has exactly the places of the nodes, parents are older than their
  children, and records are only at the root or at nodes;
* `Tree.Sound.steps` and `Tree.sound_of_history` — every call keeps a tree sound;
* `Tree.Sound.exists_climb` — from every node there is a way up to the root, no longer than there
  are nodes, so that looking for one comes to an end;
* `Tree.created_of_history` — numbers of nodes are positive and given once.
-/

namespace NameServer
namespace Zone

namespace Tree

variable {tree next : Tree} {zone parent id : ZoneId} {label : Label} {wildcard : Bool}
variable {path : List (ZoneId × Node)}

/-! ## Sound trees -/

/-- The maps of a tree fit together. -/
structure Sound (tree : Tree) : Prop where
  /-- The index has the places of the nodes and no others. -/
  index_iff : ∀ (place : Place) (id : ZoneId), tree.index[place]? = some id ↔
    ∃ node, tree.nodes[id]? = some node ∧ node.place = place
  hasParent : ∀ (id : ZoneId) (node : Node), tree.nodes[id]? = some node →
    tree.hasZone node.parent = true
  parent_lt : ∀ (id : ZoneId) (node : Node), tree.nodes[id]? = some node → node.parent < id
  id_pos : ∀ (id : ZoneId) (node : Node), tree.nodes[id]? = some node → rootZone < id
  id_lt : ∀ (id : ZoneId) (node : Node), tree.nodes[id]? = some node → id < tree.nextZone
  nextZone_pos : rootZone < tree.nextZone
  hasZone_of_records : ∀ zone ∈ tree.records, tree.hasZone zone = true

theorem sound_empty (startedAt : Timestamp) : (empty startedAt).Sound := by
  have hnodes : ∀ (id : ZoneId) (node : Node), (empty startedAt).nodes[id]? ≠ some node := by
    intro id node hnode
    rw [show (empty startedAt).nodes[id]? = none from Std.TreeMap.getElem?_emptyc] at hnode
    cases hnode
  refine ⟨?_, fun id node h => absurd h (hnodes id node), fun id node h => absurd h (hnodes id node),
    fun id node h => absurd h (hnodes id node), fun id node h => absurd h (hnodes id node),
    Int.zero_lt_one, fun _ hzone => absurd hzone Std.TreeMap.not_mem_emptyc⟩
  intro place id
  refine iff_of_false ?_ fun ⟨node, hnode, _⟩ => hnodes id node hnode
  rw [show (empty startedAt).index[place]? = none from Std.TreeMap.getElem?_emptyc]
  exact Option.some_ne_none id ∘ Eq.symm

/-! ## Steps keep trees sound -/

/-- A zone is there after a step that keeps all nodes. -/
theorem hasZone_of_nodes (h : tree.hasZone zone = true)
    (hnodes : ∀ node, tree.nodes[zone]? = some node → ∃ node', next.nodes[zone]? = some node') :
    next.hasZone zone = true := by
  rcases hasZone_iff.1 h with hroot | ⟨node, hnode⟩
  · exact hasZone_iff.2 (Or.inl hroot)
  · exact hasZone_iff.2 (Or.inr (hnodes node hnode))

namespace Sound

theorem nodes_nextZone (h : tree.Sound) : tree.nodes[tree.nextZone]? = none := by
  cases hnode : tree.nodes[tree.nextZone]? with
  | none => rfl
  | some node => exact absurd (h.id_lt _ node hnode) (Int.lt_irrefl _)

/-- Every zone of a tree is older than the next one. -/
theorem lt_nextZone (h : tree.Sound) (hzone : tree.hasZone zone = true) :
    zone < tree.nextZone := by
  rcases hasZone_iff.1 hzone with rfl | ⟨node, hnode⟩
  · exact h.nextZone_pos
  · exact h.id_lt zone node hnode

theorem adds (h : tree.Sound) (hadds : tree.Adds parent label wildcard id next) : next.Sound := by
  have hid : id = tree.nextZone := hadds.id_eq
  have hnew : tree.nodes[id]? = none := hid ▸ h.nodes_nextZone
  have hparent : parent < id := hid ▸ h.lt_nextZone hadds.hasParent
  have hold : ∀ (zone : ZoneId) (node : Node), tree.nodes[zone]? = some node →
      next.nodes[zone]? = some node := by
    intro zone node hnode
    rw [hadds.node, if_neg, hnode]
    rintro rfl
    rw [hnew] at hnode
    cases hnode
  have hthere : ∀ zone, tree.hasZone zone = true → next.hasZone zone = true := fun zone hzone =>
    hasZone_of_nodes hzone fun node hnode => ⟨node, hold zone node hnode⟩
  -- Each fact about a node is one about the new node or about an old one.
  have hcases : ∀ (zone : ZoneId) (node : Node), next.nodes[zone]? = some node →
      (zone = id ∧ node = ⟨label, parent, wildcard⟩) ∨ tree.nodes[zone]? = some node := by
    intro zone node hnode
    rw [hadds.node] at hnode
    split at hnode
    · rename_i heq
      exact Or.inl ⟨heq.symm, (Option.some.inj hnode).symm⟩
    · exact Or.inr hnode
  have hpos : rootZone < id := hid ▸ h.nextZone_pos
  have hnext : next.nextZone = id + 1 := hadds.nextZone
  refine ⟨?index, ?_, ?_, ?_, ?_, ?_, ?_⟩
  case index =>
    intro place other
    rw [hadds.index]
    by_cases hplace : (parent, label.folded) = place
    · subst hplace
      rw [if_pos rfl, Option.some.injEq]
      constructor
      · rintro rfl
        exact ⟨⟨label, parent, wildcard⟩, by rw [hadds.node, if_pos rfl], rfl⟩
      · rintro ⟨node, hnode, hsame⟩
        rcases hcases other node hnode with ⟨rfl, -⟩ | hnode
        · rfl
        · -- The place was free, so no old node is there.
          have htaken := (h.index_iff _ other).2 ⟨node, hnode, hsame⟩
          rw [hadds.free] at htaken
          cases htaken
    · rw [if_neg hplace, h.index_iff]
      constructor
      · rintro ⟨node, hnode, hsame⟩
        exact ⟨node, hold other node hnode, hsame⟩
      · rintro ⟨node, hnode, hsame⟩
        rcases hcases other node hnode with ⟨-, rfl⟩ | hnode
        · exact absurd hsame hplace
        · exact ⟨node, hnode, hsame⟩
  · intro other node hnode
    rcases hcases other node hnode with ⟨-, rfl⟩ | hnode
    · exact hthere parent hadds.hasParent
    · exact hthere _ (h.hasParent other node hnode)
  · intro other node hnode
    rcases hcases other node hnode with ⟨rfl, rfl⟩ | hnode
    · exact hparent
    · exact h.parent_lt other node hnode
  · intro other node hnode
    rcases hcases other node hnode with ⟨rfl, -⟩ | hnode
    · exact hpos
    · exact h.id_pos other node hnode
  · intro other node hnode
    rw [hnext]
    rcases hcases other node hnode with ⟨rfl, -⟩ | hnode
    · exact Int.lt_succ _
    · rw [hid]
      exact Int.lt_trans (h.id_lt other node hnode) (Int.lt_succ _)
  · rw [hnext]
    exact Int.lt_trans hpos (Int.lt_succ _)
  · intro other hother
    rw [hadds.records] at hother
    exact hthere other (h.hasZone_of_records other hother)

/-- What only changes records keeps a tree sound when they stay at its zones. -/
theorem of_nodes (h : tree.Sound) (hnodes : next.nodes = tree.nodes)
    (hindex : next.index = tree.index) (hnext : next.nextZone = tree.nextZone)
    (hrecords : ∀ zone ∈ next.records, tree.hasZone zone = true) : next.Sound := by
  have hzone : ∀ zone, next.hasZone zone = tree.hasZone zone := by
    intro zone
    unfold hasZone
    rw [hnodes]
  refine ⟨?_, ?_, ?_, ?_, ?_, ?_, ?_⟩
  · rw [hindex, hnodes]
    exact h.index_iff
  · intro id node hnode
    rw [hzone]
    exact h.hasParent id node (hnodes ▸ hnode)
  · rw [hnodes]
    exact h.parent_lt
  · rw [hnodes]
    exact h.id_pos
  · rw [hnodes, hnext]
    exact h.id_lt
  · rw [hnext]
    exact h.nextZone_pos
  · intro zone hmem
    rw [hzone]
    exact hrecords zone hmem

theorem records {rdata : Rdata Name} (h : tree.Sound) (hrecords : tree.Records zone rdata next) :
    next.Sound := by
  refine h.of_nodes hrecords.nodes hrecords.index hrecords.nextZone fun other hother => ?_
  rcases (hrecords.mem_records other).1 hother with rfl | hother
  · exact hrecords.hasZone
  · exact h.hasZone_of_records other hother

theorem clears {type : RecordType} (h : tree.Sound) (hclears : tree.Clears zone type next) :
    next.Sound :=
  h.of_nodes hclears.nodes hclears.index hclears.nextZone fun other hother =>
    h.hasZone_of_records other ((hclears.mem_records other).1 hother)

theorem marks (h : tree.Sound) (hmarks : tree.Marks zone wildcard next) : next.Sound := by
  rcases hmarks.node with ⟨marked, hmarked, hnode⟩
  -- The marked node has the same place as before, and so has every other node.
  have hback : ∀ (id : ZoneId) (node : Node), next.nodes[id]? = some node →
      ∃ old, tree.nodes[id]? = some old ∧ old.place = node.place := by
    intro id node hsome
    rw [hnode] at hsome
    split at hsome
    · rename_i heq
      subst heq
      cases hsome
      exact ⟨marked, hmarked, rfl⟩
    · exact ⟨node, hsome, rfl⟩
  have hforth : ∀ (id : ZoneId) (node : Node), tree.nodes[id]? = some node →
      ∃ new, next.nodes[id]? = some new ∧ new.place = node.place := by
    intro id node hsome
    rw [hnode]
    split
    · rename_i heq
      subst heq
      rw [hmarked] at hsome
      cases hsome
      exact ⟨_, rfl, rfl⟩
    · exact ⟨node, hsome, rfl⟩
  have hthere : ∀ zone, tree.hasZone zone = true → next.hasZone zone = true := fun zone hzone =>
    hasZone_of_nodes hzone fun node hsome => (hforth zone node hsome).imp fun _ => And.left
  refine ⟨?index, ?_, ?_, ?_, ?_, ?_, ?_⟩
  case index =>
    intro place id
    rw [hmarks.index, h.index_iff]
    constructor
    · rintro ⟨node, hsome, rfl⟩
      exact hforth id node hsome
    · rintro ⟨node, hsome, rfl⟩
      exact hback id node hsome
  · intro id node hsome
    rcases hback id node hsome with ⟨old, hold, hplace⟩
    rw [show node.parent = old.parent from congrArg Prod.fst hplace.symm]
    exact hthere _ (h.hasParent id old hold)
  · intro id node hsome
    rcases hback id node hsome with ⟨old, hold, hplace⟩
    rw [show node.parent = old.parent from congrArg Prod.fst hplace.symm]
    exact h.parent_lt id old hold
  · intro id node hsome
    rcases hback id node hsome with ⟨old, hold, -⟩
    exact h.id_pos id old hold
  · intro id node hsome
    rcases hback id node hsome with ⟨old, hold, -⟩
    rw [hmarks.nextZone]
    exact h.id_lt id old hold
  · rw [hmarks.nextZone]
    exact h.nextZone_pos
  · rw [hmarks.records]
    exact fun zone hzone => hthere zone (h.hasZone_of_records zone hzone)

theorem removes (h : tree.Sound) (hremoves : tree.Removes zone next) : next.Sound := by
  rcases hremoves.index with ⟨gone, hgone, hindex⟩
  have hback : ∀ (id : ZoneId) (node : Node), next.nodes[id]? = some node →
      zone ≠ id ∧ tree.nodes[id]? = some node := by
    intro id node hsome
    rw [hremoves.node] at hsome
    split at hsome
    · cases hsome
    · rename_i hne
      exact ⟨hne, hsome⟩
  have hthere : ∀ other, other ≠ zone → tree.hasZone other = true → next.hasZone other = true :=
    fun other hne hother => hasZone_of_nodes hother fun node hsome =>
      ⟨node, by rw [hremoves.node, if_neg hne.symm, hsome]⟩
  refine ⟨?index, ?_, ?_, ?_, ?_, ?_, ?_⟩
  case index =>
    intro place id
    rw [hindex]
    by_cases hplace : gone.place = place
    · subst hplace
      rw [if_pos rfl]
      refine iff_of_false (Option.some_ne_none id ∘ Eq.symm) ?_
      rintro ⟨node, hsome, hsame⟩
      rcases hback id node hsome with ⟨hne, hold⟩
      -- The index knew one node at that place, the one that is gone.
      have hzone := (h.index_iff _ zone).2 ⟨gone, hgone, rfl⟩
      have hid := (h.index_iff _ id).2 ⟨node, hold, hsame⟩
      rw [hzone] at hid
      exact hne (Option.some.inj hid)
    · rw [if_neg hplace, h.index_iff]
      constructor
      · rintro ⟨node, hsome, rfl⟩
        refine ⟨node, ?_, rfl⟩
        rw [hremoves.node, if_neg, hsome]
        rintro rfl
        rw [hgone] at hsome
        cases hsome
        exact hplace rfl
      · rintro ⟨node, hsome, rfl⟩
        exact ⟨node, (hback id node hsome).2, rfl⟩
  · intro id node hsome
    rcases hback id node hsome with ⟨-, hold⟩
    exact hthere _ (hremoves.childless id node hold) (h.hasParent id node hold)
  · exact fun id node hsome => h.parent_lt id node (hback id node hsome).2
  · exact fun id node hsome => h.id_pos id node (hback id node hsome).2
  · rw [hremoves.nextZone]
    exact fun id node hsome => h.id_lt id node (hback id node hsome).2
  · rw [hremoves.nextZone]
    exact h.nextZone_pos
  · intro other hother
    rcases (hremoves.mem_records other).1 hother with ⟨hne, hold⟩
    exact hthere other (Ne.symm hne) (h.hasZone_of_records other hold)

/-- Whatever a call does to a sound tree, the tree is sound after it. -/
theorem steps (h : tree.Sound) {call : Call} {outcome : Except Fault Answer}
    (hsteps : tree.Steps call outcome next) : next.Sound := by
  cases hsteps with
  | reads | fails => exact h
  | adds hadds => exact h.adds hadds
  | records _ hrecords => exact h.records hrecords
  | marks hmarks => exact h.marks hmarks
  | clears _ hclears => exact h.clears hclears
  | removes hremoves => exact h.removes hremoves

end Sound

/-- Trees that come about from an empty one are sound. -/
theorem sound_of_history {startedAt : Timestamp} {events : List Event}
    (h : History (empty startedAt) events tree) : tree.Sound := by
  induction h with
  | start => exact sound_empty startedAt
  | call call _ ih => exact ih.steps (steps _ call)

/-! ## Ways up -/

theorem Climb.node_of_mem (h : tree.Climb zone path) :
    ∀ step ∈ path, tree.nodes[step.1]? = some step.2 := by
  induction h with
  | root => simp
  | node _ hnode _ ih =>
      intro step hmem
      rcases List.mem_cons.1 hmem with rfl | hmem
      · exact hnode
      · exact ih step hmem

namespace Sound

/-- On the way up numbers fall. -/
theorem falls (h : tree.Sound) (hclimb : tree.Climb zone path) :
    (∀ step ∈ path, step.1 ≤ zone) ∧ (path.map Prod.fst).Pairwise (· > ·) := by
  induction hclimb with
  | root => simp
  | @node zone node rest _ hnode _ ih =>
      rcases ih with ⟨hle, hfalls⟩
      have hlt : ∀ step ∈ rest, step.1 < zone := fun step hmem =>
        Int.lt_of_le_of_lt (hle step hmem) (h.parent_lt zone node hnode)
      constructor
      · intro step hmem
        rcases List.mem_cons.1 hmem with rfl | hmem
        · exact Int.le_refl _
        · exact Int.le_of_lt (hlt step hmem)
      · refine List.Pairwise.cons ?_ hfalls
        intro id hid
        rcases List.mem_map.1 hid with ⟨step, hmem, rfl⟩
        exact hlt step hmem

/-- A way up visits no node twice. -/
theorem length_le (h : tree.Sound) (hclimb : tree.Climb zone path) :
    path.length ≤ tree.nodes.size := by
  have hnodup : (path.map Prod.fst).Nodup :=
    (h.falls hclimb).2.imp fun hlt => (Int.ne_of_lt hlt).symm
  have hsub : path.map Prod.fst ⊆ tree.nodes.keys := by
    intro id hid
    rcases List.mem_map.1 hid with ⟨step, hmem, rfl⟩
    rw [Std.TreeMap.mem_keys, Std.TreeMap.mem_iff_isSome_getElem?, hclimb.node_of_mem step hmem]
    rfl
  calc
    path.length = (path.map Prod.fst).length := (List.length_map _).symm
    _ ≤ tree.nodes.keys.length := (List.Nodup.subperm hnodup hsub).length_le
    _ = tree.nodes.size := Std.TreeMap.length_keys

/-- From every zone there is a way up. -/
theorem exists_climb (h : tree.Sound) (hzone : tree.hasZone zone = true) :
    ∃ path, tree.Climb zone path := by
  -- By strong induction on the number of the zone, since parents have smaller ones.
  generalize hn : zone.toNat = n
  induction n using Nat.strongRecOn generalizing zone with
  | ind n ih =>
      rcases hasZone_iff.1 hzone with rfl | ⟨node, hnode⟩
      · exact ⟨[], Climb.root⟩
      · have hpos := h.id_pos zone node hnode
        have hlt : node.parent.toNat < n := by
          rw [← hn]
          exact (Int.toNat_lt_toNat hpos).2 (h.parent_lt zone node hnode)
        rcases ih _ hlt (h.hasParent zone node hnode) rfl with ⟨path, hclimb⟩
        exact ⟨(zone, node) :: path, Climb.node (Int.ne_of_gt hpos) hnode hclimb⟩

theorem path?_eq_some_iff (h : tree.Sound) :
    tree.path? tree.nodes.size zone = some path ↔ tree.Climb zone path :=
  Tree.path?_eq_some_iff.trans (and_iff_left_of_imp h.length_le)

/-- Looking for a way up ends within as many steps as there are nodes. -/
theorem path?_of_le (h : tree.Sound) {steps : Nat} (hsteps : tree.nodes.size ≤ steps) :
    tree.path? steps zone = tree.path? tree.nodes.size zone := by
  apply Option.ext
  intro path
  rw [h.path?_eq_some_iff, Tree.path?_eq_some_iff]
  exact and_iff_left_of_imp fun hclimb => Nat.le_trans (h.length_le hclimb) hsteps

end Sound

/-! ## Numbers -/

/-- The number of the node that an event creates. -/
def created? (event : Event) : Option ZoneId :=
  match event.call, event.outcome with
  | .addNode _ _ _, .ok (.zone id) => some id
  | _, _ => none

/-- An event creates the node with the next number, or none and leaves the next number. -/
theorem created?_of_steps {call : Call} {outcome : Except Fault Answer}
    (h : tree.Steps call outcome next) :
    (created? ⟨call, outcome⟩ = some tree.nextZone ∧ next.nextZone = tree.nextZone + 1) ∨
      (created? ⟨call, outcome⟩ = none ∧ next.nextZone = tree.nextZone) := by
  cases h with
  | reads outcome hread =>
      right
      cases call <;> first | exact ⟨rfl, rfl⟩ | cases hread
  | fails call fault =>
      right
      cases call <;> exact ⟨rfl, rfl⟩
  | adds hadds =>
      left
      rw [hadds.nextZone, hadds.id_eq]
      exact ⟨rfl, rfl⟩
  | records _ hrecords => exact Or.inr ⟨rfl, hrecords.nextZone⟩
  | marks hmarks => exact Or.inr ⟨rfl, hmarks.nextZone⟩
  | clears _ hclears => exact Or.inr ⟨rfl, hclears.nextZone⟩
  | removes hremoves => exact Or.inr ⟨rfl, hremoves.nextZone⟩

/-- The numbers that were given rise from positive ones to the next. -/
theorem created_of_history {startedAt : Timestamp} {events : List Event}
    (h : History (empty startedAt) events tree) :
    (events.filterMap created?).Pairwise (fun later earlier => earlier < later) ∧
      ∀ id ∈ events.filterMap created?, rootZone < id ∧ id < tree.nextZone := by
  induction h with
  | start => exact ⟨List.Pairwise.nil, by simp⟩
  | @call events tree call hbefore ih =>
      rcases ih with ⟨hrise, hbounds⟩
      rcases created?_of_steps (tree.steps call) with ⟨hcreated, hnext⟩ | ⟨hcreated, hnext⟩
      · rw [List.filterMap_cons_some hcreated, hnext]
        refine ⟨List.Pairwise.cons (fun id hid => (hbounds id hid).2) hrise, ?_⟩
        intro id hid
        rcases List.mem_cons.1 hid with rfl | hid
        · exact ⟨(sound_of_history hbefore).nextZone_pos, Int.lt_succ _⟩
        · exact ⟨(hbounds id hid).1, Int.lt_trans (hbounds id hid).2 (Int.lt_succ _)⟩
      · rw [List.filterMap_cons_none hcreated, hnext]
        exact ⟨hrise, hbounds⟩

end Tree
end Zone
end NameServer
