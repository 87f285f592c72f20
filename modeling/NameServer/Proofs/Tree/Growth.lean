import NameServer.Proofs.Tree.Administration
import NameServer.Proofs.Tree.Sites

/-!
# Proofs.Tree.Growth — what adding to a tree makes of it

In a sound tree names and records can always be added, but for a wildcard of the root. Names that
are added plant their sites, which moves no zone that is there.

* `Tree.AddsBelow` — nodes that are added one below the other;
* `Tree.AddsName` and `Tree.Sound.addName_succeeds` — a name that is added is settled, and nothing but
  its site is planted;
* `Tree.Stores` and `Tree.Sound.addAt_stores` — a payload that is added is stored behind those at
  the zone of its name, and what it refers to is settled.
-/

namespace NameServer
namespace Zone

/-! ## Changes that succeed -/

namespace Change

variable {σ α β : Type}

theorem perform_bind_ok {change : Change σ α} {f : α → Change σ β} {store next : σ} {a : α}
    (h : change.perform store = (.ok a, next)) :
    (change >>= f).perform store = (f a).perform next := by
  rw [perform_bind, h]

theorem perform_ask_ok {f : σ → Except Fault α} {store : σ} {a : α} (h : f store = .ok a) :
    (ask f).perform store = (.ok a, store) := by
  change (f store, store) = _
  rw [h]

end Change

namespace Tree

variable {tree mid next : Tree} {zone parent id : ZoneId} {path : List (ZoneId × Node)}
variable {name resolved added : Name} {label : Label} {labels more : List Label}
variable {nodes : List ZoneNode}
variable {wildcard : Bool} {site front : Site} {rdata stored : Rdata Name}

/-! ## Calls that succeed -/

theorem exists_addNode (hparent : tree.hasZone parent = true)
    (hfree : tree.child? parent label = none) (wildcard : Bool) :
    ∃ id next, tree.addNode parent label wildcard = .ok (id, next) ∧
      tree.Adds parent label wildcard id next := by
  have hadd : ∃ result, tree.addNode parent label wildcard = .ok result := by
    unfold addNode
    rw [hparent, hfree]
    exact ⟨_, rfl⟩
  rcases hadd with ⟨⟨id, next⟩, hadd⟩
  exact ⟨id, next, hadd, adds_of_addNode hadd⟩

theorem exists_setWildcard {node : Node} (hnode : tree.nodes[zone]? = some node)
    (wildcard : Bool) :
    ∃ next, tree.setWildcard zone wildcard = .ok ((), next) ∧ tree.Marks zone wildcard next := by
  have hset : ∃ result, tree.setWildcard zone wildcard = .ok result := by
    unfold setWildcard
    rw [hnode]
    exact ⟨_, rfl⟩
  rcases hset with ⟨⟨_, next⟩, hset⟩
  exact ⟨next, hset, marks_of_setWildcard hset⟩

theorem exists_addRecord (hzone : tree.hasZone zone = true)
    (hresolved : ∀ target ∈ stored.references, target.isFullyResolved = true) :
    ∃ number next, tree.addRecord zone stored = .ok (number, next) ∧
      tree.Records zone stored next := by
  have hadd : ∃ result, tree.addRecord zone stored = .ok result := by
    unfold addRecord
    rw [hzone, List.all_eq_true.2 hresolved]
    exact ⟨_, rfl⟩
  rcases hadd with ⟨⟨number, next⟩, hadd⟩
  exact ⟨number, next, hadd, records_of_addRecord hadd⟩

/-! ## Nodes one below the other -/

/-- `next` is the tree with nodes one below the other; the last of them may have the mark. -/
inductive AddsBelow (wildcard : Bool) :
    Tree → ZoneId → List Label → List ZoneNode → Tree → Prop
  | nil (tree : Tree) (parent : ZoneId) : AddsBelow wildcard tree parent [] [] tree
  | cons {tree mid next : Tree} {parent id : ZoneId} {label : Label} {labels : List Label}
      {nodes : List ZoneNode} :
      tree.Adds parent label (wildcard && labels.isEmpty) id mid →
        AddsBelow wildcard mid id labels nodes next →
          AddsBelow wildcard tree parent (label :: labels)
            (⟨id, wildcard && labels.isEmpty⟩ :: nodes) next

/-- A node that was just added has no children. -/
theorem Sound.childless_of_adds (h : tree.Sound) (hadds : tree.Adds parent label wildcard id next)
    (other : Label) : next.child? id other = none := by
  have hnew := h.hasZone_of_adds hadds
  have hold : tree.index[(id, other.folded)]? = none := by
    cases hindex : tree.index[(id, other.folded)]? with
    | none => rfl
    | some child =>
        rcases (h.index_iff _ child).1 hindex with ⟨node, hnode, hplace⟩
        have hzone := h.hasParent child node hnode
        rw [show node.parent = id from congrArg Prod.fst hplace, hnew] at hzone
        cases hzone
  unfold child?
  rw [hadds.index, if_neg, hold]
  intro hplace
  have hparent := hadds.hasParent
  rw [show parent = id from congrArg Prod.fst hplace, hnew] at hparent
  cases hparent

theorem Sound.addBelow_adds (h : tree.Sound) (hparent : tree.hasZone parent = true)
    (hfree : ∀ label ∈ labels.head?, tree.child? parent label = none) (wildcard : Bool) :
    ∃ nodes next, (Admin.addBelow parent wildcard labels).perform tree = (.ok nodes, next) ∧
      AddsBelow wildcard tree parent labels nodes next := by
  induction labels generalizing tree parent with
  | nil => exact ⟨[], tree, rfl, .nil tree parent⟩
  | cons label labels ih =>
      rcases exists_addNode hparent (hfree label rfl) (wildcard && labels.isEmpty) with
        ⟨id, mid, hadd, hadds⟩
      have hfirst : (Store.addNode parent label (wildcard && labels.isEmpty) :
          Change Tree ZoneId).perform tree = (.ok id, mid) := Change.perform_step_ok hadd
      have hid : mid.hasZone id = true :=
        hasZone_iff.2 (Or.inr ⟨⟨label, parent, _⟩, by rw [hadds.node, if_pos rfl]⟩)
      rcases ih (h.adds hadds) hid (fun other _ => h.childless_of_adds hadds other) with
        ⟨nodes, next, hbelow, haddsBelow⟩
      refine ⟨_, next, ?_, .cons hadds haddsBelow⟩
      unfold Admin.addBelow
      rw [Change.perform_bind_ok hfirst, Change.perform_bind_ok hbelow]
      rfl

namespace AddsBelow

theorem records (h : AddsBelow wildcard tree parent labels nodes next) :
    next.records = tree.records := by
  induction h with
  | nil => rfl
  | cons hadds _ ih => rw [ih, hadds.records]

/-- The new nodes are on the way up from the last of them. -/
theorem climb (h : AddsBelow wildcard tree parent labels nodes next) (hsound : tree.Sound)
    (hclimb : tree.Climb parent path) :
    ∃ front, next.Climb (Name.lastId parent nodes) (front ++ path) ∧
      labelsOfPath front = labels.reverse ∧ (nodesOfPath front).reverse = nodes := by
  induction h generalizing path with
  | nil => exact ⟨[], hclimb, rfl, rfl⟩
  | @cons tree mid next parent id label labels nodes hadds _ ih =>
      have hmid := hsound.adds hadds
      have hnode : mid.nodes[id]? = some ⟨label, parent, wildcard && labels.isEmpty⟩ := by
        rw [hadds.node, if_pos rfl]
      have hstep : mid.Climb id ((id, ⟨label, parent, wildcard && labels.isEmpty⟩) :: path) :=
        .node (Int.ne_of_gt (hmid.id_pos id _ hnode)) hnode
          (hclimb.keeps (hsound.keeps_of_adds hadds))
      rcases ih hmid hstep with ⟨front, hfront, hlabels, hnodes⟩
      refine ⟨front ++ [(id, ⟨label, parent, wildcard && labels.isEmpty⟩)], ?_, ?_, ?_⟩
      · rw [Name.lastId_cons, List.append_assoc]
        exact hfront
      · rw [List.reverse_cons, ← hlabels]
        simp [labelsOfPath]
      · rw [← hnodes]
        simp [nodesOfPath]

/-- They plant the site of the last of them. -/
theorem plants (h : AddsBelow wildcard tree parent labels nodes next) (hsound : tree.Sound)
    (hat : tree.At parent site) (hne : labels ≠ []) :
    tree.Plants [((labels.map Label.folded).reverse ++ site, wildcard)] next := by
  induction h generalizing site with
  | nil => exact absurd rfl hne
  | @cons tree mid next parent id label labels nodes hadds hbelow ih =>
      have hfirst := hsound.plants_of_adds hadds hat
      cases labels with
      | nil =>
          cases hbelow
          simpa using hfirst
      | cons other labels =>
          -- The site of the first node ends that of the last.
          have hrest := ih (hsound.adds hadds) (hsound.at_new hadds hat) (List.cons_ne_nil _ _)
          rw [List.isEmpty_cons, Bool.and_false] at hfirst
          have hboth := (hfirst.trans hsound hrest).absorb
            ⟨_, List.mem_singleton_self _, List.suffix_append _ _⟩
          simpa using hboth

end AddsBelow

/-! ## Names -/

/-- The nodes on a way up fit a name of as many labels. -/
theorem Sound.nodesFit (h : tree.Sound) (hclimb : tree.Climb zone path) :
    Name.NodesFit path.length (nodesOfPath path).reverse := by
  refine ⟨by simp [nodesOfPath], ?_, ?_⟩
  · intro node hnode
    rw [List.mem_reverse, nodesOfPath, List.mem_map] at hnode
    rcases hnode with ⟨step, hstep, rfl⟩
    exact h.id_pos _ _ (hclimb.node_of_mem step hstep)
  · rw [List.map_reverse, List.nodup_reverse, nodesOfPath, List.map_map]
    exact (h.falls hclimb).2.imp fun hlt => (Int.ne_of_lt hlt).symm

/-- A name that gets the nodes on the way up from its zone is settled. -/
theorem Sound.attach_settled (h : tree.Sound) (hclimb : tree.Climb zone path)
    (hfolded : (labelsOfPath path).map Label.folded = name.folded) :
    ∃ added, (Admin.attach name (nodesOfPath path).reverse).perform tree = (.ok added, tree) ∧
      added.labels = name.labels ∧ tree.Settled added := by
  have hlength : path.length = name.labels.length := by
    simpa [labelsOfPath, Name.folded] using congrArg List.length hfolded
  rcases Name.resolve_total (hlength ▸ h.nodesFit hclimb) with ⟨added, hadded⟩
  rcases Name.labels_of_resolve hadded with ⟨hlabels, hform⟩
  refine ⟨added, ?_, hlabels, settled_of_climb hclimb ?_ hform⟩
  · exact Change.perform_ask_ok (by rw [hadded]; rfl)
  · unfold Name.folded at hfolded ⊢
    rw [hfolded, hlabels]

/-- Marking the last of the nodes on the way up from a zone marks the zone. -/
theorem markLast_reverse (node : ZoneNode) (nodes : List ZoneNode) :
    Admin.markLast (node :: nodes).reverse = ({ node with wildcard := true } :: nodes).reverse := by
  rw [List.reverse_cons, List.reverse_cons]
  generalize nodes.reverse = front
  induction front with
  | nil => rfl
  | cons first front ih =>
      rw [List.cons_append, Admin.markLast, ih, List.cons_append]
      simp

/-- Where a walk stops, the next label leads nowhere. -/
theorem child?_of_length_walk
    (h : (tree.walk zone (labels ++ label :: more)).length = labels.length) :
    tree.child? (Name.lastId zone (tree.walk zone (labels ++ label :: more))) label = none := by
  induction labels generalizing zone with
  | nil =>
      rw [List.nil_append] at h ⊢
      cases hchild : tree.child? zone label with
      | none =>
          rw [walk_of_childless hchild]
          exact hchild
      | some id =>
          rw [walk_of_child? hchild] at h
          cases h
  | cons first labels ih =>
      rw [List.cons_append] at h ⊢
      cases hchild : tree.child? zone first with
      | none =>
          rw [walk_of_childless hchild] at h
          cases h
      | some id =>
          rw [walk_of_child? hchild] at h ⊢
          rw [Name.lastId_cons]
          exact ih (Nat.succ.inj h)

namespace Sound

/-- Below the deepest node of a name there is none for the next label. -/
theorem child?_of_missing (h : tree.Sound) (hresolve : tree.resolve name = .ok resolved)
    (hmissing : label ∈
      (name.labels.take (name.labels.length - resolved.resolvedCount)).reverse.head?) :
    tree.child? resolved.zoneId label = none := by
  have hnodes := h.nodes_of_resolve hresolve
  have hcount : resolved.resolvedCount ≤ name.labels.length :=
    (h.resolve_eq_ok_iff.1 hresolve).1 ▸ resolved.nodes_fit.1
  rcases List.head?_eq_some_iff.1 hmissing with ⟨more, hmore⟩
  have hsplit : name.labels.reverse =
      (name.labels.drop (name.labels.length - resolved.resolvedCount)).reverse ++ label :: more := by
    rw [← hmore, ← List.reverse_append, List.take_append_drop]
  rw [Name.zoneId_eq_lastId, hnodes, hsplit]
  refine child?_of_length_walk ?_
  rw [← hsplit, ← hnodes, List.length_reverse, List.length_drop, Nat.sub_sub_self hcount]
  rfl

/-- A mark on a zone is one on the last node of the way to it. -/
theorem climb_of_marks (h : tree.Sound) (hmarks : tree.Marks zone true next)
    (hclimb : tree.Climb zone path) :
    ∃ path', next.Climb zone path' ∧ labelsOfPath path' = labelsOfPath path ∧
      (nodesOfPath path').reverse = Admin.markLast (nodesOfPath path).reverse := by
  rcases hmarks.node with ⟨marked, hmarked, hnode⟩
  have hfalls := (h.falls hclimb).2
  cases hclimb with
  | root => exact absurd (h.id_pos _ _ hmarked) (Int.lt_irrefl _)
  | @node _ node rest hne hzone hrest =>
      rw [hmarked] at hzone
      cases hzone
      rw [List.map_cons, List.pairwise_cons] at hfalls
      have hstays : next.Climb marked.parent rest := hrest.of_mem fun step hstep => by
        have hlt : zone > step.1 := hfalls.1 _ (List.mem_map_of_mem hstep)
        rw [hnode, if_neg (Int.ne_of_gt hlt)]
        exact hrest.node_of_mem step hstep
      refine ⟨(zone, { marked with wildcard := true }) :: rest, ?_, rfl, ?_⟩
      · exact Climb.node hne (by rw [hnode, if_pos rfl]) hstays
      · exact (markLast_reverse ⟨zone, marked.wildcard⟩ (nodesOfPath rest)).symm

theorem addName_root (h : tree.Sound) (hroot : name.isRoot = true) :
    ∃ added, (Admin.addName name false).perform tree = (.ok added, tree) ∧
      added.labels = name.labels ∧ tree.Settled added := by
  have hlabels : name.labels = [] := List.isEmpty_iff.1 hroot
  unfold Admin.addName
  rw [if_pos hroot]
  refine h.attach_settled Climb.root ?_
  unfold Name.folded
  rw [hlabels]
  rfl

end Sound

/-- What becomes of a tree and of the name that is added to it. -/
structure AddsName (tree : Tree) (name : Name) (wildcard : Bool) (added : Name) (next : Tree) :
    Prop where
  labels : added.labels = name.labels
  settled : next.Settled added
  plants : tree.Plants [(name.folded, wildcard)] next
  records : next.records = tree.records

theorem AddsName.folded (h : tree.AddsName name wildcard added next) :
    added.folded = name.folded := by
  unfold Name.folded
  rw [h.labels]

theorem perform_addName_there (hroot : name.isRoot = false)
    (hresolve : tree.resolve name = .ok resolved)
    (hmissing : name.labels.take (name.labels.length - resolved.resolvedCount) = []) :
    (Admin.addName name wildcard).perform tree =
      if wildcard && !resolved.isStar then
        (Store.setWildcard resolved.zoneId true >>= fun _ =>
          Admin.attach name (Admin.markLast resolved.nodes) : Change Tree Name).perform tree
      else (.ok resolved, tree) := by
  have hask : (Change.ask fun store => Store.resolve store name : Change Tree Name).perform tree =
      (.ok resolved, tree) := Change.perform_ask_ok hresolve
  unfold Admin.addName
  rw [if_neg (by rw [hroot]; decide), Change.perform_bind_ok hask]
  dsimp only
  rw [hmissing, if_pos List.isEmpty_nil]
  split <;> rfl

theorem perform_addName_grows (hroot : name.isRoot = false)
    (hresolve : tree.resolve name = .ok resolved)
    (hmissing : name.labels.take (name.labels.length - resolved.resolvedCount) ≠ []) :
    (Admin.addName name wildcard).perform tree =
      (Admin.addBelow resolved.zoneId wildcard
          (name.labels.take (name.labels.length - resolved.resolvedCount)).reverse >>= fun nodes =>
        Admin.attach name (resolved.nodes ++ nodes) : Change Tree Name).perform tree := by
  have hask : (Change.ask fun store => Store.resolve store name : Change Tree Name).perform tree =
      (.ok resolved, tree) := Change.perform_ask_ok hresolve
  unfold Admin.addName
  rw [if_neg (by rw [hroot]; decide), Change.perform_bind_ok hask]
  dsimp only
  rw [if_neg (mt List.isEmpty_iff.1 hmissing)]

namespace Sound

theorem isWildcard_root (h : tree.Sound) : tree.isWildcard rootZone = false := by
  cases hnode : tree.nodes[rootZone]? with
  | none =>
      unfold isWildcard
      rw [hnode]
  | some node => exact absurd (h.id_pos rootZone node hnode) (Int.lt_irrefl _)

/-- A name is a wildcard's exactly when its deepest node is a wildcard. -/
theorem isStar_eq (h : tree.Sound) (hresolve : tree.resolve name = .ok resolved) :
    resolved.isStar = tree.isWildcard resolved.zoneId := by
  unfold Name.isStar Name.zoneId
  cases hlast : resolved.nodes.getLast? with
  | none => exact h.isWildcard_root.symm
  | some node =>
      have hmem := List.mem_of_getLast? hlast
      rw [h.nodes_of_resolve hresolve] at hmem
      exact tree.wildcard_of_mem_walk hmem

/-- A name whose zone is there gets the mark, if it is to have it and does not. -/
theorem addName_there (h : tree.Sound) (hroot : name.isRoot = false)
    (hresolve : tree.resolve name = .ok resolved)
    (hmissing : name.labels.take (name.labels.length - resolved.resolvedCount) = []) :
    ∃ added next, (Admin.addName name wildcard).perform tree = (.ok added, next) ∧
      tree.AddsName name wildcard added next := by
  rcases h.climb_of_resolve hresolve with ⟨path, hclimb, hnodes, hfolded⟩
  rcases h.resolve_eq_ok_iff.1 hresolve with ⟨hlabels, hform⟩
  have hall : name.labels.drop (name.labels.length - resolved.resolvedCount) = name.labels := by
    have happend := List.take_append_drop (name.labels.length - resolved.resolvedCount) name.labels
    rwa [hmissing, List.nil_append] at happend
  rw [hall] at hfolded
  have hat : tree.At resolved.zoneId name.folded := ⟨path, hclimb, hfolded⟩
  rw [perform_addName_there hroot hresolve hmissing]
  by_cases hmark : (wildcard && !resolved.isStar) = true
  · rw [if_pos hmark, (Bool.and_eq_true_iff.1 hmark).1]
    have hnode : ∃ node, tree.nodes[resolved.zoneId]? = some node := by
      refine (hasZone_iff.1 hat.hasZone).resolve_left fun hzone => ?_
      rw [hzone, climb_root_iff] at hclimb
      rw [hclimb] at hfolded
      rw [Name.isRoot, List.map_eq_nil_iff.1 hfolded.symm] at hroot
      cases hroot
    rcases hnode with ⟨node, hnode⟩
    rcases exists_setWildcard hnode true with ⟨next, hset, hmarks⟩
    have hfirst : (Store.setWildcard resolved.zoneId true : Change Tree Unit).perform tree =
        (.ok (), next) := Change.perform_step_ok hset
    rcases h.climb_of_marks hmarks hclimb with ⟨path', hclimb', hlabels', hnodes'⟩
    have hfolded' : (labelsOfPath path').map Label.folded = name.folded := by
      rw [hlabels']
      exact hfolded
    rcases (h.marks hmarks).attach_settled hclimb' hfolded' with ⟨added, hattach, hadded, hsettled⟩
    rw [hnodes', hnodes] at hattach
    refine ⟨added, next, ?_, hadded, hsettled, h.plants_of_marks hmarks hat, hmarks.records⟩
    rw [Change.perform_bind_ok hfirst, hattach]
  · rw [if_neg hmark]
    refine ⟨resolved, tree, rfl, hlabels, ⟨path, hclimb, ?_, ?_⟩, h.plants_of_at hat ?_, rfl⟩
    · rw [hfolded, Name.folded, hlabels]
    · rw [hform, hnodes, h.nodes_of_resolve hresolve]
    · intro hwildcard
      rw [← h.isStar_eq hresolve]
      simpa [hwildcard] using hmark

/-- A name that lacks nodes gets them. -/
theorem addName_grows (h : tree.Sound) (hroot : name.isRoot = false)
    (hresolve : tree.resolve name = .ok resolved)
    (hmissing : name.labels.take (name.labels.length - resolved.resolvedCount) ≠ []) :
    ∃ added next, (Admin.addName name wildcard).perform tree = (.ok added, next) ∧
      tree.AddsName name wildcard added next := by
  rcases h.climb_of_resolve hresolve with ⟨path, hclimb, hnodes, hfolded⟩
  have hfree : ∀ label ∈ (name.labels.take
      (name.labels.length - resolved.resolvedCount)).reverse.head?,
      tree.child? resolved.zoneId label = none := fun label => h.child?_of_missing hresolve
  have hsplit := List.take_append_drop (name.labels.length - resolved.resolvedCount) name.labels
  rw [perform_addName_grows hroot hresolve hmissing]
  generalize name.labels.take (name.labels.length - resolved.resolvedCount) = missing at *
  generalize name.labels.drop (name.labels.length - resolved.resolvedCount) = there at *
  have hat : tree.At resolved.zoneId (there.map Label.folded) := ⟨path, hclimb, hfolded⟩
  rcases h.addBelow_adds hat.hasZone hfree wildcard with ⟨nodes, next, hbelow, hadds⟩
  have hplants := hadds.plants h hat (mt List.reverse_eq_nil_iff.1 hmissing)
  rcases hadds.climb h hclimb with ⟨front, hfront, hfrontLabels, hfrontNodes⟩
  have hname : name.folded = missing.map Label.folded ++ there.map Label.folded := by
    rw [Name.folded, ← hsplit, List.map_append]
  have hlabels : (labelsOfPath (front ++ path)).map Label.folded = name.folded := by
    rw [labelsOfPath, List.map_append, List.map_append]
    change (labelsOfPath front).map _ ++ (labelsOfPath path).map _ = _
    rw [hfrontLabels, List.reverse_reverse, hfolded, hname]
  have hall : (nodesOfPath (front ++ path)).reverse = resolved.nodes ++ nodes := by
    rw [nodesOfPath, List.map_append, List.reverse_append]
    exact congr (congrArg _ hnodes) hfrontNodes
  rcases hplants.sound.attach_settled hfront hlabels with ⟨added, hattach, hadded, hsettled⟩
  rw [hall] at hattach
  refine ⟨added, next, ?_, hadded, hsettled, ?_, hadds.records⟩
  · rw [Change.perform_bind_ok hbelow, hattach]
  · rw [List.map_reverse, List.reverse_reverse, ← hname] at hplants
    exact hplants

/-- A name can be added unless it is to make a wildcard of the root. -/
theorem addName_succeeds (h : tree.Sound) (hroot : name.isRoot = true → wildcard = false) :
    ∃ added next, (Admin.addName name wildcard).perform tree = (.ok added, next) ∧
      tree.AddsName name wildcard added next := by
  by_cases hname : name.isRoot = true
  · rw [hroot hname]
    rcases h.addName_root hname with ⟨added, hadd, hlabels, hsettled⟩
    have hat : tree.At rootZone name.folded := by
      rw [Name.folded, List.isEmpty_iff.1 hname]
      exact tree.at_root
    have hplants : tree.Plants [(name.folded, false)] tree :=
      h.plants_of_at hat fun hstar => absurd hstar Bool.false_ne_true
    exact ⟨added, tree, hadd, hlabels, hsettled, hplants, rfl⟩
  · have hname := Bool.eq_false_iff.2 hname
    rcases h.resolve_total name with ⟨resolved, hresolve⟩
    by_cases hmissing : name.labels.take (name.labels.length - resolved.resolvedCount) = []
    · exact h.addName_there hname hresolve hmissing
    · exact h.addName_grows hname hresolve hmissing

/-- Only the root is refused, and before anything is done. -/
theorem addName_cases (h : tree.Sound) (name : Name) (wildcard : Bool) :
    (∃ added next, (Admin.addName name wildcard).perform tree = (.ok added, next) ∧
      tree.AddsName name wildcard added next) ∨
      (Admin.addName name wildcard).perform tree = (.error .wildcardRoot, tree) := by
  by_cases hroot : name.isRoot = true → wildcard = false
  · exact Or.inl (h.addName_succeeds hroot)
  · rcases Classical.not_imp.1 hroot with ⟨hname, hwildcard⟩
    unfold Admin.addName
    rw [if_pos hname, if_pos (Bool.of_not_eq_false hwildcard)]
    exact Or.inr rfl

end Sound

/-! ## Records -/

/-- What becomes of a tree and of a payload when the names that it refers to are added. -/
structure AddsTargets (tree : Tree) (rdata stored : Rdata Name) (next : Tree) : Prop where
  plain : stored.map Name.toPlain = rdata.map Name.toPlain
  settled : ∀ target ∈ stored.references, next.Settled target
  plants : tree.Plants (rdata.references.map fun target => (target.folded, false)) next
  records : next.records = tree.records

theorem AddsName.toPlain (h : tree.AddsName name wildcard added next) :
    added.toPlain = name.toPlain :=
  Name.ext h.labels rfl

namespace Sound

theorem addTargets_succeeds (h : tree.Sound) (rdata : Rdata Name) :
    ∃ stored next, (Admin.addTargets rdata).perform tree = (.ok stored, next) ∧
      tree.AddsTargets rdata stored next := by
  have hadd : ∀ {tree : Tree}, tree.Sound → ∀ target, ∃ added next,
      (Admin.addName target false).perform tree = (.ok added, next) ∧
        tree.AddsName target false added next := fun h _ => h.addName_succeeds fun _ => rfl
  cases rdata with
  | a ttl address | txt ttl text =>
      exact ⟨_, tree, rfl, rfl, nofun, h.plants_of_nodes rfl, rfl⟩
  | ns ttl target | cname ttl target | mx ttl preference target =>
      rcases hadd h target with ⟨added, next, hperform, hadds⟩
      refine ⟨_, next, Change.perform_bind_ok hperform, ?_,
        List.forall_mem_singleton.2 hadds.settled, hadds.plants, hadds.records⟩
      simp only [Rdata.map, hadds.toPlain]
  | soa start =>
      rcases hadd h start.mname with ⟨mname, mid, hfirst, hmname⟩
      rcases hadd hmname.plants.sound start.rname with ⟨rname, next, hsecond, hrname⟩
      have hkeeps : mid.Keeps next := hrname.plants.keeps (List.forall_mem_singleton.2 rfl)
      refine ⟨.soa { start with mname, rname }, next, ?_, ?_, ?_, ?_, ?_⟩
      · unfold Admin.addTargets Rdata.mapM
        rw [Change.perform_bind_ok hfirst, Change.perform_bind_ok hsecond]
        rfl
      · simp only [Rdata.map, hmname.toPlain, hrname.toPlain]
      · exact List.forall_mem_cons.2 ⟨hmname.settled.keeps hkeeps,
          List.forall_mem_singleton.2 hrname.settled⟩
      · exact hmname.plants.trans h hrname.plants
      · rw [hrname.records, hmname.records]

end Sound

/-- What becomes of a tree when a payload is added at a name: `owner` and `stored` are the name and
the payload with their nodes. -/
structure Stores (tree : Tree) (name : Name) (wildcard : Bool) (rdata : Rdata Name) (owner : Name)
    (stored : Rdata Name) (next : Tree) : Prop where
  labels : owner.labels = name.labels
  settled : next.Settled owner
  plain : stored.map Name.toPlain = rdata.map Name.toPlain
  references : ∀ target ∈ stored.references, next.Settled target
  plants : tree.Plants
    ((name.folded, wildcard) :: rdata.references.map fun target => (target.folded, false)) next
  recordsAt : ∀ zone, next.recordsAt zone =
    if owner.zoneId = zone then tree.recordsAt zone ++ [stored.map Name.zoneId]
    else tree.recordsAt zone

namespace Sound

/-- A payload can be added unless it is to make a wildcard of the root. -/
theorem addAt_stores (h : tree.Sound) (rdata : Rdata Name)
    (hroot : name.isRoot = true → wildcard = false) :
    ∃ owner stored next, (Admin.addAt name wildcard rdata).perform tree =
        (.ok (.of owner.toPlain stored), next) ∧
      tree.Stores name wildcard rdata owner stored next := by
  rcases h.addName_succeeds hroot with ⟨owner, first, hfirst, howner⟩
  rcases howner.plants.sound.addTargets_succeeds rdata with ⟨stored, second, hsecond, htargets⟩
  have hkeeps : first.Keeps second := htargets.plants.keeps fun plant hplant => by
    rcases List.mem_map.1 hplant with ⟨target, -, rfl⟩
    rfl
  have hsettled := howner.settled.keeps hkeeps
  rcases exists_addRecord hsettled.at.hasZone
    (fun target htarget => (htargets.settled target htarget).isFullyResolved) with
    ⟨number, next, hadd, hrecords⟩
  have hthird : (Store.addRecord owner.zoneId stored : Change Tree Nat).perform second =
      (.ok number, next) := Change.perform_step_ok hadd
  have hplants := htargets.plants.sound.records hrecords
  have hlast : second.Keeps next := fun zone node hnode => by rw [hrecords.nodes, hnode]
  refine ⟨owner, stored, next, ?_, howner.labels, hsettled.keeps hlast, htargets.plain,
    fun target htarget => (htargets.settled target htarget).keeps hlast, ?_, fun zone => ?_⟩
  · unfold Admin.addAt
    rw [Change.perform_bind_ok hfirst, Change.perform_bind_ok hsecond,
      Change.perform_bind_ok hthird]
    rfl
  · have hall := (howner.plants.trans h htargets.plants).trans h
      (plants_of_nodes hplants hrecords.nodes)
    rw [List.append_nil] at hall
    exact hall
  · have hold : second.recordsAt zone = tree.recordsAt zone := by
      unfold Tree.recordsAt
      rw [htargets.records, howner.records]
    rw [hrecords.recordsAt]
    split
    · rename_i heq
      rw [heq, hold]
    · exact hold

/-- At a name that is no wildcard a payload can always be added. -/
theorem addRecord_stores (h : tree.Sound) (name : Name) (rdata : Rdata Name) :
    ∃ owner stored next, (Admin.addRecord name rdata).perform tree =
        (.ok (.of owner.toPlain stored), next) ∧
      tree.Stores name false rdata owner stored next :=
  h.addAt_stores rdata fun _ => rfl

end Sound

end Tree
end Zone
end NameServer
