import NameServer.Proofs.Tree.Growth

/-!
# Proofs.Tree.Additions — a name that is added brings its own nodes and no others

Adding a name to a tree creates one node for each of its labels that had none. What other names
were resolved to stays the beginning of what they are resolved to, but that the zone of the added
name may have come to be a wildcard; and adding the name once more does nothing.

* `Tree.AddsBelow.size`, `Tree.Sound.addName_size` — how many nodes are created;
* `Tree.AddsName.isWildcard_eq` — which zones are wildcards then;
* `Tree.AddsName.walk_prefix` — the way down along any labels begins as it was;
* `Tree.Sound.addName_again` — what is there is not added again;
* `Tree.Extends` and `Tree.addName_extends` — all of this in every tree that comes about by calls.
-/

namespace NameServer

/-- The node, as a wildcard if it is that of `zone` and `star` holds. -/
def ZoneNode.starAt (zone : ZoneId) (star : Bool) (node : ZoneNode) : ZoneNode :=
  { node with wildcard := node.wildcard || (star && node.id == zone) }

namespace Zone

/-! ## Changes that succeeded -/

namespace Change

variable {σ α β : Type} {store last : σ}

theorem exists_of_bind {change : Change σ α} {f : α → Change σ β} {b : β}
    (h : (change >>= f).perform store = (.ok b, last)) :
    ∃ a next, change.perform store = (.ok a, next) ∧ (f a).perform next = (.ok b, last) := by
  rw [perform_bind] at h
  cases hfirst : change.perform store with
  | mk outcome next =>
      rw [hfirst] at h
      cases outcome with
      | error fault => cases h
      | ok a => exact ⟨a, next, rfl, h⟩

theorem exists_of_step {f : σ → Except Fault (α × σ)} {a : α}
    (h : (step f).perform store = (.ok a, last)) : f store = .ok (a, last) := by
  cases hf : f store with
  | error fault =>
      rw [perform_step_error hf] at h
      cases h
  | ok result =>
      rw [perform_step_ok hf] at h
      cases h
      rfl

end Change

namespace Tree

variable {tree next : Tree} {zone parent id : ZoneId} {name before added : Name}
variable {label : Label} {labels : List Label} {nodes : List ZoneNode} {wildcard : Bool}
variable {site : Site}

/-! ## The number of nodes -/

/-- Where one node is put in, there is one more, unless there was one with its number. -/
theorem size_of_put {node : Node} (h : ∀ other : ZoneId, next.nodes[other]? =
    if id = other then some node else tree.nodes[other]?) :
    next.nodes.size = if tree.nodes.contains id then tree.nodes.size else tree.nodes.size + 1 := by
  have hsame : next.nodes.Equiv (tree.nodes.insert id node) :=
    .of_forall_constGet?_eq fun other => by
      simp only [h, Std.TreeMap.getElem?_insert, Std.LawfulEqCmp.compare_eq_iff_eq]
  rw [hsame.size_eq, Std.TreeMap.size_insert]

theorem Adds.size (h : tree.Adds parent label wildcard id next) (hsound : tree.Sound) :
    next.nodes.size = tree.nodes.size + 1 := by
  have hnew : tree.nodes.contains id = false :=
    (Bool.or_eq_false_iff.1 (hsound.hasZone_of_adds h)).2
  rw [size_of_put h.node, hnew, if_neg Bool.false_ne_true]

theorem Marks.size (h : tree.Marks zone wildcard next) : next.nodes.size = tree.nodes.size := by
  rcases h.node with ⟨node, hnode, hnext⟩
  have hthere : tree.nodes.contains zone = true := by
    rw [Std.TreeMap.contains_eq_isSome_getElem?, hnode]
    rfl
  rw [size_of_put hnext, if_pos hthere]

theorem AddsBelow.size (h : AddsBelow wildcard tree parent labels nodes next)
    (hsound : tree.Sound) : next.nodes.size = tree.nodes.size + labels.length := by
  induction h with
  | nil => rfl
  | cons hadds _ ih =>
      rw [ih (hsound.adds hadds), hadds.size hsound, List.length_cons]
      omega

/-- A node is created for each label that had none. -/
theorem Sound.addName_size (h : tree.Sound) (hroot : name.isRoot = false)
    (hresolve : tree.resolve name = .ok before)
    (hadd : (Admin.addName name wildcard).perform tree = (.ok added, next)) :
    next.nodes.size = tree.nodes.size + (name.labels.length - before.resolvedCount) := by
  by_cases hmissing : name.labels.take (name.labels.length - before.resolvedCount) = []
  · have hcount : name.labels.length - before.resolvedCount = 0 := by
      refine (List.take_eq_nil_iff.1 hmissing).resolve_right fun hnil => ?_
      rw [Name.isRoot, hnil] at hroot
      cases hroot
    rw [perform_addName_there hroot hresolve hmissing] at hadd
    rw [hcount, Nat.add_zero]
    split at hadd
    · rcases Change.exists_of_bind hadd with ⟨_, marked, hset, hattach⟩
      rw [← show marked = next from congrArg Prod.snd hattach]
      exact (marks_of_setWildcard (Change.exists_of_step hset)).size
    · cases hadd
      rfl
  · rw [perform_addName_grows hroot hresolve hmissing] at hadd
    rcases Change.exists_of_bind hadd with ⟨nodes, grown, hbelow, hattach⟩
    rcases h.climb_of_resolve hresolve with ⟨path, hclimb, -, -⟩
    have hzone : tree.hasZone before.zoneId = true := At.hasZone ⟨path, hclimb, rfl⟩
    rcases h.addBelow_adds hzone (fun label => h.child?_of_missing hresolve) wildcard with
      ⟨_, _, hbelow', hadds⟩
    cases hbelow.symm.trans hbelow'
    rw [← show grown = next from congrArg Prod.snd hattach, hadds.size h, List.length_reverse,
      List.length_take, Nat.min_eq_left (Nat.sub_le _ _)]

/-! ## Other names -/

namespace AddsName

/-- The zone of the name is a wildcard when it was one or is to be one, the others as before. -/
theorem isWildcard_eq (h : tree.AddsName name wildcard added next) (hsound : tree.Sound)
    (zone : ZoneId) :
    next.isWildcard zone = (tree.isWildcard zone || (wildcard && zone == added.zoneId)) := by
  have hadded : next.At added.zoneId name.folded := h.folded ▸ h.settled.at
  cases hzone : next.hasZone zone with
  | true =>
      rcases h.plants.sound.exists_at hzone with ⟨site, hat⟩
      have hsame : site = name.folded ↔ zone = added.zoneId := by
        constructor
        · rintro rfl
          exact h.plants.sound.at_inj hat hadded
        · rintro rfl
          exact hat.unique hadded
      rw [Bool.eq_iff_iff, h.plants.marked zone site hat]
      simp only [List.mem_singleton, Prod.mk.injEq, hsame, Bool.or_eq_true, Bool.and_eq_true,
        beq_iff_eq]
      rw [and_comm, @eq_comm Bool true]
  | false =>
      have hold : tree.hasZone zone = false :=
        Bool.eq_false_iff.2 fun hold => Bool.eq_false_iff.1 hzone (h.plants.hasZone hsound hold)
      have hne : zone ≠ added.zoneId := by
        rintro rfl
        rw [hadded.hasZone] at hzone
        cases hzone
      rw [isWildcard_of_hasZone hzone, isWildcard_of_hasZone hold]
      simp [hne]

/-- The nodes that labels led through are the first of those that they lead through now. -/
theorem walk_prefix (h : tree.AddsName name wildcard added next) (hsound : tree.Sound)
    (hat : tree.At parent site) (labels : List Label) :
    (tree.walk parent labels).map (ZoneNode.starAt added.zoneId wildcard) <+:
      next.walk parent labels := by
  induction labels generalizing parent site with
  | nil => exact List.prefix_rfl
  | cons label labels ih =>
      cases hchild : tree.child? parent label with
      | none =>
          rw [walk_of_childless hchild]
          exact List.nil_prefix
      | some id =>
          -- No zone has moved, so the child is where it was.
          have hid := (hsound.child?_eq_some_iff hat).1 hchild
          have hstays : next.child? parent label = some id :=
            (h.plants.sound.child?_eq_some_iff (h.plants.stays _ _ hat)).2 (h.plants.stays _ _ hid)
          rw [walk_of_child? hchild, walk_of_child? hstays, h.isWildcard_eq hsound]
          exact List.cons_prefix_cons.2 ⟨rfl, ih hid⟩

end AddsName

/-! ## The same name again -/

/-- A name that has all its nodes, and the mark if it is to have it, is left as it is. -/
theorem Sound.addName_again (h : tree.Sound) (hroot : name.isRoot = false)
    (hresolve : tree.resolve name = .ok added) (hfull : added.isFullyResolved = true)
    (hstar : wildcard = true → added.isStar = true) :
    (Admin.addName name wildcard).perform tree = (.ok added, tree) := by
  have hnone : name.labels.take (name.labels.length - added.resolvedCount) = [] := by
    unfold Name.isFullyResolved at hfull
    rw [beq_iff_eq.1 (Bool.and_eq_true_iff.1 hfull).2, (h.resolve_eq_ok_iff.1 hresolve).1,
      Nat.sub_self, List.take_zero]
  have hmark : (wildcard && !added.isStar) = false := by
    cases wildcard with
    | false => rfl
    | true => simp [hstar rfl]
  rw [perform_addName_there hroot hresolve hnone, hmark, if_neg Bool.false_ne_true]

/-! ## All of it -/

/-- What becomes of a tree to which a name is added; `added` is the name with its nodes. -/
structure Extends (tree : Tree) (name : Name) (wildcard : Bool) (added : Name) (next : Tree) :
    Prop where
  isFullyResolved : added.isFullyResolved = true
  labels : added.labels = name.labels
  /-- As many nodes are created as the name had labels without one. -/
  created : ∃ before, Store.resolve tree name = .ok before ∧
    next.nodes.size = tree.nodes.size + (name.labels.length - before.resolvedCount)
  /-- The name is resolved to its nodes. -/
  found : Store.resolve next name = .ok added
  /-- Its zone is a wildcard when it is to be one or was one before. -/
  isStar : added.isStar = (wildcard || Store.isWildcard tree added.zoneId)
  /-- Every name keeps the nodes that it had, but for the mark of the added name's own. -/
  others : ∀ other, ∃ old new, Store.resolve tree other = .ok old ∧
    Store.resolve next other = .ok new ∧
      old.nodes.map (ZoneNode.starAt added.zoneId wildcard) <+: new.nodes
  records : next.records = tree.records
  again : (Admin.addName name wildcard).perform next = (.ok added, next)

theorem perform_addName_root (hroot : name.isRoot = true)
    (hadd : (Admin.addName name false).perform tree = (.ok added, next)) :
    next = tree ∧ (Admin.addName name false).perform next = (.ok added, next) := by
  unfold Admin.addName at hadd ⊢
  rw [if_pos hroot] at hadd ⊢
  cases hadd
  exact ⟨rfl, rfl⟩

namespace Sound

theorem extends_of_adds (h : tree.Sound) (hroot : name.isRoot = true → wildcard = false)
    (hadd : (Admin.addName name wildcard).perform tree = (.ok added, next))
    (hadds : tree.AddsName name wildcard added next) :
    tree.Extends name wildcard added next := by
  have hnext := hadds.plants.sound
  have hfound : next.resolve name = .ok added :=
    hnext.resolve_of_settled hadds.settled hadds.labels.symm
  have hstar : added.isStar = (wildcard || tree.isWildcard added.zoneId) := by
    rw [hnext.isStar_eq hfound, hadds.isWildcard_eq h, beq_self_eq_true, Bool.and_true,
      Bool.or_comm]
  have hothers : ∀ other, ∃ old new, tree.resolve other = .ok old ∧ next.resolve other = .ok new ∧
      old.nodes.map (ZoneNode.starAt added.zoneId wildcard) <+: new.nodes := by
    intro other
    rcases h.resolve_total other with ⟨old, hold⟩
    rcases hnext.resolve_total other with ⟨new, hnew⟩
    refine ⟨old, new, hold, hnew, ?_⟩
    rw [h.nodes_of_resolve hold, hnext.nodes_of_resolve hnew]
    exact hadds.walk_prefix h tree.at_root _
  rcases h.resolve_total name with ⟨before, hbefore⟩
  -- The root has no label and needs no node, so it is looked at by itself.
  have hrest : next.nodes.size = tree.nodes.size + (name.labels.length - before.resolvedCount) ∧
      (Admin.addName name wildcard).perform next = (.ok added, next) := by
    by_cases hname : name.isRoot = true
    · rw [hroot hname] at hadd ⊢
      rcases perform_addName_root hname hadd with ⟨rfl, hagain⟩
      rw [List.isEmpty_iff.1 hname, List.length_nil, Nat.zero_sub]
      exact ⟨rfl, hagain⟩
    · have hname := Bool.eq_false_iff.2 hname
      refine ⟨h.addName_size hname hbefore hadd, ?_⟩
      refine hnext.addName_again hname hfound hadds.settled.isFullyResolved fun hwildcard => ?_
      rw [hstar, hwildcard, Bool.true_or]
  exact {
    isFullyResolved := hadds.settled.isFullyResolved
    labels := hadds.labels
    created := ⟨before, hbefore, hrest.1⟩
    found := hfound
    isStar := hstar
    others := hothers
    records := hadds.records
    again := hrest.2 }

end Sound

/-- In every tree that comes about from an empty one, by calls that succeed or fail, a name can be
added, which extends the tree by the nodes of the name and by nothing else; only the root cannot be
made a wildcard, and the attempt changes nothing. -/
theorem addName_extends {startedAt : Timestamp} {events : List Event}
    (h : History (empty startedAt) events tree) (name : Name) (wildcard : Bool) :
    ((name.isRoot = true → wildcard = false) → ∃ added next,
      (Admin.addName name wildcard).perform tree = (.ok added, next) ∧
        tree.Extends name wildcard added next) ∧
      (name.isRoot = true →
        (Admin.addName name true).perform tree = (.error .wildcardRoot, tree)) := by
  constructor
  · intro hroot
    rcases (sound_of_history h).addName_succeeds hroot with ⟨added, next, hadd, hadds⟩
    exact ⟨added, next, hadd, (sound_of_history h).extends_of_adds hroot hadd hadds⟩
  · intro hroot
    unfold Admin.addName
    rw [if_pos hroot, if_pos rfl]
    rfl

/-- The sample tree has the nodes 1 and 2 for `www.kin`; a name below it gets the node 4. -/
theorem addName_extends_sampleCalls :
    ∃ name added next, Name.ofText "no.WWW.kin" = .ok name ∧
      name.isRoot = false ∧
      (Admin.addName name true).perform sampleTree = (.ok added, next) ∧
      added.nodes = [⟨1, false⟩, ⟨2, false⟩, ⟨4, true⟩] ∧
      sampleTree.Extends name true added next := by
  have hnodes : ((Name.ofText "no.WWW.kin").toOption.map fun name =>
      (name.isRoot, ((Admin.addName name true).perform sampleTree).1.toOption.map Name.nodes)) =
        some (false, some [⟨1, false⟩, ⟨2, false⟩, ⟨4, true⟩]) := by decide +kernel
  cases hname : Name.ofText "no.WWW.kin" with
  | error e =>
      rw [hname] at hnodes
      cases hnodes
  | ok name =>
      rw [hname] at hnodes
      rcases Prod.mk.inj (Option.some.inj hnodes) with ⟨hroot, hadded⟩
      have hhistory := history_foldl_record (Tree.empty ⟨0, 0⟩) sampleCalls
      rcases (addName_extends hhistory name true).1 fun h => h.symm.trans hroot with
        ⟨added, next, hadd, hextends⟩
      refine ⟨name, added, next, rfl, hroot, hadd, ?_, hextends⟩
      rw [show ((Admin.addName name true).perform sampleTree).1 = .ok added from
        congrArg Prod.fst hadd] at hadded
      exact Option.some.inj hadded

end Tree
end Zone
end NameServer
