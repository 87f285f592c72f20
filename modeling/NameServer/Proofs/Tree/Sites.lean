import NameServer.Proofs.Tree.Walks

/-!
# Proofs.Tree.Sites — where zones are

The numbers of zones and the spellings of labels depend on how a tree came about. Where a zone is
does not: its site is the list of folded labels on the way up from it. In a sound tree a site has
at most one zone, and a tree that grows moves none.

* `Tree.At` — a zone and its site, each of which determines the other;
* `Tree.Settled` — a name that carries the nodes of its zone, which are those it is resolved to;
* `Tree.Keeps` — all nodes are there as they were, which keeps names settled;
* `Tree.Plants` — what becomes of sites when some are planted, a few of them with the mark;
* `Tree.Sound.plants_of_adds`, `Tree.Sound.plants_of_marks` — a new node and a new mark do this.
-/

namespace NameServer

/-- The folded labels of a name or of a node, the most specific one first. -/
abbrev Site := List (List UInt8)

namespace Zone
namespace Tree

variable {tree mid next : Tree} {zone other parent id : ZoneId} {path : List (ZoneId × Node)}
variable {name resolved : Name} {label : Label} {star : Bool} {site front : Site}

/-! ## Sites -/

/-- The labels on the way up from a zone, ASCII case aside. -/
def At (tree : Tree) (zone : ZoneId) (site : Site) : Prop :=
  ∃ path, tree.Climb zone path ∧ (labelsOfPath path).map Label.folded = site

theorem at_root (tree : Tree) : tree.At rootZone [] :=
  ⟨[], Climb.root, rfl⟩

/-- Below a zone, a node is at the site of the zone with its own label in front. -/
theorem At.below {node : Node} (h : tree.At node.parent front) (hne : zone ≠ rootZone)
    (hnode : tree.nodes[zone]? = some node) : tree.At zone (node.label.folded :: front) := by
  rcases h with ⟨path, hclimb, rfl⟩
  exact ⟨(zone, node) :: path, .node hne hnode hclimb, rfl⟩

theorem At.unique (h : tree.At zone site) (h' : tree.At zone front) : site = front := by
  rcases h with ⟨path, hclimb, rfl⟩
  rcases h' with ⟨path', hclimb', rfl⟩
  rw [hclimb.unique hclimb']

theorem At.hasZone (h : tree.At zone site) : tree.hasZone zone = true := by
  rcases h with ⟨path, hclimb, -⟩
  cases hclimb with
  | root => exact hasZone_iff.2 (Or.inl rfl)
  | node _ hnode => exact hasZone_iff.2 (Or.inr ⟨_, hnode⟩)

theorem At.hasName (h : tree.At zone name.folded) : tree.HasName zone := by
  rcases h with ⟨path, hclimb, hfolded⟩
  refine ⟨labelsOfPath path, ⟨path, hclimb, rfl⟩, ?_⟩
  have hsize := name.size_le
  unfold Name.wireSize at hsize ⊢
  rw [Name.literalSize_congr hfolded]
  exact hsize

/-- A zone stays where it is when all nodes keep their parents and labels. -/
theorem At.of_nodes (h : tree.At zone site)
    (hnodes : ∀ (id : ZoneId) (node : Node), tree.nodes[id]? = some node →
      ∃ node', next.nodes[id]? = some node' ∧ node'.parent = node.parent ∧
        node'.label = node.label) : next.At zone site := by
  rcases h with ⟨path, hclimb, rfl⟩
  rcases hclimb.of_nodes fun step hstep => hnodes _ _ (hclimb.node_of_mem step hstep) with
    ⟨path', hclimb', hlabels⟩
  exact ⟨path', hclimb', by rw [hlabels]⟩

/-- Above a zone there are zones at all the sites that end its own. -/
theorem At.above (h : tree.At zone site) (hsuffix : front <:+ site) :
    ∃ above, tree.At above front := by
  rcases h with ⟨path, hclimb, rfl⟩
  have hspells : tree.Spells zone (labelsOfPath path) := ⟨path, hclimb, rfl⟩
  rcases hspells.drop (((labelsOfPath path).map Label.folded).length - front.length) with
    ⟨above, path', hclimb', hlabels⟩
  refine ⟨above, path', hclimb', ?_⟩
  rw [hlabels, List.map_drop]
  exact (List.suffix_iff_eq_drop.1 hsuffix).symm

namespace Sound

theorem exists_at (h : tree.Sound) (hzone : tree.hasZone zone = true) : ∃ site, tree.At zone site := by
  rcases h.exists_climb hzone with ⟨path, hclimb⟩
  exact ⟨_, path, hclimb, rfl⟩

/-- Two zones are not at one site. -/
theorem at_inj (h : tree.Sound) (hat : tree.At zone site) (hother : tree.At other site) :
    zone = other := by
  rcases hat with ⟨path, hclimb, rfl⟩
  rcases hother with ⟨path', hclimb', hfolded⟩
  -- The index leads down from the root along the labels, and there is but one way down.
  have hwalk : (nodesOfPath path).reverse = (nodesOfPath path').reverse := by
    have hdown := h.walk_of_climb hclimb []
    have hdown' := h.walk_of_climb hclimb' []
    rw [List.append_nil, walk, List.append_nil] at hdown hdown'
    rw [← hdown, ← hdown']
    exact tree.walk_congr rootZone (List.rel_reverse (Label.map_folded_eq.1 hfolded.symm))
  have hhead : path.head?.map Prod.fst = path'.head?.map Prod.fst := by
    have hnodes := congrArg List.head? (List.reverse_injective hwalk)
    simp only [nodesOfPath, List.head?_map] at hnodes
    cases hpath : path.head? <;> cases hpath' : path'.head? <;> simp_all
  rw [← hclimb.head, ← hclimb'.head, hhead]

/-- A zone has a child with a label where there is a zone at that site. -/
theorem child?_eq_some_iff (h : tree.Sound) (hat : tree.At parent front) :
    tree.child? parent label = some id ↔ tree.At id (label.folded :: front) := by
  constructor
  · intro hchild
    rcases h.exists_of_child? hchild with ⟨node, hnode, rfl, hfolded⟩
    rw [← hfolded]
    exact hat.below (Int.ne_of_gt (h.id_pos id node hnode)) hnode
  · rintro ⟨path, hclimb, hfolded⟩
    cases hclimb with
    | root => cases hfolded
    | @node _ node rest _ hnode hrest =>
        change node.label.folded :: (labelsOfPath rest).map Label.folded = _ at hfolded
        rw [List.cons.injEq] at hfolded
        have hparent : tree.At node.parent front := ⟨rest, hrest, hfolded.2⟩
        rw [h.at_inj hat hparent, ← h.child?_of_node hnode]
        unfold child?
        rw [hfolded.1]

end Sound

/-! ## Settled names -/

/-- The name has the labels of its zone, ASCII case aside, and carries the nodes on the way to it. -/
def Settled (tree : Tree) (name : Name) : Prop :=
  ∃ path, tree.Climb name.zoneId path ∧ (labelsOfPath path).map Label.folded = name.folded ∧
    name.form = .resolved (nodesOfPath path).reverse

theorem Settled.at (h : tree.Settled name) : tree.At name.zoneId name.folded := by
  rcases h with ⟨path, hclimb, hfolded, -⟩
  exact ⟨path, hclimb, hfolded⟩

theorem Settled.isFullyResolved (h : tree.Settled name) : name.isFullyResolved = true := by
  rcases h with ⟨path, -, hfolded, hform⟩
  refine Name.isFullyResolved_of_form hform ?_
  have hlength := congrArg List.length hfolded
  simpa [Name.folded, labelsOfPath, nodesOfPath] using hlength

/-- A name with the labels of a way up and the nodes on it is settled. -/
theorem settled_of_climb (hclimb : tree.Climb zone path)
    (hfolded : (labelsOfPath path).map Label.folded = name.folded)
    (hform : name.form = .resolved (nodesOfPath path).reverse) : tree.Settled name := by
  have hzone : name.zoneId = zone := by
    rw [Name.zoneId_of_form hform, ← hclimb.head]
    cases path <;> rfl
  exact ⟨path, hzone ▸ hclimb, hfolded, hform⟩

namespace Sound

/-- A settled name is what its labels are resolved to. -/
theorem resolve_of_settled (h : tree.Sound) (hsettled : tree.Settled resolved)
    (hsame : name.labels = resolved.labels) : tree.resolve name = .ok resolved := by
  rcases hsettled with ⟨path, hclimb, hfolded, hform⟩
  refine h.resolve_eq_ok_iff.2 ⟨hsame.symm, hform.trans ?_⟩
  have hwalk := h.walk_of_climb hclimb []
  rw [List.append_nil, walk, List.append_nil] at hwalk
  rw [← hwalk, hsame]
  exact congrArg _ (tree.walk_congr rootZone (List.rel_reverse (Label.map_folded_eq.1 hfolded)))

/-- The way up from the deepest node of a resolved name. -/
theorem climb_of_resolve (h : tree.Sound) (hresolve : tree.resolve name = .ok resolved) :
    ∃ path, tree.Climb resolved.zoneId path ∧ (nodesOfPath path).reverse = resolved.nodes ∧
      (labelsOfPath path).map Label.folded =
        (name.labels.drop (name.labels.length - resolved.resolvedCount)).map Label.folded := by
  rcases h.named_of_resolve hresolve with ⟨found, hfound, hsame, hform⟩
  rcases exists_of_nameOf? hfound with ⟨path, hclimb, hspelled⟩
  rcases labels_of_nameOfPath hspelled with ⟨hlabels, hnodes⟩
  refine ⟨path, hclimb, Name.Form.resolved.inj (hnodes.symm.trans hform), ?_⟩
  calc
    (labelsOfPath path).map Label.folded = found.folded := congrArg _ hlabels.symm
    _ = resolved.resolvedPart.folded := hsame
    _ = _ := by
      unfold Name.folded
      rw [Name.labels_resolvedPart, (h.resolve_eq_ok_iff.1 hresolve).1]

theorem settled_of_resolve (h : tree.Sound) (hresolve : tree.resolve name = .ok resolved)
    (hfull : resolved.isFullyResolved = true) : tree.Settled resolved := by
  rcases h.climb_of_resolve hresolve with ⟨path, hclimb, hnodes, hfolded⟩
  rcases h.resolve_eq_ok_iff.1 hresolve with ⟨hlabels, hform⟩
  have hcount : resolved.resolvedCount = resolved.labels.length := by
    unfold Name.isFullyResolved at hfull
    exact beq_iff_eq.1 (Bool.and_eq_true_iff.1 hfull).2
  refine ⟨path, hclimb, ?_, ?_⟩
  · rw [hfolded, hcount, hlabels, Nat.sub_self, List.drop_zero]
    unfold Name.folded
    rw [hlabels]
  · rw [hform, hnodes, h.nodes_of_resolve hresolve]

end Sound

/-! ## Trees that keep their nodes -/

/-- All nodes are there as they were. -/
def Keeps (tree next : Tree) : Prop :=
  ∀ (zone : ZoneId) (node : Node), tree.nodes[zone]? = some node → next.nodes[zone]? = some node

theorem Keeps.refl (tree : Tree) : tree.Keeps tree :=
  fun _ _ hnode => hnode

theorem Keeps.trans (h : tree.Keeps mid) (hnext : mid.Keeps next) : tree.Keeps next :=
  fun zone node hnode => hnext zone node (h zone node hnode)

/-- A way up stays where the nodes on it do. -/
theorem Climb.of_mem (h : tree.Climb zone path)
    (hnodes : ∀ step ∈ path, next.nodes[step.1]? = some step.2) : next.Climb zone path := by
  induction h with
  | root => exact Climb.root
  | node hne _ _ ih =>
      rw [List.forall_mem_cons] at hnodes
      exact Climb.node hne hnodes.1 (ih hnodes.2)

theorem Climb.keeps (h : tree.Climb zone path) (hkeeps : tree.Keeps next) :
    next.Climb zone path :=
  h.of_mem fun step hstep => hkeeps _ _ (h.node_of_mem step hstep)

theorem At.keeps (h : tree.At zone site) (hkeeps : tree.Keeps next) : next.At zone site := by
  rcases h with ⟨path, hclimb, hfolded⟩
  exact ⟨path, hclimb.keeps hkeeps, hfolded⟩

theorem Settled.keeps (h : tree.Settled name) (hkeeps : tree.Keeps next) : next.Settled name := by
  rcases h with ⟨path, hclimb, hspelled⟩
  exact ⟨path, hclimb.keeps hkeeps, hspelled⟩

/-! ## Planting -/

/-- `next` is a tree with zones at all sites that end planted ones, of which some get the mark. -/
structure Plants (tree : Tree) (planted : List (Site × Bool)) (next : Tree) : Prop where
  sound : next.Sound
  stays : ∀ zone site, tree.At zone site → next.At zone site
  there : ∀ plant ∈ planted, ∃ zone, next.At zone plant.1
  comes : ∀ zone site, next.At zone site → tree.At zone site ∨
    (tree.hasZone zone = false ∧ ∃ plant ∈ planted, site <:+ plant.1)
  marked : ∀ zone site, next.At zone site →
    (next.isWildcard zone = true ↔ tree.isWildcard zone = true ∨ (site, true) ∈ planted)
  keeps : (∀ plant ∈ planted, plant.2 = false) → tree.Keeps next

/-- A zone that is not there is no wildcard. -/
theorem isWildcard_of_hasZone (h : tree.hasZone zone = false) : tree.isWildcard zone = false := by
  cases hnode : tree.nodes[zone]? with
  | none =>
      unfold isWildcard
      rw [hnode]
  | some node =>
      rw [hasZone_iff.2 (Or.inr ⟨node, hnode⟩)] at h
      cases h

namespace Plants

variable {planted more : List (Site × Bool)}

theorem hasZone (h : tree.Plants planted next) (hsound : tree.Sound)
    (hzone : tree.hasZone zone = true) : next.hasZone zone = true := by
  rcases hsound.exists_at hzone with ⟨site, hat⟩
  exact (h.stays zone site hat).hasZone

theorem trans (hsound : tree.Sound) (h : tree.Plants planted mid) (hmore : mid.Plants more next) :
    tree.Plants (planted ++ more) next where
  sound := hmore.sound
  stays zone site hat := hmore.stays zone site (h.stays zone site hat)
  there plant hplant := by
    rcases List.mem_append.1 hplant with hplant | hplant
    · rcases h.there plant hplant with ⟨zone, hat⟩
      exact ⟨zone, hmore.stays zone _ hat⟩
    · exact hmore.there plant hplant
  comes zone site hat := by
    rcases hmore.comes zone site hat with hmid | ⟨hnew, plant, hplant, hsuffix⟩
    · refine (h.comes zone site hmid).imp_right ?_
      rintro ⟨hnew, plant, hplant, hsuffix⟩
      exact ⟨hnew, plant, List.mem_append_left _ hplant, hsuffix⟩
    · refine Or.inr ⟨?_, plant, List.mem_append_right _ hplant, hsuffix⟩
      exact Bool.eq_false_iff.2 fun hold => Bool.eq_false_iff.1 hnew (h.hasZone hsound hold)
  marked zone site hat := by
    rw [hmore.marked zone site hat, List.mem_append, ← or_assoc]
    refine or_congr ?_ Iff.rfl
    rcases hmore.comes zone site hat with hmid | ⟨hnew, -⟩
    · exact h.marked zone site hmid
    · -- The zone is newer than all that was planted first, so its site was not among that.
      have hold : tree.hasZone zone = false :=
        Bool.eq_false_iff.2 fun hold => Bool.eq_false_iff.1 hnew (h.hasZone hsound hold)
      have hsite : (site, true) ∉ planted := by
        intro hplant
        rcases h.there _ hplant with ⟨other, hother⟩
        have hsame := hmore.sound.at_inj hat (hmore.stays other site hother)
        rw [hsame, hother.hasZone] at hnew
        cases hnew
      rw [isWildcard_of_hasZone hnew, isWildcard_of_hasZone hold]
      simp [hsite]
  keeps hplain :=
    (h.keeps fun plant hplant => hplain plant (List.mem_append_left _ hplant)).trans
      (hmore.keeps fun plant hplant => hplain plant (List.mem_append_right _ hplant))

/-- Sites that end others are planted with these. -/
theorem absorb (h : tree.Plants ((front, false) :: planted) next)
    (hsuffix : ∃ plant ∈ planted, front <:+ plant.1) : tree.Plants planted next where
  sound := h.sound
  stays := h.stays
  there plant hplant := h.there plant (List.mem_cons_of_mem _ hplant)
  comes zone site hat := by
    refine (h.comes zone site hat).imp_right ?_
    rintro ⟨hnew, plant, hplant, hsite⟩
    rcases List.mem_cons.1 hplant with rfl | hplant
    · rcases hsuffix with ⟨plant, hplant, hfront⟩
      exact ⟨hnew, plant, hplant, hsite.trans hfront⟩
    · exact ⟨hnew, plant, hplant, hsite⟩
  marked zone site hat := by
    rw [h.marked zone site hat]
    simp
  keeps hplain := h.keeps (List.forall_mem_cons.2 ⟨rfl, hplain⟩)

end Plants

namespace Sound

/-- Where there are zones already, nothing changes. -/
theorem plants_of_at (h : tree.Sound) (hat : tree.At zone site)
    (hstar : star = true → tree.isWildcard zone = true) : tree.Plants [(site, star)] tree where
  sound := h
  stays _ _ := id
  there plant hplant := by
    rw [List.mem_singleton] at hplant
    exact ⟨zone, hplant ▸ hat⟩
  comes _ _ := Or.inl
  marked other front hother := by
    refine (or_iff_left_of_imp ?_).symm
    intro hmem
    rw [List.mem_singleton, Prod.mk.injEq] at hmem
    rw [h.at_inj hother (hmem.1 ▸ hat)]
    exact hstar hmem.2.symm
  keeps _ := Keeps.refl tree

/-- What leaves the nodes as they are plants nothing. -/
theorem plants_of_nodes (h : next.Sound) (hnodes : next.nodes = tree.nodes) :
    tree.Plants [] next := by
  have hat : ∀ zone site, next.At zone site ↔ tree.At zone site := by
    refine fun zone site => ⟨fun hat => hat.of_nodes ?_, fun hat => hat.of_nodes ?_⟩
    · exact fun id node hnode => ⟨node, hnodes ▸ hnode, rfl, rfl⟩
    · exact fun id node hnode => ⟨node, by rw [hnodes, hnode], rfl, rfl⟩
  refine ⟨h, fun zone site => (hat zone site).2, nofun, fun zone site => Or.inl ∘ (hat zone site).1,
    fun zone site _ => ?_, fun _ zone node hnode => by rw [hnodes, hnode]⟩
  unfold isWildcard
  rw [hnodes]
  simp

theorem keeps_of_adds (h : tree.Sound) (hadds : tree.Adds parent label star id next) :
    tree.Keeps next := by
  intro zone node hnode
  rw [hadds.node, if_neg, hnode]
  rintro rfl
  rw [hadds.id_eq, h.nodes_nextZone] at hnode
  cases hnode

theorem hasZone_of_adds (h : tree.Sound) (hadds : tree.Adds parent label star id next) :
    tree.hasZone id = false := by
  refine Bool.eq_false_iff.2 fun hzone => Int.lt_irrefl id ?_
  have hlt := h.lt_nextZone hzone
  rwa [← hadds.id_eq] at hlt

/-- A zone that is not the new one was there before. -/
theorem at_of_adds (h : tree.Sound) (hadds : tree.Adds parent label star id next)
    (hne : zone ≠ id) (hat : next.At zone site) : tree.At zone site := by
  have hold : ∀ other : ZoneId, other ≠ id → next.nodes[other]? = tree.nodes[other]? := by
    intro other hother
    rw [hadds.node, if_neg hother.symm]
  have hnew := h.hasZone_of_adds hadds
  -- Nothing hangs below the new node yet, so it is not on the way up from another zone.
  have hchildless : ∀ (other : ZoneId) (node : Node), next.nodes[other]? = some node →
      node.parent ≠ id := by
    rintro other node hnode rfl
    rw [hadds.node] at hnode
    split at hnode
    · cases hnode
      rw [hadds.hasParent] at hnew
      cases hnew
    · rw [h.hasParent other node hnode] at hnew
      cases hnew
  rcases hat with ⟨path, hclimb, rfl⟩
  have hnodes : ∀ step ∈ path, ∃ node, tree.nodes[step.1]? = some node ∧
      node.parent = step.2.parent ∧ node.label = step.2.label := by
    intro step hstep
    have hother := hclimb.ne_of_childless hne hchildless step hstep
    exact ⟨step.2, hold _ hother ▸ hclimb.node_of_mem step hstep, rfl, rfl⟩
  rcases hclimb.of_nodes hnodes with ⟨path', hclimb', hlabels⟩
  exact ⟨path', hclimb', by rw [hlabels]⟩

/-- The new node is below its parent. -/
theorem at_new (h : tree.Sound) (hadds : tree.Adds parent label star id next)
    (hat : tree.At parent front) : next.At id (label.folded :: front) := by
  have hnode : next.nodes[id]? = some ⟨label, parent, star⟩ := by
    rw [hadds.node, if_pos rfl]
  have hparent : next.At parent front := hat.keeps (h.keeps_of_adds hadds)
  exact hparent.below (Int.ne_of_gt ((h.adds hadds).id_pos id _ hnode)) hnode

/-- A new node plants its site. -/
theorem plants_of_adds (h : tree.Sound) (hadds : tree.Adds parent label star id next)
    (hat : tree.At parent front) : tree.Plants [(label.folded :: front, star)] next := by
  have hsound := h.adds hadds
  have hkeeps := h.keeps_of_adds hadds
  have hnode : next.nodes[id]? = some ⟨label, parent, star⟩ := by
    rw [hadds.node, if_pos rfl]
  have hid := h.at_new hadds hat
  have hnew := h.hasZone_of_adds hadds
  refine ⟨hsound, fun _ _ hat => hat.keeps hkeeps, ?_, ?_, ?_, fun _ => hkeeps⟩
  · exact List.forall_mem_singleton.2 ⟨id, hid⟩
  · intro zone site hzone
    by_cases hne : zone = id
    · subst hne
      exact Or.inr ⟨hnew, _, List.mem_singleton_self _, (hzone.unique hid) ▸ List.suffix_refl _⟩
    · exact Or.inl (h.at_of_adds hadds hne hzone)
  · intro zone site hzone
    rw [List.mem_singleton, Prod.mk.injEq]
    by_cases hne : zone = id
    · subst hne
      rw [isWildcard_of_hasZone hnew, hzone.unique hid]
      unfold isWildcard
      rw [hnode]
      simp [eq_comm]
    · have hsite : site ≠ label.folded :: front := fun heq =>
        hne (hsound.at_inj hzone (heq ▸ hid))
      unfold isWildcard
      rw [hadds.node, if_neg (Ne.symm hne)]
      simp [hsite]

/-- A new mark plants the site of its zone once more, with the mark. -/
theorem plants_of_marks (h : tree.Sound) (hmarks : tree.Marks zone true next)
    (hat : tree.At zone site) : tree.Plants [(site, true)] next := by
  have hsound := h.marks hmarks
  rcases hmarks.node with ⟨marked, hmarked, hnode⟩
  have hstays : ∀ other front, tree.At other front → next.At other front := by
    intro other front hother
    refine hother.of_nodes fun id node hid => ?_
    rw [hnode]
    split
    · rename_i heq
      rw [← heq, hmarked] at hid
      cases hid
      exact ⟨_, rfl, rfl, rfl⟩
    · exact ⟨node, hid, rfl, rfl⟩
  have hback : ∀ other front, next.At other front → tree.At other front := by
    intro other front hother
    refine hother.of_nodes fun id node hid => ?_
    rw [hnode] at hid
    split at hid
    · rename_i heq
      cases hid
      exact ⟨marked, heq ▸ hmarked, rfl, rfl⟩
    · exact ⟨node, hid, rfl, rfl⟩
  refine ⟨hsound, hstays, List.forall_mem_singleton.2 ⟨zone, hstays zone site hat⟩,
    fun other front => Or.inl ∘ hback other front, ?_, fun hplain => ?keeps⟩
  case keeps => cases hplain _ (List.mem_singleton_self _)
  intro other front hother
  rw [List.mem_singleton, Prod.mk.injEq]
  by_cases hne : zone = other
  · subst hne
    have hsite := (hback zone front hother).unique hat
    unfold isWildcard
    rw [hnode, if_pos rfl]
    simp [hsite]
  · have hsite : front ≠ site := fun heq =>
      hne (hsound.at_inj (hstays zone site hat) (heq ▸ hother))
    unfold isWildcard
    rw [hnode, if_neg hne]
    simp [hsite]

end Sound

end Tree
end Zone
end NameServer
