import NameServer.Proofs.Tree.Contents

/-!
# Proofs.Tree.Ways — the way to a name in a tree that grows

The way to a name leads through the zones at its endings, as far as there are any. So what a tree
that grows makes of it is told by the sites that are planted: the way goes on where the next ending
of the name is among them or above, and is what it was where it is not.

* `Tree.Sound.le_depth_iff` — the way gets as far as an ending when there is a zone at its site;
* `Tree.Plants.path_eq` — the way is as it was where nothing is planted on it;
* `Tree.Plants.deepest_new` — where something is, the zone that it leads to is new;
* `Tree.Sound.withNames_keeps` — what is stored keeps its names while all nodes stay.
-/

namespace NameServer

/-! ## Endings -/

namespace Name

theorem folded_ending (name : Name) (count : Nat) :
    (name.ending count).folded = name.folded.drop (name.folded.length - count) := by
  unfold Name.folded Name.ending
  rw [List.length_map, List.map_drop]

theorem ending_suffix (name : Name) (count : Nat) :
    (name.ending count).folded <:+ name.folded := by
  rw [folded_ending]
  exact List.drop_suffix _ _

/-- A shorter ending ends a longer one. -/
theorem ending_suffix_ending (name : Name) {count more : Nat} (h : count ≤ more) :
    (name.ending count).folded <:+ (name.ending more).folded := by
  have hcount : (name.ending count).folded.length ≤ (name.ending more).folded.length := by
    rw [folded_ending, folded_ending, List.length_drop, List.length_drop]
    omega
  exact List.suffix_of_suffix_length_le (name.ending_suffix count) (name.ending_suffix more) hcount

theorem length_ending {name : Name} {count : Nat} (h : count ≤ name.labels.length) :
    (name.ending count).folded.length = count := by
  rw [folded_ending, List.length_drop, Name.folded, List.length_map]
  omega

/-- Another name has the same ending when the ending ends it. -/
theorem ending_sameAs_iff {name other : Name} {count : Nat} (h : count ≤ name.labels.length) :
    (other.ending count).SameAs (name.ending count) ↔
      (name.ending count).folded <:+ other.folded := by
  unfold Name.SameAs
  constructor
  · intro hsame
    rw [← hsame]
    exact other.ending_suffix count
  · intro hsuffix
    rw [folded_ending other, List.suffix_iff_eq_drop.1 hsuffix, length_ending h]

end Name

namespace Zone

open Resolver (ResolvesTo resolvesTo_of_resolve)

/-- The zone at the depth of the way to a name is its last node. -/
theorem View.zoneAt_depth {σ : Type} [Store σ] {view : View σ} {store : σ} {name : Name}
    {node : ZoneNode} (h : (view.path store name).getLast? = some node) :
    view.zoneAt store name (view.depth store name) = node.id := by
  unfold View.depth
  rw [List.getLast?_eq_getElem?] at h
  cases hlength : (view.path store name).length with
  | zero =>
      rw [List.length_eq_zero_iff.1 hlength] at h
      cases h
  | succ depth =>
      rw [hlength, Nat.add_sub_cancel] at h
      simp only [View.zoneAt, h]

namespace Tree

variable {tree next : Tree} {zone : ZoneId} {name other : Name} {planted : List (Site × Bool)}
variable {rdata : Rdata ZoneId} {found : Rdata Name}

/-! ## The zones on the way -/

namespace Sound

/-- The way up from the deepest zone on the way to a name. -/
theorem climb_deepest (h : tree.Sound) (name : Name) :
    ∃ path, tree.Climb (view.zoneAt tree name (view.depth tree name)) path ∧
      (nodesOfPath path).reverse = view.path tree name ∧
      (labelsOfPath path).map Label.folded = (name.ending (view.depth tree name)).folded := by
  rcases h.resolve_total name with ⟨resolved, hresolve⟩
  have hresolved : ResolvesTo view tree name resolved := resolvesTo_of_resolve view hresolve
  rcases h.climb_of_resolve hresolve with ⟨path, hclimb, hnodes, hfolded⟩
  rw [hresolved.zoneId] at hclimb
  rw [hresolved.nodes] at hnodes
  rw [hresolved.resolvedCount] at hfolded
  exact ⟨path, hclimb, hnodes, hfolded⟩

theorem at_deepest (h : tree.Sound) (name : Name) :
    tree.At (view.zoneAt tree name (view.depth tree name))
      (name.ending (view.depth tree name)).folded := by
  rcases h.climb_deepest name with ⟨path, hclimb, -, hfolded⟩
  exact ⟨path, hclimb, hfolded⟩

/-- The way gets as far as an ending exactly when there is a zone at its site. -/
theorem le_depth_iff (h : tree.Sound) {count : Nat} (hcount : count ≤ name.labels.length) :
    count ≤ view.depth tree name ↔ ∃ zone, tree.At zone (name.ending count).folded := by
  rcases h.resolve_total name with ⟨resolved, hresolve⟩
  have hresolved : ResolvesTo view tree name resolved := resolvesTo_of_resolve view hresolve
  have hhas := h.has_iff hresolve (List.drop_suffix (name.labels.length - count) name.labels)
  rw [hresolved.resolvedCount, List.length_drop, Nat.sub_sub_self hcount] at hhas
  rw [← hhas]
  constructor
  · rintro ⟨zone, _, ⟨path, hclimb, rfl⟩, hfolded⟩
    exact ⟨zone, path, hclimb, hfolded⟩
  · rintro ⟨zone, path, hclimb, hfolded⟩
    exact ⟨zone, _, ⟨path, hclimb, rfl⟩, hfolded⟩

/-- The way to a name leads along the way to another that it ends with. -/
theorem path_prefix (h : tree.Sound)
    (hsuffix : (name.ending (view.depth tree name)).folded <:+ other.folded) :
    view.path tree name <+: view.path tree other := by
  rcases h.climb_deepest name with ⟨path, hclimb, hnodes, hfolded⟩
  rw [← hfolded] at hsuffix
  have hdrop := List.suffix_iff_eq_drop.1 hsuffix
  rw [List.length_map, Name.folded, List.length_map, ← List.map_drop] at hdrop
  generalize other.labels.length - (labelsOfPath path).length = count at hdrop
  have hwalk : tree.walk rootZone other.labels.reverse =
      (nodesOfPath path).reverse ++
        tree.walk (view.zoneAt tree name (view.depth tree name)) (other.labels.take count).reverse := by
    rw [← h.walk_of_climb hclimb, ← List.take_append_drop count other.labels, List.reverse_append,
      List.take_append_drop]
    refine (tree.walk_congr rootZone (List.rel_append ?_ ?_)).symm
    · exact List.rel_reverse (Label.map_folded_eq.1 hdrop)
    · exact List.forall₂_same.2 fun _ _ => rfl
  change view.path tree name <+: tree.walk rootZone other.labels.reverse
  rw [hwalk, hnodes]
  exact List.prefix_append _ _

end Sound

/-! ## Growth -/

namespace Plants

/-- Where nothing is planted at the next ending of a name, or below, its way is as it was. -/
theorem path_eq (h : tree.Plants planted next) (hsound : tree.Sound) (hkeeps : tree.Keeps next)
    (hmore : view.depth tree name < name.labels.length)
    (hspared : ∀ plant ∈ planted,
      ¬(name.ending (view.depth tree name + 1)).folded <:+ plant.1) :
    view.path next name = view.path tree name := by
  rcases hsound.climb_deepest name with ⟨path, hclimb, hnodes, hfolded⟩
  rcases h.sound.climb_deepest name with ⟨path', hclimb', hnodes', hfolded'⟩
  have hfar : view.depth tree name ≤ view.depth next name :=
    (h.sound.le_depth_iff (Nat.le_of_lt hmore)).2 ⟨_, h.stays _ _ ⟨path, hclimb, hfolded⟩⟩
  have hnear : view.depth next name ≤ view.depth tree name := by
    by_contra hfarther
    rcases (h.sound.le_depth_iff hmore).1 (Nat.lt_of_not_le hfarther) with ⟨zone, hat⟩
    rcases h.comes zone _ hat with hold | ⟨-, plant, hplant, hsuffix⟩
    · exact Nat.not_succ_le_self _ ((hsound.le_depth_iff hmore).2 ⟨zone, hold⟩)
    · exact hspared plant hplant hsuffix
  -- The zone that was deepest is so still, and the way up from it leads through the same nodes.
  rw [Nat.le_antisymm hnear hfar] at hclimb' hfolded'
  have hzone := h.sound.at_inj ⟨path, hclimb.keeps hkeeps, hfolded⟩ ⟨path', hclimb', hfolded'⟩
  rw [← hzone] at hclimb'
  rw [← hnodes, ← hnodes', (hclimb.keeps hkeeps).unique hclimb']

/-- Where something is planted there, the zone that the way leads to was not there before. -/
theorem deepest_new (h : tree.Plants planted next) (hsound : tree.Sound)
    (hmore : view.depth tree name < name.labels.length) {plant : Site × Bool}
    (hplant : plant ∈ planted)
    (hmet : (name.ending (view.depth tree name + 1)).folded <:+ plant.1) :
    view.depth tree name < view.depth next name ∧
      tree.hasZone (view.zoneAt next name (view.depth next name)) = false := by
  rcases h.there plant hplant with ⟨zone, hat⟩
  have hfarther : view.depth tree name < view.depth next name :=
    (h.sound.le_depth_iff hmore).2 (hat.above hmet)
  refine ⟨hfarther, Bool.eq_false_iff.2 fun hold => ?_⟩
  -- A zone that was there before would be at the same site, with a zone at the next ending above it.
  rcases hsound.exists_at hold with ⟨site, hsite⟩
  rw [(h.stays _ _ hsite).unique (h.sound.at_deepest name)] at hsite
  exact Nat.not_succ_le_self _
    ((hsound.le_depth_iff hmore).2 (hsite.above (name.ending_suffix_ending hfarther)))

end Plants

/-! ## Names that stay -/

theorem Sound.nameOf?_keeps (h : next.Sound) (hkeeps : tree.Keeps next)
    (hname : tree.nameOf? zone = some name) : next.nameOf? zone = some name := by
  rcases exists_of_nameOf? hname with ⟨path, hclimb, hspelled⟩
  exact h.nameOf?_of_climb (hclimb.keeps hkeeps) hspelled

end Tree
end Zone

/-- What is stored keeps its names while all nodes stay. -/
theorem Zone.Tree.Sound.withNames_keeps {tree next : Zone.Tree} {rdata : Rdata ZoneId}
    {found : Rdata Name} (h : next.Sound) (hkeeps : tree.Keeps next)
    (hfound : tree.withNames rdata = .ok found) : next.withNames rdata = .ok found := by
  refine Rdata.mapM_imp ?_ hfound
  intro target name hname
  cases hstored : tree.nameOf? target with
  | none =>
      rw [hstored] at hname
      cases hname
  | some found =>
      rw [hstored] at hname
      rw [h.nameOf?_keeps hkeeps hstored]
      exact hname

end NameServer
