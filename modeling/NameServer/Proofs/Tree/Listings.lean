import NameServer.Proofs.Tree.References
import NameServer.Proofs.Tree.Sites

/-!
# Proofs.Tree.Listings — what is listed of a zone

A zone is listed by its children and by its payloads. Both are told here by the nodes and the
records that a tree keeps, without the reads that list them.

* `Tree.HasChildren` and `Tree.hasChildren` — the nodes below a zone, in the order of their numbers;
* `Tree.HasPayloads` and `Tree.Sound.exists_payloads` — the payloads at a zone, with the names of the
  zones that they refer to, from which the records of every type are served.
-/

namespace NameServer
namespace Zone
namespace Tree

variable {tree : Tree} {zone : ZoneId}

/-! ## Children -/

/-- `children` are the nodes below a zone, in the order of their numbers. -/
structure HasChildren (tree : Tree) (zone : ZoneId) (children : List Child) : Prop where
  rise : children.Pairwise fun child later => child.id < later.id
  mem_iff : ∀ child, child ∈ children ↔
    tree.nodes[child.id]? = some ⟨child.label, zone, child.wildcard⟩

theorem hasChildren (tree : Tree) (zone : ZoneId) :
    tree.HasChildren zone (Store.children tree zone) where
  rise := by
    change (List.map _ _).Pairwise _
    rw [List.pairwise_map]
    exact tree.nodes_rise.filter _
  mem_iff child := by
    refine mem_children.trans ⟨?_, fun hnode => ⟨_, hnode, rfl, rfl⟩⟩
    rintro ⟨⟨label, parent, wildcard⟩, hnode, rfl, hchild⟩
    rw [hchild]
    exact hnode

/-! ## Payloads -/

/-- `payloads` are those at a zone, with the names of the zones that they refer to. -/
structure HasPayloads (tree : Tree) (zone : ZoneId) (payloads : List (Rdata Name)) : Prop where
  recordsAt : payloads.map (Rdata.map Name.zoneId) = tree.recordsAt zone
  /-- The names are those of the nodes, and they are found again by their labels. -/
  named : ∀ rdata ∈ payloads, ∀ target ∈ rdata.references,
    Store.nameOf? tree target.zoneId = .ok (some target) ∧
      Store.resolve tree target.toPlain = .ok target

/-- Where a payload is put together, each step finds the name of its zone. -/
theorem exists_steps_of_withNames {stored : Rdata ZoneId} {rdata : Rdata Name}
    (hnamed : tree.withNames stored = .ok rdata) :
    ∃ step, stored.mapM step = (.ok rdata : Except Fault (Rdata Name)) ∧
      ∀ zone name, step zone = .ok name → tree.nameOf? zone = some name := by
  refine ⟨_, hnamed, fun zone name heq => ?_⟩
  cases hname : tree.nameOf? zone with
  | none =>
      rw [hname] at heq
      cases heq
  | some found =>
      rw [hname] at heq
      cases heq
      rfl

/-- A payload that is put together refers to what is stored, by the names of the zones. -/
theorem Sound.named_of_withNames (h : tree.Sound) {stored : Rdata ZoneId} {rdata : Rdata Name}
    (hnamed : tree.withNames stored = .ok rdata) :
    rdata.map Name.zoneId = stored ∧ ∀ target ∈ rdata.references,
      Store.nameOf? tree target.zoneId = .ok (some target) ∧
        Store.resolve tree target.toPlain = .ok target := by
  rcases exists_steps_of_withNames hnamed with ⟨step, hsteps, hname⟩
  refine ⟨Rdata.map_of_mapM hsteps fun zone name heq => (zoneId_of_nameOf? (hname zone name heq)).2,
    Rdata.gives_mapM (fun zone name heq => ?_) stored rdata hsteps⟩
  have hfound := hname zone name heq
  have hresolve := h.resolve_of_nameOf? hfound
  rw [(zoneId_of_nameOf? hfound).2]
  exact ⟨congrArg Except.ok hfound, h.resolve_eq_ok_iff.2 (h.resolve_eq_ok_iff.1 hresolve)⟩

/-- Where references have names, the first payloads of a type are served of those at the zone. -/
theorem Sound.exists_payloads (h : tree.Sound) (hgrounded : tree.Grounded) (zone : ZoneId) :
    ∃ payloads, tree.HasPayloads zone payloads ∧ ∀ type limit,
      Store.records tree zone type limit =
        .ok ((payloads.filter fun rdata => rdata.type = type).take limit) := by
  have hsucceeds : Succeeds ((tree.recordsAt zone).mapM tree.withNames) :=
    succeeds_mapM fun _ hrdata => h.withNames_succeeds hgrounded hrdata
  rcases hsucceeds with ⟨payloads, hpayloads⟩
  have hnamed := forall₂_of_mapM hpayloads
  refine ⟨payloads, ⟨?_, fun rdata hrdata => ?_⟩, fun type limit => mapM_of_forall₂ ?_⟩
  · refine (eq_of_forall₂ (R := Eq) (List.forall₂_map_right_iff.2 ?_) fun _ _ => id).symm
    exact hnamed.imp fun stored rdata heq => (h.named_of_withNames heq).1.symm
  · rcases exists_of_mem_right hnamed hrdata with ⟨stored, -, heq⟩
    exact (h.named_of_withNames heq).2
  · -- A payload has the type of its record, so those of a type can be picked before or after.
    refine List.forall₂_take limit (List.rel_filter (fun {stored rdata} heq => ?_) hnamed)
    change decide (stored.type = type) = true ↔ decide (rdata.type = type) = true
    rw [Rdata.type_of_mapM heq]

end Tree
end Zone
end NameServer
