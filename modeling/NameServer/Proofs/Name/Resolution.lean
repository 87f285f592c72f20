import NameServer.Name.Basic

/-!
# Proofs.Name.Resolution — names with zone nodes

Nodes are put to a name when they fit it, and the name keeps its labels.

* `Name.resolve_total`, `Name.labels_of_resolve` — nodes that fit are put to a name;
* `Name.resolve_again` — a name that has them is given the same again;
* `Name.parent?_of_cons` — the name above loses the first label, and the nodes that are too many.
-/

namespace NameServer
namespace Name

variable {name resolved : Name} {nodes : List ZoneNode}

/-! ## Which nodes are put to a name -/

/-- Positive numbers that are distinct and new are good ones. -/
theorem badNode?_eq_none {seen : List ZoneId} {nodes : List ZoneNode}
    (hpos : ∀ node ∈ nodes, rootZone < node.id) (hnodup : (nodes.map ZoneNode.id).Nodup)
    (hnew : ∀ node ∈ nodes, node.id ∉ seen) : badNode? seen nodes = none := by
  induction nodes generalizing seen with
  | nil => rfl
  | cons node nodes ih =>
      rw [List.map_cons, List.nodup_cons] at hnodup
      rw [List.forall_mem_cons] at hpos hnew
      have hgood : ¬(node.id ≤ rootZone ∨ node.id ∈ seen) :=
        not_or.2 ⟨Int.not_le_of_gt hpos.1, hnew.1⟩
      unfold badNode?
      rw [if_neg hgood]
      refine ih hpos.2 hnodup.2 fun other hother => ?_
      rw [List.mem_cons, not_or]
      refine ⟨fun heq => hnodup.1 ?_, hnew.2 other hother⟩
      exact heq ▸ List.mem_map_of_mem hother

/-- Nodes that fit a name can be put to it. -/
theorem resolve_total (h : NodesFit name.labels.length nodes) :
    ∃ resolved, name.resolve nodes = .ok resolved := by
  have hgood : badNode? [] nodes = none := badNode?_eq_none h.2.1 h.2.2 fun _ _ => List.not_mem_nil
  unfold resolve
  rw [dif_pos h.1]
  split
  · rename_i id hbad
    rw [hgood] at hbad
    cases hbad
  · exact ⟨_, rfl⟩

/-! ## What the name is then -/

theorem labels_of_resolve (h : name.resolve nodes = .ok resolved) :
    resolved.labels = name.labels ∧ resolved.form = .resolved nodes := by
  unfold resolve at h
  split at h
  · split at h
    · cases h
    · cases h
      exact ⟨rfl, rfl⟩
  · cases h

theorem nodes_of_form (h : resolved.form = .resolved nodes) : resolved.nodes = nodes := by
  unfold Name.nodes
  rw [h]

theorem length_nodes_le (h : name.resolve nodes = .ok resolved) :
    nodes.length ≤ name.labels.length := by
  rcases labels_of_resolve h with ⟨hlabels, hform⟩
  have hfit := resolved.nodes_fit.1
  rwa [nodes_of_form hform, hlabels] at hfit

/-- A name with a node for every label is fully resolved. -/
theorem isFullyResolved_of_form (h : resolved.form = .resolved nodes)
    (hlength : nodes.length = resolved.labels.length) : resolved.isFullyResolved = true := by
  unfold isFullyResolved isResolved resolvedCount
  rw [nodes_of_form h, h, hlength, beq_self_eq_true, Bool.and_self]

/-- A name that was given nodes is given them again. -/
theorem resolve_again (h : name.resolve nodes = .ok resolved) :
    resolved.resolve nodes = .ok resolved := by
  rcases labels_of_resolve h with ⟨-, hform⟩
  have hfit : NodesFit resolved.labels.length nodes := by
    have hfit := resolved.nodes_fit
    rwa [nodes_of_form hform] at hfit
  rcases resolve_total hfit with ⟨again, hagain⟩
  rcases labels_of_resolve hagain with ⟨hlabels, hform'⟩
  rw [hagain, Name.ext hlabels (hform'.trans hform.symm)]

/-! ## The name above -/

theorem parent?_of_cons {label : Label} {labels : List Label} (h : name.labels = label :: labels) :
    ∃ up, name.parent? = some up ∧ up.labels = labels ∧
      up.form = name.form.parent labels.length := by
  rcases name with ⟨all, form, hsize, hfits⟩
  cases h
  exact ⟨_, rfl, rfl, rfl⟩

theorem parent?_of_nil (h : name.labels = []) : name.parent? = none := by
  rcases name with ⟨all, form, hsize, hfits⟩
  cases h
  rfl

end Name
end NameServer
