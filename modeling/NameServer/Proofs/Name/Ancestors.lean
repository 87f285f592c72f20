import NameServer.Name.Ancestors
import NameServer.Proofs.Name.Resolution

/-!
# Proofs.Name.Ancestors — climbing from a name to the root

Labels are kept with the most specific one first and nodes with the one next to the root first. So a
step up takes a label off in front and, when there are more nodes than labels left, a node at the
end; what stays together are the last labels and the first nodes.

* `Name.Tail` — the last labels of a name with the nodes that belong to them;
* `Name.Tail.tells` — zone, wildcard mark and resolution of a tail are those of its nodes;
* `Name.Tail.parent?`, `Name.Tail.up?` — steps up lead from tail to tail;
* `Name.Tail.climbs` — a climb passes the tails that have a node for each label, the deepest first;
* `Name.Ascent`, `Name.Tail.answer` — the climb call by call yields the same, and then nothing;
* `Name.climbing` — all this for a name that was just given its nodes.
-/

namespace NameServer
namespace Name

variable {name resolved tail : Name} {nodes : List ZoneNode} {count : Nat}

/-! ## Tails -/

/-- The last `count` labels of a name, with those of `nodes` that belong to them. -/
structure Tail (name : Name) (nodes : List ZoneNode) (count : Nat) (tail : Name) : Prop where
  le : count ≤ name.labels.length
  labels : tail.labels = name.labels.drop (name.labels.length - count)
  form : tail.form = .resolved (nodes.take count)

/-- What a name of `count` labels says of its zone when `nodes` are its nodes. -/
structure Tells (name : Name) (count : Nat) (nodes : List ZoneNode) : Prop where
  zoneId : name.zoneId = (nodes.getLast?.map ZoneNode.id).getD rootZone
  isStar : name.isStar = true ↔ ∃ node ∈ nodes.getLast?, node.wildcard = true
  isFullyResolved : name.isFullyResolved = true ↔ nodes.length = count

namespace Tail

/-- A name with nodes is the longest of its tails. -/
theorem of_form (hlabels : resolved.labels = name.labels) (hform : resolved.form = .resolved nodes)
    (hnodes : nodes.length ≤ name.labels.length) :
    name.Tail nodes name.labels.length resolved := by
  refine ⟨Nat.le_refl _, ?_, ?_⟩
  · rw [hlabels, Nat.sub_self, List.drop_zero]
  · rw [hform, List.take_of_length_le hnodes]

theorem length_labels (h : name.Tail nodes count tail) : tail.labels.length = count := by
  have hle := h.le
  rw [h.labels, List.length_drop]
  omega

theorem nodes_eq (h : name.Tail nodes count tail) : tail.nodes = nodes.take count :=
  nodes_of_form h.form

theorem tells (h : name.Tail nodes count tail) : tail.Tells count (nodes.take count) := by
  refine ⟨?_, ?_, ?_⟩
  · unfold Name.zoneId
    rw [h.nodes_eq]
    cases (nodes.take count).getLast? <;> rfl
  · unfold Name.isStar
    rw [h.nodes_eq]
    cases (nodes.take count).getLast? <;> simp
  · unfold Name.isFullyResolved Name.isResolved Name.resolvedCount
    rw [h.form, h.nodes_eq, h.length_labels, Bool.true_and, beq_iff_eq]

/-- A tail that does not go beyond the nodes has one for each label, and the last is its zone. -/
theorem deepest (h : name.Tail nodes (count + 1) tail) (hnodes : count < nodes.length) :
    tail.isFullyResolved = true ∧ ∃ node, nodes[count]? = some node ∧ tail.zoneId = node.id := by
  have hlength : (nodes.take (count + 1)).length = count + 1 := List.length_take_of_le hnodes
  have hnode : nodes[count]? = some nodes[count] := List.getElem?_eq_getElem hnodes
  have hlast : (nodes.take (count + 1)).getLast? = some nodes[count] :=
    calc
      (nodes.take (count + 1)).getLast? = (nodes.take (count + 1))[count]? := by
        rw [List.getLast?_eq_getElem?, hlength, Nat.add_sub_cancel]
      _ = nodes[count]? := List.getElem?_take_of_lt (Nat.lt_succ_self _)
      _ = some nodes[count] := hnode
  refine ⟨h.tells.isFullyResolved.2 hlength, nodes[count], hnode, ?_⟩
  rw [h.tells.zoneId, hlast]
  rfl

/-- Cut down to the labels that have nodes, a name is the tail with as many labels as nodes. -/
theorem resolvedPart (h : name.Tail nodes name.labels.length resolved)
    (hnodes : nodes.length ≤ name.labels.length) :
    name.Tail nodes nodes.length resolved.resolvedPart := by
  have hall : resolved.nodes = nodes := by rw [h.nodes_eq, List.take_of_length_le hnodes]
  refine ⟨hnodes, ?_, ?_⟩
  · show resolved.labels.drop (resolved.labels.length - resolved.nodes.length) = _
    rw [hall, h.length_labels, h.labels, Nat.sub_self, List.drop_zero]
  · show Form.resolved resolved.nodes = _
    rw [hall, List.take_length]

/-! ## Steps up -/

/-- Above a tail is the tail with one label less. -/
theorem parent? (h : name.Tail nodes (count + 1) tail) :
    ∃ up, tail.parent? = some up ∧ name.Tail nodes count up := by
  have hle := h.le
  have hlength := h.length_labels
  cases htail : tail.labels with
  | nil =>
      rw [htail] at hlength
      cases hlength
  | cons label labels =>
      rcases parent?_of_cons htail with ⟨up, hup, hlabels, hform⟩
      have hcount : labels.length = count := by simpa [htail] using hlength
      refine ⟨up, hup, by omega, ?_, ?_⟩
      · -- What is behind the first label of a tail starts one label later in the name.
        have hdrop := congrArg List.tail (htail.symm.trans h.labels)
        rw [List.tail_cons, List.tail_drop] at hdrop
        rw [hlabels, hdrop]
        congr 1
        omega
      · rw [hform, h.form, hcount, Form.parent, List.take_take, Nat.min_eq_left (Nat.le_succ _)]

theorem parent?_zero (h : name.Tail nodes 0 tail) : tail.parent? = none :=
  parent?_of_nil (List.length_eq_zero_iff.1 h.length_labels)

end Tail

/-- The name so many steps up, as long as there is one. -/
def up? (name : Name) : Nat → Option Name
  | 0 => some name
  | steps + 1 => name.parent?.bind fun up => up.up? steps

/-- Each step up takes one label, and there are as many steps as labels. -/
theorem Tail.up? (h : name.Tail nodes count tail) (steps : Nat) :
    (steps ≤ count → ∃ up, tail.up? steps = some up ∧ name.Tail nodes (count - steps) up) ∧
      (count < steps → tail.up? steps = none) := by
  -- By induction on the steps: the first one leads to a tail, from which the others start.
  induction steps generalizing count tail with
  | zero => exact ⟨fun _ => ⟨tail, rfl, h⟩, fun hlt => absurd hlt (Nat.not_lt_zero _)⟩
  | succ steps ih =>
      cases count with
      | zero =>
          refine ⟨fun hle => absurd hle (Nat.not_succ_le_zero _), fun _ => ?_⟩
          rw [Name.up?, h.parent?_zero, Option.bind_none]
      | succ count =>
          rcases h.parent? with ⟨up, hup, htail⟩
          rw [Name.up?, hup, Option.bind_some, Nat.succ_le_succ_iff, Nat.succ_lt_succ_iff,
            Nat.add_sub_add_right]
          exact ih htail

/-! ## Levels -/

/-- The levels are the tails of a name with `count` labels, with one label less and so on to the last
label, each with a node for every label and beside the number of its deepest node. -/
inductive Climbs (name : Name) (nodes : List ZoneNode) : Nat → List (Name × ZoneId) → Prop
  | root : Climbs name nodes 0 []
  | node {count : Nat} {tail : Name} {node : ZoneNode} {levels : List (Name × ZoneId)} :
      name.Tail nodes (count + 1) tail → tail.isFullyResolved = true →
        nodes[count]? = some node → Climbs name nodes count levels →
        Climbs name nodes (count + 1) ((tail, node.id) :: levels)

theorem Tail.climbs (h : name.Tail nodes count tail) (hnodes : count ≤ nodes.length) :
    name.Climbs nodes count (climb count tail) := by
  -- By induction on the labels: what is climbed behind the first level is climbed from the parent.
  induction count generalizing tail with
  | zero => exact .root
  | succ count ih =>
      rcases h.parent? with ⟨up, hup, htail⟩
      rcases h.deepest hnodes with ⟨hfull, node, hnode, hzone⟩
      rw [climb, hup, hzone]
      exact .node h hfull hnode (ih htail (Nat.le_of_succ_le hnodes))

/-! ## Climbing call by call -/

/-- A climb under way: the name that comes next, until the climb has ended. -/
structure Ascent where
  current : Option Name

/-- The climb from the deepest node of a name. -/
def ascent (name : Name) : Ascent :=
  ⟨some name.resolvedPart⟩

namespace Ascent

/-- One call: the level that it yields, if any, and the climb after it. -/
def next (ascent : Ascent) : Option (Name × ZoneId) × Ascent :=
  match ascent.current with
  | none => (none, ⟨none⟩)
  | some name =>
    if name.isRoot || name.resolvedCount == 0 then (none, ⟨none⟩)
    else (some (name, name.zoneId), ⟨name.parent?⟩)

/-- What a call yields after so many others. -/
def answer (ascent : Ascent) : Nat → Option (Name × ZoneId)
  | 0 => ascent.next.1
  | calls + 1 => ascent.next.2.answer calls

theorem answer_ended (calls : Nat) : (⟨none⟩ : Ascent).answer calls = none := by
  induction calls with
  | zero => rfl
  | succ calls ih => exact ih

end Ascent

namespace Tail

/-- At the root a climb ends for good. -/
theorem answer_zero (h : name.Tail nodes 0 tail) (calls : Nat) :
    (⟨some tail⟩ : Ascent).answer calls = none := by
  have hroot : tail.isRoot = true :=
    List.isEmpty_iff.2 (List.length_eq_zero_iff.1 h.length_labels)
  have hnext : (⟨some tail⟩ : Ascent).next = (none, ⟨none⟩) := by simp [Ascent.next, hroot]
  cases calls with
  | zero => rw [Ascent.answer, hnext]
  | succ calls => rw [Ascent.answer, hnext, Ascent.answer_ended]

theorem next_succ (h : name.Tail nodes (count + 1) tail) (hnodes : count < nodes.length) :
    (⟨some tail⟩ : Ascent).next = (some (tail, tail.zoneId), ⟨tail.parent?⟩) := by
  have hroot : tail.isRoot = false := by
    rw [isRoot, List.isEmpty_eq_false_iff, ← List.length_pos_iff, h.length_labels]
    exact Nat.succ_pos _
  have hcount : (tail.resolvedCount == 0) = false := by
    rw [resolvedCount, h.nodes_eq, List.length_take_of_le hnodes]
    rfl
  simp [Ascent.next, hroot, hcount]

/-- Calls yield the levels in turn, and nothing when there are none left. -/
theorem answer (h : name.Tail nodes count tail) (hnodes : count ≤ nodes.length) (calls : Nat) :
    (⟨some tail⟩ : Ascent).answer calls = (climb count tail)[calls]? := by
  -- The first call leaves the climb from the parent, which the later calls go on with.
  induction count generalizing tail calls with
  | zero => rw [h.answer_zero, climb, List.getElem?_nil]
  | succ count ih =>
      rcases h.parent? with ⟨up, hup, htail⟩
      rw [climb, hup]
      cases calls with
      | zero => rw [Ascent.answer, h.next_succ hnodes, List.getElem?_cons_zero]
      | succ calls =>
          rw [Ascent.answer, h.next_succ hnodes, hup, List.getElem?_cons_succ]
          exact ih htail (Nat.le_of_succ_le hnodes) calls

end Tail

/-! ## Names that were given nodes -/

/-- From a name with nodes a climb passes its tails with nodes, the deepest first, and yields them
call by call until it ends; and steps up pass all its tails, each of which tells of the zone that the
nodes of its own labels lead to. -/
theorem climbing (h : name.resolve nodes = .ok resolved) :
    (name.Climbs nodes nodes.length resolved.ancestors ∧
      ∀ calls, resolved.ascent.answer calls = resolved.ancestors[calls]?) ∧
    (∀ steps ≤ name.labels.length, ∃ up, resolved.up? steps = some up ∧
      name.Tail nodes (name.labels.length - steps) up ∧
      up.Tells (name.labels.length - steps) (nodes.take (name.labels.length - steps))) ∧
    ∀ steps, name.labels.length < steps → resolved.up? steps = none := by
  rcases labels_of_resolve h with ⟨hlabels, hform⟩
  have hall := Tail.of_form hlabels hform (length_nodes_le h)
  have hpart := hall.resolvedPart (length_nodes_le h)
  have hancestors : resolved.ancestors = climb nodes.length resolved.resolvedPart := by
    rw [ancestors, resolvedCount, nodes_of_form hform]
  refine ⟨⟨?_, fun calls => ?_⟩, fun steps hle => ?_, fun steps hlt => (hall.up? steps).2 hlt⟩
  · rw [hancestors]
    exact hpart.climbs (Nat.le_refl _)
  · rw [hancestors]
    exact hpart.answer (Nat.le_refl _) calls
  · rcases (hall.up? steps).1 hle with ⟨up, hup, htail⟩
    exact ⟨up, hup, htail, htail.tells⟩

/-- A name of three labels. -/
def ford : Name :=
  ⟨[⟨"ford", by decide, by decide, by decide⟩, ⟨"mere", by decide, by decide, by decide⟩,
    ⟨"isle", by decide, by decide, by decide⟩], .plain, by decide, trivial⟩

/-- With nodes for two of the three labels, the name two steps up has the first node alone, and it is
no wildcard although the second node is one. -/
theorem climbing_ford :
    let nodes : List ZoneNode := [⟨1, false⟩, ⟨2, true⟩]
    ∃ resolved, ford.resolve nodes = .ok resolved ∧
      (ford.Climbs nodes 2 resolved.ancestors ∧
        ∀ calls, resolved.ascent.answer calls = resolved.ancestors[calls]?) ∧
      (∃ up, resolved.up? 2 = some up ∧ ford.Tail nodes 1 up ∧ up.zoneId = 1 ∧
        up.isStar = false ∧ up.isFullyResolved = true) ∧
      resolved.up? 4 = none := by
  intro nodes
  have hfit : NodesFit ford.labels.length nodes := ⟨by decide, by decide, by decide⟩
  rcases resolve_total hfit with ⟨resolved, hresolve⟩
  rcases climbing hresolve with ⟨hlevels, hups, hnone⟩
  rcases hups 2 (by decide) with ⟨up, hup, htail, htells⟩
  refine ⟨resolved, hresolve, hlevels, ⟨up, hup, htail, htells.zoneId, ?_, ?_⟩, hnone 4 (by decide)⟩
  · rw [← Bool.not_eq_true, htells.isStar]
    rintro ⟨node, ⟨⟩, ⟨⟩⟩
  · exact htells.isFullyResolved.2 rfl

end Name
end NameServer
