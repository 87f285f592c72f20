import NameServer.Proofs.Name.Twin
import NameServer.Zone.ReadOnly
import NameServer.Zone.Tree
import NameServer.Zone.Unprepared

/-!
# Proofs.Zone.CaseBlind — stores do not see ASCII case

Every store looks labels up by their folded bytes, so it gives two spellings of a name the same
nodes or refuses both for the same reason.
-/

namespace NameServer
namespace Zone

open Name (Twin)

/-- The store resolves two spellings of a name alike. -/
def CaseBlind (σ : Type) [Store σ] : Prop :=
  ∀ (store : σ) (m m' : Name), m.folded = m'.folded →
    Agree (Twin m.folded) (Store.resolve store m) (Store.resolve store m')

variable {xs ys : List Label}

namespace Tree

theorem walk_congr (tree : Tree) (parent : ZoneId) (h : List.Forall₂ Label.SameAs xs ys) :
    tree.walk parent xs = tree.walk parent ys := by
  induction h generalizing parent with
  | nil => rfl
  | @cons x y xs ys hfirst _ ih =>
      have hchild : tree.child? parent x = tree.child? parent y := by
        unfold child?
        rw [hfirst]
      unfold walk
      rw [hchild]
      cases tree.child? parent y with
      | none => rfl
      | some id => exact congrArg _ (ih id)

theorem caseBlind : CaseBlind Tree := by
  intro tree m m' h
  -- A zone is looked up from the root down, so the labels are walked in reverse.
  have hwalk := tree.walk_congr rootZone (List.rel_reverse (Label.map_folded_eq.1 h))
  change Agree _ (tree.resolve m) (tree.resolve m')
  unfold resolve
  rw [hwalk]
  exact (Name.resolve_twin h _).mapError _

end Tree

namespace Relations

theorem labelKey_congr {x y : Label} (h : x.folded = y.folded) : labelKey x = labelKey y := by
  unfold labelKey
  rw [h, Label.SameAs.size_eq h]

theorem walk_congr (rows : Relations) (parent : ZoneId) (h : List.Forall₂ Label.SameAs xs ys) :
    rows.walk parent xs = rows.walk parent ys := by
  induction h generalizing parent with
  | nil => rfl
  | @cons x y xs ys hfirst _ ih =>
      have hchild : rows.child? parent x = rows.child? parent y := by
        unfold child?
        rw [labelKey_congr hfirst]
      unfold walk
      rw [hchild]
      cases rows.child? parent y with
      | none => rfl
      | some row => exact congrArg _ (ih row.id)

theorem caseBlind : CaseBlind Relations := by
  intro rows m m' h
  have hwalk := rows.walk_congr rootZone (List.rel_reverse (Label.map_folded_eq.1 h))
  change Agree _ (rows.resolve m) (rows.resolve m')
  unfold resolve
  rw [hwalk]
  exact (Name.resolve_twin h _).mapError _

end Relations

theorem ReadOnly.caseBlind : CaseBlind ReadOnly :=
  fun store m m' h => Relations.caseBlind store.rows m m' h

theorem Unprepared.caseBlind : CaseBlind Unprepared := by
  intro _ m m' h
  change Agree _ (Unprepared.resolve m) (Unprepared.resolve m')
  have hroot : m.isRoot = m'.isRoot := by
    have hempty := congrArg List.isEmpty h
    simpa [Name.folded, Name.isRoot] using hempty
  unfold Unprepared.resolve
  rw [← hroot]
  split
  · exact (Name.resolve_twin h []).mapError _
  · rfl

end Zone
end NameServer
