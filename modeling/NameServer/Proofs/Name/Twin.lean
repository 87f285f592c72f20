import NameServer.Name.Ancestors
import NameServer.Proofs.Name.Spelling
import NameServer.Proofs.Outcome

/-!
# Proofs.Name.Twin — one name in two spellings

When a question comes in another spelling, the names that are cut from it do too.

* `Name.Twin key m m'` — `m` and `m'` have the same form and differ in ASCII case at most, and their
  folded labels are the last ones of `key`;
* everything that the server asks of a name is the same for twins, and what it cuts from them are
  twins again: `Name.Twin.toPlain`, `Name.Twin.resolvedPart`, `Name.Twin.ancestors`.
-/

namespace NameServer
namespace Name

/-- Two spellings of a name that ends a name with the folded labels `key`. -/
structure Twin (key : List (List UInt8)) (m m' : Name) : Prop where
  form : m.form = m'.form
  folded : m.folded = m'.folded
  suffix : m.folded <:+ key

variable {key : List (List UInt8)} {m m' : Name}

/-- The bytes of labels without ASCII case are those of the folded labels. -/
theorem map_foldByte_labelWire {xs ys : List Label}
    (h : xs.map Label.folded = ys.map Label.folded) :
    (xs.flatMap labelWire).map foldByte = (ys.flatMap labelWire).map foldByte := by
  have hsame := Label.map_folded_eq.1 h
  clear h
  induction hsame with
  | nil => rfl
  | @cons x y xs ys hfirst _ ih =>
      have hwire : (labelWire x).map foldByte = (labelWire y).map foldByte := by
        have hfolded : x.bytes.map foldByte = y.bytes.map foldByte := hfirst
        simp only [labelWire, List.map_cons, hfolded, hfirst.size_eq]
      rw [List.flatMap_cons, List.flatMap_cons, List.map_append, List.map_append, hwire, ih]

namespace Twin

/-! ## What is the same -/

theorem length_labels (h : Twin key m m') : m.labels.length = m'.labels.length := by
  have hlength := congrArg List.length h.folded
  simpa [Name.folded] using hlength

theorem nodes (h : Twin key m m') : m.nodes = m'.nodes := by
  unfold Name.nodes
  rw [h.form]

theorem isResolved (h : Twin key m m') : m.isResolved = m'.isResolved := by
  unfold Name.isResolved
  rw [h.form]

theorem resolvedCount (h : Twin key m m') : m.resolvedCount = m'.resolvedCount := by
  unfold Name.resolvedCount
  rw [h.nodes]

theorem isFullyResolved (h : Twin key m m') : m.isFullyResolved = m'.isFullyResolved := by
  unfold Name.isFullyResolved
  rw [h.isResolved, h.resolvedCount, h.length_labels]

theorem zoneId (h : Twin key m m') : m.zoneId = m'.zoneId := by
  unfold Name.zoneId
  rw [h.nodes]

theorem isStar (h : Twin key m m') : m.isStar = m'.isStar := by
  unfold Name.isStar
  rw [h.nodes]

theorem literal (h : Twin key m m') :
    m.literal.map Label.folded = m'.literal.map Label.folded := by
  have hcount : m.compressedCount = m'.compressedCount := by
    unfold compressedCount
    rw [h.form]
  unfold Name.literal
  rw [List.map_take, List.map_take, h.length_labels, hcount]
  exact congrArg _ h.folded

theorem wire (h : Twin key m m') : m.wire.map foldByte = m'.wire.map foldByte := by
  unfold Name.wire
  rw [List.map_append, List.map_append, map_foldByte_labelWire h.literal, h.form]

theorem size (h : Twin key m m') : m.size = m'.size := by
  have hlength := congrArg List.length h.wire
  simpa [length_wire] using hlength

/-! ## What is cut -/

theorem toPlain (h : Twin key m m') : Twin key m.toPlain m'.toPlain :=
  ⟨rfl, h.folded, h.suffix⟩

theorem resolvedPart (h : Twin key m m') : Twin key m.resolvedPart m'.resolvedPart := by
  have hcut : m.resolvedPart.folded = m.folded.drop (m.labels.length - m.resolvedCount) := by
    simp [Name.resolvedPart, Name.folded]
  have hcut' : m'.resolvedPart.folded = m'.folded.drop (m'.labels.length - m'.resolvedCount) := by
    simp [Name.resolvedPart, Name.folded]
  refine ⟨?_, ?_, ?_⟩
  · exact congrArg Form.resolved h.nodes
  · rw [hcut, hcut', h.folded, h.length_labels, h.resolvedCount]
  · rw [hcut]
    exact (List.drop_suffix _ _).trans h.suffix

theorem parent? (h : Twin key m m') :
    (m.parent? = none ∧ m'.parent? = none) ∨
      ∃ up up', m.parent? = some up ∧ m'.parent? = some up' ∧ Twin key up up' := by
  rcases m with ⟨labels, form, size_le, fits⟩
  rcases m' with ⟨labels', form', size_le', fits'⟩
  rcases h with ⟨hform, hfolded, hsuffix⟩
  simp only [Name.folded] at hform hfolded hsuffix
  cases labels with
  | nil =>
      cases labels' with
      | nil => exact Or.inl ⟨rfl, rfl⟩
      | cons label' labels' => cases hfolded
  | cons label labels =>
      cases labels' with
      | nil => cases hfolded
      | cons label' labels' =>
          rw [List.map_cons, List.map_cons, List.cons.injEq] at hfolded
          have hlength : labels.length = labels'.length := by
            simpa using congrArg List.length hfolded.2
          refine Or.inr ⟨_, _, rfl, rfl, ?_, hfolded.2, ?_⟩
          · simp only [hform, hlength]
          · exact (List.suffix_cons _ _).trans hsuffix

/-- Twins climb through the same nodes. -/
theorem climb (h : Twin key m m') (steps : Nat) :
    List.Forall₂ (fun level level' => Twin key level.1 level'.1 ∧ level.2 = level'.2)
      (Name.climb steps m) (Name.climb steps m') := by
  -- Each step up drops the first label of both, which leaves twins that are one label shorter.
  induction steps generalizing m m' with
  | zero => exact List.Forall₂.nil
  | succ steps ih =>
      unfold Name.climb
      rcases h.parent? with ⟨hnone, hnone'⟩ | ⟨up, up', hup, hup', hparent⟩
      · rw [hnone, hnone']
        exact List.Forall₂.nil
      · rw [hup, hup']
        exact List.Forall₂.cons ⟨h, h.zoneId⟩ (ih hparent)

theorem ancestors (h : Twin key m m') :
    List.Forall₂ (fun level level' => Twin key level.1 level'.1 ∧ level.2 = level'.2)
      m.ancestors m'.ancestors := by
  unfold Name.ancestors
  rw [← h.resolvedCount]
  exact h.resolvedPart.climb _

end Twin

/-- Two spellings of a name are given the same nodes, or are refused for the same reason. -/
theorem resolve_twin (h : m.folded = m'.folded) (nodes : List ZoneNode) :
    Agree (Twin m.folded) (m.resolve nodes) (m'.resolve nodes) := by
  have hlength : m.labels.length = m'.labels.length := by
    simpa [Name.folded] using congrArg List.length h
  unfold Name.resolve
  by_cases hlen : nodes.length ≤ m.labels.length
  · rw [dif_pos hlen, dif_pos (hlength ▸ hlen)]
    split
    · rfl
    · exact ⟨rfl, h, List.suffix_refl _⟩
  · rw [dif_neg hlen, dif_neg (hlength ▸ hlen), hlength]
    rfl

end Name
end NameServer
