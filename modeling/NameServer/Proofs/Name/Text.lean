import NameServer.Name.Basic

/-!
# Proofs.Name.Text — dotted text

The dotted text of a name has a dot after each label, and no label has one inside. So the text
spells the labels of the name and nothing else.

* `Text.splitOn_append` — pieces between separators;
* `Name.exists_dotted` — the pieces of the text are the labels;
* `Name.ofText_text` — reading the text of a name yields the plain name.
-/

namespace NameServer

/-! ## Pieces -/

/-- A piece without a separator is split off whole. -/
theorem Text.splitOn_append {α : Type} [DecidableEq α] {separator : α} {piece : List α}
    (h : separator ∉ piece) (rest : List α) :
    splitOn separator (piece ++ separator :: rest) = piece :: splitOn separator rest := by
  induction piece with
  | nil =>
      rw [List.nil_append, splitOn, if_pos rfl]
  | cons c piece ih =>
      rw [List.mem_cons, not_or] at h
      rw [List.cons_append, splitOn, if_neg (Ne.symm h.1), ih h.2]

theorem Text.splitOn_of_not_mem {α : Type} [DecidableEq α] {separator : α} {piece : List α}
    (h : separator ∉ piece) : splitOn separator piece = [piece] := by
  induction piece with
  | nil => rfl
  | cons c piece ih =>
      rw [List.mem_cons, not_or] at h
      rw [splitOn, if_neg (Ne.symm h.1), ih h.2]

/-! ## Dotted labels -/

theorem Label.toList_ne_nil (label : Label) : label.text.toList ≠ [] := by
  intro h
  have hpos := label.size_pos
  rw [String.toList_eq_nil_iff.1 h] at hpos
  exact Nat.lt_irrefl 0 hpos

namespace Name

variable {label : Label} {labels : List Label}

theorem dotted_cons (label : Label) (labels : List Label) :
    dotted (label :: labels) = label.text.toList ++ '.' :: dotted labels := by
  simp [dotted]

/-- The text of labels ends in a dot; what is in front of it has the labels for its pieces. -/
theorem exists_dotted (label : Label) (labels : List Label) :
    ∃ body, dotted (label :: labels) = body ++ ['.'] ∧ body ≠ [] ∧
      Text.splitOn '.' body = (label :: labels).map fun label => label.text.toList := by
  induction labels generalizing label with
  | nil =>
      refine ⟨label.text.toList, by simp [dotted], Label.toList_ne_nil label, ?_⟩
      exact Text.splitOn_of_not_mem label.noDot
  | cons other labels ih =>
      rcases ih other with ⟨body, hbody, -, hpieces⟩
      refine ⟨label.text.toList ++ '.' :: body, ?_, by simp, ?_⟩
      · rw [dotted_cons, hbody, List.append_assoc, List.cons_append]
      · rw [Text.splitOn_append label.noDot, hpieces]
        rfl

theorem mapM_ofText (labels : List Label) :
    (labels.map fun label => label.text.toList).mapM
      (fun piece => Label.ofText (String.ofList piece)) = .ok labels := by
  induction labels with
  | nil => rfl
  | cons label labels ih =>
      rw [List.map_cons, List.mapM_cons, String.ofList_toList, Label.ofText_text, ih]
      rfl

/-! ## Names -/

theorem toList_text_ne_nil (name : Name) : name.text.toList ≠ [] := by
  unfold text isRoot
  cases name.labels with
  | nil => decide
  | cons label labels =>
      rw [List.isEmpty_cons, if_neg Bool.false_ne_true, String.toList_ofList, dotted_cons]
      exact List.append_ne_nil_of_left_ne_nil (Label.toList_ne_nil label) _

/-- The text of a name is read as the name, without what it carries besides its labels. -/
theorem ofText_text (name : Name) : ofText name.text = .ok name.toPlain := by
  unfold text isRoot
  cases hlabels : name.labels with
  | nil =>
      rw [List.isEmpty_nil, if_pos rfl]
      unfold ofText
      rw [if_pos rfl]
      exact congrArg _ (Name.ext hlabels.symm rfl)
  | cons label labels =>
      rcases exists_dotted label labels with ⟨body, hbody, hne, hpieces⟩
      have hdot : String.ofList (dotted (label :: labels)) ≠ "." := by
        intro h
        have hlist := congrArg String.toList h
        rw [String.toList_ofList, hbody] at hlist
        exact hne (List.append_cancel_right (hlist.trans (List.nil_append ['.']).symm))
      have hdrop : withoutFinalDot (body ++ ['.']) = body := by
        unfold withoutFinalDot
        simp
      rw [List.isEmpty_cons, if_neg Bool.false_ne_true]
      unfold ofText
      rw [if_neg hdot, String.toList_ofList, hbody, hdrop]
      dsimp only
      rw [if_neg hne, hpieces, mapM_ofText, ← hlabels]
      change ofLabels name.labels = _
      unfold ofLabels
      rw [if_pos name.length_labels_le, dif_pos name.size_le]
      rfl

end Name
end NameServer
