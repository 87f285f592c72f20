/-!
# Proofs.Firsts — lists without repetitions

Lists are built up by pushing elements behind others, unless one is there already that counts as the
same. What remains of a list is told by the list itself: each element that has none in front of it
that is the same.

* `firsts` — these elements;
* `pairwise_firsts`, `exists_first` — no two of them are the same, and every element is the same as
  one of them;
* `foldl_push` — pushing a list behind another leaves the other and those of its first elements that
  are new.
-/

namespace NameServer

variable {α : Type} (same : α → α → Prop) [DecidableRel same] {x y : α} {xs : List α}

/-- The elements of a list that are not the same as one in front of them. -/
def firsts : List α → List α
  | [] => []
  | x :: xs => x :: (firsts xs).filter fun y => ¬same x y

theorem firsts_sublist (xs : List α) : (firsts same xs).Sublist xs := by
  induction xs with
  | nil => exact List.Sublist.refl _
  | cons x xs ih => exact (List.filter_sublist.trans ih).cons_cons x

/-- No first element is the same as one in front of it. -/
theorem pairwise_firsts (xs : List α) : (firsts same xs).Pairwise fun x y => ¬same x y := by
  induction xs with
  | nil => exact List.Pairwise.nil
  | cons x xs ih =>
      refine List.Pairwise.cons ?_ (ih.sublist List.filter_sublist)
      intro y hy
      exact of_decide_eq_true (List.mem_filter.1 hy).2

/-- Every element is the same as a first one. -/
theorem exists_first (hrefl : ∀ x, same x x)
    (htrans : ∀ {x y z}, same x y → same y z → same x z) (hy : y ∈ xs) :
    ∃ x ∈ firsts same xs, same x y := by
  induction xs with
  | nil => cases hy
  | cons x xs ih =>
      rcases List.mem_cons.1 hy with rfl | hmem
      · exact ⟨y, List.mem_cons_self, hrefl y⟩
      · rcases ih hmem with ⟨z, hz, hsame⟩
        -- What was left out because of `x` is the same as `x` itself.
        by_cases hx : same x z
        · exact ⟨x, List.mem_cons_self, htrans hx hsame⟩
        · exact ⟨z, List.mem_cons_of_mem _ (List.mem_filter.2 ⟨hz, decide_eq_true hx⟩), hsame⟩

/-- Pushed behind others are the first elements that are not there already. -/
theorem foldl_push (htrans : ∀ {x y z}, same x y → same y z → same x z) (start xs : List α) :
    xs.foldl (fun kept x => if kept.any fun y => same y x then kept else kept ++ [x]) start =
      start ++ (firsts same xs).filter fun x => !start.any fun y => same y x := by
  induction xs generalizing start with
  | nil => exact (List.append_nil start).symm
  | cons x xs ih =>
      rw [List.foldl_cons, ih, firsts]
      by_cases hthere : (start.any fun y => same y x) = true
      · -- What is the same as `x` is the same as the element that `x` is the same as.
        have hcovered : ∀ z, (!start.any fun y => same y z) = true → ¬same x z := by
          intro z hnew hsame
          rcases List.any_eq_true.1 hthere with ⟨y, hy, hyx⟩
          rw [Bool.not_eq_true', List.any_eq_false] at hnew
          exact hnew y hy (decide_eq_true (htrans (of_decide_eq_true hyx) hsame))
        rw [if_pos hthere, List.filter_cons_of_neg (by simp [hthere]), List.filter_filter]
        congr 1
        apply List.filter_congr
        intro z _
        by_cases hnew : (!start.any fun y => same y z) = true
        · simp [hnew, hcovered z hnew]
        · simp [eq_false_of_ne_true hnew]
      · rw [if_neg hthere, List.filter_cons_of_pos (by simpa using hthere), List.filter_filter,
          List.append_assoc, List.singleton_append]
        congr 2
        apply List.filter_congr
        intro z _
        simp

end NameServer
