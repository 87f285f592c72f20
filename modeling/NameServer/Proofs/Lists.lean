import Mathlib.Data.List.Forall2
import Mathlib.Data.List.TakeWhile
import NameServer.Proofs.Outcome

/-!
# Proofs.Lists — lists, element by element

What is done for each element of a list, and lists whose elements go with each other.

* `forall₂_of_mapM`, `mapM_of_forall₂` — a step for each element yields a list exactly when each
  element yields its own;
* `mapM_congr`, `succeeds_mapM`, `Agree.mapM` — what is known of each step is known of all of them;
* `exists_of_mem_right`, `forall₂_join`, `eq_of_forall₂` — elements that go with each other;
* `map_mapIdx`, `perm_flatMap_filter` — lists that are changed by position or sorted by a key.
-/

namespace NameServer

variable {α β γ δ ε : Type} {xs : List α} {ys : List β}

/-! ## A step for each element -/

section Steps

variable {f g : α → Except ε β}

theorem forall₂_of_mapM (h : xs.mapM f = .ok ys) :
    List.Forall₂ (fun x y => f x = .ok y) xs ys := by
  induction xs generalizing ys with
  | nil =>
      cases h
      exact List.Forall₂.nil
  | cons x xs ih =>
      rw [List.mapM_cons] at h
      rcases exists_of_bind h with ⟨y, hy, hrest⟩
      rcases exists_of_bind hrest with ⟨rest, hxs, hys⟩
      cases hys
      exact List.Forall₂.cons hy (ih hxs)

theorem mapM_of_forall₂ (h : List.Forall₂ (fun x y => f x = .ok y) xs ys) :
    xs.mapM f = .ok ys := by
  induction h with
  | nil => rfl
  | cons hfirst _ ih =>
      rw [List.mapM_cons, hfirst, ok_bind, ih]
      rfl

theorem mapM_congr (h : ∀ x ∈ xs, f x = g x) : xs.mapM f = xs.mapM g := by
  induction xs with
  | nil => rfl
  | cons x xs ih =>
      rw [List.forall_mem_cons] at h
      rw [List.mapM_cons, List.mapM_cons, h.1, ih h.2]

theorem succeeds_mapM (h : ∀ x ∈ xs, Succeeds (f x)) : Succeeds (xs.mapM f) := by
  induction xs with
  | nil => exact Succeeds.ok []
  | cons x xs ih =>
      rw [List.forall_mem_cons] at h
      rw [List.mapM_cons]
      exact h.1.bind fun _ => (ih h.2).bind fun _ => Succeeds.ok _

end Steps

/-- What is done for each of some values agrees when each step does. -/
theorem Agree.mapM {R : α → β → Prop} {S : γ → δ → Prop} {f : α → Except ε γ}
    {g : β → Except ε δ} (h : List.Forall₂ R xs ys)
    (hstep : ∀ x y, R x y → Agree S (f x) (g y)) :
    Agree (List.Forall₂ S) (xs.mapM f) (ys.mapM g) := by
  induction h with
  | nil => exact List.Forall₂.nil
  | cons hfirst _ ih =>
      rw [List.mapM_cons, List.mapM_cons]
      refine (hstep _ _ hfirst).bind fun _ _ hvalue => ih.bind fun _ _ hvalues => ?_
      exact List.Forall₂.cons hvalue hvalues

/-! ## Elements that go with each other -/

theorem exists_of_mem_right {R : α → β → Prop} {y : β} (h : List.Forall₂ R xs ys) (hy : y ∈ ys) :
    ∃ x ∈ xs, R x y := by
  induction h with
  | nil => cases hy
  | cons hfirst _ ih =>
      rcases List.mem_cons.1 hy with rfl | hmem
      · exact ⟨_, List.mem_cons_self, hfirst⟩
      · rcases ih hmem with ⟨x, hx, hR⟩
        exact ⟨x, List.mem_cons_of_mem _ hx, hR⟩

/-- What goes with the same values goes with each other. -/
theorem forall₂_join {R : α → γ → Prop} {S : β → γ → Prop} {zs : List γ}
    (h : List.Forall₂ R xs zs) (h' : List.Forall₂ S ys zs) :
    List.Forall₂ (fun x y => ∃ z, R x z ∧ S y z) xs ys := by
  induction h generalizing ys with
  | nil =>
      cases h'
      exact List.Forall₂.nil
  | cons hfirst _ ih =>
      cases h' with
      | cons hfirst' hrest' => exact List.Forall₂.cons ⟨_, hfirst, hfirst'⟩ (ih hrest')

theorem eq_of_forall₂ {R : α → α → Prop} {others : List α} (h : List.Forall₂ R xs others)
    (heq : ∀ x y, R x y → x = y) : xs = others := by
  have hequal := h.imp heq
  rwa [List.forall₂_eq_eq_eq] at hequal

/-! ## Positions and keys -/

/-- What is done to each element by its position may be done before or behind a change of all. -/
theorem map_mapIdx {f : α → β} {g : Nat → α → α} {g' : Nat → β → β}
    (h : ∀ i x, f (g i x) = g' i (f x)) (xs : List α) :
    (xs.mapIdx g).map f = (xs.map f).mapIdx g' := by
  refine List.ext_getElem? fun i => ?_
  rw [List.getElem?_map, List.getElem?_mapIdx, List.getElem?_mapIdx, List.getElem?_map,
    Option.map_map, Option.map_map]
  exact congrArg (xs[i]?.map ·) (funext (h i))

/-- What is sorted by a key and put together again is the same but for its order. -/
theorem perm_flatMap_filter {κ : Type} [DecidableEq κ] (key : α → κ) {keys : List κ}
    (hkeys : keys.Nodup) (hcover : ∀ x ∈ xs, key x ∈ keys) :
    (keys.flatMap fun k => xs.filter fun x => key x = k).Perm xs := by
  induction keys generalizing xs with
  | nil =>
      rw [List.eq_nil_iff_forall_not_mem.2 fun x hx => List.not_mem_nil (hcover x hx)]
      exact List.Perm.nil
  | cons first keys ih =>
      rw [List.nodup_cons] at hkeys
      -- Nothing with the first key has one of the others.
      have hothers : ∀ k ∈ keys, (xs.filter fun x => key x = k) =
          (xs.filter fun x => !decide (key x = first)).filter fun x => key x = k := by
        intro k hk
        rw [List.filter_filter]
        refine List.filter_congr fun x _ => ?_
        by_cases hkey : key x = k
        · have hne : key x ≠ first := fun heq => hkeys.1 (heq ▸ hkey ▸ hk)
          simp [hkey, hkey ▸ hne]
        · simp [hkey]
      rw [List.flatMap_cons, List.flatMap_congr hothers]
      refine ((ih hkeys.2 fun x hx => ?_).append_left _).trans (List.filter_append_perm _ xs)
      rcases List.mem_filter.1 hx with ⟨hmem, hne⟩
      refine (List.mem_cons.1 (hcover x hmem)).resolve_left ?_
      simpa using hne

end NameServer
