/-!
# Proofs.Outcome — what a step that may fail yields

Four ways to say what becomes of a step, each with its rule for steps in sequence:

* `Succeeds x` — `x` is a value;
* `Gives post x` — if `x` is a value, it has `post`;
* `Yields e good post x` — `x` is a value with `post` when `good` holds, and the error `e` when not;
* `Agree R x y` — `x` and `y` are values related by `R`, or the same error.
-/

namespace NameServer

variable {ε α β γ δ : Type}

theorem ok_bind (a : α) (f : α → Except ε β) : (Except.ok a >>= f) = f a := rfl

theorem exists_of_bind {f : α → Except ε β} {b : β} (h : x >>= f = .ok b) :
    ∃ a, x = .ok a ∧ f a = .ok b := by
  cases x with
  | error e => cases h
  | ok a => exact ⟨a, rfl, h⟩

/-! ## One step -/

section Succeeds

/-- The step yields a value. -/
def Succeeds (x : Except ε α) : Prop :=
  ∃ a, x = .ok a

theorem Succeeds.ok (a : α) : Succeeds (.ok a : Except ε α) :=
  ⟨a, rfl⟩

theorem Succeeds.bind {x : Except ε α} {f : α → Except ε β} (hx : Succeeds x)
    (hf : ∀ a, Succeeds (f a)) : Succeeds (x >>= f) := by
  rcases hx with ⟨a, rfl⟩
  exact hf a

theorem Succeeds.ite {c : Prop} [Decidable c] {x y : Except ε α} (hx : Succeeds x)
    (hy : Succeeds y) : Succeeds (if c then x else y) := by
  by_cases hc : c
  · rw [if_pos hc]
    exact hx
  · rw [if_neg hc]
    exact hy

end Succeeds

section Gives

variable {post : α → Prop} {post' : β → Prop} {x y : Except ε α}

/-- Whatever value the step yields has `post`. -/
def Gives (post : α → Prop) (x : Except ε α) : Prop :=
  ∀ a, x = .ok a → post a

theorem Gives.ok {a : α} (h : post a) : Gives post (.ok a : Except ε α) := by
  intro b hb
  cases hb
  exact h

theorem Gives.bind {f : α → Except ε β} (hx : Gives post x)
    (hf : ∀ a, post a → Gives post' (f a)) : Gives post' (x >>= f) := by
  intro b hb
  rcases exists_of_bind hb with ⟨a, ha, hnext⟩
  exact hf a (hx a ha) b hnext

/-- Of the first step nothing has to be known. -/
theorem Gives.after {f : α → Except ε β} (hf : ∀ a, Gives post' (f a)) : Gives post' (x >>= f) := by
  intro b hb
  rcases exists_of_bind hb with ⟨a, -, hnext⟩
  exact hf a b hnext

theorem Gives.ite {c : Prop} [Decidable c] (hx : Gives post x) (hy : Gives post y) :
    Gives post (if c then x else y) := by
  by_cases hc : c
  · rw [if_pos hc]
    exact hx
  · rw [if_neg hc]
    exact hy

end Gives

section Yields

variable {e : ε} {good good' : Prop} {post : α → Prop} {post' : β → Prop}
variable {x : Except ε α}

/-- `x` is a value with `post` when `good` holds, and the error `e` when not. -/
def Yields (e : ε) (good : Prop) (post : α → Prop) (x : Except ε α) : Prop :=
  (good → ∃ a, x = .ok a ∧ post a) ∧ (¬good → x = .error e)

theorem Yields.ok {a : α} (h : post a) : Yields e True post (.ok a) :=
  ⟨fun _ => ⟨a, rfl, h⟩, fun hnot => absurd trivial hnot⟩

theorem Yields.bind {f : α → Except ε β} (hx : Yields e good post x)
    (hf : ∀ a, post a → Yields e good' post' (f a)) :
    Yields e (good ∧ good') post' (x >>= f) := by
  constructor
  · rintro ⟨hgood, hgood'⟩
    rcases hx.1 hgood with ⟨a, rfl, ha⟩
    exact (hf a ha).1 hgood'
  · intro hnot
    by_cases hgood : good
    · rcases hx.1 hgood with ⟨a, rfl, ha⟩
      exact (hf a ha).2 fun hgood' => hnot ⟨hgood, hgood'⟩
    · rw [hx.2 hgood]
      rfl

theorem Yields.imp {post' : α → Prop} (hx : Yields e good post x) (hgood : good ↔ good')
    (hpost : ∀ a, post a → post' a) : Yields e good' post' x := by
  constructor
  · intro h
    rcases hx.1 (hgood.2 h) with ⟨a, ha, hpa⟩
    exact ⟨a, ha, hpost a hpa⟩
  · intro h
    exact hx.2 fun h' => h (hgood.1 h')

/-- The value itself may be used for what is known of it. -/
theorem Yields.keep {post' : α → Prop} (hx : Yields e good post x)
    (hpost : ∀ a, x = .ok a → post a → post' a) : Yields e good post' x := by
  refine ⟨fun h => ?_, hx.2⟩
  rcases hx.1 h with ⟨a, ha, hpa⟩
  exact ⟨a, ha, hpost a ha hpa⟩

end Yields

/-! ## Two steps -/

section Agree

variable {R : α → β → Prop} {S : γ → δ → Prop} {x : Except ε α} {y : Except ε β}

/-- Both steps yield values, which are related by `R`, or both fail with the same error. -/
def Agree (R : α → β → Prop) : Except ε α → Except ε β → Prop
  | .ok a, .ok b => R a b
  | .error e, .error e' => e = e'
  | _, _ => False

theorem agree_iff : Agree R x y ↔
    (∃ e, x = .error e ∧ y = .error e) ∨ ∃ a b, x = .ok a ∧ y = .ok b ∧ R a b := by
  constructor
  · intro h
    cases x with
    | error e =>
        cases y with
        | error e' => exact Or.inl ⟨e, rfl, congrArg _ (Eq.symm h)⟩
        | ok b => exact h.elim
    | ok a =>
        cases y with
        | error e' => exact h.elim
        | ok b => exact Or.inr ⟨a, b, rfl, rfl, h⟩
  · rintro (⟨e, rfl, rfl⟩ | ⟨a, b, rfl, rfl, h⟩)
    · rfl
    · exact h

theorem Agree.refl {R : α → α → Prop} (h : ∀ a, R a a) (x : Except ε α) : Agree R x x := by
  cases x with
  | error e => rfl
  | ok a => exact h a

/-- Steps whose values are equal where they agree are equal. -/
theorem Agree.eq {R : α → α → Prop} {x y : Except ε α} (h : Agree R x y)
    (heq : ∀ a b, R a b → a = b) : x = y := by
  rcases agree_iff.1 h with ⟨e, rfl, rfl⟩ | ⟨a, b, rfl, rfl, hab⟩
  · rfl
  · rw [heq a b hab]

theorem Agree.bind {f : α → Except ε γ} {g : β → Except ε δ} (h : Agree R x y)
    (hnext : ∀ a b, R a b → Agree S (f a) (g b)) : Agree S (x >>= f) (y >>= g) := by
  rcases agree_iff.1 h with ⟨e, rfl, rfl⟩ | ⟨a, b, rfl, rfl, hab⟩
  · rfl
  · exact hnext a b hab

/-- Steps that begin alike agree when their continuations do. -/
theorem Agree.bind_same {f : α → Except ε γ} {g : α → Except ε δ} (x : Except ε α)
    (hnext : ∀ a, Agree S (f a) (g a)) : Agree S (x >>= f) (x >>= g) := by
  cases x with
  | error e => rfl
  | ok a => exact hnext a

theorem Agree.imp {R' : α → β → Prop} (h : Agree R x y) (himp : ∀ a b, R a b → R' a b) :
    Agree R' x y := by
  rcases agree_iff.1 h with ⟨e, rfl, rfl⟩ | ⟨a, b, rfl, rfl, hab⟩
  · rfl
  · exact himp a b hab

/-- The values themselves may be used for what is known of them. -/
theorem Agree.values (h : Agree R x y) :
    Agree (fun a b => R a b ∧ x = .ok a ∧ y = .ok b) x y := by
  rcases agree_iff.1 h with ⟨e, rfl, rfl⟩ | ⟨a, b, rfl, rfl, hab⟩
  · rfl
  · exact ⟨hab, rfl, rfl⟩

theorem Agree.exists_of_ok {a : α} (h : Agree R x y) (hx : x = .ok a) : ∃ b, y = .ok b ∧ R a b := by
  subst hx
  rcases agree_iff.1 h with ⟨e, herror, -⟩ | ⟨a', b, hvalue, rfl, hab⟩
  · cases herror
  · cases hvalue
    exact ⟨b, rfl, hab⟩

theorem Agree.map {f : α → γ} {g : β → δ} (h : Agree R x y)
    (hnext : ∀ a b, R a b → S (f a) (g b)) : Agree S (x.map f) (y.map g) := by
  rcases agree_iff.1 h with ⟨e, rfl, rfl⟩ | ⟨a, b, rfl, rfl, hab⟩
  · rfl
  · exact hnext a b hab

theorem Agree.mapError {η : Type} (f : ε → η) (h : Agree R x y) :
    Agree R (x.mapError f) (y.mapError f) := by
  rcases agree_iff.1 h with ⟨e, rfl, rfl⟩ | ⟨a, b, rfl, rfl, hab⟩
  · rfl
  · exact hab

end Agree

end NameServer
