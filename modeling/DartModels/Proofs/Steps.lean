import Mathlib.Data.List.Forall2

/-!
# Steps that may fail

How the outcome of a row of steps comes from the outcomes of the steps.

The program is written as steps of which each goes on with the result of the one
before it, and the first that fails is the end. What is known of an outcome is
therefore known of the steps: a result means that every step has one, and a
failure means that one of them fails.

## Theorems

* `Steps.bind_eq_ok_iff`, `Steps.bind_eq_error_iff`: Two steps.
* `Steps.mapM_eq_ok_iff`, `Steps.mapM_eq_error_iff`: A row of steps.
-/

namespace DartModels

namespace Steps

variable {ε α β : Type}

/-- Of two steps both succeed, the second with the result of the first. -/
theorem bind_eq_ok_iff {x : Except ε α} {f : α → Except ε β} {b : β} :
    x.bind f = .ok b ↔ ∃ a, x = .ok a ∧ f a = .ok b := by
  cases x <;> simp [Except.bind]

/-- Of two steps the first fails, or the second does with its result. -/
theorem bind_eq_error_iff {x : Except ε α} {f : α → Except ε β} :
    (∃ e, x.bind f = .error e) ↔ (∃ e, x = .error e) ∨ ∃ a, x = .ok a ∧ ∃ e, f a = .error e := by
  cases x <;> simp [Except.bind]

/-- What is done with a result cannot fail, so the step itself succeeded. -/
theorem map_eq_ok_iff {x : Except ε α} {f : α → β} {b : β} :
    x.map f = .ok b ↔ ∃ a, x = .ok a ∧ f a = b := by
  cases x <;> simp [Except.map]

/-- A step fails no matter what would be done with its result. -/
theorem map_eq_error_iff {x : Except ε α} {f : α → β} :
    (∃ e, x.map f = .error e) ↔ ∃ e, x = .error e := by
  cases x <;> simp [Except.map]

/-- A row of steps takes its first one first, and the others only if that succeeds. -/
theorem mapM_cons (f : α → Except ε β) (x : α) (rest : List α) :
    (x :: rest).mapM f = (f x).bind fun y => (rest.mapM f).map (y :: ·) := by
  rw [List.mapM_cons]
  cases f x with
  | error e => rfl
  | ok y => cases rest.mapM f <;> rfl

/-- A row of steps succeeds exactly if each of them does. -/
theorem mapM_eq_ok_iff {f : α → Except ε β} {xs : List α} {ys : List β} :
    xs.mapM f = .ok ys ↔ List.Forall₂ (fun x y => f x = .ok y) xs ys := by
  induction xs generalizing ys with
  | nil => cases ys <;> simp [pure, Except.pure]
  | cons x rest ih =>
      rw [mapM_cons, bind_eq_ok_iff]
      simp only [map_eq_ok_iff, ih]
      constructor
      · rintro ⟨y, hy, zs, hzs, rfl⟩
        exact .cons hy hzs
      · rintro (_ | ⟨hy, hzs⟩)
        exact ⟨_, hy, _, hzs, rfl⟩

/-- Steps that are known to succeed, and what each of them yields. -/
theorem mapM_eq_ok {f : α → Except ε β} {g : α → β} {xs : List α}
    (h : ∀ x ∈ xs, f x = .ok (g x)) : xs.mapM f = .ok (xs.map g) := by
  rw [mapM_eq_ok_iff, List.forall₂_map_right_iff, List.forall₂_same]
  exact h

/-- A row of steps fails exactly if one of them does. -/
theorem mapM_eq_error_iff {f : α → Except ε β} {xs : List α} :
    (∃ e, xs.mapM f = .error e) ↔ ∃ x ∈ xs, ∃ e, f x = .error e := by
  induction xs with
  | nil => simp [pure, Except.pure]
  | cons x rest ih =>
      rw [mapM_cons, bind_eq_error_iff]
      -- If the first step succeeds, what remains to fail is one of the others.
      cases hfx : f x with
      | error e => exact ⟨fun _ => ⟨x, List.mem_cons_self, e, hfx⟩, fun _ => Or.inl ⟨e, rfl⟩⟩
      | ok y => simp [map_eq_error_iff, ih, hfx]

/-- Two outcomes that are results with the relation `R`, or the same failure. -/
inductive Related (R : α → β → Prop) : Except ε α → Except ε β → Prop where
  | ok {a : α} {b : β} (h : R a b) : Related R (.ok a) (.ok b)
  | error (e : ε) : Related R (.error e) (.error e)

namespace Related

variable {γ δ : Type} {R : α → β → Prop} {S : γ → δ → Prop}

/-- An outcome is related to itself if every result is. -/
theorem refl {R : α → α → Prop} (h : ∀ a, R a a) (x : Except ε α) : Related R x x := by
  cases x with
  | error e => exact .error e
  | ok a => exact .ok (h a)

/-- Related steps, each followed by steps that are related on related results. -/
theorem bind {x : Except ε α} {y : Except ε β} {f : α → Except ε γ} {g : β → Except ε δ}
    (h : Related R x y) (hfg : ∀ a b, R a b → Related S (f a) (g b)) :
    Related S (x.bind f) (y.bind g) := by
  cases h with
  | error e => exact .error e
  | ok hab => exact hfg _ _ hab

/-- Related steps, and functions that take related results to related ones. -/
theorem map {x : Except ε α} {y : Except ε β} {f : α → γ} {g : β → δ}
    (h : Related R x y) (hfg : ∀ a b, R a b → S (f a) (g b)) : Related S (x.map f) (y.map g) := by
  cases h with
  | error e => exact .error e
  | ok hab => exact .ok (hfg _ _ hab)

/-- Rows of steps that are related one by one. -/
theorem mapM {f : α → Except ε γ} {g : β → Except ε δ} {xs : List α} {ys : List β}
    (h : List.Forall₂ R xs ys) (hfg : ∀ a b, R a b → Related S (f a) (g b)) :
    Related (List.Forall₂ S) (xs.mapM f) (ys.mapM g) := by
  induction h with
  | nil => exact .ok .nil
  | cons hab _ ih =>
      rw [mapM_cons, mapM_cons]
      exact (hfg _ _ hab).bind fun _ _ hcd => ih.map fun _ _ hrest => .cons hcd hrest

end Related

end Steps

end DartModels
