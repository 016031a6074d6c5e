import Mathlib.Tactic

/-!
# Two runs of a fallible computation

* `Lockstep R x y`: both fail in the same way, or both return, with related results.
* `Lockstep.bind`, `Lockstep.bind_same`, `Lockstep.bind_mapError`, `Lockstep.mono`, `Lockstep.mapError`: how
  such pairs compose.
* `lockstep_eq`: related by equality, they are the same computation.
-/

namespace RoutingDaemon

universe u

/-- The computations fail in the same way, or return related results. -/
inductive Lockstep {ε α β : Type*} (R : α → β → Prop) : Except ε α → Except ε β → Prop
  | ok {a : α} {b : β} (h : R a b) : Lockstep R (.ok a) (.ok b)
  | error (e : ε) : Lockstep R (.error e) (.error e)

section Lockstep

variable {ε ε' α β : Type*} {R S : α → β → Prop} {x : Except ε α} {y : Except ε β}

theorem Lockstep.mono (h : Lockstep R x y) (hRS : ∀ a b, x = .ok a → y = .ok b → R a b → S a b) :
    Lockstep S x y := by
  cases h with
  | ok h => exact .ok (hRS _ _ rfl rfl h)
  | error e => exact .error e

theorem Lockstep.bind {α β γ δ : Type u} {R : α → β → Prop} {S : γ → δ → Prop} {x : Except ε α}
    {y : Except ε β} {f : α → Except ε γ} {g : β → Except ε δ} (h : Lockstep R x y)
    (hfg : ∀ a b, R a b → Lockstep S (f a) (g b)) : Lockstep S (x >>= f) (y >>= g) := by
  cases h with
  | ok h => exact hfg _ _ h
  | error e => exact .error e

theorem Lockstep.bind_same {α γ δ : Type u} {S : γ → δ → Prop} (x : Except ε α) {f : α → Except ε γ}
    {g : α → Except ε δ} (hfg : ∀ a, x = .ok a → Lockstep S (f a) (g a)) :
    Lockstep S (x >>= f) (x >>= g) := by
  cases x with
  | ok a => exact hfg a rfl
  | error e => exact .error e

theorem Lockstep.mapError (h : Lockstep R x y) (f : ε → ε') : Lockstep R (x.mapError f) (y.mapError f) := by
  cases h with
  | ok h => exact .ok h
  | error e => exact .error (f e)

theorem Lockstep.bind_mapError {ε : Type*} {ε' α β γ δ : Type u} {R : α → β → Prop} {S : γ → δ → Prop}
    {x : Except ε' α} {y : Except ε β} {f : α → Except ε' γ} {g : β → Except ε δ} {φ : ε → ε'}
    (h : Lockstep R x (y.mapError φ)) (hfg : ∀ a b, R a b → Lockstep S (f a) ((g b).mapError φ)) :
    Lockstep S (x >>= f) ((y >>= g).mapError φ) := by
  cases y with
  | ok b =>
    cases h with
    | ok h => exact hfg _ _ h
  | error e =>
    cases h with
    | error => exact .error _

theorem lockstep_eq {x y : Except ε α} : Lockstep (· = ·) x y ↔ x = y := by
  constructor
  · rintro (h | e)
    · rw [h]
    · rfl
  · rintro rfl
    cases x with
    | ok a => exact .ok rfl
    | error e => exact .error e

theorem Lockstep.of_eq_ok {a : α} (h : Lockstep R x y) (hx : x = .ok a) : ∃ b, y = .ok b ∧ R a b := by
  cases h with
  | ok h =>
    cases hx
    exact ⟨_, rfl, h⟩
  | error e => cases hx

theorem Lockstep.of_eq_error {e : ε} (h : Lockstep R x y) (hx : x = .error e) : y = .error e := by
  cases h with
  | ok h => cases hx
  | error e =>
    cases hx
    rfl

end Lockstep

end RoutingDaemon
