import Mathlib.Tactic

/-!
# Copies of items

Items, some of which are copies of others.

* `Related`: all items are related in pairs.
* `Related.extend`: they stay so when items are copied, if copies are related as their originals are, and a
  new item is related to all others.
-/

namespace RoutingDaemon

section Copies

variable {α : Type*} {R : α → α → Prop} {P P' : α → Prop}

/-- Every two items are related, in this order. -/
def Related (R : α → α → Prop) (P : α → Prop) : Prop := ∀ a b, P a → P b → R a b

/-- **More copies, and at most one new item.** -/
theorem Related.extend (h : Related R P) (copy : α → α → Prop) (refl : ∀ a, copy a a)
    (copies : ∀ a a' b b', copy a a' → copy b b' → R a' b' → R a b) {o : Option α}
    (new : ∀ c, o = some c → R c c ∧ ∀ a, P a → R a c ∧ R c a)
    (hP : ∀ a, P' a → (∃ a', P a' ∧ copy a a') ∨ o = some a) : Related R P' := by
  intro a b ha hb
  rcases hP a ha with ⟨a', ha', ca⟩ | rfl
  · rcases hP b hb with ⟨b', hb', cb⟩ | rfl
    · exact copies a a' b b' ca cb (h a' b' ha' hb')
    · exact copies a a' b b ca (refl b) ((new b rfl).2 a' ha').1
  · rcases hP b hb with ⟨b', hb', cb⟩ | hb'
    · exact copies a a b b' (refl a) cb ((new a rfl).2 b' hb').2
    · cases hb'
      exact (new a rfl).1

end Copies

end RoutingDaemon
