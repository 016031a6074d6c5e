import Mathlib.Logic.Relation
import Mathlib.Order.WellFounded

/-!
# Walks that descend

A relation whose steps lower a rank in a well-founded order.

* `acyclic_of_rank`: no walk returns to where it started.
* `exists_end_of_rank`: a walk that can go on from every point but its goals reaches a goal.
-/

namespace RoutingDaemon

variable {α β : Type*} [Preorder β] {step : α → α → Prop} {rank : α → β}

theorem rank_lt_of_transGen (h : ∀ x y, step x y → rank y < rank x) {x y : α}
    (w : Relation.TransGen step x y) : rank y < rank x := by
  induction w with
  | single hs => exact h _ _ hs
  | tail _ hs ih => exact (h _ _ hs).trans ih

/-- **No walk returns to where it started.** -/
theorem acyclic_of_rank (h : ∀ x y, step x y → rank y < rank x) (x : α) :
    ¬ Relation.TransGen step x x := fun w => lt_irrefl _ (rank_lt_of_transGen h w)

/-- **A walk reaches a goal.** Among the points with `P`, every one is a goal or has a step to
another. -/
theorem exists_end_of_rank [WellFoundedLT β] {P goal : α → Prop}
    (h : ∀ x y, step x y → rank y < rank x)
    (next : ∀ x, P x → goal x ∨ ∃ y, step x y ∧ P y) {x : α} (hx : P x) :
    ∃ z, Relation.ReflTransGen step x z ∧ goal z := by
  induction hr : rank x using WellFoundedLT.induction generalizing x with
  | ind r ih =>
    rcases next x hx with hg | ⟨y, hs, hy⟩
    · exact ⟨x, .refl, hg⟩
    · obtain ⟨z, hz, hg⟩ := ih (rank y) (hr ▸ h x y hs) hy rfl
      exact ⟨z, .head hs hz, hg⟩

end RoutingDaemon
