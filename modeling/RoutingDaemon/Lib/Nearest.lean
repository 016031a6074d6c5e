import Mathlib.Data.List.Induction
import Mathlib.Order.Lattice

/-!
# The earliest of the cheapest offers

Offers arrive in a list, oldest first, each with a cost in a linear order.

* `closer`: the better of a held offer and a new one; the held one wins ties.
* `nearest`: the offer held after a whole list; `nearest_eq_some_iff` characterises it.
-/

namespace RoutingDaemon

variable {α κ : Type*} [LinearOrder κ] (cost : α → κ)

/-- Keep the held offer unless the new one is strictly cheaper. -/
def closer : Option α → α → α
  | none, a => a
  | some b, a => if cost a < cost b then a else b

/-- The offer held after the offers of a list. -/
def nearest (l : List α) : Option α := l.foldl (fun b a => some (closer cost b a)) none

@[simp] theorem nearest_nil : nearest cost ([] : List α) = none := rfl

@[simp] theorem nearest_concat (l : List α) (a : α) :
    nearest cost (l ++ [a]) = some (closer cost (nearest cost l) a) := by
  simp [nearest]

@[simp] theorem nearest_eq_none {l : List α} : nearest cost l = none ↔ l = [] := by
  induction l using List.reverseRecOn with
  | nil => simp
  | append_singleton l a _ => simp

/-- **The held offer is the earliest of the cheapest.** -/
theorem nearest_eq_some_iff {l : List α} {a : α} : nearest cost l = some a →
    ∃ pre post, l = pre ++ a :: post ∧ (∀ b ∈ pre, cost a < cost b) ∧
      ∀ b ∈ post, cost a ≤ cost b := by
  induction l using List.reverseRecOn generalizing a with
  | nil => simp
  | append_singleton l x ih =>
    intro h
    rw [nearest_concat, Option.some.injEq] at h
    cases hl : nearest cost l with
    | none =>
      rw [nearest_eq_none] at hl
      rw [hl, nearest_nil, closer] at h
      exact ⟨[], [], by simp [hl, h], by simp, by simp⟩
    | some b =>
      obtain ⟨pre, post, e, h1, h2⟩ := ih hl
      rw [hl, closer] at h
      split_ifs at h with hx
      · subst h
        refine ⟨l, [], rfl, fun c hc => ?_, by simp⟩
        rw [e, List.mem_append, List.mem_cons] at hc
        rcases hc with hc | rfl | hc
        · exact hx.trans (h1 c hc)
        · exact hx
        · exact hx.trans_le (h2 c hc)
      · subst h
        refine ⟨pre, post ++ [x], by simp [e], h1, fun c hc => ?_⟩
        rw [List.mem_append, List.mem_singleton] at hc
        rcases hc with hc | rfl
        · exact h2 c hc
        · exact not_lt.mp hx

theorem nearest_mem {l : List α} {a : α} (h : nearest cost l = some a) : a ∈ l := by
  obtain ⟨pre, post, rfl, _, _⟩ := nearest_eq_some_iff cost h
  simp

theorem nearest_le {l : List α} {a : α} (h : nearest cost l = some a) :
    ∀ b ∈ l, cost a ≤ cost b := by
  obtain ⟨pre, post, rfl, h1, h2⟩ := nearest_eq_some_iff cost h
  intro b hb
  rw [List.mem_append, List.mem_cons] at hb
  rcases hb with hb | rfl | hb
  · exact (h1 b hb).le
  · exact le_rfl
  · exact h2 b hb

end RoutingDaemon
