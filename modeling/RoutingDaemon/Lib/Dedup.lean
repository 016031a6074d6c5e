import Mathlib.Data.List.Induction
import Mathlib.Order.Basic

/-!
# Duplicate filters

A filter accepts numbered messages and may forget what it accepted. Histories are lists of marks,
oldest first.

* `Dedup.last`: the number last accepted for a key and not forgotten since.
* `Dedup.Increasing`: every accepted number is above the last one; `increasing_accept`,
  `increasing_forget`: one more mark.
* `Increasing.lt`: a number is accepted again only after its key was forgotten.
-/

namespace RoutingDaemon.Dedup

/-- What a filter does. -/
inductive Mark (κ α : Type*)
  | accept (k : κ) (a : α)
  | forget (k : κ)

variable {κ α : Type*} [DecidableEq κ]

/-- The effect of a mark on the last number of `k`. -/
def after (k : κ) (o : Option α) : Mark κ α → Option α
  | .accept k' a => if k' = k then some a else o
  | .forget k' => if k' = k then none else o

/-- The number last accepted for `k`, unless it was forgotten since. -/
def last (k : κ) (h : List (Mark κ α)) : Option α := h.foldl (after k) none

theorem last_append_singleton (k : κ) (h : List (Mark κ α)) (m : Mark κ α) :
    last k (h ++ [m]) = after k (last k h) m := by
  unfold last
  rw [List.foldl_append]
  rfl

theorem mem_of_last {k : κ} {h : List (Mark κ α)} {a : α} (hl : last k h = some a) :
    .accept k a ∈ h := by
  induction h using List.reverseRecOn with
  | nil => cases hl
  | append_singleton h m ih =>
    rw [last_append_singleton] at hl
    cases m with
    | accept k' b =>
      by_cases hk : k' = k
      · rw [after, if_pos hk, Option.some.injEq] at hl
        rw [hk, hl]
        exact List.mem_append_right _ (List.mem_singleton_self _)
      · rw [after, if_neg hk] at hl
        exact List.mem_append_left _ (ih hl)
    | forget k' =>
      by_cases hk : k' = k
      · rw [after, if_pos hk] at hl
        cases hl
      · rw [after, if_neg hk] at hl
        exact List.mem_append_left _ (ih hl)

/-- Every accepted number is above the last one. -/
def Increasing [LT α] (h : List (Mark κ α)) : Prop :=
  ∀ pre k a post, h = pre ++ .accept k a :: post → ∀ b, last k pre = some b → b < a

theorem increasing_nil [LT α] : Increasing ([] : List (Mark κ α)) := by
  intro pre k a post h
  exact absurd h.symm (List.append_ne_nil_of_right_ne_nil pre (List.cons_ne_nil _ _))

theorem Increasing.of_append [LT α] {h t : List (Mark κ α)} (hi : Increasing (h ++ t)) :
    Increasing h := by
  rintro pre k a post rfl
  exact hi pre k a (post ++ t) (by simp)

theorem increasing_append_singleton [LT α] {h : List (Mark κ α)} {m : Mark κ α} :
    Increasing (h ++ [m]) ↔
      Increasing h ∧ ∀ k a, m = .accept k a → ∀ b, last k h = some b → b < a := by
  constructor
  · intro hi
    refine ⟨hi.of_append, ?_⟩
    rintro k a rfl
    exact hi h k a [] rfl
  · rintro ⟨hi, hm⟩ pre k a post he
    rcases List.eq_nil_or_concat post with rfl | ⟨post, m', rfl⟩
    · obtain ⟨rfl, h1⟩ := List.append_inj' he rfl
      exact hm k a (List.cons.inj h1).1
    · rw [List.concat_eq_append, ← List.cons_append, ← List.append_assoc] at he
      obtain ⟨rfl, -⟩ := List.append_inj' he rfl
      exact hi pre k a post rfl

theorem increasing_accept [LT α] {h : List (Mark κ α)} {k : κ} {a : α} (hi : Increasing h)
    (ha : ∀ b, last k h = some b → b < a) : Increasing (h ++ [.accept k a]) := by
  refine increasing_append_singleton.mpr ⟨hi, fun k' a' h' => ?_⟩
  cases h'
  exact ha

theorem increasing_forget [LT α] {h : List (Mark κ α)} {k : κ} (hi : Increasing h) :
    Increasing (h ++ [.forget k]) :=
  increasing_append_singleton.mpr ⟨hi, nofun⟩

variable [Preorder α]

theorem Increasing.le_last {pre mid : List (Mark κ α)} {k : κ} {a : α}
    (hi : Increasing (pre ++ .accept k a :: mid)) (hf : .forget k ∉ mid) :
    ∃ b, last k (pre ++ .accept k a :: mid) = some b ∧ a ≤ b := by
  induction mid using List.reverseRecOn with
  | nil => exact ⟨a, by rw [last_append_singleton, after, if_pos rfl], le_rfl⟩
  | append_singleton mid m ih =>
    have e : pre ++ Mark.accept k a :: (mid ++ [m]) = (pre ++ .accept k a :: mid) ++ [m] := by simp
    rw [e] at hi ⊢
    obtain ⟨hi', hm⟩ := increasing_append_singleton.mp hi
    obtain ⟨b, hb, hab⟩ := ih hi' fun h => hf (List.mem_append_left _ h)
    rw [last_append_singleton]
    cases m with
    | accept k' c =>
      by_cases hk : k' = k
      · subst hk
        exact ⟨c, by rw [after, if_pos rfl], hab.trans (hm k' c rfl b hb).le⟩
      · exact ⟨b, by rw [after, if_neg hk, hb], hab⟩
    | forget k' =>
      have hk : k' ≠ k := by
        rintro rfl
        exact hf (List.mem_append_right _ (List.mem_singleton_self _))
      exact ⟨b, by rw [after, if_neg hk, hb], hab⟩

/-- **Accepted once.** Between two forgettings the accepted numbers of a key increase. -/
theorem Increasing.lt {pre mid post : List (Mark κ α)} {k : κ} {a b : α}
    (hi : Increasing (pre ++ .accept k a :: (mid ++ .accept k b :: post)))
    (hf : .forget k ∉ mid) : a < b := by
  have e : pre ++ Mark.accept k a :: (mid ++ .accept k b :: post) =
      (pre ++ .accept k a :: mid) ++ .accept k b :: post := by simp
  rw [e] at hi
  obtain ⟨c, hc, hac⟩ := hi.of_append.le_last hf
  exact hac.trans_lt (hi _ k b post rfl c hc)

end RoutingDaemon.Dedup
