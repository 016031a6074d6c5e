import Mathlib.Data.List.Basic

/-!
# Interleavings

Two lists interleave the same sequences, one sequence for each key, in two ways.

* `Interleaves`: the elements of every key are the same, in the same order.
* `Independent`: steps with different keys commute.
* `Interleaves.foldl_eq`: independent steps lead to the same state in every interleaving.
-/

namespace RoutingDaemon

section Interleave

variable {α κ σ : Type*} [DecidableEq κ] {key : α → κ} {step : σ → α → σ}

/-- For every key, both lists have the same elements in the same order. -/
def Interleaves (key : α → κ) (l l' : List α) : Prop :=
  ∀ k, l.filter (fun a => key a = k) = l'.filter (fun a => key a = k)

/-- Steps with different keys commute. -/
def Independent (key : α → κ) (step : σ → α → σ) : Prop :=
  ∀ s a b, key a ≠ key b → step (step s a) b = step (step s b) a

theorem Interleaves.eq_nil {l : List α} (h : Interleaves key [] l) : l = [] := by
  rw [List.eq_nil_iff_forall_not_mem]
  intro a ha
  have hk := h (key a)
  rw [List.filter_nil, eq_comm, List.filter_eq_nil_iff] at hk
  exact hk a ha (by simp)

theorem Interleaves.exists_of_cons {a : α} {l l' : List α} (h : Interleaves key (a :: l) l') :
    ∃ u v, l' = u ++ a :: v ∧ (∀ b ∈ u, key b ≠ key a) ∧ Interleaves key l (u ++ v) := by
  have ha := h (key a)
  rw [List.filter_cons_of_pos (by simp), eq_comm, List.filter_eq_cons_iff] at ha
  obtain ⟨u, v, rfl, hu, -, hv⟩ := ha
  refine ⟨u, v, rfl, fun b hb => by simpa using hu b hb, fun k => ?_⟩
  have hk := h k
  rw [List.filter_append, List.filter_cons, List.filter_cons] at hk
  rw [List.filter_append]
  split_ifs at hk with hak
  · -- no element before `a` has its key
    have hu' : u.filter (fun b => decide (key b = k)) = [] := by
      rw [List.filter_eq_nil_iff]
      intro b hb
      have := hu b hb
      simp only [decide_eq_true_eq] at hak this ⊢
      rwa [← hak]
    rw [hu', List.nil_append, List.cons.injEq] at hk
    rw [hu', List.nil_append]
    exact hk.2
  · exact hk

theorem Interleaves.mem {a : α} {l l' : List α} (h : Interleaves key l l') (ha : a ∈ l') : a ∈ l := by
  have hk : a ∈ l.filter (fun b => key b = key a) := by
    rw [h (key a)]
    exact List.mem_filter.mpr ⟨ha, by simp⟩
  exact List.mem_of_mem_filter hk

omit [DecidableEq κ] in
theorem Independent.foldl_past (hs : Independent key step) {a : α} {u : List α}
    (hu : ∀ b ∈ u, key b ≠ key a) (s : σ) : step (u.foldl step s) a = u.foldl step (step s a) := by
  induction u generalizing s with
  | nil => rfl
  | cons b u ih =>
    rw [List.foldl_cons, List.foldl_cons, ih fun c hc => hu c (List.mem_cons_of_mem _ hc),
      hs s b a (hu b List.mem_cons_self)]

/-- **Interleaving rule.** Independent steps lead to the same state in every interleaving. -/
theorem Interleaves.foldl_eq (hs : Independent key step) {l l' : List α}
    (h : Interleaves key l l') (s : σ) : l.foldl step s = l'.foldl step s := by
  induction l generalizing l' s with
  | nil => rw [h.eq_nil]
  | cons a l ih =>
    obtain ⟨u, v, rfl, hu, hl⟩ := h.exists_of_cons
    calc (a :: l).foldl step s = (u ++ v).foldl step (step s a) := ih hl _
      _ = v.foldl step (step (u.foldl step s) a) := by rw [List.foldl_append, hs.foldl_past hu]
      _ = (u ++ a :: v).foldl step s := by rw [List.foldl_append, List.foldl_cons]

end Interleave

end RoutingDaemon
