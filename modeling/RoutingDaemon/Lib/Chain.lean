import Mathlib.Data.List.Basic
import Mathlib.Data.List.Nodup
import Mathlib.Logic.Function.Basic

/-!
# Chained hash tables

A table is a family of chains (lists) indexed by buckets; `key` names the elements and `place`
sends a name to its bucket. No property of `place` is used.

* `Chain.lookup`, `Chain.push`, `Chain.alter`, `Chain.unlink`: search one bucket, insert at its
  head, change or take out the first element with a given key.
* `Chain.WellPlaced`: every element is in the bucket of its key, and no bucket repeats a key.
* `lookup_push`, `lookup_alter`, `lookup_unlink`: the effect of the updates on every search;
  `WellPlaced.push`, `WellPlaced.alter`, `WellPlaced.unlink`, `WellPlaced.lookup_eq_some_iff`.
* `WellPlaced.nodup_flatMap`: the buckets put together repeat no key.
-/

namespace RoutingDaemon.Chain

variable {α κ ι : Type*} [DecidableEq κ] [DecidableEq ι] (key : α → κ) (place : κ → ι)

/-- The first element with key `k` in the bucket of `k`. -/
def lookup (t : ι → List α) (k : κ) : Option α := (t (place k)).find? fun a => key a = k

/-- Insert `a` at the head of its bucket. -/
def push (t : ι → List α) (a : α) : ι → List α :=
  Function.update t (place (key a)) (a :: t (place (key a)))

/-- Apply `f` to the first element with key `k`. -/
def alterFirst (k : κ) (f : α → α) : List α → List α
  | [] => []
  | a :: c => if key a = k then f a :: c else a :: alterFirst k f c

/-- Apply `f` to the first element with key `k` in the bucket of `k`. -/
def alter (t : ι → List α) (k : κ) (f : α → α) : ι → List α :=
  Function.update t (place k) (alterFirst key k f (t (place k)))

/-- Every element is in the bucket of its key, and no bucket repeats a key. -/
structure WellPlaced (t : ι → List α) : Prop where
  placed : ∀ i, ∀ a ∈ t i, place (key a) = i
  nodup : ∀ i, ((t i).map key).Nodup

/-- Take out the first element with key `k` in the bucket of `k`. -/
def unlink (t : ι → List α) (k : κ) : ι → List α :=
  Function.update t (place k) ((t (place k)).eraseP fun a => key a = k)

variable {key place}

omit [DecidableEq κ] [DecidableEq ι] in
theorem wellPlaced_empty : WellPlaced key place fun _ => [] := ⟨by simp, by simp⟩

omit [DecidableEq ι] in
theorem key_of_lookup {t : ι → List α} {k : κ} {a : α} (h : lookup key place t k = some a) :
    key a = k := by simpa using List.find?_some h

omit [DecidableEq ι] in
theorem mem_of_lookup {t : ι → List α} {k : κ} {a : α} (h : lookup key place t k = some a) :
    a ∈ t (place k) := List.mem_of_find?_eq_some h

theorem find?_eq_some_of_nodup {c : List α} (h : (c.map key).Nodup) {a : α} (ha : a ∈ c) :
    c.find? (fun b => key b = key a) = some a := by
  induction c with
  | nil => simp at ha
  | cons b c ih =>
    rw [List.map_cons, List.nodup_cons] at h
    rcases List.mem_cons.mp ha with rfl | hm
    · simp
    · have hne : key b ≠ key a := fun e => h.1 (e ▸ List.mem_map_of_mem hm)
      rw [List.find?_cons_of_neg (by simpa using hne)]
      exact ih h.2 hm

omit [DecidableEq ι] in
theorem WellPlaced.lookup_eq_some_iff {t : ι → List α} (w : WellPlaced key place t) {k : κ}
    {a : α} : lookup key place t k = some a ↔ key a = k ∧ ∃ i, a ∈ t i := by
  constructor
  · intro h; exact ⟨key_of_lookup h, _, mem_of_lookup h⟩
  · rintro ⟨rfl, i, ha⟩
    have := w.placed i a ha
    subst this
    exact find?_eq_some_of_nodup (w.nodup _) ha

omit [DecidableEq ι] in
theorem lookup_eq_none {t : ι → List α} {k : κ} :
    lookup key place t k = none ↔ ∀ a ∈ t (place k), key a ≠ k := by
  simp [lookup]

/-! ### Insertion -/

theorem lookup_push {t : ι → List α} {a : α} {k : κ} :
    lookup key place (push key place t a) k =
      if key a = k then some a else lookup key place t k := by
  unfold lookup push
  by_cases hp : place k = place (key a)
  · rw [hp, Function.update_self, List.find?_cons]
    by_cases hk : key a = k <;> simp [hk]
  · have hk : key a ≠ k := fun e => hp (by rw [e])
    rw [Function.update_of_ne hp, if_neg hk]

theorem WellPlaced.push {t : ι → List α} (w : WellPlaced key place t) {a : α}
    (h : lookup key place t (key a) = none) : WellPlaced key place (push key place t a) := by
  rw [lookup_eq_none] at h
  constructor
  · intro i b hb
    unfold Chain.push at hb
    by_cases hi : i = place (key a)
    · subst hi
      rw [Function.update_self, List.mem_cons] at hb
      rcases hb with rfl | hb
      · rfl
      · exact w.placed _ b hb
    · rw [Function.update_of_ne hi] at hb
      exact w.placed i b hb
  · intro i
    unfold Chain.push
    by_cases hi : i = place (key a)
    · subst hi
      rw [Function.update_self, List.map_cons, List.nodup_cons]
      refine ⟨fun hm => ?_, w.nodup _⟩
      obtain ⟨b, hb, e⟩ := List.mem_map.mp hm
      exact h b hb e
    · rw [Function.update_of_ne hi]
      exact w.nodup i

/-! ### Change in place -/

section Alter

variable {f : α → α} (hf : ∀ a, key (f a) = key a)
include hf

theorem map_alterFirst (k : κ) (c : List α) : (alterFirst key k f c).map key = c.map key := by
  induction c with
  | nil => rfl
  | cons a c ih =>
    simp only [alterFirst]
    split_ifs with h
    · simp [hf]
    · simp [ih]

theorem find?_alterFirst (k k' : κ) (c : List α) :
    (alterFirst key k f c).find? (fun a => key a = k') =
      (c.find? fun a => key a = k').map fun a => if k' = k then f a else a := by
  induction c with
  | nil => rfl
  | cons a c ih =>
    simp only [alterFirst]
    by_cases hk : key a = k <;> by_cases hk' : key a = k'
    · have e : k' = k := hk' ▸ hk
      rw [if_pos hk, List.find?_cons_of_pos (by simpa [hf] using hk'),
        List.find?_cons_of_pos (by simpa using hk')]
      simp [e]
    · have e : k' ≠ k := fun e => hk' (e ▸ hk)
      rw [if_pos hk, List.find?_cons_of_neg (by simpa [hf] using hk'),
        List.find?_cons_of_neg (by simpa using hk')]
      simp [e]
    · have e : k' ≠ k := fun e => hk (e ▸ hk')
      rw [if_neg hk, List.find?_cons_of_pos (by simpa using hk'),
        List.find?_cons_of_pos (by simpa using hk')]
      simp [e]
    · rw [if_neg hk, List.find?_cons_of_neg (by simpa using hk'),
        List.find?_cons_of_neg (by simpa using hk'), ih]

theorem lookup_alter {t : ι → List α} {k k' : κ} :
    lookup key place (alter key place t k f) k' =
      (lookup key place t k').map fun a => if k' = k then f a else a := by
  unfold lookup alter
  by_cases hp : place k' = place k
  · rw [hp, Function.update_self, find?_alterFirst hf]
  · have hk : k' ≠ k := fun e => hp (by rw [e])
    rw [Function.update_of_ne hp]
    simp [hk]

theorem WellPlaced.alter {t : ι → List α} (w : WellPlaced key place t) (k : κ) :
    WellPlaced key place (alter key place t k f) := by
  have hm : ∀ i, (Chain.alter key place t k f i).map key = (t i).map key := by
    intro i
    unfold Chain.alter
    by_cases hi : i = place k
    · subst hi; rw [Function.update_self, map_alterFirst hf]
    · rw [Function.update_of_ne hi]
  constructor
  · intro i a ha
    have h1 : key a ∈ (t i).map key := hm i ▸ List.mem_map_of_mem ha
    obtain ⟨b, hb, e⟩ := List.mem_map.mp h1
    rw [← e]
    exact w.placed i b hb
  · intro i
    rw [hm i]
    exact w.nodup i

end Alter

/-! ### Removal -/

theorem find?_eraseP_of_nodup {c : List α} (h : (c.map key).Nodup) (k k' : κ) :
    (c.eraseP fun a => key a = k).find? (fun a => key a = k') =
      if k' = k then none else c.find? fun a => key a = k' := by
  induction c with
  | nil => simp
  | cons a c ih =>
    rw [List.map_cons, List.nodup_cons] at h
    by_cases hk : key a = k
    · rw [List.eraseP_cons_of_pos (by simpa using hk)]
      split_ifs with hk'
      · -- the key of the head occurs only there
        refine List.find?_eq_none.mpr fun b hb => ?_
        have : key b ≠ key a := fun e => h.1 (e ▸ List.mem_map_of_mem hb)
        simpa [hk', ← hk] using this
      · rw [List.find?_cons_of_neg (by simpa [hk] using Ne.symm hk')]
    · rw [List.eraseP_cons_of_neg (by simpa using hk)]
      by_cases ha : key a = k'
      · rw [List.find?_cons_of_pos (by simpa using ha),
          List.find?_cons_of_pos (by simpa using ha), if_neg fun e => hk (ha.trans e)]
      · rw [List.find?_cons_of_neg (by simpa using ha),
          List.find?_cons_of_neg (by simpa using ha), ih h.2]

theorem lookup_unlink {t : ι → List α} (w : WellPlaced key place t) (k k' : κ) :
    lookup key place (unlink key place t k) k' =
      if k' = k then none else lookup key place t k' := by
  unfold lookup unlink
  by_cases hp : place k' = place k
  · rw [hp, Function.update_self, find?_eraseP_of_nodup (w.nodup _)]
  · have hk : k' ≠ k := fun e => hp (by rw [e])
    rw [Function.update_of_ne hp, if_neg hk]

theorem unlink_sublist (t : ι → List α) (k : κ) (i : ι) :
    List.Sublist (unlink key place t k i) (t i) := by
  unfold unlink
  by_cases hi : i = place k
  · subst hi
    rw [Function.update_self]
    exact List.eraseP_sublist
  · rw [Function.update_of_ne hi]

theorem WellPlaced.unlink {t : ι → List α} (w : WellPlaced key place t) (k : κ) :
    WellPlaced key place (unlink key place t k) where
  placed i a ha := w.placed i a ((unlink_sublist t k i).subset ha)
  nodup i := ((unlink_sublist t k i).map key).nodup (w.nodup i)

/-! ### All elements -/

omit [DecidableEq κ] [DecidableEq ι] in
theorem WellPlaced.nodup_flatMap {t : ι → List α} (w : WellPlaced key place t) {l : List ι}
    (hl : l.Nodup) : ((l.flatMap t).map key).Nodup := by
  rw [List.map_flatMap, List.nodup_flatMap]
  refine ⟨fun i _ => w.nodup i, hl.imp fun {i j} hij k hi hj => ?_⟩
  obtain ⟨a, ha, rfl⟩ := List.mem_map.mp hi
  obtain ⟨b, hb, e⟩ := List.mem_map.mp hj
  exact hij (by rw [← w.placed i a ha, ← e, w.placed j b hb])

end RoutingDaemon.Chain
