import Mathlib.Logic.Relation
import Mathlib.Data.List.Basic

/-!
# Labelled transition systems

* `System`: initial states and labelled steps; `System.Run`: runs, with their labels oldest first.
* `System.restrict`: the runs whose steps all meet a condition.
* The rules: `Run.invariant`, `Run.traceInvariant`, `Run.exists_of_mem`, `Reachable.map`.
* `System.follow`: a schedule, computed; `Run.follow`: it is a run.
* `System.Steps`: parts of runs, with `Steps.trans`, `Steps.invariant`, `Steps.split`, `Steps.follow`.
* `Trail`: finite sequences of steps that emit lists, with its rules `Trail.mono`, `Trail.map`,
  `Trail.split`, `Trail.preserves`, `Trail.preserves_of`, `Trail.accumulates`, `Trail.forall_mem`.
-/

namespace RoutingDaemon

/-- A labelled transition system. -/
structure System (σ ℓ : Type*) where
  init : σ → Prop
  step : σ → ℓ → σ → Prop

namespace System

variable {σ ℓ τ m : Type*} {S : System σ ℓ}

/-- The runs of a system, with the labels of their steps, oldest first. -/
inductive Run (S : System σ ℓ) : List ℓ → σ → Prop
  | init {s : σ} (h : S.init s) : S.Run [] s
  | step {ls : List ℓ} {s s' : σ} {l : ℓ} (r : S.Run ls s) (h : S.step s l s') :
      S.Run (ls ++ [l]) s'

/-- Some run ends in `s`. -/
def Reachable (S : System σ ℓ) (s : σ) : Prop := ∃ ls, S.Run ls s

/-- The system whose steps also meet the condition `P` on the state before and the label. -/
def restrict (S : System σ ℓ) (P : σ → ℓ → Prop) : System σ ℓ where
  init := S.init
  step s l s' := P s l ∧ S.step s l s'

theorem Reachable.init {s : σ} (h : S.init s) : S.Reachable s := ⟨[], .init h⟩

theorem Reachable.step {s s' : σ} {l : ℓ} (r : S.Reachable s) (h : S.step s l s') :
    S.Reachable s' := by
  obtain ⟨ls, r⟩ := r
  exact ⟨ls ++ [l], .step r h⟩

/-- **Invariant rule.** What holds initially and is kept by every step holds after every run. -/
theorem Run.invariant {I : σ → Prop} (h0 : ∀ s, S.init s → I s)
    (hs : ∀ s l s', I s → S.step s l s' → I s') {ls : List ℓ} {s : σ} (r : S.Run ls s) : I s := by
  induction r with
  | init h => exact h0 _ h
  | step _ h ih => exact hs _ _ _ ih h

theorem Reachable.invariant {I : σ → Prop} (h0 : ∀ s, S.init s → I s)
    (hs : ∀ s l s', I s → S.step s l s' → I s') {s : σ} (r : S.Reachable s) : I s := by
  obtain ⟨ls, r⟩ := r
  exact r.invariant h0 hs

/-- **Invariant rule for histories.** The step may use that its first state is reachable. -/
theorem Run.traceInvariant {I : List ℓ → σ → Prop} (h0 : ∀ s, S.init s → I [] s)
    (hs : ∀ ls s l s', S.Reachable s → I ls s → S.step s l s' → I (ls ++ [l]) s')
    {ls : List ℓ} {s : σ} (r : S.Run ls s) : I ls s := by
  induction r with
  | init h => exact h0 _ h
  | step r h ih => exact hs _ _ _ _ ⟨_, r⟩ ih h

theorem Run.exists_of_mem {ls : List ℓ} {s : σ} (r : S.Run ls s) {l : ℓ} (hl : l ∈ ls) :
    ∃ a b, S.Reachable a ∧ S.step a l b := by
  induction r with
  | init => simp at hl
  | step r h ih =>
    rcases List.mem_append.mp hl with hl | hl
    · exact ih hl
    · rw [List.mem_singleton] at hl
      subst hl
      exact ⟨_, _, ⟨_, r⟩, h⟩

theorem Run.of_restrict {P : σ → ℓ → Prop} {ls : List ℓ} {s : σ}
    (r : (S.restrict P).Run ls s) : S.Run ls s := by
  induction r with
  | init h => exact .init h
  | step _ h ih => exact .step ih h.2

theorem Reachable.of_restrict {P : σ → ℓ → Prop} {s : σ} (r : (S.restrict P).Reachable s) :
    S.Reachable s := by
  obtain ⟨ls, r⟩ := r
  exact ⟨ls, r.of_restrict⟩

/-- **Projection rule.** If `f` maps every step of `S` to a step of `T` or to no change, it maps
reachable states to reachable states. -/
theorem Reachable.map {T : System τ m} {f : σ → τ} (h0 : ∀ s, S.init s → T.init (f s))
    (hs : ∀ s l s', S.step s l s' → f s' = f s ∨ ∃ k, T.step (f s) k (f s')) {s : σ}
    (r : S.Reachable s) : T.Reachable (f s) := by
  refine r.invariant (I := fun s => T.Reachable (f s)) (fun s h => .init (h0 s h)) ?_
  intro s l s' ih h
  rcases hs s l s' h with e | ⟨k, hk⟩
  · rw [e]; exact ih
  · exact ih.step hk

/-- Follow a schedule: the labels of its steps, and the state after it. -/
def follow (move : σ → m → Option (ℓ × σ)) : List m → σ → Option (List ℓ × σ)
  | [], s => some ([], s)
  | a :: as, s => do
    let (l, s) ← move s a
    let (ls, s) ← follow move as s
    return (l :: ls, s)

/-- **A schedule whose moves are steps is a run.** -/
theorem Run.follow {move : σ → m → Option (ℓ × σ)}
    (hm : ∀ s a l s', move s a = some (l, s') → S.step s l s') {as : List m} {s s' : σ}
    {ls ls' : List ℓ} (r : S.Run ls s) (h : System.follow move as s = some (ls', s')) :
    S.Run (ls ++ ls') s' := by
  induction as generalizing s ls ls' with
  | nil => cases h; simpa using r
  | cons a as ih =>
    obtain ⟨⟨l, s₁⟩, h1, h⟩ := Option.bind_eq_some_iff.mp h
    obtain ⟨⟨ls₁, s₂⟩, h2, h⟩ := Option.bind_eq_some_iff.mp h
    cases h
    simpa using ih (r.step (hm _ _ _ _ h1)) h2

/-! ### Parts of runs -/

/-- The steps from one state to another, with their labels. -/
inductive Steps (S : System σ ℓ) (s : σ) : List ℓ → σ → Prop
  | refl : S.Steps s [] s
  | step {ls : List ℓ} {t u : σ} {l : ℓ} (r : S.Steps s ls t) (h : S.step t l u) :
      S.Steps s (ls ++ [l]) u

theorem Steps.single {s t : σ} {l : ℓ} (h : S.step s l t) : S.Steps s [l] t := .step .refl h

theorem Steps.trans {s t u : σ} {ls ls' : List ℓ} (r : S.Steps s ls t) (r' : S.Steps t ls' u) :
    S.Steps s (ls ++ ls') u := by
  induction r' with
  | refl => rwa [List.append_nil]
  | step _ h ih =>
    rw [← List.append_assoc]
    exact ih.step h

theorem Reachable.steps {s t : σ} {ls : List ℓ} (r : S.Reachable s) (h : S.Steps s ls t) :
    S.Reachable t := by
  induction h with
  | refl => exact r
  | step _ h ih => exact ih.step h

/-- **Invariant rule for parts of runs** whose labels all satisfy `P`. -/
theorem Steps.invariant {I : σ → Prop} {P : ℓ → Prop}
    (hs : ∀ s l t, I s → P l → S.step s l t → I t) {ls : List ℓ} {s t : σ} (r : S.Steps s ls t)
    (hP : ∀ l ∈ ls, P l) (h : I s) : I t := by
  induction r with
  | refl => exact h
  | step _ h1 ih =>
    simp only [List.forall_mem_append, List.forall_mem_singleton] at hP
    exact hs _ _ _ (ih hP.1) hP.2 h1

theorem Steps.split {s u : σ} {ls : List ℓ} (r : S.Steps s ls u) {l : ℓ} (hl : l ∈ ls) :
    ∃ a b xs ys, S.Steps s xs a ∧ S.step a l b ∧ S.Steps b ys u ∧ ls = xs ++ l :: ys := by
  induction r with
  | refl => cases hl
  | step r h ih =>
    rcases List.mem_append.mp hl with hl | hl
    · obtain ⟨a, b, xs, ys, h1, h2, h3, rfl⟩ := ih hl
      exact ⟨a, b, xs, _, h1, h2, h3.step h, by simp⟩
    · rw [List.mem_singleton] at hl
      subst hl
      exact ⟨_, _, _, [], r, h, .refl, rfl⟩

theorem Steps.follow {move : σ → m → Option (ℓ × σ)}
    (hm : ∀ s a l s', move s a = some (l, s') → S.step s l s') {as : List m} {s s' : σ} {ls : List ℓ}
    (h : System.follow move as s = some (ls, s')) : S.Steps s ls s' := by
  induction as generalizing s ls with
  | nil =>
    cases h
    exact .refl
  | cons a as ih =>
    obtain ⟨⟨l, s₁⟩, h1, h⟩ := Option.bind_eq_some_iff.mp h
    obtain ⟨⟨ls₁, s₂⟩, h2, h⟩ := Option.bind_eq_some_iff.mp h
    cases h
    exact (Steps.single (hm _ _ _ _ h1)).trans (ih h2)

end System

section Trail

variable {σ ε : Type*} {step : σ → List ε → σ → Prop}

/-- A finite sequence of steps, with everything they emit. -/
inductive Trail (step : σ → List ε → σ → Prop) : σ → List ε → σ → Prop
  | refl (s : σ) : Trail step s [] s
  | tail {s t u : σ} {xs ys : List ε} (r : Trail step s xs t) (h : step t ys u) :
      Trail step s (xs ++ ys) u

theorem Trail.single {s t : σ} {xs : List ε} (h : step s xs t) : Trail step s xs t := by
  have r : Trail step s ([] ++ xs) t := (Trail.refl s).tail h
  simpa using r

theorem Trail.trans {s t u : σ} {xs ys : List ε} (r : Trail step s xs t)
    (r' : Trail step t ys u) : Trail step s (xs ++ ys) u := by
  induction r' with
  | refl => simpa using r
  | tail _ h ih => rw [← List.append_assoc]; exact ih.tail h

theorem Trail.mono {step' : σ → List ε → σ → Prop} (hm : ∀ s xs t, step s xs t → step' s xs t)
    {s t : σ} {xs : List ε} (r : Trail step s xs t) : Trail step' s xs t := by
  induction r with
  | refl => exact .refl _
  | tail _ h ih => exact ih.tail (hm _ _ _ h)

/-- **Projection rule for trails.** What is emitted may be rewritten. -/
theorem Trail.map {δ : Type*} {step' : σ → List δ → σ → Prop} {g : ε → δ}
    (hm : ∀ s xs t, step s xs t → step' s (xs.map g) t) {s t : σ} {xs : List ε}
    (r : Trail step s xs t) : Trail step' s (xs.map g) t := by
  induction r with
  | refl => exact .refl _
  | tail _ h ih => rw [List.map_append]; exact ih.tail (hm _ _ _ h)

/-- **Splitting rule for trails** whose steps emit at most one thing each: each thing is emitted by a
step, after what came before it. -/
theorem Trail.split (h1 : ∀ s xs t, step s xs t → xs.length ≤ 1) {s t : σ} {xs ys : List ε} {x : ε}
    (r : Trail step s (xs ++ x :: ys) t) :
    ∃ u v, Trail step s xs u ∧ step u [x] v ∧ Trail step v ys t := by
  generalize hzs : xs ++ x :: ys = zs at r
  induction r generalizing ys with
  | refl => simp at hzs
  | @tail u t ws zs r h ih =>
    match zs, h1 _ _ _ h with
    | [], _ =>
      rw [List.append_nil] at hzs
      obtain ⟨v, w, before, hv, after⟩ := ih hzs
      exact ⟨v, w, before, hv, by simpa using after.tail h⟩
    | [z], _ =>
      rcases List.eq_nil_or_concat ys with rfl | ⟨ys, y, rfl⟩
      · obtain ⟨rfl, hz⟩ := List.append_inj' hzs rfl
        cases hz
        exact ⟨_, _, r, h, .refl _⟩
      · rw [List.concat_eq_append, ← List.cons_append, ← List.append_assoc] at hzs
        obtain ⟨hws, hz⟩ := List.append_inj' hzs rfl
        cases hz
        obtain ⟨v, w, before, hv, after⟩ := ih hws
        exact ⟨v, w, before, hv, by simpa using after.tail h⟩

/-- **Invariant rule for trails.** -/
theorem Trail.preserves {I : σ → Prop} (hs : ∀ s xs t, I s → step s xs t → I t) {s t : σ}
    {xs : List ε} (r : Trail step s xs t) (h : I s) : I t := by
  induction r with
  | refl => exact h
  | tail _ hst ih => exact hs _ _ _ ih hst

/-- **Invariant rule for trails** that emit only what satisfies `P`. -/
theorem Trail.preserves_of {I : σ → Prop} {P : ε → Prop}
    (hs : ∀ s xs t, I s → step s xs t → (∀ x ∈ xs, P x) → I t) {s t : σ} {xs : List ε}
    (r : Trail step s xs t) (hP : ∀ x ∈ xs, P x) (h : I s) : I t := by
  induction r with
  | refl => exact h
  | tail _ hst ih =>
    rw [List.forall_mem_append] at hP
    exact hs _ _ _ (ih hP.1) hst hP.2

/-- **Strengthening rule for trails.** Every step starts in an `I`-state. -/
theorem Trail.strengthen {I : σ → Prop} (hs : ∀ s xs t, I s → step s xs t → I t) {s t : σ}
    {xs : List ε} (r : Trail step s xs t) (h : I s) :
    Trail (fun s xs t => I s ∧ step s xs t) s xs t := by
  induction r with
  | refl => exact .refl _
  | tail r1 hst ih => exact ih.tail ⟨r1.preserves hs h, hst⟩

/-- **Invariant rule for trails and what was emitted so far.** -/
theorem Trail.accumulates {I : List ε → σ → Prop}
    (hs : ∀ h s xs t, I h s → step s xs t → I (h ++ xs) t) {s t : σ} {xs h : List ε}
    (r : Trail step s xs t) (h0 : I h s) : I (h ++ xs) t := by
  induction r with
  | refl => simpa using h0
  | tail _ hst ih => rw [← List.append_assoc]; exact hs _ _ _ _ ih hst

/-- **Emission rule for trails.** What every step from an `I`-state emits, the trail emits. -/
theorem Trail.forall_mem {I : σ → Prop} {P : ε → Prop} (hs : ∀ s xs t, I s → step s xs t → I t)
    (hp : ∀ s xs t, I s → step s xs t → ∀ x ∈ xs, P x) {s t : σ} {xs : List ε}
    (r : Trail step s xs t) (h : I s) : ∀ x ∈ xs, P x := by
  induction r with
  | refl => simp
  | tail r hst ih =>
    intro x hx
    rcases List.mem_append.mp hx with hx | hx
    · exact ih x hx
    · exact hp _ _ _ (r.preserves hs h) hst x hx

end Trail

end RoutingDaemon
