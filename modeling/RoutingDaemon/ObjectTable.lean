import RoutingDaemon.HashSet

/-!
# The object table as a finite map

* `ObjMap`: the map a table stands for: a name is absent, has an empty path, or has a path.
  `ObjMap.announce`, `ObjMap.withdraw`, `ObjMap.empty`.
* `Consistent`: every pair is in the bucket of its name, no name is stored twice, and the key list
  names exactly the stored pairs, each once.
* The operations keep `Consistent` and act on `view` as on the map: `hashAdd_spec`,
  `hashRemoveNode_spec`, `collapse_spec`; `getPaths_eq`, `containsObject_eq` read it.
* `ForallPaths`: a property of all stored paths.
-/

namespace RoutingDaemon

/-! ### The map -/

/-- A finite map from names to an optional path. -/
abbrev ObjMap := CString → Option (Option Path)

/-- No name is known. -/
def ObjMap.empty : ObjMap := fun _ => none

/-- The path of a name after an announcement. -/
def announcePath (old : Option (Option Path)) (p : Path) : Path :=
  match old with
  | some (some q) => if q.cost > p.cost then p else q
  | _ => p

/-- Announce an object. -/
def ObjMap.announce (m : ObjMap) (s : CString) (p : Path) : ObjMap :=
  Function.update m s (some (some (announcePath (m s) p)))

theorem announcePath_cases (old : Option (Option Path)) (p : Path) :
    announcePath old p = p ∨ old = some (some (announcePath old p)) := by
  rcases old with _ | _ | q
  · exact .inl rfl
  · exact .inl rfl
  · unfold announcePath
    dsimp only
    split_ifs
    · exact .inl rfl
    · exact .inr rfl

section Announce

variable {m : ObjMap} {s t : CString} {p : Path}

theorem ObjMap.announce_self : m.announce s p s = some (some (announcePath (m s) p)) :=
  Function.update_self ..

theorem ObjMap.announce_of_ne (h : s ≠ t) : m.announce t p s = m s := Function.update_of_ne h ..

theorem ObjMap.announce_ne_none : m.announce t p s ≠ none ↔ s = t ∨ m s ≠ none := by
  by_cases hs : s = t
  · subst hs
    rw [announce_self]
    exact iff_of_true (Option.some_ne_none _) (.inl rfl)
  · rw [announce_of_ne hs]
    exact (or_iff_right hs).symm

theorem ObjMap.announce_isSome : (m.announce t p s).isSome ↔ s = t ∨ (m s).isSome := by
  simp only [Option.isSome_iff_ne_none, announce_ne_none]

end Announce

/-- The path left when a node is removed. -/
def withdrawPath (n : Int32) (p : Option Path) : Option Path :=
  if p.map Path.nodeId = some n then none else p

/-- Remove a node: empty exactly its paths. -/
def ObjMap.withdraw (m : ObjMap) (n : Int32) : ObjMap := fun s => (m s).map (withdrawPath n)

/-! ### Consistency -/

variable (sfh : CString → UInt32)

/-- The pair found for a name, without the early return. -/
abbrev pairOf (h : LisoHash) (s : CString) : Option Pair :=
  Chain.lookup Pair.name (hashIndex sfh) h.hash s

/-- The map a table stands for. -/
def view (h : LisoHash) : ObjMap := fun s => (pairOf sfh h s).map Pair.pathS

/-- The bucket chains and the key list agree. -/
structure Consistent (h : LisoHash) : Prop where
  placed : Chain.WellPlaced Pair.name (hashIndex sfh) h.hash
  names : ∀ s, (∃ i < h.numObjs, (h.objNames i).1 = s) ↔ (pairOf sfh h s).isSome
  inj : ∀ i < h.numObjs, ∀ j < h.numObjs, (h.objNames i).1 = (h.objNames j).1 → i = j
  room : h.numObjs ≤ maxobjnum

variable {sfh}

theorem consistent_initHash : Consistent sfh initHash where
  placed := Chain.wellPlaced_empty
  names := by simp [initHash, pairOf, Chain.lookup]
  inj := by simp [initHash]
  room := by simp [initHash]

theorem view_initHash : view sfh initHash = ObjMap.empty := by
  funext s; simp [view, pairOf, initHash, Chain.lookup, ObjMap.empty]

/-- The early return on an empty table hides nothing. -/
theorem Consistent.pairOf_eq_none {h : LisoHash} (c : Consistent sfh h) (h0 : h.numObjs = 0)
    (s : CString) : pairOf sfh h s = none := by
  by_contra hn
  obtain ⟨i, hi, _⟩ := (c.names s).mpr (Option.isSome_iff_ne_none.mpr hn)
  omega

theorem containsObject_eq {h : LisoHash} (c : Consistent sfh h) (s : CString) :
    containsObject sfh h s = pairOf sfh h s := by
  unfold containsObject
  split_ifs with h0
  · rw [c.pairOf_eq_none h0]
  · rfl

theorem getPaths_eq {h : LisoHash} (c : Consistent sfh h) (s : CString) :
    getPaths sfh h s = (view sfh h s).join := by
  unfold getPaths view
  split_ifs with h0
  · rw [c.pairOf_eq_none h0]; rfl
  · change (pairOf sfh h s).bind Pair.pathS = _
    cases pairOf sfh h s <;> rfl

theorem containsObject_map {h : LisoHash} (c : Consistent sfh h) (s : CString) :
    (containsObject sfh h s).map Pair.pathS = view sfh h s := by
  rw [containsObject_eq c, view]

/-- **Every stored path is that of its own name.** -/
theorem view_eq_some_iff {h : LisoHash} (c : Consistent sfh h) {s : CString} {p : Option Path} :
    view sfh h s = some p ↔ ∃ i, ∃ q ∈ h.hash i, q.name = s ∧ q.pathS = p := by
  simp only [view, Option.map_eq_some_iff, pairOf, c.placed.lookup_eq_some_iff]
  constructor
  · rintro ⟨q, ⟨hs, i, hq⟩, hp⟩; exact ⟨i, q, hq, hs, hp⟩
  · rintro ⟨i, q, hq, hs, hp⟩; exact ⟨q, ⟨hs, i, hq⟩, hp⟩

/-! ### Updates in place -/

theorem Consistent.alter {h : LisoHash} (c : Consistent sfh h) (s : CString) {f : Pair → Pair}
    (hf : ∀ p, (f p).name = p.name) :
    Consistent sfh { h with hash := Chain.alter Pair.name (hashIndex sfh) h.hash s f } where
  placed := c.placed.alter hf s
  names s' := by rw [c.names s', pairOf, pairOf, Chain.lookup_alter hf, Option.isSome_map]
  inj := c.inj
  room := c.room

theorem view_alter {h : LisoHash} (s s' : CString) {f : Pair → Pair}
    (hf : ∀ p, (f p).name = p.name) :
    view sfh { h with hash := Chain.alter Pair.name (hashIndex sfh) h.hash s f } s' =
      (pairOf sfh h s').map fun p => (if s' = s then f p else p).pathS := by
  rw [view, pairOf, Chain.lookup_alter hf, Option.map_map]; rfl

theorem view_setPath {h : LisoHash} {s : CString} {q : Pair} (hq : pairOf sfh h s = some q)
    (p : Path) : view sfh (h.setPath sfh s p) = Function.update (view sfh h) s (some (some p)) := by
  funext s'
  have e : view sfh (h.setPath sfh s p) s' = (pairOf sfh h s').map fun q =>
      (if s' = s then { q with pathS := some p } else q : Pair).pathS := view_alter s s' fun _ => rfl
  rw [e]
  by_cases hs : s' = s
  · subst hs; rw [Function.update_self, hq]; simp
  · rw [Function.update_of_ne hs, view]; simp [hs]

/-! ### `hash_add` -/

theorem Consistent.push {h : LisoHash} (c : Consistent sfh h) {name : CharBuf maxobjname}
    (hn : pairOf sfh h name.1 = none) (hr : h.numObjs < maxobjnum) (p : Option Path) :
    Consistent sfh ⟨Chain.push Pair.name (hashIndex sfh) h.hash ⟨name, p⟩,
      Function.update h.objNames h.numObjs name, h.numObjs + 1⟩ where
  placed := c.placed.push hn
  names s := by
    rw [pairOf, Chain.lookup_push]
    constructor
    · rintro ⟨i, hi, rfl⟩
      by_cases hin : i = h.numObjs
      · subst hin; simp [Pair.name]
      · split_ifs
        · rfl
        · rw [← pairOf, ← c.names]
          exact ⟨i, by simp only at hi; omega, by simp [Function.update_of_ne hin]⟩
    · intro hs
      split_ifs at hs with he
      · exact ⟨h.numObjs, by simp, by simpa [Pair.name] using he⟩
      · obtain ⟨i, hi, e⟩ := (c.names s).mpr hs
        exact ⟨i, by simp only; omega, by simp [Function.update_of_ne (Nat.ne_of_lt hi), e]⟩
  inj := by
    -- the new name differs from every old one
    have hne : ∀ i < h.numObjs, (h.objNames i).1 ≠ name.1 := fun i hi e => by
      have := (c.names name.1).mp ⟨i, hi, e⟩
      rw [hn] at this
      simp at this
    intro i hi j hj
    simp only at hi hj
    by_cases h1 : i = h.numObjs <;> by_cases h2 : j = h.numObjs
    · intro _; omega
    · subst h1
      simp only [Function.update_self, Function.update_of_ne h2]
      intro e; exact absurd e.symm (hne j (by omega))
    · subst h2
      simp only [Function.update_self, Function.update_of_ne h1]
      intro e; exact absurd e (hne i (by omega))
    · simp only [Function.update_of_ne h1, Function.update_of_ne h2]
      exact c.inj i (by omega) j (by omega)
  room := by simp only; omega

theorem view_push {h : LisoHash} (name : CharBuf maxobjname) (p : Option Path)
    (names : ℕ → CharBuf maxobjname) (n : ℕ) :
    view sfh ⟨Chain.push Pair.name (hashIndex sfh) h.hash ⟨name, p⟩, names, n⟩ =
      Function.update (view sfh h) name.1 (some p) := by
  funext s
  rw [view, pairOf, Chain.lookup_push]
  by_cases hs : name.1 = s
  · subst hs; simp [Pair.name]
  · rw [Function.update_of_ne (Ne.symm hs), if_neg (by exact hs)]; rfl

/-- What `hash_add` does when the early return of the lookup hides nothing: it leaves a path that is
no dearer, stores the path in the pair it finds, or appends a pair and a slot of the key list. -/
theorem hashAdd_cases {h h' : LisoHash} {s : CString} {n : Int32} {c : ℤ}
    (hl : containsObject sfh h s = pairOf sfh h s) (e : hashAdd sfh h s n c = .ok h') :
    (∃ q p, pairOf sfh h s = some q ∧ q.pathS = some p ∧ ¬ p.cost > c ∧ h' = h) ∨
    (∃ q, pairOf sfh h s = some q ∧ (∀ p, q.pathS = some p → p.cost > c) ∧
      h' = h.setPath sfh s ⟨n, c⟩) ∨
    ∃ name : CharBuf maxobjname, name.1 = s ∧ pairOf sfh h s = none ∧ h.numObjs < maxobjnum ∧
      h' = ⟨Chain.push Pair.name (hashIndex sfh) h.hash ⟨name, some ⟨n, c⟩⟩,
        Function.update h.objNames h.numObjs name, h.numObjs + 1⟩ := by
  unfold hashAdd at e
  rw [hl] at e
  cases hq : pairOf sfh h s with
  | some q =>
    rw [hq] at e
    cases hp : q.pathS with
    | none =>
      simp only [hp, Except.ok.injEq] at e
      exact Or.inr (Or.inl ⟨q, rfl, fun p h => absurd (hp.symm.trans h) (by simp), e.symm⟩)
    | some p =>
      simp only [hp] at e
      split_ifs at e with hlt <;> rw [Except.ok.injEq] at e
      · refine Or.inr (Or.inl ⟨q, rfl, fun p' h => ?_, e.symm⟩)
        rw [hp, Option.some.injEq] at h
        exact h ▸ hlt
      · exact Or.inl ⟨q, p, rfl, hp, hlt, e.symm⟩
  | none =>
    simp only [hq, bind_eq_ok] at e
    obtain ⟨name, hname, e⟩ := e
    split_ifs at e with hr
    rw [Except.ok.injEq] at e
    exact Or.inr (Or.inr ⟨name, strcpy_eq_ok.mp hname, rfl, hr, e.symm⟩)

/-- **`hash_add` announces.** -/
theorem hashAdd_spec {h h' : LisoHash} {s : CString} {n : Int32} {c : ℤ} (hc : Consistent sfh h)
    (e : hashAdd sfh h s n c = .ok h') :
    Consistent sfh h' ∧ view sfh h' = (view sfh h).announce s ⟨n, c⟩ := by
  have hv : view sfh h s = (pairOf sfh h s).map Pair.pathS := rfl
  rcases hashAdd_cases (containsObject_eq hc s) e with
    ⟨q, p, hq, hp, hlt, rfl⟩ | ⟨q, hq, hlt, rfl⟩ | ⟨name, rfl, hq, hr, rfl⟩
  · refine ⟨hc, ?_⟩
    rw [hq, Option.map_some, hp] at hv
    rw [ObjMap.announce, hv, announcePath, if_neg hlt, ← hv, Function.update_eq_self]
  · refine ⟨hc.alter s (f := fun q => { q with pathS := some ⟨n, c⟩ }) fun _ => rfl, ?_⟩
    rw [view_setPath hq, ObjMap.announce, hv, hq, Option.map_some]
    cases hp : q.pathS with
    | none => rfl
    | some p => rw [announcePath, if_pos (hlt p hp)]
  · refine ⟨hc.push hq hr _, ?_⟩
    rw [view_push, ObjMap.announce, hv, hq]
    rfl

/-- `hash_add` of a name that fits faults only when the counter has reached the end of the key list. -/
theorem hashAdd_error_cases {h : LisoHash} {s : CharBuf maxobjname} {n : Int32} {c : ℤ} {f : Fault}
    (hl : containsObject sfh h s.1 = pairOf sfh h s.1) (e : hashAdd sfh h s.1 n c = .error f) :
    f = .overflow ∧ pairOf sfh h s.1 = none ∧ ¬ h.numObjs < maxobjnum := by
  unfold hashAdd at e
  rw [hl] at e
  cases hq : pairOf sfh h s.1 with
  | some q =>
    rw [hq] at e
    simp only at e
    split at e
    · cases e
    · split_ifs at e
  | none =>
    simp only [hq, strcpy_self, ok_bind] at e
    split_ifs at e with hr
    rw [Except.error.injEq] at e
    exact ⟨e.symm, rfl, hr⟩

theorem hashAdd_eq_error {h : LisoHash} {s : CharBuf maxobjname} {n : Int32} {c : ℤ} {f : Fault}
    (hc : Consistent sfh h) (e : hashAdd sfh h s.1 n c = .error f) :
    f = .overflow ∧ view sfh h s.1 = none ∧ h.numObjs = maxobjnum := by
  obtain ⟨hf, hq, hr⟩ := hashAdd_error_cases (containsObject_eq hc s.1) e
  have := hc.room
  exact ⟨hf, by rw [view, hq]; rfl, by omega⟩

/-! ### `hash_remove_node` and `collapse` -/

theorem clearNode_name (n : Int32) (p : Pair) : (clearNode n p).name = p.name := by
  unfold clearNode; split_ifs <;> rfl

theorem clearNode_pathS (n : Int32) (p : Pair) :
    (clearNode n p).pathS = withdrawPath n p.pathS := by
  unfold clearNode withdrawPath; split_ifs <;> rfl

theorem withdrawPath_idem (n : Int32) (p : Option Path) :
    withdrawPath n (withdrawPath n p) = withdrawPath n p := by
  unfold withdrawPath; split_ifs <;> simp_all

variable (sfh) in
/-- The walks of `hash_remove_node` for a list of names. -/
def clearWalks (h : LisoHash) (n : Int32) (l : List CString) : LisoHash :=
  { h with
    hash := l.foldl (fun t s => Chain.alter Pair.name (hashIndex sfh) t s (clearNode n)) h.hash }

theorem clearWalks_spec (h : LisoHash) (n : Int32) (l : List CString) (c : Consistent sfh h) :
    Consistent sfh (clearWalks sfh h n l) ∧ ∀ s, view sfh (clearWalks sfh h n l) s =
      (view sfh h s).map fun p => if s ∈ l then withdrawPath n p else p := by
  induction l generalizing h with
  | nil => exact ⟨c, fun s => by simp [clearWalks]⟩
  | cons s₀ l ih =>
    have c' := c.alter s₀ (clearNode_name n)
    obtain ⟨h1, h2⟩ := ih _ c'
    refine ⟨h1, fun s => (h2 s).trans ?_⟩
    rw [view_alter s₀ s (clearNode_name n), view, Option.map_map, Option.map_map]
    congr 1
    funext p
    by_cases hs : s = s₀ <;> by_cases hl : s ∈ l <;>
      simp [hs, hl, clearNode_pathS, withdrawPath_idem]

/-- **`hash_remove_node` withdraws.** -/
theorem hashRemoveNode_spec {h : LisoHash} (c : Consistent sfh h) (n : Int32) :
    Consistent sfh (hashRemoveNode sfh h n) ∧
      view sfh (hashRemoveNode sfh h n) = (view sfh h).withdraw n := by
  unfold hashRemoveNode
  split_ifs with h0
  · refine ⟨c, funext fun s => ?_⟩
    rw [ObjMap.withdraw, view, c.pairOf_eq_none h0]; rfl
  · have key := clearWalks_spec h n ((List.range h.numObjs).map fun i => (h.objNames i).1) c
    unfold clearWalks at key
    rw [List.foldl_map] at key
    refine ⟨key.1, funext fun s => ?_⟩
    rw [key.2 s, ObjMap.withdraw]
    cases hv : view sfh h s with
    | none => rfl
    | some p =>
      -- a stored name is in the key list
      have hm : s ∈ (List.range h.numObjs).map fun i => (h.objNames i).1 := by
        have : (pairOf sfh h s).isSome := by
          rw [view, Option.map_eq_some_iff] at hv
          obtain ⟨q, hq, _⟩ := hv
          rw [hq]; rfl
        obtain ⟨i, hi, e⟩ := (c.names s).mpr this
        exact List.mem_map.mpr ⟨i, List.mem_range.mpr hi, e⟩
      simp [hm]

/-- **`collapse` empties.** -/
theorem collapse_spec {h : LisoHash} (c : Consistent sfh h) :
    Consistent sfh (collapse h).2 ∧ view sfh (collapse h).2 = ObjMap.empty := by
  unfold collapse
  split_ifs with h0
  · exact ⟨c, funext fun s => by rw [view, c.pairOf_eq_none h0]; rfl⟩
  · exact ⟨consistent_initHash, view_initHash⟩

/-! ### Stored paths -/

/-- Every stored path satisfies `P`. -/
def ForallPaths (sfh : CString → UInt32) (h : LisoHash) (P : Path → Prop) : Prop :=
  ∀ s p, view sfh h s = some (some p) → P p

theorem ForallPaths.mono {h : LisoHash} {P Q : Path → Prop} (hp : ForallPaths sfh h P)
    (hq : ∀ p, P p → Q p) : ForallPaths sfh h Q := fun s p hs => hq p (hp s p hs)

theorem ForallPaths.mem {h : LisoHash} {P : Path → Prop} (hp : ForallPaths sfh h P)
    (c : Consistent sfh h) {i : ℕ} {q : Pair} (hq : q ∈ h.hash i) {p : Path}
    (hqp : q.pathS = some p) : P p :=
  hp q.name p ((view_eq_some_iff c).mpr ⟨i, q, hq, rfl, hqp⟩)

theorem forallPaths_initHash {P : Path → Prop} : ForallPaths sfh initHash P := by
  intro s p hs
  rw [view_initHash] at hs
  cases hs

theorem ForallPaths.hashAdd {h h' : LisoHash} {P : Path → Prop} {s : CString} {n : Int32} {c : ℤ}
    (hp : ForallPaths sfh h P) (hc : Consistent sfh h) (e : hashAdd sfh h s n c = .ok h')
    (hn : P ⟨n, c⟩) : ForallPaths sfh h' P := by
  obtain ⟨-, hv⟩ := hashAdd_spec hc e
  intro s' p hs
  rw [hv] at hs
  by_cases hs' : s' = s
  · subst hs'
    rw [ObjMap.announce_self, Option.some.injEq, Option.some.injEq] at hs
    subst hs
    rcases announcePath_cases (view sfh h s') ⟨n, c⟩ with hnew | hold
    · rw [hnew]
      exact hn
    · exact hp _ _ hold
  · rw [ObjMap.announce_of_ne hs'] at hs
    exact hp _ _ hs

theorem ForallPaths.hashRemoveNode {h : LisoHash} {P : Path → Prop} (hp : ForallPaths sfh h P)
    (hc : Consistent sfh h) (n : Int32) :
    ForallPaths sfh (hashRemoveNode sfh h n) fun p => P p ∧ p.nodeId ≠ n := by
  intro s p hs
  rw [(hashRemoveNode_spec hc n).2, ObjMap.withdraw, Option.map_eq_some_iff] at hs
  obtain ⟨q, hq, hw⟩ := hs
  unfold withdrawPath at hw
  split_ifs at hw with hn
  subst hw
  exact ⟨hp s p hq, fun e => hn (by rw [Option.map_some, e])⟩

end RoutingDaemon
