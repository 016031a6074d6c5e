import RoutingDaemon.ObjectTable
import RoutingDaemon.Lib.Nearest

/-!
# Histories of the object table

* `Op`, `execOps`: runs of `hash_add`, `hash_remove_node` and `collapse` from `init_hash`.
* `absRun`: the same run on `ObjMap`; `known`, `offers`, `live`: the names since the last collapse,
  the announcements of a name since its path was last emptied, and those of nodes not removed since.
* `Tracks`: what a table reached by a run satisfies; `execOps_tracks`, `exists_execOps`.
* `execOps_refines`: the table is the map. `nearestAlive_iff`: when the path stored for a name is the
  nearest among the live announcements.
-/

namespace RoutingDaemon

/-- An operation on the object table. -/
inductive Op
  | add (name : CharBuf maxobjname) (node : Int32) (cost : ℤ)
  | removeNode (node : Int32)
  | collapse

section Table

variable (sfh : CString → UInt32)

/-- One operation on the table. -/
def applyOp (h : LisoHash) : Op → Except Fault LisoHash
  | .add name node cost => hashAdd sfh h name.1 node cost
  | .removeNode node => .ok (hashRemoveNode sfh h node)
  | .collapse => .ok (collapse h).2

/-- A run of operations from `init_hash`. -/
def execOps (ops : List Op) : Except Fault LisoHash := ops.foldlM (applyOp sfh) initHash

end Table

/-- One operation on the map. -/
def absOp (m : ObjMap) : Op → ObjMap
  | .add name node cost => m.announce name.1 ⟨node, cost⟩
  | .removeNode node => m.withdraw node
  | .collapse => ObjMap.empty

/-- A run of operations on the map. -/
def absRun (ops : List Op) : ObjMap := ops.foldl absOp ObjMap.empty

/-- The distinct names after one more operation. -/
def knownOp (l : List CString) : Op → List CString
  | .add name _ _ => l.insert name.1
  | .removeNode _ => l
  | .collapse => []

/-- The distinct names since the last collapse. -/
def known (ops : List Op) : List CString := ops.foldl knownOp []

/-- There are never more than `MAXOBJNUM` distinct names between two collapses. -/
def WithinCapacity (ops : List Op) : Prop := ∀ pre, pre <+: ops → (known pre).length ≤ maxobjnum

section Announcements

variable (s : CString)

/-- The announcements of `s` standing after one more operation: a removal of the node that made the
nearest of them empties the path. -/
def offersOp (l : List Path) : Op → List Path
  | .add name node cost => if name.1 = s then l ++ [⟨node, cost⟩] else l
  | .removeNode node => if (nearest Path.cost l).map Path.nodeId = some node then [] else l
  | .collapse => []

/-- The announcements of `s` since its path was last emptied, oldest first. -/
def offers (ops : List Op) : List Path := ops.foldl (offersOp s) []

/-- The live announcements after one more operation. -/
def liveOp (l : List Path) : Op → List Path
  | .add name node cost => if name.1 = s then l ++ [⟨node, cost⟩] else l
  | .removeNode node => l.filter fun p => p.nodeId ≠ node
  | .collapse => []

/-- The announcements of `s` by nodes not removed since, oldest first. -/
def live (ops : List Op) : List Path := ops.foldl (liveOp s) []

end Announcements

/-! ### One more operation -/

theorem forall_prefix_concat {α : Type*} {P : List α → Prop} {l : List α} {a : α} :
    (∀ pre, pre <+: l ++ [a] → P pre) ↔ (∀ pre, pre <+: l → P pre) ∧ P (l ++ [a]) := by
  constructor
  · exact fun h => ⟨fun pre hp => h pre (hp.trans (List.prefix_append _ _)), h _ List.prefix_rfl⟩
  · rintro ⟨h1, h2⟩ pre hp
    rcases List.prefix_concat_iff.mp hp with rfl | hp
    · exact h2
    · exact h1 pre hp

theorem foldlM_concat {ε α β : Type} (f : β → α → Except ε β) (b : β) (l : List α) (a : α) :
    (l ++ [a]).foldlM f b = l.foldlM f b >>= fun c => f c a := by
  rw [List.foldlM_append]
  simp only [List.foldlM_cons, List.foldlM_nil, bind_pure]

section Concat

variable (ops : List Op) (op : Op) (s : CString)

@[simp] theorem absRun_concat : absRun (ops ++ [op]) = absOp (absRun ops) op := by
  simp [absRun]

@[simp] theorem known_concat : known (ops ++ [op]) = knownOp (known ops) op := by
  simp [known]

@[simp] theorem offers_concat : offers s (ops ++ [op]) = offersOp s (offers s ops) op := by
  simp [offers]

@[simp] theorem live_concat : live s (ops ++ [op]) = liveOp s (live s ops) op := by
  simp [live]

theorem execOps_concat (sfh : CString → UInt32) :
    execOps sfh (ops ++ [op]) = execOps sfh ops >>= fun h => applyOp sfh h op :=
  foldlM_concat _ _ _ _

theorem withinCapacity_concat :
    WithinCapacity (ops ++ [op]) ↔
      WithinCapacity ops ∧ (known (ops ++ [op])).length ≤ maxobjnum := by
  exact forall_prefix_concat (P := fun pre => (known pre).length ≤ maxobjnum)

end Concat

theorem length_known_le (ops : List Op) : (known ops).length ≤ ops.length := by
  induction ops using List.reverseRecOn with
  | nil => exact le_rfl
  | append_singleton ops op ih =>
    rw [known_concat, List.length_append, List.length_singleton]
    cases op with
    | add name node cost =>
      rw [knownOp, List.length_insert]
      split_ifs <;> omega
    | removeNode node => rw [knownOp]; omega
    | collapse => simp [knownOp]

theorem withinCapacity_of_length {ops : List Op} (h : ops.length ≤ maxobjnum) :
    WithinCapacity ops := fun pre hp =>
  (length_known_le pre).trans (hp.length_le.trans h)

/-! ### The map and the announcements -/

theorem mem_known {ops : List Op} {s : CString} : s ∈ known ops ↔ (absRun ops s).isSome := by
  induction ops using List.reverseRecOn with
  | nil => simp [known, absRun, ObjMap.empty]
  | append_singleton ops op ih =>
    rw [absRun_concat, known_concat]
    cases op with
    | add name node cost =>
      rw [knownOp, List.mem_insert_iff, ih, absOp, ObjMap.announce_isSome]
    | removeNode node => rw [knownOp, ih, absOp, ObjMap.withdraw, Option.isSome_map]
    | collapse => simp [knownOp, absOp, ObjMap.empty]

theorem announcePath_eq (old : Option (Option Path)) (p : Path) :
    announcePath old p = closer Path.cost old.join p := by
  rcases old with _ | _ | q <;> rfl

/-- **The path of a name is the earliest of the cheapest announcements since it was last emptied.** -/
theorem absRun_join (ops : List Op) (s : CString) :
    (absRun ops s).join = nearest Path.cost (offers s ops) := by
  induction ops using List.reverseRecOn with
  | nil => rfl
  | append_singleton ops op ih =>
    rw [absRun_concat, offers_concat]
    cases op with
    | add name node cost =>
      rw [absOp, ObjMap.announce, offersOp]
      by_cases hs : name.1 = s
      · subst hs
        rw [Function.update_self, if_pos rfl, nearest_concat, ← ih, ← announcePath_eq]; rfl
      · rw [Function.update_of_ne (Ne.symm hs), if_neg hs, ih]
    | removeNode node =>
      rw [absOp, ObjMap.withdraw, offersOp, ← ih]
      cases hm : absRun ops s with
      | none =>
        rw [hm] at ih
        simpa using ih
      | some p =>
        rw [hm] at ih
        rw [Option.map_some, Option.join_some, Option.join_some, withdrawPath]
        split_ifs
        · rfl
        · exact ih
    | collapse => rfl

theorem nearest_mem_live {ops : List Op} {s : CString} {p : Path}
    (h : nearest Path.cost (offers s ops) = some p) : p ∈ live s ops := by
  induction ops using List.reverseRecOn generalizing p with
  | nil => simp [offers] at h
  | append_singleton ops op ih =>
    rw [offers_concat] at h
    rw [live_concat]
    cases op with
    | add name node cost =>
      simp only [offersOp, liveOp] at h ⊢
      split_ifs at h ⊢ with hs
      · rw [nearest_concat, Option.some.injEq] at h
        rw [List.mem_append, List.mem_singleton]
        -- either the new announcement is held or the old one was
        cases hn : nearest Path.cost (offers s ops) with
        | none => rw [hn, closer] at h; exact Or.inr h.symm
        | some q =>
          rw [hn, closer] at h
          split_ifs at h
          · exact Or.inr h.symm
          · exact Or.inl (h ▸ ih hn)
      · exact ih h
    | removeNode node =>
      rw [offersOp] at h
      split_ifs at h with hn
      · simp at h
      · rw [liveOp, List.mem_filter]
        refine ⟨ih h, ?_⟩
        rw [h, Option.map_some, Option.some.injEq] at hn
        simpa using hn
    | collapse => simp [offersOp] at h

/-! ### The table along a run -/

variable {sfh : CString → UInt32}

theorem hashAdd_numObjs {h h' : LisoHash} {s : CString} {n : Int32} {c : ℤ}
    (hc : Consistent sfh h) (e : hashAdd sfh h s n c = .ok h') :
    h'.numObjs = if (view sfh h s).isSome then h.numObjs else h.numObjs + 1 := by
  rw [view, Option.isSome_map]
  rcases hashAdd_cases (containsObject_eq hc s) e with
    ⟨q, p, hq, -, -, rfl⟩ | ⟨q, hq, -, rfl⟩ | ⟨name, -, hq, -, rfl⟩
  · rw [hq, Option.isSome_some, if_pos rfl]
  · rw [hq, Option.isSome_some, if_pos rfl]
    rfl
  · rw [hq, Option.isSome_none, if_neg Bool.false_ne_true]

theorem hashRemoveNode_numObjs (h : LisoHash) (n : Int32) :
    (hashRemoveNode sfh h n).numObjs = h.numObjs := by
  unfold hashRemoveNode; split_ifs <;> rfl

theorem collapse_numObjs (h : LisoHash) : (collapse h).2.numObjs = 0 := by
  unfold collapse; split_ifs with h0
  · exact h0
  · rfl

/-- The table `h` stands for the map of the run, and counts its names. -/
structure Tracks (sfh : CString → UInt32) (ops : List Op) (h : LisoHash) : Prop where
  consistent : Consistent sfh h
  view : view sfh h = absRun ops
  count : h.numObjs = (known ops).length

theorem tracks_nil : Tracks sfh [] initHash := ⟨consistent_initHash, view_initHash, rfl⟩

theorem Tracks.step {ops : List Op} {h h' : LisoHash} {op : Op} (t : Tracks sfh ops h)
    (e : applyOp sfh h op = .ok h') : Tracks sfh (ops ++ [op]) h' := by
  cases op with
  | add name node cost =>
    obtain ⟨hc, hv⟩ := hashAdd_spec t.consistent e
    refine ⟨hc, by rw [hv, t.view, absRun_concat]; rfl, ?_⟩
    rw [hashAdd_numObjs t.consistent e, t.view, t.count, known_concat, knownOp]
    split_ifs with hs
    · rw [List.length_insert_of_mem (mem_known.mpr hs)]
    · rw [List.length_insert_of_not_mem (by rwa [mem_known])]
  | removeNode node =>
    cases e
    obtain ⟨hc, hv⟩ := hashRemoveNode_spec t.consistent node
    exact ⟨hc, by rw [hv, t.view, absRun_concat]; rfl,
      by rw [hashRemoveNode_numObjs, t.count, known_concat]; rfl⟩
  | collapse =>
    cases e
    obtain ⟨hc, hv⟩ := collapse_spec t.consistent
    exact ⟨hc, by rw [hv, absRun_concat]; rfl, by rw [collapse_numObjs, known_concat]; rfl⟩

theorem Tracks.progress {ops : List Op} {h : LisoHash} (t : Tracks sfh ops h) (op : Op)
    (hc : (known (ops ++ [op])).length ≤ maxobjnum) : ∃ h', applyOp sfh h op = .ok h' := by
  cases op with
  | add name node cost =>
    cases e : hashAdd sfh h name.1 node cost with
    | ok h' => exact ⟨h', e⟩
    | error f =>
      obtain ⟨-, hv, hn⟩ := hashAdd_eq_error t.consistent e
      rw [t.view] at hv
      have hm : name.1 ∉ known ops := by rw [mem_known, hv]; simp
      have hl := t.count
      rw [known_concat, knownOp, List.length_insert_of_not_mem hm] at hc
      omega
  | removeNode node => exact ⟨_, rfl⟩
  | collapse => exact ⟨_, rfl⟩

/-- **A run that does not fault keeps the table and the map together.** -/
theorem execOps_tracks {ops : List Op} {h : LisoHash} (e : execOps sfh ops = .ok h) :
    Tracks sfh ops h ∧ WithinCapacity ops := by
  induction ops using List.reverseRecOn generalizing h with
  | nil =>
    cases e
    refine ⟨tracks_nil, fun pre hp => ?_⟩
    rw [List.prefix_nil.mp hp]
    exact Nat.zero_le _
  | append_singleton ops op ih =>
    rw [execOps_concat, bind_eq_ok] at e
    obtain ⟨h₁, e₁, e⟩ := e
    obtain ⟨t, hc⟩ := ih e₁
    have t' := t.step e
    exact ⟨t', (withinCapacity_concat ops op).mpr ⟨hc, t'.count ▸ t'.consistent.room⟩⟩

/-- **A run within the capacity does not fault.** -/
theorem exists_execOps (sfh : CString → UInt32) {ops : List Op} (hc : WithinCapacity ops) :
    ∃ h, execOps sfh ops = .ok h := by
  induction ops using List.reverseRecOn with
  | nil => exact ⟨_, rfl⟩
  | append_singleton ops op ih =>
    obtain ⟨hc, hl⟩ := (withinCapacity_concat ops op).mp hc
    obtain ⟨h, e⟩ := ih hc
    obtain ⟨h', e'⟩ := (execOps_tracks e).1.progress op hl
    exact ⟨h', by rw [execOps_concat, e]; exact e'⟩

theorem Consistent.hash_eq_nil {h : LisoHash} (c : Consistent sfh h) (h0 : h.numObjs = 0) (i : ℕ) :
    h.hash i = [] := by
  refine List.eq_nil_iff_forall_not_mem.mpr fun q hq => ?_
  have : pairOf sfh h q.name = some q := c.placed.lookup_eq_some_iff.mpr ⟨rfl, i, hq⟩
  rw [c.pairOf_eq_none h0] at this
  cases this

/-- **The object table refines a finite map.** A run within the capacity does not fault;
`contains_object` and `get_paths` then agree with the map of the run, the early return on an empty
table hides nothing, and the path of a name is the earliest of the cheapest announcements since it
was last emptied. -/
theorem execOps_refines (sfh : CString → UInt32) (ops : List Op) (hc : WithinCapacity ops) :
    ∃ h, execOps sfh ops = .ok h ∧
      (∀ s, (containsObject sfh h s).map Pair.pathS = absRun ops s) ∧
      (∀ s, getPaths sfh h s = (absRun ops s).join) ∧
      (h.numObjs = 0 → ∀ i, h.hash i = []) ∧
      ∀ s, match getPaths sfh h s with
        | none => offers s ops = []
        | some p => ∃ pre post, offers s ops = pre ++ p :: post ∧
            (∀ q ∈ pre, p.cost < q.cost) ∧ ∀ q ∈ post, p.cost ≤ q.cost := by
  obtain ⟨h, e⟩ := exists_execOps sfh hc
  obtain ⟨t, -⟩ := execOps_tracks e
  have hg : ∀ s, getPaths sfh h s = (absRun ops s).join := fun s => by
    rw [getPaths_eq t.consistent, t.view]
  refine ⟨h, e, fun s => by rw [containsObject_map t.consistent, t.view], hg,
    t.consistent.hash_eq_nil, fun s => ?_⟩
  have hn : getPaths sfh h s = nearest Path.cost (offers s ops) := by rw [hg, absRun_join]
  cases hp : getPaths sfh h s with
  | none => exact (nearest_eq_none _).mp (hn ▸ hp)
  | some p => exact nearest_eq_some_iff _ (hn ▸ hp)

/-- An object with the name `o`. -/
def objectO : CharBuf maxobjname := ⟨cstr [111], by decide⟩

/-- Nodes 1 and 3 announce an object, then the nearer node 1 is removed. -/
def nearerRemoved : List Op := [.add objectO 1 2, .add objectO 3 5, .removeNode 1]

theorem execOps_refines_nearerRemoved : ∃ h, execOps superFastHash nearerRemoved = .ok h ∧
    (containsObject superFastHash h objectO.1).map Pair.pathS = some none := by
  obtain ⟨h, e, hv, -⟩ := execOps_refines superFastHash nearerRemoved
    (withinCapacity_of_length (by decide))
  exact ⟨h, e, by rw [hv]; decide⟩

/-! ### The nearest live provider -/

/-- `get_paths` answers with the nearest live announcement, and NULL only when there is none. -/
def NearestAlive (sfh : CString → UInt32) (ops : List Op) (s : CString) : Prop :=
  ∃ h, execOps sfh ops = .ok h ∧ match getPaths sfh h s with
    | none => live s ops = []
    | some p => p ∈ live s ops ∧ ∀ q ∈ live s ops, p.cost ≤ q.cost

theorem getPaths_execOps {ops : List Op} {h : LisoHash} (e : execOps sfh ops = .ok h)
    (s : CString) : getPaths sfh h s = nearest Path.cost (offers s ops) := by
  obtain ⟨t, -⟩ := execOps_tracks e
  rw [getPaths_eq t.consistent, t.view, absRun_join]

/-- **`get_paths` answers with the nearest live provider exactly when every live announcement is
matched by one at most as dear made since the path was last emptied.** The removal of the nearest
provider empties the path, and the dearer announcements that were made before are lost with it. -/
theorem nearestAlive_iff (sfh : CString → UInt32) (ops : List Op) (s : CString) :
    NearestAlive sfh ops s ↔ WithinCapacity ops ∧
      ∀ q ∈ live s ops, ∃ p ∈ offers s ops, p.cost ≤ q.cost := by
  constructor
  · rintro ⟨h, e, hm⟩
    refine ⟨(execOps_tracks e).2, fun q hq => ?_⟩
    rw [getPaths_execOps e] at hm
    cases hn : nearest Path.cost (offers s ops) with
    | none =>
      rw [hn] at hm
      simp only at hm
      rw [hm] at hq
      simp at hq
    | some p =>
      rw [hn] at hm
      exact ⟨p, nearest_mem _ hn, hm.2 q hq⟩
  · rintro ⟨hc, hm⟩
    obtain ⟨h, e⟩ := exists_execOps sfh hc
    refine ⟨h, e, ?_⟩
    rw [getPaths_execOps e]
    cases hn : nearest Path.cost (offers s ops) with
    | none =>
      refine List.eq_nil_iff_forall_not_mem.mpr fun q hq => ?_
      obtain ⟨p, hp, -⟩ := hm q hq
      rw [(nearest_eq_none _).mp hn] at hp
      simp at hp
    | some p =>
      refine ⟨nearest_mem_live hn, fun q hq => ?_⟩
      obtain ⟨p', hp', hle⟩ := hm q hq
      exact (nearest_le _ hn p' hp').trans hle

/-- Node 3 still announces the object, and `get_paths` gives NULL. -/
theorem not_nearestAlive_nearerRemoved :
    ¬ NearestAlive superFastHash nearerRemoved objectO.1 := by
  rintro ⟨h, e, hm⟩
  rw [getPaths_execOps e, show nearest Path.cost (offers objectO.1 nearerRemoved) = none by decide]
    at hm
  exact absurd hm (by decide)

end RoutingDaemon
