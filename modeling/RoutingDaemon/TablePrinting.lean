import RoutingDaemon.HeapSafety

/-!
# Printing the table in memory

* `Represents.printPair`, `Represents.mapM_printPair`: the loop of `printPairs`.
* `printPairs_eq`: `printPairs` prints the objects in the order in which they were added, each that has a
  path with its path.
-/

namespace RoutingDaemon.Heap

section Printing

variable {A : Allocator} {sfh : CString → UInt32} {t t' : LisoHash} {h : RoutingDaemon.LisoHash}
  {cells : ℕ → List ℕ}

/-- The lines of an object. -/
def objectLines (s : CString) : Option Path → List Line
  | none => []
  | some p => [.object s, .path p.nodeId p.cost]

theorem Represents.printPair (R : Represents t h cells) (i : ℕ) :
    Heap.printPair sfh t i =
      .ok (objectLines (h.objNames i).1 (RoutingDaemon.getPaths sfh h (h.objNames i).1)) := by
  obtain ⟨ptr, hptr, hpath, hlast⟩ := R.getPaths sfh (h.objNames i).1
  unfold Heap.printPair
  rw [R.names, hptr, ← hpath, ok_bind]
  cases ptr with
  | none => rfl
  | some p =>
    obtain ⟨live, hnext⟩ := hlast p rfl
    unfold rounds
    rw [printPaths, Memory.load_live live, ok_bind, hnext, printPaths]
    rfl

theorem Represents.mapM_printPair (R : Represents t h cells) (is : List ℕ) :
    is.mapM (Heap.printPair sfh t) = .ok (is.map fun i =>
      objectLines (h.objNames i).1 (RoutingDaemon.getPaths sfh h (h.objNames i).1)) := by
  induction is with
  | nil => rfl
  | cons i is ih =>
    rw [List.mapM_cons, R.printPair, ok_bind, ih]
    rfl

theorem objNames_above {calls : List Call} (hnew : NewestRemoved calls) (hf : Fits calls)
    (e : RoutingDaemon.execCalls sfh calls = .ok h) : ∀ i, h.numObjs ≤ i → h.objNames i = emptyName := by
  induction calls using List.reverseRecOn generalizing h with
  | nil =>
    cases e
    exact fun i _ => rfl
  | append_singleton calls call ih =>
    rw [execCalls_concat, bind_eq_ok] at e
    obtain ⟨h₁, e₁, e⟩ := e
    obtain ⟨hnew', hlast⟩ := (newestRemoved_concat calls call).mp hnew
    obtain ⟨hfc, -⟩ := (fits_concat calls call).mp hf
    have ih := ih hnew' hfc e₁
    have c := execCalls_chained e₁
    match call with
    | .op (.add name node cost) =>
      rcases hashAdd_cases (c.containsObject_eq name.1) e with
        ⟨q, p, -, -, -, rfl⟩ | ⟨q, -, -, rfl⟩ | ⟨name, -, -, -, rfl⟩
      · exact ih
      · exact ih
      · intro i hi
        show Function.update h₁.objNames h₁.numObjs name i = emptyName
        rw [Function.update_of_ne (Nat.ne_of_gt hi)]
        exact ih i (Nat.le_of_succ_le hi)
    | .op (.removeNode node) =>
      cases e
      unfold RoutingDaemon.hashRemoveNode
      split_ifs <;> exact ih
    | .op .collapse =>
      cases e
      unfold RoutingDaemon.collapse
      split_ifs
      · exact ih
      · exact fun i _ => rfl
    | .removeObject name =>
      cases e
      by_cases hm : name.1 ∈ stored calls
      · intro i hi
        rw [numObjs_hashRemoveObject c hm] at hi
        rw [objNames_hashRemoveObject c hm]
        by_cases hi' : h₁.numObjs ≤ i
        · rw [ih i hi', ite_self]
        · -- the slot of the removed name is the last one
          have hpos : i = h₁.numObjs - 1 := by omega
          have hroom : (stored calls).length ≤ maxobjnum := hfc calls List.prefix_rfl
          have hcount := c.count
          have hkey := keyList_execCalls hnew' e₁
          have hlast := hlast name rfl hm
          rw [← hkey, List.getLast?_eq_getElem?, keyList, List.getElem?_map, List.length_map,
            List.length_range, List.getElem?_range (by omega), Option.map_some, Option.some.injEq,
            ← hpos] at hlast
          have hi'' : i < maxobjnum := by omega
          exact if_pos ⟨hi'', hlast⟩
      · rw [c.hashRemoveObject_of_notMem hm]
        exact ih

/-- **`printPairs` prints the objects in the order in which they were added**, each that has a path once and
with its path: in a run that removes objects, if any, only from the end of the key list. -/
theorem printPairs_eq (A : Allocator) (sfh : CString → UInt32) {t : LisoHash} (hu : Unused t)
    {calls : List Call} (hn : ∀ call ∈ calls, call.Named) (hnew : NewestRemoved calls) (hf : Fits calls) :
    ∃ t' h, execCalls A sfh t calls = .ok t' ∧ RoutingDaemon.execCalls sfh calls = .ok h ∧
      printPairs sfh t' = .ok (if stored calls = [] then [] else
        ((stored calls).flatMap fun s => objectLines s (RoutingDaemon.getPaths sfh h s)) ++ [.blank]) := by
  obtain ⟨t', h, ht, hh, cells, R⟩ := exists_represents A sfh hu hf
  refine ⟨t', h, ht, hh, ?_⟩
  have c := execCalls_chained hh
  have hempty : stored calls = [] ↔ t'.numObjs = 0 := by
    rw [R.count, c.count, List.length_eq_zero_iff]
  unfold printPairs
  simp only [hempty]
  split_ifs with h0
  · rfl
  · have hroom : h.numObjs ≤ maxobjnum := c.count ▸ hf calls List.prefix_rfl
    obtain ⟨d, hd⟩ := Nat.exists_eq_add_of_le hroom
    have hsize : hashsize = h.numObjs + d := hd
    rw [R.mapM_printPair, ok_bind, ← List.flatMap_def, hsize, List.range_add, List.flatMap_append]
    have hlow : (List.range h.numObjs).flatMap
        (fun i => objectLines (h.objNames i).1 (RoutingDaemon.getPaths sfh h (h.objNames i).1)) =
        (stored calls).flatMap fun s => objectLines s (RoutingDaemon.getPaths sfh h s) := by
      rw [← keyList_execCalls hnew hh, keyList, List.flatMap_map]
    -- no object has the empty name that the other slots hold
    have hnone : RoutingDaemon.getPaths sfh h emptyName.1 = none := by
      have hnot : emptyName.1 ∉ stored calls := fun hm => stored_named hn _ hm rfl
      rw [c.names, Option.not_isSome_iff_eq_none] at hnot
      rw [c.getPaths_eq, hnot]
      rfl
    have hhigh : ((List.range d).map (h.numObjs + ·)).flatMap
        (fun i => objectLines (h.objNames i).1 (RoutingDaemon.getPaths sfh h (h.objNames i).1)) = [] := by
      rw [List.flatMap_eq_nil_iff]
      intro i hi
      obtain ⟨j, -, rfl⟩ := List.mem_map.mp hi
      rw [objNames_above hnew hf hh _ (Nat.le_add_right ..), hnone]
      rfl
    rw [hlow, hhigh, List.append_nil]

theorem newestRemoved_of_ops {calls : List Call} (h : ∀ name, .removeObject name ∉ calls) :
    NewestRemoved calls := by
  intro pre name hp
  exact absurd (hp.subset (by simp)) (h name)

/-- Two objects are added, and the node of the first is removed. -/
def firstCleared : List Call :=
  [.op (.add objectO 1 2), .op (.add objectP 3 5), .op (.removeNode 1)]

theorem printPairs_eq_firstCleared :
    ∃ t' h, execCalls above superFastHash noCells firstCleared = .ok t' ∧
      printPairs superFastHash t' = .ok (
        objectLines objectO.1 (RoutingDaemon.getPaths superFastHash h objectO.1) ++
        objectLines objectP.1 (RoutingDaemon.getPaths superFastHash h objectP.1) ++ [.blank]) := by
  obtain ⟨t', h, ht, -, hp⟩ := printPairs_eq above superFastHash unused_noCells
    (by simp [firstCleared, Call.Named, objectO, objectP, cstr] : ∀ call ∈ firstCleared, call.Named)
    (newestRemoved_of_ops (by simp [firstCleared])) (fits_of_length (by decide))
  refine ⟨t', h, ht, hp.trans ?_⟩
  rw [show stored firstCleared = [objectO.1, objectP.1] by decide]
  simp

end Printing

end RoutingDaemon.Heap
