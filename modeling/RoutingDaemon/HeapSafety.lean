import RoutingDaemon.HeapRemoval

/-!
# Runs of the hash table in memory

* `StandsFor`: the table in memory and its lookups stand for a table of lists. `memory_safe`: a run of the
  interface does in memory what it does on lists, and misuses no memory.
* `no_leak`: every allocated cell is found by a lookup, and `collapse` frees them all.
-/

namespace RoutingDaemon.Heap

/-- The table in memory stands for the table of lists, and so do its lookups. -/
structure StandsFor (sfh : CString → UInt32) (t : LisoHash) (h : RoutingDaemon.LisoHash) : Prop where
  represented : ∃ cells, Represents t h cells
  object : ∀ s, ∃ ptr, containsObject sfh t s = .ok ptr ∧
    ptr.map t.pair = RoutingDaemon.containsObject sfh h s
  path : ∀ s, ∃ ptr, getPaths sfh t s = .ok ptr ∧ ptr.map t.path = RoutingDaemon.getPaths sfh h s

section Runs

variable {A : Allocator} {sfh : CString → UInt32} {t t' : LisoHash} {h : RoutingDaemon.LisoHash}
  {cells : ℕ → List ℕ}

theorem Represents.standsFor (R : Represents t h cells) : StandsFor sfh t h where
  represented := ⟨cells, R⟩
  object s := by
    obtain ⟨ptr, hptr, hmap, -⟩ := R.containsObject sfh s
    exact ⟨ptr, hptr, hmap⟩
  path s := by
    obtain ⟨ptr, hptr, hmap, -⟩ := R.getPaths sfh s
    exact ⟨ptr, hptr, hmap⟩

theorem lockstep_applyCall (A : Allocator) (sfh : CString → UInt32) (R : Represents t h cells) (call : Call) :
    Lockstep (fun t h => ∃ cells, Represents t h cells) (applyCall A sfh t call)
      ((RoutingDaemon.applyCall sfh h call).mapError fun _ => .bounds) := by
  match call with
  | .op (.add objName nodeId cost) => exact lockstep_hashAdd R objName.1 nodeId cost
  | .op (.removeNode nodeId) =>
    obtain ⟨t', ht', R'⟩ := hashRemoveNode_eq sfh R nodeId
    show Lockstep _ (hashRemoveNode sfh t nodeId) (.ok _)
    rw [ht']
    exact .ok ⟨_, R'⟩
  | .op .collapse =>
    obtain ⟨ret, t', cells', ht', -, R'⟩ := collapse_eq R
    show Lockstep _ ((collapse t).map Prod.snd) (.ok _)
    rw [ht']
    exact .ok ⟨_, R'⟩
  | .removeObject objName =>
    obtain ⟨ret, t', cells', ht', -, R'⟩ := hashRemoveObject_eq sfh R objName.1
    show Lockstep _ ((hashRemoveObject sfh t objName.1).map Prod.snd) (.ok _)
    rw [ht']
    exact .ok ⟨_, R'⟩

theorem lockstep_foldlM (A : Allocator) (sfh : CString → UInt32) (calls : List Call)
    (R : Represents t h cells) :
    Lockstep (fun t h => ∃ cells, Represents t h cells) (calls.foldlM (applyCall A sfh) t)
      ((calls.foldlM (RoutingDaemon.applyCall sfh) h).mapError fun _ => .bounds) := by
  induction calls generalizing t h cells with
  | nil => exact .ok ⟨cells, R⟩
  | cons call calls ih =>
    rw [List.foldlM_cons, List.foldlM_cons]
    cases hcall : RoutingDaemon.applyCall sfh h call with
    | error f =>
      have step := lockstep_applyCall A sfh R call
      rw [hcall] at step
      generalize applyCall A sfh t call = x at step
      cases step
      exact .error _
    | ok h' =>
      have step := lockstep_applyCall A sfh R call
      rw [hcall] at step
      generalize applyCall A sfh t call = x at step
      cases step with
      | ok R' =>
        obtain ⟨cells', R'⟩ := R'
        exact ih R'

/-- **A run of the interface does in memory what it does on lists**, for any allocator, any hash function
and any calls: no NULL or dangling pointer is used, nothing is freed twice and no walk is endless. It fails
only when the table of lists runs out of key slots. -/
theorem memory_safe (A : Allocator) (sfh : CString → UInt32) (calls : List Call) {t : LisoHash}
    (hu : Unused t) : Lockstep (StandsFor sfh) (execCalls A sfh t calls)
      ((RoutingDaemon.execCalls sfh calls).mapError fun _ => .bounds) :=
  (lockstep_foldlM A sfh calls (represents_initHash hu)).mono fun _ _ _ _ ⟨_, R⟩ => R.standsFor

theorem represents_execCalls (hu : Unused t) {calls : List Call} (e : execCalls A sfh t calls = .ok t') :
    ∃ h, RoutingDaemon.execCalls sfh calls = .ok h ∧ ∃ cells, Represents t' h cells := by
  obtain ⟨h, hh, cells, R⟩ := (lockstep_foldlM A sfh calls
    (represents_initHash hu)).of_eq_ok e
  cases hr : RoutingDaemon.execCalls sfh calls with
  | error f =>
    rw [show calls.foldlM (RoutingDaemon.applyCall sfh) RoutingDaemon.initHash = _ from hr] at hh
    cases hh
  | ok h' =>
    rw [show calls.foldlM (RoutingDaemon.applyCall sfh) RoutingDaemon.initHash = _ from hr] at hh
    cases hh
    exact ⟨h, rfl, cells, R⟩

theorem exists_represents (A : Allocator) (sfh : CString → UInt32) (hu : Unused t) {calls : List Call}
    (hf : Fits calls) :
    ∃ t' h, execCalls A sfh t calls = .ok t' ∧ RoutingDaemon.execCalls sfh calls = .ok h ∧
      ∃ cells, Represents t' h cells := by
  obtain ⟨h, e⟩ := exists_execCalls sfh hf
  have run := lockstep_foldlM A sfh calls (represents_initHash hu)
  rw [show calls.foldlM (RoutingDaemon.applyCall sfh) RoutingDaemon.initHash = .ok h from e] at run
  generalize ht : calls.foldlM (applyCall A sfh) (initHash t) = x at run
  cases run with
  | ok R => exact ⟨_, h, ht, e, R⟩

/-- The allocator that takes the address above those in use. -/
def above : Allocator where
  pick _ s := s.sup id + 1
  fresh _ _ hs := Nat.not_succ_le_self _ (Finset.le_sup (f := id) hs)

/-- A table for which nothing is allocated. -/
def noCells : LisoHash :=
  ⟨fun _ => none, fun _ => emptyName, 0, ⟨fun _ => ⟨emptyName, none, none⟩, ∅, 0⟩,
    ⟨fun _ => ⟨0, 0, none⟩, ∅, 0⟩⟩

theorem unused_noCells : Unused noCells := ⟨rfl, rfl⟩

theorem memory_safe_earlierRemoved : ∃ t', execCalls above superFastHash noCells earlierRemoved = .ok t' ∧
    ∃ h, StandsFor superFastHash t' h := by
  have run := memory_safe above superFastHash earlierRemoved unused_noCells
  obtain ⟨t', h, ht, -, -⟩ := exists_represents above superFastHash unused_noCells
    (fits_of_length (by decide) : Fits earlierRemoved)
  obtain ⟨h, -, hs⟩ := run.of_eq_ok ht
  exact ⟨t', ht, h, hs⟩

/-! ### Leaks -/

theorem Represents.card_live (R : Represents t h cells) : t.pairs.live.card = (pairs h).length := by
  have hmem : t.pairs.live = ((List.range hashsize).flatMap cells).toFinset := by
    ext a
    rw [List.mem_toFinset, List.mem_flatMap]
    constructor
    · exact R.owned.allPairs a
    · rintro ⟨i, hi, ha⟩
      exact R.owned.live hi ha
  have hnodup : ((List.range hashsize).flatMap cells).Nodup := by
    rw [List.nodup_flatMap]
    refine ⟨fun i hi => (R.owned.chain i hi).nodup, ?_⟩
    apply List.nodup_range.pairwise_of_forall_ne
    intro i hi j hj hne a ha ha'
    exact hne (R.owned.disjoint i hi j hj a ha ha')
  have hpairs : pairs h = ((List.range hashsize).flatMap cells).map t.pair := by
    rw [List.map_flatMap]
    apply List.flatMap_congr
    intro i hi
    exact R.buckets i (List.mem_range.mp hi)
  rw [hmem, List.toFinset_card_of_nodup hnodup, hpairs, List.length_map]

theorem Represents.found_of_live {l : List CString} {a : ℕ} (R : Represents t h cells)
    (c : Chained sfh l h) (ha : a ∈ t.pairs.live) :
    found t cells (hashIndex sfh (t.pair a).name) (t.pair a).name = some a := by
  obtain ⟨i, hi, hm⟩ := R.owned.allPairs a ha
  have hb := R.buckets i (List.mem_range.mp hi)
  have hplace : hashIndex sfh (t.pair a).name = i := by
    apply c.placed.placed
    rw [hb]
    exact List.mem_map_of_mem hm
  have hnodup : ((cells i).map fun b => (t.pair b).name).Nodup := by
    have := c.placed.nodup i
    rwa [hb, List.map_map] at this
  rw [hplace]
  exact Chain.find?_eq_some_of_nodup hnodup hm

theorem Represents.containsObject_of_live {l : List CString} {a : ℕ} (R : Represents t h cells)
    (c : Chained sfh l h) (ha : a ∈ t.pairs.live) :
    Heap.containsObject sfh t (t.pair a).name = .ok (some a) := by
  obtain ⟨ptr, hptr, hmap, hfound⟩ := R.containsObject sfh (t.pair a).name
  have hf := R.found_of_live c ha
  rw [c.containsObject_eq, pairOf, R.lookup, hf] at hmap
  have hne : ptr ≠ none := by
    rintro rfl
    cases hmap
  rw [hptr, ← hfound hne, hf]

theorem Represents.getPaths_of_live {l : List CString} {p : ℕ} (R : Represents t h cells)
    (c : Chained sfh l h) (hp : p ∈ t.paths.live) : ∃ s ∈ l, Heap.getPaths sfh t s = .ok (some p) := by
  obtain ⟨a, ha, hap⟩ := R.owned.allPaths p hp
  have hobj := R.containsObject_of_live c ha
  refine ⟨(t.pair a).name, ?_, ?_⟩
  · rw [c.names, pairOf, R.lookup, R.found_of_live c ha]
    rfl
  · unfold Heap.containsObject at hobj
    unfold Heap.getPaths
    split_ifs at hobj ⊢ with h0 hn
    · cases hobj
    · cases hobj
    · rw [hobj, ok_bind, if_neg (Option.some_ne_none a), Memory.load_live ha, ok_bind, hap]

theorem Represents.unused (R : Represents t h cells) (hp : pairs h = []) : Unused t := by
  have hpairs : t.pairs.live = ∅ := by
    rw [← Finset.card_eq_zero, R.card_live, hp]
    rfl
  refine ⟨hpairs, Finset.eq_empty_of_forall_notMem fun p hp => ?_⟩
  obtain ⟨a, ha, -⟩ := R.owned.allPaths p hp
  rw [hpairs] at ha
  exact Finset.notMem_empty a ha

theorem Represents.card_eq {calls : List Call} (R : Represents t h cells)
    (c : Chained sfh (stored calls) h) : t.pairs.live.card = t.numObjs := by
  rw [R.card_live, R.count]
  exact (c.length_pairs (nodup_stored calls)).symm

theorem Represents.exists_collapse {l : List CString} (R : Represents t h cells) (c : Chained sfh l h) :
    ∃ ret t', collapse t = .ok (ret, t') ∧ Unused t' := by
  obtain ⟨ret, t', cells', hc, -, R'⟩ := collapse_eq R
  refine ⟨ret, t', hc, R'.unused ?_⟩
  -- nothing is stored after `collapse`
  have c' := c.collapse
  exact List.eq_nil_of_length_eq_zero ((c'.length_pairs List.nodup_nil).symm.trans c'.count)

/-- **No cell leaks**: after every run each allocated pair is found by its name and each allocated path by
the name of a stored object, the counter counts the allocated pairs, and `collapse` frees everything. -/
theorem no_leak (A : Allocator) (sfh : CString → UInt32) (calls : List Call) {t t' : LisoHash}
    (hu : Unused t) (e : execCalls A sfh t calls = .ok t') :
    (∀ a ∈ t'.pairs.live, containsObject sfh t' (t'.pair a).name = .ok (some a)) ∧
      (∀ p ∈ t'.paths.live, ∃ s ∈ stored calls, getPaths sfh t' s = .ok (some p)) ∧
      t'.pairs.live.card = t'.numObjs ∧ t'.numObjs = (stored calls).length ∧
      ∃ ret t'', collapse t' = .ok (ret, t'') ∧ Unused t'' := by
  obtain ⟨h, hh, cells, R⟩ := represents_execCalls hu e
  have c := execCalls_chained hh
  refine ⟨fun a ha => R.containsObject_of_live c ha, fun p hp => R.getPaths_of_live c hp, R.card_eq c, ?_,
    R.exists_collapse c⟩
  rw [R.count, c.count]

theorem no_leak_earlierRemoved : ∃ t', execCalls above superFastHash noCells earlierRemoved = .ok t' ∧
    t'.pairs.live.card = 1 := by
  obtain ⟨t', h, ht, -, -⟩ := exists_represents above superFastHash unused_noCells
    (fits_of_length (by decide) : Fits earlierRemoved)
  obtain ⟨-, -, hcard, hcount, -⟩ := no_leak above superFastHash earlierRemoved unused_noCells ht
  exact ⟨t', ht, by rw [hcard, hcount]; decide⟩

end Runs

end RoutingDaemon.Heap
