import RoutingDaemon.HeapTable

/-!
# Removals from the hash table in memory

* `hashRemoveNode_eq`, `hashRemoveObject_eq`: they do in memory what they do on lists.
* `freeHeaderLink_eq`: the cells of a chain are freed, and no other; `collapse_eq`.
-/

namespace RoutingDaemon.Heap

section Remove

variable {sfh : CString → UInt32} {t : LisoHash} {h : RoutingDaemon.LisoHash} {cells : ℕ → List ℕ}
  {s : CString} {a : ℕ}

theorem removeNodeFrom_eq (sfh : CString → UInt32) (R : Represents t h cells) (nodeId : Int32) (s : CString) :
    ∃ t', removeNodeFrom sfh nodeId t s = .ok t' ∧
      Represents t' { h with hash := Chain.alter Pair.name (hashIndex sfh) h.hash s (clearNode nodeId) }
        cells := by
  have hi := hashIndex_lt sfh s
  unfold removeNodeFrom
  rw [R.linkContainsObj hi, ok_bind]
  cases hf : found t cells (hashIndex sfh s) s with
  | none => exact ⟨t, rfl, R.alter R.owned rfl rfl (fun a ha => by rw [hf] at ha; cases ha) fun _ _ _ => rfl⟩
  | some a =>
    have ha := (R.mem_found hi hf).2
    have keep (hclear : clearNode nodeId (t.pair a) = t.pair a) :
        Represents t { h with hash := Chain.alter Pair.name (hashIndex sfh) h.hash s (clearNode nodeId) }
          cells := by
      refine R.alter R.owned rfl rfl (fun b hb => ?_) fun _ _ _ => rfl
      obtain rfl := Option.some.inj (hf.symm.trans hb)
      exact hclear.symm
    rw [if_neg (Option.some_ne_none a), Memory.load_live ha, ok_bind]
    cases hp : (t.pairs.cell a).pathS with
    | none =>
      refine ⟨t, if_pos rfl, keep ?_⟩
      simp [clearNode, LisoHash.pair, hp]
    | some p =>
      obtain ⟨hlive, -⟩ := R.owned.stored a ha p hp
      rw [if_neg (Option.some_ne_none p), Memory.load_live hlive, ok_bind]
      by_cases hid : (t.paths.cell p).nodeId = nodeId
      · rw [if_pos hid]
        dsimp only [freePath, setPathS]
        rw [Memory.free_live hlive, ok_bind, ok_bind]
        dsimp only
        rw [Memory.store_live ha, ok_bind]
        refine ⟨_, rfl, R.pointAt none { t.paths with live := t.paths.live.erase p } hf
          ?_ (by simp) (fun _ _ => rfl) ?_⟩
        · intro q
          rw [Finset.mem_erase, hp, ne_eq, ne_eq, Option.some.injEq, eq_comm (a := p), and_comm]
          simp
        · rw [pair_pointAt]
          simp [clearNode, LisoHash.pair, LisoHash.path, hp, hid]
      · refine ⟨t, if_neg hid, keep ?_⟩
        simp [clearNode, LisoHash.pair, LisoHash.path, hp, hid]

/-- **`hash_remove_node` in memory.** -/
theorem hashRemoveNode_eq (sfh : CString → UInt32) (R : Represents t h cells) (nodeId : Int32) :
    ∃ t', hashRemoveNode sfh t nodeId = .ok t' ∧
      Represents t' (RoutingDaemon.hashRemoveNode sfh h nodeId) cells := by
  unfold hashRemoveNode RoutingDaemon.hashRemoveNode
  rw [R.count]
  split_ifs with h0
  · exact ⟨t, rfl, R⟩
  · clear h0
    -- the names are read from a key list that does not change
    suffices key : ∀ (is : List ℕ) (t : LisoHash) (hash : ℕ → List Pair),
        Represents t { h with hash := hash } cells →
          ∃ t', is.foldlM (fun h i => removeNodeFrom sfh nodeId h (h.objNames i).1) t = .ok t' ∧
            Represents t' { h with hash := is.foldl (fun b i =>
              Chain.alter Pair.name (hashIndex sfh) b (h.objNames i).1 (clearNode nodeId)) hash } cells from
      key _ t h.hash R
    intro is
    induction is with
    | nil => exact fun t hash R => ⟨t, rfl, R⟩
    | cons i is ih =>
      intro t hash R
      obtain ⟨t₁, h1, R₁⟩ := removeNodeFrom_eq sfh R nodeId (t.objNames i).1
      rw [show t.objNames = h.objNames from R.names] at R₁
      obtain ⟨t₂, h2, R₂⟩ := ih t₁ _ R₁
      exact ⟨t₂, bind_eq_ok.mpr ⟨t₁, h1, h2⟩, R₂⟩

theorem free_pathS {pairs : Memory PairCell} {paths : Memory PathCell} {head : ℕ → Ptr} {is : List ℕ}
    (O : Owned pairs paths head cells is) (ha : a ∈ pairs.live) :
    ∃ m, paths.free (pairs.cell a).pathS = .ok m ∧ m.cell = paths.cell ∧
      ∀ p, p ∈ m.live ↔ p ∈ paths.live ∧ (pairs.cell a).pathS ≠ some p := by
  cases hp : (pairs.cell a).pathS with
  | none => exact ⟨paths, rfl, rfl, by simp⟩
  | some q =>
    refine ⟨_, Memory.free_live (O.stored a ha q hp).1, rfl, fun p => ?_⟩
    rw [Finset.mem_erase, ne_eq, ne_eq, Option.some.injEq, eq_comm (a := q), and_comm]

/-- The memory after `prev->next_pair_s = iter->next_pair_s`. -/
def skipCell (m : Memory PairCell) (prev iter : ℕ) : Memory PairCell :=
  { m with
    cell := Function.update m.cell prev { m.cell prev with nextPairS := (m.cell iter).nextPairS } }

theorem skipCell_self (m : Memory PairCell) (b a : ℕ) :
    (skipCell m b a).cell b = { m.cell b with nextPairS := (m.cell a).nextPairS } :=
  Function.update_self ..

theorem skipCell_of_ne (m : Memory PairCell) {b a c : ℕ} (h : c ≠ b) :
    (skipCell m b a).cell c = m.cell c := Function.update_of_ne h ..

theorem skipCell_fields (m : Memory PairCell) (b a c : ℕ) :
    ((skipCell m b a).cell c).objName = (m.cell c).objName ∧
      ((skipCell m b a).cell c).pathS = (m.cell c).pathS := by
  by_cases h : c = b
  · subst h
    rw [skipCell_self]
    exact ⟨rfl, rfl⟩
  · rw [skipCell_of_ne m h]
    exact ⟨rfl, rfl⟩

theorem pair_congr {t t' : LisoHash}
    (hname : ∀ c, (t'.pairs.cell c).objName = (t.pairs.cell c).objName)
    (hpath : ∀ c, (t'.pairs.cell c).pathS = (t.pairs.cell c).pathS) (hcell : t'.paths.cell = t.paths.cell) :
    t'.pair = t.pair := by
  have hp : t'.path = t.path := by
    funext p
    unfold LisoHash.path
    rw [hcell]
  funext c
  unfold LisoHash.pair
  rw [hname, hpath, hp]

/-- What is left of a table when a pair has been unlinked and freed. -/
structure Removed (t : LisoHash) (cells : ℕ → List ℕ) (i : ℕ) (s : CString) (as : List ℕ) (t' : LisoHash) :
    Prop where
  owned : Owned t'.pairs t'.paths t'.hash (Function.update cells i as) (List.range hashsize)
  pair : t'.pair = t.pair
  names : t'.objNames = (removeObjFromObjset t s).objNames
  count : t'.numObjs = t.numObjs - 1

theorem removePair_head {ys : List ℕ} (R : Represents t h cells) (hc : cells (hashIndex sfh s) = a :: ys) :
    ∃ t', removePair sfh t s none (some a) = .ok t' ∧ Removed t cells (hashIndex sfh s) s ys t' := by
  have hi := hashIndex_lt sfh s
  have hchain := R.seg hi
  have hnodup := hchain.nodup
  rw [hc] at hchain hnodup
  obtain ⟨-, ha, rest⟩ := seg_cons.mp hchain
  obtain ⟨m, hm, hcell, hpaths⟩ := free_pathS R.owned ha
  unfold removePair
  rw [Memory.load_live ha, ok_bind, if_pos rfl, ok_bind]
  dsimp only [freePath]
  rw [hm, ok_bind, ok_bind]
  dsimp only
  rw [Memory.free_live ha]
  refine ⟨_, rfl, ?_, pair_congr (fun _ => rfl) (fun _ => rfl) hcell, rfl, rfl⟩
  have hc' : cells (hashIndex sfh s) = [] ++ a :: ys := hc
  refine R.owned.remove (List.mem_range.mpr hi) hc' rfl (fun _ => rfl) (fun _ _ => rfl) ?_ hpaths hcell
  refine rest.frame (fun c hcm => Finset.mem_erase.mpr ⟨?_, rest.live c hcm⟩) fun _ _ => rfl
  rintro rfl
  exact (List.nodup_cons.mp hnodup).1 hcm

theorem removePair_next {xs ys : List ℕ} {b : ℕ} (R : Represents t h cells)
    (hc : cells (hashIndex sfh s) = xs ++ b :: a :: ys) :
    ∃ t', removePair sfh t s (some b) (some a) = .ok t' ∧
      Removed t cells (hashIndex sfh s) s (xs ++ b :: ys) t' := by
  have hi := hashIndex_lt sfh s
  have hchain := R.seg hi
  have hnodup := hchain.nodup
  rw [hc] at hchain hnodup
  have hlive := hchain.live
  have ha : a ∈ t.pairs.live := hlive a (by simp)
  have hb : b ∈ t.pairs.live := hlive b (by simp)
  obtain ⟨m, hm, hcell, hpaths⟩ := free_pathS R.owned ha
  unfold removePair
  rw [Memory.load_live ha, ok_bind, if_neg (Option.some_ne_none b), Memory.store_live hb, ok_bind, ok_bind]
  dsimp only [freePath]
  rw [hm, ok_bind, ok_bind]
  dsimp only
  have hfree : (skipCell t.pairs b a).free (some a) =
      .ok { skipCell t.pairs b a with live := t.pairs.live.erase a } := Memory.free_live ha
  refine ⟨_, bind_eq_ok.mpr ⟨_, hfree, rfl⟩, ?_, ?_, rfl, rfl⟩
  · have hne : ∀ c ∈ xs ++ b :: ys, c ≠ a := by
      rintro c hcm rfl
      have := List.nodup_middle.mp (by simpa using hnodup : ((xs ++ [b]) ++ c :: ys).Nodup)
      exact (List.nodup_cons.mp this).1 (by simpa using hcm)
    have hother : ∀ c ∈ xs ++ ys, c ≠ b := by
      rintro c hcm rfl
      have := (List.nodup_cons.mp (List.nodup_middle.mp hnodup)).1
      simp only [List.mem_append, List.mem_cons] at this hcm
      tauto
    have hlink : ((skipCell t.pairs b a).cell b).nextPairS = (t.pairs.cell a).nextPairS := by
      rw [skipCell_self]
    have hrest : Seg PairCell.nextPairS { skipCell t.pairs b a with live := t.pairs.live.erase a }
        (t.hash (hashIndex sfh s)) (xs ++ b :: ys) none := by
      refine hchain.bypass (fun c hcm => Finset.mem_erase.mpr ⟨hne c hcm, hlive c ?_⟩)
        hlink fun c hcm => ?_
      · simp only [List.mem_append, List.mem_cons] at hcm ⊢
        tauto
      · exact congrArg PairCell.nextPairS (skipCell_of_ne t.pairs (hother c hcm))
    have hnext : ∀ c, c ∉ cells (hashIndex sfh s) →
        ((skipCell t.pairs b a).cell c).nextPairS = (t.pairs.cell c).nextPairS := by
      intro c hcc
      rw [skipCell_of_ne]
      rintro rfl
      exact hcc (by rw [hc]; simp)
    have hc' : cells (hashIndex sfh s) = (xs ++ [b]) ++ a :: ys := by simpa using hc
    have hout : xs ++ b :: ys = (xs ++ [b]) ++ ys := by simp
    rw [hout] at hrest ⊢
    have := R.owned.remove (List.mem_range.mpr hi) hc' (by rfl)
      (fun c => by exact (skipCell_fields t.pairs b a c).2) (by exact hnext) hrest hpaths hcell
    rwa [Function.update_eq_self] at this
  · exact pair_congr (fun c => (skipCell_fields t.pairs b a c).1)
      (fun c => (skipCell_fields t.pairs b a c).2) hcell

/-- **`hash_remove_object` in memory.** -/
theorem hashRemoveObject_eq (sfh : CString → UInt32) (R : Represents t h cells) (s : CString) :
    ∃ ret t' cells', hashRemoveObject sfh t s = .ok (ret, t') ∧
      (RoutingDaemon.hashRemoveObject sfh h s).1 = ret ∧
      Represents t' (RoutingDaemon.hashRemoveObject sfh h s).2 cells' := by
  have hi := hashIndex_lt sfh s
  unfold hashRemoveObject RoutingDaemon.hashRemoveObject
  rw [← R.count, R.lookup]
  by_cases h0 : t.numObjs = 0
  · rw [if_pos h0, if_pos h0]
    exact ⟨0, t, cells, rfl, rfl, R⟩
  rw [if_neg h0, if_neg h0]
  by_cases hn : t.hash (hashIndex sfh s) = none
  · rw [if_pos hn]
    have hf : found t cells (hashIndex sfh s) s = none := by
      rw [found, R.hash_eq_none hi hn]
      rfl
    rw [hf]
    exact ⟨0, t, cells, rfl, rfl, R⟩
  rw [if_neg hn, (R.seg hi).seekPrev_eq (R.seg hi).length_le_rounds, ok_bind]
  dsimp only
  rw [show (cells (hashIndex sfh s)).find? (fun a => isObj s (t.pairs.cell a)) =
    found t cells (hashIndex sfh s) s from rfl]
  cases hf : found t cells (hashIndex sfh s) s with
  | none => exact ⟨0, t, cells, rfl, rfl, R⟩
  | some a =>
    rw [if_neg (Option.some_ne_none a), Option.or_none]
    obtain ⟨hobj, xs, ys, hc, hxs⟩ := List.find?_eq_some_iff_append.mp hf
    have htake : (cells (hashIndex sfh s)).takeWhile (fun a => !isObj s (t.pairs.cell a)) = xs := by
      rw [hc, List.takeWhile_append_of_pos hxs, List.takeWhile_cons_of_neg (by simpa using hobj),
        List.append_nil]
    rw [htake]
    obtain ⟨t', ht', K⟩ : ∃ t', removePair sfh t s xs.getLast? (some a) = .ok t' ∧
        Removed t cells (hashIndex sfh s) s (xs ++ ys) t' := by
      rcases List.eq_nil_or_concat xs with rfl | ⟨xs, b, rfl⟩
      · exact removePair_head R hc
      · rw [List.concat_eq_append] at hc ⊢
        rw [List.append_assoc, List.singleton_append] at hc ⊢
        rw [show (xs ++ [b]).getLast? = some b from List.getLast?_concat]
        exact removePair_next R hc
    refine ⟨1, t', _, bind_eq_ok.mpr ⟨t', ht', rfl⟩, rfl, K.owned, fun i hi' => ?_, ?_, ?_⟩
    · show Chain.unlink Pair.name (hashIndex sfh) h.hash s i = _
      rw [Chain.unlink, K.pair]
      by_cases hj : i = hashIndex sfh s
      · rw [hj, Function.update_self, Function.update_self, R.buckets _ hi, hc, List.map_append,
          List.map_cons, List.eraseP_append_right, List.eraseP_cons_of_pos, List.map_append]
        · exact hobj
        · intro q hq
          obtain ⟨c, hcm, rfl⟩ := List.mem_map.mp hq
          have := hxs c hcm
          rw [Bool.not_eq_true'] at this
          exact Bool.eq_false_iff.mp this
      · rw [Function.update_of_ne hj, Function.update_of_ne hj, R.buckets i hi']
    · rw [K.names]
      show (removeObjFromObjset t s).objNames = fun i =>
        if i < hashsize ∧ (h.objNames i).1 = s then emptyName else h.objNames i
      rw [← R.names]
      rfl
    · show t'.numObjs = _ - 1
      rw [K.count]

/-! ### `collapse` -/

namespace Owned

variable {pairs : Memory PairCell} {paths : Memory PathCell} {head head' : ℕ → Ptr}
  {cells cells' : ℕ → List ℕ} {is : List ℕ}

theorem congr (O : Owned pairs paths head cells is) (hhead : ∀ i ∈ is, head' i = head i)
    (hcells : ∀ i ∈ is, cells' i = cells i) : Owned pairs paths head' cells' is where
  chain i hi := by
    rw [hhead i hi, hcells i hi]
    exact O.chain i hi
  disjoint i hi j hj b hb hb' := by
    rw [hcells i hi] at hb
    rw [hcells j hj] at hb'
    exact O.disjoint i hi j hj b hb hb'
  allPairs b hb := by
    obtain ⟨i, hi, hm⟩ := O.allPairs b hb
    exact ⟨i, hi, by rw [hcells i hi]; exact hm⟩
  stored := O.stored
  owner := O.owner
  allPaths := O.allPaths

theorem live_eq_empty (O : Owned pairs paths head cells []) : pairs.live = ∅ ∧ paths.live = ∅ := by
  have hpairs : pairs.live = ∅ := by
    apply Finset.eq_empty_of_forall_notMem
    intro a ha
    obtain ⟨i, hi, -⟩ := O.allPairs a ha
    exact List.not_mem_nil hi
  refine ⟨hpairs, Finset.eq_empty_of_forall_notMem fun p hp => ?_⟩
  obtain ⟨a, ha, -⟩ := O.allPaths p hp
  rw [hpairs] at ha
  exact Finset.notMem_empty a ha

end Owned

theorem freePathLink_eq {pairs : Memory PairCell} {paths : Memory PathCell} {head : ℕ → Ptr} {is : List ℕ}
    (O : Owned pairs paths head cells is) (ha : a ∈ pairs.live) :
    ∃ m, freePathLink (rounds paths) (pairs.cell a).pathS paths = .ok m ∧ m.cell = paths.cell ∧
      ∀ p, p ∈ m.live ↔ p ∈ paths.live ∧ (pairs.cell a).pathS ≠ some p := by
  obtain ⟨m, hm, hspec⟩ := free_pathS O ha
  refine ⟨m, ?_, hspec⟩
  rw [← hm]
  cases hp : (pairs.cell a).pathS with
  | none => rfl
  | some q =>
    obtain ⟨hq, hlast⟩ := O.stored a ha q hp
    unfold rounds
    rw [freePathLink, Memory.load_live hq, ok_bind, Memory.free_live hq, ok_bind, hlast, freePathLink]

/-- **`free_header_link` frees the cells of a chain and their paths**, and leaves the other chains. -/
theorem freeHeaderLink_eq {head : ℕ → Ptr} {i n : ℕ} {is : List ℕ} (hi : i ∉ is)
    (O : Owned t.pairs t.paths head cells (i :: is)) (hn : (cells i).length ≤ n) :
    ∃ t', freeHeaderLink n (head i) t = .ok t' ∧ t'.hash = t.hash ∧
      Owned t'.pairs t'.paths head cells is := by
  have hmem : i ∈ i :: is := List.mem_cons_self
  have hchain := O.chain i hmem
  generalize hc : cells i = as at hchain hn
  induction as generalizing t n head cells with
  | nil =>
    rw [seg_nil.mp hchain, freeHeaderLink]
    exact ⟨t, rfl, rfl, O.tail hc⟩
  | cons a as ih =>
    have hnodup := hchain.nodup
    obtain ⟨hhead, ha, rest⟩ := seg_cons.mp hchain
    obtain ⟨n, rfl⟩ := Nat.exists_eq_succ_of_ne_zero (Nat.ne_zero_of_lt hn)
    obtain ⟨m, hm, hcell, hpaths⟩ := freePathLink_eq O ha
    rw [hhead, freeHeaderLink, Memory.load_live ha, ok_bind, hm, ok_bind, Memory.free_live ha, ok_bind]
    have hrest : Seg PairCell.nextPairS { t.pairs with live := t.pairs.live.erase a }
        (t.pairs.cell a).nextPairS as none := by
      refine rest.frame (fun c hcm => Finset.mem_erase.mpr ⟨?_, rest.live c hcm⟩) fun _ _ => rfl
      rintro rfl
      exact (List.nodup_cons.mp hnodup).1 hcm
    have hc' : cells i = [] ++ a :: as := hc
    have O' : Owned { t.pairs with live := t.pairs.live.erase a } m _ _ (i :: is) :=
      O.remove hmem hc' rfl (fun _ => rfl) (fun _ _ => rfl) hrest hpaths hcell
    have hne : ∀ j ∈ is, j ≠ i := by
      rintro j hj rfl
      exact hi hj
    obtain ⟨t', ht', hhash, O''⟩ := ih
      (t := { t with pairs := { t.pairs with live := t.pairs.live.erase a }, paths := m }) O'
      (Function.update_self ..) (by rw [Function.update_self]; exact hrest) (Nat.le_of_succ_le_succ hn)
    rw [Function.update_self] at ht'
    refine ⟨t', ht', hhash, O''.congr (fun j hj => ?_) fun j hj => ?_⟩
    · rw [Function.update_of_ne (hne j hj)]
    · rw [Function.update_of_ne (hne j hj)]

theorem freeAll {is : List ℕ} (hn : is.Nodup) (O : Owned t.pairs t.paths t.hash cells is) :
    ∃ t', is.foldlM (fun h i => freeHeaderLink (rounds h.pairs) (h.hash i) h) t = .ok t' ∧
      Owned t'.pairs t'.paths t'.hash cells [] := by
  induction is generalizing t with
  | nil => exact ⟨t, rfl, O⟩
  | cons i is ih =>
    obtain ⟨hi, hn⟩ := List.nodup_cons.mp hn
    obtain ⟨t₁, h1, hhash, O₁⟩ :=
      freeHeaderLink_eq hi O (O.chain i List.mem_cons_self).length_le_rounds
    rw [← hhash] at O₁
    obtain ⟨t₂, h2, O₂⟩ := ih hn O₁
    exact ⟨t₂, bind_eq_ok.mpr ⟨t₁, h1, h2⟩, O₂⟩

theorem represents_initHash (hu : Unused t) :
    Represents (initHash t) RoutingDaemon.initHash fun _ => [] where
  owned :=
    { chain := fun _ _ => .nil
      disjoint := by simp
      allPairs := fun a ha => by
        rw [show (initHash t).pairs.live = ∅ from hu.1] at ha
        exact absurd ha (Finset.notMem_empty a)
      stored := fun a ha => by
        rw [show (initHash t).pairs.live = ∅ from hu.1] at ha
        exact absurd ha (Finset.notMem_empty a)
      owner := fun a ha => by
        rw [show (initHash t).pairs.live = ∅ from hu.1] at ha
        exact absurd ha (Finset.notMem_empty a)
      allPaths := fun p hp => by
        rw [show (initHash t).paths.live = ∅ from hu.2] at hp
        exact absurd hp (Finset.notMem_empty p) }
  buckets _ _ := rfl
  names := rfl
  count := rfl

/-- **`collapse` in memory.** -/
theorem collapse_eq (R : Represents t h cells) :
    ∃ ret t' cells', collapse t = .ok (ret, t') ∧ (RoutingDaemon.collapse h).1 = ret ∧
      Represents t' (RoutingDaemon.collapse h).2 cells' := by
  unfold collapse RoutingDaemon.collapse
  rw [← R.count]
  split_ifs with h0
  · exact ⟨0, t, cells, rfl, rfl, R⟩
  · obtain ⟨t', ht', O⟩ := freeAll List.nodup_range R.owned
    exact ⟨1, initHash t', _, bind_eq_ok.mpr ⟨t', ht', rfl⟩, rfl, represents_initHash O.live_eq_empty⟩

end Remove

end RoutingDaemon.Heap
