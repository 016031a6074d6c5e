import RoutingDaemon.HashHeap
import RoutingDaemon.Lib.Lockstep

/-!
# The hash table in memory and the hash table of lists

* `Owned`: the chains of some buckets take every allocated pair once, and these every allocated path once.
  `Owned.repoint`, `Owned.add`, `Owned.remove`: the changes that keep it so.
* `Represents`: the table in memory stands for a table of lists; `Represents.containsObject`,
  `Represents.getPaths` read it, `Represents.alter` changes one pair of it.
* `lockstep_hashAdd`: `hash_add` does in memory what it does on lists.
-/

namespace RoutingDaemon.Heap

/-- The chains of the buckets `is` are disjoint, and hold all allocated pairs; every path is held by one
pair, and is the last of its list. -/
structure Owned (pairs : Memory PairCell) (paths : Memory PathCell) (head : ℕ → Ptr)
    (cells : ℕ → List ℕ) (is : List ℕ) : Prop where
  chain : ∀ i ∈ is, Seg PairCell.nextPairS pairs (head i) (cells i) none
  disjoint : ∀ i ∈ is, ∀ j ∈ is, ∀ a ∈ cells i, a ∈ cells j → i = j
  allPairs : ∀ a ∈ pairs.live, ∃ i ∈ is, a ∈ cells i
  stored : ∀ a ∈ pairs.live, ∀ p, (pairs.cell a).pathS = some p →
    p ∈ paths.live ∧ (paths.cell p).nextPathS = none
  owner : ∀ a ∈ pairs.live, ∀ b ∈ pairs.live, ∀ p, (pairs.cell a).pathS = some p →
    (pairs.cell b).pathS = some p → a = b
  allPaths : ∀ p ∈ paths.live, ∃ a ∈ pairs.live, (pairs.cell a).pathS = some p

namespace Owned

variable {pairs pairs' : Memory PairCell} {paths paths' : Memory PathCell} {head : ℕ → Ptr}
  {cells : ℕ → List ℕ} {is : List ℕ} {a i : ℕ}

theorem live (O : Owned pairs paths head cells is) (hi : i ∈ is) (ha : a ∈ cells i) : a ∈ pairs.live :=
  (O.chain i hi).live a ha

theorem repoint {r : Ptr} (O : Owned pairs paths head cells is) (ha : a ∈ pairs.live)
    (hcell : pairs'.cell = Function.update pairs.cell a { pairs.cell a with pathS := r })
    (hlive : pairs'.live = pairs.live)
    (hpaths : ∀ p, p ∈ paths'.live ↔ p ∈ paths.live ∧ (pairs.cell a).pathS ≠ some p ∨ r = some p)
    (hnew : ∀ p, r = some p → p ∉ paths.live ∧ (paths'.cell p).nextPathS = none)
    (hold : ∀ p ∈ paths.live, paths'.cell p = paths.cell p) : Owned pairs' paths' head cells is := by
  have hself : (pairs'.cell a).pathS = r := by rw [hcell, Function.update_self]
  have hother : ∀ b, b ≠ a → pairs'.cell b = pairs.cell b := fun b hb => by
    rw [hcell, Function.update_of_ne hb]
  have hnext : ∀ b, (pairs'.cell b).nextPairS = (pairs.cell b).nextPairS := by
    intro b
    by_cases hb : b = a
    · subst hb
      rw [hcell, Function.update_self]
    · rw [hother b hb]
  refine ⟨fun j hj => ?_, O.disjoint, by rw [hlive]; exact O.allPairs, ?_, ?_, ?_⟩
  · exact (O.chain j hj).frame (fun b hb => by rw [hlive]; exact O.live hj hb) fun b _ => hnext b
  · intro b hb p hp
    rw [hlive] at hb
    by_cases hba : b = a
    · subst hba
      rw [hself] at hp
      exact ⟨(hpaths p).mpr (.inr hp), (hnew p hp).2⟩
    · rw [hother b hba] at hp
      obtain ⟨h1, h2⟩ := O.stored b hb p hp
      refine ⟨(hpaths p).mpr (.inl ⟨h1, fun h => hba ?_⟩), by rw [hold p h1]; exact h2⟩
      exact O.owner b hb a ha p hp h
  · intro b hb c hc p hp hp'
    rw [hlive] at hb hc
    by_cases hba : b = a <;> by_cases hca : c = a
    · rw [hba, hca]
    · rw [hba, hself] at hp
      rw [hother c hca] at hp'
      exact absurd (O.stored c hc p hp').1 (hnew p hp).1
    · rw [hca, hself] at hp'
      rw [hother b hba] at hp
      exact absurd (O.stored b hb p hp).1 (hnew p hp').1
    · rw [hother b hba] at hp
      rw [hother c hca] at hp'
      exact O.owner b hb c hc p hp hp'
  · intro p hp
    rw [hlive]
    rcases (hpaths p).mp hp with ⟨hp, hne⟩ | hp
    · obtain ⟨b, hb, hbp⟩ := O.allPaths p hp
      have hba : b ≠ a := fun e => hne (e ▸ hbp)
      exact ⟨b, hb, by rw [hother b hba]; exact hbp⟩
    · exact ⟨a, ha, hself.trans hp⟩

theorem add {p : ℕ} (O : Owned pairs paths head cells is) (hi : i ∈ is) (ha : a ∉ pairs.live)
    (hp : p ∉ paths.live) (hlive : pairs'.live = insert a pairs.live)
    (hold : ∀ b ∈ pairs.live, pairs'.cell b = pairs.cell b)
    (hpath : (pairs'.cell a).pathS = some p) (hnext : (pairs'.cell a).nextPairS = head i)
    (hlive' : paths'.live = insert p paths.live) (hold' : ∀ q ∈ paths.live, paths'.cell q = paths.cell q)
    (hlast : (paths'.cell p).nextPathS = none) :
    Owned pairs' paths' (Function.update head i (some a)) (Function.update cells i (a :: cells i)) is := by
  have hmem : ∀ b, b ∈ pairs'.live → b = a ∨ b ∈ pairs.live := fun b hb => by
    rw [hlive] at hb
    exact Finset.mem_insert.mp hb
  have hne : ∀ b ∈ pairs.live, b ≠ a := fun b hb e => ha (e ▸ hb)
  have hcells : ∀ j b, b ∈ Function.update cells i (a :: cells i) j → b = a ∧ j = i ∨ b ∈ cells j := by
    intro j b hb
    by_cases hj : j = i
    · subst hj
      rw [Function.update_self, List.mem_cons] at hb
      exact hb.imp (fun h => ⟨h, rfl⟩) id
    · rw [Function.update_of_ne hj] at hb
      exact .inr hb
  have hchain : ∀ j ∈ is, Seg PairCell.nextPairS pairs' (head j) (cells j) none := fun j hj =>
    (O.chain j hj).frame (fun b hb => by rw [hlive]; exact Finset.mem_insert_of_mem (O.live hj hb))
      fun b hb => by rw [hold b (O.live hj hb)]
  refine ⟨fun j hj => ?_, ?_, ?_, ?_, ?_, ?_⟩
  · by_cases hj' : j = i
    · subst hj'
      rw [Function.update_self, Function.update_self]
      refine .cons (by rw [hlive]; exact Finset.mem_insert_self ..) ?_
      rw [hnext]
      exact hchain j hj
    · rw [Function.update_of_ne hj', Function.update_of_ne hj']
      exact hchain j hj
  · intro j hj k hk b hb hb'
    rcases hcells j b hb with ⟨e, hj'⟩ | hj' <;> rcases hcells k b hb' with ⟨e', hk'⟩ | hk'
    · rw [hj', hk']
    · exact absurd (e ▸ O.live hk hk') ha
    · exact absurd (e' ▸ O.live hj hj') ha
    · exact O.disjoint j hj k hk b hj' hk'
  · intro b hb
    rcases hmem b hb with rfl | hb
    · exact ⟨i, hi, by rw [Function.update_self]; exact List.mem_cons_self⟩
    · obtain ⟨j, hj, hb⟩ := O.allPairs b hb
      refine ⟨j, hj, ?_⟩
      by_cases hj' : j = i
      · subst hj'
        rw [Function.update_self]
        exact List.mem_cons_of_mem _ hb
      · rwa [Function.update_of_ne hj']
  · intro b hb q hq
    rcases hmem b hb with rfl | hb
    · obtain rfl := Option.some.inj (hpath.symm.trans hq)
      exact ⟨by rw [hlive']; exact Finset.mem_insert_self .., hlast⟩
    · rw [hold b hb] at hq
      obtain ⟨h1, h2⟩ := O.stored b hb q hq
      exact ⟨by rw [hlive']; exact Finset.mem_insert_of_mem h1, by rw [hold' q h1]; exact h2⟩
  · intro b hb c hc q hq hq'
    rcases hmem b hb with rfl | hb <;> rcases hmem c hc with rfl | hc
    · rfl
    · obtain rfl := Option.some.inj (hpath.symm.trans hq)
      rw [hold c hc] at hq'
      exact absurd (O.stored c hc p hq').1 hp
    · obtain rfl := Option.some.inj (hpath.symm.trans hq')
      rw [hold b hb] at hq
      exact absurd (O.stored b hb p hq).1 hp
    · rw [hold b hb] at hq
      rw [hold c hc] at hq'
      exact O.owner b hb c hc q hq hq'
  · intro q hq
    rw [hlive', Finset.mem_insert] at hq
    rcases hq with rfl | hq
    · exact ⟨a, by rw [hlive]; exact Finset.mem_insert_self .., hpath⟩
    · obtain ⟨b, hb, hbq⟩ := O.allPaths q hq
      exact ⟨b, by rw [hlive]; exact Finset.mem_insert_of_mem hb, by rw [hold b hb]; exact hbq⟩

theorem remove {ptr : Ptr} {xs ys : List ℕ} (O : Owned pairs paths head cells is) (hi : i ∈ is)
    (ha : cells i = xs ++ a :: ys) (hlive : pairs'.live = pairs.live.erase a)
    (hpath : ∀ b, (pairs'.cell b).pathS = (pairs.cell b).pathS)
    (hnext : ∀ b, b ∉ cells i → (pairs'.cell b).nextPairS = (pairs.cell b).nextPairS)
    (hchain : Seg PairCell.nextPairS pairs' ptr (xs ++ ys) none)
    (hlive' : ∀ p, p ∈ paths'.live ↔ p ∈ paths.live ∧ (pairs.cell a).pathS ≠ some p)
    (hold' : paths'.cell = paths.cell) :
    Owned pairs' paths' (Function.update head i ptr) (Function.update cells i (xs ++ ys)) is := by
  have hmem : ∀ b, b ∈ pairs'.live ↔ b ≠ a ∧ b ∈ pairs.live := fun b => by
    rw [hlive, Finset.mem_erase]
  have hmem_a : a ∈ cells i := by rw [ha]; simp
  have hnot : a ∉ xs ++ ys := by
    have := (O.chain i hi).nodup
    rw [ha] at this
    exact (List.nodup_middle.mp this |> List.nodup_cons.mp).1
  have hcells : ∀ j b, b ∈ Function.update cells i (xs ++ ys) j →
      b ∈ cells j ∧ b ≠ a ∨ b ∈ cells j ∧ j ≠ i := by
    intro j b hb
    by_cases hj : j = i
    · subst hj
      rw [Function.update_self] at hb
      refine .inl ⟨?_, fun e => hnot (e ▸ hb)⟩
      rw [ha]
      simp only [List.mem_append, List.mem_cons] at hb ⊢
      tauto
    · rw [Function.update_of_ne hj] at hb
      exact .inr ⟨hb, hj⟩
  refine ⟨fun j hj => ?_, ?_, ?_, ?_, ?_, ?_⟩
  · by_cases hj' : j = i
    · subst hj'
      rw [Function.update_self, Function.update_self]
      exact hchain
    · rw [Function.update_of_ne hj', Function.update_of_ne hj']
      have hsep : ∀ b ∈ cells j, b ∉ cells i := fun b hb hb' => hj' (O.disjoint j hj i hi b hb hb')
      refine (O.chain j hj).frame (fun b hb => (hmem b).mpr ⟨?_, O.live hj hb⟩) fun b hb =>
        hnext b (hsep b hb)
      rintro rfl
      exact hsep b hb hmem_a
  · intro j hj k hk b hb hb'
    exact O.disjoint j hj k hk b ((hcells j b hb).elim And.left And.left)
      ((hcells k b hb').elim And.left And.left)
  · intro b hb
    obtain ⟨hne, hb⟩ := (hmem b).mp hb
    obtain ⟨j, hj, hb⟩ := O.allPairs b hb
    refine ⟨j, hj, ?_⟩
    by_cases hj' : j = i
    · subst hj'
      rw [Function.update_self]
      rw [ha] at hb
      simp only [List.mem_append, List.mem_cons] at hb ⊢
      tauto
    · rwa [Function.update_of_ne hj']
  · intro b hb p hp
    obtain ⟨hne, hb⟩ := (hmem b).mp hb
    rw [hpath] at hp
    obtain ⟨h1, h2⟩ := O.stored b hb p hp
    refine ⟨(hlive' p).mpr ⟨h1, fun h => hne ?_⟩, by rw [hold']; exact h2⟩
    exact O.owner b hb a (O.live hi hmem_a) p hp h
  · intro b hb c hc p hp hp'
    rw [hpath] at hp hp'
    exact O.owner b ((hmem b).mp hb).2 c ((hmem c).mp hc).2 p hp hp'
  · intro p hp
    obtain ⟨hp, hne⟩ := (hlive' p).mp hp
    obtain ⟨b, hb, hbp⟩ := O.allPaths p hp
    refine ⟨b, (hmem b).mpr ⟨?_, hb⟩, by rw [hpath]; exact hbp⟩
    rintro rfl
    exact hne hbp

theorem tail (O : Owned pairs paths head cells (i :: is)) (h : cells i = []) :
    Owned pairs paths head cells is where
  chain j hj := O.chain j (List.mem_cons_of_mem _ hj)
  disjoint j hj k hk := O.disjoint j (List.mem_cons_of_mem _ hj) k (List.mem_cons_of_mem _ hk)
  allPairs a ha := by
    obtain ⟨j, hj, hm⟩ := O.allPairs a ha
    rcases List.mem_cons.mp hj with rfl | hj
    · rw [h] at hm
      exact absurd hm List.not_mem_nil
    · exact ⟨j, hj, hm⟩
  stored := O.stored
  owner := O.owner
  allPaths := O.allPaths

end Owned

/-! ### The table that is represented -/

/-- The path at an address. -/
def LisoHash.path (t : LisoHash) (p : ℕ) : Path := ⟨(t.paths.cell p).nodeId, (t.paths.cell p).cost⟩

/-- The pair at an address, with its path. -/
def LisoHash.pair (t : LisoHash) (a : ℕ) : Pair :=
  ⟨(t.pairs.cell a).objName, (t.pairs.cell a).pathS.map t.path⟩

/-- The table in memory, whose chains are at `cells`, stands for `h`. -/
structure Represents (t : LisoHash) (h : RoutingDaemon.LisoHash) (cells : ℕ → List ℕ) : Prop where
  owned : Owned t.pairs t.paths t.hash cells (List.range hashsize)
  buckets : ∀ i < hashsize, h.hash i = (cells i).map t.pair
  names : t.objNames = h.objNames
  count : t.numObjs = h.numObjs

/-- The pair that the walk for a name ends at. -/
def found (t : LisoHash) (cells : ℕ → List ℕ) (i : ℕ) (s : CString) : Ptr :=
  (cells i).find? fun a => isObj s (t.pairs.cell a)

theorem hashIndex_lt (sfh : CString → UInt32) (s : CString) : hashIndex sfh s < hashsize :=
  Nat.mod_lt _ (by decide)

theorem map_eq_alterFirst {as : List ℕ} {g g' : ℕ → Pair} {s : CString}
    {f : Pair → Pair} (hn : as.Nodup)
    (hf : ∀ a, as.find? (fun a => (g a).name = s) = some a → g' a = f (g a))
    (hother : ∀ b ∈ as, as.find? (fun a => (g a).name = s) ≠ some b → g' b = g b) :
    as.map g' = Chain.alterFirst Pair.name s f (as.map g) := by
  induction as with
  | nil => rfl
  | cons a as ih =>
    obtain ⟨hnot, hn⟩ := List.nodup_cons.mp hn
    rw [List.map_cons, List.map_cons, Chain.alterFirst]
    by_cases hs : (g a).name = s
    · have hfind : (a :: as).find? (fun a => (g a).name = s) = some a :=
        List.find?_cons_of_pos (by simpa using hs)
      rw [if_pos hs, hf a hfind]
      congr 1
      apply List.map_congr_left
      intro b hb
      apply hother b (List.mem_cons_of_mem _ hb)
      rw [hfind]
      rintro ⟨⟩
      exact hnot hb
    · have hfind : (a :: as).find? (fun a => (g a).name = s) = as.find? fun a => (g a).name = s :=
        List.find?_cons_of_neg (by simpa using hs)
      rw [hfind] at hf hother
      rw [if_neg hs, hother a List.mem_cons_self fun h => hnot (List.mem_of_find?_eq_some h),
        ih hn hf fun b hb => hother b (List.mem_cons_of_mem _ hb)]

namespace Represents

variable {sfh : CString → UInt32} {A : Allocator} {t t' : LisoHash} {h : RoutingDaemon.LisoHash}
  {cells : ℕ → List ℕ} {s : CString} {a i : ℕ}

theorem seg (R : Represents t h cells) (hi : i < hashsize) :
    Seg PairCell.nextPairS t.pairs (t.hash i) (cells i) none := R.owned.chain i (List.mem_range.mpr hi)

theorem linkContainsObj (R : Represents t h cells) (hi : i < hashsize) (s : CString) :
    Heap.linkContainsObj t (t.hash i) s = .ok (found t cells i s) :=
  (R.seg hi).seek_eq (R.seg hi).length_le_rounds

theorem lookup (R : Represents t h cells) (s : CString) :
    Chain.lookup Pair.name (hashIndex sfh) h.hash s =
      (found t cells (hashIndex sfh s) s).map t.pair := by
  rw [Chain.lookup, R.buckets _ (hashIndex_lt sfh s), List.find?_map]
  rfl

theorem mem_found (R : Represents t h cells) (hi : i < hashsize) (hf : found t cells i s = some a) :
    a ∈ cells i ∧ a ∈ t.pairs.live := by
  have ha : a ∈ cells i := List.mem_of_find?_eq_some hf
  exact ⟨ha, (R.seg hi).live a ha⟩

theorem hash_eq_none (R : Represents t h cells) (hi : i < hashsize) (hn : t.hash i = none) :
    cells i = [] := by
  apply Seg.eq_nil
  rw [← hn]
  exact R.seg hi

theorem containsObject (sfh : CString → UInt32) (R : Represents t h cells) (s : CString) :
    ∃ ptr, Heap.containsObject sfh t s = .ok ptr ∧
      ptr.map t.pair = RoutingDaemon.containsObject sfh h s ∧
      (ptr ≠ none → found t cells (hashIndex sfh s) s = ptr) := by
  have hi := hashIndex_lt sfh s
  unfold Heap.containsObject RoutingDaemon.containsObject
  rw [← R.count, R.lookup]
  split_ifs with h0 hn
  · exact ⟨none, rfl, rfl, fun h => absurd rfl h⟩
  · refine ⟨none, rfl, ?_, fun h => absurd rfl h⟩
    rw [found, R.hash_eq_none hi hn]
    rfl
  · exact ⟨_, R.linkContainsObj hi s, rfl, fun _ => rfl⟩

theorem getPaths (sfh : CString → UInt32) (R : Represents t h cells) (s : CString) :
    ∃ ptr, Heap.getPaths sfh t s = .ok ptr ∧ ptr.map t.path = RoutingDaemon.getPaths sfh h s ∧
      ∀ p, ptr = some p → p ∈ t.paths.live ∧ (t.paths.cell p).nextPathS = none := by
  have hi := hashIndex_lt sfh s
  unfold Heap.getPaths RoutingDaemon.getPaths
  rw [← R.count, R.lookup, R.linkContainsObj hi]
  split_ifs with h0
  · exact ⟨none, rfl, rfl, by simp⟩
  · rw [ok_bind]
    cases hf : found t cells (hashIndex sfh s) s with
    | none => exact ⟨none, rfl, rfl, by simp⟩
    | some a =>
      obtain ⟨-, ha⟩ := R.mem_found hi hf
      rw [if_neg (Option.some_ne_none a), Memory.load_live ha]
      exact ⟨_, rfl, rfl, R.owned.stored a ha⟩

theorem alter {f : Pair → Pair} (R : Represents t h cells)
    (owned : Owned t'.pairs t'.paths t'.hash cells (List.range hashsize))
    (hnames : t'.objNames = t.objNames) (hcount : t'.numObjs = t.numObjs)
    (hf : ∀ a, found t cells (hashIndex sfh s) s = some a → t'.pair a = f (t.pair a))
    (hother : ∀ b ∈ t.pairs.live, found t cells (hashIndex sfh s) s ≠ some b → t'.pair b = t.pair b) :
    Represents t' { h with hash := Chain.alter Pair.name (hashIndex sfh) h.hash s f }
      cells := by
  refine ⟨owned, fun i hi => ?_, hnames.trans R.names, hcount.trans R.count⟩
  by_cases hi' : i = hashIndex sfh s
  · subst hi'
    show Chain.alter _ _ _ _ _ _ = _
    rw [Chain.alter, Function.update_self, R.buckets _ hi]
    exact (map_eq_alterFirst (g := t.pair) (s := s) (R.seg hi).nodup hf fun b hb =>
      hother b ((R.seg hi).live b hb)).symm
  · show Chain.alter _ _ _ _ _ _ = _
    rw [Chain.alter, Function.update_of_ne hi', R.buckets i hi]
    apply List.map_congr_left
    intro b hb
    apply (hother b ((R.seg hi).live b hb) _).symm
    intro hfound
    exact hi' (R.owned.disjoint i (List.mem_range.mpr hi) _ (List.mem_range.mpr (hashIndex_lt sfh s)) b hb
      (R.mem_found (hashIndex_lt sfh s) hfound).1)

end Represents

/-! ### `hash_add` -/

/-- The memory after a path was allocated and written. -/
def newPaths (A : Allocator) (m : Memory PathCell) (nodeId : Int32) (cost : ℤ) : Memory PathCell :=
  ⟨Function.update m.cell (A.pick m.mallocs m.live) ⟨nodeId, cost, none⟩,
    insert (A.pick m.mallocs m.live) m.live, m.mallocs + 1⟩

section Add

variable {sfh : CString → UInt32} {A : Allocator} {t : LisoHash} {h : RoutingDaemon.LisoHash}
  {cells : ℕ → List ℕ} {s : CString} {a : ℕ} {nodeId : Int32} {cost : ℤ}

theorem newPath_eq : newPath A t nodeId cost = .ok (some (A.pick t.paths.mallocs t.paths.live),
    { t with paths := newPaths A t.paths nodeId cost }) := by
  unfold newPath
  dsimp only [Memory.malloc]
  rw [Memory.store_live (Finset.mem_insert_self ..)]
  rfl

theorem newPaths_cell {p : ℕ} (hp : p ∈ t.paths.live) :
    (newPaths A t.paths nodeId cost).cell p = t.paths.cell p := by
  apply Function.update_of_ne
  rintro rfl
  exact A.fresh _ _ hp

/-- The pair `a` points to another path, or to none. -/
def LisoHash.pointAt (t : LisoHash) (a : ℕ) (r : Ptr) (paths : Memory PathCell) : LisoHash :=
  { t with
    pairs := { t.pairs with
      cell := Function.update t.pairs.cell a { t.pairs.cell a with pathS := r } }
    paths := paths }

theorem Represents.pointAt {f : Pair → Pair} (r : Ptr) (paths : Memory PathCell)
    (R : Represents t h cells) (hf : found t cells (hashIndex sfh s) s = some a)
    (hpaths : ∀ p, p ∈ paths.live ↔ p ∈ t.paths.live ∧ (t.pairs.cell a).pathS ≠ some p ∨ r = some p)
    (hnew : ∀ p, r = some p → p ∉ t.paths.live ∧ (paths.cell p).nextPathS = none)
    (hold : ∀ p ∈ t.paths.live, paths.cell p = t.paths.cell p)
    (hpair : (t.pointAt a r paths).pair a = f (t.pair a)) :
    Represents (t.pointAt a r paths)
      { h with hash := Chain.alter Pair.name (hashIndex sfh) h.hash s f } cells := by
  have ha := (R.mem_found (hashIndex_lt sfh s) hf).2
  refine R.alter (R.owned.repoint ha rfl rfl hpaths hnew hold) rfl rfl ?_ ?_
  · intro b hb
    obtain rfl := Option.some.inj (hf.symm.trans hb)
    exact hpair
  · intro b hb hne
    have hba : b ≠ a := fun e => hne (e ▸ hf)
    have hcell : (t.pointAt a r paths).pairs.cell b = t.pairs.cell b := Function.update_of_ne hba ..
    show Pair.mk _ _ = Pair.mk _ _
    rw [hcell]
    congr 1
    cases hp : (t.pairs.cell b).pathS with
    | none => rfl
    | some p =>
      show some (Path.mk _ _) = some (Path.mk _ _)
      rw [show (t.pointAt a r paths).paths.cell p = t.paths.cell p from
        hold p (R.owned.stored b hb p hp).1]

theorem pair_pointAt (r : Ptr) (paths : Memory PathCell) :
    (t.pointAt a r paths).pair a = { t.pair a with pathS := r.map (t.pointAt a r paths).path } := by
  show Pair.mk _ _ = Pair.mk _ _
  rw [show (t.pointAt a r paths).pairs.cell a = { t.pairs.cell a with pathS := r } from
    Function.update_self ..]
  rfl

theorem Represents.setPath (paths : Memory PathCell) (R : Represents t h cells)
    (hf : found t cells (hashIndex sfh s) s = some a)
    (hcell : paths.cell = (newPaths A t.paths nodeId cost).cell)
    (hlive : ∀ p, p ∈ paths.live ↔ p ∈ (newPaths A t.paths nodeId cost).live ∧
      (t.pairs.cell a).pathS ≠ some p) :
    Represents (t.pointAt a (some (A.pick t.paths.mallocs t.paths.live)) paths)
      (h.setPath sfh s ⟨nodeId, cost⟩) cells := by
  have ha := (R.mem_found (hashIndex_lt sfh s) hf).2
  have hfresh := A.fresh t.paths.mallocs t.paths.live
  have hself : (newPaths A t.paths nodeId cost).cell (A.pick t.paths.mallocs t.paths.live) =
      ⟨nodeId, cost, none⟩ := Function.update_self ..
  refine R.pointAt (f := fun q => { q with pathS := some ⟨nodeId, cost⟩ }) _ paths hf ?_ ?_ ?_ ?_
  · intro p
    rw [hlive, newPaths, Finset.mem_insert, Option.some.injEq, eq_comm (b := p)]
    constructor
    · rintro ⟨rfl | hp, hne⟩
      · exact .inr rfl
      · exact .inl ⟨hp, hne⟩
    · rintro (⟨hp, hne⟩ | rfl)
      · exact ⟨.inr hp, hne⟩
      · exact ⟨.inl rfl, fun hp => hfresh (R.owned.stored a ha _ hp).1⟩
  · intro p hp
    obtain rfl := Option.some.inj hp
    rw [hcell, hself]
    exact ⟨hfresh, rfl⟩
  · intro p hp
    rw [hcell]
    exact newPaths_cell hp
  · rw [pair_pointAt]
    show Pair.mk _ (some (Path.mk _ _)) = Pair.mk _ _
    rw [show (t.pointAt a (some (A.pick t.paths.mallocs t.paths.live)) paths).paths.cell
      (A.pick t.paths.mallocs t.paths.live) = ⟨nodeId, cost, none⟩ by rw [← hself, ← hcell]; rfl]

theorem addPath_eq (R : Represents t h cells) (hf : found t cells (hashIndex sfh s) s = some a) :
    ∃ t', addPath A t (some a) nodeId cost = .ok t' ∧
      Represents t' (match (t.pair a).pathS with
        | none => h.setPath sfh s ⟨nodeId, cost⟩
        | some currNearest =>
          if currNearest.cost > cost then h.setPath sfh s ⟨nodeId, cost⟩ else h) cells := by
  have ha := (R.mem_found (hashIndex_lt sfh s) hf).2
  unfold addPath
  rw [Memory.load_live ha, ok_bind, newPath_eq]
  cases hp : (t.pairs.cell a).pathS with
  | none =>
    rw [if_pos rfl, ok_bind]
    dsimp only [setPathS]
    rw [Memory.store_live ha, ok_bind]
    refine ⟨_, rfl, ?_⟩
    rw [show (t.pair a).pathS = none by rw [LisoHash.pair, hp]; rfl]
    apply R.setPath _ hf rfl
    simp [hp]
  | some q =>
    obtain ⟨hq, -⟩ := R.owned.stored a ha q hp
    rw [if_neg (Option.some_ne_none q), Memory.load_live hq, ok_bind,
      show (t.pair a).pathS = some (t.path q) by rw [LisoHash.pair, hp]; rfl]
    dsimp only [LisoHash.path]
    by_cases hc : (t.paths.cell q).cost > cost
    · rw [if_pos hc, if_pos hc, ok_bind]
      dsimp only [freePath, setPathS]
      rw [Memory.free_live (Finset.mem_insert_of_mem hq), ok_bind, ok_bind]
      dsimp only
      rw [Memory.store_live ha, ok_bind]
      refine ⟨_, rfl, R.setPath { newPaths A t.paths nodeId cost with
        live := (newPaths A t.paths nodeId cost).live.erase q } hf rfl ?_⟩
      intro p
      rw [Finset.mem_erase, hp, ne_eq, ne_eq, Option.some.injEq, eq_comm (a := q), and_comm]
    · rw [if_neg hc, if_neg hc]
      exact ⟨t, rfl, R⟩

/-- The memory after a pair was allocated and written. -/
def newPairs (A : Allocator) (m : Memory PairCell) (c : PairCell) : Memory PairCell :=
  ⟨Function.update m.cell (A.pick m.mallocs m.live) c, insert (A.pick m.mallocs m.live) m.live,
    m.mallocs + 1⟩

/-- The table after a pair was put at the head of its chain. -/
def LisoHash.pushed (A : Allocator) (t : LisoHash) (i : ℕ) (name : CharBuf maxobjname) (nodeId : Int32)
    (cost : ℤ) : LisoHash where
  hash := Function.update t.hash i (some (A.pick t.pairs.mallocs t.pairs.live))
  objNames := Function.update t.objNames t.numObjs name
  numObjs := t.numObjs + 1
  pairs := newPairs A t.pairs ⟨name, some (A.pick t.paths.mallocs t.paths.live), t.hash i⟩
  paths := newPaths A t.paths nodeId cost

theorem addPair_eq : addPair sfh A t s nodeId cost =
    (strcpy maxobjname s).mapError (fun _ => MemFault.bounds) >>= fun name =>
      if t.numObjs < maxobjnum then .ok (t.pushed A (hashIndex sfh s) name nodeId cost)
      else .error .bounds := by
  unfold addPair
  rw [newPath_eq, ok_bind]
  dsimp only [Memory.malloc]
  congr 1
  funext name
  rw [Memory.store_live (Finset.mem_insert_self ..), ok_bind]
  dsimp only
  -- both ways of writing `next_pair_s` leave the same cell
  by_cases hd : t.hash (hashIndex sfh s) = none
  · rw [if_pos hd, ok_bind]
    unfold LisoHash.pushed newPairs
    rw [hd]
  · rw [if_neg hd, Memory.store_live (Finset.mem_insert_self ..), ok_bind]
    dsimp only
    rw [Function.update_self, Function.update_idem]
    rfl

theorem Represents.pushed (R : Represents t h cells) {name : CharBuf maxobjname} (hs : name.1 = s) :
    Represents (t.pushed A (hashIndex sfh s) name nodeId cost)
      ⟨Chain.push Pair.name (hashIndex sfh) h.hash ⟨name, some ⟨nodeId, cost⟩⟩,
        Function.update h.objNames h.numObjs name, h.numObjs + 1⟩
      (Function.update cells (hashIndex sfh s)
        (A.pick t.pairs.mallocs t.pairs.live :: cells (hashIndex sfh s))) := by
  have hi := hashIndex_lt sfh s
  have ha := A.fresh t.pairs.mallocs t.pairs.live
  have hself : (t.pushed A (hashIndex sfh s) name nodeId cost).pairs.cell
      (A.pick t.pairs.mallocs t.pairs.live) =
        ⟨name, some (A.pick t.paths.mallocs t.paths.live), t.hash (hashIndex sfh s)⟩ :=
    Function.update_self ..
  have hother : ∀ b ∈ t.pairs.live,
      (t.pushed A (hashIndex sfh s) name nodeId cost).pairs.cell b = t.pairs.cell b := by
    intro b hb
    apply Function.update_of_ne
    rintro rfl
    exact ha hb
  have hpath : (newPaths A t.paths nodeId cost).cell (A.pick t.paths.mallocs t.paths.live) =
      ⟨nodeId, cost, none⟩ := Function.update_self ..
  have hkeep : ∀ b ∈ t.pairs.live,
      (t.pushed A (hashIndex sfh s) name nodeId cost).pair b = t.pair b := by
    intro b hb
    show Pair.mk _ _ = Pair.mk _ _
    rw [hother b hb]
    congr 1
    cases hp : (t.pairs.cell b).pathS with
    | none => rfl
    | some p =>
      show some (Path.mk _ _) = some (Path.mk _ _)
      rw [show (t.pushed A (hashIndex sfh s) name nodeId cost).paths.cell p = t.paths.cell p from
        newPaths_cell (R.owned.stored b hb p hp).1]
  have hnew : (t.pushed A (hashIndex sfh s) name nodeId cost).pair
      (A.pick t.pairs.mallocs t.pairs.live) = ⟨name, some ⟨nodeId, cost⟩⟩ := by
    show Pair.mk _ _ = Pair.mk _ _
    rw [hself]
    show Pair.mk _ (some (Path.mk _ _)) = _
    rw [show (t.pushed A (hashIndex sfh s) name nodeId cost).paths.cell _ = _ from hpath]
  refine ⟨?_, fun i hi' => ?_, ?_, ?_⟩
  · exact R.owned.add (List.mem_range.mpr hi) ha (A.fresh _ _) rfl hother (by rw [hself]) (by rw [hself])
      rfl (fun p => newPaths_cell) (congrArg PathCell.nextPathS hpath)
  · show Chain.push Pair.name (hashIndex sfh) h.hash _ i = _
    unfold Chain.push
    rw [show Pair.name ⟨name, some ⟨nodeId, cost⟩⟩ = s from hs]
    by_cases hj : i = hashIndex sfh s
    · rw [hj, Function.update_self, Function.update_self, List.map_cons, hnew, R.buckets _ hi]
      congr 1
      apply List.map_congr_left
      intro b hb
      exact (hkeep b ((R.seg hi).live b hb)).symm
    · rw [Function.update_of_ne hj, Function.update_of_ne hj, R.buckets i hi']
      apply List.map_congr_left
      intro b hb
      exact (hkeep b ((R.seg hi').live b hb)).symm
  · show Function.update t.objNames t.numObjs name = _
    rw [R.names, R.count]
  · show t.numObjs + 1 = _
    rw [R.count]

/-- **`hash_add` in memory.** -/
theorem lockstep_hashAdd (R : Represents t h cells) (s : CString) (nodeId : Int32) (cost : ℤ) :
    Lockstep (fun t h => ∃ cells, Represents t h cells) (hashAdd sfh A t s nodeId cost)
      ((RoutingDaemon.hashAdd sfh h s nodeId cost).mapError fun _ => .bounds) := by
  obtain ⟨ptr, hptr, hc, hfound⟩ := R.containsObject sfh s
  unfold hashAdd RoutingDaemon.hashAdd
  rw [hptr, ← hc, ok_bind]
  cases ptr with
  | none =>
    rw [if_pos rfl, addPair_eq]
    dsimp only [Option.map_none]
    rw [R.count]
    cases hs : strcpy maxobjname s with
    | error f => exact .error _
    | ok name =>
      have hname : name.1 = s := strcpy_eq_ok.mp hs
      show Lockstep _ (if _ then _ else _) (Except.mapError _ (if _ then _ else _))
      split_ifs
      · exact .ok ⟨_, R.pushed hname⟩
      · exact .error _
  | some a =>
    rw [if_neg (Option.some_ne_none a)]
    obtain ⟨t', ht', R'⟩ : ∃ t', addPath A t (some a) nodeId cost = .ok t' ∧ _ :=
      addPath_eq R (hfound (Option.some_ne_none a))
    rw [ht']
    dsimp only [Option.map_some]
    cases hp : (t.pair a).pathS with
    | none =>
      rw [hp] at R'
      exact .ok ⟨cells, R'⟩
    | some q =>
      rw [hp] at R'
      dsimp only at R' ⊢
      split_ifs at R' ⊢
      · exact .ok ⟨cells, R'⟩
      · exact .ok ⟨cells, R'⟩

end Add

end RoutingDaemon.Heap
