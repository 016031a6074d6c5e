import RoutingDaemon.ObjectHistory

/-!
# The object table with removal of objects

* `Call`, `execCalls`: runs of the whole interface of `hashset.h`, `hash_remove_object` included.
  `stored`: the names a run leaves in the table, oldest first; `Fits`: there are never more than
  `MAXOBJNUM` of them.
* `Chained`: what holds of the bucket chains and the counter after every run, `execCalls_chained`;
  `chains_with_removal` puts it together with the effect of `hash_remove_object`.
* `KeysAgree`: the key list names the stored pairs, so that `hash_remove_node` reaches all of them.
  `keysAgree_iff`: a run keeps it exactly when it removes the newest stored name only.
-/

namespace RoutingDaemon

/-- A call of the interface of the object table. -/
inductive Call
  | op (o : Op)
  | removeObject (name : CharBuf maxobjname)

section Table

variable (sfh : CString → UInt32)

/-- One call on the table. -/
def applyCall (h : LisoHash) : Call → Except Fault LisoHash
  | .op o => applyOp sfh h o
  | .removeObject name => .ok (hashRemoveObject sfh h name.1).2

/-- A run of calls from `init_hash`. -/
def execCalls (calls : List Call) : Except Fault LisoHash := calls.foldlM (applyCall sfh) initHash

end Table

/-- The names stored after one more call, oldest first. -/
def storedCall (l : List CString) : Call → List CString
  | .op (.add name _ _) => if name.1 ∈ l then l else l ++ [name.1]
  | .op (.removeNode _) => l
  | .op .collapse => []
  | .removeObject name => l.erase name.1

/-- The names stored by a run, oldest first. -/
def stored (calls : List Call) : List CString := calls.foldl storedCall []

/-- There are never more than `MAXOBJNUM` names stored at once. -/
def Fits (calls : List Call) : Prop := ∀ pre, pre <+: calls → (stored pre).length ≤ maxobjnum

/-- All pairs of the table. -/
def pairs (h : LisoHash) : List Pair := (List.range hashsize).flatMap h.hash

/-! ### One more call -/

section Concat

variable (calls : List Call) (call : Call)

@[simp] theorem stored_concat : stored (calls ++ [call]) = storedCall (stored calls) call := by
  simp [stored]

theorem execCalls_concat (sfh : CString → UInt32) :
    execCalls sfh (calls ++ [call]) = execCalls sfh calls >>= fun h => applyCall sfh h call :=
  foldlM_concat _ _ _ _

theorem fits_concat :
    Fits (calls ++ [call]) ↔ Fits calls ∧ (storedCall (stored calls) call).length ≤ maxobjnum := by
  rw [← stored_concat]
  exact forall_prefix_concat (P := fun pre => (stored pre).length ≤ maxobjnum)

end Concat

theorem nodup_stored (calls : List Call) : (stored calls).Nodup := by
  induction calls using List.reverseRecOn with
  | nil => exact List.nodup_nil
  | append_singleton calls call ih =>
    rw [stored_concat]
    match call with
    | .op (.add name node cost) =>
      rw [storedCall]
      split_ifs with hm
      · exact ih
      · rw [List.nodup_append]
        refine ⟨ih, List.nodup_singleton _, fun a ha b hb => ?_⟩
        rw [List.mem_singleton.mp hb]
        exact fun e => hm (e ▸ ha)
    | .op (.removeNode node) => exact ih
    | .op .collapse => exact List.nodup_nil
    | .removeObject name => exact ih.erase _

theorem length_stored_le (calls : List Call) : (stored calls).length ≤ calls.length := by
  induction calls using List.reverseRecOn with
  | nil => exact le_rfl
  | append_singleton calls call ih =>
    rw [stored_concat, List.length_append, List.length_singleton]
    match call with
    | .op (.add name node cost) =>
      rw [storedCall]
      split_ifs
      · omega
      · rw [List.length_append, List.length_singleton]
        omega
    | .op (.removeNode node) =>
      rw [storedCall]
      omega
    | .op .collapse => exact Nat.zero_le _
    | .removeObject name =>
      rw [storedCall]
      exact (List.length_erase_le ..).trans (by omega)

theorem fits_of_length {calls : List Call} (h : calls.length ≤ maxobjnum) : Fits calls :=
  fun pre hp => (length_stored_le pre).trans (hp.length_le.trans h)

/-! ### The bucket chains -/

variable {sfh : CString → UInt32}

/-- The chains hold the names `l`, each once and in its bucket, and the counter counts them. -/
structure Chained (sfh : CString → UInt32) (l : List CString) (h : LisoHash) : Prop where
  placed : Chain.WellPlaced Pair.name (hashIndex sfh) h.hash
  names : ∀ s, s ∈ l ↔ (pairOf sfh h s).isSome
  count : h.numObjs = l.length

theorem chained_initHash : Chained sfh [] initHash :=
  ⟨Chain.wellPlaced_empty, by simp [initHash, pairOf, Chain.lookup], rfl⟩

/-- The early return on an empty table hides nothing. -/
theorem Chained.containsObject_eq {l : List CString} {h : LisoHash} (c : Chained sfh l h)
    (s : CString) : containsObject sfh h s = pairOf sfh h s := by
  unfold containsObject
  split_ifs with h0
  · have hl : l = [] := List.length_eq_zero_iff.mp (c.count ▸ h0)
    have hs : ¬ (pairOf sfh h s).isSome := by
      rw [← c.names, hl]
      simp
    exact (Option.not_isSome_iff_eq_none.mp hs).symm
  · rfl

theorem Chained.getPaths_eq {l : List CString} {h : LisoHash} (c : Chained sfh l h)
    (s : CString) : getPaths sfh h s = (pairOf sfh h s).bind Pair.pathS := by
  have e : getPaths sfh h s = (containsObject sfh h s).bind Pair.pathS := by
    unfold getPaths containsObject
    split_ifs <;> rfl
  rw [e, c.containsObject_eq]

theorem Chained.mem_pairs {l : List CString} {h : LisoHash} (c : Chained sfh l h) {p : Pair} :
    p ∈ pairs h ↔ pairOf sfh h p.name = some p := by
  rw [pairOf, c.placed.lookup_eq_some_iff, pairs, List.mem_flatMap]
  constructor
  · rintro ⟨i, -, hp⟩
    exact ⟨rfl, i, hp⟩
  · rintro ⟨-, i, hp⟩
    refine ⟨i, List.mem_range.mpr ?_, hp⟩
    rw [← c.placed.placed i p hp]
    exact Nat.mod_lt _ (by decide)

theorem Chained.exists_pair_iff {l : List CString} {h : LisoHash} (c : Chained sfh l h)
    {s : CString} : (∃ p ∈ pairs h, p.name = s) ↔ s ∈ l := by
  rw [c.names, Option.isSome_iff_exists]
  constructor
  · rintro ⟨p, hp, rfl⟩
    exact ⟨p, c.mem_pairs.mp hp⟩
  · rintro ⟨p, hp⟩
    have hn : p.name = s := Chain.key_of_lookup hp
    subst hn
    exact ⟨p, c.mem_pairs.mpr hp, rfl⟩

theorem Chained.nodup_pairs {l : List CString} {h : LisoHash} (c : Chained sfh l h) :
    ((pairs h).map Pair.name).Nodup := c.placed.nodup_flatMap List.nodup_range

theorem Chained.length_pairs {l : List CString} {h : LisoHash} (c : Chained sfh l h)
    (hl : l.Nodup) : h.numObjs = (pairs h).length := by
  have hp : List.Perm ((pairs h).map Pair.name) l := by
    rw [List.perm_ext_iff_of_nodup c.nodup_pairs hl]
    intro s
    rw [List.mem_map]
    exact c.exists_pair_iff
  rw [c.count, ← hp.length_eq, List.length_map]

/-! ### The operations on the chains -/

theorem Chained.alter {l : List CString} {h : LisoHash} (c : Chained sfh l h) (s : CString)
    {f : Pair → Pair} (hf : ∀ p, (f p).name = p.name) :
    Chained sfh l { h with hash := Chain.alter Pair.name (hashIndex sfh) h.hash s f } where
  placed := c.placed.alter hf s
  names s' := by rw [c.names s', pairOf, pairOf, Chain.lookup_alter hf, Option.isSome_map]
  count := c.count

theorem Chained.hashAdd {l : List CString} {h h' : LisoHash} (c : Chained sfh l h) {s : CString}
    {n : Int32} {cost : ℤ} (e : hashAdd sfh h s n cost = .ok h') :
    Chained sfh (if s ∈ l then l else l ++ [s]) h' := by
  have hs : s ∈ l ↔ (pairOf sfh h s).isSome := c.names s
  rcases hashAdd_cases (c.containsObject_eq s) e with
    ⟨q, p, hq, -, -, rfl⟩ | ⟨q, hq, -, rfl⟩ | ⟨name, rfl, hq, hr, rfl⟩
  · rw [if_pos (hs.mpr (by rw [hq]; rfl))]
    exact c
  · rw [if_pos (hs.mpr (by rw [hq]; rfl))]
    exact c.alter s (f := fun q => { q with pathS := some ⟨n, cost⟩ }) fun _ => rfl
  · rw [if_neg fun hm => by simpa [hq] using hs.mp hm]
    refine ⟨c.placed.push hq, fun s' => ?_, by simp [c.count]⟩
    rw [pairOf, Chain.lookup_push, List.mem_append, List.mem_singleton, c.names s']
    by_cases he : name.1 = s'
    · simp [Pair.name, he]
    · simp [Pair.name, he, Ne.symm he]

theorem Chained.hashRemoveNode {l : List CString} {h : LisoHash} (c : Chained sfh l h)
    (n : Int32) : Chained sfh l (hashRemoveNode sfh h n) := by
  unfold RoutingDaemon.hashRemoveNode
  split_ifs with h0
  · exact c
  · -- one walk for every slot, whatever it holds
    clear h0
    induction List.range h.numObjs using List.reverseRecOn with
    | nil => exact c
    | append_singleton r i ih =>
      rw [List.foldl_append]
      exact ih.alter (h.objNames i).1 (clearNode_name n)

theorem Chained.collapse {l : List CString} {h : LisoHash} (c : Chained sfh l h) :
    Chained sfh [] (collapse h).2 := by
  unfold RoutingDaemon.collapse
  split_ifs with h0
  · rw [c.count, List.length_eq_zero_iff] at h0
    exact h0 ▸ c
  · exact chained_initHash

theorem Chained.hashRemoveObject_of_notMem {l : List CString} {h : LisoHash}
    (c : Chained sfh l h) {s : CString} (hs : s ∉ l) : hashRemoveObject sfh h s = (0, h) := by
  have hn : Chain.lookup Pair.name (hashIndex sfh) h.hash s = none := by
    rw [c.names] at hs
    exact Option.not_isSome_iff_eq_none.mp hs
  unfold hashRemoveObject
  split_ifs
  · rfl
  · rw [hn]

theorem Chained.hashRemoveObject_of_mem {l : List CString} {h : LisoHash}
    (c : Chained sfh l h) {s : CString} (hs : s ∈ l) :
    hashRemoveObject sfh h s = (1, removeObjFromObjset
      { h with
        hash := Chain.unlink Pair.name (hashIndex sfh) h.hash s
        numObjs := h.numObjs - 1 } s) := by
  obtain ⟨q, hq : Chain.lookup Pair.name (hashIndex sfh) h.hash s = some q⟩ :=
    Option.isSome_iff_exists.mp ((c.names s).mp hs)
  have h0 : h.numObjs ≠ 0 := c.count ▸ (List.length_pos_of_mem hs).ne'
  unfold hashRemoveObject
  rw [if_neg h0, hq]

theorem Chained.pairOf_hashRemoveObject {l : List CString} {h : LisoHash} (c : Chained sfh l h)
    (s s' : CString) : pairOf sfh (hashRemoveObject sfh h s).2 s' =
      if s' = s then none else pairOf sfh h s' := by
  by_cases hs : s ∈ l
  · rw [c.hashRemoveObject_of_mem hs]
    exact Chain.lookup_unlink c.placed s s'
  · rw [c.hashRemoveObject_of_notMem hs]
    split_ifs with he
    · rw [c.names, ← he] at hs
      simpa using hs
    · rfl

theorem Chained.hashRemoveObject {l : List CString} {h : LisoHash} (c : Chained sfh l h)
    (hl : l.Nodup) (s : CString) : Chained sfh (l.erase s) (hashRemoveObject sfh h s).2 := by
  have names : ∀ s', s' ∈ l.erase s ↔
      (pairOf sfh (RoutingDaemon.hashRemoveObject sfh h s).2 s').isSome := fun s' => by
    rw [hl.mem_erase_iff, c.names, c.pairOf_hashRemoveObject]
    by_cases he : s' = s <;> simp [he]
  by_cases hs : s ∈ l
  · rw [c.hashRemoveObject_of_mem hs] at names ⊢
    exact ⟨c.placed.unlink s, names, by simp [removeObjFromObjset, c.count, hs]⟩
  · rw [c.hashRemoveObject_of_notMem hs, List.erase_of_not_mem hs]
    exact c

/-! ### The chains along a run -/

theorem Chained.applyCall {l : List CString} {h h' : LisoHash} {call : Call}
    (c : Chained sfh l h) (hl : l.Nodup) (e : applyCall sfh h call = .ok h') :
    Chained sfh (storedCall l call) h' := by
  match call with
  | .op (.add name node cost) => exact c.hashAdd e
  | .op (.removeNode node) =>
    cases e
    exact c.hashRemoveNode node
  | .op .collapse =>
    cases e
    exact c.collapse
  | .removeObject name =>
    cases e
    exact c.hashRemoveObject hl name.1

theorem Chained.progress {l : List CString} {h : LisoHash} (c : Chained sfh l h) (call : Call)
    (hf : (storedCall l call).length ≤ maxobjnum) :
    ∃ h', RoutingDaemon.applyCall sfh h call = .ok h' := by
  match call with
  | .op (.add name node cost) =>
    cases e : RoutingDaemon.hashAdd sfh h name.1 node cost with
    | ok h' => exact ⟨h', e⟩
    | error f =>
      obtain ⟨-, hq, hr⟩ := hashAdd_error_cases (c.containsObject_eq name.1) e
      have hm : name.1 ∉ l := by
        rw [c.names, hq]
        simp
      rw [storedCall, if_neg hm, List.length_append, List.length_singleton, ← c.count] at hf
      omega
  | .op (.removeNode node) => exact ⟨_, rfl⟩
  | .op .collapse => exact ⟨_, rfl⟩
  | .removeObject name => exact ⟨_, rfl⟩

theorem execCalls_chained {calls : List Call} {h : LisoHash}
    (e : execCalls sfh calls = .ok h) : Chained sfh (stored calls) h := by
  induction calls using List.reverseRecOn generalizing h with
  | nil =>
    cases e
    exact chained_initHash
  | append_singleton calls call ih =>
    rw [execCalls_concat, bind_eq_ok] at e
    obtain ⟨h₁, e₁, e⟩ := e
    rw [stored_concat]
    exact (ih e₁).applyCall (nodup_stored calls) e

theorem exists_execCalls (sfh : CString → UInt32) {calls : List Call} (hf : Fits calls) :
    ∃ h, execCalls sfh calls = .ok h := by
  induction calls using List.reverseRecOn with
  | nil => exact ⟨_, rfl⟩
  | append_singleton calls call ih =>
    obtain ⟨hf, hl⟩ := (fits_concat calls call).mp hf
    obtain ⟨h, e⟩ := ih hf
    obtain ⟨h', e'⟩ := (execCalls_chained e).progress call hl
    exact ⟨h', by rw [execCalls_concat, e]; exact e'⟩

/-- **The bucket chains survive removal.** A run that fits does not fault: the names stored are those
of the pairs, every pair is in the bucket of its name, no name is in two pairs, the counter is the
number of pairs, and `hash_remove_object` takes out exactly the pair of a stored name, wherever it
stands in its chain. -/
theorem chains_with_removal (sfh : CString → UInt32) (calls : List Call) (hf : Fits calls) :
    ∃ h, execCalls sfh calls = .ok h ∧
      (∀ s, (∃ p ∈ pairs h, p.name = s) ↔ s ∈ stored calls) ∧
      (∀ i, ∀ p ∈ h.hash i, hashIndex sfh p.name = i) ∧
      ((pairs h).map Pair.name).Nodup ∧
      h.numObjs = (pairs h).length ∧
      ∀ s : CString,
        ((∃ p ∈ pairs h, p.name = s) → (hashRemoveObject sfh h s).1 = 1 ∧
          ∃ pre q post, h.hash (hashIndex sfh s) = pre ++ q :: post ∧ q.name = s ∧
            (hashRemoveObject sfh h s).2.hash =
              Function.update h.hash (hashIndex sfh s) (pre ++ post)) ∧
        ((¬ ∃ p ∈ pairs h, p.name = s) → hashRemoveObject sfh h s = (0, h)) ∧
        containsObject sfh (hashRemoveObject sfh h s).2 s = none ∧
        ∀ s' ≠ s, containsObject sfh (hashRemoveObject sfh h s).2 s' = containsObject sfh h s' ∧
          getPaths sfh (hashRemoveObject sfh h s).2 s' = getPaths sfh h s' := by
  obtain ⟨h, e⟩ := exists_execCalls sfh hf
  have c := execCalls_chained e
  refine ⟨h, e, fun s => c.exists_pair_iff, c.placed.placed, c.nodup_pairs,
    c.length_pairs (nodup_stored calls), fun s => ?_⟩
  have c' := c.hashRemoveObject (nodup_stored calls) s
  refine ⟨fun hs => ?_, fun hs => ?_, ?_, fun s' hs => ⟨?_, ?_⟩⟩
  · rw [c.exists_pair_iff] at hs
    rw [c.hashRemoveObject_of_mem hs]
    refine ⟨rfl, ?_⟩
    obtain ⟨q, hq⟩ := Option.isSome_iff_exists.mp ((c.names s).mp hs)
    obtain ⟨r, pre, post, -, hr, hsplit, hrest⟩ :=
      List.exists_of_eraseP (p := fun p : Pair => decide (p.name = s)) (Chain.mem_of_lookup hq)
        (by simpa using Chain.key_of_lookup hq)
    refine ⟨pre, r, post, hsplit, by simpa using hr, ?_⟩
    rw [← hrest]
    rfl
  · rw [c.exists_pair_iff] at hs
    exact c.hashRemoveObject_of_notMem hs
  · rw [c'.containsObject_eq, c.pairOf_hashRemoveObject, if_pos rfl]
  · rw [c'.containsObject_eq, c.pairOf_hashRemoveObject, if_neg hs, c.containsObject_eq]
  · rw [c'.getPaths_eq, c.pairOf_hashRemoveObject, if_neg hs, c.getPaths_eq]

/-- An object with the name `p`. -/
def objectP : CharBuf maxobjname := ⟨cstr [112], by decide⟩

/-- Two objects are added and the first is removed. -/
def earlierRemoved : List Call :=
  [.op (.add objectO 1 2), .op (.add objectP 3 5), .removeObject objectO]

theorem chains_with_removal_earlierRemoved :
    ∃ h, execCalls superFastHash earlierRemoved = .ok h ∧ h.numObjs = (pairs h).length := by
  obtain ⟨h, e, -, -, -, hn, -⟩ := chains_with_removal superFastHash earlierRemoved
    (fits_of_length (by decide))
  exact ⟨h, e, hn⟩

/-! ### The key list -/

/-- The slots below the counter hold the names of the stored pairs, each once, and the walks of
`hash_remove_node` over them leave no pair whose path names the node. -/
structure KeysAgree (sfh : CString → UInt32) (h : LisoHash) : Prop where
  names : ∀ s, (∃ i < h.numObjs, (h.objNames i).1 = s) ↔ ∃ i, ∃ p ∈ h.hash i, p.name = s
  once : ∀ i < h.numObjs, ∀ j < h.numObjs, (h.objNames i).1 = (h.objNames j).1 → i = j
  swept : ∀ n i, ∀ p ∈ (hashRemoveNode sfh h n).hash i, p.pathS.map Path.nodeId ≠ some n

/-- The slots below the counter. -/
def keyList (h : LisoHash) : List CString := (List.range h.numObjs).map fun i => (h.objNames i).1

theorem mem_keyList {h : LisoHash} {s : CString} :
    s ∈ keyList h ↔ ∃ i < h.numObjs, (h.objNames i).1 = s := by
  simp [keyList]

theorem Chained.keysAgree {calls : List Call} {h : LisoHash} (c : Chained sfh (stored calls) h)
    (hk : keyList h = stored calls) (hr : h.numObjs ≤ maxobjnum) : KeysAgree sfh h := by
  have hnd : (keyList h).Nodup := hk ▸ nodup_stored calls
  have names : ∀ s, (∃ i < h.numObjs, (h.objNames i).1 = s) ↔ (pairOf sfh h s).isSome :=
    fun s => by rw [← mem_keyList, hk, c.names]
  have inj : ∀ i < h.numObjs, ∀ j < h.numObjs, (h.objNames i).1 = (h.objNames j).1 → i = j := by
    intro i hi j hj e
    exact List.inj_on_of_nodup_map hnd (List.mem_range.mpr hi) (List.mem_range.mpr hj) e
  have hc : Consistent sfh h := ⟨c.placed, names, inj, hr⟩
  refine ⟨fun s => ?_, inj, fun n i p hp hn => ?_⟩
  · rw [names, ← Option.isSome_map (f := Pair.pathS), Option.isSome_iff_exists]
    constructor
    · rintro ⟨p, hp⟩
      obtain ⟨i, q, hq, hs, -⟩ := (view_eq_some_iff hc).mp hp
      exact ⟨i, q, hq, hs⟩
    · rintro ⟨i, q, hq, hs⟩
      exact ⟨q.pathS, (view_eq_some_iff hc).mpr ⟨i, q, hq, hs, rfl⟩⟩
  · have hall : ForallPaths sfh h fun _ => True := fun _ _ _ => trivial
    obtain ⟨r, hr, hrn⟩ := Option.map_eq_some_iff.mp hn
    exact ((hall.hashRemoveNode hc n).mem (hashRemoveNode_spec hc n).1 hp hr).2 hrn

theorem keyList_hashAdd {l : List CString} {h h' : LisoHash} (c : Chained sfh l h) {s : CString}
    {n : Int32} {cost : ℤ} (e : hashAdd sfh h s n cost = .ok h') :
    keyList h' = if s ∈ l then keyList h else keyList h ++ [s] := by
  have hs : s ∈ l ↔ (pairOf sfh h s).isSome := c.names s
  rcases hashAdd_cases (c.containsObject_eq s) e with
    ⟨q, p, hq, -, -, rfl⟩ | ⟨q, hq, -, rfl⟩ | ⟨name, rfl, hq, hr, rfl⟩
  · rw [if_pos (hs.mpr (by rw [hq]; rfl))]
  · rw [if_pos (hs.mpr (by rw [hq]; rfl))]
    rfl
  · rw [if_neg fun hm => by simpa [hq] using hs.mp hm, keyList, keyList]
    simp only
    rw [List.range_succ, List.map_append, List.map_singleton, Function.update_self]
    congr 1
    refine List.map_congr_left fun i hi => ?_
    rw [Function.update_of_ne (List.mem_range.mp hi).ne]

theorem keyList_hashRemoveNode (h : LisoHash) (n : Int32) :
    keyList (hashRemoveNode sfh h n) = keyList h := by
  unfold hashRemoveNode keyList
  split_ifs <;> rfl

theorem keyList_collapse (h : LisoHash) : keyList (collapse h).2 = [] := by
  rw [keyList, collapse_numObjs, List.range_zero, List.map_nil]

/-- The slots after the removal of a stored name: one slot fewer counts, and the name is zeroed. -/
theorem objNames_hashRemoveObject {l : List CString} {h : LisoHash} (c : Chained sfh l h)
    {s : CString} (hs : s ∈ l) (i : ℕ) : (hashRemoveObject sfh h s).2.objNames i =
      if i < hashsize ∧ (h.objNames i).1 = s then emptyName else h.objNames i := by
  rw [c.hashRemoveObject_of_mem hs]
  rfl

theorem numObjs_hashRemoveObject {l : List CString} {h : LisoHash} (c : Chained sfh l h)
    {s : CString} (hs : s ∈ l) : (hashRemoveObject sfh h s).2.numObjs = h.numObjs - 1 := by
  rw [c.hashRemoveObject_of_mem hs]
  rfl

/-- The removal of the newest name takes the last slot out of the key list. -/
theorem keyList_hashRemoveObject_newest {l : List CString} {h : LisoHash} (c : Chained sfh l h)
    (hl : l.Nodup) (hk : keyList h = l) {s : CString} (hs : l.getLast? = some s) :
    keyList (hashRemoveObject sfh h s).2 = l.erase s := by
  obtain ⟨r, rfl⟩ := List.getLast?_eq_some_iff.mp hs
  have hsr : s ∉ r := fun hm => (List.nodup_append.mp hl).2.2 s hm s (by simp) rfl
  have hm : s ∈ r ++ [s] := by simp
  have hn : h.numObjs = r.length + 1 := by simpa using c.count
  have hr : ((List.range r.length).map fun i => (h.objNames i).1) = r := by
    rw [keyList, hn, List.range_succ, List.map_append] at hk
    exact (List.append_inj hk (by simp)).1
  rw [List.erase_append_right _ hsr, List.erase_cons_head, List.append_nil, keyList,
    numObjs_hashRemoveObject c hm, hn, Nat.add_sub_cancel]
  conv_rhs => rw [← hr]
  refine List.map_congr_left fun i hi => ?_
  have hne : (h.objNames i).1 ≠ s := fun e => hsr (hr ▸ List.mem_map.mpr ⟨i, hi, e⟩)
  rw [objNames_hashRemoveObject c hm, if_neg fun he => hne he.2]

/-- If the key list still agrees with the chains after the removal of a stored name, the name was the
newest: an earlier slot would be left empty below the counter. -/
theorem newest_of_keysAgree {l : List CString} {h : LisoHash} (c : Chained sfh l h)
    (hl : l.Nodup) (hk : keyList h = l) (hf : l.length ≤ maxobjnum) (hne : ∀ s ∈ l, s.1 ≠ [])
    {s : CString} (hs : s ∈ l) (ha : KeysAgree sfh (hashRemoveObject sfh h s).2) :
    l.getLast? = some s := by
  obtain ⟨j, hj, hjs⟩ := mem_keyList.mp (hk ▸ hs)
  have hcount := c.count
  have hroom : maxobjnum = hashsize := rfl
  by_cases hlast : j = h.numObjs - 1
  · rw [List.getLast?_eq_getElem?, ← hcount, ← hlast, ← hk, keyList]
    simp [hj, hjs]
  · have hslot : ((hashRemoveObject sfh h s).2.objNames j).1 = emptyName.1 := by
      rw [objNames_hashRemoveObject c hs, if_pos ⟨by omega, hjs⟩]
    have hlt : j < (hashRemoveObject sfh h s).2.numObjs := by
      rw [numObjs_hashRemoveObject c hs]
      omega
    obtain ⟨i, p, hp, hpn⟩ := (ha.names emptyName.1).mp ⟨j, hlt, hslot⟩
    have c' := c.hashRemoveObject hl s
    have hfound : pairOf sfh (hashRemoveObject sfh h s).2 p.name = some p :=
      c'.placed.lookup_eq_some_iff.mpr ⟨rfl, i, hp⟩
    have hmem : emptyName.1 ∈ l.erase s := by
      rw [c'.names, ← hpn, hfound]
      rfl
    exact absurd rfl (hne _ (List.mem_of_mem_erase hmem))

/-! ### Runs -/

/-- An object name of the call is not empty. -/
def Call.Named : Call → Prop
  | .op (.add name _ _) => name.1.1 ≠ []
  | .op _ => True
  | .removeObject name => name.1.1 ≠ []

theorem stored_named {calls : List Call} (hn : ∀ call ∈ calls, call.Named) :
    ∀ s ∈ stored calls, s.1 ≠ [] := by
  induction calls using List.reverseRecOn with
  | nil => simp [stored]
  | append_singleton calls call ih =>
    have ih := ih fun call' hc => hn call' (List.mem_append_left _ hc)
    have hc : call.Named := hn call (by simp)
    rw [stored_concat]
    match call with
    | .op (.add name node cost) =>
      rw [storedCall]
      intro s hs
      split_ifs at hs
      · exact ih s hs
      · rcases List.mem_append.mp hs with hs | hs
        · exact ih s hs
        · rw [List.mem_singleton.mp hs]
          exact hc
    | .op (.removeNode node) => exact ih
    | .op .collapse => simp [storedCall]
    | .removeObject name => exact fun s hs => ih s (List.mem_of_mem_erase hs)

/-- Every stored name that the run removes is the newest at that moment. -/
def NewestRemoved (calls : List Call) : Prop :=
  ∀ pre name, pre ++ [.removeObject name] <+: calls → name.1 ∈ stored pre →
    (stored pre).getLast? = some name.1

theorem newestRemoved_concat (calls : List Call) (call : Call) :
    NewestRemoved (calls ++ [call]) ↔ NewestRemoved calls ∧
      ∀ name, call = .removeObject name → name.1 ∈ stored calls →
        (stored calls).getLast? = some name.1 := by
  constructor
  · refine fun h => ⟨fun pre name hp => h pre name (hp.trans (List.prefix_append _ _)), ?_⟩
    rintro name rfl
    exact h calls name List.prefix_rfl
  · rintro ⟨h1, h2⟩ pre name hp
    rcases List.prefix_concat_iff.mp hp with he | hp
    · obtain ⟨rfl, he⟩ := List.append_inj' he rfl
      exact h2 name (by simpa using he.symm)
    · exact h1 pre name hp

/-- **The key list of a run that removes only the newest names is the list of the stored names.** -/
theorem keyList_execCalls {calls : List Call} {h : LisoHash} (hnew : NewestRemoved calls)
    (e : execCalls sfh calls = .ok h) : keyList h = stored calls := by
  induction calls using List.reverseRecOn generalizing h with
  | nil =>
    cases e
    rfl
  | append_singleton calls call ih =>
    rw [execCalls_concat, bind_eq_ok] at e
    obtain ⟨h₁, e₁, e⟩ := e
    obtain ⟨hnew, hlast⟩ := (newestRemoved_concat calls call).mp hnew
    have hk := ih hnew e₁
    have c := execCalls_chained e₁
    rw [stored_concat]
    match call with
    | .op (.add name node cost) => rw [keyList_hashAdd c e, hk, storedCall]
    | .op (.removeNode node) =>
      cases e
      rw [keyList_hashRemoveNode, hk, storedCall]
    | .op .collapse =>
      cases e
      rw [keyList_collapse, storedCall]
    | .removeObject name =>
      cases e
      rw [storedCall]
      by_cases hm : name.1 ∈ stored calls
      · exact keyList_hashRemoveObject_newest c (nodup_stored calls) hk (hlast name rfl hm)
      · rw [c.hashRemoveObject_of_notMem hm, List.erase_of_not_mem hm]
        exact hk

/-- **The key list agrees with the chains in every state of a run exactly when each stored name that
the run removes is the newest.** `remove_obj_from_objset` zeroes the slot of the name where it
stands, and `hash_remove_object` takes one slot off the end of the list. -/
theorem keysAgree_iff (sfh : CString → UInt32) (calls : List Call) (hn : ∀ call ∈ calls, call.Named)
    (hf : Fits calls) :
    (∀ pre, pre <+: calls → ∃ h, execCalls sfh pre = .ok h ∧ KeysAgree sfh h) ↔
      NewestRemoved calls := by
  induction calls using List.reverseRecOn with
  | nil =>
    refine iff_of_true (fun pre hp => ?_) fun pre name hp => ?_
    · rw [List.prefix_nil.mp hp]
      have hc : Chained sfh (stored []) initHash := chained_initHash
      exact ⟨_, rfl, hc.keysAgree rfl (Nat.zero_le _)⟩
    · simp at hp
  | append_singleton calls call ih =>
    have hnc : ∀ call' ∈ calls, call'.Named := fun call' hc => hn call' (List.mem_append_left _ hc)
    obtain ⟨hfc, hfl⟩ := (fits_concat calls call).mp hf
    have ih := ih hnc hfc
    constructor
    · intro h
      have hnew := ih.mp fun pre hp => h pre (hp.trans (List.prefix_append _ _))
      refine (newestRemoved_concat calls call).mpr ⟨hnew, ?_⟩
      rintro name rfl hm
      obtain ⟨h', e', ha⟩ := h _ List.prefix_rfl
      rw [execCalls_concat, bind_eq_ok] at e'
      obtain ⟨h₁, e₁, e'⟩ := e'
      cases e'
      exact newest_of_keysAgree (execCalls_chained e₁) (nodup_stored calls)
        (keyList_execCalls hnew e₁) (hfc _ List.prefix_rfl) (stored_named hnc) hm ha
    · intro hnew pre hp
      rcases List.prefix_concat_iff.mp hp with rfl | hp
      · obtain ⟨h, e⟩ := exists_execCalls sfh hf
        have c := execCalls_chained e
        exact ⟨h, e, c.keysAgree (keyList_execCalls hnew e) (c.count ▸ hf _ List.prefix_rfl)⟩
      · exact ih.mpr ((newestRemoved_concat calls call).mp hnew).1 pre hp

/-- Two objects are added and the second is removed. -/
def laterRemoved : List Call :=
  [.op (.add objectO 1 2), .op (.add objectP 3 5), .removeObject objectP]

theorem keysAgree_iff_laterRemoved :
    (∀ pre, pre <+: laterRemoved → ∃ h, execCalls superFastHash pre = .ok h ∧
      KeysAgree superFastHash h) ↔ NewestRemoved laterRemoved :=
  keysAgree_iff superFastHash laterRemoved
    (by simp [laterRemoved, Call.Named, objectO, objectP, cstr]) (fits_of_length (by decide))

/-- The later object is no longer in the key list, and the removal of its node misses it. -/
theorem exists_unswept : (∀ call ∈ earlierRemoved, call.Named) ∧ Fits earlierRemoved ∧
    ∃ h, execCalls superFastHash earlierRemoved = .ok h ∧
      getPaths superFastHash (hashRemoveNode superFastHash h 3) objectP.1 = some ⟨3, 5⟩ ∧
      ¬ KeysAgree superFastHash h := by
  have key : (execCalls superFastHash earlierRemoved).map (fun h => decide
      (getPaths superFastHash (hashRemoveNode superFastHash h 3) objectP.1 = some ⟨3, 5⟩)) =
      .ok true := by decide +kernel
  obtain ⟨h, e, hd⟩ := exists_of_map_eq_ok key
  rw [decide_eq_true_eq] at hd
  refine ⟨by simp [earlierRemoved, Call.Named, objectO, objectP, cstr],
    fits_of_length (by decide), h, e, hd, fun ha => ?_⟩
  have c := (execCalls_chained e).hashRemoveNode 3
  rw [c.getPaths_eq, Option.bind_eq_some_iff] at hd
  obtain ⟨p, hp, hpath⟩ := hd
  exact ha.swept 3 _ p (Chain.mem_of_lookup hp) (by rw [hpath]; rfl)

end RoutingDaemon
