import RoutingDaemon.DaemonInvariant

/-!
# The tables as maps

* `entryOf`: the routing table as a map from node ids to entries. `entryOf_updateEntry`: what an LSA
  does to the map.
* `statusOf`, `nexthopOf`: two fields of an entry that is looked up.
* `objectNames`: the names in an LSA, in order; `storeNodeObjects_iff`: `store_node_objects` adds them
  one by one. `ObjMap.announceAll`, `storeNodeObjects_view`: what it does to the object table.
-/

namespace RoutingDaemon

/-! ### The routing table -/

/-- The entry of a node. -/
def entryOf (rt : RoutingTable) (id : Int32) : Option RoutingEntry :=
  (getRoutingEntry rt id).bind fun k => rt.table[k]?

section Entries

variable {rt rt' : RoutingTable} {id : Int32}

theorem entryOf_eq_some {e : RoutingEntry} :
    entryOf rt id = some e ↔ ∃ k, getRoutingEntry rt id = some k ∧ rt.table[k]? = some e :=
  Option.bind_eq_some_iff

theorem entryOf_id {e : RoutingEntry} (h : entryOf rt id = some e) : e.id = id := by
  obtain ⟨k, hk, he⟩ := entryOf_eq_some.mp h
  obtain ⟨e', he', hid⟩ := getRoutingEntry_eq_some hk
  rw [he, Option.some.injEq] at he'
  rwa [he']

theorem entryOf_eq_none : entryOf rt id = none ↔ getRoutingEntry rt id = none := by
  unfold entryOf
  cases hk : getRoutingEntry rt id with
  | none => simp
  | some k =>
    obtain ⟨e, he, -⟩ := getRoutingEntry_eq_some hk
    simp [he]

theorem entryOf_modify {k : ℕ} {f : RoutingEntry → RoutingEntry} (hid : ∀ e, (f e).id = e.id) :
    entryOf (rt.modify k f) id =
      if getRoutingEntry rt id = some k then (entryOf rt id).map f else entryOf rt id := by
  unfold entryOf
  rw [getRoutingEntry_modify hid]
  cases getRoutingEntry rt id with
  | none => simp
  | some m =>
    simp only [Option.bind_some, getElem?_modify, Option.some.injEq, eq_comm (a := m)]
    split_ifs with hm
    · rfl
    · simp

theorem entryOf_modify_map {α : Type} {g : RoutingEntry → α} {k : ℕ}
    {f : RoutingEntry → RoutingEntry} (hid : ∀ e, (f e).id = e.id) (hg : ∀ e, g (f e) = g e) :
    (entryOf (rt.modify k f) id).map g = (entryOf rt id).map g := by
  rw [entryOf_modify hid]
  split_ifs
  · rw [Option.map_map]
    congr 1
    funext e
    exact hg e
  · rfl

/-- What `update_entry` makes of the entry of the originator. -/
def updatedEntry (fresh : Fresh) (dl : DirectLinks) (lsa : LSA) (size : ℕ) (nexthop : Int32)
    (old : Option RoutingEntry) : RoutingEntry :=
  storeLsa fresh dl lsa size nexthop
    ((old.map (setRoute (lsaCost lsa) nexthop)).getD (newEntry lsa nexthop (lsaCost lsa)))

theorem updatedEntry_cost (fresh : Fresh) (dl : DirectLinks) (a : LSA) (size : ℕ) (f : Int32)
    (old : Option RoutingEntry) : (updatedEntry fresh dl a size f old).cost =
      match old with
      | some e => min (lsaCost a) e.cost
      | none => lsaCost a := by
  cases old with
  | none => rfl
  | some e =>
    simp only [updatedEntry, storeLsa, setRoute, Option.map_some, Option.getD_some]
    split_ifs with hlt
    · exact (min_eq_left hlt.le).symm
    · exact (min_eq_right (not_lt.mp hlt)).symm

/-- **`update_entry` on the map.** -/
theorem entryOf_updateEntry {fresh : Fresh} {dl : DirectLinks} {lsa : LSA} {size : ℕ}
    {nexthop : Int32} (ht : getType lsa.versionTtlType = typeLsa)
    (h : updateEntry fresh (getRoutingEntry rt lsa.senderNodeId) rt dl lsa size nexthop = .ok rt') :
    entryOf rt' id = if id = lsa.senderNodeId then
      some (updatedEntry fresh dl lsa size nexthop (entryOf rt id)) else entryOf rt id := by
  cases hk : getRoutingEntry rt lsa.senderNodeId with
  | none =>
    rw [hk, updateEntry_none ht] at h
    have htab := getElem?_push h
    have hself := getRoutingEntry_push_self h hk
    simp only [storeLsa, newEntry] at hself
    split_ifs with hid
    · subst hid
      rw [entryOf_eq_none.mpr hk, entryOf, hself, Option.bind_some, htab,
        List.getElem?_concat_length]
      rfl
    · cases hm : getRoutingEntry rt id with
      | none => rw [entryOf_eq_none.mpr hm, entryOf_eq_none.mpr (getRoutingEntry_push_ne h hid hm)]
      | some m =>
        obtain ⟨e, he, -⟩ := getRoutingEntry_eq_some hm
        rw [entryOf, getRoutingEntry_push h hm, entryOf, hm, Option.bind_some, Option.bind_some,
          htab, List.getElem?_append_left (List.getElem?_eq_some_iff.mp he).1]
  | some k =>
    rw [hk, updateEntry_some ht] at h
    cases h
    obtain ⟨e, he, hide⟩ := getRoutingEntry_eq_some hk
    rw [entryOf_modify (by exact fun _ => rfl)]
    by_cases hid : id = lsa.senderNodeId
    · subst hid
      rw [if_pos hk, if_pos rfl, entryOf, hk, Option.bind_some, he]
      rfl
    · rw [if_neg hid, if_neg]
      intro hm
      obtain ⟨e', he', hid'⟩ := getRoutingEntry_eq_some hm
      rw [he, Option.some.injEq] at he'
      exact hid (by rw [← hid', ← he', hide])

/-- The status of a node. -/
def statusOf (rt : RoutingTable) (id : Int32) : Option ℤ :=
  (entryOf rt id).map RoutingEntry.nodeStatus

theorem statusOf_modifyChecker {k i : ℕ} {g : AckChecker → AckChecker} :
    statusOf (modifyChecker rt k i g) id = statusOf rt id :=
  entryOf_modify_map (fun _ => rfl) fun _ => rfl

/-- The next hop for a node. -/
def nexthopOf (rt : RoutingTable) (id : Int32) : Option Int32 :=
  (entryOf rt id).map RoutingEntry.nexthop

theorem nexthopOf_keep {k : ℕ} {f : RoutingEntry → RoutingEntry} (hid : ∀ e, (f e).id = e.id)
    (hn : ∀ e, (f e).nexthop = e.nexthop) : nexthopOf (rt.modify k f) id = nexthopOf rt id :=
  entryOf_modify_map hid hn

theorem linkStatus_iff {s : ℤ} : linkStatus rt id = .ok s ↔ statusOf rt id = some s := by
  rw [linkStatus_eq_ok, statusOf, Option.map_eq_some_iff]
  simp only [entryOf_eq_some]
  constructor
  · rintro ⟨m, e, hm, he, hs⟩
    exact ⟨e, ⟨m, hm, he⟩, hs⟩
  · rintro ⟨e, ⟨m, hm, he⟩, hs⟩
    exact ⟨m, e, hm, he, hs⟩

end Entries

/-! ### The object table -/

/-- The names in an LSA, as `store_node_objects` reads them. -/
def objectNames (lsa : LSA) : Except Fault (List CString) :=
  storeNodeObjects (fun names name _ _ => .ok (names ++ [name])) [] lsa

section Store

variable {σ : Type} {add : σ → CString → Int32 → ℤ → Except Fault σ} {lsa : LSA}

theorem storeLoop_collect (n : ℕ) (i : ℤ) (names : List CString) :
    storeLoop (fun names name _ _ => .ok (names ++ [name])) lsa n i names =
      (storeLoop (fun names name _ _ => .ok (names ++ [name])) lsa n i []).map (names ++ ·) := by
  induction n generalizing i names with
  | zero => simp [storeLoop, Except.map]
  | succ n ih =>
    simp only [storeLoop]
    cases hl : readInt lsa i with
    | error f => rfl
    | ok len =>
      simp only [ok_bind]
      cases hr : readName lsa (i + 4) len with
      | error f => rfl
      | ok name =>
        simp only [ok_bind]
        rw [ih, ih _ ([] ++ [name])]
        cases storeLoop (fun names name _ _ => .ok (names ++ [name])) lsa n (i + 4 + len) [] with
        | error f => rfl
        | ok l => simp [Except.map]

theorem storeLoop_iff (n : ℕ) (i : ℤ) (ht ht' : σ) :
    storeLoop add lsa n i ht = .ok ht' ↔ ∃ names,
      storeLoop (fun names name _ _ => .ok (names ++ [name])) lsa n i [] = .ok names ∧
        names.foldlM (fun ht name => add ht name lsa.senderNodeId (lsaCost lsa)) ht = .ok ht' := by
  induction n generalizing i ht with
  | zero => simp [storeLoop, pure_eq_ok]
  | succ n ih =>
    simp only [storeLoop, bind_eq_ok]
    constructor
    · rintro ⟨len, hlen, name, hname, ht₁, h1, h⟩
      obtain ⟨names, hn, h⟩ := (ih _ _).mp h
      refine ⟨name :: names, ⟨len, hlen, name, hname, [name], rfl, ?_⟩, ?_⟩
      · rw [storeLoop_collect, hn]
        rfl
      · rw [List.foldlM_cons]
        exact bind_eq_ok.mpr ⟨ht₁, h1, h⟩
    · rintro ⟨names, ⟨len, hlen, name, hname, l, hl, hn⟩, h⟩
      cases hl
      rw [List.nil_append, storeLoop_collect] at hn
      obtain ⟨names', hn', rfl⟩ := exists_of_map_eq_ok hn
      obtain ⟨ht₁, h1, h⟩ := bind_eq_ok.mp h
      exact ⟨len, hlen, name, hname, ht₁, h1, (ih _ _).mpr ⟨names', hn', h⟩⟩

theorem storeLoop_length {n : ℕ} {i : ℤ} {names : List CString}
    (h : storeLoop (fun names name _ _ => .ok (names ++ [name])) lsa n i [] = .ok names) :
    names.length = n := by
  induction n generalizing i names with
  | zero =>
    cases h
    rfl
  | succ n ih =>
    obtain ⟨len, -, h⟩ := bind_eq_ok.mp h
    obtain ⟨name, -, h⟩ := bind_eq_ok.mp h
    rw [ok_bind, storeLoop_collect] at h
    obtain ⟨names', h', rfl⟩ := exists_of_map_eq_ok h
    simp [ih h']

theorem objectNames_length {names : List CString} (h : objectNames lsa = .ok names) :
    names.length = lsa.numObjects.toInt.toNat := storeLoop_length h

/-- **`store_node_objects` adds the names of the LSA, in order.** -/
theorem storeNodeObjects_iff {ht ht' : σ} : storeNodeObjects add ht lsa = .ok ht' ↔
    ∃ names, objectNames lsa = .ok names ∧
      names.foldlM (fun ht name => add ht name lsa.senderNodeId (lsaCost lsa)) ht = .ok ht' :=
  storeLoop_iff _ _ _ _

end Store

theorem foldlM_collect {α β : Type} (f : α → β) (as : List α) (l : List β) :
    as.foldlM (fun l a => (.ok (l ++ [f a]) : Except Fault (List β))) l = .ok (l ++ as.map f) := by
  induction as generalizing l with
  | nil => rw [List.map_nil, List.append_nil]; rfl
  | cons a as ih =>
    rw [List.foldlM_cons, ok_bind, ih, List.append_assoc]
    rfl

/-- Announce several names with one path. -/
def ObjMap.announceAll (m : ObjMap) (names : List CString) (p : Path) : ObjMap :=
  names.foldl (fun m s => m.announce s p) m

theorem announcePath_idem (old : Option (Option Path)) (p : Path) :
    announcePath (some (some (announcePath old p))) p = announcePath old p := by
  rcases old with _ | _ | q
  · simp [announcePath]
  · simp [announcePath]
  · by_cases hq : q.cost > p.cost
    · simp [announcePath, hq]
    · simp [announcePath, hq]

theorem ObjMap.announceAll_apply (m : ObjMap) (names : List CString) (p : Path) (s : CString) :
    m.announceAll names p s =
      if s ∈ names then some (some (announcePath (m s) p)) else m s := by
  induction names generalizing m with
  | nil => simp [announceAll]
  | cons t names ih =>
    rw [announceAll, List.foldl_cons, ← announceAll, ih]
    by_cases hs : s = t
    · subst hs
      rw [announce_self, announcePath_idem]
      simp
    · rw [announce_of_ne hs]
      simp [hs]

theorem hashAdd_foldlM {sfh : CString → UInt32} {names : List CString} {n : Int32} {c : ℤ}
    {g g' : LisoHash} (hc : Consistent sfh g)
    (h : names.foldlM (fun g name => hashAdd sfh g name n c) g = .ok g') :
    Consistent sfh g' ∧ view sfh g' = (view sfh g).announceAll names ⟨n, c⟩ := by
  induction names generalizing g with
  | nil =>
    cases h
    exact ⟨hc, rfl⟩
  | cons name names ih =>
    obtain ⟨g₁, h1, h⟩ := bind_eq_ok.mp h
    obtain ⟨hc₁, hv₁⟩ := hashAdd_spec hc h1
    obtain ⟨hc', hv'⟩ := ih hc₁ h
    exact ⟨hc', by rw [hv', hv₁]; rfl⟩

/-- **`store_node_objects` on the map.** -/
theorem storeNodeObjects_view {sfh : CString → UInt32} {lsa : LSA} {g g' : LisoHash}
    (hc : Consistent sfh g) (h : storeNodeObjects (hashAdd sfh) g lsa = .ok g') :
    Consistent sfh g' ∧ ∃ names, objectNames lsa = .ok names ∧
      view sfh g' = (view sfh g).announceAll names ⟨lsa.senderNodeId, lsaCost lsa⟩ := by
  obtain ⟨names, hn, h⟩ := storeNodeObjects_iff.mp h
  obtain ⟨hc', hv⟩ := hashAdd_foldlM hc h
  exact ⟨hc', names, hn, hv⟩

end RoutingDaemon
