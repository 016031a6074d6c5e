import RoutingDaemon.Packet

/-!
# The routing table

* `RoutingEntry`, `AckCheckers`, `RoutingTable`; a pointer to an entry is its index.
* `getRoutingEntry`, `lookupLinkEntry`, `lookupLinkEntryNodeId`: the three lookups.
* `updateEntry`: what an LSA does to the table.
* `getChecker`, `modifyChecker`: one checker of one entry.
* The effect of a change in place on the lookups: `getElem?_modify`, `mem_modify`,
  `getRoutingEntry_modify`; entries without their checkers: `bare`.
-/

namespace RoutingDaemon

/-- `ACK_RECEIVED`, `ACK_NOT_RECEIVED` -/
inductive AckState
  | received
  | notReceived
  deriving DecidableEq, Repr

/-- The acknowledgement state of one neighbour for one LSA. -/
structure AckChecker where
  id : Int32
  ackReceived : AckState
  retransmit : ℤ
  deriving DecidableEq

/-- A list of checkers: its `num_links` field, and the cells allocated behind it. -/
structure AckCheckers where
  numLinks : Int32
  checkers : List AckChecker
  deriving DecidableEq

/-- An entry of the routing table. -/
structure RoutingEntry where
  id : Int32
  nexthop : Int32
  cost : ℤ
  nodeStatus : ℤ
  lsa : Option LSA
  lsaSize : ℕ
  lsaIsNew : Bool
  forwarderId : Int32
  checkersList : Option AckCheckers
  deriving DecidableEq

/-- The routing table: its first `num_entry` entries. -/
structure RoutingTable where
  table : List RoutingEntry
  bounded : table.length ≤ maxNodes
  deriving DecidableEq

namespace RoutingTable

/-- `num_entry` -/
def numEntry (rt : RoutingTable) : ℕ := rt.table.length

/-- Change the entry at index `k`. -/
def modify (rt : RoutingTable) (k : ℕ) (f : RoutingEntry → RoutingEntry) : RoutingTable :=
  ⟨rt.table.modify k f, by simpa using rt.bounded⟩

/-- Append an entry at index `num_entry`. -/
def push (rt : RoutingTable) (e : RoutingEntry) : Except Fault RoutingTable :=
  if h : rt.table.length < maxNodes then .ok ⟨rt.table ++ [e], by simpa using h⟩
  else .error .overflow

end RoutingTable

/-! ### Lookups -/

/-- `get_routing_entry` -/
def getRoutingEntry (rt : RoutingTable) (nodeId : Int32) : Option ℕ :=
  rt.table.findIdx? fun e => e.id = nodeId

/-- `lookup_link_entry`; the address is compared as text, and link 0 is skipped. -/
def lookupLinkEntry (dl : DirectLinks) (cliAddr : CString) : Option LinkEntry :=
  dl.links.tail.find? fun l => l.host.1 = cliAddr

/-- `lookup_link_entry_node_id` -/
def lookupLinkEntryNodeId (dl : DirectLinks) (nodeId : Int32) : Option LinkEntry :=
  dl.links.find? fun l => l.id = nodeId

/-! ### `update_entry` -/

/-- The cells after the last loop of `update_entry`. Both allocations of a list of checkers are for
`num_links` cells, so the loop writes all of them. -/
def clearedCheckers (dl : DirectLinks) : List AckChecker := dl.links.map fun l => ⟨l.id, .received, 0⟩

/-- The cost and next hop of an existing entry, and the status. -/
def setRoute (newCost : ℤ) (nexthop : Int32) (e : RoutingEntry) : RoutingEntry :=
  { e with
    nexthop := if newCost < e.cost then nexthop else e.nexthop
    cost := if newCost < e.cost then newCost else e.cost
    nodeStatus := retransmitTime }

/-- The second half of `update_entry`. A list allocated here keeps the `num_links` it finds. -/
def storeLsa (fresh : Fresh) (dl : DirectLinks) (lsa : LSA) (lsaSize : ℕ) (nexthop : Int32)
    (e : RoutingEntry) : RoutingEntry :=
  { e with
    lsa := some lsa
    lsaIsNew := true
    lsaSize := lsaSize
    forwarderId := nexthop
    checkersList := some ⟨(e.checkersList.map AckCheckers.numLinks).getD fresh.numLinks,
      clearedCheckers dl⟩ }

/-- The entry `update_entry` appends for an unknown originator, before the second half. -/
def newEntry (lsa : LSA) (nexthop : Int32) (newCost : ℤ) : RoutingEntry :=
  ⟨lsa.senderNodeId, nexthop, newCost, retransmitTime, none, 0, false, 0, none⟩

/-- `update_entry` -/
def updateEntry (fresh : Fresh) (entry : Option ℕ) (rt : RoutingTable) (dl : DirectLinks)
    (lsa : LSA) (lsaSize : ℕ) (nexthop : Int32) : Except Fault RoutingTable :=
  let newCost := defaultTtl - getTtl lsa.versionTtlType + 1
  if getType lsa.versionTtlType = typeLsa then
    match entry with
    | none => rt.push (storeLsa fresh dl lsa lsaSize nexthop (newEntry lsa nexthop newCost))
    | some k =>
      .ok (rt.modify k fun e => storeLsa fresh dl lsa lsaSize nexthop (setRoute newCost nexthop e))
  else do
    let k ← deref entry
    .ok (rt.modify k (storeLsa fresh dl lsa lsaSize nexthop))

/-! ### Checkers -/

/-- `checkers_list->checkers[i]` of the entry at index `k`. -/
def getChecker (rt : RoutingTable) (k i : ℕ) : Except Fault AckChecker := do
  let e ← deref rt.table[k]?
  let c ← deref e.checkersList
  match c.checkers[i]? with
  | some a => .ok a
  | none => .error .overRead

/-- Change checker `i` of an entry. -/
def RoutingEntry.modifyChecker (i : ℕ) (f : AckChecker → AckChecker) (e : RoutingEntry) :
    RoutingEntry :=
  { e with checkersList := e.checkersList.map fun c => { c with checkers := c.checkers.modify i f } }

/-- Change checker `i` of the entry at index `k`. -/
def modifyChecker (rt : RoutingTable) (k i : ℕ) (f : AckChecker → AckChecker) : RoutingTable :=
  rt.modify k (RoutingEntry.modifyChecker i f)

theorem updateEntry_some {fresh : Fresh} {k : ℕ} {rt : RoutingTable} {dl : DirectLinks} {lsa : LSA}
    {size : ℕ} {nexthop : Int32} (h : getType lsa.versionTtlType = typeLsa) :
    updateEntry fresh (some k) rt dl lsa size nexthop = .ok (rt.modify k fun e =>
      storeLsa fresh dl lsa size nexthop
        (setRoute (defaultTtl - getTtl lsa.versionTtlType + 1) nexthop e)) := by
  simp [updateEntry, h]

theorem updateEntry_none {fresh : Fresh} {rt : RoutingTable} {dl : DirectLinks} {lsa : LSA}
    {size : ℕ} {nexthop : Int32} (h : getType lsa.versionTtlType = typeLsa) :
    updateEntry fresh none rt dl lsa size nexthop = rt.push (storeLsa fresh dl lsa size nexthop
      (newEntry lsa nexthop (defaultTtl - getTtl lsa.versionTtlType + 1))) := by
  simp [updateEntry, h]

theorem updateEntry_iff {fresh : Fresh} {entry : Option ℕ} {rt : RoutingTable} {dl : DirectLinks}
    {lsa : LSA} {size : ℕ} {nexthop : Int32} (h : getType lsa.versionTtlType = typeLsa) :
    (∃ rt', updateEntry fresh entry rt dl lsa size nexthop = .ok rt') ↔
      entry ≠ none ∨ rt.numEntry < maxNodes := by
  cases entry with
  | some k => simp [updateEntry_some h]
  | none =>
    rw [updateEntry_none h, RoutingTable.push]
    split_ifs with hlt
    · exact iff_of_true ⟨_, rfl⟩ (.inr hlt)
    · exact iff_of_false (by simp) fun hr => hr.elim (fun h => h rfl) hlt

theorem exists_lookupLinkEntryNodeId {dl : DirectLinks} {id : Int32}
    (h : ∃ l ∈ dl.links, l.id = id) : ∃ l, lookupLinkEntryNodeId dl id = some l := by
  rw [← Option.isSome_iff_exists, lookupLinkEntryNodeId, List.find?_isSome]
  obtain ⟨l, hl, hid⟩ := h
  exact ⟨l, hl, by simpa using hid⟩

/-! ### Changes in place -/

variable {rt : RoutingTable} {k : ℕ} {f : RoutingEntry → RoutingEntry}

@[simp] theorem getElem?_modify (j : ℕ) :
    (rt.modify k f).table[j]? = rt.table[j]?.map fun e => if k = j then f e else e :=
  List.getElem?_modify _ _ _ _

@[simp] theorem numEntry_modify : (rt.modify k f).numEntry = rt.numEntry := by
  simp [RoutingTable.numEntry, RoutingTable.modify]

theorem getElem?_push {e : RoutingEntry} {rt' : RoutingTable} (h : rt.push e = .ok rt') :
    rt'.table = rt.table ++ [e] := by
  unfold RoutingTable.push at h
  split_ifs at h
  rw [Except.ok.injEq] at h
  rw [← h]

theorem mem_modify {e : RoutingEntry} (h : e ∈ (rt.modify k f).table) :
    e ∈ rt.table ∨ ∃ e₀, rt.table[k]? = some e₀ ∧ e = f e₀ := by
  obtain ⟨j, hj⟩ := List.mem_iff_getElem?.mp h
  rw [getElem?_modify, Option.map_eq_some_iff] at hj
  obtain ⟨e₀, h0, rfl⟩ := hj
  split_ifs with hkj
  · exact Or.inr ⟨e₀, hkj ▸ h0, rfl⟩
  · exact Or.inl (List.mem_of_getElem? h0)

theorem forall_modify {P : RoutingEntry → Prop} (hP : ∀ e ∈ rt.table, P e)
    (hf : ∀ e ∈ rt.table, P e → P (f e)) : ∀ e ∈ (rt.modify k f).table, P e := by
  intro e he
  rcases mem_modify he with he | ⟨e₀, h0, rfl⟩
  · exact hP e he
  · exact hf e₀ (List.mem_of_getElem? h0) (hP e₀ (List.mem_of_getElem? h0))

theorem map_modify {β : Type} {g : RoutingEntry → β} (h : ∀ e, g (f e) = g e) :
    (rt.modify k f).table.map g = rt.table.map g := by
  refine List.ext_getElem? fun j => ?_
  rw [List.getElem?_map, List.getElem?_map, getElem?_modify, Option.map_map]
  congr 1
  funext e
  simp only [Function.comp]
  split_ifs
  · exact h e
  · rfl

theorem getRoutingEntry_eq (id : Int32) :
    getRoutingEntry rt id = (rt.table.map RoutingEntry.id).findIdx? fun i => i = id := by
  rw [List.findIdx?_map]; rfl

theorem getRoutingEntry_congr {rt' : RoutingTable}
    (h : rt'.table.map RoutingEntry.id = rt.table.map RoutingEntry.id) (id : Int32) :
    getRoutingEntry rt' id = getRoutingEntry rt id := by
  rw [getRoutingEntry_eq, getRoutingEntry_eq, h]

theorem getRoutingEntry_modify (h : ∀ e, (f e).id = e.id) (id : Int32) :
    getRoutingEntry (rt.modify k f) id = getRoutingEntry rt id :=
  getRoutingEntry_congr (map_modify h) id

theorem getRoutingEntry_eq_some {id : Int32} (h : getRoutingEntry rt id = some k) :
    ∃ e, rt.table[k]? = some e ∧ e.id = id := by
  obtain ⟨hk, hp, _⟩ := List.findIdx?_eq_some_iff_getElem.mp h
  exact ⟨rt.table[k], List.getElem?_eq_getElem hk, by simpa using hp⟩

theorem getRoutingEntry_eq_none {id : Int32} :
    getRoutingEntry rt id = none ↔ ∀ e ∈ rt.table, e.id ≠ id := by
  simp [getRoutingEntry]

theorem getRoutingEntry_isSome {id : Int32} {e : RoutingEntry} (he : e ∈ rt.table)
    (h : e.id = id) : ∃ k, getRoutingEntry rt id = some k := by
  rw [← Option.isSome_iff_exists, Option.isSome_iff_ne_none, ne_eq, getRoutingEntry_eq_none]
  exact fun hn => hn e he h

theorem getRoutingEntry_push {rt' : RoutingTable} {e : RoutingEntry} {id : Int32}
    (h : rt.push e = .ok rt') (hk : getRoutingEntry rt id = some k) :
    getRoutingEntry rt' id = some k := by
  unfold getRoutingEntry at hk ⊢
  rw [getElem?_push h, List.findIdx?_append, hk]
  rfl

theorem getRoutingEntry_push_self {rt' : RoutingTable} {e : RoutingEntry}
    (h : rt.push e = .ok rt') (hn : getRoutingEntry rt e.id = none) :
    getRoutingEntry rt' e.id = some rt.table.length := by
  unfold getRoutingEntry at hn ⊢
  rw [getElem?_push h, List.findIdx?_append, hn]
  simp

theorem getRoutingEntry_push_ne {rt' : RoutingTable} {e : RoutingEntry} {id : Int32}
    (h : rt.push e = .ok rt') (hid : id ≠ e.id) (hn : getRoutingEntry rt id = none) :
    getRoutingEntry rt' id = none := by
  rw [getRoutingEntry_eq_none] at hn ⊢
  intro e' he
  rw [getElem?_push h, List.mem_append, List.mem_singleton] at he
  rcases he with he | rfl
  · exact hn e' he
  · exact Ne.symm hid

theorem getRoutingEntry_of_nodup (hn : (rt.table.map RoutingEntry.id).Nodup) {e : RoutingEntry}
    (h : rt.table[k]? = some e) : getRoutingEntry rt e.id = some k := by
  obtain ⟨j, hj⟩ := getRoutingEntry_isSome (List.mem_of_getElem? h) rfl
  obtain ⟨e', h', hid⟩ := getRoutingEntry_eq_some hj
  have h1 : (rt.table.map RoutingEntry.id)[k]? = some e.id := by rw [List.getElem?_map, h]; rfl
  have h2 : (rt.table.map RoutingEntry.id)[j]? = some e.id := by
    rw [List.getElem?_map, h', Option.map_some, hid]
  have hlt : k < (rt.table.map RoutingEntry.id).length := by
    by_contra hk
    rw [List.getElem?_eq_none (not_lt.mp hk)] at h1
    cases h1
  rw [hj, (List.getElem?_inj hlt hn).mp (h1.trans h2.symm)]

/-- An entry without its checkers. -/
def RoutingEntry.bare (e : RoutingEntry) : RoutingEntry := { e with checkersList := none }

theorem bare_eq_iff {e e' : RoutingEntry} : e'.bare = e.bare ↔ e'.id = e.id ∧
    e'.nexthop = e.nexthop ∧ e'.cost = e.cost ∧ e'.nodeStatus = e.nodeStatus ∧ e'.lsa = e.lsa ∧
    e'.lsaSize = e.lsaSize ∧ e'.lsaIsNew = e.lsaIsNew ∧ e'.forwarderId = e.forwarderId := by
  simp [RoutingEntry.bare]

@[simp] theorem map_bare_modifyChecker (i : ℕ) (g : AckChecker → AckChecker) :
    (modifyChecker rt k i g).table.map RoutingEntry.bare = rt.table.map RoutingEntry.bare :=
  map_modify fun _ => rfl

theorem getElem?_of_bare {rt' : RoutingTable}
    (h : rt'.table.map RoutingEntry.bare = rt.table.map RoutingEntry.bare) {j : ℕ}
    {e : RoutingEntry} (he : rt.table[j]? = some e) :
    ∃ e', rt'.table[j]? = some e' ∧ e'.bare = e.bare := by
  have := congrArg (fun l => l[j]?) h
  simp only [List.getElem?_map, he, Option.map_some, Option.map_eq_some_iff] at this
  exact this

end RoutingDaemon
