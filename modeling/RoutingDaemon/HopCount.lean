import RoutingDaemon.ObjectRequests
import RoutingDaemon.TimeToLive
import Mathlib.Order.Bounds.Basic

/-!
# Costs and links

* `HopWorld`, `hopNetwork`: the runs of a network, with the number of links that every LSA has travelled.
  `hopNetwork_reachable_iff`: these are all runs.
* `CostIs`, `RoutingHops`, `ObjectHops`: the costs are the links travelled, `k` links added.
* `HopInv`, `hopInv_step`: an LSA that has travelled `h` links has a TTL of `DEFAULT_TTL - h` where it is
  stored, so the costs are the links travelled and one more.
* `cost_hop_count`: when the costs are the links travelled.
-/

namespace RoutingDaemon

/-! ### Runs with the links travelled -/

/-- A world, with the links that LSAs have travelled: those on the wire, when they arrive; those that each
daemon accepted last from each node; and all that each daemon accepted. -/
structure HopWorld (ι : Type) where
  world : World ι
  links : List ℕ
  came : ι → Int32 → ℕ
  accepted : ι → List (LSA × ℕ)

/-- The LSA that a pass accepts. -/
def taken (d : Daemon) (ev : Event) (out : List Effect) : Option LSA :=
  match ev with
  | .datagram r _ =>
    match rtRecvfrom d.dl r with
    | .ok (some (lsa, _, _)) => if .accept lsa.senderNodeId lsa.sequenceNum ∈ out then some lsa else none
    | _ => none
  | _ => none

/-- The links travelled by what a daemon stores, after a pass that reads a datagram which has travelled `h`
links. An LSA that it creates has travelled none. -/
def cameAfter (d : Daemon) (ev : Event) (out : List Effect) (h : ℕ) (came : Int32 → ℕ) : Int32 → ℕ :=
  match ev with
  | .timeout _ => if d.iterations = floodingPeriod then Function.update came d.myNodeId 0 else came
  | _ =>
    match taken d ev out with
    | some lsa => Function.update came lsa.senderNodeId h
    | none => came

variable {ι : Type}

/-- The links that an LSA has travelled when it arrives, from a node that stores it. -/
def linksTo (came : Int32 → ℕ) (g : Datagram ι) : ℕ :=
  match bytesToPacket (g.bytes.take maxLsaLen) with
  | .ok p => if getType p.versionTtlType = typeLsa then came p.senderNodeId + 1 else 0
  | .error _ => 0

section Hops

variable [DecidableEq ι]

/-- The links travelled, after a pass of node `x`. -/
def HopWorld.after (s : HopWorld ι) (x : ι) (ev : Event) (out : List Effect) (h : ℕ) (w : World ι) :
    HopWorld ι :=
  let came := cameAfter (s.world.daemon x) ev out h (s.came x)
  ⟨w, s.links ++ (sends x out).map (linksTo came), Function.update s.came x came,
    Function.update s.accepted x
      (s.accepted x ++ (taken (s.world.daemon x) ev out).toList.map fun lsa => (lsa, h))⟩

/-- A pass that reads a datagram reads one that has travelled `h` links. -/
def Delivers (N : Net ι) (ok : List UInt8 → Prop) (s : HopWorld ι) (x : ι) (h : ℕ) : Event → Prop
  | .datagram r _ => ∃ (i : ℕ) (g : Datagram ι), s.world.wire[i]? = some g ∧ s.links[i]? = some h ∧
      g.To N x ∧ ok g.bytes ∧ r = g.received N
  | _ => h = 0

/-- The runs of a network, with the links that LSAs have travelled. -/
def hopNetwork (N : Net ι) (ok : List UInt8 → Prop) :
    System (HopWorld ι) ((ι × Event × List Effect) × ℕ) where
  init s := (network N ok).init s.world ∧ s.links = [] ∧ (s.came = fun _ _ => 0) ∧ s.accepted = fun _ => []
  step s l s' := (network N ok).step s.world l.1 s'.world ∧ Delivers N ok s l.1.1 l.2 l.1.2.1 ∧
    s' = s.after l.1.1 l.1.2.1 l.1.2.2 l.2 s'.world

/-- What is delivered has travelled fewer than `DEFAULT_TTL` links. -/
def Few (_ : HopWorld ι) (l : (ι × Event × List Effect) × ℕ) : Prop := (l.2 : ℤ) < defaultTtl

variable {N : Net ι} {ok : List UInt8 → Prop}

/-- **Forgetting the links gives a run of the network.** -/
theorem network_of_hop {s : HopWorld ι} (r : (hopNetwork N ok).Reachable s) :
    (network N ok).Reachable s.world :=
  r.map (f := HopWorld.world) (fun _ (h : (hopNetwork N ok).init _) => h.1)
    fun _ l _ (h : (hopNetwork N ok).step _ l _) => .inr ⟨l.1, h.1⟩

theorem hop_length {s : HopWorld ι} (r : (hopNetwork N ok).Reachable s) :
    s.links.length = s.world.wire.length := by
  refine r.invariant (I := fun s => s.links.length = s.world.wire.length) (fun s h => ?_) ?_
  · rw [h.1.1, h.2.1]
    rfl
  · rintro s ⟨⟨x, ev, out⟩, h⟩ s' hl ⟨⟨-, d, -, hw⟩, -, hs⟩
    rw [hs]
    simp [HopWorld.after, hw, World.after, hl]

/-- **Every run of the network is the world of one.** -/
theorem exists_hop {w : World ι} (r : (network N ok).Reachable w) :
    ∃ s, (hopNetwork N ok).Reachable s ∧ s.world = w := by
  refine r.invariant (I := fun w => ∃ s, (hopNetwork N ok).Reachable s ∧ s.world = w) (fun w h => ?_) ?_
  · exact ⟨⟨w, [], fun _ _ => 0, fun _ => []⟩, .init ⟨h, rfl, rfl, rfl⟩, rfl⟩
  · rintro w ⟨x, ev, out⟩ w' ⟨s, rs, rfl⟩ h
    obtain ⟨n, hn⟩ : ∃ n, Delivers N ok s x n ev := by
      obtain ⟨hposs, -⟩ := h
      cases ev with
      | timeout fresh => exact ⟨0, rfl⟩
      | request c uri opened => exact ⟨0, rfl⟩
      | datagram r fresh =>
        obtain ⟨g, hg, hto, hok, hr⟩ := hposs
        obtain ⟨i, hi⟩ := List.mem_iff_getElem?.mp hg
        have hlt : i < s.links.length := by
          rw [hop_length rs]
          exact (List.getElem?_eq_some_iff.mp hi).1
        exact ⟨s.links[i], i, g, hi, List.getElem?_eq_getElem hlt, hto, hok, hr⟩
    exact ⟨s.after x ev out n w', rs.step (l := ((x, ev, out), n)) ⟨h, hn, rfl⟩, rfl⟩

theorem hopNetwork_reachable_iff {w : World ι} :
    (network N ok).Reachable w ↔ ∃ s, (hopNetwork N ok).Reachable s ∧ s.world = w :=
  ⟨exists_hop, fun ⟨_, r, hs⟩ => hs ▸ network_of_hop r⟩

end Hops

/-! ### What costs are to be -/

/-- The links travelled by the LSAs of node `n` among those accepted, with `k` added. -/
def linksOf (accepted : List (LSA × ℕ)) (n : Int32) (k : ℤ) : Set ℤ :=
  {c | ∃ p ∈ accepted, p.1.senderNodeId = n ∧ c = p.2 + k}

/-- The cost of node `n` at node `x`: 0 for `x` itself, 1 for its configured neighbours, for others the least
number of links travelled by an LSA of `n` that it accepted, with `k` added. -/
structure CostIs (N : Net ι) (k : ℤ) (x : ι) (accepted : List (LSA × ℕ)) (n : Int32) (c : ℤ) : Prop where
  own : n = (N.self x).id → c = 0
  neighbour : (∃ y ∈ N.nbrs x, n = (N.self y).id) → c = 1
  other : n ≠ (N.self x).id → (¬ ∃ y ∈ N.nbrs x, n = (N.self y).id) → IsLeast (linksOf accepted n k) c

/-- The costs in the routing tables. -/
def RoutingHops (N : Net ι) (k : ℤ) (s : HopWorld ι) : Prop :=
  ∀ x n e, entryOf (s.world.daemon x).rt n = some e → CostIs N k x (s.accepted x) n e.cost

/-- The calls of `hash_add` for an LSA: name, node and cost. -/
def hashAddCalls (lsa : LSA) : Except Fault (List (CString × Int32 × ℤ)) :=
  storeNodeObjects (fun calls name node cost => .ok (calls ++ [(name, node, cost)])) [] lsa

/-- The costs that `hash_add` got for the objects of all accepted LSAs. -/
def ObjectHops (k : ℤ) (s : HopWorld ι) : Prop :=
  ∀ x, ∀ p ∈ s.accepted x, ∃ calls, hashAddCalls (acceptedLsa p.1) = .ok calls ∧
    ∀ c ∈ calls, c.2.2 = p.2 + k

/-! ### One pass -/

/-- What a pass does that accepts the LSA. -/
inductive Takes (d d' : Daemon) (lsa : LSA) : Event → List Effect → Prop
  | mk {r : Received} {fresh : Fresh} {f : Int32} {size : ℕ} {src : LinkEntry} {rt : RoutingTable}
      {gol : LisoHash} (recv : rtRecvfrom d.dl r = .ok (some (lsa, f, size)))
      (type : getType lsa.versionTtlType = typeLsa)
      (newer : filtered d.rt (getRoutingEntry d.rt lsa.senderNodeId) typeLsa lsa.sequenceNum = false)
      (link : lookupLinkEntryNodeId d.dl f = some src)
      (update : updateEntry fresh (getRoutingEntry d.rt lsa.senderNodeId) d.rt d.dl (acceptedLsa lsa)
        size f = .ok rt)
      (objects : storeNodeObjects (hashAdd superFastHash) d.gol (acceptedLsa lsa) = .ok gol)
      (after : d' = { d with rt := rt, gol := gol }) : Takes d d' lsa (.datagram r fresh)
        [rtSendto { lsa with versionTtlType := setType lsa.versionTtlType typeAck } src size,
          .accept lsa.senderNodeId lsa.sequenceNum]

section Pass

variable {d d' : Daemon} {ev : Event} {out : List Effect} {lsa : LSA} {came : Int32 → ℕ} {h : ℕ}

/-- **A pass accepts an LSA, or changes what is stored only by an own one.** -/
theorem taken_cases (ha : act ev d = .ok (d', out)) :
    (taken d ev out = none ∧ ∀ r fresh lsa f size, ev = .datagram r fresh →
      rtRecvfrom d.dl r = .ok (some (lsa, f, size)) → getType lsa.versionTtlType = typeLsa →
        filtered d.rt (getRoutingEntry d.rt lsa.senderNodeId) typeLsa lsa.sequenceNum ≠ false) ∨
    ∃ lsa, taken d ev out = some lsa ∧ Takes d d' lsa ev out := by
  cases ev with
  | timeout fresh => exact .inl ⟨rfl, nofun⟩
  | request c uri opened => exact .inl ⟨rfl, nofun⟩
  | datagram r fresh =>
    obtain ⟨lsa, f, size, recv, hh⟩ := receive_handled ha
    cases hh with
    | ignored why =>
      refine .inl ⟨by simp [taken, recv], ?_⟩
      rintro r' fresh' lsa' f' size' he recv' type newer
      cases he
      rw [recv] at recv'
      cases recv'
      rw [type, newer] at why
      rcases why with h1 | h1
      · cases h1
      · exact absurd rfl h1.1
    | credited type =>
      refine .inl ⟨by simp [taken, recv], ?_⟩
      rintro r' fresh' lsa' f' size' he recv' type' -
      cases he
      rw [recv] at recv'
      cases recv'
      rw [type] at type'
      exact absurd type' (by decide)
    | accepted type newer link update objects =>
      exact .inr ⟨lsa, by simp [taken, recv], .mk recv type newer link update objects rfl⟩

theorem cameAfter_none (hn : taken d ev out = none) (h0 : came d.myNodeId = 0) :
    cameAfter d ev out h came = came := by
  cases ev with
  | timeout fresh =>
    rw [cameAfter]
    split_ifs
    · rw [← h0, Function.update_eq_self]
    · rfl
  | request c uri opened => rfl
  | datagram r fresh =>
    simp only [cameAfter]
    rw [hn]

theorem cameAfter_some (hn : taken d ev out = some lsa) :
    cameAfter d ev out h came = Function.update came lsa.senderNodeId h := by
  cases ev with
  | timeout fresh => cases hn
  | request c uri opened => cases hn
  | datagram r fresh =>
    simp only [cameAfter]
    rw [hn]

/-- The LSA and the links that it has travelled make up `DEFAULT_TTL`. -/
def Travelled (came : Int32 → ℕ) (a : LSA) : Prop :=
  getTtl a.versionTtlType + came a.senderNodeId = defaultTtl

/-- **What is stored and sent, after a pass that accepts nothing.** -/
theorem travelled_none (h0 : came d.myNodeId = 0) (hd : Holds (Travelled came) d.rt)
    (hn : ∀ r fresh lsa f size, ev = .datagram r fresh → rtRecvfrom d.dl r = .ok (some (lsa, f, size)) →
      getType lsa.versionTtlType = typeLsa →
        filtered d.rt (getRoutingEntry d.rt lsa.senderNodeId) typeLsa lsa.sequenceNum ≠ false)
    (ha : act ev d = .ok (d', out)) : Holds (Travelled came) d'.rt ∧ SendsOnly (Travelled came) out := by
  refine holds_act (fun _ _ _ _ _ _ hc => ?_) (fun r fresh lsa f size he recv type newer =>
    absurd newer (hn r fresh lsa f size he recv type)) hd ha
  obtain ⟨hid, ht⟩ := createPacket_ttl hc
  rw [Travelled, hid, h0, ht]
  rfl

/-- **What is stored and sent, after a pass that accepts an LSA**, which travelled `h` links. -/
theorem travelled_takes (hs' : Sound d') (hd : Holds (Travelled came) d.rt) (ht : Takes d d' lsa ev out)
    (hpos : 1 ≤ getTtl lsa.versionTtlType) (hh : getTtl lsa.versionTtlType + h = defaultTtl + 1) :
    Holds (Travelled (Function.update came lsa.senderNodeId h)) d'.rt ∧
      SendsOnly (Travelled (Function.update came lsa.senderNodeId h)) out := by
  obtain ⟨recv, type, newer, link, update, objects, rfl⟩ := ht
  refine ⟨fun j e he a hea => ?_,
    sendsOnly_handled (rtRecvfrom_size recv) (.accepted type newer link update objects)⟩
  obtain ⟨hid, -, hsize⟩ := (hs'.entry j e he).sender a hea
  refine ⟨?_, by rw [hsize, length_bytes]; exact Nat.le_add_right _ _⟩
  have hstored := storedFor_updateEntry (s := e.id) ((acceptedLsa_type _).trans type) update
  have hsame : (acceptedLsa lsa).senderNodeId = lsa.senderNodeId := rfl
  rw [storedFor_of_entry (getRoutingEntry_of_nodup hs'.nodup he) he, hea, hsame] at hstored
  rw [Travelled, hid]
  by_cases hsend : e.id = lsa.senderNodeId
  · rw [if_pos hsend, Option.some.injEq] at hstored
    rw [hstored, (lowered_acceptedLsa hpos).ttl, hsend, Function.update_self]
    omega
  · rw [if_neg hsend] at hstored
    rw [Function.update_of_ne hsend]
    -- the LSA of another node was stored before
    obtain ⟨k, -, hk⟩ := Option.bind_eq_some_iff.mp hstored.symm
    obtain ⟨e', he', ha'⟩ := Option.bind_eq_some_iff.mp hk
    have hold := (hd k e' he' a ha').1
    rwa [Travelled, hid] at hold

end Pass

/-! ### The costs after one pass -/

section Costs

variable {N : Net ι} {x : ι} {k : ℤ} {acc : List (LSA × ℕ)} {n : Int32} {c : ℤ} {lsa : LSA} {h : ℕ}
  {d d' : Daemon} {ev : Event} {out : List Effect}

theorem linksOf_append_self :
    linksOf (acc ++ [(lsa, h)]) lsa.senderNodeId k = insert (h + k) (linksOf acc lsa.senderNodeId k) := by
  ext c
  simp only [linksOf, List.mem_append, List.mem_singleton, Set.mem_ofPred_eq, Set.mem_insert_iff]
  constructor
  · rintro ⟨p, hp | rfl, hid, hc⟩
    · exact .inr ⟨p, hp, hid, hc⟩
    · exact .inl hc
  · rintro (hc | ⟨p, hp, hid, hc⟩)
    · exact ⟨_, .inr rfl, rfl, hc⟩
    · exact ⟨p, .inl hp, hid, hc⟩

theorem linksOf_append_of_ne (hn : n ≠ lsa.senderNodeId) :
    linksOf (acc ++ [(lsa, h)]) n k = linksOf acc n k := by
  ext c
  simp only [linksOf, List.mem_append, List.mem_singleton, Set.mem_ofPred_eq]
  constructor
  · rintro ⟨p, hp | rfl, hid, hc⟩
    · exact ⟨p, hp, hid, hc⟩
    · exact absurd hid.symm hn
  · rintro ⟨p, hp, hid, hc⟩
    exact ⟨p, .inl hp, hid, hc⟩

theorem CostIs.of_ne (hc : CostIs N k x acc n c) (hn : n ≠ lsa.senderNodeId) :
    CostIs N k x (acc ++ [(lsa, h)]) n c where
  own := hc.own
  neighbour := hc.neighbour
  other := by
    rw [linksOf_append_of_ne hn]
    exact hc.other

theorem CostIs.min (hc : CostIs N k x acc lsa.senderNodeId c) (hne : lsa.senderNodeId ≠ (N.self x).id)
    (h1 : 1 ≤ h + k) : CostIs N k x (acc ++ [(lsa, h)]) lsa.senderNodeId (min (h + k) c) where
  own he := absurd he hne
  neighbour hn := by
    rw [hc.neighbour hn]
    exact min_eq_right h1
  other h0 hn := by
    rw [linksOf_append_self]
    exact (hc.other h0 hn).insert _

theorem costIs_first (hne : lsa.senderNodeId ≠ (N.self x).id)
    (hn : ¬ ∃ y ∈ N.nbrs x, lsa.senderNodeId = (N.self y).id)
    (hnone : ∀ p ∈ acc, p.1.senderNodeId ≠ lsa.senderNodeId) :
    CostIs N k x (acc ++ [(lsa, h)]) lsa.senderNodeId (h + k) where
  own he := absurd he hne
  neighbour hy := absurd hy hn
  other _ _ := by
    have hempty : linksOf acc lsa.senderNodeId k = ∅ :=
      Set.eq_empty_of_forall_notMem fun c ⟨p, hp, hid, _⟩ => hnone p hp hid
    rw [linksOf_append_self, hempty, insert_empty_eq]
    exact isLeast_singleton

/-- Every entry costs what it is to. -/
def CostsAre (N : Net ι) (k : ℤ) (x : ι) (acc : List (LSA × ℕ)) (rt : RoutingTable) : Prop :=
  ∀ (j : ℕ) (e : RoutingEntry), rt.table[j]? = some e → CostIs N k x acc e.id e.cost

theorem costsAre_evolves {T : LSA → ℕ → Int32 → Prop} {rt : RoutingTable}
    (hT : ∀ a m g, T a m g → a.senderNodeId = (N.self x).id ∧ lsaCost a = 1)
    (hd : CostsAre N k x acc d.rt) (he : Evolves T d rt) : CostsAre N k x acc rt := by
  refine he.forall_entry (P := fun _ e => CostIs N k x acc e.id e.cost) ?_ hd
  intro j e e' hc ch
  cases ch with
  | store stores id =>
    obtain ⟨hown, hcost⟩ := hT _ _ _ stores
    have h0 := hc.own (id.trans hown)
    simp only [storeLsa, setRoute]
    rwa [hcost, h0, if_neg (by decide), ← h0]
  | _ => exact hc

/-- **The costs stay in a pass that accepts nothing.** -/
theorem costsAre_none (hid : d.myNodeId = (N.self x).id) (hd : CostsAre N k x acc d.rt)
    (hn : taken d ev out = none) (ha : act ev d = .ok (d', out)) : CostsAre N k x acc d'.rt := by
  cases ev with
  | timeout fresh =>
    refine ((timeout_trail ha).preserves (I := fun y => y.myNodeId = (N.self x).id ∧
      CostsAre N k x acc y.rt) ?_ ⟨hid, hd⟩).2
    rintro y _ z ⟨hy, hc⟩ ht
    refine ⟨(micro_static (.tick ht)).2.trans hy, costsAre_evolves (T := fun a _ _ =>
      a.senderNodeId = (N.self x).id ∧ lsaCost a = 1) (fun _ _ _ h => h) hc
        (evolves_tick (fun fresh a m packet => ?_) ht)⟩
    exact ⟨(createPacket_lsa packet).2.1.trans hy, lsaCost_own packet⟩
  | request c uri opened =>
    obtain ⟨-, rfl | ⟨_, _, _, _, -, rfl⟩⟩ := request_cases ha <;> exact hd
  | datagram r fresh =>
    obtain ⟨lsa, f, size, recv, hh⟩ := receive_handled ha
    cases hh with
    | ignored => exact hd
    | credited type current update =>
      exact costsAre_evolves (T := fun _ _ _ => False) (fun _ _ _ => False.elim) hd
        (evolves_creditAck update)
    | accepted => simp [taken, recv] at hn

/-- **The costs after a pass that accepts an LSA** whose cost is the links travelled and `k`. -/
theorem costsAre_takes (hs' : Sound d') (hd : CostsAre N k x acc d.rt)
    (hknown : ∀ p ∈ acc, p.1.senderNodeId ∈ d.rt.table.map RoutingEntry.id)
    (hnbrs : ∀ y ∈ N.nbrs x, (N.self y).id ∈ d.rt.table.map RoutingEntry.id)
    (ht : Takes d d' lsa ev out) (hne : lsa.senderNodeId ≠ (N.self x).id)
    (hcost : lsaCost (acceptedLsa lsa) = h + k) (h1 : 1 ≤ h + k) :
    CostsAre N k x (acc ++ [(lsa, h)]) d'.rt := by
  obtain ⟨recv, type, newer, link, update, objects, rfl⟩ := ht
  intro j e he
  have hentry : entryOf _ e.id = _ := entryOf_updateEntry ((acceptedLsa_type _).trans type) update
  have hsame : (acceptedLsa lsa).senderNodeId = lsa.senderNodeId := rfl
  rw [entryOf_eq_some.mpr ⟨j, getRoutingEntry_of_nodup hs'.nodup he, he⟩, hsame] at hentry
  by_cases hid : e.id = lsa.senderNodeId
  · rw [if_pos hid, Option.some.injEq] at hentry
    have hc := congrArg RoutingEntry.cost hentry
    rw [updatedEntry_cost, hcost, hid] at hc
    rw [hid, hc]
    cases hold : entryOf d.rt lsa.senderNodeId with
    | some e₀ =>
      obtain ⟨j₀, hj₀, he₀⟩ := entryOf_eq_some.mp hold
      have h0 := hd j₀ e₀ he₀
      rw [entryOf_id hold] at h0
      exact h0.min hne h1
    | none =>
      -- it was not in the table, so it is no neighbour, and no LSA of it was accepted
      have hnot : lsa.senderNodeId ∉ d.rt.table.map RoutingEntry.id := fun hm => by
        obtain ⟨e₀, he₀, hid₀⟩ := List.mem_map.mp hm
        exact getRoutingEntry_eq_none.mp (entryOf_eq_none.mp hold) e₀ he₀ hid₀
      exact costIs_first hne (fun ⟨y, hy, heq⟩ => hnot (heq ▸ hnbrs y hy))
        fun p hp heq => hnot (heq ▸ hknown p hp)
  · rw [if_neg hid] at hentry
    obtain ⟨j₀, -, he₀⟩ := entryOf_eq_some.mp hentry.symm
    exact (hd j₀ e he₀).of_ne hid

/-- What holds of an LSA that node `x` accepted, with the links that it had travelled. -/
structure AcceptedHops (N : Net ι) (x : ι) (rt : RoutingTable) (p : LSA × ℕ) : Prop where
  other : p.1.senderNodeId ≠ (N.self x).id
  known : p.1.senderNodeId ∈ rt.table.map RoutingEntry.id
  cost : lsaCost (acceptedLsa p.1) = p.2 + 1
  names : ∃ names, objectNames (acceptedLsa p.1) = .ok names

/-- What holds at node `x`, with the links travelled by what it stores and accepted. -/
structure NodeHops (N : Net ι) (x : ι) (came : Int32 → ℕ) (acc : List (LSA × ℕ)) (rt : RoutingTable) :
    Prop where
  own : came (N.self x).id = 0
  stored : Holds (Travelled came) rt
  costs : CostsAre N 1 x acc rt
  accepted : ∀ p ∈ acc, AcceptedHops N x rt p

theorem ids_act (ha : act ev d = .ok (d', out)) (hn : n ∈ d.rt.table.map RoutingEntry.id) :
    n ∈ d'.rt.table.map RoutingEntry.id := by
  refine (act_trail ha).preserves (I := fun y => n ∈ y.rt.table.map RoutingEntry.id) ?_ hn
  intro y _ z hy hm
  rcases (reshapes_micro hm).ids with h1 | ⟨id, -, h1⟩
  · rwa [h1]
  · rw [h1]
    exact List.mem_append_left _ hy

theorem AcceptedHops.act {p : LSA × ℕ} (hp : AcceptedHops N x d.rt p)
    (ha : RoutingDaemon.act ev d = .ok (d', out)) : AcceptedHops N x d'.rt p :=
  ⟨hp.other, ids_act ha hp.known, hp.cost, hp.names⟩

/-- **One pass of node `x`.** An LSA that it accepts has travelled `h` links. -/
theorem nodeHops_act {came : Int32 → ℕ} (hs' : Sound d') (hid : d.myNodeId = (N.self x).id)
    (hnbrs : ∀ y ∈ N.nbrs x, (N.self y).id ∈ d.rt.table.map RoutingEntry.id)
    (hi : NodeHops N x came acc d.rt) (ha : act ev d = .ok (d', out))
    (hh : ∀ lsa, taken d ev out = some lsa → lsa.senderNodeId ≠ (N.self x).id ∧ 1 ≤ h ∧
      (h : ℤ) < defaultTtl ∧ getTtl lsa.versionTtlType + h = defaultTtl + 1) :
    NodeHops N x (cameAfter d ev out h came)
        (acc ++ (taken d ev out).toList.map fun lsa => (lsa, h)) d'.rt ∧
      SendsOnly (Travelled (cameAfter d ev out h came)) out := by
  have h0 : came d.myNodeId = 0 := by rw [hid]; exact hi.own
  rcases taken_cases ha with ⟨hn, hno⟩ | ⟨lsa, hn, ht⟩
  · obtain ⟨hstored, hsends⟩ := travelled_none h0 hi.stored hno ha
    rw [cameAfter_none hn h0, hn, Option.toList_none, List.map_nil, List.append_nil]
    exact ⟨⟨hi.own, hstored, costsAre_none hid hi.costs hn ha, fun p hp => (hi.accepted p hp).act ha⟩,
      hsends⟩
  · obtain ⟨hne, hpos, hlt, hsum⟩ := hh lsa hn
    have hone : 1 ≤ getTtl lsa.versionTtlType := by omega
    obtain ⟨hstored, hsends⟩ := travelled_takes hs' hi.stored ht hone hsum
    have hcost : lsaCost (acceptedLsa lsa) = h + 1 := by
      rw [lsaCost, (lowered_acceptedLsa hone).ttl]
      omega
    have hcosts : CostsAre N 1 x (acc ++ [(lsa, h)]) d'.rt :=
      costsAre_takes hs' hi.costs (fun p hp => (hi.accepted p hp).known) hnbrs ht hne hcost (by omega)
    rw [cameAfter_some hn, hn, Option.toList_some, List.map_singleton]
    refine ⟨⟨?_, hstored, hcosts, fun p hp => ?_⟩, hsends⟩
    · rw [Function.update_of_ne hne.symm]
      exact hi.own
    · rcases List.mem_append.mp hp with hp | hp
      · exact (hi.accepted p hp).act ha
      · rw [List.mem_singleton] at hp
        subst hp
        obtain ⟨recv, type, newer, link, update, objects, rfl⟩ := ht
        obtain ⟨names, hnames, -⟩ := storeNodeObjects_iff.mp objects
        obtain ⟨k, e, -, hk, he, -⟩ := hasSeen_updateEntry ((acceptedLsa_type _).trans type) update
        obtain ⟨e', he', hid'⟩ := getRoutingEntry_eq_some hk
        exact ⟨hne, List.mem_map.mpr ⟨e', List.mem_of_getElem? he', hid'⟩, hcost, names, hnames⟩

end Costs

/-! ### Runs -/

section Runs

variable [DecidableEq ι] {N : Net ι} {ok : List UInt8 → Prop} {s s' : HopWorld ι}

/-- The links travelled agree with the TTLs, on the wire and at every node. -/
structure HopInv (N : Net ι) (s : HopWorld ι) : Prop where
  length : s.links.length = s.world.wire.length
  wire : ∀ (i : ℕ) g h p, s.world.wire[i]? = some g → s.links[i]? = some h → g.Carries p →
    getType p.versionTtlType = typeLsa → 1 ≤ h ∧ getTtl p.versionTtlType + h = defaultTtl + 1
  node : ∀ x, NodeHops N x (s.came x) (s.accepted x) (s.world.daemon x).rt

omit [DecidableEq ι] in
theorem linksTo_sent {came : Int32 → ℕ} {x : ι} {out : List Effect} (hs : SendsOnly (Travelled came) out)
    {g : Datagram ι} (hg : g ∈ sends x out) {p : LSA} (hp : g.Carries p)
    (type : getType p.versionTtlType = typeLsa) :
    1 ≤ linksTo came g ∧ getTtl p.versionTtlType + linksTo came g = defaultTtl + 1 := by
  obtain ⟨host, port, bytes, hm, rfl⟩ := mem_sends.mp hg
  obtain ⟨a, n, ht, rfl⟩ := hs host port bytes hm p ⟨hp, type⟩
  have hl : linksTo came (⟨x, host, port, bytes⟩ : Datagram ι) = came a.senderNodeId + 1 := by
    rw [linksTo, hp]
    exact if_pos type
  rw [hl]
  rw [Travelled] at ht
  dsimp only
  omega

theorem hopInv_init (hv : N.Distinct) (h : (hopNetwork N ok).init s) : HopInv N s := by
  obtain ⟨hw, hl, hc, ha⟩ := h
  refine ⟨by rw [hl, hw.1]; rfl, fun i g n p hg => ?_, fun x => ⟨by rw [hc], holds_boot (hw.2 x), ?_, ?_⟩⟩
  · rw [hw.1] at hg
    cases hg
  · intro j e he
    rw [ha]
    rw [(boot_eq_ok (hw.2 x)).2.1, List.getElem?_mapIdx, Option.map_eq_some_iff] at he
    obtain ⟨l, hl, rfl⟩ := he
    rw [Net.files] at hl
    cases j with
    | zero =>
      obtain rfl : N.self x = l := Option.some.inj hl
      refine ⟨fun _ => rfl, ?_, fun hne => absurd rfl hne⟩
      rintro ⟨y, hy, heq⟩
      exact absurd (hv.ids heq ▸ hy) (List.nodup_cons.mp (hv.simple x)).1
    | succ j =>
      rw [List.getElem?_cons_succ] at hl
      obtain ⟨y, hy, rfl⟩ := List.mem_map.mp (List.mem_of_getElem? hl)
      refine ⟨fun heq => ?_, fun _ => rfl, fun _ hn => absurd ⟨y, hy, rfl⟩ hn⟩
      have hyx : y = x := hv.ids heq
      exact absurd (hyx ▸ hy) (List.nodup_cons.mp (hv.simple x)).1
  · intro p hp
    rw [ha] at hp
    cases hp

theorem taken_ne_own (hv : N.Distinct) {w w' : World ι} (r : (network N ok).Reachable w) {x : ι} {ev : Event}
    {out : List Effect} (h : (network N ok).step w (x, ev, out) w') {lsa : LSA}
    (ht : taken (w.daemon x) ev out = some lsa) : lsa.senderNodeId ≠ (N.self x).id := by
  obtain ⟨ls, r⟩ := r
  intro heq
  refine accept_ne_own_run hv (r.step h) x lsa.sequenceNum ?_
  rw [trace_append_singleton, if_pos rfl, ← heq]
  refine List.mem_append_right _ ?_
  unfold taken at ht
  split at ht
  · split at ht
    · split_ifs at ht with hm
      cases ht
      exact hm
    · cases ht
  · cases ht

omit [DecidableEq ι] in
theorem Lawful.neighbour_mem {w : World ι} (hl : Lawful N w) {x y : ι} (hy : y ∈ N.nbrs x) :
    (N.self y).id ∈ (w.daemon x).rt.table.map RoutingEntry.id := by
  have hm : N.self y ∈ (w.daemon x).dl.links := by
    rw [hl.links x]
    exact List.mem_cons_of_mem _ (List.mem_map_of_mem hy)
  obtain ⟨i, hi⟩ := List.mem_iff_getElem?.mp hm
  obtain ⟨e, he, hid⟩ := getRoutingEntry_eq_some ((hl.sound x).getRoutingEntry_link hi)
  exact List.mem_map.mpr ⟨e, List.mem_of_getElem? he, hid⟩

omit [DecidableEq ι] in
theorem HopInv.taken {x : ι} {ev : Event} {out : List Effect} {h : ℕ} {d' : Daemon} (hi : HopInv N s)
    (hdel : Delivers N ok s x h ev) (ha : act ev (s.world.daemon x) = .ok (d', out)) {lsa : LSA}
    (hn : taken (s.world.daemon x) ev out = some lsa) :
    1 ≤ h ∧ getTtl lsa.versionTtlType + h = defaultTtl + 1 := by
  rcases taken_cases ha with ⟨hno, -⟩ | ⟨lsa', hn', ht⟩
  · rw [hno] at hn
    cases hn
  · rw [hn, Option.some.injEq] at hn'
    subst hn'
    obtain ⟨recv, type, -⟩ := ht
    obtain ⟨i, g, hg, hlinks, -, -, rfl⟩ := hdel
    exact hi.wire i g h lsa hg hlinks (received_carries recv) type

/-- **Every step of a network keeps the links travelled.** -/
theorem hopInv_step (hv : N.Distinct) (r : (network N ok).Reachable s.world) (hi : HopInv N s)
    {l : (ι × Event × List Effect) × ℕ} (hf : Few s l) (hstep : (hopNetwork N ok).step s l s') :
    HopInv N s' := by
  obtain ⟨⟨x, ev, out⟩, h⟩ := l
  obtain ⟨hnet, hdel, hs'⟩ := hstep
  obtain ⟨hposs, d', ha, hw⟩ := id hnet
  have hl := (network_invariant (I := fun _ => True) hv (fun _ _ => trivial)
    (fun _ _ _ _ _ _ _ => trivial) r).1
  obtain ⟨hnode, hsends⟩ := nodeHops_act (h := h) (sound_act (hl.sound x) ha) (hl.myNodeId x)
    (fun y => hl.neighbour_mem) (hi.node x) ha fun lsa hn => by
      obtain ⟨h1, h2⟩ := hi.taken hdel ha hn
      exact ⟨taken_ne_own hv r hnet hn, h1, hf, h2⟩
  rw [hs', hw]
  simp only [HopWorld.after]
  refine ⟨by simp [World.after, hi.length], fun i g n p hg hn hp type => ?_, fun y => ?_⟩
  · simp only [World.after] at hg hn
    rcases lt_or_ge i s.world.wire.length with hlt | hge
    · rw [List.getElem?_append_left hlt] at hg
      rw [List.getElem?_append_left (hi.length ▸ hlt)] at hn
      exact hi.wire i g n p hg hn hp type
    · rw [List.getElem?_append_right hge] at hg
      rw [List.getElem?_append_right (hi.length ▸ hge), hi.length, List.getElem?_map, hg, Option.map_some,
        Option.some.injEq] at hn
      subst hn
      exact linksTo_sent hsends (List.mem_of_getElem? hg) hp type
  · dsimp only
    by_cases hy : y = x
    · subst hy
      rw [Function.update_self, Function.update_self, after_daemon_self]
      exact hnode
    · rw [Function.update_of_ne hy, Function.update_of_ne hy, after_daemon_of_ne hy]
      exact hi.node y

theorem hopInv_reachable (hv : N.Distinct) (r : ((hopNetwork N ok).restrict Few).Reachable s) :
    HopInv N s := by
  refine (r.invariant (I := fun s => (network N ok).Reachable s.world ∧ HopInv N s) (fun s h => ?_) ?_).2
  · exact ⟨.init h.1, hopInv_init hv h⟩
  · rintro s l s' ⟨rw, hi⟩ ⟨hf, hstep⟩
    exact ⟨rw.step hstep.1, hopInv_step hv rw hi hf hstep⟩

/-! ### When the costs are the links travelled -/

omit [DecidableEq ι] in
/-- **The costs in the routing tables are the links travelled and one more**, for nodes that are not
configured. -/
theorem HopInv.routingHops (hi : HopInv N s) : RoutingHops N 1 s := by
  intro x n e he
  obtain ⟨j, -, hj⟩ := entryOf_eq_some.mp he
  rw [← entryOf_id he]
  exact (hi.node x).costs j e hj

omit [DecidableEq ι] in
theorem HopInv.routingHops_iff (hi : HopInv N s) : RoutingHops N 0 s ↔
    ∀ x, ∀ p ∈ s.accepted x, ∃ y ∈ N.nbrs x, p.1.senderNodeId = (N.self y).id := by
  constructor
  · intro hr x p hp
    by_contra hn
    have ho := (hi.node x).accepted p hp
    obtain ⟨e, he⟩ : ∃ e, entryOf (s.world.daemon x).rt p.1.senderNodeId = some e := by
      obtain ⟨e, he, hid⟩ := List.mem_map.mp ho.known
      rw [← Option.isSome_iff_exists, Option.isSome_iff_ne_none, ne_eq, entryOf_eq_none,
        getRoutingEntry_eq_none]
      exact fun hno => hno e he hid
    -- the cost would be the least number of links, and greater than some number of links
    obtain ⟨⟨q, hq, hid, hc⟩, -⟩ := (hi.routingHops x _ e he).other ho.other hn
    have hle := ((hr x _ e he).other ho.other hn).2 ⟨q, hq, hid, (add_zero _).symm⟩
    omega
  · intro hall x n e he
    have hc := hi.routingHops x n e he
    refine ⟨hc.own, hc.neighbour, fun hne hn => ?_⟩
    obtain ⟨⟨p, hp, rfl, -⟩, -⟩ := hc.other hne hn
    exact absurd (hall x p hp) hn

theorem hashAddCalls_eq {a : LSA} {names : List CString} (h : objectNames a = .ok names) :
    hashAddCalls a = .ok (names.map fun name => (name, a.senderNodeId, lsaCost a)) := by
  refine storeNodeObjects_iff.mpr ⟨names, h, ?_⟩
  exact foldlM_collect (fun name => (name, a.senderNodeId, lsaCost a)) names []

omit [DecidableEq ι] in
/-- **`hash_add` gets the links travelled and one more.** -/
theorem HopInv.objectHops (hi : HopInv N s) : ObjectHops 1 s := by
  intro x p hp
  have ho := (hi.node x).accepted p hp
  obtain ⟨names, hnames⟩ := ho.names
  refine ⟨_, hashAddCalls_eq hnames, fun c hc => ?_⟩
  obtain ⟨name, -, rfl⟩ := List.mem_map.mp hc
  exact ho.cost

omit [DecidableEq ι] in
theorem HopInv.objectHops_iff (hi : HopInv N s) : ObjectHops 0 s ↔
    ∀ x, ∀ p ∈ s.accepted x, p.1.numObjects.toInt ≤ 0 := by
  have hcalls : ∀ x, ∀ p ∈ s.accepted x, ∃ names : List CString,
      names.length = p.1.numObjects.toInt.toNat ∧ hashAddCalls (acceptedLsa p.1) =
        .ok (names.map fun name => (name, p.1.senderNodeId, (p.2 : ℤ) + 1)) := by
    intro x p hp
    have ho := (hi.node x).accepted p hp
    obtain ⟨names, hnames⟩ := ho.names
    have hlen := objectNames_length hnames
    rw [← ho.cost]
    exact ⟨names, hlen, hashAddCalls_eq hnames⟩
  constructor
  · intro hr x p hp
    obtain ⟨names, hlen, hn⟩ := hcalls x p hp
    obtain ⟨calls, hc, hall⟩ := hr x p hp
    rw [hn, Except.ok.injEq] at hc
    subst hc
    cases names with
    | nil =>
      rw [List.length_nil] at hlen
      omega
    | cons name names =>
      have hfirst := hall _ List.mem_cons_self
      dsimp only at hfirst
      omega
  · intro hr x p hp
    obtain ⟨names, hlen, hn⟩ := hcalls x p hp
    have hnil : names = [] := by
      rw [← List.length_eq_zero_iff, hlen]
      exact Int.toNat_of_nonpos (hr x p hp)
    exact ⟨_, hn, by simp [hnil]⟩

end Runs

/-- **Costs are the links travelled exactly for configured neighbours, and for LSAs without objects.** In
every run in which what is delivered has travelled fewer than `DEFAULT_TTL` links, the cost of a node that is
not configured is one more than the least number of links travelled by an accepted LSA of that node, and
`hash_add` gets one more than the links that the LSA travelled. -/
theorem cost_hop_count [DecidableEq ι] (N : Net ι) (ok : List UInt8 → Prop) (hv : N.Distinct) :
    (∀ w, (network N ok).Reachable w ↔ ∃ s, (hopNetwork N ok).Reachable s ∧ s.world = w) ∧
    ∀ s, ((hopNetwork N ok).restrict Few).Reachable s → (RoutingHops N 1 s ∧ ObjectHops 1 s) ∧
      (RoutingHops N 0 s ↔ ∀ x, ∀ p ∈ s.accepted x, ∃ y ∈ N.nbrs x, p.1.senderNodeId = (N.self y).id) ∧
      (ObjectHops 0 s ↔ ∀ x, ∀ p ∈ s.accepted x, p.1.numObjects.toInt ≤ 0) := by
  refine ⟨fun w => hopNetwork_reachable_iff, fun s r => ?_⟩
  have hi := hopInv_reachable hv r
  exact ⟨⟨hi.routingHops, hi.objectHops⟩, hi.routingHops_iff, hi.objectHops_iff⟩

/-! ### A run -/

section Computed

variable [DecidableEq ι] (N : Net ι) (ok : List UInt8 → Prop) [DecidablePred ok]

/-- One step of a schedule, with the links travelled. -/
def hopMove (s : HopWorld ι) : Move ι → Option (((ι × Event × List Effect) × ℕ) × HopWorld ι)
  | .tick x => do
    let ((x, ev, out), w) ← s.world.move N ok (.tick x)
    return (((x, ev, out), 0), s.after x ev out 0 w)
  | .deliver x k => do
    let h ← s.links[k]?
    let ((x, ev, out), w) ← s.world.move N ok (.deliver x k)
    if (h : ℤ) < defaultTtl then return (((x, ev, out), h), s.after x ev out h w) else none

variable {N ok}

theorem step_hopMove {s s' : HopWorld ι} {m : Move ι} {l : (ι × Event × List Effect) × ℕ}
    (h : hopMove N ok s m = some (l, s')) : ((hopNetwork N ok).restrict Few).step s l s' := by
  cases m with
  | tick x =>
    obtain ⟨⟨⟨x', ev, out⟩, w⟩, hm, h⟩ := Option.bind_eq_some_iff.mp h
    cases h
    have hnet := step_move hm
    obtain ⟨⟨d, out'⟩, ha, hm⟩ := Option.bind_eq_some_iff.mp hm
    cases hm
    exact ⟨(by decide : ((0 : ℕ) : ℤ) < defaultTtl), hnet, rfl, rfl⟩
  | deliver x k =>
    obtain ⟨n, hn, h⟩ := Option.bind_eq_some_iff.mp h
    obtain ⟨⟨⟨x', ev, out⟩, w⟩, hm, h⟩ := Option.bind_eq_some_iff.mp h
    split_ifs at h with hlt
    cases h
    have hnet := step_move hm
    obtain ⟨g, hg, hm⟩ := Option.bind_eq_some_iff.mp hm
    split_ifs at hm with hok
    obtain ⟨⟨d, out'⟩, ha, hm⟩ := Option.bind_eq_some_iff.mp hm
    cases hm
    exact ⟨hlt, hnet, ⟨k, g, hg, hn, hok.1, hok.2, rfl⟩, rfl⟩

end Computed

/-- The nodes of a network of four are numerals. -/
instance neZeroFour : NeZero 4 := ⟨by decide⟩

/-- Node 1 floods; node 2 forwards its LSA to node 3. -/
def twoLinksRun : List (Move (Fin 4)) :=
  List.replicate 6 (.tick 0) ++ .deliver 1 0 :: List.replicate 6 (.tick 1) ++ [.deliver 2 4]

theorem hop_init_start [DecidableEq ι] {N : Net ι} {ok : List UInt8 → Prop} {P}
    (hb : ∀ x, (boot (N.files x)).toOption.isSome = true) :
    ((hopNetwork N ok).restrict P).init ⟨N.start hb, [], fun _ _ => 0, fun _ => []⟩ :=
  ⟨init_start hb, rfl, rfl, rfl⟩

/-- **An LSA that has travelled 2 links costs 3 in both tables.** -/
theorem exists_cost_more : ∃ s, ((hopNetwork lineNet fun _ => True).restrict Few).Reachable s ∧
    (s.accepted 2).map (fun p => (p.1.senderNodeId, p.2)) = [(1, 2)] ∧
    (entryOf (s.world.daemon 2).rt 1).map RoutingEntry.cost = some 3 ∧
    getPaths superFastHash (s.world.daemon 2).gol (lit "o") = some ⟨1, 3⟩ ∧
    ¬ RoutingHops lineNet 0 s ∧ ¬ ObjectHops 0 s := by
  have key : (System.follow (hopMove lineNet fun _ => True) twoLinksRun
      ⟨lineNet.start lineNet_boots, [], fun _ _ => 0, fun _ => []⟩).map (fun p =>
        decide ((p.2.accepted 2).map (fun p => (p.1.senderNodeId, p.2)) = [(1, 2)]) &&
        decide ((entryOf (p.2.world.daemon 2).rt 1).map RoutingEntry.cost = some 3) &&
        decide (getPaths superFastHash (p.2.world.daemon 2).gol (lit "o") = some ⟨1, 3⟩) &&
        decide ((p.2.accepted 2).map (fun p => p.1.numObjects.toInt) = [1])) = some true := by
    decide +kernel
  obtain ⟨⟨ls, s⟩, hs, hp⟩ := Option.map_eq_some_iff.mp key
  simp only [Bool.and_eq_true, decide_eq_true_eq] at hp
  obtain ⟨⟨⟨hacc, hcost⟩, hpath⟩, hobj⟩ := hp
  have r : ((hopNetwork lineNet fun _ => True).restrict Few).Reachable s :=
    ⟨_, (System.Run.init (hop_init_start lineNet_boots)).follow (fun _ _ _ _ => step_hopMove) hs⟩
  have hi := hopInv_reachable lineNet_valid.toDistinct r
  obtain ⟨p, hlist⟩ : ∃ p, s.accepted 2 = [p] := by
    rw [← List.length_eq_one_iff, ← List.length_map (f := fun p => (p.1.senderNodeId, p.2)), hacc]
    rfl
  rw [hlist, List.map_singleton, List.singleton_inj] at hacc hobj
  have hp : p ∈ s.accepted 2 := by rw [hlist]; exact List.mem_singleton_self p
  refine ⟨s, r, by rw [hlist, List.map_singleton, hacc], hcost, hpath, fun h => ?_, fun h => ?_⟩
  · obtain ⟨y, hy, hid⟩ := hi.routingHops_iff.mp h 2 p hp
    rw [(Prod.mk.inj hacc).1] at hid
    revert y
    decide
  · have hle := hi.objectHops_iff.mp h 2 p hp
    rw [hobj] at hle
    exact absurd hle (by decide)

/-- Node 1 floods; node 2 takes its LSA, floods and forwards it to node 3, which takes it too. -/
def configuredRun : List (Move (Fin 3)) :=
  List.replicate 6 (.tick 0) ++ .deliver 1 0 :: List.replicate 6 (.tick 1) ++ [.deliver 2 5]

/-- The LSA of node 1, which is configured everywhere and has no objects, travels one link and two links. -/
theorem cost_hop_count_cycleNet : ∃ s, ((hopNetwork cycleNet fun _ => True).restrict Few).Reachable s ∧
    (s.accepted 1).map (fun p => (p.1.senderNodeId, p.2)) = [(1, 1)] ∧
    (s.accepted 2).map (fun p => (p.1.senderNodeId, p.2)) = [(1, 2)] ∧
    RoutingHops cycleNet 0 s ∧ ObjectHops 0 s := by
  have key : (System.follow (hopMove cycleNet fun _ => True) configuredRun
      ⟨cycleNet.start cycleNet_boots, [], fun _ _ => 0, fun _ => []⟩).map (fun p =>
        decide ((p.2.accepted 1).map (fun p => (p.1.senderNodeId, p.2)) = [(1, 1)]) &&
        decide ((p.2.accepted 2).map (fun p => (p.1.senderNodeId, p.2)) = [(1, 2)]) &&
        decide (∀ x, ∀ q ∈ p.2.accepted x, ∃ y ∈ cycleNet.nbrs x, q.1.senderNodeId = (cycleNet.self y).id) &&
        decide (∀ x, ∀ q ∈ p.2.accepted x, q.1.numObjects.toInt ≤ 0)) = some true := by
    decide +kernel
  obtain ⟨⟨ls, s⟩, hs, hp⟩ := Option.map_eq_some_iff.mp key
  simp only [Bool.and_eq_true, decide_eq_true_eq] at hp
  obtain ⟨⟨⟨h1, h2⟩, hconfigured⟩, hempty⟩ := hp
  have r : ((hopNetwork cycleNet fun _ => True).restrict Few).Reachable s :=
    ⟨_, (System.Run.init (hop_init_start cycleNet_boots)).follow (fun _ _ _ _ => step_hopMove) hs⟩
  obtain ⟨-, hall⟩ := cost_hop_count cycleNet (fun _ => True) cycleNet_valid.toDistinct
  obtain ⟨-, hrouting, hobjects⟩ := hall s r
  exact ⟨s, r, h1, h2, hrouting.mpr hconfigured, hobjects.mpr hempty⟩

end RoutingDaemon
