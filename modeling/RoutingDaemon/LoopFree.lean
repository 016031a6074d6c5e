import RoutingDaemon.Lib.Descent
import RoutingDaemon.Schedule

/-!
# Next hops do not loop

* `TtlOk`: an LSA is delivered with a TTL in `1 .. DEFAULT_TTL`.
* `CostInv`: how the costs at different nodes, the stored LSAs and the LSAs on the wire are related.
* `costInv_micro`, `costInv_reachable`: it holds in every reachable state.
* `Hop`: from a node to its next hop for a destination; `next_hops_loop_free`.
-/

namespace RoutingDaemon

/-- An LSA is delivered with a TTL in `1 .. DEFAULT_TTL`. -/
def TtlOk (bytes : List UInt8) : Prop :=
  ∀ lsa, bytesToPacket (bytes.take maxLsaLen) = .ok lsa → getType lsa.versionTtlType = typeLsa →
    1 ≤ getTtl lsa.versionTtlType ∧ getTtl lsa.versionTtlType ≤ defaultTtl

instance : DecidablePred TtlOk := fun bytes =>
  match h : bytesToPacket (bytes.take maxLsaLen) with
  | .error _ => isTrue fun _ h' => by rw [h] at h'; cases h'
  | .ok lsa => decidable_of_iff (getType lsa.versionTtlType = typeLsa →
      1 ≤ getTtl lsa.versionTtlType ∧ getTtl lsa.versionTtlType ≤ defaultTtl)
      ⟨fun hl _ h' => by rw [h] at h'; cases h'; exact hl, fun hl => hl lsa h⟩

variable {ι : Type}

/-- Node `x` has an entry for `id` whose cost is at most `c`. -/
def CostAtMost (w : World ι) (x : ι) (id : Int32) (c : ℤ) : Prop :=
  ∃ e ∈ (w.daemon x).rt.table, e.id = id ∧ e.cost ≤ c

/-- What holds of an entry of node `x`. -/
structure EntryCost (N : Net ι) (w : World ι) (x : ι) (e : RoutingEntry) : Prop where
  own : e.id = (N.self x).id → e.cost = 0
  nonneg : 0 ≤ e.cost
  stored : ∀ a, e.lsa = some a → e.cost ≤ lsaCost a
  hop : e.id ≠ (N.self x).id → ∃ y, (N.self y).id = e.nexthop ∧ CostAtMost w y e.id (e.cost - 1)

/-- Costs, TTLs and next hops: an entry costs at most what its stored LSA says; a node that sent an
LSA has an entry for the originator that costs at most what the LSA says; a next hop has a cheaper
entry. -/
structure CostInv (N : Net ι) (w : World ι) : Prop where
  entry : ∀ x, ∀ e ∈ (w.daemon x).rt.table, EntryCost N w x e
  wire : ∀ g ∈ w.wire, ∀ a, g.Carries a → getType a.versionTtlType = typeLsa →
    CostAtMost w g.src a.senderNodeId (lsaCost a)

theorem lsaCost_own {fresh : Fresh} {nodeId sequenceNum : Int32} {dl : DirectLinks}
    {ol : LocalObjects} {lsa : LSA} {size : ℕ}
    (h : createPacket fresh typeLsa nodeId sequenceNum dl ol = .ok (lsa, size)) : lsaCost lsa = 1 := by
  rw [lsaCost, (createPacket_lsa h).1, getTtl_newHeader]
  rfl

theorem Lawful.myNodeId {N : Net ι} {w : World ι} (h : Lawful N w) (x : ι) :
    (w.daemon x).myNodeId = (N.self x).id := by
  have := (h.sound x).own
  rw [h.links x] at this
  exact (Option.some.inj this).symm

/-! ### After `boot` -/

theorem costInv_init [DecidableEq ι] {N : Net ι} {ok : List UInt8 → Prop} (hv : N.Distinct)
    {w : World ι} (h : (network N ok).init w) : CostInv N w where
  wire g hg := by rw [h.1] at hg; simp at hg
  entry x e he := by
    obtain ⟨j, hj⟩ := List.mem_iff_getElem?.mp he
    have hrows := (boot_eq_ok (h.2 x)).2.1
    rw [hrows, List.getElem?_mapIdx, Option.map_eq_some_iff] at hj
    obtain ⟨l, hl, rfl⟩ := hj
    have hcost : (loadedEntry (w.daemon x).dl j l).cost = if j = 0 then 0 else 1 := rfl
    rw [Net.files] at hl
    cases j with
    | zero =>
      obtain rfl : N.self x = l := Option.some.inj hl
      exact ⟨fun _ => rfl, le_rfl, fun a ha => absurd ha (by simp [loadedEntry]), fun hne => absurd rfl hne⟩
    | succ j =>
      rw [List.getElem?_cons_succ] at hl
      obtain ⟨y, hy, rfl⟩ := List.mem_map.mp (List.mem_of_getElem? hl)
      have hne : y ≠ x := by
        rintro rfl
        exact (List.nodup_cons.mp (hv.simple y)).1 hy
      refine ⟨fun hid => absurd (hv.ids hid) hne, by rw [hcost]; split_ifs <;> omega,
        fun a ha => absurd ha (by simp [loadedEntry]), fun _ => ⟨y, rfl, ?_⟩⟩
      -- the neighbour's own entry is free
      have hy0 : (w.daemon y).rt.table[0]? = some (loadedEntry (w.daemon y).dl 0 (N.self y)) := by
        rw [(boot_eq_ok (h.2 y)).2.1, List.getElem?_mapIdx]; rfl
      exact ⟨_, List.mem_of_getElem? hy0, rfl, by rw [hcost, if_neg (by omega)]; exact le_rfl⟩

/-! ### Small steps -/

section Step

variable {N : Net ι} {w w' : World ι} {x : ι} {out : List Effect}

theorem cost_change {S : LSA → ℕ → Int32 → Prop} {d : Daemon} {j : ℕ} {e e' : RoutingEntry}
    (h : Relation.ReflTransGen (Change S d j) e e') : e'.cost ≤ e.cost := by
  induction h with
  | refl => exact le_rfl
  | tail _ hc ih =>
    refine le_trans ?_ ih
    cases hc with
    | store =>
      simp only [storeLsa, setRoute]
      split_ifs with hlt
      · exact hlt.le
      · exact le_rfl
    | _ => exact le_rfl

theorem NetStores.cost (hl : Lawful N w) (hi : CostInv N w) {lsa : LSA} {size : ℕ}
    {nexthop : Int32} (h : NetStores N TtlOk w x lsa size nexthop) :
    1 ≤ lsaCost lsa ∧ (lsa.senderNodeId ≠ (N.self x).id →
      ∃ y, (N.self y).id = nexthop ∧ CostAtMost w y lsa.senderNodeId (lsaCost lsa - 1)) := by
  cases h with
  | own packet =>
    refine ⟨by rw [lsaCost_own packet], fun hne => ?_⟩
    rw [(createPacket_lsa packet).2.1, hl.myNodeId] at hne
    exact absurd rfl hne
  | @arrived g a _ sent here admitted carries nbr type =>
    obtain ⟨h1, h2⟩ := admitted a carries type
    rw [lsaCost_acceptedLsa h1 h2]
    refine ⟨?_, fun _ => ⟨g.src, rfl, ?_⟩⟩
    · rw [lsaCost]; unfold defaultTtl at *; omega
    · rw [add_sub_cancel_right]
      exact hi.wire g sent a carries type

theorem entryCost_change (hl : Lawful N w) (hi : CostInv N w) {j : ℕ} {e e' : RoutingEntry}
    (h : EntryCost N w x e) (hc : Change (NetStores N TtlOk w x) (w.daemon x) j e e') :
    EntryCost N w x e' := by
  cases hc with
  | checkers => exact ⟨h.own, h.nonneg, h.stored, h.hop⟩
  | discard => exact ⟨h.own, h.nonneg, nofun, h.hop⟩
  | age => exact ⟨h.own, h.nonneg, h.stored, h.hop⟩
  | @store _ lsa _ nexthop stores id =>
    obtain ⟨h1, h2⟩ := stores.cost hl hi
    by_cases hlt : lsaCost lsa < e.cost
    · -- the entry takes the cost and the next hop of the LSA
      have hne : e.id ≠ (N.self x).id := fun he => by
        have := h.own he
        omega
      refine ⟨fun he => absurd he hne, ?_, fun a ha => ?_, fun _ => ?_⟩ <;>
        simp only [storeLsa, setRoute, if_pos hlt]
      · omega
      · cases ha
        exact le_rfl
      · rw [id] at hne ⊢
        exact h2 hne
    · refine ⟨fun he => ?_, ?_, fun a ha => ?_, fun hne => ?_⟩ <;>
        simp only [storeLsa, setRoute, if_neg hlt]
      · exact h.own he
      · exact h.nonneg
      · cases ha
        exact not_lt.mp hlt
      · exact h.hop hne

theorem entryCost_appended (hl : Lawful N w) (hi : CostInv N w) {e : RoutingEntry}
    (ha : Appended (NetStores N TtlOk w x) (w.daemon x) e) : EntryCost N w x e := by
  obtain @⟨_, lsa, _, _, stores, unknown⟩ := ha
  obtain ⟨h1, h2⟩ := stores.cost hl hi
  -- the own entry is there from the start
  have hne : lsa.senderNodeId ≠ (N.self x).id := fun he => by
    rw [he, ← hl.myNodeId, (hl.sound x).getRoutingEntry_own] at unknown
    cases unknown
  refine ⟨fun he => absurd he hne, ?_, fun a ha => ?_, fun _ => h2 hne⟩ <;>
    simp only [storeLsa, newEntry]
  · omega
  · cases ha
    exact le_rfl

variable [DecidableEq ι] {ok : List UInt8 → Prop}

theorem CostAtMost.micro (hv : N.Valid) (hl : Lawful N w) (h : NetMicro N ok x w out w') {y : ι}
    {id : Int32} {c : ℤ} (hc : CostAtMost w y id c) : CostAtMost w' y id c := by
  by_cases hy : y = x
  · subst hy
    obtain ⟨e, he, hid, hle⟩ := hc
    obtain ⟨j, hj⟩ := List.mem_iff_getElem?.mp he
    obtain ⟨e', he', hr⟩ := (reshapes_netMicro hv hl h).exists_entry hj
    exact ⟨e', List.mem_of_getElem? he', (change_id hr).trans hid, (cost_change hr).trans hle⟩
  · obtain ⟨d, -, rfl⟩ := h.micro
    rw [CostAtMost, after_daemon_of_ne hy]
    exact hc

/-- **Every small step keeps the costs related.** -/
theorem costInv_micro (hv : N.Valid) (hl : Lawful N w) (hi : CostInv N w)
    (h : NetMicro N TtlOk x w out w') : CostInv N w' := by
  have lift : ∀ {y e}, EntryCost N w y e → EntryCost N w' y e := fun he =>
    ⟨he.own, he.nonneg, he.stored, fun hne => (he.hop hne).imp fun _ h1 => ⟨h1.1, h1.2.micro hv hl h⟩⟩
  constructor
  · intro y e he
    refine lift ?_
    by_cases hy : y = x
    · subst hy
      obtain ⟨j, hj⟩ := List.mem_iff_getElem?.mp he
      exact (reshapes_netMicro hv hl h).forall_entry (P := fun _ e => EntryCost N w y e)
        (fun _ _ _ => entryCost_change hl hi) (fun _ => entryCost_appended hl hi)
        (fun _ e he => hi.entry y e (List.mem_of_getElem? he)) j e hj
    · obtain ⟨d, -, rfl⟩ := h.micro
      rw [after_daemon_of_ne hy] at he
      exact hi.entry y e he
  · intro g hg a ha ht
    refine CostAtMost.micro hv hl h ?_
    rcases sentBy_netMicro hl h hg with hold | ⟨rfl, ⟨e, he, b, hb, n, hc⟩ | ⟨b, hc, hack⟩⟩
    · exact hi.wire g hold a ha ht
    · -- a stored LSA was sent
      obtain rfl := ha.unique hc
      obtain ⟨j, hj⟩ := List.mem_iff_getElem?.mp he
      obtain ⟨hid, -, -⟩ := ((hl.sound g.src).entry j e hj).sender b hb
      exact ⟨e, he, hid.symm, (hi.entry g.src e he).stored b hb⟩
    · obtain rfl := ha.unique hc
      rw [hack] at ht
      exact absurd ht (by decide)

/-- **The costs are related in every reachable state.** -/
theorem costInv_reachable (hv : N.Valid) (r : (network N TtlOk).Reachable w) :
    Lawful N w ∧ CostInv N w :=
  network_invariant hv.toDistinct (fun _ => costInv_init hv.toDistinct) (fun _ _ _ _ => costInv_micro hv) r

end Step

/-! ### Following next hops -/

section Walk

variable {N : Net ι} {w : World ι}

/-- The routing entry of node `x` for `id`. -/
def entryFor (w : World ι) (x : ι) (id : Int32) : Option RoutingEntry :=
  (getRoutingEntry (w.daemon x).rt id).bind fun k => (w.daemon x).rt.table[k]?

theorem entryFor_eq_some (hl : Lawful N w) {x : ι} {id : Int32} {e : RoutingEntry} :
    entryFor w x id = some e ↔ e ∈ (w.daemon x).rt.table ∧ e.id = id := by
  unfold entryFor
  rw [Option.bind_eq_some_iff]
  constructor
  · rintro ⟨k, hk, he⟩
    obtain ⟨e', he', hid⟩ := getRoutingEntry_eq_some hk
    rw [he, Option.some.injEq] at he'
    subst he'
    exact ⟨List.mem_of_getElem? he, hid⟩
  · rintro ⟨he, rfl⟩
    obtain ⟨k, hk⟩ := List.mem_iff_getElem?.mp he
    exact ⟨k, getRoutingEntry_of_nodup (hl.sound x).nodup hk, hk⟩

/-- From node `x`, which is not `id` itself, to its next hop for `id`. -/
def Hop (N : Net ι) (w : World ι) (id : Int32) (x y : ι) : Prop :=
  ∃ e, entryFor w x id = some e ∧ (N.self x).id ≠ id ∧ (N.self y).id = e.nexthop

/-- The cost of node `x` for `id`. -/
def costFor (w : World ι) (id : Int32) (x : ι) : ℕ :=
  ((entryFor w x id).map fun e => e.cost.toNat).getD 0

theorem CostInv.next_hop (hl : Lawful N w) (hi : CostInv N w) {x : ι} {id : Int32}
    {e : RoutingEntry} (he : entryFor w x id = some e) (hne : (N.self x).id ≠ id) :
    ∃ y, (N.self y).id = e.nexthop ∧ ∃ e', entryFor w y id = some e' ∧ e'.cost < e.cost := by
  obtain ⟨hm, rfl⟩ := (entryFor_eq_some hl).mp he
  obtain ⟨y, hy, e', he', hid, hle⟩ := (hi.entry x e hm).hop (Ne.symm hne)
  exact ⟨y, hy, e', (entryFor_eq_some hl).mpr ⟨he', hid⟩, by omega⟩

theorem costFor_lt (hv : N.Valid) (hl : Lawful N w) (hi : CostInv N w) {id : Int32} {x y : ι}
    (h : Hop N w id x y) : costFor w id y < costFor w id x := by
  obtain ⟨e, he, hne, hy⟩ := h
  obtain ⟨y', hy', e', he', hlt⟩ := hi.next_hop hl he hne
  obtain rfl : y' = y := hv.ids (hy'.trans hy.symm)
  have h0 := (hi.entry y' e' ((entryFor_eq_some hl).mp he').1).nonneg
  rw [costFor, costFor, he, he', Option.map_some, Option.map_some, Option.getD_some,
    Option.getD_some]
  omega

/-- **Next hops do not loop.** In every reachable state, the next hop of a node for another
destination has an entry for it that costs strictly less; following next hops never revisits a node,
and ends at the destination. -/
theorem next_hops_loop_free [DecidableEq ι] (hv : N.Valid) (r : (network N TtlOk).Reachable w)
    (id : Int32) :
    (∀ x e, entryFor w x id = some e → (N.self x).id ≠ id →
      ∃ y, (N.self y).id = e.nexthop ∧ ∃ e', entryFor w y id = some e' ∧ e'.cost < e.cost) ∧
    (∀ x, ¬ Relation.TransGen (Hop N w id) x x) ∧
    ∀ x, entryFor w x id ≠ none →
      ∃ z, Relation.ReflTransGen (Hop N w id) x z ∧ (N.self z).id = id := by
  obtain ⟨hl, hi⟩ := costInv_reachable hv r
  have hrank : ∀ x y, Hop N w id x y → costFor w id y < costFor w id x :=
    fun x y => costFor_lt hv hl hi
  refine ⟨fun x e => hi.next_hop hl, acyclic_of_rank hrank, fun x hx => ?_⟩
  refine exists_end_of_rank (P := fun x => entryFor w x id ≠ none) hrank (fun x hx => ?_) hx
  by_cases hid : (N.self x).id = id
  · exact .inl hid
  · obtain ⟨e, he⟩ := Option.ne_none_iff_exists'.mp hx
    obtain ⟨y, hy, e', he', -⟩ := hi.next_hop hl he hid
    exact .inr ⟨y, ⟨e, he, hid, hy⟩, by rw [he']; exact Option.some_ne_none e'⟩

/-- Three nodes in a line. -/
def chainNet : Net (Fin 3) where
  self := ![linkOn 1 65, linkOn 2 66, linkOn 3 67]
  nbrs := ![[1], [0, 2], [1]]
  hostname _ := cstr [104]
  lines _ := []
  filefile _ := []

theorem chainNet_valid : chainNet.Valid where
  ids := by decide
  hosts := by decide
  simple := by decide

theorem chainNet_boots : ∀ x, (boot (chainNet.files x)).toOption.isSome = true := by decide +kernel

/-- Node 3 floods; node 2 takes its LSA, floods and forwards it to node 1, which takes it. -/
def chainRun : List (Move (Fin 3)) :=
  List.replicate 6 (.tick 2) ++ .deliver 1 0 :: List.replicate 6 (.tick 1) ++ [.deliver 0 4]

/-- After that run node 3 is reached from node 1 through node 2. -/
theorem next_hops_loop_free_chainNet : ∃ w, (network chainNet TtlOk).Reachable w ∧
    (entryFor w 0 3).map (fun e => (e.nexthop, e.cost)) = some (2, 3) ∧
    (∃ y, (chainNet.self y).id = 2 ∧ ∃ e, entryFor w y 3 = some e ∧ e.cost < 3) ∧
    (∀ x, ¬ Relation.TransGen (Hop chainNet w 3) x x) ∧
    ∃ z, Relation.ReflTransGen (Hop chainNet w 3) 0 z ∧ (chainNet.self z).id = 3 := by
  have key : (System.follow (World.move chainNet TtlOk) chainRun (chainNet.start chainNet_boots)).map
      (fun p => decide ((entryFor p.2 0 3).map (fun e => (e.nexthop, e.cost)) = some (2, 3))) =
        some true := by decide +kernel
  obtain ⟨⟨ls, w⟩, hw, hp⟩ := Option.map_eq_some_iff.mp key
  rw [decide_eq_true_eq] at hp
  have r : (network chainNet TtlOk).Reachable w :=
    ⟨_, (System.Run.init (init_start chainNet_boots)).follow (fun _ _ _ _ => step_move) hw⟩
  obtain ⟨hcheaper, hacyclic, hend⟩ := next_hops_loop_free chainNet_valid r 3
  obtain ⟨e, he, hcost⟩ := Option.map_eq_some_iff.mp hp
  obtain ⟨hn, hc⟩ := Prod.mk.inj hcost
  obtain ⟨y, hy, e', he', hlt⟩ := hcheaper 0 e he (by decide)
  refine ⟨w, r, hp, ⟨y, hy.trans hn, e', he', hc ▸ hlt⟩, hacyclic, hend 0 ?_⟩
  rw [he]
  exact Option.some_ne_none e

end Walk

end RoutingDaemon
