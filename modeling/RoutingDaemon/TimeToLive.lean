import RoutingDaemon.OwnAdvertisement

/-!
# The TTL of an LSA

* `CountsDown`: an LSA that is accepted is stored with nothing changed but its TTL, which is one less.
* `TtlPass`: no LSA with TTL 0 is accepted. `countsDown_iff`: one pass.
* `Holds`, `SendsOnly`: a property of all stored LSAs, and of all LSAs that are sent; `holds_act`.
* `ttl_sound`: one pass, the runs of one daemon, and those of a network with restarts.
-/

namespace RoutingDaemon

/-! ### One pass -/

/-- The two packets differ in the TTL only, which is one less. -/
structure Lowered (lsa a : LSA) : Prop where
  same : a = { lsa with versionTtlType := a.versionTtlType }
  version : getVersion a.versionTtlType = getVersion lsa.versionTtlType
  type : getType a.versionTtlType = getType lsa.versionTtlType
  ttl : getTtl a.versionTtlType = getTtl lsa.versionTtlType - 1
  nonneg : 0 ≤ getTtl a.versionTtlType
  le : getTtl a.versionTtlType ≤ 254

/-- The LSA has not run out, and is stored with a TTL that is one less. -/
def CountsDown (d' : Daemon) (lsa : LSA) : Prop :=
  1 ≤ getTtl lsa.versionTtlType ∧ ∃ a, storedFor d'.rt lsa.senderNodeId = some a ∧ Lowered lsa a

/-- An LSA that is newer than the stored one has not run out. -/
def TtlPass (d : Daemon) (ev : Event) : Prop :=
  ∀ r fresh lsa f size, ev = .datagram r fresh → rtRecvfrom d.dl r = .ok (some (lsa, f, size)) →
    getType lsa.versionTtlType = typeLsa →
      (∃ a, storedFor d.rt lsa.senderNodeId = some a ∧ lsa.sequenceNum.toInt ≤ a.sequenceNum.toInt) ∨
        1 ≤ getTtl lsa.versionTtlType

section Pass

variable {d d' : Daemon} {r : Received} {fresh : Fresh} {out : List Effect} {lsa : LSA} {f : Int32}
  {size : ℕ}

theorem acceptedLsa_header (lsa : LSA) : (acceptedLsa lsa).versionTtlType =
    setTtl lsa.versionTtlType (getTtl lsa.versionTtlType - 1) := by
  simp [acceptedLsa]

theorem lowered_acceptedLsa (h : 1 ≤ getTtl lsa.versionTtlType) : Lowered lsa (acceptedLsa lsa) := by
  have hle := getTtl_le lsa.versionTtlType
  have ht : getTtl (acceptedLsa lsa).versionTtlType = getTtl lsa.versionTtlType - 1 := by
    rw [acceptedLsa_header, getTtl_setTtl _ (by omega) (by omega)]
  have hv : getVersion (acceptedLsa lsa).versionTtlType = getVersion lsa.versionTtlType := by
    rw [acceptedLsa_header, getVersion_setTtl _ (by omega) (by omega)]
  exact ⟨rfl, hv, acceptedLsa_type lsa, ht, by omega, by omega⟩

theorem ttlPass_datagram (recv : rtRecvfrom d.dl r = .ok (some (lsa, f, size)))
    (type : getType lsa.versionTtlType = typeLsa) : TtlPass d (.datagram r fresh) ↔
      filtered d.rt (getRoutingEntry d.rt lsa.senderNodeId) typeLsa lsa.sequenceNum = true ∨
        1 ≤ getTtl lsa.versionTtlType := by
  rw [filtered_lsa]
  constructor
  · exact fun h => h r fresh lsa f size rfl recv type
  · rintro h r' fresh' lsa' f' size' he recv' type'
    cases he
    rw [recv] at recv'
    cases recv'
    exact h

/-- **One pass counts the TTL down exactly if the LSA is old or its TTL is not 0.** -/
theorem countsDown_iff (h : act (.datagram r fresh) d = .ok (d', out))
    (recv : rtRecvfrom d.dl r = .ok (some (lsa, f, size))) (type : getType lsa.versionTtlType = typeLsa) :
    (.accept lsa.senderNodeId lsa.sequenceNum ∈ out → CountsDown d' lsa) ↔
      TtlPass d (.datagram r fresh) := by
  rw [ttlPass_datagram recv type]
  obtain ⟨lsa', f', size', recv', hh⟩ := receive_handled h
  rw [recv] at recv'
  cases recv'
  have hstored := storedFor_handled (s := lsa.senderNodeId) hh
  cases hh with
  | ignored why =>
    refine iff_of_true (fun hm => by cases hm) ?_
    rw [type] at why
    exact why.imp_right fun h1 => absurd rfl h1.1
  | credited type' => rw [type] at type'; exact absurd type' (by decide)
  | accepted type' newer link update objects =>
    rw [if_pos ⟨type, rfl, not_filtered_lsa.mp newer⟩] at hstored
    rw [newer]
    constructor
    · exact fun hs => .inr (hs (by simp)).1
    · rintro (h0 | h1) -
      · cases h0
      · exact ⟨h1, _, hstored, lowered_acceptedLsa h1⟩

end Pass

/-! ### Stored and sent LSAs -/

/-- Every stored LSA satisfies `S`, and its size covers the header. -/
def Holds (S : LSA → Prop) (rt : RoutingTable) : Prop :=
  ∀ (j : ℕ) (e : RoutingEntry), rt.table[j]? = some e → ∀ a, e.lsa = some a → S a ∧ sizeofLsa ≤ e.lsaSize

/-- The LSA that a receiver reads from these bytes. -/
def ReadsLsa (bytes : List UInt8) (p : LSA) : Prop :=
  bytesToPacket (bytes.take maxLsaLen) = .ok p ∧ getType p.versionTtlType = typeLsa

/-- Every LSA that is sent satisfies `S`, or is the beginning of one that does. -/
def SendsOnly (S : LSA → Prop) (out : List Effect) : Prop :=
  ∀ host port bytes, .sendto host port bytes ∈ out → ∀ p, ReadsLsa bytes p →
    ∃ a n, S a ∧ p = { a with linksObjects := a.linksObjects.take n }

section Act

variable {S : LSA → Prop} {d d' : Daemon} {out : List Effect}

theorem sendsOnly_of_not_mem (h : ∀ host port bytes, .sendto host port bytes ∉ out) : SendsOnly S out :=
  fun host port bytes hm => absurd hm (h host port bytes)

theorem SendsOnly.append {xs ys : List Effect} (h : SendsOnly S xs) (h' : SendsOnly S ys) :
    SendsOnly S (xs ++ ys) := fun host port bytes hm =>
  (List.mem_append.mp hm).elim (h host port bytes) (h' host port bytes)

theorem readsLsa_take {a p : LSA} {size : ℕ} (hs : sizeofLsa ≤ size)
    (h : ReadsLsa (a.bytes.take size) p) : ∃ n, p = { a with linksObjects := a.linksObjects.take n } := by
  have h1 := h.1
  rw [carries_rtSendto a hs, Except.ok.injEq] at h1
  exact ⟨_, h1.symm⟩

theorem sendsOnly_stored {slot : ℕ} {e : RoutingEntry} {a : LSA} (hd : Holds S d.rt)
    (he : d.rt.table[slot]? = some e) (ha : e.lsa = some a) (l : LinkEntry) :
    SendsOnly S [rtSendto a l e.lsaSize] := by
  intro host port bytes hm p hp
  obtain ⟨hS, hs⟩ := hd slot e he a ha
  rw [List.mem_singleton, rtSendto, Effect.sendto.injEq] at hm
  obtain ⟨-, -, rfl⟩ := hm
  obtain ⟨n, hn⟩ := readsLsa_take hs hp
  exact ⟨a, n, hS, hn⟩

theorem holds_reshapes {T : LSA → ℕ → Int32 → Prop} (hT : ∀ a n g, T a n g → S a ∧ sizeofLsa ≤ n)
    {rt : RoutingTable} (hd : Holds S d.rt) (h : Reshapes T d rt) : Holds S rt := by
  refine h.forall_entry (P := fun _ e => ∀ a, e.lsa = some a → S a ∧ sizeofLsa ≤ e.lsaSize) ?_ ?_ hd
  · intro j e e' he hc
    cases hc with
    | checkers => exact he
    | discard => exact nofun
    | age => exact he
    | store stores id =>
      intro a ha
      cases ha
      exact hT _ _ _ stores
  · intro e ha a hea
    obtain ⟨stores, -⟩ := ha
    cases hea
    exact hT _ _ _ stores

/-- A timeout stores its own LSAs only, and sends what is stored. -/
theorem holds_tick (hown : ∀ fresh q dl ol lsa size,
      createPacket fresh typeLsa d.myNodeId q dl ol = .ok (lsa, size) → S lsa) (hd : Holds S d.rt)
    (h : Tick d out d') : Holds S d'.rt ∧ SendsOnly S out := by
  constructor
  · refine holds_reshapes (T := fun a n _ => S a ∧ sizeofLsa ≤ n) (fun _ _ _ h => h) hd
      (.inl (evolves_tick (fun fresh lsa size packet => ⟨hown _ _ _ _ _ _ packet, ?_⟩) h))
    rw [(createPacket_lsa packet).2.2.2, length_bytes]
    exact Nat.le_add_right _ _
  · cases h with
    | send ok => exact sendsOnly_stored hd ok.entry ok.stored _
    | resend ok checker pending budget => exact sendsOnly_stored hd ok.entry ok.stored _
    | _ => exact sendsOnly_of_not_mem (by simp)

theorem sendsOnly_handled {fresh : Fresh} {lsa : LSA} {f : Int32} {size : ℕ} (hs : sizeofLsa ≤ size)
    (h : Handled d fresh lsa f size out d') : SendsOnly S out := by
  cases h with
  | accepted type newer link update objects =>
    intro host port bytes hm p hp
    simp only [rtSendto, List.mem_cons, List.not_mem_nil, or_false, reduceCtorEq,
      Effect.sendto.injEq] at hm
    obtain ⟨-, -, rfl⟩ := hm
    obtain ⟨n, rfl⟩ := readsLsa_take hs hp
    have ht := hp.2
    dsimp only at ht
    rw [getType_setType_ack] at ht
    exact absurd ht (by decide)
  | _ => exact sendsOnly_of_not_mem (by simp)

theorem holds_handled {fresh : Fresh} {lsa : LSA} {f : Int32} {size : ℕ} (hs : sizeofLsa ≤ size)
    (hacc : getType lsa.versionTtlType = typeLsa →
      filtered d.rt (getRoutingEntry d.rt lsa.senderNodeId) typeLsa lsa.sequenceNum = false →
        S (acceptedLsa lsa)) (hd : Holds S d.rt) (h : Handled d fresh lsa f size out d') :
    Holds S d'.rt := by
  cases h with
  | ignored => exact hd
  | credited type current update =>
    exact holds_reshapes (T := fun _ _ _ => False) (fun _ _ _ => False.elim) hd
      (.inl (evolves_creditAck update))
  | accepted type newer link update objects =>
    exact holds_reshapes (T := fun a n _ => S a ∧ sizeofLsa ≤ n) (fun _ _ _ h => h) hd
      (reshapes_updateEntry ⟨hacc type newer, hs⟩ (by rw [acceptedLsa_type, type]) update)

/-- **What all LSAs satisfy that a daemon creates or accepts, all satisfy that it stores or sends.** -/
theorem holds_act {ev : Event} (hown : ∀ fresh q dl ol lsa size,
      createPacket fresh typeLsa d.myNodeId q dl ol = .ok (lsa, size) → S lsa)
    (hacc : ∀ r fresh lsa f size, ev = .datagram r fresh → rtRecvfrom d.dl r = .ok (some (lsa, f, size)) →
      getType lsa.versionTtlType = typeLsa →
        filtered d.rt (getRoutingEntry d.rt lsa.senderNodeId) typeLsa lsa.sequenceNum = false →
          S (acceptedLsa lsa)) (hd : Holds S d.rt) (h : act ev d = .ok (d', out)) :
    Holds S d'.rt ∧ SendsOnly S out := by
  cases ev with
  | timeout fresh =>
    have key := (timeout_trail h).accumulates (h := [])
      (I := fun out x => x.myNodeId = d.myNodeId ∧ Holds S x.rt ∧ SendsOnly S out) ?_
      ⟨rfl, hd, sendsOnly_of_not_mem (by simp)⟩
    · exact ⟨key.2.1, by simpa using key.2.2⟩
    · rintro sent x out y ⟨hid, hx, hsent⟩ ht
      obtain ⟨hy, hout⟩ := holds_tick (fun fresh q dl ol lsa size hp =>
        hown fresh q dl ol lsa size (hid ▸ hp)) hx ht
      exact ⟨(micro_static (.tick ht)).2.trans hid, hy, hsent.append hout⟩
  | datagram r fresh =>
    obtain ⟨lsa, f, size, recv, hh⟩ := receive_handled h
    have hs := rtRecvfrom_size recv
    exact ⟨holds_handled hs (hacc r fresh lsa f size rfl recv) hd hh, sendsOnly_handled hs hh⟩
  | request c uri opened =>
    obtain ⟨rfl, rfl | ⟨_, _, _, _, -, rfl⟩⟩ := request_cases h <;>
      exact ⟨hd, sendsOnly_of_not_mem (by simp)⟩

theorem holds_boot {f : Files} (h : boot f = .ok d) : Holds S d.rt := by
  intro j e he a ha
  rw [(boot_eq_ok h).2.1, List.getElem?_mapIdx, Option.map_eq_some_iff] at he
  obtain ⟨l, -, rfl⟩ := he
  cases ha

theorem Holds.mono {S' : LSA → Prop} {rt : RoutingTable} (hd : Holds S rt) (h : ∀ a, S a → S' a) :
    Holds S' rt := fun j e he a ha => (hd j e he a ha).imp_left (h a)

/-- No cost in the two tables is negative. -/
structure CostsNonneg (d : Daemon) : Prop where
  consistent : Consistent superFastHash d.gol
  entries : ∀ (j : ℕ) (e : RoutingEntry), d.rt.table[j]? = some e → 0 ≤ e.cost
  objects : ForallPaths superFastHash d.gol fun p => 0 ≤ p.cost

theorem entries_reshapes {T : LSA → ℕ → Int32 → Prop} (hT : ∀ a n g, T a n g → 0 ≤ lsaCost a)
    {rt : RoutingTable} (hd : CostsNonneg d) (h : Reshapes T d rt) (j : ℕ) (e : RoutingEntry)
    (he : rt.table[j]? = some e) : 0 ≤ e.cost := by
  refine h.forall_entry (P := fun _ e => 0 ≤ e.cost) ?_ ?_ hd.entries j e he
  · intro j e e' he hc
    cases hc with
    | store stores id =>
      simp only [storeLsa, setRoute]
      split_ifs
      · exact hT _ _ _ stores
      · exact he
    | _ => exact he
  · intro e ha
    obtain ⟨stores, -⟩ := ha
    exact hT _ _ _ stores

theorem costsNonneg_tick (hd : CostsNonneg d) (h : Tick d out d') : CostsNonneg d' where
  consistent := consistent_tick hd.consistent h
  entries := entries_reshapes (T := fun a _ _ => 0 ≤ lsaCost a) (fun _ _ _ h => h) hd
    (.inl (evolves_tick (fun _ _ _ packet => by rw [lsaCost_own packet]; decide) h))
  objects := by
    cases h with
    | giveUp => exact (hd.objects.hashRemoveNode hd.consistent _).mono fun _ h => h.1
    | expire => exact (hd.objects.hashRemoveNode hd.consistent _).mono fun _ h => h.1
    | _ => exact hd.objects

theorem costsNonneg_handled {fresh : Fresh} {lsa : LSA} {f : Int32} {size : ℕ}
    (hacc : getType lsa.versionTtlType = typeLsa →
      filtered d.rt (getRoutingEntry d.rt lsa.senderNodeId) typeLsa lsa.sequenceNum = false →
        0 ≤ lsaCost (acceptedLsa lsa)) (hd : CostsNonneg d) (h : Handled d fresh lsa f size out d') :
    CostsNonneg d' := by
  cases h with
  | ignored => exact hd
  | credited type current update =>
    exact ⟨hd.consistent, entries_reshapes (T := fun _ _ _ => False) (fun _ _ _ => False.elim) hd
      (.inl (evolves_creditAck update)), hd.objects⟩
  | @accepted src rt gol type newer link update objects =>
    have hcost := hacc type newer
    have hgol : Consistent superFastHash gol ∧ ForallPaths superFastHash gol fun p => 0 ≤ p.cost := by
      refine storeNodeObjects_invariant (I := fun g => Consistent superFastHash g ∧
        ForallPaths superFastHash g fun p => 0 ≤ p.cost) ?_ ⟨hd.consistent, hd.objects⟩ objects
      exact fun g s g' hg h1 => ⟨(hashAdd_spec hg.1 h1).1, hg.2.hashAdd hg.1 h1 hcost⟩
    refine ⟨hgol.1, ?_, hgol.2⟩
    exact entries_reshapes (T := fun a _ _ => 0 ≤ lsaCost a) (fun _ _ _ h => h) hd
      (reshapes_updateEntry hcost (by rw [acceptedLsa_type, type]) update)

/-- **One pass makes no cost negative** if what it accepts has a cost that is not. -/
theorem costsNonneg_act {ev : Event}
    (hacc : ∀ r fresh lsa f size, ev = .datagram r fresh → rtRecvfrom d.dl r = .ok (some (lsa, f, size)) →
      getType lsa.versionTtlType = typeLsa →
        filtered d.rt (getRoutingEntry d.rt lsa.senderNodeId) typeLsa lsa.sequenceNum = false →
          0 ≤ lsaCost (acceptedLsa lsa)) (hd : CostsNonneg d) (h : act ev d = .ok (d', out)) :
    CostsNonneg d' := by
  cases ev with
  | timeout fresh => exact (timeout_trail h).preserves (I := CostsNonneg) (fun _ _ _ => costsNonneg_tick) hd
  | datagram r fresh =>
    obtain ⟨lsa, f, size, recv, hh⟩ := receive_handled h
    exact costsNonneg_handled (hacc r fresh lsa f size rfl recv) hd hh
  | request c uri opened =>
    obtain ⟨-, rfl | ⟨_, _, _, _, hg, rfl⟩⟩ := request_cases h
    · exact hd
    · exact ⟨(hashAdd_spec hd.consistent hg).1, hd.entries,
        hd.objects.hashAdd hd.consistent hg le_rfl⟩

theorem costsNonneg_boot {f : Files} (h : boot f = .ok d) : CostsNonneg d := by
  obtain ⟨-, ht, -, -, -, hload⟩ := boot_eq_ok h
  have hgol : Consistent superFastHash d.gol ∧ ForallPaths superFastHash d.gol fun p => 0 ≤ p.cost := by
    refine loadNodeFile_invariant (I := fun g => Consistent superFastHash g ∧
      ForallPaths superFastHash g fun p => 0 ≤ p.cost) ?_ ⟨consistent_initHash, forallPaths_initHash⟩ hload
    exact fun g s g' hg h1 => ⟨(hashAdd_spec hg.1 h1).1, hg.2.hashAdd hg.1 h1 le_rfl⟩
  refine ⟨hgol.1, fun j e he => ?_, hgol.2⟩
  rw [ht, List.getElem?_mapIdx, Option.map_eq_some_iff] at he
  obtain ⟨l, -, rfl⟩ := he
  simp only [loadedEntry]
  split_ifs <;> decide

end Act

/-! ### Runs of one daemon -/

/-- The LSA was created by the daemon, or follows one that it received in the run `ls`. -/
def FromRun (dl : DirectLinks) (id : Int32) (ls : List (Event × List Effect)) (a : LSA) : Prop :=
  a.senderNodeId = id ∧ getTtl a.versionTtlType = defaultTtl ∨
    ∃ r fresh out lsa f size, (.datagram r fresh, out) ∈ ls ∧
      rtRecvfrom dl r = .ok (some (lsa, f, size)) ∧ getType lsa.versionTtlType = typeLsa ∧
        1 ≤ getTtl lsa.versionTtlType ∧ Lowered lsa a

theorem createPacket_ttl {fresh : Fresh} {id q : Int32} {dl : DirectLinks} {ol : LocalObjects} {lsa : LSA}
    {size : ℕ} (h : createPacket fresh typeLsa id q dl ol = .ok (lsa, size)) :
    lsa.senderNodeId = id ∧ getTtl lsa.versionTtlType = defaultTtl := by
  obtain ⟨hh, hid, -⟩ := createPacket_lsa h
  rw [hh]
  exact ⟨hid, getTtl_newHeader⟩

theorem TtlPass.accepted {d : Daemon} {ev : Event} (hp : TtlPass d ev) {r : Received} {fresh : Fresh}
    {lsa : LSA} {f : Int32} {size : ℕ} (he : ev = .datagram r fresh)
    (recv : rtRecvfrom d.dl r = .ok (some (lsa, f, size))) (type : getType lsa.versionTtlType = typeLsa)
    (newer : filtered d.rt (getRoutingEntry d.rt lsa.senderNodeId) typeLsa lsa.sequenceNum = false) :
    1 ≤ getTtl lsa.versionTtlType ∧ Lowered lsa (acceptedLsa lsa) := by
  subst he
  rcases (ttlPass_datagram recv type).mp hp with h | h
  · rw [h] at newer
    cases newer
  · exact ⟨h, lowered_acceptedLsa h⟩

section Run

variable {f : Files} {d d' : Daemon} {ev : Event} {out : List Effect} {ls : List (Event × List Effect)}

theorem fromRun_act (hd : Holds (FromRun d.dl d.myNodeId ls) d.rt) (hp : TtlPass d ev)
    (h : act ev d = .ok (d', out)) : Holds (FromRun d'.dl d'.myNodeId (ls ++ [(ev, out)])) d'.rt ∧
      SendsOnly (FromRun d.dl d.myNodeId (ls ++ [(ev, out)])) out := by
  rw [(act_static h).1, (act_static h).2]
  refine holds_act (fun _ _ _ _ _ _ hc => .inl (createPacket_ttl hc)) ?_ (hd.mono fun a ha => ?_) h
  · intro r fresh lsa g size he recv type newer
    obtain ⟨hpos, hlow⟩ := hp.accepted he recv type newer
    exact .inr ⟨r, fresh, out, lsa, g, size, by simp [he], recv, type, hpos, hlow⟩
  · rcases ha with ha | ⟨r, fresh, out', lsa, g, size, hm, ha⟩
    · exact .inl ha
    · exact .inr ⟨r, fresh, out', lsa, g, size, List.mem_append_left _ hm, ha⟩

/-- **Every LSA that one daemon sends was created by it, or received before with a TTL greater by one**, in
a run that accepts no LSA with TTL 0. -/
theorem fromRun_run (r : ((daemonSystem f).restrict fun d l => TtlPass d l.1).Run ls d) :
    Holds (FromRun d.dl d.myNodeId ls) d.rt := by
  refine r.traceInvariant (I := fun ls d => Holds (FromRun d.dl d.myNodeId ls) d.rt)
    (fun d h => holds_boot h) ?_
  rintro ls d ⟨ev, out⟩ d' - hd ⟨hp, h⟩
  exact (fromRun_act hd hp h).1

end Run

/-! ### Runs of a network -/

variable {ι : Type} {N : Net ι}

/-- The LSA was created by node `x`, or follows one that was sent to it. -/
def Stems (N : Net ι) (wire : List (Datagram ι)) (x : ι) (a : LSA) : Prop :=
  getTtl a.versionTtlType ≤ defaultTtl ∧
    (a.senderNodeId = (N.self x).id ∧ getTtl a.versionTtlType = defaultTtl ∨
      ∃ g ∈ wire, g.To N x ∧ ∃ lsa, g.Carries lsa ∧ getType lsa.versionTtlType = typeLsa ∧
        1 ≤ getTtl lsa.versionTtlType ∧ Lowered lsa a)

/-- The TTLs in a network: every stored LSA and every LSA on the wire stems from its node or from what was
on the wire before, with a TTL that is one less; and no cost is negative. -/
structure TtlInv (N : Net ι) (w : World ι) : Prop where
  ids : ∀ x, (w.daemon x).myNodeId = (N.self x).id
  stored : ∀ x, Holds (Stems N w.wire x) (w.daemon x).rt
  wire : ∀ (i : ℕ) g p, w.wire[i]? = some g → g.Carries p → getType p.versionTtlType = typeLsa →
    ∃ a n, Stems N (w.wire.take i) g.src a ∧ p = { a with linksObjects := a.linksObjects.take n }
  costs : ∀ x, CostsNonneg (w.daemon x)

theorem Stems.mono {wire wire' : List (Datagram ι)} {x : ι} {a : LSA} (h : Stems N wire x a)
    (hw : ∀ g ∈ wire, g ∈ wire') : Stems N wire' x a :=
  h.imp_right fun h1 => h1.imp_right fun ⟨g, hg, h2⟩ => ⟨g, hw g hg, h2⟩

theorem TtlInv.ttl_le {w : World ι} (hi : TtlInv N w) {g : Datagram ι} {p : LSA} (hg : g ∈ w.wire)
    (hp : g.Carries p) (type : getType p.versionTtlType = typeLsa) :
    getTtl p.versionTtlType ≤ defaultTtl := by
  obtain ⟨i, hi'⟩ := List.mem_iff_getElem?.mp hg
  obtain ⟨a, n, ha, rfl⟩ := hi.wire i g p hi' hp type
  exact ha.1

variable [DecidableEq ι] {ok : List UInt8 → Prop}

/-- No daemon accepts an LSA with TTL 0. -/
def TtlStep (s : World ι × (ι → Option LSA)) (l : ι × Option (Event × List Effect)) : Prop :=
  ∀ ev out, l.2 = some (ev, out) → TtlPass (s.1.daemon l.1) ev

/-- **One step of a network keeps the TTLs.** -/
theorem ttlInv_pass {w w' : World ι} {x : ι} {ev : Event} {out : List Effect} (hi : TtlInv N w)
    (hp : TtlPass (w.daemon x) ev) (h : (network N ok).step w (x, ev, out) w') : TtlInv N w' := by
  obtain ⟨hposs, d, ha, rfl⟩ := h
  have hgrow : ∀ g ∈ w.wire, g ∈ w.wire ++ sends x out := fun g => List.mem_append_left _
  -- what the daemon accepts was on the wire
  have hacc : ∀ r fresh lsa f size, ev = .datagram r fresh →
      rtRecvfrom (w.daemon x).dl r = .ok (some (lsa, f, size)) → getType lsa.versionTtlType = typeLsa →
        filtered (w.daemon x).rt (getRoutingEntry (w.daemon x).rt lsa.senderNodeId) typeLsa
          lsa.sequenceNum = false → Stems N w.wire x (acceptedLsa lsa) := by
    intro r fresh lsa f size he recv type newer
    obtain ⟨hpos, hlow⟩ := hp.accepted he recv type newer
    subst he
    obtain ⟨g, hg, hto, -, rfl⟩ := hposs
    have hc := received_carries recv
    have hle := hi.ttl_le hg hc type
    exact ⟨by rw [hlow.ttl]; omega, .inr ⟨g, hg, hto, lsa, hc, type, hpos, hlow⟩⟩
  obtain ⟨hstored, hsends⟩ := holds_act (S := Stems N w.wire x)
    (fun _ _ _ _ _ _ hc => ⟨(createPacket_ttl hc).2.le, .inl ⟨(createPacket_ttl hc).1.trans (hi.ids x),
      (createPacket_ttl hc).2⟩⟩) hacc (hi.stored x) ha
  constructor
  · exact forall_after (P := fun y d => d.myNodeId = (N.self y).id)
      ((act_static ha).2.trans (hi.ids x)) hi.ids
  · exact forall_after (P := fun y d => Holds (Stems N (w.wire ++ sends x out) y) d.rt)
      (hstored.mono fun a h => h.mono hgrow) fun y => (hi.stored y).mono fun a h => h.mono hgrow
  · intro i g p hg hp type
    simp only [World.after] at hg ⊢
    rcases lt_or_ge i w.wire.length with hlt | hge
    · rw [List.getElem?_append_left hlt] at hg
      rw [List.take_append_of_le_length hlt.le]
      exact hi.wire i g p hg hp type
    · rw [List.getElem?_append_right hge] at hg
      obtain ⟨host, port, bytes, hm, rfl⟩ := mem_sends.mp (List.mem_of_getElem? hg)
      obtain ⟨a, n, hS, hpa⟩ := hsends host port bytes hm p ⟨hp, type⟩
      refine ⟨a, n, hS.mono fun g hg => ?_, hpa⟩
      rw [List.take_append, List.take_of_length_le hge]
      exact List.mem_append_left _ hg
  · refine forall_after (P := fun _ d => CostsNonneg d) (costsNonneg_act ?_ (hi.costs x) ha) hi.costs
    intro r fresh lsa f size he recv type newer
    have hle := (hacc r fresh lsa f size he recv type newer).1
    rw [lsaCost]
    omega

theorem ttlInv_restart {w : World ι} {x : ι} {d : Daemon} (hi : TtlInv N w)
    (h : restart (N.files x) (w.daemon x) = .ok d) :
    TtlInv N ⟨Function.update w.daemon x d, w.wire⟩ := by
  obtain ⟨lines, -, hb⟩ := restart_eq_ok h
  constructor
  · refine (Function.forall_update_iff _ fun y (d : Daemon) => d.myNodeId = (N.self y).id).mpr
      ⟨?_, fun y _ => hi.ids y⟩
    exact (boot_eq_ok hb).2.2.1
  · exact (Function.forall_update_iff _ fun y (d : Daemon) => Holds (Stems N w.wire y) d.rt).mpr
      ⟨holds_boot hb, fun y _ => hi.stored y⟩
  · exact hi.wire
  · exact (Function.forall_update_iff _ fun _ d => CostsNonneg d).mpr
      ⟨costsNonneg_boot hb, fun y _ => hi.costs y⟩

theorem ttlInv_reachable {s : World ι × (ι → Option LSA)}
    (r : ((restartNetwork N ok).restrict TtlStep).Reachable s) : TtlInv N s.1 := by
  refine r.invariant (I := fun s => TtlInv N s.1) ?_ ?_
  · rintro s ⟨⟨hw, hb⟩, -⟩
    refine ⟨fun x => (boot_eq_ok (hb x)).2.2.1, fun x => holds_boot (hb x), fun i g p hg => ?_,
      fun x => costsNonneg_boot (hb x)⟩
    rw [hw] at hg
    cases hg
  · rintro s l s' hi ⟨hp, h⟩
    cases h with
    | pass h => exact ttlInv_pass hi (hp _ _ rfl) h
    | restart h => exact ttlInv_restart hi h

/-- **The TTL is counted down soundly exactly when no LSA with TTL 0 is accepted.** A pass stores what it
accepts with a TTL that is one less, and nothing else changed, exactly if what it accepts has not run out. In
a run of one daemon whose passes all do, every LSA that it sends was created by it, or received before with a
TTL greater by one. In such a run of a network whose daemons may restart, that holds of all LSAs on the wire
and in the tables, and no cost is negative. -/
theorem ttl_sound (N : Net ι) (ok : List UInt8 → Prop) :
    (∀ d r fresh d' out lsa f size, act (.datagram r fresh) d = .ok (d', out) →
      rtRecvfrom d.dl r = .ok (some (lsa, f, size)) → getType lsa.versionTtlType = typeLsa →
        ((.accept lsa.senderNodeId lsa.sequenceNum ∈ out → CountsDown d' lsa) ↔
          TtlPass d (.datagram r fresh))) ∧
    (∀ f ls d ev d' out, ((daemonSystem f).restrict fun d l => TtlPass d l.1).Run ls d → TtlPass d ev →
      act ev d = .ok (d', out) → SendsOnly (FromRun d.dl d.myNodeId (ls ++ [(ev, out)])) out) ∧
    ∀ s, ((restartNetwork N ok).restrict TtlStep).Reachable s → TtlInv N s.1 :=
  ⟨fun _ _ _ _ _ _ _ _ h recv type => countsDown_iff h recv type,
    fun _ _ _ _ _ _ r hp h => (fromRun_act (fromRun_run r) hp h).2, fun _ r => ttlInv_reachable r⟩

/-- The first LSA of node 9, with TTL 0. -/
def spentLsa : LSA := { plainPacket typeLsa 9 with versionTtlType := setTtl (newHeader typeLsa) 0 }

/-- **An LSA with TTL 0 is stored with TTL 255, version 255 and a negative cost.** -/
theorem exists_ttl_raised : ∃ d d' out a e, (daemonSystem forkFiles).Reachable d ∧
    rtRecvfrom d.dl (.got (cstr [66]) spentLsa.bytes) = .ok (some (spentLsa, 2, 20)) ∧
    act (.datagram (.got (cstr [66]) spentLsa.bytes) zeros) d = .ok (d', out) ∧ .accept 9 0 ∈ out ∧
      getTtl spentLsa.versionTtlType = 0 ∧ getVersion spentLsa.versionTtlType = 1 ∧
      storedFor d'.rt 9 = some a ∧ getTtl a.versionTtlType = 255 ∧ getVersion a.versionTtlType = 255 ∧
      entryOf d'.rt 9 = some e ∧ e.cost = -222 ∧ ¬ CountsDown d' spentLsa := by
  have key : (boot forkFiles >>= fun d => act (.datagram (.got (cstr [66]) spentLsa.bytes) zeros) d >>=
      fun p => (.ok (d, p.1, p.2) : Except Fault (Daemon × Daemon × List Effect))).map (fun p =>
        decide (rtRecvfrom p.1.dl (.got (cstr [66]) spentLsa.bytes) = .ok (some (spentLsa, 2, 20))) &&
        decide (.accept 9 0 ∈ p.2.2) &&
        (storedFor p.2.1.rt 9).any (fun a => decide (getTtl a.versionTtlType = 255) &&
          decide (getVersion a.versionTtlType = 255)) &&
        (entryOf p.2.1.rt 9).any fun e => decide (e.cost = -222)) = .ok true := by
    decide +kernel
  obtain ⟨_, hc, hp⟩ := exists_of_map_eq_ok key
  obtain ⟨d, h0, hc⟩ := bind_eq_ok.mp hc
  obtain ⟨⟨d', out⟩, h1, hc⟩ := bind_eq_ok.mp hc
  cases hc
  simp only [Bool.and_eq_true, decide_eq_true_eq] at hp
  obtain ⟨⟨⟨recv, hacc⟩, hstored⟩, hentry⟩ := hp
  obtain ⟨a, ha, hpa⟩ := (Option.any_eq_true _ _).mp hstored
  obtain ⟨e, he, hcost⟩ := (Option.any_eq_true _ _).mp hentry
  simp only [Bool.and_eq_true, decide_eq_true_eq] at hpa hcost
  exact ⟨d, d', out, a, e, .init h0, recv, h1, hacc, by decide, by decide, ha, hpa.1, hpa.2, he, hcost,
    fun h => absurd h.1 (by decide)⟩

end RoutingDaemon
