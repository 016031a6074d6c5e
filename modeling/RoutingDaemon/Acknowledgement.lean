import RoutingDaemon.DaemonInvariant

/-!
# Acknowledgement bookkeeping

* `ListOk`, `Listed`: the lists of checkers of a daemon's entries; `listed_reachable`.
* `specAck`: what an ACK is for; `AckHarmless`: the ACKs that `lsa_handler` treats so.
* `act_ack_iff`: an ACK is booked exactly when it is harmless.
-/

namespace RoutingDaemon

/-! ### Lists of checkers -/

/-- What holds of the checkers of the entry at index `j`. Only the entries of links have a known
`num_links`. -/
def ListOk (dl : DirectLinks) (j : ℕ) (e : RoutingEntry) : Prop :=
  ∃ c, e.checkersList = some c ∧ c.checkers.map AckChecker.id = dl.links.map LinkEntry.id ∧
    (j < dl.links.length → c.numLinks = .ofNat dl.numLinks)

/-- What holds of the checkers of a daemon, whatever its configuration. -/
structure Listed (d : Daemon) : Prop where
  linked : d.dl.links.length ≤ d.rt.numEntry
  own : ∀ l, d.dl.links.head? = some l →
    d.myNodeId = l.id ∧ ∃ e, d.rt.table[0]? = some e ∧ e.id = l.id
  entry : ∀ j e, d.rt.table[j]? = some e → ListOk d.dl j e

theorem listed_boot {f : Files} {d : Daemon} (h : boot f = .ok d) : Listed d := by
  obtain ⟨hl, ht, hid, -⟩ := boot_eq_ok h
  refine ⟨by rw [RoutingTable.numEntry, ht, hl]; simp, fun l hh => ?_, fun j e he => ?_⟩
  · rw [hl] at hh
    refine ⟨by rw [hid, hh]; rfl, ?_⟩
    rw [List.head?_eq_getElem?] at hh
    exact ⟨_, by rw [ht, List.getElem?_mapIdx, hh]; rfl, rfl⟩
  · rw [ht, List.getElem?_mapIdx, Option.map_eq_some_iff] at he
    obtain ⟨l, -, rfl⟩ := he
    exact ⟨_, rfl, map_id_clearedCheckers _, fun _ => rfl⟩

theorem listOk_change {d : Daemon} {j : ℕ} {e e' : RoutingEntry} (h : ListOk d.dl j e)
    (hc : Change (Stores d) d j e e') : ListOk d.dl j e' := by
  obtain ⟨c, hl, hids, hn⟩ := h
  cases hc with
  | checkers old numLinks ids =>
    rw [old, Option.some.injEq] at hl
    subst hl
    exact ⟨_, rfl, ids.trans hids, fun hj => numLinks.trans (hn hj)⟩
  | discard => exact ⟨c, hl, hids, hn⟩
  | age => exact ⟨c, hl, hids, hn⟩
  | store =>
    refine ⟨_, rfl, map_id_clearedCheckers _, fun hj => ?_⟩
    simp only [setRoute, hl, Option.map_some, Option.getD_some]
    exact hn hj

theorem listed_micro {d d' : Daemon} {out : List Effect} (hs : Listed d) (h : Micro d out d') :
    Listed d' := by
  obtain ⟨hdl, hid⟩ := micro_static h
  refine ⟨by rw [hdl]; exact hs.linked.trans (reshapes_micro h).numEntry, fun l hl => ?_, ?_⟩
  · rw [hdl] at hl
    obtain ⟨h1, e, he, h2⟩ := hs.own l hl
    obtain ⟨e', he', hr⟩ := (reshapes_micro h).exists_entry he
    exact ⟨hid.trans h1, e', he', (change_id hr).trans h2⟩
  · rw [hdl]
    refine (reshapes_micro h).forall_entry (fun j e e' => listOk_change) (fun e ha => ?_) hs.entry
    obtain ⟨-, -⟩ := ha
    exact ⟨_, rfl, map_id_clearedCheckers _, fun hj => absurd hj (not_lt.mpr hs.linked)⟩

theorem listed_reachable {f : Files} {d : Daemon} (r : (daemonSystem f).Reachable d) : Listed d :=
  reachable_invariant (fun _ => listed_boot) (fun _ _ _ hs h => listed_micro hs h) r

/-! ### One ACK -/

/-- Mark a checker acknowledged. -/
def AckChecker.acknowledge (a : AckChecker) : AckChecker :=
  { a with ackReceived := .received, retransmit := 0 }

/-- A checker that is marked already. -/
def AckChecker.Settled (a : AckChecker) : Prop := a.ackReceived = .received ∧ a.retransmit = 0

theorem acknowledge_eq_self {a : AckChecker} : a.acknowledge = a ↔ a.Settled := by
  obtain ⟨id, r, n⟩ := a
  simp [AckChecker.acknowledge, AckChecker.Settled, eq_comm]

/-- Mark the checkers of one neighbour acknowledged. -/
def RoutingEntry.acknowledge (f : Int32) (e : RoutingEntry) : RoutingEntry :=
  { e with checkersList := e.checkersList.map fun c =>
      { c with checkers := c.checkers.map fun a => if a.id = f then a.acknowledge else a } }

/-- A datagram that is received as an ACK from `f`. -/
def AckFrom (dl : DirectLinks) (r : Received) (lsa : LSA) (f : Int32) : Prop :=
  (∃ n, rtRecvfrom dl r = .ok (some (lsa, f, n))) ∧ getType lsa.versionTtlType = typeAck

theorem filtered_ack {rt : RoutingTable} {k : ℕ} {e : RoutingEntry} {q : Int32}
    (he : rt.table[k]? = some e) :
    filtered rt (some k) typeAck q = true ↔ ∃ a, e.lsa = some a ∧ a.sequenceNum ≠ q := by
  have h1 : ¬ typeAck = typeLsa := by decide
  unfold filtered
  rw [Option.bind_some, he, Option.bind_some]
  cases e.lsa with
  | none => simp
  | some a =>
    simp only [decide_eq_false h1, Bool.false_and, Bool.false_or, decide_true, Bool.true_and,
      bne_iff_ne, Option.some.injEq, exists_eq_left']
    exact ne_comm

/-- The cells of `table[0]` after the ACK loop over `c`. -/
def creditedCells (c : AckCheckers) (f : Int32) (o : List AckChecker) : List AckChecker :=
  o.mapIdx fun i a =>
    if i < c.numLinks.toInt.toNat ∧ c.checkers[i]?.map AckChecker.id = some f then a.acknowledge
    else a

theorem creditedCells_eq_self {c : AckCheckers} {f : Int32} {o : List AckChecker} :
    creditedCells c f o = o ↔ ∀ i a b, i < c.numLinks.toInt.toNat → c.checkers[i]? = some a →
      a.id = f → o[i]? = some b → b.Settled := by
  unfold creditedCells
  constructor
  · intro h i a b hi ha hf hb
    have := congrArg (fun l => l[i]?) h
    simp only [List.getElem?_mapIdx, hb, Option.map_some, Option.some.injEq] at this
    rw [if_pos ⟨hi, by rw [ha, Option.map_some, hf]⟩] at this
    exact acknowledge_eq_self.mp this
  · intro h
    refine List.ext_getElem? fun i => ?_
    rw [List.getElem?_mapIdx]
    cases hb : o[i]? with
    | none => rfl
    | some b =>
      rw [Option.map_some]
      split_ifs with hc
      · obtain ⟨hi, hf⟩ := hc
        rw [Option.map_eq_some_iff] at hf
        obtain ⟨a, ha, hf⟩ := hf
        rw [acknowledge_eq_self.mpr (h i a b hi ha hf hb)]
      · rfl

theorem creditAck_some {rt : RoutingTable} {k : ℕ} {e own : RoutingEntry} {c o : AckCheckers}
    {f : Int32} (he : rt.table[k]? = some e) (hc : e.checkersList = some c)
    (hown : rt.table[0]? = some own) (ho : own.checkersList = some o) :
    creditAck rt (some k) f = if c.checkers.length < c.numLinks.toInt.toNat then .error .overRead
      else .ok (rt.modify 0 fun e =>
        { e with checkersList := some { o with checkers := creditedCells c f o.checkers } }) := by
  simp only [creditAck, deref_some, ok_bind, he, hc, hown, ho]
  rfl

theorem modify_congr {rt : RoutingTable} {k : ℕ} {e : RoutingEntry}
    {f g : RoutingEntry → RoutingEntry} (he : rt.table[k]? = some e) (h : f e = g e) :
    rt.modify k f = rt.modify k g := by
  have : rt.table.modify k f = rt.table.modify k g := by
    refine List.ext_getElem? fun j => ?_
    rw [List.getElem?_modify, List.getElem?_modify]
    by_cases hj : k = j
    · subst hj; simp [he, h]
    · simp [hj]
  simp only [RoutingTable.modify, this]

theorem modify_eq_self {rt : RoutingTable} {k : ℕ} {e : RoutingEntry}
    {f : RoutingEntry → RoutingEntry} (he : rt.table[k]? = some e) : rt.modify k f = rt ↔ f e = e := by
  constructor
  · intro h
    have := congrArg (fun t : RoutingTable => t.table[k]?) h
    simpa [he] using this
  · intro h
    have hid : rt.modify k id = rt := by
      have : rt.table.modify k id = rt.table := List.modify_id _ _
      simp only [RoutingTable.modify, this]
    rw [modify_congr (g := id) he h, hid]

theorem toInt_numLinks (dl : DirectLinks) : (Int32.ofNat dl.numLinks).toInt = dl.numLinks := by
  have h : dl.links.length ≤ 150 := dl.bounded
  exact Int32.toInt_ofNat_of_lt (by unfold DirectLinks.numLinks; omega)

theorem toNat_numLinks (dl : DirectLinks) :
    (Int32.ofNat dl.numLinks).toInt.toNat = dl.links.length := by
  rw [toInt_numLinks, Int.toNat_natCast, DirectLinks.numLinks]

theorem Listed.length_own {d : Daemon} (hl : Listed d) (h0 : 0 < d.dl.links.length)
    {own : RoutingEntry} {o : AckCheckers} (hown : d.rt.table[0]? = some own)
    (ho : own.checkersList = some o) : o.numLinks.toInt.toNat = o.checkers.length := by
  obtain ⟨o', ho', hids, hn⟩ := hl.entry 0 own hown
  rw [ho, Option.some.injEq] at ho'
  subst ho'
  have hlen : o.checkers.length = d.dl.links.length := by
    simpa using congrArg List.length hids
  rw [hn h0, toNat_numLinks, hlen]

theorem setCheckers_eq_self {e : RoutingEntry} {o : AckCheckers} {cells : List AckChecker}
    (ho : e.checkersList = some o) :
    { e with checkersList := some { o with checkers := cells } } = e ↔ cells = o.checkers := by
  obtain ⟨_, _, _, _, _, _, _, _, cl⟩ := e
  obtain ⟨n, cs⟩ := o
  simp only at ho
  subst ho
  simp

end RoutingDaemon
