import RoutingDaemon.PromptNetwork
import RoutingDaemon.SafePointers

/-!
# False failure detection

* `Awaits`: an entry waits for a neighbour's ACK of the LSA it stores; `awaits_tick`,
  `awaits_handled`: only a send starts to wait.
* `retransmitPhase_quiet`, `timeout_noGiveUp`: who waits for nothing gives nobody up.
* `Covered`: whatever is awaited is on its way, or its ACK is; `Answered`: the deliveries that keep
  it so; `covered_step`.
* `unanswered_waits`: after any other delivery the wait goes on.
* `no_false_detection`: in runs of such deliveries nobody is given up; `exists_false_detection`: in a
  chain of three nodes somebody is.
-/

namespace RoutingDaemon

/-- The checkers of an entry. -/
def RoutingEntry.cells (e : RoutingEntry) : List AckChecker := e.checkersList.elim [] AckCheckers.checkers

/-- The entry waits for the ACK of neighbour `f` for the LSA it stores, which has number `q`. -/
def RoutingEntry.Awaits (e : RoutingEntry) (q f : Int32) : Prop :=
  e.lsa.map LSA.sequenceNum = some q ∧ ∃ a ∈ e.cells, a.id = f ∧ a.ackReceived = .notReceived

/-- The ACK of neighbour `f` for LSA `q` of node `s` is waited for. -/
def Awaits (rt : RoutingTable) (s q f : Int32) : Prop :=
  ∃ e ∈ rt.table, e.id = s ∧ e.Awaits q f

instance (e : RoutingEntry) (q f : Int32) : Decidable (e.Awaits q f) :=
  inferInstanceAs (Decidable (_ ∧ ∃ a ∈ e.cells, _ ∧ _))

instance (rt : RoutingTable) (s q f : Int32) : Decidable (Awaits rt s q f) :=
  inferInstanceAs (Decidable (∃ e ∈ rt.table, _ ∧ _))

/-! ### Changes of a table -/

section Tables

variable {rt rt' : RoutingTable} {s q f : Int32}

theorem Awaits.of_modify {k : ℕ} {g : RoutingEntry → RoutingEntry} (h : Awaits (rt.modify k g) s q f)
    (hid : ∀ e, (g e).id = e.id) (hg : ∀ e, (g e).Awaits q f → e.Awaits q f) : Awaits rt s q f := by
  obtain ⟨e, he, hs, ha⟩ := h
  rcases mem_modify he with he | ⟨e₀, h0, rfl⟩
  · exact ⟨e, he, hs, ha⟩
  · exact ⟨e₀, List.mem_of_getElem? h0, (hid e₀).symm.trans hs, hg e₀ ha⟩

theorem mem_cells_modifyChecker {e : RoutingEntry} {i : ℕ} {g : AckChecker → AckChecker}
    {a : AckChecker} (h : a ∈ (e.modifyChecker i g).cells) :
    a ∈ e.cells ∨ ∃ b, e.cells[i]? = some b ∧ a = g b := by
  cases hc : e.checkersList with
  | none =>
    rw [RoutingEntry.cells, RoutingEntry.modifyChecker, hc] at h
    exact absurd h List.not_mem_nil
  | some c =>
    rw [RoutingEntry.cells, RoutingEntry.modifyChecker, hc] at h
    rw [RoutingEntry.cells, hc]
    obtain ⟨j, hj⟩ := List.mem_iff_getElem?.mp h
    rw [Option.map_some, Option.elim_some, List.getElem?_modify, Option.map_eq_map,
      Option.map_eq_some_iff] at hj
    obtain ⟨b, hb, rfl⟩ := hj
    rw [Option.elim_some]
    split_ifs with hij
    · exact .inr ⟨b, hij ▸ hb, rfl⟩
    · exact .inl (List.mem_of_getElem? hb)

theorem Awaits.of_modifyChecker {k i : ℕ} {g : AckChecker → AckChecker}
    (h : Awaits (modifyChecker rt k i g) s q f) (hid : ∀ a, (g a).id = a.id)
    (hg : ∀ a, (g a).ackReceived = .notReceived → a.ackReceived = .notReceived) :
    Awaits rt s q f := by
  refine h.of_modify (fun _ => rfl) fun e he => ?_
  obtain ⟨hq, a, ha, hf, hn⟩ := he
  rcases mem_cells_modifyChecker ha with ha | ⟨b, hb, rfl⟩
  · exact ⟨hq, a, ha, hf, hn⟩
  · exact ⟨hq, b, List.mem_of_getElem? hb, (hid b).symm.trans hf, hg b hn⟩

theorem storeLsa_not_awaits {fresh : Fresh} {dl : DirectLinks} {lsa : LSA} {size : ℕ}
    {nexthop : Int32} {e : RoutingEntry} : ¬ (storeLsa fresh dl lsa size nexthop e).Awaits q f := by
  rintro ⟨-, a, ha, -, hn⟩
  obtain ⟨l, -, rfl⟩ := List.mem_map.mp ha
  cases hn

theorem Awaits.of_updateEntry {fresh : Fresh} {entry : Option ℕ} {dl : DirectLinks} {lsa : LSA}
    {size : ℕ} {nexthop : Int32} (ht : getType lsa.versionTtlType = typeLsa)
    (h : updateEntry fresh entry rt dl lsa size nexthop = .ok rt') (ha : Awaits rt' s q f) :
    Awaits rt s q f := by
  cases entry with
  | none =>
    rw [updateEntry_none ht] at h
    obtain ⟨e, he, hs, ha⟩ := ha
    rw [getElem?_push h] at he
    rcases List.mem_append.mp he with he | he
    · exact ⟨e, he, hs, ha⟩
    · rw [List.mem_singleton.mp he] at ha
      exact absurd ha storeLsa_not_awaits
  | some k =>
    rw [updateEntry_some ht] at h
    cases h
    exact ha.of_modify (fun _ => rfl) fun e he => absurd he storeLsa_not_awaits

end Tables

/-! ### Small steps -/

section Daemons

variable {d d' : Daemon} {out : List Effect} {s q f : Int32}

/-- A packet of this type, originator and number is sent to neighbour `f`. -/
def Sent (dl : DirectLinks) (out : List Effect) (type : BitVec 32) (s q f : Int32) : Prop :=
  ∃ a l size, rtSendto a l size ∈ out ∧ l ∈ dl.links ∧ l.id = f ∧ sizeofLsa ≤ size ∧
    getType a.versionTtlType = type ∧ a.senderNodeId = s ∧ a.sequenceNum = q

theorem Sent.mono {dl : DirectLinks} {xs : List Effect} {type : BitVec 32} (hx : out ⊆ xs)
    (h : Sent dl out type s q f) : Sent dl xs type s q f := by
  obtain ⟨a, l, size, hm, h⟩ := h
  exact ⟨a, l, size, hx hm, h⟩

theorem Sound.cell_id (hs : Sound d) {k i : ℕ} {e : RoutingEntry} {b : AckChecker} {l : LinkEntry}
    (he : d.rt.table[k]? = some e) (hb : e.cells[i]? = some b) (hl : d.dl.links[i]? = some l) :
    b.id = l.id := by
  obtain ⟨c, hc, hids⟩ := (hs.entry k e he).checkers
  rw [RoutingEntry.cells, hc, Option.elim_some] at hb
  have h := congrArg (fun ids => ids[i]?) hids
  simpa [hb, hl] using h

theorem awaits_tick (hs : Sound d) (h : Tick d out d') (ha : Awaits d'.rt s q f) :
    Awaits d.rt s q f ∨ Sent d.dl out typeLsa s q f := by
  cases h with
  | own packet entry update count =>
    exact .inl (ha.of_updateEntry (Stores.own packet).type update)
  | @send slot k i l e a ok =>
    -- the checkers are those of the entry that stores the LSA
    have hk : k = slot := by
      have h1 := hs.getRoutingEntry_stored ok.entry ok.stored
      rw [ok.checkers, Option.some.injEq] at h1
      exact h1
    subst hk
    obtain ⟨e', he', hid, hq, c, hc, hf, hn⟩ := ha
    rcases mem_modify he' with he' | ⟨e₀, h0, rfl⟩
    · exact .inl ⟨e', he', hid, hq, c, hc, hf, hn⟩
    rw [ok.entry, Option.some.injEq] at h0
    subst h0
    rcases mem_cells_modifyChecker hc with hc | ⟨b, hb, rfl⟩
    · exact .inl ⟨e, List.mem_of_getElem? ok.entry, hid, hq, c, hc, hf, hn⟩
    right
    obtain ⟨m, e₂, hlink, -⟩ := ok.alive
    obtain ⟨h1, h2, h3⟩ := (hs.entry k e ok.entry).sender a ok.stored
    have hl := (mem_neighbours.mp hlink.link).2
    refine ⟨a, l, e.lsaSize, List.mem_singleton_self _, List.mem_of_getElem? hl,
      (hs.cell_id ok.entry hb hl).symm.trans hf, ?_, h2, h1.trans hid, ?_⟩
    · rw [h3, length_bytes]
      exact Nat.le_add_right _ _
    · have hq' : e.lsa.map LSA.sequenceNum = some q := hq
      rw [ok.stored, Option.map_some, Option.some.injEq] at hq'
      exact hq'
  | resend ok checker pending budget => exact .inl (ha.of_modifyChecker (fun _ => rfl) fun _ h => h)
  | giveUp link checker pending budget =>
    have h1 := ha.of_modifyChecker (fun _ => rfl) (fun _ h => by cases h)
    exact .inl (h1.of_modify (fun _ => rfl) fun e he => by cases he.1)
  | age pos entry up more => exact .inl (ha.of_modify (fun _ => rfl) fun e he => he)
  | expire pos entry last => exact .inl (ha.of_modify (fun _ => rfl) fun e he => by cases he.1)
  | clock => exact .inl ha

theorem awaits_trail (hs : Sound d) (h : Trail Tick d out d') (ha : Awaits d'.rt s q f) :
    Awaits d.rt s q f ∨ Sent d.dl out typeLsa s q f := by
  induction h with
  | refl => exact .inl ha
  | tail r h1 ih =>
    have hdl := r.preserves (I := fun x => x.dl = d.dl)
      (fun _ _ _ hx h => (micro_static (.tick h)).1.trans hx) rfl
    rcases awaits_tick (sound_trail hs r).1 h1 ha with h2 | h2
    · exact (ih h2).imp_right (Sent.mono (List.subset_append_left _ _))
    · rw [hdl] at h2
      exact .inr (h2.mono (List.subset_append_right _ _))

theorem awaits_handled {fresh : Fresh} {lsa : LSA} {g : Int32} {size : ℕ}
    (h : Handled d fresh lsa g size out d') (ha : Awaits d'.rt s q f) : Awaits d.rt s q f := by
  cases h with
  | ignored => exact ha
  | accepted type newer link update objects =>
    exact ha.of_updateEntry (by rw [acceptedLsa_type, type]) update
  | credited type current update =>
    obtain ⟨_, _, c, own, o, -, -, -, hown, ho, -, rfl⟩ := creditAck_eq_ok update
    obtain ⟨e, he, hid, ha⟩ := ha
    rcases mem_modify he with he | ⟨e₀, h0, rfl⟩
    · exact ⟨e, he, hid, ha⟩
    rw [hown, Option.some.injEq] at h0
    subst h0
    refine ⟨own, List.mem_of_getElem? hown, hid, ha.1, ?_⟩
    obtain ⟨-, a, hm, hf, hn⟩ := ha
    obtain ⟨i, hi⟩ := List.mem_iff_getElem?.mp hm
    rw [RoutingEntry.cells, Option.elim_some, List.getElem?_mapIdx, Option.map_eq_some_iff] at hi
    obtain ⟨b, hb, rfl⟩ := hi
    rw [RoutingEntry.cells, ho]
    split_ifs at hf hn with hc
    exact ⟨b, List.mem_of_getElem? hb, hf, hn⟩

theorem sent_ack {fresh : Fresh} {a : LSA} {size : ℕ} (hs : sizeofLsa ≤ size)
    (h : Handled d fresh a f size out d') (ht : getType a.versionTtlType = typeLsa)
    (hn : filtered d.rt (getRoutingEntry d.rt a.senderNodeId) typeLsa a.sequenceNum ≠ true) :
    Sent d.dl out typeAck a.senderNodeId a.sequenceNum f := by
  cases h with
  | ignored why =>
    rcases why with hf | ⟨hlsa, -⟩
    · rw [ht] at hf
      exact absurd hf hn
    · exact absurd ht hlsa
  | accepted type newer link update objects =>
    refine ⟨_, _, size, List.mem_cons_self, List.mem_of_find?_eq_some link, ?_, hs,
      getType_setType_ack _, rfl, rfl⟩
    simpa using List.find?_some link
  | credited type current update => exact absurd (ht.symm.trans type) (by decide)

theorem Sound.own_unique (hs : Sound d) {e : RoutingEntry} (he : e ∈ d.rt.table)
    (hid : e.id = d.myNodeId) : d.rt.table[0]? = some e := by
  obtain ⟨j, hj⟩ := List.mem_iff_getElem?.mp he
  have h := getRoutingEntry_of_nodup hs.nodup hj
  rw [hid, hs.getRoutingEntry_own, Option.some.injEq] at h
  rw [h, hj]

theorem not_awaits_own (hs : Sound d) (hl : Listed d) {fresh : Fresh} {r : Received} {lsa : LSA}
    {size : ℕ} (recv : rtRecvfrom d.dl r = .ok (some (lsa, f, size)))
    (h : Handled d fresh lsa f size out d') (ht : getType lsa.versionTtlType = typeAck)
    (hid : lsa.senderNodeId = d.myNodeId) : ¬ Awaits d'.rt d.myNodeId lsa.sequenceNum f := by
  have hne : typeAck ≠ typeLsa := by decide
  have hs' : Sound d' := sound_micro hs (.receive recv h)
  intro hw
  cases h with
  | ignored why =>
    rcases why with hf | ⟨-, hack⟩
    · -- another LSA is stored
      obtain ⟨e, he, hme, hq, -⟩ := hw
      have h0 := hs.own_unique he hme
      rw [hid, hs.getRoutingEntry_own, ht, filtered_ack h0] at hf
      obtain ⟨a, ha, hne⟩ := hf
      rw [ha, Option.map_some, Option.some.injEq] at hq
      exact hne hq
    · exact hack ht
  | accepted type newer link update objects => exact hne (ht.symm.trans type)
  | credited type current update =>
    obtain ⟨k, e, c, own, o, hk, he, hc, hown, ho, -, rfl⟩ := creditAck_eq_ok update
    -- the list of the own entry is read and written
    rw [hid, hs.getRoutingEntry_own, Option.some.injEq] at hk
    subst hk
    rw [he, Option.some.injEq] at hown
    subst hown
    rw [hc, Option.some.injEq] at ho
    subst ho
    obtain ⟨l₀, hl₀, -⟩ := hs.link_zero
    have hlen := hl.length_own (Nat.zero_lt_of_lt (List.getElem?_eq_some_iff.mp hl₀).1) he hc
    obtain ⟨e', he', hme, -, a, ha, hf, hn⟩ := hw
    have h0 : (d.rt.modify 0 _).table[0]? = some e' := hs'.own_unique he' hme
    rw [getElem?_modify, he, Option.map_some, if_pos rfl, Option.some.injEq] at h0
    subst h0
    obtain ⟨i, hi⟩ := List.mem_iff_getElem?.mp ha
    rw [RoutingEntry.cells, Option.elim_some, List.getElem?_mapIdx, Option.map_eq_some_iff] at hi
    obtain ⟨b, hb, rfl⟩ := hi
    split_ifs at hf hn with hcond
    · refine hcond ⟨?_, by rw [hb, Option.map_some, hf]⟩
      rw [hlen]
      exact (List.getElem?_eq_some_iff.mp hb).1

/-! ### Timeouts -/

theorem retransmitLinks_quiet {slot k size : ℕ} {forwarderId : Int32} {ls : List (LinkEntry × ℕ)}
    {rt rt' : RoutingTable} {ht ht' : LisoHash}
    (hq : ∀ p ∈ ls, ∀ c, getChecker rt k p.2 = .ok c → c.ackReceived = .received)
    (h : retransmitLinks slot k size forwarderId ls rt ht = .ok (rt', ht', out)) :
    rt' = rt ∧ ht' = ht ∧ out = [] := by
  induction ls with
  | nil =>
    cases h
    exact ⟨rfl, rfl, rfl⟩
  | cons p ls ih =>
    have ih := ih fun p hp => hq p (List.mem_cons_of_mem _ hp)
    simp only [retransmitLinks] at h
    split_ifs at h
    · exact ih h
    · obtain ⟨c, hc, h⟩ := bind_eq_ok.mp h
      rw [hq p List.mem_cons_self c hc] at h
      exact ih h

/-- A daemon waits for none of its neighbours. -/
def Calm (d : Daemon) : Prop := ∀ s q, ∀ l ∈ d.dl.links, ¬ Awaits d.rt s q l.id

theorem retransmitMissing_quiet (hs : Sound d) (hw : Calm d) {slot size : ℕ} {forwarderId : Int32}
    {rt' : RoutingTable} {gol' : LisoHash}
    (h : retransmitMissing slot d.dl d.rt size forwarderId d.gol = .ok (rt', gol', out)) :
    rt' = d.rt ∧ gol' = d.gol ∧ out = [] := by
  unfold retransmitMissing at h
  split at h
  · cases h
    exact ⟨rfl, rfl, rfl⟩
  · rename_i lsa hlsa
    obtain ⟨k, hk, h⟩ := bind_eq_ok.mp h
    obtain ⟨e, he, hl⟩ := Option.bind_eq_some_iff.mp hlsa
    rw [deref_eq_ok, hs.getRoutingEntry_stored he hl, Option.some.injEq] at hk
    subst hk
    refine retransmitLinks_quiet (fun p hp c hc => ?_) h
    obtain ⟨e', c', he', hc', hi⟩ := getChecker_eq_ok.mp hc
    rw [he, Option.some.injEq] at he'
    subst he'
    have hlink := (mem_neighbours.mp hp).2
    have hi' : e.cells[p.2]? = some c := by rw [RoutingEntry.cells, hc']; exact hi
    cases ha : c.ackReceived with
    | received => rfl
    | notReceived =>
      refine absurd ?_ (hw e.id lsa.sequenceNum p.1 (List.mem_of_getElem? hlink))
      exact ⟨e, List.mem_of_getElem? he, rfl, by rw [hl]; rfl, c, List.mem_of_getElem? hi',
        hs.cell_id he hi' hlink, ha⟩

theorem retransmitEntries_quiet (hs : Sound d) (hw : Calm d) {is : List ℕ} {rt' : RoutingTable}
    {gol' : LisoHash} (h : retransmitEntries d.dl is d.rt d.gol = .ok (rt', gol', out)) :
    rt' = d.rt ∧ gol' = d.gol ∧ out = [] := by
  induction is generalizing out with
  | nil =>
    cases h
    exact ⟨rfl, rfl, rfl⟩
  | cons i is ih =>
    obtain ⟨e, -, h⟩ := bind_eq_ok.mp h
    obtain ⟨⟨rt₁, gol₁, out₁⟩, h1, h⟩ := bind_eq_ok.mp h
    obtain ⟨⟨rt₂, gol₂, out₂⟩, h2, h⟩ := bind_eq_ok.mp h
    cases h
    obtain ⟨rfl, rfl, rfl⟩ := retransmitMissing_quiet hs hw h1
    obtain ⟨rfl, rfl, rfl⟩ := ih h2
    exact ⟨rfl, rfl, rfl⟩

/-- **A retransmission round of a calm daemon does nothing.** -/
theorem retransmitPhase_quiet (hs : Sound d) (hw : Calm d) (h : retransmitPhase d = .ok (d', out)) :
    out = [] := by
  unfold retransmitPhase at h
  split_ifs at h
  · obtain ⟨⟨rt, gol, out⟩, h1, h⟩ := bind_eq_ok.mp h
    cases h
    exact (retransmitEntries_quiet hs hw h1).2.2
  · cases h
    rfl

/-- **A timeout of a calm daemon gives nobody up.** -/
theorem timeout_noGiveUp {fresh : Fresh} (hs : Sound d) (hw : Calm d)
    (h : timeout fresh d = .ok (d', out)) (n : Int32) : .giveUp n ∉ out := by
  obtain ⟨⟨d₁, out₁⟩, h1, h⟩ := bind_eq_ok.mp h
  obtain ⟨⟨d₂, out₂⟩, h2, h⟩ := bind_eq_ok.mp h
  cases h
  unfold floodPhase at h1
  split_ifs at h1
  · -- the counter is zero after the flood tick, so no retransmission follows
    obtain ⟨hout, hi⟩ := floodTick_noGiveUp h1 n
    rw [retransmitPhase, if_neg (fun h => h.1 hi)] at h2
    cases h2
    simpa using hout
  · cases h1
    rw [retransmitPhase_quiet hs hw h2]
    exact List.not_mem_nil

end Daemons

/-! ### The network -/

section Network

variable {ι : Type} {N : Net ι} {w w' : World ι} {x y : ι} {s q : Int32} {type : BitVec 32}
  {out : List Effect}

/-- A datagram from `x` to `y` brings a packet of this type, originator and number. -/
def Datagram.Brings (N : Net ι) (g : Datagram ι) (x y : ι) (type : BitVec 32) (s q : Int32) : Prop :=
  g.src = x ∧ g.To N y ∧ ∃ a, g.Carries a ∧ getType a.versionTtlType = type ∧ a.senderNodeId = s ∧
    a.sequenceNum = q

theorem Sent.brings (hv : N.Valid) (hl : Lawful N w)
    (h : Sent (w.daemon x).dl out type s q (N.self y).id) :
    ∃ g ∈ sends x out, g.Brings N x y type s q := by
  obtain ⟨a, l, size, hm, hlink, hid, hs, ht, ha, hq⟩ := h
  obtain ⟨z, rfl⟩ := hl.exists_node hlink
  obtain rfl : z = y := hv.ids hid
  exact ⟨_, mem_sends.mpr ⟨_, _, _, hm, rfl⟩, rfl, ⟨rfl, rfl⟩, _, carries_rtSendto a hs, ht, ha, hq⟩

/-- Whatever is awaited is on its way, or its ACK is. -/
def Covered (N : Net ι) (w : World ι) : Prop :=
  ∀ x y s q, Awaits (w.daemon x).rt s q (N.self y).id →
    (∃ g ∈ w.wire, g.Brings N x y typeLsa s q) ∨ ∃ g ∈ w.wire, g.Brings N y x typeAck s q

/-- A packet that is read is acknowledged as it should be: an ACK for another node's LSA finds its
checker, in the entry of that node, not waiting for it, and an LSA that is dropped is not waited for
by the neighbour that sent it. -/
def Answered (N : Net ι) (w : World ι) (l : ι × Event × List Effect) : Prop :=
  ∀ r fresh a f size, l.2.1 = .datagram r fresh →
    rtRecvfrom (w.daemon l.1).dl r = .ok (some (a, f, size)) →
    (getType a.versionTtlType = typeAck → a.senderNodeId ≠ (N.self l.1).id →
      ¬ Awaits (w.daemon l.1).rt a.senderNodeId a.sequenceNum f) ∧
    (getType a.versionTtlType = typeLsa →
      filtered (w.daemon l.1).rt (getRoutingEntry (w.daemon l.1).rt a.senderNodeId) typeLsa
        a.sequenceNum = true →
      ∀ z, (N.self z).id = f → ¬ Awaits (w.daemon z).rt a.senderNodeId a.sequenceNum (N.self l.1).id)

theorem Datagram.To.unique (hv : N.Valid) {g : Datagram ι} (hx : g.To N x) (hy : g.To N y) : x = y :=
  hv.hosts (hx.1.symm.trans hy.1)

theorem Covered.calm (hl : Lawful N w) (hc : Covered N w) (hq : Quiet N w x) :
    Calm (w.daemon x) := by
  intro s q l hlink ha
  obtain ⟨y, rfl⟩ := hl.exists_node hlink
  rcases hc x y s q ha with ⟨g, hg, hsrc, -⟩ | ⟨g, hg, -, hto, a, hca, ht, -⟩
  · exact (hq g hg).1 hsrc
  · exact (hq g hg).2 hto a hca ht

variable [DecidableEq ι]

theorem Covered.after (hv : N.Valid) (hl : Lawful N w) (hc : Covered N w) {d : Daemon}
    (h : ∀ s q f, Awaits d.rt s q f →
      Awaits (w.daemon x).rt s q f ∨ Sent (w.daemon x).dl out typeLsa s q f) :
    Covered N (w.after x out d) := by
  have keep : ∀ {x' y s q}, Awaits (w.daemon x').rt s q (N.self y).id →
      (∃ g ∈ (w.after x out d).wire, g.Brings N x' y typeLsa s q) ∨
        ∃ g ∈ (w.after x out d).wire, g.Brings N y x' typeAck s q := by
    intro x' y s q ha
    refine (hc x' y s q ha).imp ?_ ?_ <;> rintro ⟨g, hg, hb⟩ <;>
      exact ⟨g, List.mem_append_left _ hg, hb⟩
  intro x' y s q ha
  by_cases hx : x' = x
  · subst hx
    rw [after_daemon_self] at ha
    rcases h s q _ ha with h1 | h1
    · exact keep h1
    · obtain ⟨g, hg, hb⟩ := h1.brings hv hl
      exact .inl ⟨g, List.mem_append_right _ hg, hb⟩
  · rw [after_daemon_of_ne hx] at ha
    exact keep ha

theorem covered_timeout (hv : N.Valid) (hl : Lawful N w) (hc : Covered N w) {fresh : Fresh}
    {d : Daemon} (h : act (.timeout fresh) (w.daemon x) = .ok (d, out)) :
    Covered N (w.after x out d) :=
  hc.after hv hl fun _ _ _ ha => awaits_trail (hl.sound x) (timeout_trail h) ha

theorem covered_request (hv : N.Valid) (hl : Lawful N w) (hc : Covered N w) {c : TcpConnection}
    {uri : List UInt8} {opened : Bool} {d : Daemon}
    (h : act (.request c uri opened) (w.daemon x) = .ok (d, out)) :
    Covered N (w.after x out d) := by
  refine hc.after hv hl fun s q f ha => .inl ?_
  obtain ⟨-, rfl | ⟨_, _, _, _, -, rfl⟩⟩ := request_cases h <;> exact ha

omit [DecidableEq ι] in
theorem mem_eraseIdx_of_ne {wire : List (Datagram ι)} {k : ℕ} {g g' : Datagram ι}
    (hk : wire[k]? = some g) (hg : g' ∈ wire) (hne : g' ≠ g) : g' ∈ wire.eraseIdx k := by
  obtain ⟨j, hj⟩ := List.mem_iff_getElem?.mp hg
  refine List.mem_eraseIdx_iff_getElem?.mpr ⟨j, ?_, hj⟩
  rintro rfl
  rw [hk, Option.some.injEq] at hj
  exact hne hj.symm

theorem covered_deliver (hv : N.Valid) (hl : Lawful N w) (hli : Listed (w.daemon x))
    (hc : Covered N w) {k : ℕ} {g : Datagram ι} {fresh : Fresh} {d : Daemon}
    (next : w.wire[k]? = some g) (here : g.To N x)
    (h : act (.datagram (g.received N) fresh) (w.daemon x) = .ok (d, out))
    (hans : Answered N w (x, .datagram (g.received N) fresh, out)) :
    Covered N (World.after ⟨w.daemon, w.wire.eraseIdx k⟩ x out d) := by
  obtain ⟨a, f, size, recv, hh⟩ := receive_handled h
  obtain ⟨hcar, hnbr, rfl⟩ := received_from hv hl recv
  obtain ⟨hack, hlsa⟩ := hans _ _ _ _ _ rfl recv
  have hself : g.src ≠ x := by
    rintro rfl
    exact (List.nodup_cons.mp (hv.simple _)).1 hnbr
  have stay : ∀ g' ∈ w.wire, g' ≠ g → g' ∈ w.wire.eraseIdx k ++ sends x out :=
    fun g' hg' hne => List.mem_append_left _ (mem_eraseIdx_of_ne next hg' hne)
  intro x' y s q ha
  by_cases hx : x' = x
  · subst hx
    rw [after_daemon_self] at ha
    have hold := awaits_handled hh ha
    rcases hc x' y s q hold with ⟨g', hg', hb⟩ | ⟨g', hg', hb⟩
    · exact .inl ⟨g', stay g' hg' fun e => hself (e ▸ hb.1), hb⟩
    · refine .inr ⟨g', stay g' hg' fun e => ?_, hb⟩
      -- the ACK that is read ends the wait
      subst e
      obtain ⟨rfl, -, b, hcb, ht, rfl, rfl⟩ := hb
      obtain rfl := hcb.unique hcar
      by_cases hown : b.senderNodeId = (N.self x').id
      · rw [← hl.myNodeId] at hown
        exact not_awaits_own (hl.sound x') hli recv hh ht hown (hown ▸ ha)
      · exact hack ht hown hold
  · rw [after_daemon_of_ne hx] at ha
    rcases hc x' y s q ha with ⟨g', hg', hb⟩ | ⟨g', hg', hb⟩
    · by_cases e : g' = g
      · -- the LSA that is read is acknowledged
        subst e
        obtain ⟨rfl, hto, b, hcb, ht, rfl, rfl⟩ := hb
        obtain rfl := hto.unique hv here
        obtain rfl := hcb.unique hcar
        have hn := fun hf => hlsa ht hf g'.src rfl ha
        obtain ⟨g₂, hg₂, hb₂⟩ := (sent_ack (rtRecvfrom_size recv) hh ht hn).brings hv hl
        exact .inr ⟨g₂, List.mem_append_right _ hg₂, hb₂⟩
      · exact .inl ⟨g', stay g' hg' e, hb⟩
    · refine .inr ⟨g', stay g' hg' fun e => ?_, hb⟩
      subst e
      exact hx (hb.2.1.unique hv here)

/-- **Every answered step keeps what is awaited covered.** -/
theorem covered_step (hv : N.Valid) (r : (promptNetwork N).Reachable w) (hc : Covered N w)
    {l : ι × Event × List Effect} (h : PromptStep N w l w') (hans : Answered N w l) :
    Covered N w' := by
  have hl := lawful_prompt hv r
  cases h with
  | timeout quiet h => exact covered_timeout hv hl hc h
  | deliver next first here h =>
    exact covered_deliver hv hl (listed_reachable (prompt_daemon r _)) hc next here h hans
  | request h => exact covered_request hv hl hc h

theorem covered_init {w : World ι} (h : (promptNetwork N).init w) : Covered N w := by
  intro x y s q ha
  obtain ⟨e, he, -, hq, -⟩ := ha
  rw [(boot_eq_ok (h.2 x)).2.1] at he
  obtain ⟨i, l, rfl⟩ := List.mem_mapIdx.mp he
  cases hq

/-- **What is awaited is covered** in every state that answered steps reach. -/
theorem covered_reachable (hv : N.Valid)
    (r : ((promptNetwork N).restrict (Answered N)).Reachable w) : Covered N w := by
  obtain ⟨ls, r⟩ := r
  have h0 : ∀ w, ((promptNetwork N).restrict (Answered N)).init w → Covered N w :=
    fun w h => covered_init h
  refine r.traceInvariant (I := fun _ w => Covered N w) h0 fun _ w l w' hr hc h => ?_
  exact covered_step hv hr.of_restrict hc h.2 h.1

/-- **No false failure detection.** In a network without faults, in every run whose packets are all
acknowledged as they should be, no neighbour is given up. -/
theorem no_false_detection (hv : N.Valid) {ls : List (ι × Event × List Effect)}
    (r : ((promptNetwork N).restrict (Answered N)).Run ls w) :
    ∀ l ∈ ls, ∀ n, .giveUp n ∉ l.2.2 := by
  intro l hl n
  obtain ⟨w₁, w₂, hr, -, h⟩ := r.exists_of_mem hl
  have hlaw := lawful_prompt hv hr.of_restrict
  cases h with
  | timeout quiet h =>
    exact timeout_noGiveUp (hlaw.sound _) ((covered_reachable hv hr).calm hlaw quiet) h n
  | deliver next first here h =>
    obtain ⟨_, _, _, -, hh⟩ := receive_handled h
    cases hh <;> simp [rtSendto]
  | request h =>
    obtain ⟨rfl, -⟩ := request_cases h
    exact List.not_mem_nil

omit [DecidableEq ι] in
/-- An ACK for another node's LSA leaves its checker waiting. -/
theorem Awaits.credited (hs : Sound (w.daemon x)) {d : Daemon} {fresh : Fresh} {a : LSA} {f : Int32}
    {size : ℕ} (h : Handled (w.daemon x) fresh a f size out d)
    (ht : getType a.versionTtlType = typeAck) {s q n : Int32} (hne : s ≠ (w.daemon x).myNodeId)
    (ha : Awaits (w.daemon x).rt s q n) : Awaits d.rt s q n := by
  cases h with
  | ignored => exact ha
  | accepted type newer link update objects => exact absurd (ht.symm.trans type) (by decide)
  | credited type current update =>
    obtain ⟨_, _, _, _, _, -, -, -, -, -, -, rfl⟩ := creditAck_eq_ok update
    obtain ⟨e, he, hid, ha⟩ := ha
    obtain ⟨j, hj⟩ := List.mem_iff_getElem?.mp he
    have h0 : 0 ≠ j := by
      rintro rfl
      obtain ⟨e₀, he₀, hid₀, -⟩ := hs.own_entry
      rw [hj, Option.some.injEq] at he₀
      exact hne (hid.symm.trans (he₀ ▸ hid₀))
    refine ⟨e, List.mem_of_getElem? (i := j) ?_, hid, ha⟩
    rw [getElem?_modify, hj, Option.map_some, if_neg h0]

/-- **A packet that is not acknowledged as it should be** was awaited, or its LSA was, and after it
was read the wait goes on. -/
theorem unanswered_waits (hv : N.Valid) (hl : Lawful N w) {l : ι × Event × List Effect}
    (h : PromptStep N w l w') (hn : ¬ Answered N w l) :
    ∃ g ∈ w.wire, ∃ x y s q, Awaits (w'.daemon x).rt s q (N.self y).id ∧
      (g.Brings N x y typeLsa s q ∨ g.Brings N y x typeAck s q) := by
  cases h with
  | timeout quiet h => exact absurd (fun _ _ _ _ _ he => by cases he) hn
  | request h => exact absurd (fun _ _ _ _ _ he => by cases he) hn
  | @deliver x k g fresh d out next first here h =>
    obtain ⟨a, f, size, recv, hh⟩ := receive_handled h
    obtain ⟨hcar, hnbr, rfl⟩ := received_from hv hl recv
    have hg : g ∈ w.wire := List.mem_of_getElem? next
    by_contra hno
    refine hn fun r fresh a' f size he recv' => ?_
    cases he
    rw [recv] at recv'
    cases recv'
    constructor
    · intro ht hne ha
      refine hno ⟨g, hg, x, g.src, _, _, ?_, .inr ⟨rfl, here, a, hcar, ht, rfl, rfl⟩⟩
      rw [after_daemon_self]
      exact ha.credited (hl.sound x) hh ht (by rw [hl.myNodeId]; exact hne)
    · intro ht hf z hz ha
      obtain rfl : z = g.src := hv.ids hz
      have hself : g.src ≠ x := fun e => (List.nodup_cons.mp (hv.simple x)).1 (e ▸ hnbr)
      refine hno ⟨g, hg, g.src, x, _, _, ?_, .inl ⟨rfl, here, a, hcar, ht, rfl, rfl⟩⟩
      rw [after_daemon_of_ne hself]
      exact ha

end Network

/-! ### Two runs -/

instance {ι : Type} [Fintype ι] (N : Net ι) (w : World ι) (l : ι × Event × List Effect) :
    Decidable (Answered N w l) :=
  match h : l.2.1 with
  | .timeout _ => isTrue fun _ _ _ _ _ he => by rw [h] at he; cases he
  | .request .. => isTrue fun _ _ _ _ _ he => by rw [h] at he; cases he
  | .datagram r fresh =>
    match hr : rtRecvfrom (w.daemon l.1).dl r with
    | .error _ => isTrue fun _ _ _ _ _ he hp => by rw [h] at he; cases he; rw [hr] at hp; cases hp
    | .ok none => isTrue fun _ _ _ _ _ he hp => by rw [h] at he; cases he; rw [hr] at hp; cases hp
    | .ok (some (a, f, size)) =>
      decidable_of_iff ((getType a.versionTtlType = typeAck → a.senderNodeId ≠ (N.self l.1).id →
          ¬ Awaits (w.daemon l.1).rt a.senderNodeId a.sequenceNum f) ∧
        (getType a.versionTtlType = typeLsa →
          filtered (w.daemon l.1).rt (getRoutingEntry (w.daemon l.1).rt a.senderNodeId) typeLsa
            a.sequenceNum = true → ∀ z, (N.self z).id = f →
              ¬ Awaits (w.daemon z).rt a.senderNodeId a.sequenceNum (N.self l.1).id))
        ⟨fun ha _ _ _ _ _ he hp => by rw [h] at he; cases he; rw [hr] at hp; cases hp; exact ha,
          fun ha => ha r fresh a f size h hr⟩

/-- One step of a schedule whose packets are acknowledged as they should be. -/
def World.answeredMove {ι : Type} [DecidableEq ι] [Fintype ι] (N : Net ι) (w : World ι)
    (m : Move ι) : Option ((ι × Event × List Effect) × World ι) := do
  let p ← w.promptMove N m
  if Answered N w p.1 then some p else none

theorem step_answeredMove {ι : Type} [DecidableEq ι] [Fintype ι] {N : Net ι} {w w' : World ι}
    {m : Move ι} {l : ι × Event × List Effect} (h : w.answeredMove N m = some (l, w')) :
    ((promptNetwork N).restrict (Answered N)).step w l w' := by
  obtain ⟨p, hp, h⟩ := Option.bind_eq_some_iff.mp h
  split_ifs at h with ha
  cases h
  exact ⟨ha, step_promptMove hp⟩

/-- Two nodes, linked to each other. -/
def pairNet : Net Bool where
  self x := if x then linkOn 2 66 else linkOn 1 65
  nbrs x := [!x]
  hostname _ := cstr [104]
  lines _ := []
  filefile _ := []

theorem pairNet_valid : pairNet.Valid where
  ids := by decide
  hosts := by decide
  simple := by decide

theorem pairNet_boots : ∀ x, (boot (pairNet.files x)).toOption.isSome = true := by decide +kernel

/-- Both nodes of a pair flood, acknowledge, and pass all their retransmission rounds. -/
def pairRun : List (Move Bool) :=
  let ticks (x : Bool) (n : ℕ) := List.replicate n (Move.tick x)
  ticks false 6 ++ [.deliver true 0, .deliver false 0] ++ ticks true 6 ++
    [.deliver false 0, .deliver true 0] ++ ticks false 4 ++ ticks true 4

theorem no_false_detection_pairNet : ∃ ls w,
    ((promptNetwork pairNet).restrict (Answered pairNet)).Run ls w ∧ ls.length = 24 ∧
      ∀ l ∈ ls, ∀ n, .giveUp n ∉ l.2.2 := by
  have key : (System.follow (World.answeredMove pairNet) pairRun (pairNet.start pairNet_boots)).map
      (fun p => decide (p.1.length = 24)) = some true := by decide +kernel
  obtain ⟨⟨ls, w⟩, h, hp⟩ := Option.map_eq_some_iff.mp key
  have h0 : ((promptNetwork pairNet).restrict (Answered pairNet)).init _ :=
    prompt_init_start pairNet_boots
  have r := (System.Run.init h0).follow (fun _ _ _ _ => step_answeredMove) h
  exact ⟨ls, w, r, of_decide_eq_true hp, no_false_detection pairNet_valid r⟩

theorem chainNet_symmetric : chainNet.Symmetric := by unfold Net.Symmetric; decide

/-- All nodes time out in turn, and everything sent is handled at once. In the sixth round they
flood, and node 2 forwards the LSA of node 1 to node 3, which acknowledges it. -/
def lockstepRun : List (Move (Fin 3)) :=
  let round := [Move.tick 0, .tick 1, .tick 2]
  let flood := [Move.tick 0, .deliver 1 0, .deliver 0 0,
    .tick 1, .deliver 0 0, .deliver 2 0, .deliver 2 0, .deliver 1 0, .deliver 1 0, .deliver 1 0,
    .tick 2, .deliver 1 0, .deliver 2 0]
  let again := [Move.tick 0, .tick 1, .deliver 2 0, .tick 2]
  (List.replicate 5 round).flatten ++ flood ++ (List.replicate 3 again).flatten ++ [.tick 0, .tick 1]

/-- In the tenth round node 2 gives node 3 up. -/
theorem exists_false_detection : ∃ N : Net (Fin 3), N.Valid ∧ N.Symmetric ∧
    ∃ ls w, (promptNetwork N).Run ls w ∧ ∃ l ∈ ls, ∃ n, .giveUp n ∈ l.2.2 ∧
      linkStatus (w.daemon l.1).rt n = .ok statusDown := by
  have key : (System.follow (World.promptMove chainNet) lockstepRun
      (chainNet.start chainNet_boots)).map (fun p => decide (∃ l ∈ p.1, .giveUp 3 ∈ l.2.2 ∧
        linkStatus (p.2.daemon l.1).rt 3 = .ok statusDown)) = some true := by decide +kernel
  obtain ⟨⟨ls, w⟩, h, hp⟩ := Option.map_eq_some_iff.mp key
  obtain ⟨l, hl, h3⟩ := of_decide_eq_true hp
  have r := (System.Run.init (prompt_init_start chainNet_boots)).follow
    (fun _ _ _ _ => step_promptMove) h
  exact ⟨chainNet, chainNet_valid, chainNet_symmetric, ls, w, r, l, hl, 3, h3⟩

end RoutingDaemon
