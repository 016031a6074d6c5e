import RoutingDaemon.Retransmission
import RoutingDaemon.TablesAsMaps

/-!
# Recipients

* `recipients`: the links that a call of the send loop sends to. `floodLinks_spec`: what the loop sends
  and which acknowledgements it waits for. `cellAt_floodLinks`: the loop on one checker.
* `flood_spec`, `floodReceivedLsa_spec`: the two callers of the loop.
* `Addressed`: a datagram and the state in which it is sent. `addressed_timeout`: every datagram of a
  timeout.
* `flooding_recipients`: the three senders over all runs.
-/

namespace RoutingDaemon

/-- The links that are not skipped and not down. -/
def recipients (skip : Int32 → Bool) (rt : RoutingTable) (ls : List (LinkEntry × ℕ)) :
    List (LinkEntry × ℕ) :=
  ls.filter fun p => !skip p.1.id && statusOf rt p.1.id != some statusDown

/-- The recipients only depend on the statuses of the links. -/
theorem recipients_congr {skip : Int32 → Bool} {rt rt' : RoutingTable} {ls : List (LinkEntry × ℕ)}
    (h : ∀ p ∈ ls, statusOf rt' p.1.id = statusOf rt p.1.id) :
    recipients skip rt' ls = recipients skip rt ls :=
  List.filter_congr fun p hp => by rw [h p hp]

/-- An acknowledgement is waited for in checker `i` of the entry at index `k`. -/
def Awaited (rt : RoutingTable) (k i : ℕ) : Prop :=
  ∃ a, cellAt rt k i = some a ∧ a.ackReceived = .notReceived

/-! ### The send loop -/

theorem awaited_expect {rt : RoutingTable} {m j k i : ℕ} (h : ∃ a, cellAt rt m j = some a) :
    Awaited (modifyChecker rt m j AckChecker.expect) k i ↔ Awaited rt k i ∨ k = m ∧ i = j := by
  unfold Awaited
  rw [cellAt_modifyChecker]
  by_cases he : m = k ∧ j = i
  · obtain ⟨rfl, rfl⟩ := he
    obtain ⟨a, ha⟩ := h
    rw [if_pos ⟨rfl, rfl⟩, ha]
    exact iff_of_true ⟨_, rfl, rfl⟩ (.inr ⟨rfl, rfl⟩)
  · rw [if_neg he]
    refine ⟨.inl, fun h => h.resolve_right ?_⟩
    rintro ⟨rfl, rfl⟩
    exact he ⟨rfl, rfl⟩

section Loop

variable {k size : ℕ} {lsa : LSA} {skip : Int32 → Bool} {p : LinkEntry × ℕ} {ls : List (LinkEntry × ℕ)}
  {rt rt' : RoutingTable} {out : List Effect}

theorem recipients_floodLinks_cons (h : floodLinks k lsa size skip (p :: ls) rt = .ok (rt', out)) :
    (recipients skip rt (p :: ls) = recipients skip rt ls ∧
      floodLinks k lsa size skip ls rt = .ok (rt', out)) ∨
    ∃ a rt₁ out₁, cellAt rt k p.2 = some a ∧ rt₁ = modifyChecker rt k p.2 AckChecker.expect ∧
      recipients skip rt (p :: ls) = p :: recipients skip rt₁ ls ∧
      floodLinks k lsa size skip ls rt₁ = .ok (rt', out₁) ∧ out = rtSendto lsa p.1 size :: out₁ := by
  rcases floodLinks_cons h with ⟨hskip | hdown, h⟩ | ⟨s, a, out₁, hskip, hs, hup, ha, h1, rfl⟩
  · exact .inl ⟨List.filter_cons_of_neg (by simp [hskip]), h⟩
  · rw [linkStatus_iff] at hdown
    exact .inl ⟨List.filter_cons_of_neg (by simp [hdown]), h⟩
  · rw [linkStatus_iff] at hs
    refine .inr ⟨a, _, out₁, getChecker_iff.mp ha, rfl, ?_, h1, rfl⟩
    have hrec : recipients skip (modifyChecker rt k p.2 AckChecker.expect) ls = recipients skip rt ls :=
      recipients_congr fun p _ => statusOf_modifyChecker
    rw [hrec]
    exact List.filter_cons_of_pos (by simp [hskip, hs, hup])

theorem exists_mem_cons_snd {α β : Type*} {p : α × β} {xs : List (α × β)} {i : β} :
    (∃ l, (l, i) ∈ p :: xs) ↔ i = p.2 ∨ ∃ l, (l, i) ∈ xs := by
  constructor
  · rintro ⟨l, hl⟩
    rcases List.mem_cons.mp hl with he | hl
    · exact .inl (congrArg Prod.snd he)
    · exact .inr ⟨l, hl⟩
  · rintro (rfl | ⟨l, hl⟩)
    · exact ⟨p.1, List.mem_cons_self⟩
    · exact ⟨l, List.mem_cons_of_mem _ hl⟩

/-- **The send loop** sends to its recipients, in order, and waits for their acknowledgements. -/
theorem floodLinks_spec (h : floodLinks k lsa size skip ls rt = .ok (rt', out)) :
    out = (recipients skip rt ls).map (fun p => rtSendto lsa p.1 size) ∧
      ∀ m i, Awaited rt' m i ↔ Awaited rt m i ∨ m = k ∧ ∃ l, (l, i) ∈ recipients skip rt ls := by
  induction ls generalizing rt out with
  | nil =>
    cases h
    exact ⟨rfl, fun m i => by simp [recipients]⟩
  | cons p ls ih =>
    rcases recipients_floodLinks_cons h with ⟨he, h⟩ | ⟨a, rt₁, out₁, ha, rfl, he, h1, rfl⟩
    · rw [he]
      exact ih h
    · obtain ⟨hout, hwait⟩ := ih h1
      rw [he]
      refine ⟨by rw [hout, List.map_cons], fun m i => ?_⟩
      rw [hwait, awaited_expect ⟨a, ha⟩, or_assoc, exists_mem_cons_snd, and_or_left]

/-- **The send loop on one checker.** -/
theorem cellAt_floodLinks (h : floodLinks k lsa size skip ls rt = .ok (rt', out)) (m i : ℕ) :
    (m = k ∧ (∃ l, (l, i) ∈ recipients skip rt ls) →
      cellAt rt' m i = (cellAt rt m i).map AckChecker.expect) ∧
    (¬ (m = k ∧ ∃ l, (l, i) ∈ recipients skip rt ls) → cellAt rt' m i = cellAt rt m i) := by
  have twice : ∀ a : AckChecker, a.expect.expect = a.expect := fun _ => rfl
  induction ls generalizing rt out with
  | nil =>
    cases h
    simp [recipients]
  | cons p ls ih =>
    rcases recipients_floodLinks_cons h with ⟨he, h⟩ | ⟨a, rt₁, out₁, -, rfl, he, h1, rfl⟩
    · rw [he]
      exact ih h
    · obtain ⟨hin, hout⟩ := ih h1
      rw [cellAt_modifyChecker] at hin hout
      rw [he, exists_mem_cons_snd]
      generalize recipients skip (modifyChecker rt k p.2 AckChecker.expect) ls = rs at hin hout
      refine ⟨?_, fun hn => ?_⟩
      · rintro ⟨rfl, hi⟩
        by_cases hl : ∃ l, (l, i) ∈ rs
        · rw [hin ⟨rfl, hl⟩]
          split_ifs
          · rw [Option.map_map]
            exact congrArg (Option.map · _) (funext twice)
          · rfl
        · rw [hout fun h => hl h.2, if_pos ⟨rfl, (hi.resolve_right hl).symm⟩]
      · rw [hout fun h => hn ⟨h.1, .inr h.2⟩, if_neg]
        rintro ⟨rfl, hi⟩
        exact hn ⟨rfl, .inl hi.symm⟩

end Loop

/-- **`flood_received_lsa`** sends to every link that is not down, other than the forwarder, and adds
those links to the ones whose acknowledgement is waited for in the originator's entry. -/
theorem floodReceivedLsa_spec {lsa : LSA} {dl : DirectLinks} {rt rt' : RoutingTable} {size : ℕ}
    {forwarderId : Int32} {out : List Effect}
    (h : floodReceivedLsa lsa dl rt size forwarderId = .ok (rt', out)) :
    out = (recipients (fun id => id == forwarderId) rt dl.neighbours).map
        (fun p => rtSendto lsa p.1 size) ∧
      ∀ k i, Awaited rt' k i ↔ Awaited rt k i ∨ getRoutingEntry rt lsa.senderNodeId = some k ∧
        ∃ l, (l, i) ∈ recipients (fun id => id == forwarderId) rt dl.neighbours := by
  obtain ⟨k, hk, h⟩ := bind_eq_ok.mp h
  rw [deref_eq_ok] at hk
  obtain ⟨hout, hwait⟩ := floodLinks_spec h
  refine ⟨hout, fun m i => ?_⟩
  rw [hwait, hk, Option.some.injEq, eq_comm (a := m)]

/-- **`flood`** sends the new own LSA to every link that is not down, and then waits in the own entry
for the acknowledgements of these links only. -/
theorem flood_spec {d : Daemon} {fresh : Fresh} {rt : RoutingTable} {out : List Effect}
    (hn : ∀ p ∈ d.dl.neighbours, p.1.id ≠ d.myNodeId)
    (h : flood fresh typeLsa d.dl d.ol d.rt d.myNodeId d.sequenceNumber = .ok (rt, out)) :
    ∃ lsa size k e,
      createPacket fresh typeLsa d.myNodeId d.sequenceNumber d.dl d.ol = .ok (lsa, size) ∧
      getRoutingEntry d.rt d.myNodeId = some k ∧ rt.table[k]? = some e ∧ e.lsa = some lsa ∧
      e.lsaSize = size ∧ e.forwarderId = d.myNodeId ∧
      out = (recipients (fun _ => false) d.rt d.dl.neighbours).map
        (fun p => rtSendto lsa p.1 size) ∧
      ∀ i, Awaited rt k i ↔ ∃ l, (l, i) ∈ recipients (fun _ => false) d.rt d.dl.neighbours := by
  obtain ⟨⟨lsa, size⟩, hp, h⟩ := bind_eq_ok.mp h
  obtain ⟨rt₀, hu, h⟩ := bind_eq_ok.mp h
  obtain ⟨k, hk, h⟩ := bind_eq_ok.mp h
  rw [deref_eq_ok] at hk
  rw [hk] at hu
  have ht := (Stores.own hp).type
  have hu' := updateEntry_own hp hk hu
  -- the entry of a link is not the own one, and keeps its status
  have hst : ∀ p ∈ d.dl.neighbours, statusOf rt₀ p.1.id = statusOf d.rt p.1.id := fun p hpm => by
    rw [statusOf, entryOf_updateEntry ht hu', (createPacket_lsa hp).2.1, if_neg (hn p hpm), statusOf]
  rw [updateEntry_some ht, Except.ok.injEq] at hu
  obtain ⟨e₀, he₀, -⟩ := getRoutingEntry_eq_some hk
  obtain ⟨hout, hwait⟩ := floodLinks_spec h
  rw [recipients_congr hst] at hout hwait
  have he₁ : rt₀.table[k]? = some (storeLsa fresh d.dl lsa size d.myNodeId
      (setRoute (defaultTtl - getTtl lsa.versionTtlType + 1) d.myNodeId e₀)) := by
    rw [← hu, getElem?_modify, he₀, Option.map_some, if_pos rfl]
  obtain ⟨e', he', hb⟩ := getElem?_of_bare (floodLinks_bare h) he₁
  obtain ⟨_, _, _, _, hl, hz, _, hf⟩ := bare_eq_iff.mp hb
  refine ⟨lsa, size, k, e', hp, hk, he', hl, hz, hf, hout, fun i => ?_⟩
  rw [hwait]
  refine ⟨fun h => ?_, fun h => .inr ⟨rfl, h⟩⟩
  rcases h with ⟨a, ha, hpend⟩ | ⟨-, h⟩
  · -- the checkers of the entry that was just stored wait for nothing
    have hself : getRoutingEntry rt₀ lsa.senderNodeId = some k := by
      rw [(createPacket_lsa hp).2.1, ← hu, getRoutingEntry_modify (by exact fun _ => rfl), hk]
    rcases cellAt_updateEntry (k := k) (i := i) ht hu' with ⟨-, hz⟩ | ⟨hne, -⟩
    · rw [(hz a ha).1] at hpend
      cases hpend
    · exact absurd hself hne
  · exact h

/-! ### Datagrams and the states in which they are sent -/

/-- The datagram `x`, sent in state `d`, is the LSA of some entry; it goes to a link from index 1 that is
not down and is not the forwarder of this LSA. -/
def Addressed (d : Daemon) (x : Effect) : Prop :=
  ∃ (slot i : ℕ) (s : RoutingEntry) (lsa : LSA) (l : LinkEntry) (status : ℤ),
    d.rt.table[slot]? = some s ∧ s.lsa = some lsa ∧ 1 ≤ i ∧ d.dl.links[i]? = some l ∧
      statusOf d.rt l.id = some status ∧ status ≠ statusDown ∧ l.id ≠ s.forwarderId ∧
        x = rtSendto lsa l s.lsaSize

theorem Onward.addressed {d : Daemon} {out : List Effect} (h : Onward d out)
    (hn : ∀ p ∈ d.dl.neighbours, p.1.id ≠ d.myNodeId) {host : CString} {port : Int32}
    {bytes : List UInt8} (hm : .sendto host port bytes ∈ out) :
    Addressed d (.sendto host port bytes) := by
  obtain ⟨slot, k, i, l, s, lsa, ok, hx, hf⟩ := h host port bytes hm
  obtain ⟨m, e, link, hst⟩ := ok.alive
  obtain ⟨hi, hl⟩ := mem_neighbours.mp link.link
  refine ⟨slot, i, s, lsa, l, e.nodeStatus, ok.entry, ok.stored, hi, hl, ?_, hst, fun he => ?_, hx⟩
  · rw [statusOf, entryOf_eq_some.mpr ⟨m, link.lookup, link.entry⟩, Option.map_some]
  · exact hn _ link.link (he.trans (hf he))

theorem tick_length {d d' : Daemon} {out : List Effect} (h : Tick d out d') : out.length ≤ 1 := by
  cases h <;> simp

/-- **Every datagram of a timeout**, with the state in which it is sent. -/
theorem addressed_timeout {d d' : Daemon} {fresh : Fresh} {out xs ys : List Effect}
    (hn : ∀ p ∈ d.dl.neighbours, p.1.id ≠ d.myNodeId) (h : timeout fresh d = .ok (d', out))
    {host : CString} {port : Int32} {bytes : List UInt8}
    (ho : out = xs ++ .sendto host port bytes :: ys) :
    ∃ d₁, Trail Tick d xs d₁ ∧ Trail Tick d₁ (.sendto host port bytes :: ys) d' ∧
      Addressed d₁ (.sendto host port bytes) := by
  have onward := timeout_onward h
  rw [ho] at onward
  obtain ⟨d₁, d₂, before, send, after⟩ := onward.split fun _ _ _ h => tick_length h.1
  have tick : ∀ s xs t, OnwardTick s xs t → Tick s xs t := fun _ _ _ h => h.1
  refine ⟨d₁, before.mono tick, (Trail.single send.1).trans (after.mono tick), ?_⟩
  refine send.2.addressed ?_ (List.mem_singleton_self _)
  have static := (before.mono tick).preserves (I := fun x => x.dl = d.dl ∧ x.myNodeId = d.myNodeId)
    (fun x _ y hx hm => ?_) ⟨rfl, rfl⟩
  · rw [static.1, static.2]
    exact hn
  · obtain ⟨h1, h2⟩ := micro_static (.tick hm)
    exact ⟨h1.trans hx.1, h2.trans hx.2⟩

/-! ### All runs -/

theorem neighbours_ne_own {f : Files} (hn : (f.rows.map LinkEntry.id).Nodup) {d : Daemon}
    (r : (daemonSystem f).Reachable d) : ∀ p ∈ d.dl.neighbours, p.1.id ≠ d.myNodeId := by
  intro p hp
  rw [← links_reachable r] at hn
  cases hl : d.dl.links with
  | nil =>
    rw [DirectLinks.neighbours, hl] at hp
    cases hp
  | cons l ls =>
    rw [((listed_reachable r).own l (by rw [hl]; rfl)).1]
    exact neighbour_ne_head hn hp (by rw [hl]; rfl)

/-- **Flooding recipients are right.** Every datagram of a timeout goes to a link that is not down at
that moment and is not the forwarder of the LSA; `flood` and `flood_received_lsa` send to all such
links, and wait for the acknowledgements of the links they send to. -/
theorem flooding_recipients (f : Files) (hn : (f.rows.map LinkEntry.id).Nodup) :
    (∀ d fresh d' out, (daemonSystem f).Reachable d → timeout fresh d = .ok (d', out) →
      ∀ xs host port bytes ys, out = xs ++ .sendto host port bytes :: ys →
        ∃ d₁, Trail Tick d xs d₁ ∧ Trail Tick d₁ (.sendto host port bytes :: ys) d' ∧
          Addressed d₁ (.sendto host port bytes)) ∧
    (∀ d fresh rt out, (daemonSystem f).Reachable d →
      flood fresh typeLsa d.dl d.ol d.rt d.myNodeId d.sequenceNumber = .ok (rt, out) →
        ∃ lsa size e,
          createPacket fresh typeLsa d.myNodeId d.sequenceNumber d.dl d.ol = .ok (lsa, size) ∧
          getRoutingEntry d.rt d.myNodeId = some 0 ∧ rt.table[0]? = some e ∧ e.lsa = some lsa ∧
          e.lsaSize = size ∧ e.forwarderId = d.myNodeId ∧
          out = (recipients (fun _ => false) d.rt d.dl.neighbours).map
            (fun p => rtSendto lsa p.1 size) ∧
          ∀ i, Awaited rt 0 i ↔ ∃ l, (l, i) ∈ recipients (fun _ => false) d.rt d.dl.neighbours) ∧
    ∀ lsa dl rt size forwarderId rt' out,
      floodReceivedLsa lsa dl rt size forwarderId = .ok (rt', out) →
        out = (recipients (fun id => id == forwarderId) rt dl.neighbours).map
          (fun p => rtSendto lsa p.1 size) ∧
        ∀ k i, Awaited rt' k i ↔ Awaited rt k i ∨ getRoutingEntry rt lsa.senderNodeId = some k ∧
          ∃ l, (l, i) ∈ recipients (fun id => id == forwarderId) rt dl.neighbours := by
  refine ⟨fun d fresh d' out r h xs host port bytes ys ho => ?_, fun d fresh rt out r h => ?_,
    fun lsa dl rt size forwarderId rt' out h => floodReceivedLsa_spec h⟩
  · exact addressed_timeout (neighbours_ne_own hn r) h ho
  · obtain ⟨lsa, size, k, e, hp, hk, he, hl, hz, hf, hout, hwait⟩ :=
      flood_spec (neighbours_ne_own hn r) h
    obtain rfl := own_index r hk
    exact ⟨lsa, size, e, hp, hk, he, hl, hz, hf, hout, hwait⟩

/-- Node 1 floods to its two neighbours. -/
theorem flooding_recipients_firstFlood : ∃ d rt out, (daemonSystem forkFiles).Reachable d ∧
    flood zeros typeLsa d.dl d.ol d.rt d.myNodeId d.sequenceNumber = .ok (rt, out) ∧
      Awaited rt 0 1 ∧ Awaited rt 0 2 := by
  have key : (boot forkFiles >>= fun d =>
      flood zeros typeLsa d.dl d.ol d.rt d.myNodeId d.sequenceNumber >>= fun p =>
        .ok (d, p)).map (fun p => decide ((recipients (fun _ => false) p.1.rt
          p.1.dl.neighbours).map Prod.snd = [1, 2])) = .ok true := by decide +kernel
  obtain ⟨⟨d, rt, out⟩, hd, hp⟩ := exists_of_map_eq_ok key
  obtain ⟨d₀, h0, h⟩ := bind_eq_ok.mp hd
  obtain ⟨p, h1, h⟩ := bind_eq_ok.mp h
  cases h
  have r : (daemonSystem forkFiles).Reachable d := .init h0
  obtain ⟨-, hflood, -⟩ := flooding_recipients forkFiles (by decide)
  obtain ⟨lsa, size, e, -, -, -, -, -, -, -, hwait⟩ := hflood d zeros rt out r h1
  have sent : ∀ i ∈ [1, 2], Awaited rt 0 i := fun i hi => by
    rw [hwait]
    rw [← of_decide_eq_true hp] at hi
    obtain ⟨⟨l, j⟩, hl, rfl⟩ := List.mem_map.mp hi
    exact ⟨l, hl⟩
  exact ⟨d, rt, out, r, h1, sent 1 (by simp), sent 2 (by simp)⟩

end RoutingDaemon
