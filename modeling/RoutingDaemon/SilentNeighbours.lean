import RoutingDaemon.Dissemination
import RoutingDaemon.OwnAdvertisement
import RoutingDaemon.RetryBudget

/-!
# Silent neighbours are detected

* `retransmitLinks_frame`, `retransmitLinks_waiting`: the retransmission loop on one checker.
* `Waiting`: a daemon waits for the acknowledgement of its own LSA, and has sent it again so often;
  `waiting_flood`, `waiting_round`, `waiting_other`: what a pass does to that.
* `Due`: after so many timeouts the neighbour will have been declared down; `due_act`.
* `silence_detected`: in every part of a run in which a neighbour is silent for long enough, it is held to be
  down, and no path leads to it.
-/

namespace RoutingDaemon

/-! ### The retransmission loop -/

section Loop

variable {slot k size i m : ℕ} {fw : Int32} {l : LinkEntry} {ls : List (LinkEntry × ℕ)} {c : AckChecker}
  {rt rt' : RoutingTable} {ht ht' : LisoHash} {out : List Effect}

/-- The loop only changes the checkers of its entry and its links. -/
theorem retransmitLinks_frame (h : retransmitLinks slot k size fw ls rt ht = .ok (rt', ht', out))
    (other : m = k → ∀ p ∈ ls, p.2 ≠ i) : cellAt rt' m i = cellAt rt m i := by
  induction ls generalizing rt ht out with
  | nil =>
    cases h
    rfl
  | cons p ls ih =>
    obtain ⟨l, j⟩ := p
    have hrest : m = k → ∀ p ∈ ls, p.2 ≠ i := fun hm p hp => other hm p (List.mem_cons_of_mem _ hp)
    have hne : ¬ (k = m ∧ j = i) := fun h => other h.1.symm _ List.mem_cons_self h.2
    rcases retransmitLinks_cons h with h | ⟨n, e, c, out₁, -, -, -, -, -, ⟨-, h, -⟩ | ⟨-, -, _, -, h, -⟩⟩
    · exact ih h hrest
    · rw [ih h hrest, cellAt_modifyChecker, if_neg hne, cellAt_keep (by exact fun _ => rfl)]
    · rw [ih h hrest, cellAt_modifyChecker, if_neg hne]

/-- What the loop does at a link whose acknowledgement is waited for. -/
theorem retransmitLinks_pending
    (h : retransmitLinks slot k size fw ((l, i) :: ls) rt ht = .ok (rt', ht', out)) (hf : l.id ≠ fw)
    (hc : cellAt rt k i = some c) (pending : c.ackReceived = .notReceived)
    (up : statusOf rt l.id ≠ some statusDown) :
    .giveUp l.id ∈ out ∨ c.retransmit < retransmitTime - 1 ∧ ∃ out₁, retransmitLinks slot k size fw ls
      (modifyChecker rt k i fun a => { a with retransmit := a.retransmit + 1 }) ht =
        .ok (rt', ht', out₁) := by
  simp only [retransmitLinks] at h
  rw [if_neg hf, getChecker_iff.mpr hc, ok_bind, pending] at h
  obtain ⟨m, hm, h⟩ := bind_eq_ok.mp h
  obtain ⟨e, he, h⟩ := bind_eq_ok.mp h
  rw [deref_eq_ok] at hm he
  have hst : statusOf rt l.id = some e.nodeStatus := by
    rw [statusOf, entryOf_eq_some.mpr ⟨m, hm, he⟩]
    rfl
  have hup : e.nodeStatus ≠ statusDown := fun hd => up (by rw [hst, hd])
  split_ifs at h with hr
  · obtain ⟨⟨rt₁, ht₁, out₁⟩, -, h⟩ := bind_eq_ok.mp h
    cases h
    obtain ⟨e', he', hid⟩ := getRoutingEntry_eq_some hm
    rw [he, Option.some.injEq] at he'
    subst he'
    rw [hid]
    exact .inl List.mem_cons_self
  · cases hlsa : storedLsa rt slot with
    | none =>
      rw [hlsa] at h
      cases h
    | some lsa =>
      rw [hlsa] at h
      obtain ⟨⟨rt₁, ht₁, out₁⟩, h1, h⟩ := bind_eq_ok.mp h
      cases h
      exact .inr ⟨not_le.mp hr, out₁, h1⟩

/-- **The loop sends again to a neighbour that is up**, or gives it up if its budget is spent. -/
theorem retransmitLinks_waiting (h : retransmitLinks slot k size fw ls rt ht = .ok (rt', ht', out))
    (hl : (l, i) ∈ ls) (once : (ls.map Prod.snd).Nodup) (hf : l.id ≠ fw) (hc : cellAt rt k i = some c)
    (pending : c.ackReceived = .notReceived) (up : statusOf rt l.id ≠ some statusDown) :
    .giveUp l.id ∈ out ∨ c.retransmit < retransmitTime - 1 ∧
      cellAt rt' k i = some { c with retransmit := c.retransmit + 1 } := by
  induction ls generalizing rt ht out with
  | nil => cases hl
  | cons p ls ih =>
    obtain ⟨l', j⟩ := p
    rw [List.map_cons, List.nodup_cons] at once
    have later : ∀ p ∈ ls, p.2 ≠ j := fun p hp he => once.1 (List.mem_map.mpr ⟨p, hp, he⟩)
    rcases List.mem_cons.mp hl with he | hl
    · -- its turn
      cases he
      rcases retransmitLinks_pending h hf hc pending up with hg | ⟨hlt, out₁, h⟩
      · exact .inl hg
      · refine .inr ⟨hlt, ?_⟩
        rw [retransmitLinks_frame h fun _ => later, cellAt_modifyChecker, if_pos ⟨rfl, rfl⟩, hc]
        rfl
    · -- another link
      have hj : ¬ (k = k ∧ j = i) := fun h => later _ hl h.2.symm
      rcases retransmitLinks_cons h with h₁ | ⟨m, e, c', out₁, -, hm, he, -, -,
        ⟨-, h₁, rfl⟩ | ⟨-, -, lsa, -, h₁, rfl⟩⟩
      · exact ih h₁ hl once.2 hc up
      · by_cases hd : getRoutingEntry rt l.id = some m
        · obtain ⟨e', he', hid⟩ := getRoutingEntry_eq_some hd
          rw [he, Option.some.injEq] at he'
          subst he'
          rw [hid]
          exact .inl List.mem_cons_self
        · refine (ih h₁ hl once.2 ?_ ?_).imp_left (List.mem_cons_of_mem _)
          · rw [cellAt_modifyChecker, if_neg hj, cellAt_keep (by exact fun _ => rfl), hc]
          · rw [statusOf_modifyChecker, statusOf_discard, if_neg hd]
            exact up
      · refine (ih h₁ hl once.2 ?_ ?_).imp_left (List.mem_cons_of_mem _)
        · rw [cellAt_modifyChecker, if_neg hj, hc]
        · rwa [statusOf_modifyChecker]

end Loop

/-! ### One pass -/

/-- The daemon waits for the acknowledgement of its own LSA by the neighbour at link `i`, which is up, and
has sent it again `n` times. -/
structure Waiting (d : Daemon) (l : LinkEntry) (i : ℕ) (n : ℤ) : Prop where
  own : ∃ a, OwnKept d (some a)
  cell : ∃ c, cellAt d.rt 0 i = some c ∧ c.ackReceived = .notReceived ∧ c.retransmit = n
  up : statusOf d.rt l.id ≠ some statusDown

/-- In this pass no packet from the node is read. -/
def SilentPass (d : Daemon) (id : Int32) (ev : Event) : Prop :=
  ∀ r fresh lsa f size, ev = .datagram r fresh → rtRecvfrom d.dl r = .ok (some (lsa, f, size)) → f ≠ id

section Pass

variable {d d' : Daemon} {l : LinkEntry} {i : ℕ} {n : ℤ} {fresh : Fresh} {out : List Effect}

theorem up_timeout (hs : Sound d) (h : timeout fresh d = .ok (d', out))
    (up : statusOf d.rt l.id ≠ some statusDown) :
    Declared out l.id ∨ statusOf d'.rt l.id ≠ some statusDown := by
  by_contra hn
  rw [not_or, not_not] at hn
  rcases (timeout_frame hs.consistent (timeout_trail h)).1.down l.id hn.2 with hd | hd
  · exact up hd
  · exact hn.1 hd

theorem neighbours_snd_nodup (dl : DirectLinks) : (dl.neighbours.map Prod.snd).Nodup := by
  have hrange : (List.range' 0 dl.links.length).Nodup := List.nodup_range'
  rw [DirectLinks.neighbours, List.map_tail, List.zipIdx_map_snd]
  exact hrange.tail

theorem countable_retry {ms : List (Option (ℕ × ℕ) × Effect)} (hc : Countable d) (h : Trail Retry d ms d') :
    Countable d' :=
  countable_onward hc (h.map fun _ _ _ h => h.onwardTick)

theorem retransmitEntries_cells {is : List ℕ} {rt' : RoutingTable} {gol' : LisoHash} (hc : Countable d)
    (hi : ∀ j ∈ is, 1 ≤ j) (h : retransmitEntries d.dl is d.rt d.gol = .ok (rt', gol', out)) :
    cellAt rt' 0 i = cellAt d.rt 0 i := by
  induction is generalizing d out with
  | nil =>
    cases h
    rfl
  | cons j is ih =>
    obtain ⟨s, hs, h⟩ := bind_eq_ok.mp h
    obtain ⟨⟨rt₁, gol₁, out₁⟩, h1, h⟩ := bind_eq_ok.mp h
    obtain ⟨⟨rt₂, gol₂, out₂⟩, h2, h⟩ := bind_eq_ok.mp h
    cases h
    rw [deref_eq_ok] at hs
    have hj := hi j List.mem_cons_self
    obtain ⟨ms, -, tr⟩ := retransmitMissing_trail hs h1
    rw [ih (countable_retry hc tr) (fun m hm => hi m (List.mem_cons_of_mem _ hm)) h2]
    -- the LSA of this entry is its own
    unfold retransmitMissing at h1
    cases hlsa : storedLsa d.rt j with
    | none =>
      rw [hlsa] at h1
      cases h1
      rfl
    | some lsa =>
      rw [hlsa] at h1
      obtain ⟨k, hk, h1⟩ := bind_eq_ok.mp h1
      rw [storedLsa, hs, Option.bind_some] at hlsa
      rw [deref_eq_ok, hc.found j s lsa hs hlsa, Option.some.injEq] at hk
      subst hk
      exact retransmitLinks_frame h1 fun h0 => by omega

/-- **A round** sends the own LSA again, or the neighbour is declared down. -/
theorem waiting_round (hs : Sound d) (hc : Countable d) (hl : (l, i) ∈ d.dl.neighbours)
    (hw : Waiting d l i n) (late : d.iterations ≠ 0 ∧ d.iterations ≤ retransmitTime)
    (h : timeout fresh d = .ok (d', out)) :
    Declared out l.id ∨ n < retransmitTime - 1 ∧ Waiting d' l i (n + 1) := by
  obtain ⟨⟨a, hown⟩, ⟨c, hcell, hpend, hn⟩, hup⟩ := hw
  have hne : d.iterations ≠ floodingPeriod := by
    have : retransmitTime < floodingPeriod := by decide
    omega
  have hown' := ownKept_timeout hs hown h
  rw [floodedAfter, if_neg hne] at hown'
  rcases up_timeout hs h hup with hd | hup'
  · exact .inl hd
  obtain ⟨⟨d₁, out₁⟩, h1, h⟩ := bind_eq_ok.mp h
  obtain ⟨⟨d₂, out₂⟩, h2, h⟩ := bind_eq_ok.mp h
  cases h
  rw [floodPhase, if_neg hne] at h1
  cases h1
  rw [retransmitPhase, if_pos late] at h2
  obtain ⟨⟨rt, gol, out⟩, h3, h2⟩ := bind_eq_ok.mp h2
  cases h2
  -- the round begins with the own entry
  obtain ⟨e, he, hlsa, -, -, hfw⟩ := hown
  have hpos : 0 < d.rt.numEntry := (List.getElem?_eq_some_iff.mp he).1
  obtain ⟨m, hm⟩ := Nat.exists_eq_add_of_lt hpos
  rw [Nat.zero_add] at hm
  rw [hm, List.range_eq_range', List.range'_succ] at h3
  obtain ⟨e', he', h3⟩ := bind_eq_ok.mp h3
  obtain ⟨⟨rt₁, gol₁, out₁⟩, h4, h3⟩ := bind_eq_ok.mp h3
  obtain ⟨⟨rt₂, gol₂, out₂⟩, h5, h3⟩ := bind_eq_ok.mp h3
  cases h3
  rw [deref_eq_ok, he, Option.some.injEq] at he'
  subst he'
  obtain ⟨ms, -, tr⟩ := retransmitMissing_trail he h4
  rw [retransmitMissing, storedLsa, he, Option.bind_some, hlsa] at h4
  obtain ⟨k, hk, h4⟩ := bind_eq_ok.mp h4
  rw [deref_eq_ok, hc.found 0 e a he hlsa, Option.some.injEq] at hk
  subst hk
  have hf : l.id ≠ e.forwarderId := by
    obtain ⟨l₀, h0, hid⟩ := hs.link_zero
    rw [hfw, if_neg (Option.some_ne_none a), ← hid]
    exact hs.neighbour_ne hl h0
  rcases retransmitLinks_waiting h4 hl (neighbours_snd_nodup d.dl) hf hcell hpend hup with hg | ⟨hlt, hcell'⟩
  · exact .inl (.inl (List.mem_append_right _ (List.mem_append_left _ hg)))
  · have hkeep := retransmitEntries_cells (i := i) (countable_retry hc tr)
      (fun j hj => (List.mem_range'_1.mp hj).1) h5
    exact .inr ⟨hn ▸ hlt, ⟨a, hown'⟩,
      ⟨{ c with retransmit := c.retransmit + 1 }, hkeep.trans hcell', hpend, by rw [hn]⟩, hup'⟩

/-- **A flood tick** sends the own LSA to a neighbour that is up, or the neighbour is declared down. -/
theorem waiting_flood {f : Files} (r : (daemonSystem f).Reachable d) (hs : Sound d) {last : Option LSA}
    (hown : OwnKept d last) (hl : (l, i) ∈ d.dl.neighbours) (time : d.iterations = floodingPeriod)
    (up : statusOf d.rt l.id ≠ some statusDown) (h : timeout fresh d = .ok (d', out)) :
    Declared out l.id ∨ Waiting d' l i 0 := by
  have hown' := ownKept_timeout hs hown h
  rw [floodedAfter, if_pos time] at hown'
  refine (up_timeout hs h up).imp_right fun hup => ?_
  obtain ⟨d₁, out₁, hflood, hrt⟩ := timeout_flood h time
  obtain ⟨hzero, -⟩ := floodTick_cells (k := 0) (i := i) r hflood
  obtain ⟨⟨rt₁, out₁⟩, h1, hflood⟩ := bind_eq_ok.mp hflood
  obtain ⟨seq, hseq, hflood⟩ := bind_eq_ok.mp hflood
  obtain ⟨⟨rt₂, gol₂, out₂⟩, h2, hflood⟩ := bind_eq_ok.mp hflood
  cases hflood
  have hne : ∀ p ∈ d.dl.neighbours, p.1.id ≠ d.myNodeId := by
    intro p hp
    obtain ⟨l₀, h0, hid⟩ := hs.link_zero
    rw [← hid]
    exact hs.neighbour_ne hp h0
  obtain ⟨lsa, size, k, e, hp, hk, -, -, -, -, -, hwait⟩ := flood_spec hne h1
  rw [hs.getRoutingEntry_own, Option.some.injEq] at hk
  subst hk
  obtain ⟨c, hc, hpend⟩ := (hwait i).mpr ⟨l, List.mem_filter.mpr ⟨hl, by simpa using up⟩⟩
  have hc₁ : Countable { d with rt := rt₁, sequenceNumber := seq } :=
    countable_onward (countable_reachable r) (flood_trail h1 hseq)
  have hnot : 0 ∉ List.range' 1 (rt₁.numEntry - 1) := fun h0 => absurd (one_le_of_mem_range' h0) (by omega)
  have hkeep := tickEntries_cells (i := i) hc₁ (fun j => one_le_of_mem_range') hnot h2
  rw [hp] at hown'
  refine ⟨⟨lsa, hown'⟩, ⟨c, ?_, hpend, (hzero c (hkeep.trans hc)).1⟩, hup⟩
  rw [hrt]
  exact hkeep.trans hc

theorem up_handled {lsa : LSA} {g : Int32} {size : ℕ} (h : Handled d fresh lsa g size out d')
    (up : statusOf d.rt l.id ≠ some statusDown) : statusOf d'.rt l.id ≠ some statusDown := by
  cases h with
  | ignored => exact up
  | accepted type newer link update objects =>
    dsimp only
    rw [statusOf, entryOf_updateEntry ((acceptedLsa_type lsa).trans type) update]
    split_ifs with hid
    · simp only [Option.map_some, ne_eq, Option.some.injEq]
      cases entryOf d.rt l.id <;>
        simp [updatedEntry, storeLsa, setRoute, newEntry, retransmitTime, statusDown]
    · exact up
  | credited type current update =>
    obtain ⟨_, _, _, _, _, -, -, -, -, -, -, rfl⟩ := creditAck_eq_ok update
    dsimp only
    rw [statusOf_modify (by exact fun _ => rfl)]
    split_ifs
    · exact up
    · exact up

theorem cellAt_creditAck_ne (hs : Sound d) {entry : Option ℕ} {g : Int32} {rt : RoutingTable}
    (h : creditAck d.rt entry g = .ok rt) (hl : d.dl.links[i]? = some l) (hne : g ≠ l.id) {k : ℕ} :
    cellAt rt k i = cellAt d.rt k i := by
  obtain ⟨n, e, c, own, o, -, he, hc, hown, ho, -, rfl⟩ := creditAck_eq_ok h
  rw [cellAt_modify]
  by_cases hk : 0 = k
  · subst hk
    rw [if_pos rfl, cellAt, hown]
    simp only [Option.bind_some, ho, List.getElem?_mapIdx]
    -- the checkers are listed as the links are
    have hid : c.checkers[i]?.map AckChecker.id ≠ some g := by
      obtain ⟨c', hc', hids⟩ := (hs.entry n e he).checkers
      rw [hc, Option.some.injEq] at hc'
      subst hc'
      rw [← List.getElem?_map, hids, List.getElem?_map, hl, Option.map_some, ne_eq, Option.some.injEq]
      exact Ne.symm hne
    cases o.checkers[i]? with
    | none => rfl
    | some a => rw [Option.map_some, if_neg fun h => hid h.2]
  · rw [if_neg hk]

/-- **A pass that is no timeout** leaves the wait as it is, if it reads no packet of the neighbour and
accepts no LSA about the daemon itself. -/
theorem waiting_other {ev : Event} (hs : Sound d) (hl : (l, i) ∈ d.dl.neighbours) (hw : Waiting d l i n)
    (hev : ev.isTimeout = false) (silent : SilentPass d l.id ev) (older : OwnOlder d ev)
    (h : act ev d = .ok (d', out)) : Waiting d' l i n := by
  obtain ⟨⟨a, hown⟩, ⟨c, hcell, hpend, hn⟩, hup⟩ := hw
  have hown' := (ownKept_act hs hown h).mpr older
  cases ev with
  | timeout fresh => cases hev
  | request c uri opened =>
    obtain ⟨-, rfl | ⟨_, _, _, _, -, rfl⟩⟩ := request_cases h
    · exact ⟨⟨a, hown⟩, ⟨_, hcell, hpend, hn⟩, hup⟩
    · exact ⟨⟨a, hown'⟩, ⟨_, hcell, hpend, hn⟩, hup⟩
  | datagram r fresh =>
    obtain ⟨lsa, g, size, recv, hh⟩ := receive_handled h
    have hg := silent r fresh lsa g size rfl recv
    have hup' := up_handled hh hup
    cases hh with
    | ignored why => exact ⟨⟨a, hown⟩, ⟨_, hcell, hpend, hn⟩, hup⟩
    | @accepted src rt gol type newer link update objects =>
      have ht := (acceptedLsa_type lsa).trans type
      have hsend : lsa.senderNodeId ≠ d.myNodeId := by
        intro hsend
        rw [(ownOlder_datagram recv).mp older type hsend] at newer
        cases newer
      refine ⟨⟨a, hown'⟩, ⟨c, ?_, hpend, hn⟩, hup'⟩
      rcases cellAt_updateEntry (k := 0) (i := i) ht update with ⟨hk, -⟩ | ⟨-, hkeep⟩
      · -- the entry at index 0 is the own one
        obtain ⟨e, he, hid⟩ := getRoutingEntry_eq_some hk
        obtain ⟨e', he', hid', -⟩ := (sound_act hs h).own_entry
        rw [show ({ d with rt := rt, gol := gol } : Daemon).rt.table[0]? = rt.table[0]? from rfl, he,
          Option.some.injEq] at he'
        subst he'
        exact absurd (hid.symm.trans hid') hsend
      · exact hkeep.trans hcell
    | credited type current update =>
      refine ⟨⟨a, hown'⟩, ⟨c, ?_, hpend, hn⟩, hup'⟩
      exact (cellAt_creditAck_ne hs update (mem_neighbours.mp hl).2 hg).trans hcell

theorem timeout_iterations (h : timeout fresh d = .ok (d', out)) :
    d'.iterations = if d.iterations = floodingPeriod then 1 else d.iterations + 1 := by
  obtain ⟨⟨d₁, out₁⟩, h1, h⟩ := bind_eq_ok.mp h
  obtain ⟨⟨d₂, out₂⟩, h2, h⟩ := bind_eq_ok.mp h
  cases h
  have hround : d₂.iterations = d₁.iterations := by
    unfold retransmitPhase at h2
    split_ifs at h2
    · obtain ⟨_, -, h2⟩ := bind_eq_ok.mp h2
      cases h2
      rfl
    · cases h2
      rfl
  have hflood : d₁.iterations = if d.iterations = floodingPeriod then 0 else d.iterations := by
    unfold floodPhase at h1
    split_ifs at h1 ⊢
    · obtain ⟨_, -, h1⟩ := bind_eq_ok.mp h1
      obtain ⟨_, -, h1⟩ := bind_eq_ok.mp h1
      obtain ⟨_, -, h1⟩ := bind_eq_ok.mp h1
      cases h1
      rfl
    · cases h1
      rfl
  dsimp only
  rw [hround, hflood]
  split_ifs <;> rfl

theorem act_iterations {ev : Event} (hev : ev.isTimeout = false) (h : act ev d = .ok (d', out)) :
    d'.iterations = d.iterations := by
  cases ev with
  | timeout fresh => cases hev
  | request c uri opened =>
    obtain ⟨-, rfl | ⟨_, _, _, _, -, rfl⟩⟩ := request_cases h <;> rfl
  | datagram r fresh =>
    obtain ⟨lsa, g, size, -, hh⟩ := receive_handled h
    cases hh <;> rfl

theorem iterations_reachable {f : Files} (r : (daemonSystem f).Reachable d) :
    1 ≤ d.iterations ∧ d.iterations ≤ floodingPeriod := by
  refine r.invariant (I := fun d => 1 ≤ d.iterations ∧ d.iterations ≤ floodingPeriod) ?_ ?_
  · intro d (hb : boot f = .ok d)
    rw [(boot_eq_ok hb).2.2.2.2.1]
    decide
  · rintro d ⟨ev, out⟩ d' hi h
    have h : act ev d = .ok (d', out) := h
    cases hev : ev.isTimeout with
    | false => rwa [act_iterations hev h]
    | true =>
      cases ev with
      | timeout fresh =>
        rw [timeout_iterations h]
        have hten : (1 : ℤ) ≤ floodingPeriod := by decide
        split_ifs <;> omega
      | datagram | request => cases hev

/-! ### The time that is left -/

/-- If the neighbour stays silent, it is declared down in at most `m` more timeouts. -/
inductive Due (d : Daemon) (l : LinkEntry) (i : ℕ) : ℤ → Prop
  /-- the next flood tick is to come -/
  | early {m : ℤ} (up : statusOf d.rt l.id ≠ some statusDown) (bounds : d.iterations ≤ floodingPeriod)
      (time : d.iterations + m = floodingPeriod + retransmitTime + 1) : Due d l i m
  /-- the own LSA is sent again -/
  | waiting {n m : ℤ} (wait : Waiting d l i n) (bounds : 0 ≤ n ∧ n < retransmitTime)
      (time : d.iterations = n + 1) (left : n + m = retransmitTime) : Due d l i m

variable {m : ℤ}

theorem Due.pos (h : Due d l i m) : 1 ≤ m := by
  have hr : (0 : ℤ) ≤ retransmitTime := by decide
  cases h <;> omega

/-- **A timeout brings the detection nearer.** -/
theorem due_timeout {f : Files} (r : (daemonSystem f).Reachable d) (hs : Sound d) {last : Option LSA}
    (hown : OwnKept d last) (hl : (l, i) ∈ d.dl.neighbours) (hd : Due d l i m)
    (h : timeout fresh d = .ok (d', out)) : Declared out l.id ∨ Due d' l i (m - 1) := by
  have hit := timeout_iterations h
  cases hd with
  | early up bounds time =>
    split_ifs at hit with hnow
    · refine (waiting_flood r hs hown hl hnow up h).imp_right fun hw => ?_
      exact .waiting hw (by decide) hit (by omega)
    · refine (up_timeout hs h up).imp_right fun hup => ?_
      exact .early hup (by omega) (by omega)
  | @waiting n _ wait bounds time left =>
    have hlate : d.iterations ≠ 0 ∧ d.iterations ≤ retransmitTime := by omega
    have hnow : d.iterations ≠ floodingPeriod := by
      have : retransmitTime < floodingPeriod := by decide
      omega
    rw [if_neg hnow] at hit
    refine (waiting_round hs (countable_reachable r) hl wait hlate h).imp_right fun ⟨hlt, hw⟩ => ?_
    exact .waiting hw (by omega) (by omega) (by omega)

/-- **The other passes do not delay it.** -/
theorem due_other {ev : Event} (hs : Sound d) (hl : (l, i) ∈ d.dl.neighbours) (hd : Due d l i m)
    (hev : ev.isTimeout = false) (silent : SilentPass d l.id ev) (older : OwnOlder d ev)
    (h : act ev d = .ok (d', out)) : Due d' l i m := by
  have hit := act_iterations hev h
  cases hd with
  | early up bounds time =>
    refine .early ?_ (by omega) (by omega)
    cases ev with
    | timeout => cases hev
    | request c uri opened =>
      obtain ⟨-, rfl | ⟨_, _, _, _, -, rfl⟩⟩ := request_cases h <;> exact up
    | datagram r fresh =>
      obtain ⟨lsa, g, size, recv, hh⟩ := receive_handled h
      exact up_handled hh up
  | waiting wait bounds time left =>
    exact .waiting (waiting_other hs hl wait hev silent older h) bounds (by omega) left

end Pass

/-! ### Networks -/

variable {ι : Type} {N : Net ι}

/-- Node `x` holds node `y` to be down, and no path leads to it. -/
structure HeldDown (N : Net ι) (w : World ι) (x y : ι) : Prop where
  status : statusOf (w.daemon x).rt (N.self y).id = some statusDown
  pathless : ∀ o p, getPaths superFastHash (w.daemon x).gol o = some p → p.nodeId ≠ (N.self y).id

variable [DecidableEq ι] {ok : List UInt8 → Prop} {w w' : World ι} {x y : ι}
  {ls : List (ι × Event × List Effect)}

/-- How often `select` times out at node `x`. -/
def timeouts (x : ι) (ls : List (ι × Event × List Effect)) : ℕ :=
  ls.countP fun l => decide (l.1 = x) && l.2.1.isTimeout

omit [DecidableEq ι] in
theorem heldDown (hl : Lawful N w) (h : statusOf (w.daemon x).rt (N.self y).id = some statusDown) :
    HeldDown N w x y := by
  refine ⟨h, fun o p hp hid => ?_⟩
  have hs := hl.sound x
  rw [getPaths_eq hs.consistent, Option.join_eq_some_iff] at hp
  obtain ⟨e, he, hide, hup⟩ := hs.alive o p hp
  obtain ⟨k, hk⟩ := List.mem_iff_getElem?.mp he
  have hfound := getRoutingEntry_of_nodup hs.nodup hk
  rw [hide, hid] at hfound
  rw [statusOf, entryOf_eq_some.mpr ⟨k, hfound, hk⟩, Option.map_some, Option.some.injEq] at h
  exact hup h

omit [DecidableEq ι] in
/-- **In a network no newer LSA about a node reaches it.** -/
theorem ownOlder_network (hi : Numbered N w) (hl : Lawful N w) {ev : Event} (hp : Possible N ok w x ev) :
    OwnOlder (w.daemon x) ev := by
  rintro r fresh lsa f size rfl recv type hsend
  obtain ⟨g, sent, -, -, rfl⟩ := hp
  have hid := hl.myNodeId x
  obtain ⟨h0, hlt⟩ := hi.wire g sent lsa (received_carries recv) type x (hsend.trans hid)
  have hseen := (hi.current x).2 (h0.trans_lt hlt)
  rw [← hid, hasSeen_iff] at hseen
  obtain ⟨a, ha, hle⟩ := hseen
  exact ⟨a, ha, by omega⟩

theorem ownKept_network (hv : N.Distinct) (r : (network N ok).Reachable w) (x : ι) :
    ∃ last, OwnKept (w.daemon x) last := by
  have key := r.invariant (I := fun w => (network N ok).Reachable w ∧ ∃ last, OwnKept (w.daemon x) last)
    (fun w h => ⟨.init h, none, ownKept_boot (hv.configured x) (h.2 x)⟩) ?_
  · exact key.2
  · rintro w ⟨z, ev, out⟩ w' ⟨r, last, hk⟩ h
    refine ⟨r.step h, ?_⟩
    have ho := orderly_reachable hv r
    obtain ⟨hp, d, ha, rfl⟩ := h
    by_cases hz : x = z
    · subst hz
      rw [after_daemon_self]
      exact ⟨_, (ownKept_act (ho.lawful.sound x) hk ha).mpr (ownOlder_network ho.numbered ho.lawful hp)⟩
    · rw [after_daemon_of_ne hz]
      exact ⟨last, hk⟩

omit [DecidableEq ι] in
theorem silentPass (hv : N.Valid) (hl : Lawful N w) {ev : Event} {out : List Effect}
    (hp : Possible N ok w x ev) (silent : ∀ g : Datagram ι, g.src = y → ¬ Handles N x g (x, ev, out)) :
    SilentPass (w.daemon x) (N.self y).id ev := by
  rintro r fresh lsa f size rfl recv hf
  obtain ⟨g, sent, -, -, rfl⟩ := hp
  obtain ⟨-, -, rfl⟩ := received_from hv hl recv
  exact silent g (hv.ids hf) ⟨rfl, rfl⟩

/-- **One step**: the neighbour is down afterwards, or the time that is left is shorter by every timeout. -/
theorem due_step (hv : N.Valid) (r : (network N ok).Reachable w)
    {l : ι × Event × List Effect} (h : (network N ok).step w l w')
    (silent : ∀ g : Datagram ι, g.src = y → ¬ Handles N x g l) {i : ℕ}
    (hi : (N.self y, i) ∈ (w.daemon x).dl.neighbours) {m : ℤ} (hd : Due (w.daemon x) (N.self y) i m) :
    statusOf (w'.daemon x).rt (N.self y).id = some statusDown ∨
      ∃ m', Due (w'.daemon x) (N.self y) i m' ∧ m' + timeouts x [l] ≤ m := by
  have ho := orderly_reachable hv.toDistinct r
  have hs := ho.lawful.sound x
  obtain ⟨z, ev, out⟩ := l
  obtain ⟨hp, d, ha, rfl⟩ := h
  by_cases hz : x = z
  · subst hz
    rw [after_daemon_self]
    cases hev : ev.isTimeout with
    | false =>
      refine .inr ⟨m, due_other hs hi hd hev (silentPass hv ho.lawful hp silent)
        (ownOlder_network ho.numbered ho.lawful hp) ha, ?_⟩
      simp [timeouts, hev]
    | true =>
      cases ev with
      | timeout fresh =>
        obtain ⟨last, hown⟩ := ownKept_network hv.toDistinct r x
        rcases due_timeout (network_daemon r x) hs hown hi hd ha with hdown | hdue
        · exact .inl ((declared_down hs (timeout_trail ha)).2 _ hdown).2
        · exact .inr ⟨m - 1, hdue, by simp [timeouts, hev]⟩
      | datagram | request => cases hev
  · rw [after_daemon_of_ne hz]
    have hz' : ¬ z = x := fun h => hz h.symm
    exact .inr ⟨m, hd, by simp [timeouts, hz']⟩

/-- **Failure detection is complete.** Whatever else happens: when `select` has timed out at a node as often
as a flooding period and the retransmissions after it take, and the node has handled nothing from a
neighbour meanwhile, it has at some moment held the neighbour to be down, without any path to it. -/
theorem silence_detected (hv : N.Valid) (r : (network N ok).Reachable w) (nbr : y ∈ N.nbrs x)
    (h : (network N ok).Steps w ls w') (silent : ∀ l ∈ ls, ∀ g : Datagram ι, g.src = y → ¬ Handles N x g l)
    (long : floodingPeriod + retransmitTime ≤ timeouts x ls) :
    ∃ xs ys v, ls = xs ++ ys ∧ (network N ok).Steps w xs v ∧ (network N ok).Steps v ys w' ∧
      HeldDown N v x y := by
  obtain ⟨i, hi⟩ := (orderly_reachable hv.toDistinct r).lawful.exists_neighbour nbr
  suffices key : (∃ xs ys v, ls = xs ++ ys ∧ (network N ok).Steps w xs v ∧ (network N ok).Steps v ys w' ∧
      HeldDown N v x y) ∨ (N.self y, i) ∈ (w'.daemon x).dl.neighbours ∧
        ∃ m, Due (w'.daemon x) (N.self y) i m ∧ m + timeouts x ls ≤ floodingPeriod + retransmitTime by
    refine key.resolve_right ?_
    rintro ⟨-, m, hd, hle⟩
    have := hd.pos
    omega
  clear long
  induction h with
  | refl =>
    by_cases hdown : statusOf (w.daemon x).rt (N.self y).id = some statusDown
    · exact .inl ⟨[], [], w, rfl, .refl, .refl, heldDown (orderly_reachable hv.toDistinct r).lawful hdown⟩
    · obtain ⟨hlow, hhigh⟩ := iterations_reachable (network_daemon r x)
      refine .inr ⟨hi, _, .early hdown hhigh (m := floodingPeriod + retransmitTime + 1 -
        (w.daemon x).iterations) (by omega), ?_⟩
      simp only [timeouts, List.countP_nil]
      omega
  | @step ls v v' l steps h1 ih =>
    rw [List.forall_mem_append, List.forall_mem_singleton] at silent
    have r₁ := r.steps steps
    rcases ih silent.1 with ⟨xs, ys, u, rfl, before, after, hdown⟩ | ⟨hi, m, hd, hle⟩
    · exact .inl ⟨xs, ys ++ [l], u, by rw [List.append_assoc], before, after.step h1, hdown⟩
    · rcases due_step hv r₁ h1 silent.2 hi hd with hdown | ⟨m', hd', hle'⟩
      · exact .inl ⟨_, [], v', (List.append_nil _).symm, steps.step h1, .refl,
          heldDown (orderly_reachable hv.toDistinct (r₁.step h1)).lawful hdown⟩
      · refine .inr ⟨?_, m', hd', ?_⟩
        · obtain ⟨-, d, ha, rfl⟩ := h1
          by_cases hz : x = l.1
          · subst hz
            rw [after_daemon_self, (act_static ha).1]
            exact hi
          · rwa [after_daemon_of_ne hz]
        · have hsum : timeouts x (ls ++ [l]) = timeouts x ls + timeouts x [l] := List.countP_append
          rw [hsum]
          push_cast
          omega

/-- Node 1 hears nothing for a flooding period and four timeouts. -/
theorem silence_detected_triangleNet : ∃ w, (network triangleNet fun _ => True).Reachable w ∧
    HeldDown triangleNet w 0 1 := by
  have key : (System.follow (World.move triangleNet fun _ => True) (.replicate 14 (.tick 0))
      (triangleNet.start triangleNet_boots)).map (fun p => decide (∀ l ∈ p.1, l.2.1.isTimeout = true) &&
        decide (timeouts 0 p.1 = 14)) = some true := by
    decide +kernel
  obtain ⟨⟨ls, w⟩, h, key⟩ := Option.map_eq_some_iff.mp key
  simp only [Bool.and_eq_true, decide_eq_true_eq] at key
  have r : (network triangleNet fun _ => True).Reachable _ := .init (init_start triangleNet_boots)
  have silent : ∀ l ∈ ls, ∀ g : Datagram (Fin 3), g.src = 1 → ¬ Handles triangleNet 0 g l := by
    rintro ⟨z, ev, out⟩ hl g - hh
    have hev := key.1 _ hl
    cases ev with
    | timeout => exact hh
    | datagram | request => cases hev
  obtain ⟨xs, ys, v, -, before, -, hdown⟩ := silence_detected triangleNet_valid r (by decide)
    (System.Steps.follow (fun _ _ _ _ => step_move) h) silent (by rw [key.2]; decide)
  exact ⟨v, r.steps before, hdown⟩

end RoutingDaemon
