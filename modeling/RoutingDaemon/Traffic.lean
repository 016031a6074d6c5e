import RoutingDaemon.SilentNeighbours

/-!
# How much a daemon sends

* `sent_floodLinks`, `sent_retransmitLinks`: a loop over links sends at most one datagram for each.
* `sent_floodTick`, `sent_retransmitRound`: a pass sends at most one for each entry and each neighbour.
* `busyPasses`: how many passes flooded or sent again; `busyPasses_count`: it counts them in every run.
* `traffic_bounded`: the clock of a daemon, and what bounds its traffic.
-/

namespace RoutingDaemon

/-- A datagram is sent. -/
def Effect.isSend : Effect → Bool
  | .sendto _ _ _ => true
  | _ => false

/-- An LSA is accepted. -/
def Effect.isAccept : Effect → Bool
  | .accept _ _ => true
  | _ => false

/-- How many datagrams are sent. -/
def sent (out : List Effect) : ℕ := out.countP Effect.isSend

section Loops

variable {dl : DirectLinks} {rt rt' : RoutingTable} {ht ht' : LisoHash} {out : List Effect}

@[simp] theorem sent_nil : sent [] = 0 := rfl

@[simp] theorem sent_append (xs ys : List Effect) : sent (xs ++ ys) = sent xs + sent ys :=
  List.countP_append

@[simp] theorem sent_rtSendto (lsa : LSA) (l : LinkEntry) (size : ℕ) (out : List Effect) :
    sent (rtSendto lsa l size :: out) = sent out + 1 := List.countP_cons_of_pos rfl

@[simp] theorem sent_giveUp (id : Int32) (out : List Effect) : sent (.giveUp id :: out) = sent out :=
  List.countP_cons_of_neg Bool.false_ne_true

@[simp] theorem sent_expire (id : Int32) (out : List Effect) : sent (.expire id :: out) = sent out :=
  List.countP_cons_of_neg Bool.false_ne_true

theorem sent_floodLinks {k : ℕ} {lsa : LSA} {size : ℕ} {skip : Int32 → Bool} {ls : List (LinkEntry × ℕ)}
    (h : floodLinks k lsa size skip ls rt = .ok (rt', out)) : sent out ≤ ls.length := by
  induction ls generalizing rt out with
  | nil =>
    cases h
    exact le_rfl
  | cons p ls ih =>
    rw [List.length_cons]
    rcases floodLinks_cons h with ⟨-, h⟩ | ⟨_, _, out₁, -, -, -, -, h1, rfl⟩
    · exact (ih h).trans (Nat.le_succ _)
    · rw [sent_rtSendto]
      exact Nat.succ_le_succ (ih h1)

theorem sent_retransmitLinks {slot k size : ℕ} {fw : Int32} {ls : List (LinkEntry × ℕ)}
    (h : retransmitLinks slot k size fw ls rt ht = .ok (rt', ht', out)) : sent out ≤ ls.length := by
  induction ls generalizing rt ht out with
  | nil =>
    cases h
    exact le_rfl
  | cons p ls ih =>
    obtain ⟨l, i⟩ := p
    rw [List.length_cons]
    rcases retransmitLinks_cons h with h | ⟨_, _, _, out₁, -, -, -, -, -, hcase⟩
    · exact (ih h).trans (Nat.le_succ _)
    · rcases hcase with ⟨-, h1, rfl⟩ | ⟨-, -, _, -, h1, rfl⟩
      · rw [sent_giveUp]
        exact (ih h1).trans (Nat.le_succ _)
      · rw [sent_rtSendto]
        exact Nat.succ_le_succ (ih h1)

theorem sent_flood {fresh : Fresh} {type : BitVec 32} {ol : LocalObjects} {nodeId sequenceNum : Int32}
    (h : flood fresh type dl ol rt nodeId sequenceNum = .ok (rt', out)) :
    sent out ≤ dl.neighbours.length := by
  obtain ⟨_, -, h⟩ := bind_eq_ok.mp h
  obtain ⟨_, -, h⟩ := bind_eq_ok.mp h
  obtain ⟨_, -, h⟩ := bind_eq_ok.mp h
  exact sent_floodLinks h

theorem sent_tickEntry {i : ℕ} (h : tickEntry dl i rt ht = .ok (rt', ht', out)) :
    sent out ≤ dl.neighbours.length := by
  obtain ⟨e, -, h⟩ := bind_eq_ok.mp h
  obtain ⟨⟨rt₁, out₁⟩, h1, h⟩ := bind_eq_ok.mp h
  have hsent : sent out₁ ≤ dl.neighbours.length := by
    unfold forwardEntry at h1
    split_ifs at h1
    · obtain ⟨_, -, h1⟩ := bind_eq_ok.mp h1
      obtain ⟨_, -, h1⟩ := bind_eq_ok.mp h1
      exact sent_floodLinks h1
    · cases h1
      exact Nat.zero_le _
  dsimp only at h
  split_ifs at h <;> cases h <;> simpa using hsent

theorem sent_tickEntries {is : List ℕ} (h : tickEntries dl is rt ht = .ok (rt', ht', out)) :
    sent out ≤ is.length * dl.neighbours.length := by
  induction is generalizing rt ht out with
  | nil =>
    cases h
    exact Nat.zero_le _
  | cons i is ih =>
    obtain ⟨⟨rt₁, ht₁, out₁⟩, h1, h⟩ := bind_eq_ok.mp h
    obtain ⟨⟨rt₂, ht₂, out₂⟩, h2, h⟩ := bind_eq_ok.mp h
    cases h
    rw [sent_append, List.length_cons, Nat.succ_mul, Nat.add_comm]
    exact Nat.add_le_add (ih h2) (sent_tickEntry h1)

theorem sent_retransmitEntries {is : List ℕ} (h : retransmitEntries dl is rt ht = .ok (rt', ht', out)) :
    sent out ≤ is.length * dl.neighbours.length := by
  induction is generalizing rt ht out with
  | nil =>
    cases h
    exact Nat.zero_le _
  | cons i is ih =>
    obtain ⟨e, -, h⟩ := bind_eq_ok.mp h
    obtain ⟨⟨rt₁, ht₁, out₁⟩, h1, h⟩ := bind_eq_ok.mp h
    obtain ⟨⟨rt₂, ht₂, out₂⟩, h2, h⟩ := bind_eq_ok.mp h
    cases h
    have hsent : sent out₁ ≤ dl.neighbours.length := by
      unfold retransmitMissing at h1
      split at h1
      · cases h1
        exact Nat.zero_le _
      · obtain ⟨_, -, h1⟩ := bind_eq_ok.mp h1
        exact sent_retransmitLinks h1
    rw [sent_append, List.length_cons, Nat.succ_mul, Nat.add_comm]
    exact Nat.add_le_add (ih h2) hsent

end Loops

/-! ### One pass -/

section Passes

variable {d d' : Daemon} {fresh : Fresh} {out : List Effect}

theorem numEntry_tick (h : Tick d out d') : d'.rt.numEntry = d.rt.numEntry := by
  cases h with
  | own packet entry update count =>
    obtain ⟨hw, -⟩ := createPacket_lsa packet
    rw [updateEntry_some (by rw [hw]; rfl)] at update
    cases update
    exact numEntry_modify
  | giveUp link checker pending budget => exact numEntry_modify.trans numEntry_modify
  | clock => rfl
  | _ => exact numEntry_modify

theorem numEntry_trail (h : Trail OnwardTick d out d') : d'.rt.numEntry = d.rt.numEntry :=
  h.preserves (I := fun x => x.rt.numEntry = d.rt.numEntry)
    (fun _ _ _ hx ht => (numEntry_tick ht.1).trans hx) rfl

/-- **A flood tick** sends at most one datagram for each entry and each neighbour. -/
theorem sent_floodTick (h : floodTick fresh d = .ok (d', out)) :
    sent out ≤ d.rt.numEntry * d.dl.neighbours.length := by
  obtain ⟨⟨rt₁, out₁⟩, h1, h⟩ := bind_eq_ok.mp h
  obtain ⟨seq, hseq, h⟩ := bind_eq_ok.mp h
  obtain ⟨⟨rt₂, gol₂, out₂⟩, h2, h⟩ := bind_eq_ok.mp h
  cases h
  have hn : rt₁.numEntry = d.rt.numEntry := numEntry_trail (flood_trail h1 hseq)
  -- `flood` needs the own entry
  have hpos : 1 ≤ d.rt.numEntry := by
    obtain ⟨_, -, h1⟩ := bind_eq_ok.mp h1
    obtain ⟨_, -, h1⟩ := bind_eq_ok.mp h1
    obtain ⟨k, hk, -⟩ := bind_eq_ok.mp h1
    exact Nat.one_le_of_lt (getRoutingEntry_lt (deref_eq_ok.mp hk))
  have hown := sent_flood h1
  have hrest := sent_tickEntries h2
  rw [List.length_range', hn] at hrest
  rw [sent_append]
  calc sent out₁ + sent out₂
      ≤ d.dl.neighbours.length + (d.rt.numEntry - 1) * d.dl.neighbours.length := Nat.add_le_add hown hrest
    _ = d.rt.numEntry * d.dl.neighbours.length := by
      rw [Nat.add_comm, ← Nat.succ_mul, Nat.succ_eq_add_one, Nat.sub_add_cancel hpos]

/-- **A retransmission round**, too. -/
theorem sent_retransmitRound (h : retransmitRound d = .ok (d', out)) :
    sent out ≤ d.rt.numEntry * d.dl.neighbours.length := by
  obtain ⟨⟨rt₁, gol₁, out₁⟩, h1, h⟩ := bind_eq_ok.mp h
  cases h
  have hsent := sent_retransmitEntries h1
  rwa [List.length_range] at hsent

/-- The pass floods or sends again. -/
def Busy (d : Daemon) (ev : Event) : Prop :=
  ev.isTimeout = true ∧
    (d.iterations = floodingPeriod ∨ d.iterations ≠ 0 ∧ d.iterations ≤ retransmitTime)

/-- How many passes have flooded or sent again: one flood and `RETRANSMIT_TIME` rounds in each period. -/
def busyPasses (d : Daemon) : ℤ :=
  (retransmitTime + 1) * (d.sequenceNumber.toInt - 1) + min d.iterations (retransmitTime + 1)

theorem floodPhase_cases (h : floodPhase fresh d = .ok (d', out)) :
    (d.iterations = floodingPeriod ∧ d'.iterations = 0 ∧
      d'.sequenceNumber.toInt = d.sequenceNumber.toInt + 1 ∧
        sent out ≤ d.rt.numEntry * d.dl.neighbours.length) ∨
    d.iterations ≠ floodingPeriod ∧ d' = d ∧ out = [] := by
  unfold floodPhase at h
  split_ifs at h with hit
  · refine .inl ⟨hit, ?_, ?_, sent_floodTick h⟩
    all_goals
      obtain ⟨_, -, h⟩ := bind_eq_ok.mp h
      obtain ⟨seq, hseq, h⟩ := bind_eq_ok.mp h
      obtain ⟨_, -, h⟩ := bind_eq_ok.mp h
      cases h
    · rfl
    · exact nextSequence_eq_ok hseq
  · cases h
    exact .inr ⟨hit, rfl, rfl⟩

theorem retransmitPhase_cases (h : retransmitPhase d = .ok (d', out)) :
    d'.sequenceNumber = d.sequenceNumber ∧ d'.iterations = d.iterations ∧
      ((d.iterations ≠ 0 ∧ d.iterations ≤ retransmitTime) ∧
          sent out ≤ d.rt.numEntry * d.dl.neighbours.length ∨
        ¬ (d.iterations ≠ 0 ∧ d.iterations ≤ retransmitTime) ∧ out = []) := by
  unfold retransmitPhase at h
  split_ifs at h with hit
  · have hsent := sent_retransmitRound h
    obtain ⟨_, -, h⟩ := bind_eq_ok.mp h
    cases h
    exact ⟨rfl, rfl, .inl ⟨hit, hsent⟩⟩
  · cases h
    exact ⟨rfl, rfl, .inr ⟨hit, rfl⟩⟩

/-- **A timeout.** The clock moves on, and only a busy pass sends. -/
theorem timeout_busy (h : timeout fresh d = .ok (d', out)) (low : 1 ≤ d.iterations)
    (high : d.iterations ≤ floodingPeriod) :
    floodingPeriod * d'.sequenceNumber.toInt + d'.iterations =
      floodingPeriod * d.sequenceNumber.toInt + d.iterations + 1 ∧
    (Busy d (.timeout fresh) ∧ busyPasses d' = busyPasses d + 1 ∧
        sent out ≤ d.rt.numEntry * d.dl.neighbours.length ∨
      ¬ Busy d (.timeout fresh) ∧ busyPasses d' = busyPasses d ∧ sent out = 0) := by
  obtain ⟨⟨d₁, out₁⟩, hf, h⟩ := bind_eq_ok.mp h
  obtain ⟨⟨d₂, out₂⟩, hr, h⟩ := bind_eq_ok.mp h
  cases h
  obtain ⟨hseq, hit, hround⟩ := retransmitPhase_cases hr
  have hfive : retransmitTime + 1 = 5 := rfl
  simp only [busyPasses, hseq, hit, sent_append, hfive]
  rcases floodPhase_cases hf with ⟨hnow, hzero, hnext, hsent⟩ | ⟨hnot, rfl, rfl⟩
  · -- no round follows the flood tick
    rcases hround with ⟨hbad, -⟩ | ⟨-, rfl⟩
    · exact absurd hzero hbad.1
    · have hten : floodingPeriod = 10 := rfl
      rw [sent_nil, Nat.add_zero, hten]
      exact ⟨by omega, .inl ⟨⟨rfl, .inl hnow⟩, by omega, hsent⟩⟩
  · rw [sent_nil, Nat.zero_add]
    rcases hround with ⟨hbusy, hsent⟩ | ⟨hidle, rfl⟩
    · exact ⟨by omega, .inl ⟨⟨rfl, .inr hbusy⟩, by omega, hsent⟩⟩
    · exact ⟨by omega, .inr ⟨fun h => h.2.elim hnot hidle, by omega, rfl⟩⟩

theorem act_sent {ev : Event} (hev : ev.isTimeout = false) (h : act ev d = .ok (d', out)) :
    d'.sequenceNumber = d.sequenceNumber ∧ sent out = out.countP Effect.isAccept := by
  cases ev with
  | timeout fresh => cases hev
  | request c uri opened =>
    obtain ⟨rfl, rfl | ⟨_, _, _, _, -, rfl⟩⟩ := request_cases h <;> exact ⟨rfl, rfl⟩
  | datagram r fresh =>
    obtain ⟨_, _, _, -, hh⟩ := receive_handled h
    exact ⟨handled_sequence hh, by cases hh <;> rfl⟩

end Passes

/-! ### Runs -/

section Runs

variable {f : Files} {d : Daemon} {ls : List (Event × List Effect)}

/-- How often `select` timed out in a run. -/
def ticks (ls : List (Event × List Effect)) : ℕ := ls.countP fun l => l.1.isTimeout

/-- How many datagrams were sent in a run. -/
def sentIn (ls : List (Event × List Effect)) : ℕ := (ls.map fun l => sent l.2).sum

/-- How many LSAs were accepted in a run. -/
def acceptedIn (ls : List (Event × List Effect)) : ℕ := (ls.map fun l => l.2.countP Effect.isAccept).sum

/-- What a clock has to do with the traffic. -/
structure Clocked (ls : List (Event × List Effect)) (d : Daemon) : Prop where
  clock : floodingPeriod * d.sequenceNumber.toInt + d.iterations = ticks ls + retransmitTime + 1
  low : 1 ≤ d.iterations
  high : d.iterations ≤ floodingPeriod
  traffic : (sentIn ls : ℤ) ≤ acceptedIn ls + busyPasses d * (d.rt.numEntry * d.dl.neighbours.length)

theorem entries_act {ev : Event} {d' : Daemon} {out : List Effect} (h : act ev d = .ok (d', out)) :
    d.rt.numEntry * d.dl.neighbours.length ≤ d'.rt.numEntry * d'.dl.neighbours.length := by
  rw [(act_static h).1]
  apply Nat.mul_le_mul_right
  refine (act_trail h).preserves (I := fun x => d.rt.numEntry ≤ x.rt.numEntry) ?_ le_rfl
  exact fun _ _ _ hx hm => hx.trans (reshapes_micro hm).numEntry

theorem Clocked.busy_nonneg (hc : Clocked ls d) : 0 ≤ busyPasses d := by
  have hclock := hc.clock
  have hlow := hc.low
  have hhigh := hc.high
  have hfive : retransmitTime + 1 = 5 := rfl
  rw [show floodingPeriod = 10 from rfl] at hclock hhigh
  rw [busyPasses, hfive]
  omega

/-- **Every pass keeps the traffic within the bound.** -/
theorem clocked_act {l : Event × List Effect} {d' : Daemon} (hc : Clocked ls d)
    (h : act l.1 d = .ok (d', l.2)) : Clocked (ls ++ [l]) d' := by
  obtain ⟨ev, out⟩ := l
  have h : act ev d = .ok (d', out) := h
  have hB : ((d.rt.numEntry * d.dl.neighbours.length : ℕ) : ℤ) ≤
      (d'.rt.numEntry * d'.dl.neighbours.length : ℕ) := Int.ofNat_le.mpr (entries_act h)
  have hticks : ticks (ls ++ [(ev, out)]) = ticks ls + ev.isTimeout.toNat := by
    rw [ticks, List.countP_append, List.countP_singleton]
    cases ev.isTimeout <;> rfl
  have hsentIn : sentIn (ls ++ [(ev, out)]) = sentIn ls + sent out := by simp [sentIn]
  have hacc : acceptedIn (ls ++ [(ev, out)]) = acceptedIn ls + out.countP Effect.isAccept := by
    simp [acceptedIn]
  have hlow := hc.low
  have hhigh := hc.high
  have htraffic := hc.traffic
  cases hev : ev.isTimeout with
  | true =>
    cases ev with
    | timeout fresh =>
      obtain ⟨hclock, hbusy⟩ := timeout_busy h hlow hhigh
      have hit := timeout_iterations h
      have hten : (1 : ℤ) ≤ floodingPeriod := by decide
      refine ⟨?_, ?_, ?_, ?_⟩
      · rw [hclock, hticks, hc.clock, hev, Bool.toNat_true]
        push_cast
        ring
      · rw [hit]
        split_ifs <;> omega
      · rw [hit]
        split_ifs <;> omega
      · rw [hsentIn, hacc]
        push_cast at *
        have hgrow := mul_le_mul_of_nonneg_left hB hc.busy_nonneg
        rcases hbusy with ⟨-, hbusy, hsent⟩ | ⟨-, hbusy, hsent⟩
        · rw [hbusy, add_mul, one_mul]
          have : (sent out : ℤ) ≤ d.rt.numEntry * d.dl.neighbours.length := by exact_mod_cast hsent
          omega
        · rw [hbusy, hsent]
          omega
    | datagram | request => cases hev
  | false =>
    obtain ⟨hseq, hsent⟩ := act_sent hev h
    have hit := act_iterations hev h
    have hbusy : busyPasses d' = busyPasses d := by rw [busyPasses, busyPasses, hseq, hit]
    refine ⟨?_, by rwa [hit], by rwa [hit], ?_⟩
    · rw [hseq, hit, hticks, hev, hc.clock]
      simp
    · rw [hsentIn, hacc, hsent, hbusy]
      push_cast at *
      have := mul_le_mul_of_nonneg_left hB hc.busy_nonneg
      omega

theorem busyPasses_boot (h : boot f = .ok d) : busyPasses d = 0 := by
  obtain ⟨-, -, -, hseq, hit, -⟩ := boot_eq_ok h
  rw [busyPasses, hseq, hit]
  decide

theorem clocked_run (r : (daemonSystem f).Run ls d) : Clocked ls d := by
  refine r.traceInvariant (fun d h => ?_) fun ls d l d' _ hc h => clocked_act hc h
  have hzero := busyPasses_boot h
  obtain ⟨-, -, -, hseq, hit, -⟩ := boot_eq_ok h
  refine ⟨?_, by rw [hit]; decide, by rw [hit]; decide, by rw [hzero, zero_mul]; rfl⟩
  rw [hseq, hit]
  decide

/-- The runs of a daemon, with the number of their busy passes. -/
inductive BusyRun (f : Files) : List (Event × List Effect) → Daemon → ℕ → Prop
  | boot {d : Daemon} (h : boot f = .ok d) : BusyRun f [] d 0
  | busy {ls : List (Event × List Effect)} {d d' : Daemon} {n : ℕ} {ev : Event} {out : List Effect}
      (r : BusyRun f ls d n) (h : act ev d = .ok (d', out)) (hb : Busy d ev) :
      BusyRun f (ls ++ [(ev, out)]) d' (n + 1)
  | idle {ls : List (Event × List Effect)} {d d' : Daemon} {n : ℕ} {ev : Event} {out : List Effect}
      (r : BusyRun f ls d n) (h : act ev d = .ok (d', out)) (hb : ¬ Busy d ev) :
      BusyRun f (ls ++ [(ev, out)]) d' n

theorem BusyRun.run {n : ℕ} (h : BusyRun f ls d n) : (daemonSystem f).Run ls d := by
  induction h with
  | boot h => exact .init h
  | busy _ h _ ih => exact ih.step (l := (_, _)) h
  | idle _ h _ ih => exact ih.step (l := (_, _)) h

theorem busyPasses_act {ev : Event} {d' : Daemon} {out : List Effect} (hc : Clocked ls d)
    (h : act ev d = .ok (d', out)) :
    Busy d ev ∧ busyPasses d' = busyPasses d + 1 ∨ ¬ Busy d ev ∧ busyPasses d' = busyPasses d := by
  cases ev with
  | timeout fresh =>
    obtain ⟨-, hbusy⟩ := timeout_busy h hc.low hc.high
    exact hbusy.imp (fun hb => ⟨hb.1, hb.2.1⟩) fun hb => ⟨hb.1, hb.2.1⟩
  | datagram | request =>
    refine .inr ⟨fun hb => (by cases hb.1), ?_⟩
    rw [busyPasses, busyPasses, (act_sent rfl h).1, act_iterations rfl h]

/-- **`busyPasses` counts the busy passes of a run.** -/
theorem busyPasses_count (r : (daemonSystem f).Run ls d) :
    (∃ n, BusyRun f ls d n) ∧ ∀ n, BusyRun f ls d n → busyPasses d = n := by
  constructor
  · induction r with
    | init h => exact ⟨0, .boot h⟩
    | @step ls d d' l r h ih =>
      obtain ⟨n, hn⟩ := ih
      by_cases hb : Busy d l.1
      · exact ⟨n + 1, hn.busy h hb⟩
      · exact ⟨n, hn.idle h hb⟩
  · intro n h
    clear r
    induction h with
    | boot h => exact busyPasses_boot h
    | @busy ls d d' n ev out r h hb ih =>
      rcases busyPasses_act (clocked_run r.run) h with ⟨-, he⟩ | ⟨hno, -⟩
      · rw [he, ih, Nat.cast_succ]
      · exact absurd hb hno
    | @idle ls d d' n ev out r h hb ih =>
      rcases busyPasses_act (clocked_run r.run) h with ⟨hyes, -⟩ | ⟨-, he⟩
      · exact absurd hyes hb
      · rw [he, ih]

/-- **The clock and the traffic of a daemon.** The flood number and the pass counter follow from the number
of timeouts. A daemon sends an acknowledgement for each LSA it accepts, and in each busy pass at most one
datagram for each entry and each neighbour; nothing else that it receives makes it send. -/
theorem traffic_bounded (r : (daemonSystem f).Run ls d) :
    floodingPeriod * d.sequenceNumber.toInt + d.iterations = ticks ls + retransmitTime + 1 ∧
    1 ≤ d.iterations ∧ d.iterations ≤ floodingPeriod ∧
    (sentIn ls : ℤ) ≤ acceptedIn ls + busyPasses d * (d.rt.numEntry * d.dl.neighbours.length) := by
  obtain ⟨clock, low, high, traffic⟩ := clocked_run r
  exact ⟨clock, low, high, traffic⟩

theorem exists_sent : ∃ ls d, (daemonSystem forkFiles).Run ls d ∧ 0 < sentIn ls := by
  have key : (do
      let d ← boot forkFiles
      let d ← exec (forkRun.take 6) d
      act (.timeout zeros) d).map (fun p : Daemon × List Effect => decide (0 < sent p.2)) = .ok true := by
    decide +kernel
  obtain ⟨⟨d', out⟩, hd, hp⟩ := exists_of_map_eq_ok key
  obtain ⟨d₀, h0, hd⟩ := bind_eq_ok.mp hd
  obtain ⟨d₁, h1, hd⟩ := bind_eq_ok.mp hd
  obtain ⟨ls, r⟩ := reachable_exec (.init h0) h1
  refine ⟨_, d', r.step (l := (Event.timeout zeros, out)) hd, ?_⟩
  have hpos : 0 < sent out := of_decide_eq_true hp
  have hsent : sentIn (ls ++ [(Event.timeout zeros, out)]) = sentIn ls + sent out := by simp [sentIn]
  omega

theorem traffic_bounded_forkRun : ∃ ls d, (daemonSystem forkFiles).Run ls d ∧ 0 < sentIn ls ∧
    floodingPeriod * d.sequenceNumber.toInt + d.iterations = ticks ls + retransmitTime + 1 ∧
    (sentIn ls : ℤ) ≤ acceptedIn ls + busyPasses d * (d.rt.numEntry * d.dl.neighbours.length) := by
  obtain ⟨ls, d, r, hpos⟩ := exists_sent
  obtain ⟨clock, -, -, traffic⟩ := traffic_bounded r
  exact ⟨ls, d, r, hpos, clock, traffic⟩

end Runs

end RoutingDaemon
