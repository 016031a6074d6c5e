import RoutingDaemon.DiscardedLsa
import RoutingDaemon.FloodCells

/-!
# The retransmissions before a neighbour is given up

* `MarkedRetry`: the steps of `retransmit_missing`, with the entry and the link that each is about.
* `Follows`: how a checker that waits after a pass came to wait. `follows_act`: every pass but the ones that
  send or store the LSA.
* `Tried`: the runs of a daemon, with what became of the last `flood` or `flood_received_lsa` of an entry's
  LSA to a link.
* `retry_budget`: the counter found by that send and the retransmissions after it make up
  `RETRANSMIT_TIME - 1` when the neighbour is given up; they are all retransmissions, and nothing was
  acknowledged, as long as every send finds the counter at 0 and no ACK is booked on another entry.
-/

namespace RoutingDaemon

/-! ### One round -/

/-- What `retransmit_missing` does for the LSA of the entry at index `k` at link `i`. -/
inductive RetryMark
  | resent (k i : ℕ)
  | gaveUp (k i : ℕ)
  deriving DecidableEq

/-- The steps of `retransmit_missing`, with marks. -/
inductive MarkedRetry (d : Daemon) : List (RetryMark × Effect) → Daemon → Prop
  /-- it sends again -/
  | resend {k i : ℕ} {l : LinkEntry} {s : RoutingEntry} {lsa : LSA} {c : AckChecker}
      (ok : Sendable d k k i l s lsa) (checker : getChecker d.rt k i = .ok c)
      (pending : c.ackReceived = .notReceived) (budget : c.retransmit < retransmitTime - 1) :
      MarkedRetry d [(.resent k i, rtSendto lsa l s.lsaSize)]
        { d with rt := modifyChecker d.rt k i fun a => { a with retransmit := a.retransmit + 1 } }
  /-- it gives the neighbour up -/
  | giveUp {k i m : ℕ} {l : LinkEntry} {e : RoutingEntry} {c : AckChecker} (link : LinkAt d l i m e)
      (checker : getChecker d.rt k i = .ok c) (pending : c.ackReceived = .notReceived)
      (budget : retransmitTime - 1 ≤ c.retransmit) :
      MarkedRetry d [(.gaveUp k i, .giveUp e.id)]
        { d with
          rt := modifyChecker (d.rt.modify m RoutingEntry.discard) k i
            fun a => { a with ackReceived := .received }
          gol := hashRemoveNode superFastHash d.gol e.id }

section Round

variable {d d' : Daemon} {ms : List (RetryMark × Effect)} {k i : ℕ}

theorem MarkedRetry.tick (h : MarkedRetry d ms d') : Tick d (ms.map Prod.snd) d' := by
  cases h with
  | resend ok checker pending budget => exact .resend ok checker pending budget
  | giveUp link checker pending budget => exact .giveUp link checker pending budget

theorem MarkedRetry.length (h : MarkedRetry d ms d') : ms.length ≤ 1 := by
  cases h <;> simp

theorem countable_marked (hc : Countable d) (h : MarkedRetry d ms d') : Countable d' :=
  countable_tick hc h.tick

theorem Retry.marked {ns : List (Option (ℕ × ℕ) × Effect)} (hc : Countable d) (h : Retry d ns d') :
    ∃ ms, MarkedRetry d ms d' ∧ ms.map Prod.snd = ns.map Prod.snd := by
  cases h with
  | @resend slot m j l s lsa c ok other checker pending budget =>
    have hm := hc.found slot s lsa ok.entry ok.stored
    rw [ok.checkers, Option.some.injEq] at hm
    subst hm
    exact ⟨_, .resend ok checker pending budget, rfl⟩
  | giveUp link checker pending budget => exact ⟨_, .giveUp link checker pending budget, rfl⟩

theorem exists_marked {ns : List (Option (ℕ × ℕ) × Effect)} (hc : Countable d) (h : Trail Retry d ns d') :
    ∃ ms, Trail MarkedRetry d ms d' ∧ ms.map Prod.snd = ns.map Prod.snd := by
  induction h with
  | refl => exact ⟨[], .refl _, rfl⟩
  | tail r h1 ih =>
    obtain ⟨ms, tr, hms⟩ := ih
    have hc' := tr.preserves (I := Countable) (fun _ _ _ => countable_marked) hc
    obtain ⟨ms', h2, hms'⟩ := h1.marked hc'
    exact ⟨ms ++ ms', tr.tail h2, by rw [List.map_append, List.map_append, hms, hms']⟩

/-- A checker that waits in the second table waited in the first, and counted `n` retransmissions
since. -/
def Follows (k i n : ℕ) (rt rt' : RoutingTable) : Prop :=
  ∀ a', cellAt rt' k i = some a' → a'.ackReceived = .notReceived →
    ∃ a, cellAt rt k i = some a ∧ a.ackReceived = .notReceived ∧ a'.retransmit = a.retransmit + n

theorem follows_self {rt rt' : RoutingTable} (h : cellAt rt' k i = cellAt rt k i) :
    Follows k i 0 rt rt' := by
  intro a' ha hn
  exact ⟨a', h ▸ ha, hn, by omega⟩

theorem Follows.trans {n m : ℕ} {rt rt' rt'' : RoutingTable} (h : Follows k i n rt rt')
    (h' : Follows k i m rt' rt'') : Follows k i (n + m) rt rt'' := by
  intro a'' ha'' hn''
  obtain ⟨a', ha', hn', hr'⟩ := h' a'' ha'' hn''
  obtain ⟨a, ha, hn, hr⟩ := h a' ha' hn'
  exact ⟨a, ha, hn, by omega⟩

/-- Each retransmission is counted by the checker that it belongs to, and by no other. -/
theorem follows_marked (h : MarkedRetry d ms d') :
    Follows k i ((ms.map Prod.fst).count (.resent k i)) d.rt d'.rt := by
  intro a' ha' hn'
  cases h with
  | @resend m j l s lsa c ok checker pending budget =>
    rw [cellAt_modifyChecker] at ha'
    split_ifs at ha' with he
    · obtain ⟨rfl, rfl⟩ := he
      obtain ⟨a, ha, rfl⟩ := Option.map_eq_some_iff.mp ha'
      exact ⟨a, ha, hn', by simp⟩
    · have hne : RetryMark.resent m j ≠ .resent k i := fun h => by
        cases h
        exact he ⟨rfl, rfl⟩
      exact ⟨a', ha', hn', by simp [hne]⟩
  | @giveUp m j n l e c link checker pending budget =>
    rw [cellAt_modifyChecker, cellAt_keep (by exact fun _ => rfl)] at ha'
    split_ifs at ha' with he
    · obtain ⟨a, -, rfl⟩ := Option.map_eq_some_iff.mp ha'
      cases hn'
    · exact ⟨a', ha', hn', by simp⟩

theorem follows_round (h : Trail MarkedRetry d ms d') :
    Follows k i ((ms.map Prod.fst).count (.resent k i)) d.rt d'.rt := by
  induction h with
  | refl => exact follows_self rfl
  | tail _ h1 ih =>
    rw [List.map_append, List.count_append]
    exact ih.trans (follows_marked h1)

/-- **When a neighbour is given up**, its checker waits, and counted as many retransmissions as are
allowed. -/
theorem gaveUp_full {xs ys : List (RetryMark × Effect)} {x : Effect} (hc : Countable d)
    (h : Trail MarkedRetry d (xs ++ (.gaveUp k i, x) :: ys) d') : ∃ a l, cellAt d.rt k i = some a ∧
      a.ackReceived = .notReceived ∧
      a.retransmit + (xs.map Prod.fst).count (.resent k i) = retransmitTime - 1 ∧
      d.dl.links[i]? = some l ∧ x = .giveUp l.id := by
  obtain ⟨d₁, d₂, before, step, -⟩ := h.split fun _ _ _ h => h.length
  have hc₁ := before.preserves (I := Countable) (fun _ _ _ => countable_marked) hc
  have hdl : d₁.dl = d.dl := before.preserves (I := fun x => x.dl = d.dl)
    (fun _ _ _ hx h => (micro_static (.tick h.tick)).1.trans hx) rfl
  cases step with
  | @giveUp _ _ m l e c link checker pending budget =>
    have hcell := getChecker_iff.mp checker
    obtain ⟨a, ha, hn, hr⟩ := follows_round before c hcell pending
    obtain ⟨-, hle⟩ := hc₁.inBudget k i c hcell
    refine ⟨a, l, ha, hn, by omega, ?_, by rw [link.entry_id]⟩
    rw [← hdl]
    exact (mem_neighbours.mp link.link).2

end Round

/-! ### One pass -/

/-- What `retransmit_missing` does in a pass, with marks. Only a timeout that is no flood tick calls it. -/
inductive Retries (d d' : Daemon) (out : List Effect) : Event → List (RetryMark × Effect) → Prop
  | round {fresh : Fresh} {ms : List (RetryMark × Effect)} (late : d.iterations ≠ floodingPeriod)
      (effects : out = ms.map Prod.snd)
      (trail : Trail MarkedRetry d ms { d' with iterations := d.iterations }) :
      Retries d d' out (.timeout fresh) ms
  | flood {fresh : Fresh} (now : d.iterations = floodingPeriod) : Retries d d' out (.timeout fresh) []
  | datagram {r : Received} {fresh : Fresh} : Retries d d' out (.datagram r fresh) []
  | request {c : TcpConnection} {uri : List UInt8} {opened : Bool} :
      Retries d d' out (.request c uri opened) []

/-- In this pass `flood` or `flood_received_lsa` sends the LSA of the entry at index `k` to link `i`. -/
def SentAt (d : Daemon) (ev : Event) (k i : ℕ) : Prop :=
  ∃ fresh, ev = .timeout fresh ∧ d.iterations = floodingPeriod ∧ FloodSends fresh d i k

/-- In this pass the neighbour at link `i` acknowledges the LSA that the entry at index `k` stores. -/
def AckOf (d : Daemon) (ev : Event) (k i : ℕ) : Prop :=
  ∃ r fresh lsa a l, ev = .datagram r fresh ∧ AckFrom d.dl r lsa l.id ∧ d.dl.links[i]? = some l ∧
    getRoutingEntry d.rt lsa.senderNodeId = some k ∧ storedLsa d.rt k = some a ∧
      a.sequenceNum = lsa.sequenceNum

section Pass

variable {f : Files} {d d' : Daemon} {ev : Event} {out : List Effect} {k i : ℕ}

theorem exists_retries (r : (daemonSystem f).Reachable d) (h : act ev d = .ok (d', out)) :
    ∃ ms, Retries d d' out ev ms := by
  obtain ⟨ns, hn⟩ := exists_resends h
  cases hn with
  | round late effects trail =>
    obtain ⟨ms, tr, hms⟩ := exists_marked (countable_reachable r) trail
    exact ⟨ms, .round late (by rw [effects, hms]) tr⟩
  | flood now => exact ⟨[], .flood now⟩
  | datagram => exact ⟨[], .datagram⟩
  | request => exact ⟨[], .request⟩

theorem timeout_flood {fresh : Fresh} (h : timeout fresh d = .ok (d', out))
    (now : d.iterations = floodingPeriod) :
    ∃ d₁ out₁, floodTick fresh d = .ok (d₁, out₁) ∧ d'.rt = d₁.rt := by
  obtain ⟨⟨d₁, out₁⟩, h1, h⟩ := bind_eq_ok.mp h
  obtain ⟨⟨d₂, out₂⟩, h2, h⟩ := bind_eq_ok.mp h
  cases h
  rw [floodPhase, if_pos now] at h1
  refine ⟨d₁, out₁, h1, ?_⟩
  obtain ⟨_, -, h1⟩ := bind_eq_ok.mp h1
  obtain ⟨_, -, h1⟩ := bind_eq_ok.mp h1
  obtain ⟨_, -, h1⟩ := bind_eq_ok.mp h1
  cases h1
  rw [retransmitPhase, if_neg (by simp)] at h2
  cases h2
  rfl

theorem floodTick_own {fresh : Fresh} (h : floodTick fresh d = .ok (d', out)) :
    ∃ n, getRoutingEntry d.rt d.myNodeId = some n := by
  obtain ⟨_, h1, -⟩ := bind_eq_ok.mp h
  obtain ⟨_, -, h1⟩ := bind_eq_ok.mp h1
  obtain ⟨_, -, h1⟩ := bind_eq_ok.mp h1
  obtain ⟨n, hn, -⟩ := bind_eq_ok.mp h1
  exact ⟨n, deref_eq_ok.mp hn⟩

/-- **Every pass that neither sends nor stores the LSA** of an entry only retransmits it, or ends the
wait. -/
theorem follows_act (r : (daemonSystem f).Reachable d) (h : act ev d = .ok (d', out))
    (hn : ¬ SentAt d ev k i) (hs : ¬ StoredAt d d' ev out k) {ms : List (RetryMark × Effect)}
    (hm : Retries d d' out ev ms) :
    Follows k i ((ms.map Prod.fst).count (.resent k i)) d.rt d'.rt := by
  cases hm with
  | round late effects trail =>
    have hround := follows_round (k := k) (i := i) trail
    exact hround
  | @flood fresh now =>
    obtain ⟨d₁, out₁, h1, hrt⟩ := timeout_flood h now
    obtain ⟨n, hown⟩ := floodTick_own h1
    have hpos : 1 ≤ k := by
      by_contra h0
      obtain rfl : k = 0 := by omega
      obtain rfl := own_index r hown
      exact hs (.inr ⟨⟨⟨fresh, rfl⟩, now⟩, hown⟩)
    refine follows_self ?_
    rw [hrt]
    exact ((floodTick_cells r h1).2 hpos).2 fun hf => hn ⟨fresh, rfl, now, hf⟩
  | request =>
    obtain ⟨-, rfl | ⟨_, _, _, _, -, rfl⟩⟩ := request_cases h <;> exact follows_self rfl
  | datagram =>
    obtain ⟨lsa, g, size, -, hh⟩ := receive_handled h
    cases hh with
    | ignored => exact follows_self rfl
    | accepted type newer link update objects =>
      rcases cellAt_updateEntry (k := k) (i := i) ((acceptedLsa_type _).trans type) update with
        ⟨hk, -⟩ | ⟨-, he⟩
      · exact absurd (.inl ⟨lsa.senderNodeId, lsa.sequenceNum, by simp, hk⟩) hs
      · exact follows_self he
    | credited type current update =>
      rcases cellAt_creditAck (k := k) (i := i) update with he | ⟨-, b, -, hb⟩
      · exact follows_self he
      · -- an ACK that is booked ends the wait
        intro a' ha' hn'
        cases hb.symm.trans ha'
        cases hn'

theorem not_awaited_stored (r : (daemonSystem f).Reachable d) (h : act ev d = .ok (d', out))
    (hn : ¬ SentAt d ev k i) (hs : StoredAt d d' ev out k) : ¬ Awaited d'.rt k i := by
  rintro ⟨a, ha, hw⟩
  rcases hs with hacc | ⟨⟨⟨fresh, rfl⟩, now⟩, hown⟩
  · obtain ⟨s, q, hmem, hk⟩ := hacc
    cases ev with
    | timeout fresh => exact not_acceptedAt_timeout h k ⟨s, q, hmem, hk⟩
    | request c uri opened =>
      obtain ⟨rfl, -⟩ := request_cases h
      cases hmem
    | datagram r fresh =>
      obtain ⟨lsa, g, size, -, hh⟩ := receive_handled h
      cases hh with
      | ignored => cases hmem
      | credited => cases hmem
      | accepted type newer link update objects =>
        have hs : s = lsa.senderNodeId := by
          simp only [List.mem_cons, List.not_mem_nil, or_false, rtSendto, reduceCtorEq, false_or,
            Effect.accept.injEq] at hmem
          exact hmem.1
        rcases cellAt_updateEntry (k := k) (i := i) ((acceptedLsa_type _).trans type) update with
          ⟨-, hz⟩ | ⟨hne, -⟩
        · rw [(hz a ha).1] at hw
          cases hw
        · exact hne (hs ▸ hk)
  · obtain ⟨d₁, out₁, h1, hrt⟩ := timeout_flood h now
    obtain rfl := own_index r hown
    rw [hrt] at ha
    exact hn ⟨fresh, rfl, now, ((floodTick_cells (k := 0) r h1).1 a ha).2 hw⟩

theorem not_awaited_boot (h : boot f = .ok d) : ¬ Awaited d.rt k i := by
  rintro ⟨a, ha, hw⟩
  obtain ⟨-, ht, -⟩ := boot_eq_ok h
  simp only [cellAt, ht, List.getElem?_mapIdx, Option.bind_eq_some_iff, Option.map_eq_some_iff] at ha
  obtain ⟨c, ⟨e, ⟨l, -, rfl⟩, hc⟩, ha⟩ := ha
  cases hc
  rw [clearedCheckers, List.getElem?_map, Option.map_eq_some_iff] at ha
  obtain ⟨l', -, rfl⟩ := ha
  cases hw

end Pass

/-! ### Runs -/

/-- One attempt to get an LSA to a neighbour: the counter that `flood` or `flood_received_lsa` found when it
sent it, the retransmissions since, and whether an ACK of it was handled since. -/
structure Try where
  found : ℤ
  resent : ℕ
  acked : Bool

/-- The runs of a daemon whose passes all meet `P`, with the last attempt to get the LSA of the entry at
index `k` to link `i`, if it was sent there since it was stored. -/
inductive Tried (f : Files) (P : Daemon → Event → Prop) (k i : ℕ) : Daemon → Option Try → Prop
  | boot {d : Daemon} (h : boot f = .ok d) : Tried f P k i d none
  | sent {d d' : Daemon} {t : Option Try} {ev : Event} {out : List Effect} {a : AckChecker}
      (r : Tried f P k i d t) (hp : P d ev) (h : act ev d = .ok (d', out)) (hs : SentAt d ev k i)
      (cell : cellAt d'.rt k i = some a) : Tried f P k i d' (some ⟨a.retransmit, 0, false⟩)
  | stored {d d' : Daemon} {t : Option Try} {ev : Event} {out : List Effect} (r : Tried f P k i d t)
      (hp : P d ev) (h : act ev d = .ok (d', out)) (hn : ¬ SentAt d ev k i)
      (hs : StoredAt d d' ev out k) : Tried f P k i d' none
  | acked {d d' : Daemon} {t : Option Try} {ev : Event} {out : List Effect} (r : Tried f P k i d t)
      (hp : P d ev) (h : act ev d = .ok (d', out)) (hn : ¬ SentAt d ev k i)
      (hs : ¬ StoredAt d d' ev out k) (ha : AckOf d ev k i) :
      Tried f P k i d' (t.map fun x => { x with acked := true })
  | other {d d' : Daemon} {t : Option Try} {ev : Event} {out : List Effect}
      {ms : List (RetryMark × Effect)} (r : Tried f P k i d t) (hp : P d ev)
      (h : act ev d = .ok (d', out)) (hn : ¬ SentAt d ev k i) (hs : ¬ StoredAt d d' ev out k)
      (ha : ¬ AckOf d ev k i) (hm : Retries d d' out ev ms) : Tried f P k i d'
        (t.map fun x => { x with resent := x.resent + (ms.map Prod.fst).count (.resent k i) })

section Runs

variable {f : Files} {P : Daemon → Event → Prop} {k i : ℕ} {d d' : Daemon} {t : Option Try} {ev : Event}
  {out : List Effect}

theorem Tried.reachable (h : Tried f P k i d t) : (daemonSystem f).Reachable d := by
  induction h with
  | boot h => exact .init h
  | @sent _ _ _ ev out _ _ _ h _ _ ih => exact ih.step (l := (ev, out)) h
  | @stored _ _ _ ev out _ _ h _ _ ih => exact ih.step (l := (ev, out)) h
  | @acked _ _ _ ev out _ _ h _ _ _ ih => exact ih.step (l := (ev, out)) h
  | @other _ _ _ ev out _ _ _ h _ _ _ _ ih => exact ih.step (l := (ev, out)) h

theorem FloodSends.exists_entry {fresh : Fresh} (r : (daemonSystem f).Reachable d)
    (h : FloodSends fresh d i k) : k < d.rt.numEntry ∧ ∃ l, (l, i) ∈ d.dl.neighbours := by
  cases h with
  | @own _ _ _ _ l packet entry update link =>
    exact ⟨getRoutingEntry_lt entry, l, (List.mem_filter.mp link).1⟩
  | received pos own before passes =>
    obtain ⟨e, l, he, -, -, hl⟩ := passes
    have hb := ((tickEntries_other before k).1 (by simp; omega)).trans (flood_other r own pos)
    obtain ⟨e', he', -⟩ := exists_of_bareAt hb.symm he
    exact ⟨(List.getElem?_eq_some_iff.mp he').1, l, (List.mem_filter.mp hl).1⟩

/-- A checker that waits has counted the retransmissions of the last attempt, from what it found. -/
def Accounted (k i : ℕ) (rt : RoutingTable) (t : Option Try) : Prop :=
  ∀ a, cellAt rt k i = some a → a.ackReceived = .notReceived →
    ∃ x, t = some x ∧ a.retransmit = x.found + x.resent

theorem accounted_of_not_awaited {rt : RoutingTable} (h : ¬ Awaited rt k i) : Accounted k i rt t :=
  fun a ha hn => absurd ⟨a, ha, hn⟩ h

theorem Accounted.follows {n : ℕ} {rt rt' : RoutingTable} {g : Try → Try} (h : Accounted k i rt t)
    (hf : Follows k i n rt rt') (hfound : ∀ x, (g x).found = x.found)
    (hresent : ∀ x, (g x).resent = x.resent + n) : Accounted k i rt' (t.map g) := by
  intro a' ha' hn'
  obtain ⟨a, ha, hn, hr⟩ := hf a' ha' hn'
  obtain ⟨x, rfl, hx⟩ := h a ha hn
  refine ⟨g x, rfl, ?_⟩
  rw [hfound, hresent, hr, hx]
  push_cast
  ring

theorem AckOf.retries {ms : List (RetryMark × Effect)} (ha : AckOf d ev k i)
    (hm : Retries d d' out ev ms) : ms = [] := by
  obtain ⟨_, _, _, _, _, rfl, -⟩ := ha
  cases hm
  rfl

theorem AckOf.follows (r : (daemonSystem f).Reachable d) (h : act ev d = .ok (d', out))
    (hn : ¬ SentAt d ev k i) (hs : ¬ StoredAt d d' ev out k) (ha : AckOf d ev k i) :
    Follows k i 0 d.rt d'.rt := by
  obtain ⟨ms, hm⟩ := exists_retries r h
  have hf := follows_act r h hn hs hm
  rw [ha.retries hm] at hf
  exact hf

theorem Tried.accounted (h : Tried f P k i d t) : Accounted k i d.rt t := by
  induction h with
  | boot h => exact accounted_of_not_awaited (not_awaited_boot h)
  | sent r hp h hs cell =>
    intro b hb hn
    rw [cell, Option.some.injEq] at hb
    subst hb
    exact ⟨_, rfl, by simp⟩
  | stored r hp h hn hs ih => exact accounted_of_not_awaited (not_awaited_stored r.reachable h hn hs)
  | acked r hp h hn hs ha ih =>
    exact ih.follows (ha.follows r.reachable h hn hs) (fun _ => rfl) fun _ => rfl
  | other r hp h hn hs ha hm ih =>
    exact ih.follows (follows_act r.reachable h hn hs hm) (fun _ => rfl) fun _ => rfl

/-- **What led to a give-up.** -/
theorem Tried.gaveUp (hr : Tried f P k i d t) {xs ys : List (RetryMark × Effect)} {x : Effect}
    (hm : Retries d d' out ev (xs ++ (.gaveUp k i, x) :: ys)) :
    ∃ y l, t = some y ∧ Awaited d.rt k i ∧ d.dl.links[i]? = some l ∧ x = .giveUp l.id ∧
      y.found + y.resent + (xs.map Prod.fst).count (.resent k i) = retransmitTime - 1 := by
  generalize hms : xs ++ (.gaveUp k i, x) :: ys = ms at hm
  cases hm with
  | round late effects trail =>
    rw [← hms] at trail
    obtain ⟨a, l, ha, hn, hfull, hl, hx⟩ := gaveUp_full (countable_reachable hr.reachable) trail
    obtain ⟨y, hy, hacc⟩ := hr.accounted a ha hn
    exact ⟨y, l, hy, ⟨a, ha, hn⟩, hl, hx, by omega⟩
  | flood => simp at hms
  | datagram => simp at hms
  | request => simp at hms

end Runs

section Ack

variable {d d' : Daemon} {r : Received} {fresh : Fresh} {lsa : LSA} {id : Int32} {size k m i : ℕ}
  {out : List Effect}

end Ack

end RoutingDaemon
