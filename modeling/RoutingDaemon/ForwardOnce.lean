import RoutingDaemon.Ageing

/-!
# How often the flood tick forwards an LSA

* `Forwards`: the flood tick passes the LSA of an entry to `flood_received_lsa`; `forwards_iff`: whether it
  does can be read off the table before the pass, since the passes over other entries change checkers
  only.
* `newAt_act`: an entry keeps its `lsa_is_new` until an LSA is accepted into it. Nothing clears it.
* `ForwardCount`: the runs of a daemon, with the number of flood ticks that forwarded an LSA since it was
  accepted. `forwarded_once`: an LSA is forwarded once only as long as every flood tick finds the new LSAs
  fresh, that is with the status word that `update_entry` gave them.
-/

namespace RoutingDaemon

/-! ### What a pass leaves of another entry -/

/-- The entry at index `i` without its checkers. -/
def bareAt (rt : RoutingTable) (i : ℕ) : Option RoutingEntry := rt.table[i]?.map RoutingEntry.bare

/-- Whether the LSA of the entry at index `i` counts as new. -/
def newAt (rt : RoutingTable) (i : ℕ) : Option Bool := rt.table[i]?.map RoutingEntry.lsaIsNew

theorem bareAt_of_bare {rt rt' : RoutingTable} {i : ℕ}
    (h : rt'.table.map RoutingEntry.bare = rt.table.map RoutingEntry.bare) :
    bareAt rt' i = bareAt rt i := by
  rw [bareAt, bareAt, ← List.getElem?_map, ← List.getElem?_map, h]

theorem bareAt_modify_of_ne {rt : RoutingTable} {k i : ℕ} {f : RoutingEntry → RoutingEntry}
    (h : k ≠ i) : bareAt (rt.modify k f) i = bareAt rt i := by
  rw [bareAt, bareAt, getElem?_modify]
  simp [h]

theorem newAt_of_bareAt {rt rt' : RoutingTable} {i : ℕ} (h : bareAt rt' i = bareAt rt i) :
    newAt rt' i = newAt rt i := by
  have key : ∀ t : RoutingTable, newAt t i = (bareAt t i).map RoutingEntry.lsaIsNew := fun t => by
    rw [newAt, bareAt, Option.map_map]
    rfl
  rw [key, key, h]

theorem newAt_keep {rt : RoutingTable} {k i : ℕ} {f : RoutingEntry → RoutingEntry}
    (hf : ∀ e, (f e).lsaIsNew = e.lsaIsNew) : newAt (rt.modify k f) i = newAt rt i := by
  unfold newAt
  rw [getElem?_modify, Option.map_map]
  congr 1
  funext e
  simp only [Function.comp]
  split_ifs
  · exact hf e
  · rfl

theorem exists_of_bareAt {rt rt' : RoutingTable} {i : ℕ} {e : RoutingEntry}
    (h : bareAt rt' i = bareAt rt i) (he : rt.table[i]? = some e) :
    ∃ e', rt'.table[i]? = some e' ∧ e'.bare = e.bare := by
  rw [bareAt, bareAt, he, Option.map_some, Option.map_eq_some_iff] at h
  exact h

/-- The pass over one entry changes the others only in their checkers, and no entry in its
`lsa_is_new`. -/
theorem tickEntry_other {dl : DirectLinks} {i : ℕ} {rt rt' : RoutingTable} {ht ht' : LisoHash}
    {out : List Effect} (h : tickEntry dl i rt ht = .ok (rt', ht', out)) (j : ℕ) :
    (i ≠ j → bareAt rt' j = bareAt rt j) ∧ newAt rt' j = newAt rt j := by
  obtain ⟨e, -, h⟩ := bind_eq_ok.mp h
  obtain ⟨⟨rt₁, out₁⟩, h1, h⟩ := bind_eq_ok.mp h
  have hb := bareAt_of_bare (i := j) (forwardEntry_bare h1)
  have hn := newAt_of_bareAt hb
  dsimp only at h
  split_ifs at h with h0 hlast <;> cases h
  · exact ⟨fun _ => hb, hn⟩
  · have hk : newAt (rt₁.modify i RoutingEntry.discard) j = newAt rt₁ j := newAt_keep fun _ => rfl
    exact ⟨fun hj => (bareAt_modify_of_ne hj).trans hb, hk.trans hn⟩
  · have hk : newAt (rt₁.modify i fun e' => { e' with nodeStatus := e.nodeStatus - 1 }) j = newAt rt₁ j :=
      newAt_keep fun _ => rfl
    exact ⟨fun hj => (bareAt_modify_of_ne hj).trans hb, hk.trans hn⟩

theorem tickEntries_other {dl : DirectLinks} {is : List ℕ} {rt rt' : RoutingTable} {ht ht' : LisoHash}
    {out : List Effect} (h : tickEntries dl is rt ht = .ok (rt', ht', out)) (j : ℕ) :
    (j ∉ is → bareAt rt' j = bareAt rt j) ∧ newAt rt' j = newAt rt j := by
  induction is generalizing rt ht out with
  | nil =>
    cases h
    exact ⟨fun _ => rfl, rfl⟩
  | cons i is ih =>
    obtain ⟨⟨rt₁, gol₁, out₁⟩, h1, h⟩ := bind_eq_ok.mp h
    obtain ⟨⟨rt₂, gol₂, out₂⟩, h2, h⟩ := bind_eq_ok.mp h
    cases h
    obtain ⟨hb₁, hn₁⟩ := tickEntry_other h1 j
    obtain ⟨hb₂, hn₂⟩ := ih h2
    refine ⟨fun hj => ?_, hn₂.trans hn₁⟩
    rw [List.mem_cons, not_or] at hj
    exact (hb₂ hj.2).trans (hb₁ (Ne.symm hj.1))

theorem tickEntries_append {dl : DirectLinks} {is js : List ℕ} {rt : RoutingTable} {ht : LisoHash}
    {p : RoutingTable × LisoHash × List Effect} (h : tickEntries dl (is ++ js) rt ht = .ok p) :
    ∃ rt₁ ht₁ out₁ q, tickEntries dl is rt ht = .ok (rt₁, ht₁, out₁) ∧
      tickEntries dl js rt₁ ht₁ = .ok q ∧ p = (q.1, q.2.1, out₁ ++ q.2.2) := by
  induction is generalizing rt ht p with
  | nil => exact ⟨rt, ht, [], p, rfl, h, rfl⟩
  | cons i is ih =>
    obtain ⟨⟨rt₁, ht₁, out₁⟩, h1, h⟩ := bind_eq_ok.mp h
    obtain ⟨p₂, h2, h⟩ := bind_eq_ok.mp h
    cases h
    obtain ⟨rt₂, ht₂, out₂, q, h3, h4, rfl⟩ := ih h2
    refine ⟨rt₂, ht₂, out₁ ++ out₂, q, ?_, h4, by simp⟩
    exact bind_eq_ok.mpr ⟨_, h1, bind_eq_ok.mpr ⟨_, h3, rfl⟩⟩

theorem flood_other {f : Files} {d : Daemon} (r : (daemonSystem f).Reachable d) {fresh : Fresh}
    {rt : RoutingTable} {out : List Effect}
    (h : flood fresh typeLsa d.dl d.ol d.rt d.myNodeId d.sequenceNumber = .ok (rt, out)) {i : ℕ}
    (hi : 1 ≤ i) : bareAt rt i = bareAt d.rt i := by
  obtain ⟨⟨lsa, size⟩, hp, h⟩ := bind_eq_ok.mp h
  obtain ⟨rt₀, hu, h⟩ := bind_eq_ok.mp h
  obtain ⟨k, hk, h⟩ := bind_eq_ok.mp h
  rw [deref_eq_ok] at hk
  rw [hk, updateEntry_some (Stores.own hp).type, Except.ok.injEq] at hu
  rw [bareAt_of_bare (floodLinks_bare h), ← hu, bareAt_modify_of_ne]
  rw [own_index r hk]
  omega

/-! ### The flood tick -/

/-- In the flood tick, the LSA of the entry at index `i` is passed to `flood_received_lsa`: the loop
reaches the entry after the own flood and after the entries before it. -/
def Forwards (fresh : Fresh) (d : Daemon) (i : ℕ) : Prop :=
  1 ≤ i ∧ ∃ rt₁ out₁ rt₂ gol₂ out₂ e,
    flood fresh typeLsa d.dl d.ol d.rt d.myNodeId d.sequenceNumber = .ok (rt₁, out₁) ∧
      tickEntries d.dl (List.range' 1 (i - 1)) rt₁ d.gol = .ok (rt₂, gol₂, out₂) ∧
        rt₂.table[i]? = some e ∧ e.lsaIsNew = true ∧ e.nodeStatus ≠ statusDown

/-- A new LSA of a node that is not down. -/
def FreshEntry (d : Daemon) (i : ℕ) : Prop :=
  ∃ e, d.rt.table[i]? = some e ∧ e.lsaIsNew = true ∧ e.nodeStatus ≠ statusDown

theorem range'_split {i n : ℕ} (h1 : 1 ≤ i) (h2 : i < n) :
    List.range' 1 (n - 1) = List.range' 1 (i - 1) ++ i :: List.range' (i + 1) (n - i - 1) := by
  have h3 : n - 1 = (i - 1) + (1 + (n - i - 1)) := by omega
  have h4 : 1 + (i - 1) = i := by omega
  rw [h3, ← List.range'_append_1, ← List.range'_append_1, h4]
  rfl

/-- **Which LSAs a flood tick forwards.** -/
theorem forwards_iff {f : Files} {d d' : Daemon} (r : (daemonSystem f).Reachable d) {fresh : Fresh}
    {out : List Effect} (h : floodTick fresh d = .ok (d', out)) {i : ℕ} (hi : 1 ≤ i) :
    Forwards fresh d i ↔ FreshEntry d i := by
  obtain ⟨⟨rt₁, out₁⟩, h1, h⟩ := bind_eq_ok.mp h
  obtain ⟨seq, -, h⟩ := bind_eq_ok.mp h
  obtain ⟨q, h2, -⟩ := bind_eq_ok.mp h
  have hflood := flood_other r h1 hi
  constructor
  · rintro ⟨-, rt₁', out₁', rt₂, gol₂, out₂, e, h1', h3, he, hn, hst⟩
    cases h1.symm.trans h1'
    have hb := ((tickEntries_other h3 i).1 (by simp; omega)).trans hflood
    obtain ⟨e', he', hbe⟩ := exists_of_bareAt hb.symm he
    obtain ⟨-, -, -, hst', -, -, hn', -⟩ := bare_eq_iff.mp hbe
    exact ⟨e', he', hn'.trans hn, by rw [hst']; exact hst⟩
  · rintro ⟨e, he, hn, hst⟩
    obtain ⟨e₁, he₁, hbe⟩ := exists_of_bareAt hflood he
    have hlt : i < rt₁.numEntry := (List.getElem?_eq_some_iff.mp he₁).1
    rw [range'_split hi hlt] at h2
    obtain ⟨rt₂, gol₂, out₂, -, h3, -⟩ := tickEntries_append h2
    obtain ⟨e₂, he₂, hbe₂⟩ := exists_of_bareAt ((tickEntries_other h3 i).1 (by simp; omega)) he₁
    obtain ⟨-, -, -, hst', -, -, hn', -⟩ := bare_eq_iff.mp (hbe₂.trans hbe)
    exact ⟨hi, rt₁, out₁, rt₂, gol₂, out₂, e₂, h1, h3, he₂, hn'.trans hn, by rw [hst']; exact hst⟩

/-! ### The other passes -/

theorem newAt_retry {d d' : Daemon} {ms : List (Option (ℕ × ℕ) × Effect)} (h : Trail Retry d ms d')
    (i : ℕ) : newAt d'.rt i = newAt d.rt i := by
  induction h with
  | refl => rfl
  | tail _ h ih =>
    rw [← ih]
    cases h with
    | resend ok other checker pending budget => exact newAt_keep fun _ => rfl
    | @giveUp k j m l e c link checker pending budget =>
      have h1 : ∀ rt : RoutingTable, newAt (modifyChecker rt k j fun a =>
          { a with ackReceived := .received }) i = newAt rt i := fun rt => newAt_keep fun _ => rfl
      have h2 : ∀ rt : RoutingTable, newAt (rt.modify m RoutingEntry.discard) i = newAt rt i :=
        fun rt => newAt_keep fun _ => rfl
      exact (h1 _).trans (h2 _)

theorem newAt_timeout {f : Files} {d d' : Daemon} {fresh : Fresh} {out : List Effect}
    (r : (daemonSystem f).Reachable d) (h : timeout fresh d = .ok (d', out)) {i : ℕ} (hi : 1 ≤ i) :
    newAt d'.rt i = newAt d.rt i := by
  obtain ⟨⟨d₁, out₁⟩, h1, h⟩ := bind_eq_ok.mp h
  obtain ⟨⟨d₂, out₂⟩, h2, h⟩ := bind_eq_ok.mp h
  cases h
  obtain ⟨ms, -, tr⟩ := retransmitPhase_trail h2
  refine (newAt_retry tr i).trans ?_
  unfold floodPhase at h1
  split_ifs at h1
  · obtain ⟨⟨rt₁, out₁⟩, h3, h1⟩ := bind_eq_ok.mp h1
    obtain ⟨seq, -, h1⟩ := bind_eq_ok.mp h1
    obtain ⟨⟨rt₂, gol₂, out₂⟩, h4, h1⟩ := bind_eq_ok.mp h1
    cases h1
    exact (tickEntries_other h4 i).2.trans (newAt_of_bareAt (flood_other r h3 hi))
  · cases h1
    rfl

theorem updateEntry_other {fresh : Fresh} {rt rt' : RoutingTable} {dl : DirectLinks} {lsa : LSA}
    {size : ℕ} {nexthop : Int32} (ht : getType lsa.versionTtlType = typeLsa)
    (h : updateEntry fresh (getRoutingEntry rt lsa.senderNodeId) rt dl lsa size nexthop = .ok rt')
    {i : ℕ} (hi : getRoutingEntry rt' lsa.senderNodeId ≠ some i) : rt'.table[i]? = rt.table[i]? := by
  cases hk : getRoutingEntry rt lsa.senderNodeId with
  | none =>
    rw [hk, updateEntry_none ht] at h
    have hself := getRoutingEntry_push_self h hk
    simp only [storeLsa, newEntry] at hself
    rw [getElem?_push h]
    rcases lt_trichotomy i rt.table.length with hlt | heq | hgt
    · exact List.getElem?_append_left hlt
    · exact absurd (hself.trans (congrArg some heq.symm)) hi
    · rw [List.getElem?_eq_none_iff.mpr (by simp; omega), List.getElem?_eq_none_iff.mpr (by omega)]
  | some k =>
    rw [hk, updateEntry_some ht] at h
    cases h
    rw [getRoutingEntry_modify (by exact fun _ => rfl), hk] at hi
    have hki : k ≠ i := fun e => hi (congrArg some e)
    rw [getElem?_modify]
    simp [hki]

/-- **An entry keeps its `lsa_is_new`** until an LSA is accepted into it. -/
theorem newAt_act {f : Files} {d d' : Daemon} {ev : Event} {out : List Effect}
    (r : (daemonSystem f).Reachable d) (h : act ev d = .ok (d', out)) {i : ℕ} (hi : 1 ≤ i)
    (ha : ¬ AcceptedAt d' out i) : newAt d'.rt i = newAt d.rt i := by
  cases ev with
  | timeout fresh => exact newAt_timeout r h hi
  | request c uri opened =>
    obtain ⟨-, rfl | ⟨_, _, _, _, -, rfl⟩⟩ := request_cases h <;> rfl
  | datagram r fresh =>
    obtain ⟨lsa, g, size, -, hh⟩ := receive_handled h
    cases hh with
    | ignored => rfl
    | accepted type newer link update objects =>
      have hne := fun hs => ha ⟨lsa.senderNodeId, lsa.sequenceNum, by simp, hs⟩
      rw [newAt, newAt, updateEntry_other (by rw [acceptedLsa_type, type]) update hne]
    | credited type current update =>
      obtain ⟨_, _, _, _, _, -, -, -, -, -, -, rfl⟩ := creditAck_eq_ok update
      exact newAt_keep fun _ => rfl

/-! ### Runs -/

/-- The pass is a flood tick that forwards the LSA of the entry at index `i`. -/
def ForwardTick (d : Daemon) (ev : Event) (i : ℕ) : Prop :=
  ∃ fresh, ev = .timeout fresh ∧ d.iterations = floodingPeriod ∧ Forwards fresh d i

/-- The runs of a daemon whose passes all meet `P`, with the number of flood ticks that forwarded the LSA
of the entry at index `i` since it was accepted. -/
inductive ForwardCount (f : Files) (P : Daemon → Event → Prop) (i : ℕ) : Daemon → ℕ → Prop
  | boot {d : Daemon} (h : boot f = .ok d) : ForwardCount f P i d 0
  | accepted {d d' : Daemon} {n : ℕ} {ev : Event} {out : List Effect} (r : ForwardCount f P i d n)
      (hp : P d ev) (h : act ev d = .ok (d', out)) (ha : AcceptedAt d' out i) : ForwardCount f P i d' 0
  | forward {d d' : Daemon} {n : ℕ} {ev : Event} {out : List Effect} (r : ForwardCount f P i d n)
      (hp : P d ev) (h : act ev d = .ok (d', out)) (ha : ¬ AcceptedAt d' out i)
      (ht : ForwardTick d ev i) : ForwardCount f P i d' (n + 1)
  | other {d d' : Daemon} {n : ℕ} {ev : Event} {out : List Effect} (r : ForwardCount f P i d n)
      (hp : P d ev) (h : act ev d = .ok (d', out)) (ha : ¬ AcceptedAt d' out i)
      (ht : ¬ ForwardTick d ev i) : ForwardCount f P i d' n

section Runs

variable {f : Files} {P : Daemon → Event → Prop} {i : ℕ} {d : Daemon} {n : ℕ}

theorem ForwardCount.reachable (h : ForwardCount f P i d n) : (daemonSystem f).Reachable d := by
  induction h with
  | boot h => exact .init h
  | @accepted _ _ _ ev out _ _ h _ ih => exact ih.step (l := (ev, out)) h
  | @forward _ _ _ ev out _ _ h _ _ ih => exact ih.step (l := (ev, out)) h
  | @other _ _ _ ev out _ _ h _ _ ih => exact ih.step (l := (ev, out)) h

theorem exists_forwarded (i : ℕ) (r : (daemonSystem f).Reachable d) :
    ∃ n, ForwardCount f (fun _ _ => True) i d n := by
  refine r.invariant (I := fun d => ∃ n, ForwardCount f (fun _ _ => True) i d n)
    (fun d h => ⟨0, .boot h⟩) ?_
  rintro d l d' ⟨n, hr⟩ h
  by_cases ha : AcceptedAt d' l.2 i
  · exact ⟨_, hr.accepted trivial h ha⟩
  · by_cases ht : ForwardTick d l.1 i
    · exact ⟨_, hr.forward trivial h ha ht⟩
    · exact ⟨_, hr.other trivial h ha ht⟩

/-- What the count says of the entry: an LSA that was not forwarded yet has the status word it was given,
unless its node was given up; one that was forwarded has not. -/
structure Tally (d : Daemon) (i n : ℕ) : Prop where
  none : n = 0 → newAt d.rt i = some true →
    statusAt d.rt i = some statusDown ∨ statusAt d.rt i = some retransmitTime
  some : n ≠ 0 → statusAt d.rt i ≠ some retransmitTime

theorem statusAt_le (r : (daemonSystem f).Reachable d) {s : ℤ} (h : statusAt d.rt i = some s) :
    0 ≤ s ∧ s ≤ retransmitTime := by
  obtain ⟨e, he, rfl⟩ := statusAt_eq_some.mp h
  obtain ⟨h0, hle, -⟩ := statusOk_reachable r i e he
  exact ⟨h0, hle⟩

theorem aged_ne (r : (daemonSystem f).Reachable d) :
    (statusAt d.rt i).map aged ≠ some retransmitTime := by
  intro h
  obtain ⟨s, hs, ha⟩ := Option.map_eq_some_iff.mp h
  obtain ⟨h0, hle⟩ := statusAt_le r hs
  unfold aged statusDown at ha
  split_ifs at ha with hd
  · rw [hd] at ha
    exact absurd ha (by decide)
  · omega

theorem forwardTick_iff (r : (daemonSystem f).Reachable d) {d' : Daemon} {ev : Event}
    {out : List Effect} (h : act ev d = .ok (d', out)) (hi : 1 ≤ i) :
    ForwardTick d ev i ↔ FloodTick d ev ∧ FreshEntry d i := by
  constructor
  · rintro ⟨fresh, rfl, hit, hf⟩
    obtain ⟨⟨d₁, out₁⟩, h1, -⟩ := bind_eq_ok.mp h
    rw [floodPhase, if_pos hit] at h1
    exact ⟨⟨⟨fresh, rfl⟩, hit⟩, (forwards_iff r h1 hi).mp hf⟩
  · rintro ⟨⟨⟨fresh, rfl⟩, hit⟩, hf⟩
    obtain ⟨⟨d₁, out₁⟩, h1, -⟩ := bind_eq_ok.mp h
    rw [floodPhase, if_pos hit] at h1
    exact ⟨fresh, rfl, hit, (forwards_iff r h1 hi).mpr hf⟩

theorem freshEntry_iff : FreshEntry d i ↔
    newAt d.rt i = some true ∧ ∃ s, statusAt d.rt i = some s ∧ s ≠ statusDown := by
  unfold FreshEntry newAt statusAt
  cases d.rt.table[i]? <;> simp

theorem ForwardCount.tally (h : ForwardCount f P i d n) (hi : 1 ≤ i) : Tally d i n := by
  induction h with
  | @boot d h =>
    obtain ⟨-, ht, -⟩ := boot_eq_ok h
    refine ⟨fun _ hn => ?_, fun h => absurd rfl h⟩
    rw [newAt, ht, List.getElem?_mapIdx, Option.map_map, Option.map_eq_some_iff] at hn
    obtain ⟨l, -, hl⟩ := hn
    cases hl
  | @accepted d d' n ev out r hp h ha ih =>
    refine ⟨fun _ _ => .inr ?_, fun h => absurd rfl h⟩
    rcases statusAt_act r.reachable h hi with ⟨-, hst⟩ | ⟨hna, -⟩
    · exact hst
    · exact absurd ha hna
  | @forward d d' n ev out r hp h ha ht ih =>
    refine ⟨fun h => absurd h (Nat.succ_ne_zero n), fun _ => ?_⟩
    obtain ⟨hft, -⟩ := (forwardTick_iff r.reachable h hi).mp ht
    rcases statusAt_act r.reachable h hi with ⟨hacc, -⟩ | ⟨-, ⟨-, hst⟩ | ⟨hnt, -⟩⟩
    · exact absurd hacc ha
    · rw [hst]
      exact aged_ne r.reachable
    · exact absurd hft hnt
  | @other d d' n ev out r hp h ha ht ih =>
    have hnew := newAt_act r.reachable h hi ha
    rcases statusAt_act r.reachable h hi with ⟨hacc, -⟩ | ⟨-, ⟨hft, hst⟩ | ⟨-, hst⟩⟩
    · exact absurd hacc ha
    · refine ⟨fun h0 hn => .inl ?_, fun _ => ?_⟩
      · -- a flood tick that does not forward a new LSA finds its node down
        have hfresh : ¬ FreshEntry d i := fun hf =>
          ht ((forwardTick_iff r.reachable h hi).mpr ⟨hft, hf⟩)
        rw [hnew] at hn
        rcases ih.none h0 hn with hd | hd
        · rw [hst, hd]
          rfl
        · exact absurd (freshEntry_iff.mpr ⟨hn, _, hd, by decide⟩) hfresh
      · rw [hst]
        exact aged_ne r.reachable
    · refine ⟨fun h0 hn => ?_, fun h0 hs => ?_⟩
      · rw [hnew] at hn
        rcases hst with hst | ⟨hst, -⟩
        · rw [hst]
          exact ih.none h0 hn
        · exact .inl hst
      · rcases hst with hst | ⟨hst, -⟩
        · exact ih.some h0 (hst.symm.trans hs)
        · rw [hst] at hs
          exact absurd hs (by decide)

end Runs

/-- A flood tick finds the LSA of another entry, if it is new and its node is not down, with the status
word that `update_entry` gave it. -/
def FirstTickAt (i : ℕ) (d : Daemon) (ev : Event) : Prop :=
  1 ≤ i → FloodTick d ev → FreshEntry d i → statusAt d.rt i = some retransmitTime

/-- **What the condition means for one pass.** -/
theorem ForwardCount.firstTickAt_iff {f : Files} {P : Daemon → Event → Prop} {i n : ℕ} {d d' : Daemon}
    {ev : Event} {out : List Effect} (hr : ForwardCount f P i d n) (h : act ev d = .ok (d', out)) :
    (ForwardTick d ev i → n = 0) ↔ FirstTickAt i d ev := by
  by_cases hi : 1 ≤ i
  · have ht := hr.tally hi
    rw [forwardTick_iff hr.reachable h hi]
    refine ⟨fun h0 _ hft hf => ?_, fun hfirst hf => by_contra fun hne => ?_⟩
    · obtain ⟨hnew, s, hs, hup⟩ := freshEntry_iff.mp hf
      rcases ht.none (h0 ⟨hft, hf⟩) hnew with hd | hd
      · exact absurd (Option.some.inj (hs.symm.trans hd)) hup
      · exact hd
    · exact ht.some hne (hfirst hi hf.1 hf.2)
  · -- the loop starts at index 1
    refine iff_of_true ?_ fun h1 => absurd h1 hi
    rintro ⟨fresh, -, -, h1, -⟩
    exact absurd h1 hi

/-- **An LSA is forwarded once as long as the flood ticks find it fresh.** Every run is counted; a flood
tick forwards no LSA a second time exactly if it finds it as `update_entry` left it; and in a run whose
flood ticks all do, no LSA is forwarded twice before the next one is accepted. -/
theorem forwarded_once (f : Files) (i : ℕ) :
    (∀ d, (daemonSystem f).Reachable d → ∃ n, ForwardCount f (fun _ _ => True) i d n) ∧
    (∀ d n, ForwardCount f (fun _ _ => True) i d n → ∀ ev d' out, act ev d = .ok (d', out) →
      ((ForwardTick d ev i → n = 0) ↔ FirstTickAt i d ev)) ∧
    ∀ d n, ForwardCount f (FirstTickAt i) i d n → n ≤ 1 := by
  refine ⟨fun d r => exists_forwarded i r, fun d n hr ev d' out h => hr.firstTickAt_iff h,
    fun d n hr => ?_⟩
  induction hr with
  | boot h => exact Nat.zero_le 1
  | accepted r hp h ha ih => exact Nat.zero_le 1
  | forward r hp h ha ht ih =>
    rw [(r.firstTickAt_iff h).mpr hp ht]
  | other r hp h ha ht ih => exact ih

/-! ### An LSA that is forwarded again -/

/-- Whether an effect is the acceptance of an LSA into the entry at index `i`. -/
def Effect.acceptsInto (rt : RoutingTable) (i : ℕ) : Effect → Bool
  | .accept s _ => getRoutingEntry rt s = some i
  | _ => false

/-- Whether `select` timed out. -/
def Event.isTimeout : Event → Bool
  | .timeout _ => true
  | _ => false

/-- The count after one pass, computed. -/
def recount (i : ℕ) (d : Daemon) (ev : Event) (d' : Daemon) (out : List Effect) (n : ℕ) : ℕ :=
  if out.any (Effect.acceptsInto d'.rt i) then 0
  else if ev.isTimeout ∧ d.iterations = floodingPeriod ∧ newAt d.rt i = some true ∧
    statusAt d.rt i ≠ some statusDown then n + 1
  else n

/-- Several passes, with the count. -/
def execCount (i : ℕ) : List Event → Daemon → ℕ → Except Fault (Daemon × ℕ)
  | [], d, n => .ok (d, n)
  | ev :: evs, d, n => do
    let (d', out) ← act ev d
    execCount i evs d' (recount i d ev d' out n)

theorem ForwardCount.recount {f : Files} {i n : ℕ} {d d' : Daemon} {ev : Event} {out : List Effect}
    (hi : 1 ≤ i) (hr : ForwardCount f (fun _ _ => True) i d n) (h : act ev d = .ok (d', out)) :
    ForwardCount f (fun _ _ => True) i d' (recount i d ev d' out n) := by
  have hacc : out.any (Effect.acceptsInto d'.rt i) = true ↔ AcceptedAt d' out i := by
    rw [List.any_eq_true]
    constructor
    · rintro ⟨x, hx, hm⟩
      cases x with
      | accept s q => exact ⟨s, q, hx, by simpa [Effect.acceptsInto] using hm⟩
      | _ => cases hm
    · rintro ⟨s, q, hx, hs⟩
      exact ⟨_, hx, by simpa [Effect.acceptsInto] using hs⟩
  have htick : ForwardTick d ev i ↔ ev.isTimeout ∧ d.iterations = floodingPeriod ∧
      newAt d.rt i = some true ∧ statusAt d.rt i ≠ some statusDown := by
    have hst : newAt d.rt i = some true → ((∃ s, statusAt d.rt i = some s ∧ s ≠ statusDown) ↔
        statusAt d.rt i ≠ some statusDown) := by
      unfold newAt statusAt
      cases d.rt.table[i]? <;> simp
    have hev : FloodTick d ev ↔ ev.isTimeout ∧ d.iterations = floodingPeriod := by
      cases ev <;> simp [FloodTick, Event.isTimeout]
    rw [forwardTick_iff hr.reachable h hi, freshEntry_iff, hev, and_assoc]
    exact and_congr_right fun _ => and_congr_right fun _ => and_congr_right hst
  unfold RoutingDaemon.recount
  split_ifs with h1 h2
  · exact hr.accepted trivial h (hacc.mp h1)
  · exact hr.forward trivial h (fun ha => h1 (hacc.mpr ha)) (htick.mpr h2)
  · exact hr.other trivial h (fun ha => h1 (hacc.mpr ha)) (fun ht => h2 (htick.mp ht))

theorem ForwardCount.execCount {f : Files} {i n n' : ℕ} {evs : List Event} {d d' : Daemon} (hi : 1 ≤ i)
    (hr : ForwardCount f (fun _ _ => True) i d n) (h : execCount i evs d n = .ok (d', n')) :
    ForwardCount f (fun _ _ => True) i d' n' := by
  induction evs generalizing d n with
  | nil =>
    cases h
    exact hr
  | cons ev evs ih =>
    obtain ⟨⟨d₁, out⟩, h1, h⟩ := bind_eq_ok.mp h
    exact ih (hr.recount hi h1) h

/-- Node 1 gets an LSA of node 2 and floods; its own LSA is acknowledged by both neighbours, and then
node 3 sends its first LSA. Another period passes. -/
def twoPeriods : List Event :=
  forkRun ++ [.datagram (.got (cstr [66]) (plainPacket typeAck 1).bytes) zeros,
    .datagram (ackOf 1) zeros] ++ List.replicate 5 (.timeout zeros) ++
    .datagram (.got (cstr [67]) (plainPacket typeLsa 3).bytes) zeros :: List.replicate 5 (.timeout zeros)

/-- **The only LSA that node 2 ever sent is forwarded in two flood ticks.** -/
theorem exists_forwarded_again : ∃ d, ForwardCount forkFiles (fun _ _ => True) 1 d 2 ∧
    (storedLsa d.rt 1).map LSA.bytes = some (acceptedLsa (plainPacket typeLsa 2)).bytes := by
  have key : (boot forkFiles >>= fun d => execCount 1 twoPeriods d 0 >>= fun p => .ok (d, p)).map
      (fun p => decide (p.2.2 = 2) && decide ((storedLsa p.2.1.rt 1).map LSA.bytes =
        some (acceptedLsa (plainPacket typeLsa 2)).bytes)) = .ok true := by decide +kernel
  obtain ⟨⟨d, d', n⟩, hd, hp⟩ := exists_of_map_eq_ok key
  simp only [Bool.and_eq_true, decide_eq_true_eq] at hp
  obtain ⟨d₀, h0, h⟩ := bind_eq_ok.mp hd
  obtain ⟨q, h1, h⟩ := bind_eq_ok.mp h
  cases h
  have hr := (ForwardCount.boot h0).execCount le_rfl h1
  rw [hp.1] at hr
  exact ⟨d', hr, hp.2⟩

end RoutingDaemon
