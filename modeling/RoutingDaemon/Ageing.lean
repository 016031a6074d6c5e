import RoutingDaemon.Freshness

/-!
# Ageing

* `statusAt`: the status word of the entry at an index. `statusAt_floodTick`, `statusAt_retry`,
  `statusAt_handled`: what a flood tick, a retransmission round and a packet do to it;
  `statusAt_act`: one pass of the event loop.
* `Aged`: the runs of a daemon, with the number of flood ticks since an LSA was last accepted into an
  entry. `Aged.statusAt_eq`: the status word counts them down.
* `forgotten_timeout`: an entry that goes down leaves no path to its node.
* `ageing_exact`: ageing over all runs, whatever the configuration.
-/

namespace RoutingDaemon

/-! ### Status words -/

/-- The status word of the entry at index `i`. -/
def statusAt (rt : RoutingTable) (i : ℕ) : Option ℤ := rt.table[i]?.map RoutingEntry.nodeStatus

theorem statusAt_of_entry {rt : RoutingTable} {i : ℕ} {e : RoutingEntry}
    (he : rt.table[i]? = some e) : statusAt rt i = some e.nodeStatus := by
  rw [statusAt, he, Option.map_some]

theorem statusAt_eq_some {rt : RoutingTable} {i : ℕ} {s : ℤ} :
    statusAt rt i = some s ↔ ∃ e, rt.table[i]? = some e ∧ e.nodeStatus = s :=
  Option.map_eq_some_iff

theorem statusAt_modify {rt : RoutingTable} {k i : ℕ} {f : RoutingEntry → RoutingEntry} :
    statusAt (rt.modify k f) i =
      if k = i then rt.table[i]?.map fun e => (f e).nodeStatus else statusAt rt i := by
  unfold statusAt
  rw [getElem?_modify, Option.map_map]
  split_ifs with hk
  · rfl
  · rfl

theorem statusAt_keep {rt : RoutingTable} {k i : ℕ} {f : RoutingEntry → RoutingEntry}
    (hf : ∀ e, (f e).nodeStatus = e.nodeStatus) : statusAt (rt.modify k f) i = statusAt rt i := by
  rw [statusAt_modify]
  split_ifs
  · rw [statusAt]
    congr 1
    funext e
    exact hf e
  · rfl

theorem statusAt_of_bare {rt rt' : RoutingTable} {i : ℕ}
    (h : rt'.table.map RoutingEntry.bare = rt.table.map RoutingEntry.bare) :
    statusAt rt' i = statusAt rt i := by
  have key : ∀ t : RoutingTable,
      statusAt t i = (t.table.map RoutingEntry.bare)[i]?.map RoutingEntry.nodeStatus := fun t => by
    rw [List.getElem?_map, Option.map_map]
    rfl
  rw [key, key, h]

/-- One count of the flood tick. -/
def aged (s : ℤ) : ℤ := if s = statusDown then s else s - 1

/-! ### The flood tick -/

theorem statusAt_tickEntry {dl : DirectLinks} {i : ℕ} {rt rt' : RoutingTable} {ht ht' : LisoHash}
    {out : List Effect} (h : tickEntry dl i rt ht = .ok (rt', ht', out)) (j : ℕ) :
    statusAt rt' j = if i = j then (statusAt rt j).map aged else statusAt rt j := by
  obtain ⟨e, he, h⟩ := bind_eq_ok.mp h
  rw [deref_eq_ok] at he
  obtain ⟨⟨rt₁, out₁⟩, h1, h⟩ := bind_eq_ok.mp h
  have hb := forwardEntry_bare h1
  have hi : statusAt rt₁ i = some e.nodeStatus := by rw [statusAt_of_bare hb, statusAt_of_entry he]
  obtain ⟨e₁, he₁, hst⟩ := statusAt_eq_some.mp hi
  have hold : i = j → statusAt rt j = some e.nodeStatus := fun hj => hj ▸ statusAt_of_entry he
  have hj₁ : i = j → rt₁.table[j]? = some e₁ := fun hj => hj ▸ he₁
  dsimp only at h
  split_ifs at h with h0 hlast <;> cases h
  · rw [statusAt_of_bare hb]
    split_ifs with hj
    · rw [hold hj, Option.map_some, aged, if_pos h0]
    · rfl
  · rw [statusAt_modify]
    split_ifs with hj
    · rw [hold hj, hj₁ hj, Option.map_some, Option.map_some, aged, if_neg h0, hlast]
      rfl
    · exact statusAt_of_bare hb
  · rw [statusAt_modify]
    split_ifs with hj
    · rw [hold hj, hj₁ hj, Option.map_some, Option.map_some, aged, if_neg h0]
    · exact statusAt_of_bare hb

theorem statusAt_tickEntries {dl : DirectLinks} {is : List ℕ} {rt rt' : RoutingTable}
    {ht ht' : LisoHash} {out : List Effect} (hn : is.Nodup)
    (h : tickEntries dl is rt ht = .ok (rt', ht', out)) (j : ℕ) :
    statusAt rt' j = if j ∈ is then (statusAt rt j).map aged else statusAt rt j := by
  induction is generalizing rt ht out with
  | nil =>
    cases h
    rfl
  | cons i is ih =>
    obtain ⟨⟨rt₁, gol₁, out₁⟩, h1, h⟩ := bind_eq_ok.mp h
    obtain ⟨⟨rt₂, gol₂, out₂⟩, h2, h⟩ := bind_eq_ok.mp h
    cases h
    obtain ⟨hi, hn⟩ := List.nodup_cons.mp hn
    rw [ih hn h2, statusAt_tickEntry h1]
    by_cases hj : i = j
    · subst hj
      rw [if_neg hi, if_pos rfl, if_pos List.mem_cons_self]
    · rw [if_neg hj]
      simp [Ne.symm hj]

theorem statusAt_flood {fresh : Fresh} {dl : DirectLinks} {ol : LocalObjects} {rt rt' : RoutingTable}
    {id seq : Int32} {out : List Effect} (own : ∀ k, getRoutingEntry rt id = some k → k = 0)
    (h : flood fresh typeLsa dl ol rt id seq = .ok (rt', out)) {i : ℕ} (hi : 1 ≤ i) :
    statusAt rt' i = statusAt rt i := by
  obtain ⟨⟨lsa, size⟩, hp, h⟩ := bind_eq_ok.mp h
  obtain ⟨rt₀, hu, h⟩ := bind_eq_ok.mp h
  obtain ⟨k, hk, h⟩ := bind_eq_ok.mp h
  rw [deref_eq_ok] at hk
  rw [hk, updateEntry_some (by rw [(createPacket_lsa hp).1]; rfl), Except.ok.injEq] at hu
  rw [statusAt_of_bare (floodLinks_bare h), ← hu, statusAt_modify, if_neg]
  rw [own k hk]
  omega

/-- **A flood tick counts every other status word down once.** -/
theorem statusAt_floodTick {d d' : Daemon} {fresh : Fresh} {out : List Effect}
    (own : ∀ k, getRoutingEntry d.rt d.myNodeId = some k → k = 0)
    (h : floodTick fresh d = .ok (d', out)) {i : ℕ} (hi : 1 ≤ i) :
    statusAt d'.rt i = (statusAt d.rt i).map aged := by
  obtain ⟨⟨rt₁, out₁⟩, h1, h⟩ := bind_eq_ok.mp h
  obtain ⟨seq, -, h⟩ := bind_eq_ok.mp h
  obtain ⟨⟨rt₂, gol₂, out₂⟩, h2, h⟩ := bind_eq_ok.mp h
  cases h
  have hflood := statusAt_flood own h1 hi
  rw [statusAt_tickEntries List.nodup_range' h2, hflood]
  split_ifs with hm
  · rfl
  · -- there is no entry at this index
    have hnone : statusAt rt₁ i = none := by
      rw [statusAt, Option.map_eq_none_iff, List.getElem?_eq_none_iff]
      rw [List.mem_range'_1, RoutingTable.numEntry] at hm
      omega
    rw [← hflood, hnone, Option.map_none]

/-! ### The other passes -/

/-- `lsa_handler` accepts an LSA into the entry at index `i`. -/
def AcceptedAt (d' : Daemon) (out : List Effect) (i : ℕ) : Prop :=
  ∃ s q, .accept s q ∈ out ∧ getRoutingEntry d'.rt s = some i

/-- `retransmit_missing` declares the node of the entry at index `i` down. -/
def GivenUpAt (d : Daemon) (out : List Effect) (i : ℕ) : Prop :=
  ∃ s, .giveUp s ∈ out ∧ getRoutingEntry d.rt s = some i

/-- The pass is a flood tick. -/
def FloodTick (d : Daemon) (ev : Event) : Prop :=
  (∃ fresh, ev = .timeout fresh) ∧ d.iterations = floodingPeriod

theorem LinkAt.entry_id {d : Daemon} {l : LinkEntry} {i m : ℕ} {e : RoutingEntry}
    (h : LinkAt d l i m e) : e.id = l.id := by
  obtain ⟨e', he', hid⟩ := getRoutingEntry_eq_some h.lookup
  rw [h.entry, Option.some.injEq] at he'
  rwa [he']

theorem statusAt_retryStep {d d' : Daemon} {ms : List (Option (ℕ × ℕ) × Effect)}
    (h : Retry d ms d') (i : ℕ) : statusAt d'.rt i = statusAt d.rt i ∨
      statusAt d'.rt i = some statusDown ∧ GivenUpAt d (ms.map Prod.snd) i := by
  cases h with
  | resend ok other checker pending budget => exact .inl (statusAt_keep fun _ => rfl)
  | @giveUp k j m l e c link checker pending budget =>
    dsimp only
    rw [modifyChecker, statusAt_keep (by exact fun _ => rfl), statusAt_modify]
    split_ifs with hm
    · subst hm
      refine .inr ⟨by rw [link.entry]; rfl, e.id, List.mem_singleton_self _, ?_⟩
      rw [link.entry_id]
      exact link.lookup
    · exact .inl rfl

theorem tick_ids {d d' : Daemon} {out : List Effect} (h : Tick d out d') :
    d'.rt.table.map RoutingEntry.id = d.rt.table.map RoutingEntry.id :=
  (evolves_tick (S := Stores d) (fun _ _ _ => .own) h).ids

theorem statusAt_retry {d d' : Daemon} {ms : List (Option (ℕ × ℕ) × Effect)}
    (h : Trail Retry d ms d') (i : ℕ) : statusAt d'.rt i = statusAt d.rt i ∨
      statusAt d'.rt i = some statusDown ∧ GivenUpAt d (ms.map Prod.snd) i := by
  have key : (statusAt d'.rt i = statusAt d.rt i ∨
      statusAt d'.rt i = some statusDown ∧ GivenUpAt d (ms.map Prod.snd) i) ∧
      d'.rt.table.map RoutingEntry.id = d.rt.table.map RoutingEntry.id := by
    induction h with
    | refl => exact ⟨.inl rfl, rfl⟩
    | tail _ h1 ih =>
      obtain ⟨ih, hids⟩ := ih
      refine ⟨?_, (tick_ids h1.onwardTick.1).trans hids⟩
      rw [List.map_append]
      rcases statusAt_retryStep h1 i with h2 | ⟨h2, id, hid, hk⟩
      · rw [h2]
        refine ih.imp_right ?_
        rintro ⟨h3, id, hid, hk⟩
        exact ⟨h3, id, List.mem_append_left _ hid, hk⟩
      · exact .inr ⟨h2, id, List.mem_append_right _ hid, getRoutingEntry_congr hids id ▸ hk⟩
  exact key.1

theorem statusAt_updateEntry {fresh : Fresh} {rt rt' : RoutingTable} {dl : DirectLinks} {lsa : LSA}
    {size : ℕ} {nexthop : Int32} (ht : getType lsa.versionTtlType = typeLsa)
    (h : updateEntry fresh (getRoutingEntry rt lsa.senderNodeId) rt dl lsa size nexthop = .ok rt')
    (i : ℕ) : (getRoutingEntry rt' lsa.senderNodeId = some i ∧
        statusAt rt' i = some retransmitTime) ∨
      getRoutingEntry rt' lsa.senderNodeId ≠ some i ∧ statusAt rt' i = statusAt rt i := by
  cases hk : getRoutingEntry rt lsa.senderNodeId with
  | none =>
    rw [hk, updateEntry_none ht] at h
    have hself := getRoutingEntry_push_self h hk
    simp only [storeLsa, newEntry] at hself
    rw [hself, statusAt, getElem?_push h]
    by_cases hi : rt.table.length = i
    · subst hi
      exact .inl ⟨rfl, by rw [List.getElem?_concat_length]; rfl⟩
    · refine .inr ⟨by simpa using hi, ?_⟩
      rcases lt_or_gt_of_ne hi with hlt | hgt
      · rw [statusAt, List.getElem?_eq_none_iff.mpr (by simp; omega),
          List.getElem?_eq_none_iff.mpr (by omega)]
      · rw [statusAt, List.getElem?_append_left hgt]
  | some k =>
    rw [hk, updateEntry_some ht] at h
    cases h
    obtain ⟨e, he, -⟩ := getRoutingEntry_eq_some hk
    rw [getRoutingEntry_modify (by exact fun _ => rfl), hk, statusAt_modify]
    by_cases hi : k = i
    · subst hi
      exact .inl ⟨rfl, by rw [if_pos rfl, he]; rfl⟩
    · exact .inr ⟨by simpa using hi, by rw [if_neg hi]⟩

theorem statusAt_handled {d d' : Daemon} {fresh : Fresh} {lsa : LSA} {f : Int32} {size : ℕ}
    {out : List Effect} (h : Handled d fresh lsa f size out d') (i : ℕ) :
    (AcceptedAt d' out i ∧ statusAt d'.rt i = some retransmitTime) ∨
      ¬ AcceptedAt d' out i ∧ statusAt d'.rt i = statusAt d.rt i := by
  have hno : ∀ d' : Daemon, ¬ AcceptedAt d' [] i := fun _ ⟨_, _, hm, _⟩ => by cases hm
  cases h with
  | ignored => exact .inr ⟨hno d, rfl⟩
  | accepted type newer link update objects =>
    have hu := statusAt_updateEntry (by rw [acceptedLsa_type, type]) update i
    refine hu.imp (fun h => ⟨⟨lsa.senderNodeId, lsa.sequenceNum, by simp, h.1⟩, h.2⟩)
      fun h => ⟨?_, h.2⟩
    rintro ⟨s, q, hm, hs⟩
    simp only [rtSendto, List.mem_cons, reduceCtorEq, Effect.accept.injEq, List.not_mem_nil,
      or_false, false_or] at hm
    exact h.1 (hm.1 ▸ hs)
  | credited type current update =>
    obtain ⟨_, _, _, _, _, -, -, -, -, -, -, rfl⟩ := creditAck_eq_ok update
    exact .inr ⟨hno _, statusAt_keep fun _ => rfl⟩

/-! ### Reachable states -/

/-- What holds of the status word of every entry. -/
def StatusOk (e : RoutingEntry) : Prop :=
  0 ≤ e.nodeStatus ∧ e.nodeStatus ≤ retransmitTime ∧ (e.nodeStatus = statusDown → e.lsa = none)

theorem StatusOk.of_pos {e : RoutingEntry} (h0 : 0 < e.nodeStatus)
    (hle : e.nodeStatus ≤ retransmitTime) : StatusOk e := ⟨h0.le, hle, fun hd => absurd hd h0.ne'⟩

theorem statusOk_reachable {f : Files} {d : Daemon} (r : (daemonSystem f).Reachable d) :
    ∀ (j : ℕ) e, d.rt.table[j]? = some e → StatusOk e := by
  refine reachable_invariant (I := fun d => ∀ (j : ℕ) e, d.rt.table[j]? = some e → StatusOk e)
    (fun d h => ?_) (fun d _ d' hs h => ?_) r
  · obtain ⟨-, ht, -⟩ := boot_eq_ok h
    intro j e he
    rw [ht, List.getElem?_mapIdx, Option.map_eq_some_iff] at he
    obtain ⟨l, -, rfl⟩ := he
    exact .of_pos (by simp [loadedEntry]) (by simp [loadedEntry, retransmitTime])
  · refine (reshapes_micro h).forall_entry (fun j e e' he hc => ?_) (fun e ha => ?_) hs
    · obtain ⟨h0, hle, hl⟩ := he
      cases hc with
      | checkers => exact ⟨h0, hle, hl⟩
      | discard => exact ⟨le_rfl, h0.trans hle, fun _ => rfl⟩
      | age up more =>
        refine ⟨?_, (Int.sub_le_self _ zero_le_one).trans hle, fun hd => absurd hd more⟩
        dsimp only [statusDown] at *
        omega
      | store => exact .of_pos (by simp [storeLsa, setRoute, retransmitTime]) le_rfl
    · obtain ⟨-, -⟩ := ha
      exact .of_pos (by simp [storeLsa, newEntry, retransmitTime]) le_rfl

theorem table_eq_nil {f : Files} {d : Daemon} (r : (daemonSystem f).Reachable d)
    (h0 : d.dl.links = []) : d.rt.table = [] := by
  have key : d.dl.links = [] → d.rt.table.map RoutingEntry.id = [] := by
    refine reachable_invariant (I := fun d => d.dl.links = [] → d.rt.table.map RoutingEntry.id = [])
      (fun d h hl => ?_) (fun d _ d' hs h hl => ?_) r
    · obtain ⟨h1, ht, -⟩ := boot_eq_ok h
      rw [ht, ← h1, hl]
      rfl
    · rw [(micro_static h).1] at hl
      cases h with
      | tick h => rw [tick_ids h, hs hl]
      | receive recv h =>
        obtain ⟨_, _, f, -, -, -, hf, -⟩ := rtRecvfrom_eq_ok recv
        rw [lookupLinkEntry, hl] at hf
        cases hf
      | add objects => exact hs hl
  exact List.map_eq_nil_iff.mp (key h0)

theorem own_index {f : Files} {d : Daemon} (r : (daemonSystem f).Reachable d) {k : ℕ}
    (h : getRoutingEntry d.rt d.myNodeId = some k) : k = 0 := by
  cases hl : d.dl.links with
  | nil =>
    rw [getRoutingEntry, table_eq_nil r hl] at h
    cases h
  | cons l ls =>
    rw [(listed_reachable r).getRoutingEntry_own (by rw [hl]; simp)] at h
    exact (Option.some.inj h).symm

theorem not_acceptedAt_timeout {d d' : Daemon} {fresh : Fresh} {out : List Effect}
    (h : timeout fresh d = .ok (d', out)) (i : ℕ) : ¬ AcceptedAt d' out i := by
  rintro ⟨s, q, hm, -⟩
  have hne := (timeout_trail h).forall_mem (I := fun _ => True) (P := fun x => x ≠ .accept s q)
    (fun _ _ _ _ _ => trivial) (fun _ _ _ _ ht x hx he => tick_accept ht q (he ▸ hx)) trivial
  exact hne _ hm rfl

/-- A timeout is a flood tick, or a retransmission round at most. -/
theorem statusAt_timeout {f : Files} {d d' : Daemon} {fresh : Fresh} {out : List Effect}
    (r : (daemonSystem f).Reachable d) (h : timeout fresh d = .ok (d', out)) {i : ℕ} (hi : 1 ≤ i) :
    (FloodTick d (.timeout fresh) ∧ statusAt d'.rt i = (statusAt d.rt i).map aged) ∨
      ¬ FloodTick d (.timeout fresh) ∧ (statusAt d'.rt i = statusAt d.rt i ∨
        statusAt d'.rt i = some statusDown ∧ GivenUpAt d out i) := by
  obtain ⟨⟨d₁, out₁⟩, h1, h⟩ := bind_eq_ok.mp h
  obtain ⟨⟨d₂, out₂⟩, h2, h⟩ := bind_eq_ok.mp h
  cases h
  unfold floodPhase at h1
  split_ifs at h1 with hit
  · -- after a flood tick the same pass does not retransmit
    refine .inl ⟨⟨⟨fresh, rfl⟩, hit⟩, ?_⟩
    have hst := statusAt_floodTick (fun k => own_index r) h1 hi
    obtain ⟨_, -, h1⟩ := bind_eq_ok.mp h1
    obtain ⟨_, -, h1⟩ := bind_eq_ok.mp h1
    obtain ⟨_, -, h1⟩ := bind_eq_ok.mp h1
    cases h1
    rw [retransmitPhase, if_neg (by simp)] at h2
    cases h2
    exact hst
  · cases h1
    obtain ⟨ms, rfl, tr⟩ := retransmitPhase_trail h2
    exact .inr ⟨fun ht => hit ht.2, statusAt_retry tr i⟩

/-- **One pass on the status word of another entry.** An accepted LSA sets it to `RETRANSMIT_TIME`, a
flood tick counts it down, and otherwise it stays unless `retransmit_missing` declares the node
down. -/
theorem statusAt_act {f : Files} {d d' : Daemon} {ev : Event} {out : List Effect}
    (r : (daemonSystem f).Reachable d) (h : act ev d = .ok (d', out)) {i : ℕ} (hi : 1 ≤ i) :
    (AcceptedAt d' out i ∧ statusAt d'.rt i = some retransmitTime) ∨
      ¬ AcceptedAt d' out i ∧
        ((FloodTick d ev ∧ statusAt d'.rt i = (statusAt d.rt i).map aged) ∨
          ¬ FloodTick d ev ∧ (statusAt d'.rt i = statusAt d.rt i ∨
            statusAt d'.rt i = some statusDown ∧ GivenUpAt d out i)) := by
  cases ev with
  | timeout fresh => exact .inr ⟨not_acceptedAt_timeout h i, statusAt_timeout r h hi⟩
  | request c uri opened =>
    have hkeep : statusAt d'.rt i = statusAt d.rt i := by
      obtain ⟨-, rfl | ⟨_, _, _, _, -, rfl⟩⟩ := request_cases h <;> rfl
    refine .inr ⟨?_, .inr ⟨?_, .inl hkeep⟩⟩
    · obtain ⟨rfl, -⟩ := request_cases h
      rintro ⟨s, q, hm, -⟩
      cases hm
    · rintro ⟨⟨_, h⟩, -⟩
      cases h
  | datagram r fresh =>
    obtain ⟨lsa, g, size, -, hh⟩ := receive_handled h
    refine (statusAt_handled hh i).imp_right fun h => ⟨h.1, .inr ⟨?_, .inl h.2⟩⟩
    rintro ⟨⟨_, h⟩, -⟩
    cases h

/-! ### What an entry that goes down leaves -/

/-- If the entry at index `i` is down, no path names its node. -/
def Forgotten (rt : RoutingTable) (gol : LisoHash) (i : ℕ) : Prop :=
  ∀ e, rt.table[i]? = some e → e.nodeStatus = statusDown →
    ForallPaths superFastHash gol fun p => p.nodeId ≠ e.id

theorem Forgotten.modify {rt : RoutingTable} {gol gol' : LisoHash} {i k : ℕ}
    {f : RoutingEntry → RoutingEntry} (h : Forgotten rt gol i) (hid : ∀ e, (f e).id = e.id)
    (hgol : ∀ P, ForallPaths superFastHash gol P → ForallPaths superFastHash gol' P)
    (hf : ∀ e, rt.table[k]? = some e → (f e).nodeStatus = statusDown →
      e.nodeStatus = statusDown ∨ ForallPaths superFastHash gol' fun p => p.nodeId ≠ e.id) :
    Forgotten (rt.modify k f) gol' i := by
  intro e' he' hd
  rw [getElem?_modify, Option.map_eq_some_iff] at he'
  obtain ⟨e, he, rfl⟩ := he'
  split_ifs at hd ⊢ with hk
  · rw [hid]
    rcases hf e (hk ▸ he) hd with hd | hp
    · exact hgol _ (h e he hd)
    · exact hp
  · exact hgol _ (h e he hd)

theorem Forgotten.discard {rt : RoutingTable} {gol : LisoHash} {i m : ℕ} {e : RoutingEntry}
    (h : Forgotten rt gol i) (hc : Consistent superFastHash gol) (he : rt.table[m]? = some e) :
    Forgotten (rt.modify m RoutingEntry.discard) (hashRemoveNode superFastHash gol e.id) i := by
  refine h.modify (fun _ => rfl) (fun P hp => ?_) fun e' he' _ => .inr ?_
  · exact (hp.hashRemoveNode hc e.id).mono fun p hp => hp.1
  · rw [he, Option.some.injEq] at he'
    subst he'
    have hall : ForallPaths superFastHash gol fun _ => True := fun _ _ _ => trivial
    exact (hall.hashRemoveNode hc e.id).mono fun p hp => hp.2

theorem forgotten_tick {d d' : Daemon} {out : List Effect} {i : ℕ}
    (hc : Consistent superFastHash d.gol) (hf : Forgotten d.rt d.gol i) (h : Tick d out d') :
    Forgotten d'.rt d'.gol i := by
  cases h with
  | own packet entry update count =>
    rw [updateEntry_some (Stores.own packet).type, Except.ok.injEq] at update
    rw [← update]
    refine hf.modify (by exact fun _ => rfl) (fun _ h => h) fun e _ hd => ?_
    exact absurd hd (by simp [storeLsa, setRoute, retransmitTime, statusDown])
  | send ok => exact hf.modify (fun _ => rfl) (fun _ h => h) fun _ _ hd => .inl hd
  | resend ok checker pending budget =>
    exact hf.modify (fun _ => rfl) (fun _ h => h) fun _ _ hd => .inl hd
  | giveUp link checker pending budget =>
    exact (hf.discard hc link.entry).modify (fun _ => rfl) (fun _ h => h) fun _ _ hd => .inl hd
  | age pos entry up more =>
    exact hf.modify (fun _ => rfl) (fun _ h => h) fun _ _ hd => absurd hd more
  | expire pos entry last => exact hf.discard hc entry
  | clock => exact hf

/-- **An entry that goes down in a pass leaves no path to its node.** -/
theorem forgotten_timeout {d d' : Daemon} {fresh : Fresh} {out : List Effect} {i : ℕ}
    (hc : Consistent superFastHash d.gol) (hup : statusAt d.rt i ≠ some statusDown)
    (h : timeout fresh d = .ok (d', out)) :
    Consistent superFastHash d'.gol ∧ Forgotten d'.rt d'.gol i := by
  refine (timeout_trail h).preserves (I := fun x => Consistent superFastHash x.gol ∧
    Forgotten x.rt x.gol i) (fun _ _ _ hx ht => ⟨consistent_tick hx.1 ht, forgotten_tick hx.1 hx.2 ht⟩)
    ⟨hc, fun e he hd => ?_⟩
  exact absurd (by rw [statusAt_of_entry he, hd]) hup

/-- The own entry, at index 0, is not down. -/
def OwnUp (d : Daemon) (j : ℕ) (e : RoutingEntry) : Prop :=
  j = 0 → e.id = d.myNodeId ∧ e.nodeStatus ≠ statusDown

theorem ownUp_boot {f : Files} {d : Daemon} (h : boot f = .ok d) :
    ∀ j e, d.rt.table[j]? = some e → OwnUp d j e := by
  obtain ⟨h1, ht, hid, -⟩ := boot_eq_ok h
  rintro j e he rfl
  rw [ht, List.getElem?_mapIdx, Option.map_eq_some_iff] at he
  obtain ⟨l, hl, rfl⟩ := he
  rw [← List.head?_eq_getElem?] at hl
  exact ⟨by rw [hid, hl]; rfl, by simp [loadedEntry, statusDown]⟩

theorem ownUp_micro {d d' : Daemon} {out : List Effect} (hl : Listed d) (h0 : d.dl.links ≠ [])
    (hn : ∀ p ∈ d.dl.neighbours, p.1.id ≠ d.myNodeId)
    (hs : ∀ j e, d.rt.table[j]? = some e → OwnUp d j e) (h : Micro d out d') :
    ∀ j e, d'.rt.table[j]? = some e → OwnUp d' j e := by
  have key : ∀ j e, d'.rt.table[j]? = some e → OwnUp d j e := by
    refine (reshapes_micro h).forall_entry (fun j e e' ho hc hj => ?_) (fun e _ hj => ?_) hs
    · obtain ⟨hid, hst⟩ := ho hj
      refine ⟨hc.id.trans hid, ?_⟩
      cases hc with
      | checkers => exact hst
      | discard other =>
        rcases other with h1 | ⟨p, hp, he⟩
        · omega
        · exact absurd (he.trans hid) (hn p hp)
      | age up more => exact more
      | store => simp [storeLsa, setRoute, retransmitTime, statusDown]
    · -- the table is not empty, so nothing is appended at index 0
      have := hl.linked
      have := List.length_pos_iff.mpr h0
      omega
  intro j e he hj
  rw [(micro_static h).2]
  exact key j e he hj

theorem own_up {f : Files} {d : Daemon} (r : (daemonSystem f).Reachable d)
    (hn : ∀ p ∈ d.dl.neighbours, p.1.id ≠ d.myNodeId) {e : RoutingEntry}
    (he : d.rt.table[0]? = some e) : e.nodeStatus ≠ statusDown := by
  have key : Listed d ∧ (d.dl.links ≠ [] → (∀ p ∈ d.dl.neighbours, p.1.id ≠ d.myNodeId) →
      ∀ j e, d.rt.table[j]? = some e → OwnUp d j e) := by
    refine reachable_invariant (I := fun d => Listed d ∧ (d.dl.links ≠ [] →
      (∀ p ∈ d.dl.neighbours, p.1.id ≠ d.myNodeId) → ∀ j e, d.rt.table[j]? = some e → OwnUp d j e))
      (fun d h => ⟨listed_boot h, fun _ _ => ownUp_boot h⟩) (fun d _ d' hs h => ?_) r
    refine ⟨listed_micro hs.1 h, fun h0 hn => ?_⟩
    obtain ⟨hdl, hid⟩ := micro_static h
    rw [hdl] at h0 hn
    rw [hid] at hn
    exact ownUp_micro hs.1 h0 hn (hs.2 h0 hn) h
  by_cases h0 : d.dl.links = []
  · rw [table_eq_nil r h0] at he
    cases he
  · exact (key.2 h0 hn 0 e he rfl).2

/-! ### Runs -/

/-- The runs of a daemon, with the number of flood ticks since an LSA was last accepted into the entry
at index `i`; none is counted before the first, and after `retransmit_missing` declared its node
down. -/
inductive Aged (f : Files) (i : ℕ) : Daemon → Option ℕ → Prop
  | boot {d : Daemon} (h : boot f = .ok d) : Aged f i d none
  | accepted {d d' : Daemon} {n : Option ℕ} {ev : Event} {out : List Effect} (r : Aged f i d n)
      (h : act ev d = .ok (d', out)) (ha : AcceptedAt d' out i) : Aged f i d' (some 0)
  | givenUp {d d' : Daemon} {n : Option ℕ} {ev : Event} {out : List Effect} (r : Aged f i d n)
      (h : act ev d = .ok (d', out)) (ha : ¬ AcceptedAt d' out i) (hg : GivenUpAt d out i) :
      Aged f i d' none
  | tick {d d' : Daemon} {n : Option ℕ} {ev : Event} {out : List Effect} (r : Aged f i d n)
      (h : act ev d = .ok (d', out)) (ha : ¬ AcceptedAt d' out i) (hg : ¬ GivenUpAt d out i)
      (ht : FloodTick d ev) : Aged f i d' (n.map (· + 1))
  | other {d d' : Daemon} {n : Option ℕ} {ev : Event} {out : List Effect} (r : Aged f i d n)
      (h : act ev d = .ok (d', out)) (ha : ¬ AcceptedAt d' out i) (hg : ¬ GivenUpAt d out i)
      (ht : ¬ FloodTick d ev) : Aged f i d' n

theorem exists_aged {f : Files} (i : ℕ) {d : Daemon} (r : (daemonSystem f).Reachable d) :
    ∃ n, Aged f i d n := by
  refine r.invariant (I := fun d => ∃ n, Aged f i d n) (fun d h => ⟨none, .boot h⟩) ?_
  rintro d l d' ⟨n, hr⟩ h
  by_cases ha : AcceptedAt d' l.2 i
  · exact ⟨_, hr.accepted h ha⟩
  · by_cases hg : GivenUpAt d l.2 i
    · exact ⟨_, hr.givenUp h ha hg⟩
    · by_cases ht : FloodTick d l.1
      · exact ⟨_, hr.tick h ha hg ht⟩
      · exact ⟨_, hr.other h ha hg ht⟩

theorem Aged.reachable {f : Files} {i : ℕ} {d : Daemon} {n : Option ℕ} (h : Aged f i d n) :
    (daemonSystem f).Reachable d := by
  induction h with
  | boot h => exact .init h
  | @accepted _ _ _ ev out _ h _ ih => exact ih.step (l := (ev, out)) h
  | @givenUp _ _ _ ev out _ h _ _ ih => exact ih.step (l := (ev, out)) h
  | @tick _ _ _ ev out _ h _ _ _ ih => exact ih.step (l := (ev, out)) h
  | @other _ _ _ ev out _ h _ _ _ ih => exact ih.step (l := (ev, out)) h

/-- What is left of the countdown after `k` flood ticks. -/
def countdown (k : ℕ) : ℤ := max (retransmitTime - k) 0

theorem aged_countdown (k : ℕ) : aged (countdown k) = countdown (k + 1) := by
  unfold aged countdown statusDown retransmitTime
  push_cast
  split_ifs <;> omega

/-- **The status word counts the flood ticks since the last accepted LSA down.** -/
theorem Aged.statusAt_eq {f : Files} {i : ℕ} {d : Daemon} {n : Option ℕ} (h : Aged f i d n)
    (hi : 1 ≤ i) {k : ℕ} (hk : n = some k) : statusAt d.rt i = some (countdown k) := by
  induction h generalizing k with
  | boot h => cases hk
  | accepted r h ha ih =>
    cases hk
    rcases statusAt_act r.reachable h hi with ⟨-, hst⟩ | ⟨hna, -⟩
    · exact hst
    · exact absurd ha hna
  | givenUp => cases hk
  | @tick d d' n ev out r h ha hg ht ih =>
    obtain ⟨k, rfl, rfl⟩ := Option.map_eq_some_iff.mp hk
    rcases statusAt_act r.reachable h hi with ⟨hacc, -⟩ | ⟨-, ⟨-, hst⟩ | ⟨hnt, -⟩⟩
    · exact absurd hacc ha
    · rw [hst, ih rfl, Option.map_some, aged_countdown]
    · exact absurd ht hnt
  | @other d d' n ev out r h ha hg ht ih =>
    rcases statusAt_act r.reachable h hi with ⟨hacc, -⟩ | ⟨-, ⟨hft, -⟩ | ⟨-, hst | ⟨-, hgu⟩⟩⟩
    · exact absurd hacc ha
    · exact absurd hft ht
    · rw [hst, ih hk]
    · exact absurd hgu hg

theorem forgotten_act {f : Files} {d d' : Daemon} {ev : Event} {out : List Effect} {i : ℕ}
    (r : (daemonSystem f).Reachable d) (h : act ev d = .ok (d', out))
    (hup : statusAt d.rt i ≠ some statusDown) :
    Consistent superFastHash d'.gol ∧ Forgotten d'.rt d'.gol i := by
  have hc' := consistent_reachable (r.step (l := (ev, out)) h)
  have keep : statusAt d'.rt i = statusAt d.rt i ∨ statusAt d'.rt i = some retransmitTime →
      Forgotten d'.rt d'.gol i := by
    rintro hst e he hd
    rw [statusAt_of_entry he, hd] at hst
    rcases hst with hst | hst
    · exact absurd hst.symm hup
    · cases hst
  cases ev with
  | timeout fresh => exact forgotten_timeout (consistent_reachable r) hup h
  | datagram r fresh =>
    obtain ⟨lsa, g, size, -, hh⟩ := receive_handled h
    exact ⟨hc', keep ((statusAt_handled hh i).symm.imp And.right And.right)⟩
  | request c uri opened =>
    refine ⟨hc', keep (.inl ?_)⟩
    obtain ⟨-, rfl | ⟨_, _, _, _, -, rfl⟩⟩ := request_cases h <;> rfl

theorem down_act {f : Files} {d d' : Daemon} {ev : Event} {out : List Effect} {i : ℕ}
    (r : (daemonSystem f).Reachable d) (h : act ev d = .ok (d', out)) (hi : 1 ≤ i)
    (hd : statusAt d.rt i = some statusDown) (ha : ¬ AcceptedAt d' out i) :
    statusAt d'.rt i = some statusDown := by
  rcases statusAt_act r h hi with ⟨hacc, -⟩ | ⟨-, ⟨-, hst⟩ | ⟨-, hst | ⟨hst, -⟩⟩⟩
  · exact absurd hacc ha
  · rw [hst, hd]
    rfl
  · rw [hst, hd]
  · exact hst

/-- **Ageing is exact.** Along every run, the status word of an entry other than the own one lies
between 0 and `RETRANSMIT_TIME`; `k` flood ticks after the last LSA accepted into it, if
`retransmit_missing` has not declared its node down since, it is `STATUS_DOWN` exactly when `k` has
reached `RETRANSMIT_TIME`; a pass in which it goes down leaves it without an LSA and no path that
names its node; and it stays down until an LSA is accepted into it. The own entry is never down,
unless a neighbour has the own id. -/
theorem ageing_exact (f : Files) (i : ℕ) (hi : 1 ≤ i) :
    (∀ d, (daemonSystem f).Reachable d → ∃ n, Aged f i d n) ∧
    (∀ d n, Aged f i d n →
      (∀ e, d.rt.table[i]? = some e → 0 ≤ e.nodeStatus ∧ e.nodeStatus ≤ retransmitTime) ∧
      (∀ k : ℕ, n = some k → ∃ e, d.rt.table[i]? = some e ∧
        (e.nodeStatus = statusDown ↔ retransmitTime ≤ k)) ∧
      ∀ ev d' out e e', act ev d = .ok (d', out) → d.rt.table[i]? = some e →
        d'.rt.table[i]? = some e' →
          (e.nodeStatus ≠ statusDown → e'.nodeStatus = statusDown → e'.lsa = none ∧
            ∀ b, ∀ q ∈ d'.gol.hash b, q.pathS.map Path.nodeId ≠ some e'.id) ∧
          (e.nodeStatus = statusDown → ¬ AcceptedAt d' out i → e'.nodeStatus = statusDown)) ∧
    ∀ d, (daemonSystem f).Reachable d → (∀ p ∈ d.dl.neighbours, p.1.id ≠ d.myNodeId) →
      ∀ e, d.rt.table[0]? = some e → e.nodeStatus ≠ statusDown := by
  refine ⟨fun d r => exists_aged i r, fun d n ha => ⟨fun e he => ?_, fun k hk => ?_, ?_⟩,
    fun d r hn e he => own_up r hn he⟩
  · obtain ⟨h0, hle, -⟩ := statusOk_reachable ha.reachable i e he
    exact ⟨h0, hle⟩
  · obtain ⟨e, he, hst⟩ := statusAt_eq_some.mp (ha.statusAt_eq hi hk)
    refine ⟨e, he, ?_⟩
    rw [hst, countdown, statusDown, retransmitTime]
    omega
  · intro ev d' out e e' h he he'
    have r := ha.reachable
    refine ⟨fun hup hd => ?_, fun hd hna => ?_⟩
    · have hup' : statusAt d.rt i ≠ some statusDown := by
        rw [statusAt_of_entry he]
        simpa using hup
      obtain ⟨hc, hf⟩ := forgotten_act r h hup'
      obtain ⟨-, -, hl⟩ := statusOk_reachable (r.step (l := (ev, out)) h) i e' he'
      refine ⟨hl hd, fun b q hq hqn => ?_⟩
      obtain ⟨p, hp, hpn⟩ := Option.map_eq_some_iff.mp hqn
      exact (hf e' he' hd).mem hc hq hp hpn
    · have := down_act r h hi (by rw [statusAt_of_entry he, hd]) hna
      rw [statusAt_of_entry he', Option.some.injEq] at this
      exact this

/-- **A neighbour with the own id**: when it is given up, the own entry goes down. -/
theorem exists_own_down : ∃ d e, (daemonSystem twinFiles).Reachable d ∧ d.rt.table[0]? = some e ∧
    e.id = d.myNodeId ∧ e.nodeStatus = statusDown := by
  have key : (boot twinFiles >>= exec twinRun).map (fun d => decide (d.rt.table[0]?.map
      (fun e => (e.id, e.nodeStatus)) = some (d.myNodeId, statusDown))) = .ok true := by decide +kernel
  obtain ⟨d, hd, hp⟩ := exists_of_map_eq_ok key
  obtain ⟨d₀, h0, h⟩ := bind_eq_ok.mp hd
  obtain ⟨e, he, hst⟩ := Option.map_eq_some_iff.mp (decide_eq_true_eq.mp hp)
  exact ⟨d, e, reachable_exec (.init h0) h, he, congrArg Prod.fst hst, congrArg Prod.snd hst⟩

/-- Node 1 hears of node 2 once. -/
theorem ageing_exact_firstLsa : ∃ d e, Aged forkFiles 1 d (some 0) ∧ d.rt.table[1]? = some e ∧
    e.nodeStatus ≠ statusDown := by
  have key : (boot forkFiles >>= fun d =>
      act (.datagram (.got (cstr [66]) (plainPacket typeLsa 2).bytes) zeros) d >>= fun p =>
        .ok (d, p)).map (fun p => decide (.accept 2 0 ∈ p.2.2) &&
          decide (getRoutingEntry p.2.1.rt 2 = some 1)) = .ok true := by decide +kernel
  obtain ⟨⟨d, d', out⟩, hd, hp⟩ := exists_of_map_eq_ok key
  simp only [Bool.and_eq_true, decide_eq_true_eq] at hp
  obtain ⟨d₀, h0, h⟩ := bind_eq_ok.mp hd
  obtain ⟨p, h1, h⟩ := bind_eq_ok.mp h
  cases h
  have ha : Aged forkFiles 1 d' (some 0) := (Aged.boot h0).accepted h1 ⟨2, 0, hp.1, hp.2⟩
  obtain ⟨e, he, hst⟩ := ((ageing_exact forkFiles 1 le_rfl).2.1 d' (some 0) ha).2.1 0 rfl
  exact ⟨d', e, ha, he, fun hd => absurd (hst.mp hd) (by decide)⟩

end RoutingDaemon
