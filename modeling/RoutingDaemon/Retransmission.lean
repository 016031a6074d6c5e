import RoutingDaemon.Ageing

/-!
# Bounded retransmission

* `cellAt`: one checker of one entry, and the effect of every change of a table on it.
* `Found`: a stored LSA is in the entry that is found for its originator. `InBudget`: every
  retransmission counter is in its range. Both hold in every reachable state.
* `Resent`: the runs of a daemon, with the number of times that `retransmit_missing` sent an entry's LSA
  to a link since `update_entry` last stored it.
* `Within`: the invariant that bounds it; `within_retry`, `within_act`, `bounded_retransmission`.
-/

namespace RoutingDaemon

/-! ### One checker -/

/-- Checker `i` of the entry at index `k`. -/
def cellAt (rt : RoutingTable) (k i : ℕ) : Option AckChecker :=
  (rt.table[k]?.bind RoutingEntry.checkersList).bind fun c => c.checkers[i]?

theorem getChecker_iff {rt : RoutingTable} {k i : ℕ} {a : AckChecker} :
    getChecker rt k i = .ok a ↔ cellAt rt k i = some a := by
  rw [getChecker_eq_ok, cellAt]
  simp only [Option.bind_eq_some_iff]
  constructor
  · rintro ⟨e, c, he, hc, ha⟩
    exact ⟨c, ⟨e, he, hc⟩, ha⟩
  · rintro ⟨c, ⟨e, he, hc⟩, ha⟩
    exact ⟨e, c, he, hc, ha⟩

section Cells

variable {rt rt' : RoutingTable} {k i m j : ℕ} {f : RoutingEntry → RoutingEntry}

theorem cellAt_modify : cellAt (rt.modify m f) k i = if m = k then
    (rt.table[k]?.bind fun e => (f e).checkersList).bind fun c => c.checkers[i]?
    else cellAt rt k i := by
  unfold cellAt
  rw [getElem?_modify]
  split_ifs with hm
  · cases rt.table[k]? <;> simp
  · cases rt.table[k]? <;> simp

theorem cellAt_keep (hf : ∀ e, (f e).checkersList = e.checkersList) :
    cellAt (rt.modify m f) k i = cellAt rt k i := by
  rw [cellAt_modify]
  split_ifs
  · simp only [hf, cellAt]
  · rfl

theorem cellAt_modifyChecker {g : AckChecker → AckChecker} :
    cellAt (modifyChecker rt m j g) k i =
      if m = k ∧ j = i then (cellAt rt k i).map g else cellAt rt k i := by
  rw [modifyChecker, cellAt_modify, cellAt]
  by_cases hm : m = k
  · simp only [hm, true_and, if_true]
    cases rt.table[k]? with
    | none => simp
    | some e =>
      cases hc : e.checkersList with
      | none => simp [RoutingEntry.modifyChecker, hc]
      | some c =>
        simp only [Option.bind_some, RoutingEntry.modifyChecker, hc, Option.map_some,
          List.getElem?_modify]
        split_ifs with hj
        · rfl
        · simp
  · simp [hm]

theorem cellAt_updateEntry {fresh : Fresh} {dl : DirectLinks} {lsa : LSA} {size : ℕ}
    {nexthop : Int32} (ht : getType lsa.versionTtlType = typeLsa)
    (h : updateEntry fresh (getRoutingEntry rt lsa.senderNodeId) rt dl lsa size nexthop = .ok rt') :
    (getRoutingEntry rt' lsa.senderNodeId = some k ∧
        ∀ a, cellAt rt' k i = some a → a.ackReceived = .received ∧ a.retransmit = 0) ∨
      getRoutingEntry rt' lsa.senderNodeId ≠ some k ∧ cellAt rt' k i = cellAt rt k i := by
  have hclear : ∀ a, (clearedCheckers dl)[i]? = some a →
      a.ackReceived = .received ∧ a.retransmit = 0 := fun a ha => by
    rw [clearedCheckers, List.getElem?_map, Option.map_eq_some_iff] at ha
    obtain ⟨l, -, rfl⟩ := ha
    exact ⟨rfl, rfl⟩
  cases hk : getRoutingEntry rt lsa.senderNodeId with
  | none =>
    rw [hk, updateEntry_none ht] at h
    have hself := getRoutingEntry_push_self h hk
    simp only [storeLsa, newEntry] at hself
    rw [hself, cellAt, getElem?_push h]
    by_cases hi : rt.table.length = k
    · subst hi
      refine .inl ⟨rfl, fun a ha => hclear a ?_⟩
      rwa [List.getElem?_concat_length] at ha
    · refine .inr ⟨by simpa using hi, ?_⟩
      rw [cellAt]
      rcases lt_or_gt_of_ne hi with hlt | hgt
      · rw [List.getElem?_eq_none_iff.mpr (by simp; omega),
          List.getElem?_eq_none_iff.mpr (by omega)]
      · rw [List.getElem?_append_left hgt]
  | some n =>
    rw [hk, updateEntry_some ht] at h
    cases h
    obtain ⟨e, he, -⟩ := getRoutingEntry_eq_some hk
    rw [getRoutingEntry_modify (by exact fun _ => rfl), hk, cellAt_modify]
    by_cases hi : n = k
    · subst hi
      refine .inl ⟨rfl, fun a ha => hclear a ?_⟩
      rwa [if_pos rfl, he] at ha
    · exact .inr ⟨by simpa using hi, by rw [if_neg hi]⟩

theorem cellAt_creditAck {entry : Option ℕ} {g : Int32} (h : creditAck rt entry g = .ok rt') :
    cellAt rt' k i = cellAt rt k i ∨
      k = 0 ∧ ∃ a, cellAt rt k i = some a ∧ cellAt rt' k i = some a.acknowledge := by
  obtain ⟨_, _, c, own, o, -, -, -, hown, ho, -, rfl⟩ := creditAck_eq_ok h
  rw [cellAt_modify]
  by_cases hk : 0 = k
  · subst hk
    rw [if_pos rfl, cellAt, hown]
    simp only [Option.bind_some, ho, List.getElem?_mapIdx]
    cases o.checkers[i]? with
    | none => exact .inl rfl
    | some a =>
      rw [Option.map_some]
      split_ifs
      · exact .inr ⟨trivial, a, rfl, rfl⟩
      · exact .inl rfl
  · rw [if_neg hk]
    exact .inl rfl

end Cells

/-! ### Reachable states -/

/-- Every stored LSA is in the entry that is found for its originator. -/
def Found (rt : RoutingTable) : Prop :=
  ∀ (j : ℕ) e lsa, rt.table[j]? = some e → e.lsa = some lsa →
    getRoutingEntry rt lsa.senderNodeId = some j

theorem Found.modify {rt : RoutingTable} {m : ℕ} {f : RoutingEntry → RoutingEntry} (h : Found rt)
    (hid : ∀ e, (f e).id = e.id) (hl : ∀ e l, (f e).lsa = some l → e.lsa = some l) :
    Found (rt.modify m f) := by
  intro j e' lsa he' hlsa
  rw [getElem?_modify, Option.map_eq_some_iff] at he'
  obtain ⟨e, he, rfl⟩ := he'
  rw [getRoutingEntry_modify hid]
  refine h j e lsa he ?_
  split_ifs at hlsa
  · exact hl e lsa hlsa
  · exact hlsa

theorem Found.discard {rt : RoutingTable} (h : Found rt) (m : ℕ) :
    Found (rt.modify m RoutingEntry.discard) := h.modify (fun _ => rfl) fun _ _ hl => by cases hl

theorem Found.updateEntry {fresh : Fresh} {rt rt' : RoutingTable} {dl : DirectLinks} {lsa : LSA}
    {size : ℕ} {nexthop : Int32} (hf : Found rt) (ht : getType lsa.versionTtlType = typeLsa)
    (h : updateEntry fresh (getRoutingEntry rt lsa.senderNodeId) rt dl lsa size nexthop = .ok rt') :
    Found rt' := by
  cases hk : getRoutingEntry rt lsa.senderNodeId with
  | none =>
    rw [hk, updateEntry_none ht] at h
    have hself := getRoutingEntry_push_self h hk
    intro j e a he ha
    rw [getElem?_push h, List.getElem?_append] at he
    split_ifs at he with hj
    · exact getRoutingEntry_push h (hf j e a he ha)
    · obtain ⟨hlt, rfl⟩ := List.getElem?_eq_some_iff.mp he
      have hj' : j = rt.table.length := by
        rw [List.length_singleton] at hlt
        omega
      simp only [List.getElem_singleton, storeLsa, Option.some.injEq] at ha
      subst ha
      rw [hj']
      exact hself
  | some k =>
    rw [hk, updateEntry_some ht] at h
    cases h
    intro j e' a he' ha
    rw [getElem?_modify, Option.map_eq_some_iff] at he'
    obtain ⟨e, he, rfl⟩ := he'
    rw [getRoutingEntry_modify (by exact fun _ => rfl)]
    split_ifs at ha with hj
    · simp only [storeLsa, Option.some.injEq] at ha
      subst ha
      rw [hk, hj]
    · exact hf j e a he ha

/-- Every retransmission counter is in its range. -/
def InBudget (rt : RoutingTable) : Prop :=
  ∀ k i a, cellAt rt k i = some a → 0 ≤ a.retransmit ∧ a.retransmit ≤ retransmitTime - 1

theorem zero_inBudget : (0 : ℤ) ≤ 0 ∧ (0 : ℤ) ≤ retransmitTime - 1 := by decide

theorem InBudget.modifyChecker {rt : RoutingTable} {m j : ℕ} {g : AckChecker → AckChecker}
    (h : InBudget rt) (hg : ∀ a, cellAt rt m j = some a →
      0 ≤ (g a).retransmit ∧ (g a).retransmit ≤ retransmitTime - 1) :
    InBudget (modifyChecker rt m j g) := by
  intro k i a ha
  rw [cellAt_modifyChecker] at ha
  split_ifs at ha with hmj
  · obtain ⟨rfl, rfl⟩ := hmj
    obtain ⟨b, hb, rfl⟩ := Option.map_eq_some_iff.mp ha
    exact hg b hb
  · exact h k i a ha

theorem InBudget.keep {rt : RoutingTable} (h : InBudget rt) (m : ℕ)
    {f : RoutingEntry → RoutingEntry} (hf : ∀ e, (f e).checkersList = e.checkersList) :
    InBudget (rt.modify m f) := fun k i a ha => h k i a (by rwa [cellAt_keep hf] at ha)

theorem InBudget.updateEntry {fresh : Fresh} {rt rt' : RoutingTable} {dl : DirectLinks} {lsa : LSA}
    {size : ℕ} {nexthop : Int32} (hc : InBudget rt) (ht : getType lsa.versionTtlType = typeLsa)
    (h : updateEntry fresh (getRoutingEntry rt lsa.senderNodeId) rt dl lsa size nexthop = .ok rt') :
    InBudget rt' := by
  intro k i a ha
  rcases cellAt_updateEntry ht h with ⟨-, hz⟩ | ⟨-, he⟩
  · rw [(hz a ha).2]
    exact zero_inBudget
  · exact hc k i a (he ▸ ha)

/-- What retransmission rests on. -/
structure Countable (d : Daemon) : Prop where
  found : Found d.rt
  inBudget : InBudget d.rt

theorem countable_tick {d d' : Daemon} {out : List Effect} (hd : Countable d) (h : Tick d out d') :
    Countable d' := by
  obtain ⟨hf, hc⟩ := hd
  cases h with
  | own packet entry update count =>
    have ht := (Stores.own packet).type
    have hu := updateEntry_own packet entry update
    exact ⟨hf.updateEntry ht hu, hc.updateEntry ht hu⟩
  | send ok =>
    exact ⟨hf.modify (fun _ => rfl) fun _ _ h => h,
      hc.modifyChecker fun a ha => hc _ _ a ha⟩
  | resend ok checker pending budget =>
    refine ⟨hf.modify (fun _ => rfl) fun _ _ h => h, hc.modifyChecker fun a ha => ?_⟩
    obtain ⟨h0, -⟩ := hc _ _ a ha
    rw [getChecker_iff, ha, Option.some.injEq] at checker
    subst checker
    dsimp only
    omega
  | @giveUp _ _ m l e c link checker pending budget =>
    refine ⟨(hf.discard m).modify (fun _ => rfl) fun _ _ h => h, ?_⟩
    have hkeep : InBudget (d.rt.modify m RoutingEntry.discard) := hc.keep m fun _ => rfl
    exact hkeep.modifyChecker fun a ha => hkeep _ _ a ha
  | age pos entry up more =>
    exact ⟨hf.modify (fun _ => rfl) fun _ _ h => h, hc.keep _ fun _ => rfl⟩
  | expire pos entry last => exact ⟨hf.discard _, hc.keep _ fun _ => rfl⟩
  | clock => exact ⟨hf, hc⟩

theorem countable_micro {d d' : Daemon} {out : List Effect} (hd : Countable d)
    (h : Micro d out d') : Countable d' := by
  cases h with
  | tick h => exact countable_tick hd h
  | add => exact ⟨hd.found, hd.inBudget⟩
  | receive recv h =>
    cases h with
    | ignored => exact hd
    | accepted type newer link update objects =>
      have ht := (acceptedLsa_type _).trans type
      exact ⟨hd.found.updateEntry ht update, hd.inBudget.updateEntry ht update⟩
    | credited type current update =>
      refine ⟨?_, fun k i a ha => ?_⟩
      · obtain ⟨_, _, _, _, _, -, -, -, -, -, -, rfl⟩ := creditAck_eq_ok update
        exact hd.found.modify (fun _ => rfl) fun _ _ h => h
      · rcases cellAt_creditAck update with he | ⟨-, b, -, hb⟩
        · exact hd.inBudget k i a (he ▸ ha)
        · cases hb.symm.trans ha
          exact zero_inBudget

theorem countable_boot {f : Files} {d : Daemon} (h : boot f = .ok d) : Countable d := by
  obtain ⟨-, ht, -⟩ := boot_eq_ok h
  refine ⟨fun j e lsa he hl => ?_, fun k i a ha => ?_⟩
  · rw [ht, List.getElem?_mapIdx, Option.map_eq_some_iff] at he
    obtain ⟨l, -, rfl⟩ := he
    cases hl
  · simp only [cellAt, ht, List.getElem?_mapIdx, Option.bind_eq_some_iff,
      Option.map_eq_some_iff] at ha
    obtain ⟨c, ⟨e, ⟨l, -, rfl⟩, hc⟩, ha⟩ := ha
    cases hc
    rw [clearedCheckers, List.getElem?_map, Option.map_eq_some_iff] at ha
    obtain ⟨l', -, rfl⟩ := ha
    exact zero_inBudget

theorem countable_reachable {f : Files} {d : Daemon} (r : (daemonSystem f).Reachable d) :
    Countable d :=
  reachable_invariant (fun _ => countable_boot) (fun _ _ _ hd h => countable_micro hd h) r

/-! ### Runs -/

/-- In this pass `update_entry` stores an LSA in the entry at index `k`: one that `lsa_handler` accepts,
or the own LSA of a flood tick. -/
def StoredAt (d d' : Daemon) (ev : Event) (out : List Effect) (k : ℕ) : Prop :=
  AcceptedAt d' out k ∨ FloodTick d ev ∧ getRoutingEntry d.rt d.myNodeId = some k

/-- What `retransmit_missing` does in a pass, with the entry and the link of every packet. Only a timeout
that is no flood tick calls it. -/
inductive Resends (d d' : Daemon) (out : List Effect) :
    Event → List (Option (ℕ × ℕ) × Effect) → Prop
  | round {fresh : Fresh} {ms : List (Option (ℕ × ℕ) × Effect)}
      (late : d.iterations ≠ floodingPeriod) (effects : out = ms.map Prod.snd)
      (trail : Trail Retry d ms { d' with iterations := d.iterations }) :
      Resends d d' out (.timeout fresh) ms
  | flood {fresh : Fresh} (now : d.iterations = floodingPeriod) : Resends d d' out (.timeout fresh) []
  | datagram {r : Received} {fresh : Fresh} : Resends d d' out (.datagram r fresh) []
  | request {c : TcpConnection} {uri : List UInt8} {opened : Bool} :
      Resends d d' out (.request c uri opened) []

/-- The runs of a daemon, with the number of times that `retransmit_missing` sent the LSA of the entry at
index `k` to link `i` since `update_entry` last stored one there. -/
inductive Resent (f : Files) (k i : ℕ) : Daemon → ℕ → Prop
  | boot {d : Daemon} (h : boot f = .ok d) : Resent f k i d 0
  | stored {d d' : Daemon} {n : ℕ} {ev : Event} {out : List Effect} (r : Resent f k i d n)
      (h : act ev d = .ok (d', out)) (hs : StoredAt d d' ev out k) : Resent f k i d' 0
  | pass {d d' : Daemon} {n : ℕ} {ev : Event} {out : List Effect}
      {ms : List (Option (ℕ × ℕ) × Effect)} (r : Resent f k i d n)
      (h : act ev d = .ok (d', out)) (hs : ¬ StoredAt d d' ev out k)
      (hm : Resends d d' out ev ms) : Resent f k i d' (n + (ms.map Prod.fst).count (some (k, i)))

theorem exists_resends {d d' : Daemon} {ev : Event} {out : List Effect}
    (h : act ev d = .ok (d', out)) : ∃ ms, Resends d d' out ev ms := by
  cases ev with
  | datagram r fresh => exact ⟨[], .datagram⟩
  | request c uri opened => exact ⟨[], .request⟩
  | timeout fresh =>
    by_cases hit : d.iterations = floodingPeriod
    · exact ⟨[], .flood hit⟩
    · obtain ⟨⟨d₁, out₁⟩, h1, h⟩ := bind_eq_ok.mp h
      obtain ⟨⟨d₂, out₂⟩, h2, h⟩ := bind_eq_ok.mp h
      cases h
      rw [floodPhase, if_neg hit] at h1
      cases h1
      obtain ⟨ms, rfl, tr⟩ := retransmitPhase_trail h2
      have hit₂ : d₂.iterations = d.iterations := by
        unfold retransmitPhase at h2
        split_ifs at h2
        · obtain ⟨⟨rt, gol, out⟩, -, h2⟩ := bind_eq_ok.mp h2
          simp only [Except.ok.injEq, Prod.mk.injEq] at h2
          rw [← h2.1]
        · simp only [Except.ok.injEq, Prod.mk.injEq] at h2
          rw [h2.1]
      refine ⟨ms, .round hit rfl ?_⟩
      rw [← hit₂]
      exact tr

theorem exists_resent {f : Files} (k i : ℕ) {d : Daemon} (r : (daemonSystem f).Reachable d) :
    ∃ n, Resent f k i d n := by
  refine r.invariant (I := fun d => ∃ n, Resent f k i d n) (fun d h => ⟨0, .boot h⟩) ?_
  rintro d l d' ⟨n, hr⟩ h
  by_cases hs : StoredAt d d' l.1 l.2 k
  · exact ⟨0, hr.stored h hs⟩
  · obtain ⟨ms, hm⟩ := exists_resends h
    exact ⟨_, hr.pass h hs hm⟩

theorem Resent.reachable {f : Files} {k i n : ℕ} {d : Daemon} (h : Resent f k i d n) :
    (daemonSystem f).Reachable d := by
  induction h with
  | boot h => exact .init h
  | @stored _ _ _ ev out _ h _ ih => exact ih.step (l := (ev, out)) h
  | @pass _ _ _ ev out _ _ h _ _ ih => exact ih.step (l := (ev, out)) h

/-! ### The bound -/

/-- The checker of link `i` in entry `k` allows for `n` retransmissions: the counter has counted them, or
they were acknowledged on the own entry, which then waits for nothing. -/
def Within (k i n : ℕ) (rt : RoutingTable) : Prop :=
  (n : ℤ) ≤ retransmitTime - 1 ∧ ∀ a, cellAt rt k i = some a →
    a.ackReceived = .notReceived ∨ 1 ≤ k → (n : ℤ) ≤ a.retransmit

theorem within_zero {k i : ℕ} {rt : RoutingTable} (hc : InBudget rt) : Within k i 0 rt :=
  ⟨by decide, fun a ha _ => (hc k i a ha).1⟩

theorem within_retryStep {d d' : Daemon} {ms : List (Option (ℕ × ℕ) × Effect)} {k i n : ℕ}
    (hd : Countable d) (hw : Within k i n d.rt) (h : Retry d ms d') :
    Within k i (n + (ms.map Prod.fst).count (some (k, i))) d'.rt := by
  cases h with
  | @resend slot m j l s lsa c ok other checker pending budget =>
    have hm : m = slot := by
      have := hd.found slot s lsa ok.entry ok.stored
      rw [ok.checkers, Option.some.injEq] at this
      exact this
    subst hm
    rw [getChecker_iff] at checker
    by_cases he : m = k ∧ j = i
    · obtain ⟨rfl, rfl⟩ := he
      have hle := hw.2 c checker (.inl pending)
      simp only [List.map_cons, List.map_nil, List.count_singleton_self]
      refine ⟨by omega, fun a ha _ => ?_⟩
      rw [cellAt_modifyChecker, if_pos ⟨rfl, rfl⟩, checker, Option.map_some, Option.some.injEq] at ha
      rw [← ha]
      exact Int.add_le_add_right hle 1
    · have hne : some (k, i) ≠ some (m, j) := fun h => by
        cases h
        exact he ⟨rfl, rfl⟩
      simp only [List.map_cons, List.map_nil, List.count_singleton, beq_iff_eq, hne.symm, if_false]
      refine ⟨hw.1, fun a ha => hw.2 a ?_⟩
      rwa [cellAt_modifyChecker, if_neg he] at ha
  | @giveUp m j t l e c link checker pending budget =>
    simp only [List.map_cons, List.map_nil, List.count_singleton, beq_iff_eq, reduceCtorEq, if_false]
    refine ⟨hw.1, fun a ha hp => ?_⟩
    rw [cellAt_modifyChecker, cellAt_keep (by exact fun _ => rfl)] at ha
    split_ifs at ha with he
    · obtain ⟨b, hb, rfl⟩ := Option.map_eq_some_iff.mp ha
      rcases hp with hp | hp
      · cases hp
      · exact hw.2 b hb (.inr hp)
    · exact hw.2 a ha hp

theorem within_retry {d d' : Daemon} {ms : List (Option (ℕ × ℕ) × Effect)} {k i n : ℕ}
    (hd : Countable d) (hw : Within k i n d.rt) (h : Trail Retry d ms d') :
    Countable d' ∧ Within k i (n + (ms.map Prod.fst).count (some (k, i))) d'.rt := by
  induction h with
  | refl => exact ⟨hd, hw⟩
  | tail _ h1 ih =>
    obtain ⟨hd', hw'⟩ := ih
    refine ⟨countable_tick hd' h1.onwardTick.1, ?_⟩
    rw [List.map_append, List.count_append, ← Nat.add_assoc]
    exact within_retryStep hd' hw' h1

theorem cells_grow_modifyChecker {rt : RoutingTable} {m j k i : ℕ} {g : AckChecker → AckChecker}
    {a' : AckChecker} (ha : cellAt (modifyChecker rt m j g) k i = some a')
    (hg : ∀ a, a.retransmit ≤ (g a).retransmit) :
    ∃ a, cellAt rt k i = some a ∧ a.retransmit ≤ a'.retransmit := by
  rw [cellAt_modifyChecker] at ha
  split_ifs at ha
  · obtain ⟨a, h, rfl⟩ := Option.map_eq_some_iff.mp ha
    exact ⟨a, h, hg a⟩
  · exact ⟨a', ha, le_rfl⟩

theorem cells_grow_tick {d d' : Daemon} {out : List Effect} {k i : ℕ} (h : Tick d out d')
    (hk : getRoutingEntry d.rt d.myNodeId ≠ some k) {a' : AckChecker}
    (ha : cellAt d'.rt k i = some a') :
    ∃ a, cellAt d.rt k i = some a ∧ a.retransmit ≤ a'.retransmit := by
  cases h with
  | @own fresh lsa size m rt seq packet entry update count =>
    rw [updateEntry_some (Stores.own packet).type, Except.ok.injEq] at update
    have hne : m ≠ k := fun he => hk (he ▸ entry)
    rw [← update, cellAt_modify, if_neg hne] at ha
    exact ⟨a', ha, le_rfl⟩
  | send ok => exact cells_grow_modifyChecker ha fun _ => le_rfl
  | resend ok checker pending budget =>
    exact cells_grow_modifyChecker ha fun _ => Int.le_add_one le_rfl
  | giveUp link checker pending budget =>
    obtain ⟨a, ha, hle⟩ := cells_grow_modifyChecker ha fun _ => le_rfl
    rw [cellAt_keep (by exact fun _ => rfl)] at ha
    exact ⟨a, ha, hle⟩
  | age pos entry up more =>
    rw [cellAt_keep (by exact fun _ => rfl)] at ha
    exact ⟨a', ha, le_rfl⟩
  | expire pos entry last =>
    rw [cellAt_keep (by exact fun _ => rfl)] at ha
    exact ⟨a', ha, le_rfl⟩
  | clock => exact ⟨a', ha, le_rfl⟩

theorem cells_grow {d d' : Daemon} {out : List Effect} {k i : ℕ} (h : Trail Tick d out d')
    (hk : getRoutingEntry d.rt d.myNodeId ≠ some k) {a' : AckChecker}
    (ha : cellAt d'.rt k i = some a') :
    ∃ a, cellAt d.rt k i = some a ∧ a.retransmit ≤ a'.retransmit := by
  have key : (getRoutingEntry d'.rt d'.myNodeId ≠ some k) ∧ ∀ a', cellAt d'.rt k i = some a' →
      ∃ a, cellAt d.rt k i = some a ∧ a.retransmit ≤ a'.retransmit := by
    clear ha
    induction h with
    | refl => exact ⟨hk, fun a' ha => ⟨a', ha, le_rfl⟩⟩
    | tail _ h1 ih =>
      obtain ⟨hk', ih⟩ := ih
      refine ⟨?_, fun a' ha => ?_⟩
      · rw [(micro_static (.tick h1)).2, getRoutingEntry_congr (tick_ids h1)]
        exact hk'
      · obtain ⟨b, hb, hle⟩ := cells_grow_tick h1 hk' ha
        obtain ⟨a, ha, hle'⟩ := ih b hb
        exact ⟨a, ha, hle'.trans hle⟩
  exact key.2 a' ha

/-- **One pass keeps the bound** on an entry that it does not store an LSA in. -/
theorem within_act {f : Files} {d d' : Daemon} {ev : Event} {out : List Effect}
    {ms : List (Option (ℕ × ℕ) × Effect)} {k i n : ℕ} (r : (daemonSystem f).Reachable d)
    (hw : Within k i n d.rt) (h : act ev d = .ok (d', out)) (hs : ¬ StoredAt d d' ev out k)
    (hm : Resends d d' out ev ms) :
    Within k i (n + (ms.map Prod.fst).count (some (k, i))) d'.rt := by
  cases hm with
  | round late effects trail => exact (within_retry (countable_reachable r) hw trail).2
  | @flood fresh now =>
    have hk : getRoutingEntry d.rt d.myNodeId ≠ some k := fun he =>
      hs (.inr ⟨⟨⟨fresh, rfl⟩, now⟩, he⟩)
    refine ⟨hw.1, fun a' ha _ => ?_⟩
    obtain ⟨a, ha, hle⟩ := cells_grow (timeout_trail h) hk ha
    -- the entry at index 0 is the own one
    have hpos : 1 ≤ k := by
      by_contra h0
      obtain rfl : k = 0 := by omega
      cases hl : d.dl.links with
      | nil =>
        rw [cellAt, table_eq_nil r hl] at ha
        cases ha
      | cons l ls =>
        exact hk ((listed_reachable r).getRoutingEntry_own (by rw [hl]; simp))
    exact (hw.2 a ha (.inr hpos)).trans hle
  | request =>
    obtain ⟨-, rfl | ⟨_, _, _, _, -, rfl⟩⟩ := request_cases h <;> exact hw
  | datagram =>
    obtain ⟨lsa, g, size, -, hh⟩ := receive_handled h
    cases hh with
    | ignored => exact hw
    | accepted type newer link update objects =>
      refine ⟨hw.1, fun a ha => ?_⟩
      rcases cellAt_updateEntry (k := k) (i := i) ((acceptedLsa_type _).trans type) update with
        ⟨hk, -⟩ | ⟨-, he⟩
      · exact absurd (.inl ⟨lsa.senderNodeId, lsa.sequenceNum, by simp, hk⟩) hs
      · exact hw.2 a (he ▸ ha)
    | credited type current update =>
      refine ⟨hw.1, fun a ha hp => ?_⟩
      rcases cellAt_creditAck (k := k) (i := i) update with he | ⟨rfl, b, -, hb⟩
      · exact hw.2 a (he ▸ ha) hp
      · -- an ACK that resets the counter ends the wait
        cases hb.symm.trans ha
        rcases hp with hp | hp
        · cases hp
        · omega

theorem Resent.within {f : Files} {k i n : ℕ} {d : Daemon} (h : Resent f k i d n) :
    Within k i n d.rt := by
  induction h with
  | boot h => exact within_zero (countable_boot h).inBudget
  | @stored d d' n ev out r h hs ih =>
    exact within_zero (countable_reachable (r.reachable.step (l := (ev, out)) h)).inBudget
  | pass r h hs hm ih => exact within_act r.reachable ih h hs hm

/-- **Retransmission is bounded.** In every reachable state each counter is below `RETRANSMIT_TIME`, and
along every run `retransmit_missing` sends the LSA of an entry to a link at most
`RETRANSMIT_TIME - 1` times between two calls of `update_entry` on the entry. -/
theorem bounded_retransmission (f : Files) :
    (∀ d, (daemonSystem f).Reachable d → ∀ k i a, getChecker d.rt k i = .ok a →
      0 ≤ a.retransmit ∧ a.retransmit ≤ retransmitTime - 1) ∧
    ∀ k i, (∀ d, (daemonSystem f).Reachable d → ∃ n, Resent f k i d n) ∧
      ∀ d n, Resent f k i d n → (n : ℤ) ≤ retransmitTime - 1 :=
  ⟨fun _ r k i a ha => (countable_reachable r).inBudget k i a (getChecker_iff.mp ha),
    fun k i => ⟨fun _ r => exists_resent k i r, fun _ _ h => h.within.1⟩⟩

end RoutingDaemon
