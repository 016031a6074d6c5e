import RoutingDaemon.ForwardOnce
import RoutingDaemon.Recipients

/-!
# What the flood tick does to the checkers

* `FloodSends`: the flood tick sends the LSA of an entry to a link, by `flood` or by
  `flood_received_lsa`, each at its place in the tick.
* `flood_cells`, `floodTick_cells`: the checkers after the tick. Those of the own entry start afresh;
  those of another entry wait again where its LSA was sent, with the counter that they had.
-/

namespace RoutingDaemon

/-- At the entry at index `k` the flood tick's loop sends to link `i`. -/
def Passes (dl : DirectLinks) (rt : RoutingTable) (k i : ℕ) : Prop :=
  ∃ e l, rt.table[k]? = some e ∧ e.lsaIsNew = true ∧ e.nodeStatus ≠ statusDown ∧
    (l, i) ∈ recipients (fun id => id == e.forwarderId) rt dl.neighbours

/-- The flood tick sends the LSA of the entry at index `k` to link `i`. -/
inductive FloodSends (fresh : Fresh) (d : Daemon) (i : ℕ) : ℕ → Prop
  /-- by `flood`, after it stored the own LSA -/
  | own {lsa : LSA} {size k : ℕ} {rt : RoutingTable} {l : LinkEntry}
      (packet : createPacket fresh typeLsa d.myNodeId d.sequenceNumber d.dl d.ol = .ok (lsa, size))
      (entry : getRoutingEntry d.rt d.myNodeId = some k)
      (update : updateEntry fresh (some k) d.rt d.dl lsa size d.myNodeId = .ok rt)
      (link : (l, i) ∈ recipients (fun _ => false) rt d.dl.neighbours) : FloodSends fresh d i k
  /-- by `flood_received_lsa`, when the loop has dealt with the entries before -/
  | received {k : ℕ} {rt₁ rt₂ : RoutingTable} {gol₂ : LisoHash} {out₁ out₂ : List Effect} (pos : 1 ≤ k)
      (own : flood fresh typeLsa d.dl d.ol d.rt d.myNodeId d.sequenceNumber = .ok (rt₁, out₁))
      (before : tickEntries d.dl (List.range' 1 (k - 1)) rt₁ d.gol = .ok (rt₂, gol₂, out₂))
      (passes : Passes d.dl rt₂ k i) : FloodSends fresh d i k

section Tick

variable {d d' : Daemon} {fresh : Fresh} {k m i : ℕ} {rt' : RoutingTable} {gol' : LisoHash}
  {out : List Effect}

theorem tickEntry_cells (hf : Found d.rt) (h : tickEntry d.dl k d.rt d.gol = .ok (rt', gol', out)) :
    (m = k ∧ Passes d.dl d.rt k i → cellAt rt' m i = (cellAt d.rt m i).map AckChecker.expect) ∧
      (¬ (m = k ∧ Passes d.dl d.rt k i) → cellAt rt' m i = cellAt d.rt m i) := by
  obtain ⟨e, he, h⟩ := bind_eq_ok.mp h
  rw [deref_eq_ok] at he
  obtain ⟨⟨rt₁, out₁⟩, h1, h⟩ := bind_eq_ok.mp h
  -- a status word is not a checker
  have hst : cellAt rt' m i = cellAt rt₁ m i := by
    dsimp only at h
    split_ifs at h <;> cases h
    · rfl
    · exact cellAt_keep fun _ => rfl
    · exact cellAt_keep fun _ => rfl
  rw [hst]
  unfold forwardEntry at h1
  split_ifs at h1 with hnew
  · obtain ⟨lsa, hl, h1⟩ := bind_eq_ok.mp h1
    obtain ⟨n, hn, h1⟩ := bind_eq_ok.mp h1
    rw [deref_eq_ok] at hl hn
    rw [hf k e lsa he hl, Option.some.injEq] at hn
    subst hn
    have hp : Passes d.dl d.rt k i ↔
        ∃ l, (l, i) ∈ recipients (fun id => id == e.forwarderId) d.rt d.dl.neighbours := by
      constructor
      · rintro ⟨e', l, he', -, -, hl⟩
        rw [he, Option.some.injEq] at he'
        rw [he']
        exact ⟨l, hl⟩
      · rintro ⟨l, hl⟩
        exact ⟨e, l, he, hnew.1, hnew.2, hl⟩
    rw [hp]
    exact cellAt_floodLinks h1 m i
  · cases h1
    refine ⟨?_, fun _ => rfl⟩
    rintro ⟨-, e', l, he', h2, h3, -⟩
    rw [he, Option.some.injEq] at he'
    exact absurd ⟨he' ▸ h2, he' ▸ h3⟩ hnew

theorem countable_onward (hc : Countable d) (h : Trail OnwardTick d out d') : Countable d' :=
  h.preserves (I := Countable) (fun _ _ _ hc h => countable_tick hc h.1) hc

theorem tickEntries_cells {is : List ℕ} (hc : Countable d) (hi : ∀ j ∈ is, 1 ≤ j) (hk : k ∉ is)
    (h : tickEntries d.dl is d.rt d.gol = .ok (rt', gol', out)) :
    cellAt rt' k i = cellAt d.rt k i := by
  induction is generalizing d out with
  | nil =>
    cases h
    rfl
  | cons j is ih =>
    obtain ⟨⟨rt₁, gol₁, out₁⟩, h1, h⟩ := bind_eq_ok.mp h
    obtain ⟨⟨rt₂, gol₂, out₂⟩, h2, h⟩ := bind_eq_ok.mp h
    cases h
    rw [List.mem_cons, not_or] at hk
    have hc₁ := countable_onward hc (tickEntry_trail (hi j List.mem_cons_self) h1)
    rw [ih hc₁ (fun n hn => hi n (List.mem_cons_of_mem _ hn)) hk.2 h2]
    exact (tickEntry_cells hc.found h1).2 fun h => hk.1 h.1

/-- **`flood` on the checkers.** Those of the own entry start afresh, and wait where it sent. -/
theorem flood_cells {f : Files} (r : (daemonSystem f).Reachable d)
    (h : flood fresh typeLsa d.dl d.ol d.rt d.myNodeId d.sequenceNumber = .ok (rt', out)) :
    (∀ a, cellAt rt' 0 i = some a →
      a.retransmit = 0 ∧ (a.ackReceived = .notReceived → FloodSends fresh d i 0)) ∧
    (1 ≤ k → cellAt rt' k i = cellAt d.rt k i) := by
  obtain ⟨⟨lsa, size⟩, hp, h⟩ := bind_eq_ok.mp h
  obtain ⟨rt₀, hu, h⟩ := bind_eq_ok.mp h
  obtain ⟨n, hn, h⟩ := bind_eq_ok.mp h
  rw [deref_eq_ok] at hn
  obtain rfl := own_index r hn
  rw [hn] at hu
  have ht := (Stores.own hp).type
  have hu' := updateEntry_own hp hn hu
  have hself : getRoutingEntry rt₀ lsa.senderNodeId = some 0 := by
    rw [updateEntry_some ht, Except.ok.injEq] at hu
    rw [(createPacket_lsa hp).2.1, ← hu, getRoutingEntry_modify (by exact fun _ => rfl), hn]
  constructor
  · intro a ha
    have hclear : ∀ b, cellAt rt₀ 0 i = some b → b.ackReceived = .received ∧ b.retransmit = 0 := by
      rcases cellAt_updateEntry (k := 0) (i := i) ht hu' with ⟨-, hz⟩ | ⟨hne, -⟩
      · exact hz
      · exact absurd hself hne
    obtain ⟨hin, hout⟩ := cellAt_floodLinks h 0 i
    by_cases hl : ∃ l, (l, i) ∈ recipients (fun _ => false) rt₀ d.dl.neighbours
    · rw [hin ⟨rfl, hl⟩, Option.map_eq_some_iff] at ha
      obtain ⟨b, hb, rfl⟩ := ha
      obtain ⟨l, hl⟩ := hl
      exact ⟨(hclear b hb).2, fun _ => .own hp hn hu hl⟩
    · rw [hout fun h => hl h.2] at ha
      obtain ⟨h1, h2⟩ := hclear a ha
      refine ⟨h2, fun hw => ?_⟩
      rw [h1] at hw
      cases hw
  · intro hk
    have hne : k ≠ 0 := by omega
    rw [(cellAt_floodLinks h k i).2 fun h => hne h.1]
    rcases cellAt_updateEntry (k := k) (i := i) ht hu' with ⟨hk', -⟩ | ⟨-, he⟩
    · rw [hself, Option.some.injEq] at hk'
      exact absurd hk'.symm hne
    · exact he

theorem one_le_of_mem_range' {n j : ℕ} (h : j ∈ List.range' 1 n) : 1 ≤ j := (List.mem_range'_1.mp h).1

/-- The loop on the checkers of one entry, which it reaches after the entries before. -/
theorem tickEntries_reaches {n : ℕ} (hc : Countable d) (hk : 1 ≤ k) (hlt : k < n)
    (h : tickEntries d.dl (List.range' 1 (n - 1)) d.rt d.gol = .ok (rt', gol', out)) :
    ∃ rt₁ gol₁ out₁, tickEntries d.dl (List.range' 1 (k - 1)) d.rt d.gol = .ok (rt₁, gol₁, out₁) ∧
      (Passes d.dl rt₁ k i → cellAt rt' k i = (cellAt d.rt k i).map AckChecker.expect) ∧
        (¬ Passes d.dl rt₁ k i → cellAt rt' k i = cellAt d.rt k i) := by
  rw [range'_split hk hlt] at h
  obtain ⟨rt₁, gol₁, out₁, q, h1, hrest, hq⟩ := tickEntries_append h
  obtain ⟨⟨rt₂, gol₂, out₂⟩, h2, hrest⟩ := bind_eq_ok.mp hrest
  obtain ⟨⟨rt₃, gol₃, out₃⟩, h3, h4⟩ := bind_eq_ok.mp hrest
  cases h4
  cases hq
  have hc₁ := countable_onward hc (tickEntries_trail (fun j => one_le_of_mem_range') h1)
  have hc₂ := countable_onward hc₁ (tickEntry_trail hk h2)
  have before : cellAt rt₁ k i = cellAt d.rt k i := by
    refine tickEntries_cells hc (fun j => one_le_of_mem_range') (fun hj => ?_) h1
    have := (List.mem_range'_1.mp hj).2
    omega
  have after : cellAt rt₃ k i = cellAt rt₂ k i := by
    refine tickEntries_cells hc₂ (fun j hj => hk.trans ?_) (fun hj => ?_) h3
    · have := (List.mem_range'_1.mp hj).1
      omega
    · have := (List.mem_range'_1.mp hj).1
      omega
  have hentry := tickEntry_cells (m := k) (i := i) hc₁.found h2
  simp only [true_and, before] at hentry
  rw [after]
  exact ⟨rt₁, gol₁, out₁, h1, hentry⟩

/-- Of a received LSA, what is sent depends on the table in which the loop finds it. -/
theorem floodSends_iff {f : Files} (r : (daemonSystem f).Reachable d) (hk : 1 ≤ k) {rt₁ rt₂ : RoutingTable}
    {gol₂ : LisoHash} {out₁ out₂ : List Effect}
    (h1 : flood fresh typeLsa d.dl d.ol d.rt d.myNodeId d.sequenceNumber = .ok (rt₁, out₁))
    (h2 : tickEntries d.dl (List.range' 1 (k - 1)) rt₁ d.gol = .ok (rt₂, gol₂, out₂)) :
    FloodSends fresh d i k ↔ Passes d.dl rt₂ k i := by
  refine ⟨?_, .received hk h1 h2⟩
  rintro (⟨-, entry, -, -⟩ | ⟨-, own, before, passes⟩)
  · have := own_index r entry
    omega
  · rw [h1] at own
    cases own
    rw [h2] at before
    cases before
    exact passes

theorem FloodSends.lt {f : Files} (r : (daemonSystem f).Reachable d) (hk : 1 ≤ k) {rt₁ : RoutingTable}
    {out₁ : List Effect}
    (h1 : flood fresh typeLsa d.dl d.ol d.rt d.myNodeId d.sequenceNumber = .ok (rt₁, out₁))
    (hs : FloodSends fresh d i k) : k < rt₁.numEntry := by
  rcases hs with ⟨-, entry, -, -⟩ | ⟨-, own, before, e, -, he, -⟩
  · have := own_index r entry
    omega
  · rw [h1] at own
    cases own
    have hb := (tickEntries_other before k).1 (by simp; omega)
    obtain ⟨e', he', -⟩ := exists_of_bareAt hb.symm he
    exact (List.getElem?_eq_some_iff.mp he').1

/-- **The flood tick on the checkers.** Those of the own entry start afresh, and wait where the own LSA
was sent; those of another entry wait again where its LSA was sent, and keep their counter. -/
theorem floodTick_cells {f : Files} (r : (daemonSystem f).Reachable d)
    (h : floodTick fresh d = .ok (d', out)) :
    (∀ a, cellAt d'.rt 0 i = some a →
      a.retransmit = 0 ∧ (a.ackReceived = .notReceived → FloodSends fresh d i 0)) ∧
    (1 ≤ k →
      (FloodSends fresh d i k → cellAt d'.rt k i = (cellAt d.rt k i).map AckChecker.expect) ∧
        (¬ FloodSends fresh d i k → cellAt d'.rt k i = cellAt d.rt k i)) := by
  obtain ⟨⟨rt₁, out₁⟩, h1, h⟩ := bind_eq_ok.mp h
  obtain ⟨seq, hseq, h⟩ := bind_eq_ok.mp h
  obtain ⟨⟨rt₂, gol₂, out₂⟩, h2, h⟩ := bind_eq_ok.mp h
  cases h
  have hc₁ : Countable { d with rt := rt₁, sequenceNumber := seq } :=
    countable_onward (countable_reachable r) (flood_trail h1 hseq)
  constructor
  · intro a ha
    have hnot : 0 ∉ List.range' 1 (rt₁.numEntry - 1) := fun h0 => absurd (one_le_of_mem_range' h0) (by omega)
    have hkeep := tickEntries_cells (i := i) hc₁ (fun j => one_le_of_mem_range') hnot h2
    exact (flood_cells (k := 0) r h1).1 a (hkeep ▸ ha)
  · intro hk
    have h0 : cellAt rt₁ k i = cellAt d.rt k i := (flood_cells r h1).2 hk
    by_cases hlt : k < rt₁.numEntry
    · obtain ⟨rt₃, gol₃, out₃, h3, hpass, hnot⟩ := tickEntries_reaches (i := i) hc₁ hk hlt h2
      rw [floodSends_iff r hk h1 h3, ← h0]
      exact ⟨hpass, hnot⟩
    · -- there is no entry at this index
      refine ⟨fun hs => absurd (hs.lt r hk h1) hlt, fun _ => ?_⟩
      rw [← h0]
      refine tickEntries_cells hc₁ (fun j => one_le_of_mem_range') (fun hj => ?_) h2
      have := (List.mem_range'_1.mp hj).2
      omega

end Tick

end RoutingDaemon
