import RoutingDaemon.Advertisement
import RoutingDaemon.DaemonInvariant

/-!
# Pointers that are not checked for NULL

* `rdgetTarget_ok`: the three lookups of an RDGET succeed in a sound daemon.
* `Linked`: what the send loops need; `tickEntries_ne_badPointer`, `retransmitEntries_ne_badPointer`,
  `timeout_ne_badPointer`: no pass that times out dereferences NULL.
* `tables_agree`: the consistency of object table, routing table and link table.
-/

namespace RoutingDaemon

/-- The lookups of an RDGET succeed if every next hop is a link, and every provider is this node or has
an entry. -/
theorem exists_rdgetTarget {d : Daemon} (hc : Consistent superFastHash d.gol)
    (routed : ∀ e ∈ d.rt.table, ∃ l ∈ d.dl.links, l.id = e.nexthop)
    (paths : ForallPaths superFastHash d.gol fun p =>
      p.nodeId = d.myNodeId ∨ p.nodeId ∈ d.rt.table.map RoutingEntry.id) (name : CString) :
    ∃ t, rdgetTarget d name = .ok t := by
  unfold rdgetTarget
  rw [getPaths_eq hc]
  cases hp : (view superFastHash d.gol name).join with
  | none => exact ⟨_, rfl⟩
  | some p =>
    dsimp only
    split_ifs with hown
    · exact ⟨_, rfl⟩
    have hid := (paths name p (Option.join_eq_some_iff.mp hp)).resolve_left hown
    obtain ⟨e, he, hid⟩ := List.mem_map.mp hid
    obtain ⟨k, hk⟩ := getRoutingEntry_isSome he hid
    obtain ⟨e', he', -⟩ := getRoutingEntry_eq_some hk
    obtain ⟨l, hl, hn⟩ := routed e' (List.mem_of_getElem? he')
    obtain ⟨l', hl'⟩ := exists_lookupLinkEntryNodeId ⟨l, hl, hn⟩
    exact ⟨.via l', by rw [hk, deref_some, ok_bind, he', deref_some, ok_bind, hl']; rfl⟩

theorem rdgetTarget_ok {d : Daemon} (hs : Sound d) (name : CString) :
    ∃ t, rdgetTarget d name = .ok t := by
  refine exists_rdgetTarget hs.consistent (fun e he => ?_) (hs.alive.mono fun p hp => .inr ?_) name
  · obtain ⟨j, hj⟩ := List.mem_iff_getElem?.mp he
    exact (hs.entry j e hj).routed
  · obtain ⟨e, he, hid, -⟩ := hp
    exact List.mem_map.mpr ⟨e, he, hid⟩

/-- Every link has an entry, and every entry has a list of checkers. -/
structure Linked (dl : DirectLinks) (rt : RoutingTable) : Prop where
  known : ∀ l ∈ dl.links, ∃ k, getRoutingEntry rt l.id = some k
  lists : ∀ e ∈ rt.table, e.checkersList ≠ none

theorem Linked.entry {dl : DirectLinks} {rt : RoutingTable} (h : Linked dl rt) {l : LinkEntry}
    (hl : l ∈ dl.links) : ∃ k e, getRoutingEntry rt l.id = some k ∧ rt.table[k]? = some e := by
  obtain ⟨k, hk⟩ := h.known l hl
  obtain ⟨e, he, -⟩ := getRoutingEntry_eq_some hk
  exact ⟨k, e, hk, he⟩

theorem Sound.toLinked {d : Daemon} (hs : Sound d) : Linked d.dl d.rt where
  known l hl := by
    obtain ⟨i, hi⟩ := List.mem_iff_getElem?.mp hl
    exact ⟨i, hs.getRoutingEntry_link hi⟩
  lists e he := by
    obtain ⟨j, hj⟩ := List.mem_iff_getElem?.mp he
    obtain ⟨c, hc, -⟩ := (hs.entry j e hj).checkers
    rw [hc]
    exact Option.some_ne_none c

theorem Linked.modify {dl : DirectLinks} {rt : RoutingTable} (h : Linked dl rt) {k : ℕ}
    {f : RoutingEntry → RoutingEntry} (hid : ∀ e, (f e).id = e.id)
    (hc : ∀ e, e.checkersList ≠ none → (f e).checkersList ≠ none) : Linked dl (rt.modify k f) where
  known l hl := by rw [getRoutingEntry_modify hid]; exact h.known l hl
  lists := forall_modify h.lists fun e _ he => hc e he

theorem Linked.modifyChecker {dl : DirectLinks} {rt : RoutingTable} (h : Linked dl rt) (k i : ℕ)
    (g : AckChecker → AckChecker) : Linked dl (modifyChecker rt k i g) :=
  h.modify (fun _ => rfl) fun e he => by simpa [RoutingEntry.modifyChecker] using he

theorem getChecker_ne_badPointer {dl : DirectLinks} {rt : RoutingTable} (h : Linked dl rt) {k : ℕ}
    (hk : k < rt.numEntry) (i : ℕ) : getChecker rt k i ≠ .error .badPointer := by
  have he : rt.table[k]? = some _ := List.getElem?_eq_getElem hk
  obtain ⟨c, hc⟩ := Option.ne_none_iff_exists'.mp (h.lists _ (List.mem_of_getElem? he))
  unfold getChecker
  rw [he, deref_some, ok_bind, hc, deref_some, ok_bind]
  split <;> simp

theorem floodLinks_ne_badPointer {dl : DirectLinks} {rt : RoutingTable} {k : ℕ} {lsa : LSA}
    {size : ℕ} {skip : Int32 → Bool} {ls : List (LinkEntry × ℕ)}
    (hls : ∀ p ∈ ls, p.1 ∈ dl.links) (h : Linked dl rt) (hk : k < rt.numEntry) :
    floodLinks k lsa size skip ls rt ≠ .error .badPointer := by
  induction ls generalizing rt with
  | nil => simp [floodLinks]
  | cons p ls ih =>
    obtain ⟨l, i⟩ := p
    have hls' : ∀ p ∈ ls, p.1 ∈ dl.links := fun p hp => hls p (List.mem_cons_of_mem _ hp)
    obtain ⟨m, e, hm, he⟩ := h.entry (hls _ List.mem_cons_self)
    have hst : linkStatus rt l.id = .ok e.nodeStatus := linkStatus_eq_ok.mpr ⟨m, e, hm, he, rfl⟩
    intro hf
    simp only [floodLinks, hst, ok_bind] at hf
    split_ifs at hf
    · exact ih hls' h hk hf
    · exact ih hls' h hk hf
    · obtain hf | ⟨c, -, hf⟩ := bind_eq_error.mp hf
      · exact getChecker_ne_badPointer h hk i hf
      obtain hf | ⟨_, -, hf⟩ := bind_eq_error.mp hf
      · exact ih hls' (h.modifyChecker k i _) (by rw [modifyChecker, numEntry_modify]; exact hk) hf
      · cases hf

theorem neighbour_mem {dl : DirectLinks} {p : LinkEntry × ℕ} (hp : p ∈ dl.neighbours) :
    p.1 ∈ dl.links := List.mem_of_getElem? (mem_neighbours.mp hp).2

theorem getRoutingEntry_lt {rt : RoutingTable} {id : Int32} {k : ℕ}
    (h : getRoutingEntry rt id = some k) : k < rt.numEntry := by
  obtain ⟨e, he, -⟩ := getRoutingEntry_eq_some h
  exact (List.getElem?_eq_some_iff.mp he).1

theorem Sound.getRoutingEntry_stored {d : Daemon} (hs : Sound d) {j : ℕ} {e : RoutingEntry}
    (he : d.rt.table[j]? = some e) {lsa : LSA} (hl : e.lsa = some lsa) :
    getRoutingEntry d.rt lsa.senderNodeId = some j := by
  rw [((hs.entry j e he).sender lsa hl).1]
  exact getRoutingEntry_of_nodup hs.nodup he

theorem tickEntry_ne_badPointer {d : Daemon} (hs : Sound d) {i : ℕ} (hi : i < d.rt.numEntry) :
    tickEntry d.dl i d.rt d.gol ≠ .error .badPointer := by
  have he : d.rt.table[i]? = some _ := List.getElem?_eq_getElem hi
  intro hf
  unfold tickEntry at hf
  rw [he, deref_some, ok_bind] at hf
  obtain hf | ⟨_, -, hf⟩ := bind_eq_error.mp hf
  · unfold forwardEntry at hf
    split_ifs at hf with hn
    -- a new LSA of a node that is not down is stored
    · obtain ⟨lsa, hl⟩ := Option.ne_none_iff_exists'.mp ((hs.entry i _ he).stored hn.1 hn.2)
      rw [hl, deref_some, ok_bind, floodReceivedLsa, hs.getRoutingEntry_stored he hl, deref_some,
        ok_bind] at hf
      exact floodLinks_ne_badPointer (fun p hp => neighbour_mem hp) hs.toLinked hi hf
  · dsimp only at hf
    split_ifs at hf

theorem sound_trail {d d' : Daemon} {out : List Effect} (hs : Sound d) (h : Trail Tick d out d') :
    Sound d' ∧ d.rt.numEntry ≤ d'.rt.numEntry :=
  h.preserves (I := fun x => Sound x ∧ d.rt.numEntry ≤ x.rt.numEntry)
    (fun _ _ _ hx hm => ⟨sound_micro hx.1 (.tick hm), hx.2.trans ((reshapes_micro (.tick hm)).numEntry)⟩)
    ⟨hs, le_rfl⟩

theorem tickEntries_ne_badPointer {d : Daemon} (hs : Sound d) {is : List ℕ}
    (hi : ∀ i ∈ is, 1 ≤ i ∧ i < d.rt.numEntry) :
    tickEntries d.dl is d.rt d.gol ≠ .error .badPointer := by
  induction is generalizing d with
  | nil => simp [tickEntries]
  | cons i is ih =>
    obtain ⟨h1, h2⟩ := hi i List.mem_cons_self
    intro hf
    obtain hf | ⟨⟨rt, gol, out⟩, ht, hf⟩ := bind_eq_error.mp hf
    · exact tickEntry_ne_badPointer hs h2 hf
    obtain hf | ⟨_, -, hf⟩ := bind_eq_error.mp hf
    · obtain ⟨hs', hle⟩ := sound_trail hs ((tickEntry_trail h1 ht).mono fun _ _ _ h => h.1)
      refine ih hs' (fun j hj => ?_) hf
      obtain ⟨h3, h4⟩ := hi j (List.mem_cons_of_mem _ hj)
      exact ⟨h3, h4.trans_le hle⟩
    · cases hf

theorem floodTick_ne_badPointer {d : Daemon} (hs : Sound d) (fresh : Fresh) :
    floodTick fresh d ≠ .error .badPointer := by
  intro hf
  obtain hf | ⟨⟨rt, out⟩, h1, hf⟩ := bind_eq_error.mp hf
  · unfold flood at hf
    rw [hs.getRoutingEntry_own] at hf
    obtain hf | ⟨⟨lsa, size⟩, hp, hf⟩ := bind_eq_error.mp hf
    · rw [createPacket_typeLsa] at hf
      cases hf
    obtain ⟨hw, -, -, -⟩ := createPacket_lsa hp
    dsimp only at hf
    rw [updateEntry_some (by rw [hw]; rfl), ok_bind, deref_some, ok_bind] at hf
    refine floodLinks_ne_badPointer (fun p hp => neighbour_mem hp)
      (hs.toLinked.modify (fun _ => by exact rfl) fun e _ => ?_) ?_ hf
    · simp [storeLsa]
    · rw [numEntry_modify]
      exact getRoutingEntry_lt hs.getRoutingEntry_own
  obtain hf | ⟨seq, hseq, hf⟩ := bind_eq_error.mp hf
  · unfold nextSequence at hf
    split_ifs at hf
    cases hf
  obtain hf | ⟨_, -, hf⟩ := bind_eq_error.mp hf
  · obtain ⟨hs', -⟩ := sound_trail hs ((flood_trail h1 hseq).mono fun _ _ _ h => h.1)
    refine tickEntries_ne_badPointer hs' (fun i hi => ?_) hf
    have := List.mem_range'_1.mp hi
    dsimp only at this ⊢
    omega
  · cases hf

theorem retransmitLinks_ne_badPointer {dl : DirectLinks} {rt : RoutingTable} {ht : LisoHash}
    {slot k size : ℕ} {forwarderId : Int32} {ls : List (LinkEntry × ℕ)}
    (hls : ∀ p ∈ ls, p.1 ∈ dl.links) (h : Linked dl rt) (hk : k < rt.numEntry) :
    retransmitLinks slot k size forwarderId ls rt ht ≠ .error .badPointer := by
  induction ls generalizing rt ht with
  | nil => simp [retransmitLinks]
  | cons p ls ih =>
    obtain ⟨l, i⟩ := p
    have hls' : ∀ p ∈ ls, p.1 ∈ dl.links := fun p hp => hls p (List.mem_cons_of_mem _ hp)
    obtain ⟨m, e, hm, he⟩ := h.entry (hls _ List.mem_cons_self)
    intro hf
    simp only [retransmitLinks] at hf
    split_ifs at hf
    · exact ih hls' h hk hf
    obtain hf | ⟨c, -, hf⟩ := bind_eq_error.mp hf
    · exact getChecker_ne_badPointer h hk i hf
    cases hc : c.ackReceived with
    | received => rw [hc] at hf; exact ih hls' h hk hf
    | notReceived =>
      rw [hc] at hf
      simp only [hm, he, deref_some, ok_bind] at hf
      split_ifs at hf
      · obtain hf | ⟨_, -, hf⟩ := bind_eq_error.mp hf
        · have h' : Linked dl (rt.modify m RoutingEntry.discard) :=
            h.modify (fun _ => rfl) fun _ hc => hc
          refine ih hls' (h'.modifyChecker k i _) ?_ hf
          rw [modifyChecker, numEntry_modify, numEntry_modify]; exact hk
        · cases hf
      · split at hf
        · cases hf
        · obtain hf | ⟨_, -, hf⟩ := bind_eq_error.mp hf
          · exact ih hls' (h.modifyChecker k i _) (by rw [modifyChecker, numEntry_modify]; exact hk) hf
          · cases hf
      · exact ih hls' h hk hf

theorem retransmitEntries_ne_badPointer {d : Daemon} (hs : Sound d) {is : List ℕ}
    (hi : ∀ i ∈ is, i < d.rt.numEntry) :
    retransmitEntries d.dl is d.rt d.gol ≠ .error .badPointer := by
  induction is generalizing d with
  | nil => simp [retransmitEntries]
  | cons i is ih =>
    have hi0 := hi i List.mem_cons_self
    have he : d.rt.table[i]? = some _ := List.getElem?_eq_getElem hi0
    intro hf
    rw [retransmitEntries, he, deref_some, ok_bind] at hf
    obtain hf | ⟨⟨rt, gol, out⟩, ht, hf⟩ := bind_eq_error.mp hf
    · unfold retransmitMissing at hf
      split at hf
      · cases hf
      · rename_i lsa hl
        rw [storedLsa, he, Option.bind_some] at hl
        rw [hs.getRoutingEntry_stored he hl, deref_some, ok_bind] at hf
        exact retransmitLinks_ne_badPointer (fun p hp => neighbour_mem hp) hs.toLinked hi0 hf
    obtain hf | ⟨_, -, hf⟩ := bind_eq_error.mp hf
    · obtain ⟨ms, -, tr⟩ := retransmitMissing_trail he ht
      obtain ⟨hs', hle⟩ := sound_trail hs (tr.map fun _ _ _ h => h.onwardTick.1)
      exact ih hs' (fun j hj => (hi j (List.mem_cons_of_mem _ hj)).trans_le hle) hf
    · cases hf

/-- **No pass that times out dereferences NULL.** -/
theorem timeout_ne_badPointer {d : Daemon} (hs : Sound d) (fresh : Fresh) :
    timeout fresh d ≠ .error .badPointer := by
  intro hf
  obtain hf | ⟨⟨d₁, out₁⟩, h1, hf⟩ := bind_eq_error.mp hf
  · unfold floodPhase at hf
    split_ifs at hf
    exact floodTick_ne_badPointer hs fresh hf
  obtain ⟨hs₁, -⟩ := sound_trail hs ((floodPhase_trail h1).mono fun _ _ _ h => h.1)
  obtain hf | ⟨_, -, hf⟩ := bind_eq_error.mp hf
  · unfold retransmitPhase at hf
    split_ifs at hf
    obtain hf | ⟨_, -, hf⟩ := bind_eq_error.mp hf
    · exact retransmitEntries_ne_badPointer hs₁ (fun i hi => List.mem_range.mp hi) hf
    · cases hf
  · cases hf

/-- **Object table, routing table and link table agree in every reachable state.** So the lookups
of an RDGET and the pointers used by a flood tick are never NULL. -/
theorem tables_agree {f : Files} (hf : Configured f) {d : Daemon}
    (r : (daemonSystem f).Reachable d) :
    (∀ i, ∀ q ∈ d.gol.hash i, ∀ p, q.pathS = some p →
      ∃ k e, getRoutingEntry d.rt p.nodeId = some k ∧ d.rt.table[k]? = some e ∧
        e.nodeStatus ≠ statusDown ∧ ∃ l ∈ d.dl.links, l.id = e.nexthop) ∧
      (∀ e ∈ d.rt.table, e.nodeStatus = statusDown → e.lsa = none) ∧
      (∀ e ∈ d.rt.table, e.lsaIsNew = true → e.nodeStatus ≠ statusDown → e.lsa ≠ none) ∧
      (∀ name, ∃ t, rdgetTarget d name = .ok t) ∧
      ∀ fresh, timeout fresh d ≠ .error .badPointer := by
  have hs := sound_reachable hf r
  have hmem : ∀ e ∈ d.rt.table, ∃ j, EntryOk d.dl j e := fun e he => by
    obtain ⟨j, hj⟩ := List.mem_iff_getElem?.mp he
    exact ⟨j, hs.entry j e hj⟩
  refine ⟨fun i q hq p hp => ?_, fun e he => ?_, fun e he => ?_, rdgetTarget_ok hs,
    timeout_ne_badPointer hs⟩
  · obtain ⟨e, he, hid, hst⟩ := hs.alive.mem hs.consistent hq hp
    obtain ⟨k, hk⟩ := List.mem_iff_getElem?.mp he
    exact ⟨k, e, by rw [← hid]; exact getRoutingEntry_of_nodup hs.nodup hk, hk, hst,
      (hs.entry k e hk).routed⟩
  · obtain ⟨j, hj⟩ := hmem e he
    exact hj.cleared
  · obtain ⟨j, hj⟩ := hmem e he
    exact hj.stored

/-- The files of node 1, with one neighbour and one object. -/
def pairFiles : Files where
  rows := pairLinks.links
  hostname := cstr [104]
  lines := [(cstr [111], cstr [112])]
  filefile := []

theorem configured_pairFiles : Configured pairFiles := ⟨by decide, by decide⟩

/-- Node 2 sends an LSA of node 9 with an object, then node 1 floods. -/
def objectRun : List Event :=
  .datagram (.got (cstr [66]) (LSA.bytes ⟨newHeader typeLsa, 9, 0, 0, 1, le32 1 ++ [112]⟩)) zeros ::
    List.replicate 6 (.timeout zeros)

/-- After that run the entry of node 9 is new, and an RDGET of its object finds node 2. -/
theorem tables_agree_pairFiles : ∃ d, (daemonSystem pairFiles).Reachable d ∧ d.sequenceNumber = 1 ∧
    rdgetTarget d (cstr [112]) = .ok (.via (linkOn 2 66)) ∧
    (∃ e ∈ d.rt.table, e.id = 9 ∧ e.lsaIsNew = true ∧ e.lsa ≠ none) ∧
    (∀ name, ∃ t, rdgetTarget d name = .ok t) ∧ ∀ fresh, timeout fresh d ≠ .error .badPointer := by
  have key : (boot pairFiles >>= exec objectRun).map (fun d => decide (d.sequenceNumber = 1) &&
      decide (rdgetTarget d (cstr [112]) = .ok (.via (linkOn 2 66))) &&
      decide (∃ e ∈ d.rt.table, e.id = 9 ∧ e.lsaIsNew = true ∧ e.nodeStatus ≠ statusDown)) =
        .ok true := by decide +kernel
  obtain ⟨d, hd, hp⟩ := exists_of_map_eq_ok key
  simp only [Bool.and_eq_true, decide_eq_true_eq] at hp
  obtain ⟨⟨hseq, htarget⟩, e, he, hid, hnew, hup⟩ := hp
  obtain ⟨d₀, h0, h⟩ := bind_eq_ok.mp hd
  have r : (daemonSystem pairFiles).Reachable d := reachable_exec (.init h0) h
  obtain ⟨-, -, hstored, hlookup, hpass⟩ := tables_agree configured_pairFiles r
  exact ⟨d, r, hseq, htarget, ⟨e, he, hid, hnew, hstored e he hnew hup⟩, hlookup, hpass⟩

end RoutingDaemon
