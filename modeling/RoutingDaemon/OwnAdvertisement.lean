import RoutingDaemon.AcceptOnce
import RoutingDaemon.FilesFile
import RoutingDaemon.Recipients

/-!
# The own advertisement

* `restart`: a daemon that starts again, from the files it left. `restartNetwork`: the runs of a
  network whose daemons may restart, with the last LSA that each flooded since its start.
* `OwnKept`: the own entry holds that LSA, and its route is the one it was loaded with.
* `OwnOlder`: the condition on a pass; `ownKept_act`: one pass keeps the own entry exactly if it meets
  the condition.
* `own_advertisement_kept`: all runs; `exists_own_replaced`: a run in which an LSA from before a restart
  comes back.
-/

namespace RoutingDaemon

/-! ### Restarts -/

/-- `main` runs again. The state is loaded from the configuration, and from the files file as the daemon
left it. -/
def restart (f : Files) (d : Daemon) : Except Fault Daemon := do
  let (dl, rt, myUri) ← loadNodeConf f.rows f.hostname
  let myNodeId := (dl.links.head?.map LinkEntry.id).getD 0
  let (ol, gol) ← loadFile myNodeId d.filefile LocalObjects.empty initHash
  .ok ⟨dl, ol, rt, gol, myNodeId, 0, retransmitTime + 1, myUri, d.filefile⟩

theorem restart_eq_ok {f : Files} {d d' : Daemon} (h : restart f d = .ok d') :
    ∃ lines, (readLines d.filefile.length d.filefile).mapM lineTokens = .ok lines ∧
      boot { f with lines := lines, filefile := d.filefile } = .ok d' := by
  obtain ⟨⟨dl, rt, uri⟩, h1, h⟩ := bind_eq_ok.mp h
  obtain ⟨⟨ol, gol⟩, h2, h⟩ := bind_eq_ok.mp h
  cases h
  obtain ⟨lines, hlines, hload⟩ := loadLines_eq_ok.mp h2
  exact ⟨lines, hlines, bind_eq_ok.mpr ⟨_, h1, bind_eq_ok.mpr ⟨_, hload, rfl⟩⟩⟩

/-- The last LSA that the own `flood` created, after a pass. -/
def floodedAfter (d : Daemon) (last : Option LSA) : Event → Option LSA
  | .timeout fresh =>
    if d.iterations = floodingPeriod then
      (createPacket fresh typeLsa d.myNodeId d.sequenceNumber d.dl d.ol).toOption.map Prod.fst
    else last
  | _ => last

variable {ι : Type}

/-- The steps of a network whose daemons may restart. Datagrams that were sent before stay on the wire.
Beside the world stands the last LSA that each daemon flooded since its start. -/
inductive RestartStep [DecidableEq ι] (N : Net ι) (ok : List UInt8 → Prop) :
    World ι × (ι → Option LSA) → ι × Option (Event × List Effect) →
      World ι × (ι → Option LSA) → Prop
  | pass {w w' : World ι} {last : ι → Option LSA} {x : ι} {ev : Event} {out : List Effect}
      (h : (network N ok).step w (x, ev, out) w') :
      RestartStep N ok (w, last) (x, some (ev, out))
        (w', Function.update last x (floodedAfter (w.daemon x) (last x) ev))
  | restart {w : World ι} {last : ι → Option LSA} {x : ι} {d : Daemon}
      (h : RoutingDaemon.restart (N.files x) (w.daemon x) = .ok d) :
      RestartStep N ok (w, last) (x, none)
        (⟨Function.update w.daemon x d, w.wire⟩, Function.update last x none)

/-- The runs of a network whose daemons may restart. -/
def restartNetwork [DecidableEq ι] (N : Net ι) (ok : List UInt8 → Prop) :
    System (World ι × (ι → Option LSA)) (ι × Option (Event × List Effect)) where
  init s := (network N ok).init s.1 ∧ s.2 = fun _ => none
  step := RestartStep N ok

/-! ### The own entry -/

/-- The own entry holds the LSA that was flooded last, and has the route it was loaded with; the
forwarder that is noted with the LSA is the daemon itself. -/
def OwnKept (d : Daemon) (last : Option LSA) : Prop :=
  ∃ e, d.rt.table[0]? = some e ∧ e.lsa = last ∧ e.nexthop = d.myNodeId ∧ e.cost = 0 ∧
    e.forwarderId = if last = none then 0 else d.myNodeId

/-- An LSA about the daemon itself is received only if it is not newer than the stored one. -/
def OwnOlder (d : Daemon) (ev : Event) : Prop :=
  ∀ r fresh lsa f size, ev = .datagram r fresh →
    rtRecvfrom d.dl r = .ok (some (lsa, f, size)) → getType lsa.versionTtlType = typeLsa →
      lsa.senderNodeId = d.myNodeId →
        ∃ a, storedFor d.rt d.myNodeId = some a ∧ lsa.sequenceNum.toInt ≤ a.sequenceNum.toInt

/-- The own entry without its checkers. -/
def ownBare (rt : RoutingTable) : Option RoutingEntry := rt.table[0]?.map RoutingEntry.bare

theorem OwnKept.of_bare {d d' : Daemon} {last : Option LSA} (h : OwnKept d last)
    (hid : d'.myNodeId = d.myNodeId) (hb : ownBare d'.rt = ownBare d.rt) : OwnKept d' last := by
  obtain ⟨e, he, hl, hn, hc, hf⟩ := h
  rw [ownBare, ownBare, he, Option.map_some, Option.map_eq_some_iff] at hb
  obtain ⟨e', he', hb⟩ := hb
  obtain ⟨-, hn', hc', -, hl', -, -, hf'⟩ := bare_eq_iff.mp hb
  exact ⟨e', he', hl'.trans hl, by rw [hn', hid, hn], hc'.trans hc, by rw [hf', hid, hf]⟩

theorem ownBare_of_bare {rt rt' : RoutingTable}
    (h : rt'.table.map RoutingEntry.bare = rt.table.map RoutingEntry.bare) :
    ownBare rt' = ownBare rt := by
  have := congrArg (fun l => l[0]?) h
  simpa [ownBare] using this

theorem ownBare_modify {rt : RoutingTable} {k : ℕ} {f : RoutingEntry → RoutingEntry} (hk : k ≠ 0) :
    ownBare (rt.modify k f) = ownBare rt := by
  rw [ownBare, getElem?_modify, ownBare]
  simp [hk]

/-! ### Timeouts -/

theorem ownBare_tickEntries {dl : DirectLinks} {is : List ℕ} {rt rt' : RoutingTable}
    {ht ht' : LisoHash} {out : List Effect} (hi : ∀ i ∈ is, 1 ≤ i)
    (h : tickEntries dl is rt ht = .ok (rt', ht', out)) : ownBare rt' = ownBare rt := by
  induction is generalizing rt ht out with
  | nil =>
    cases h
    rfl
  | cons i is ih =>
    obtain ⟨⟨rt₁, gol₁, out₁⟩, h1, h⟩ := bind_eq_ok.mp h
    obtain ⟨⟨rt₂, gol₂, out₂⟩, h2, h⟩ := bind_eq_ok.mp h
    cases h
    rw [ih (fun j hj => hi j (List.mem_cons_of_mem _ hj)) h2]
    obtain ⟨e, -, h1⟩ := bind_eq_ok.mp h1
    obtain ⟨⟨rt₀, out₀⟩, h0, h1⟩ := bind_eq_ok.mp h1
    have hne : i ≠ 0 := Nat.one_le_iff_ne_zero.mp (hi i List.mem_cons_self)
    dsimp only at h1
    rw [← ownBare_of_bare (forwardEntry_bare h0)]
    split_ifs at h1 <;> cases h1
    · rfl
    · exact ownBare_modify hne
    · exact ownBare_modify hne

theorem ownKept_flood {d : Daemon} {last : Option LSA} {fresh : Fresh} {rt : RoutingTable}
    {out : List Effect} (hs : Sound d) (hk : OwnKept d last)
    (h : flood fresh typeLsa d.dl d.ol d.rt d.myNodeId d.sequenceNumber = .ok (rt, out)) :
    OwnKept { d with rt := rt }
      ((createPacket fresh typeLsa d.myNodeId d.sequenceNumber d.dl d.ol).toOption.map Prod.fst) := by
  obtain ⟨e, he, -, hn, hc, -⟩ := hk
  obtain ⟨⟨lsa, size⟩, hp, h⟩ := bind_eq_ok.mp h
  obtain ⟨rt₀, hu, h⟩ := bind_eq_ok.mp h
  obtain ⟨k, hk, h⟩ := bind_eq_ok.mp h
  rw [hs.getRoutingEntry_own, deref_some, Except.ok.injEq] at hk
  subst hk
  rw [hs.getRoutingEntry_own, updateEntry_some (Stores.own hp).type, Except.ok.injEq] at hu
  have hcost : ¬ (defaultTtl - getTtl lsa.versionTtlType + 1 < e.cost) := by
    rw [(createPacket_lsa hp).1, getTtl_newHeader, hc]
    decide
  have hb := ownBare_of_bare (floodLinks_bare h)
  refine OwnKept.of_bare (d := { d with rt := rt₀ }) ?_ rfl hb
  rw [hp]
  refine ⟨_, by rw [← hu, getElem?_modify, he, Option.map_some, if_pos rfl], rfl, ?_, ?_, rfl⟩
  · exact (if_neg hcost).trans hn
  · exact (if_neg hcost).trans hc

theorem ownBare_retry {d d' : Daemon} {ms : List (Option (ℕ × ℕ) × Effect)} (hs : Sound d)
    (h : Trail Retry d ms d') : Sound d' ∧ ownBare d'.rt = ownBare d.rt := by
  induction h with
  | refl => exact ⟨hs, rfl⟩
  | @tail u t xs ys _ h1 ih =>
    obtain ⟨hu, ih⟩ := ih
    refine ⟨sound_micro hu (.tick h1.onwardTick.1), Eq.trans ?_ ih⟩
    cases h1 with
    | resend ok other checker pending budget => exact ownBare_of_bare (map_bare_modifyChecker _ _)
    | @giveUp k i m l e c link checker pending budget =>
      have hm : m ≠ 0 := by
        obtain ⟨hi, hl⟩ := mem_neighbours.mp link.link
        have := hu.getRoutingEntry_link hl
        rw [link.lookup, Option.some.injEq] at this
        omega
      rw [ownBare_of_bare (map_bare_modifyChecker _ _), ownBare_modify hm]

theorem ownKept_timeout {d d' : Daemon} {last : Option LSA} {fresh : Fresh} {out : List Effect}
    (hs : Sound d) (hk : OwnKept d last) (h : timeout fresh d = .ok (d', out)) :
    OwnKept d' (floodedAfter d last (.timeout fresh)) := by
  have hact : act (.timeout fresh) d = .ok (d', out) := h
  have hid := (act_static hact).2
  obtain ⟨⟨d₁, out₁⟩, h1, h⟩ := bind_eq_ok.mp h
  obtain ⟨⟨d₂, out₂⟩, h2, h⟩ := bind_eq_ok.mp h
  cases h
  obtain ⟨hs₁, -⟩ := sound_trail hs ((floodPhase_trail h1).mono fun _ _ _ h => h.1)
  obtain ⟨ms, -, round⟩ := retransmitPhase_trail h2
  have hb : ownBare d₂.rt = ownBare d₁.rt := (ownBare_retry hs₁ round).2
  rw [floodedAfter]
  unfold floodPhase at h1
  split_ifs at h1 ⊢ with hit
  · obtain ⟨⟨rt₁, out₁⟩, hf, h1⟩ := bind_eq_ok.mp h1
    obtain ⟨seq, -, h1⟩ := bind_eq_ok.mp h1
    obtain ⟨⟨rt₂, gol₂, out₂⟩, ht, h1⟩ := bind_eq_ok.mp h1
    cases h1
    refine (ownKept_flood hs hk hf).of_bare hid (hb.trans ?_)
    exact ownBare_tickEntries (fun i hi => (List.mem_range'_1.mp hi).1) ht
  · cases h1
    exact hk.of_bare hid hb

/-! ### One pass -/

theorem Sound.entryOf_own {d : Daemon} (hs : Sound d) :
    entryOf d.rt d.myNodeId = d.rt.table[0]? := by
  rw [entryOf, hs.getRoutingEntry_own, Option.bind_some]

theorem Sound.forwarder_ne {d : Daemon} (hs : Sound d) {r : Received} {lsa : LSA} {f : Int32}
    {size : ℕ} (recv : rtRecvfrom d.dl r = .ok (some (lsa, f, size))) : f ≠ d.myNodeId := by
  obtain ⟨_, _, l, -, -, -, hl, rfl, -⟩ := rtRecvfrom_eq_ok recv
  obtain ⟨l₀, h0, hid⟩ := hs.link_zero
  obtain ⟨j, hj⟩ := List.mem_iff_getElem?.mp (List.mem_of_find?_eq_some hl)
  rw [List.getElem?_tail] at hj
  rw [← hid]
  exact hs.neighbour_ne (mem_neighbours.mpr ⟨by omega, hj⟩) h0

theorem ownOlder_datagram {d : Daemon} {r : Received} {fresh : Fresh} {lsa : LSA} {f : Int32} {size : ℕ}
    (recv : rtRecvfrom d.dl r = .ok (some (lsa, f, size))) : OwnOlder d (.datagram r fresh) ↔
      (getType lsa.versionTtlType = typeLsa → lsa.senderNodeId = d.myNodeId →
        filtered d.rt (getRoutingEntry d.rt lsa.senderNodeId) typeLsa lsa.sequenceNum = true) := by
  constructor
  · intro h ht hsend
    rw [hsend, filtered_lsa]
    exact h r fresh lsa f size rfl recv ht hsend
  · rintro h r' fresh' lsa' f' size' he recv' ht hsend
    cases he
    rw [recv] at recv'
    cases recv'
    have := h ht hsend
    rwa [hsend, filtered_lsa] at this

theorem ownKept_accepted {d : Daemon} {last : Option LSA} {r : Received} {fresh : Fresh} {lsa : LSA}
    {f : Int32} {size : ℕ} {rt : RoutingTable} {gol : LisoHash} (hs : Sound d)
    (hs' : Sound { d with rt := rt, gol := gol }) (hk : OwnKept d last)
    (recv : rtRecvfrom d.dl r = .ok (some (lsa, f, size)))
    (type : getType lsa.versionTtlType = typeLsa)
    (update : updateEntry fresh (getRoutingEntry d.rt lsa.senderNodeId) d.rt d.dl (acceptedLsa lsa)
      size f = .ok rt) :
    OwnKept { d with rt := rt, gol := gol } last ↔ lsa.senderNodeId ≠ d.myNodeId := by
  have he : entryOf rt d.myNodeId = if d.myNodeId = lsa.senderNodeId then
      some (updatedEntry fresh d.dl (acceptedLsa lsa) size f (entryOf d.rt d.myNodeId))
      else entryOf d.rt d.myNodeId :=
    entryOf_updateEntry ((acceptedLsa_type _).trans type) update
  have hown : entryOf rt d.myNodeId = rt.table[0]? := hs'.entryOf_own
  constructor
  · rintro ⟨e, he', hl, -, -, hf⟩ hsend
    rw [if_pos hsend.symm, hown] at he
    dsimp only at he'
    rw [he, Option.some.injEq] at he'
    subst he'
    have hlast : last ≠ none := by
      rw [← hl]
      simp [updatedEntry, storeLsa]
    rw [if_neg hlast] at hf
    exact hs.forwarder_ne recv hf
  · intro hsend
    refine hk.of_bare rfl ?_
    rw [if_neg (Ne.symm hsend), hown, hs.entryOf_own] at he
    rw [ownBare, he, ownBare]

/-- **One pass keeps the own entry exactly if it takes no newer LSA about the daemon itself.** -/
theorem ownKept_act {d d' : Daemon} {last : Option LSA} {ev : Event} {out : List Effect}
    (hs : Sound d) (hk : OwnKept d last) (h : act ev d = .ok (d', out)) :
    OwnKept d' (floodedAfter d last ev) ↔ OwnOlder d ev := by
  have hs' := sound_act hs h
  cases ev with
  | timeout fresh => exact iff_of_true (ownKept_timeout hs hk h) fun _ _ _ _ _ he => by cases he
  | request c uri opened =>
    refine iff_of_true ?_ fun _ _ _ _ _ he => by cases he
    obtain ⟨-, rfl | ⟨_, _, _, _, -, rfl⟩⟩ := request_cases h
    · exact hk
    · exact hk.of_bare rfl rfl
  | datagram r fresh =>
    obtain ⟨lsa, f, size, recv, hh⟩ := receive_handled h
    rw [ownOlder_datagram recv]
    show OwnKept d' last ↔ _
    cases hh with
    | ignored why =>
      refine iff_of_true hk fun ht _ => ?_
      rcases why with h1 | ⟨h1, -⟩
      · rwa [ht] at h1
      · exact absurd ht h1
    | credited type current update =>
      refine iff_of_true ?_ fun ht => absurd (ht.symm.trans type) (by decide)
      obtain ⟨_, _, _, _, _, -, -, -, -, -, -, rfl⟩ := creditAck_eq_ok update
      exact hk.of_bare rfl (ownBare_of_bare (map_modify fun _ => rfl))
    | accepted type newer link update objects =>
      rw [ownKept_accepted hs hs' hk recv type update]
      constructor
      · exact fun hne _ hsend => absurd hsend hne
      · intro hold hsend
        rw [hold type hsend] at newer
        cases newer

/-! ### All runs -/

theorem ownKept_boot {f : Files} (hf : Configured f) {d : Daemon} (h : boot f = .ok d) :
    OwnKept d none := by
  obtain ⟨-, ht, hid, -⟩ := boot_eq_ok h
  obtain ⟨l, ls, hr⟩ := List.exists_cons_of_ne_nil hf.own
  have h0 : d.rt.table[0]? = some (loadedEntry d.dl 0 l) := by
    rw [ht, hr, List.getElem?_mapIdx]
    rfl
  exact ⟨loadedEntry d.dl 0 l, h0, rfl, by rw [hid, hr]; rfl, rfl, rfl⟩

theorem Net.Distinct.configured_with {N : Net ι} (hv : N.Distinct) (x : ι)
    (lines : List (CString × CString)) (file : List UInt8) :
    Configured { N.files x with lines := lines, filefile := file } :=
  ⟨(hv.configured x).own, (hv.configured x).distinct⟩

variable [DecidableEq ι] {N : Net ι} {ok : List UInt8 → Prop}

/-- No daemon reads an LSA about itself that is newer than the one in its own entry. -/
def OwnOlderStep (s : World ι × (ι → Option LSA)) (l : ι × Option (Event × List Effect)) : Prop :=
  ∀ ev out, l.2 = some (ev, out) → OwnOlder (s.1.daemon l.1) ev

theorem sound_restartStep {s s' : World ι × (ι → Option LSA)} {l : ι × Option (Event × List Effect)}
    (hv : N.Distinct) (hs : ∀ x, Sound (s.1.daemon x)) (h : RestartStep N ok s l s') :
    ∀ x, Sound (s'.1.daemon x) := by
  cases h with
  | @pass w w' last x ev out h =>
    obtain ⟨-, d, ha, rfl⟩ := h
    exact forall_after (P := fun _ d => Sound d) (sound_act (hs x) ha) hs
  | @restart w last x d h =>
    obtain ⟨lines, -, hb⟩ := restart_eq_ok h
    exact (Function.forall_update_iff _ fun _ d => Sound d).mpr
      ⟨sound_boot (hv.configured_with x lines _) hb, fun y _ => hs y⟩

theorem sound_restartNetwork (hv : N.Distinct) {s : World ι × (ι → Option LSA)}
    (r : (restartNetwork N ok).Reachable s) : ∀ x, Sound (s.1.daemon x) := by
  refine r.invariant (I := fun s => ∀ x, Sound (s.1.daemon x)) (fun s h x => ?_)
    fun s l s' hs h => sound_restartStep hv hs h
  exact sound_boot (hv.configured x) (h.1.2 x)

theorem ownKept_step {s s' : World ι × (ι → Option LSA)} {l : ι × Option (Event × List Effect)}
    (hv : N.Distinct) (hs : ∀ x, Sound (s.1.daemon x)) (hk : ∀ x, OwnKept (s.1.daemon x) (s.2 x))
    (ho : OwnOlderStep s l) (h : RestartStep N ok s l s') :
    ∀ x, OwnKept (s'.1.daemon x) (s'.2 x) := by
  intro y
  cases h with
  | @pass w w' last x ev out h =>
    obtain ⟨-, d, ha, rfl⟩ := h
    by_cases hy : y = x
    · subst hy
      rw [after_daemon_self]
      dsimp only
      rw [Function.update_self]
      exact (ownKept_act (hs y) (hk y) ha).mpr (ho ev out rfl)
    · rw [after_daemon_of_ne hy]
      dsimp only
      rw [Function.update_of_ne hy]
      exact hk y
  | @restart w last x d h =>
    dsimp only
    by_cases hy : y = x
    · subst hy
      obtain ⟨lines, -, hb⟩ := restart_eq_ok h
      rw [Function.update_self, Function.update_self]
      exact ownKept_boot (hv.configured_with y lines _) hb
    · rw [Function.update_of_ne hy, Function.update_of_ne hy]
      exact hk y

/-- **The own advertisement is kept in every run in which no daemon reads an LSA about itself that is newer
than the one in its own entry**; such an LSA replaces it, and one that is not newer changes nothing. -/
theorem own_advertisement_kept (N : Net ι) (ok : List UInt8 → Prop) (hv : N.Distinct) :
    (∀ s, ((restartNetwork N ok).restrict OwnOlderStep).Reachable s →
      ∀ x, OwnKept (s.1.daemon x) (s.2 x)) ∧
    ∀ s x ev out s', (restartNetwork N ok).Reachable s →
      (restartNetwork N ok).step s (x, some (ev, out)) s' → OwnKept (s.1.daemon x) (s.2 x) →
        (OwnKept (s'.1.daemon x) (s'.2 x) ↔ OwnOlder (s.1.daemon x) ev) ∧
        ∀ r fresh lsa f size, ev = .datagram r fresh →
          rtRecvfrom (s.1.daemon x).dl r = .ok (some (lsa, f, size)) →
          getType lsa.versionTtlType = typeLsa → lsa.senderNodeId = (s.1.daemon x).myNodeId →
            OwnOlder (s.1.daemon x) ev → s'.1.daemon x = s.1.daemon x ∧ out = [] := by
  constructor
  · intro s r
    have key := r.invariant (I := fun s => (∀ x, Sound (s.1.daemon x)) ∧
      ∀ x, OwnKept (s.1.daemon x) (s.2 x)) ?_ ?_
    · exact key.2
    · rintro s ⟨h1, h2⟩
      refine ⟨fun x => sound_boot (hv.configured x) (h1.2 x), fun x => ?_⟩
      rw [h2]
      exact ownKept_boot (hv.configured x) (h1.2 x)
    · rintro s l s' ⟨hs, hk⟩ ⟨ho, h⟩
      exact ⟨sound_restartStep hv hs h, ownKept_step hv hs hk ho h⟩
  · intro s x ev out s' r h hk
    have hs := sound_restartNetwork hv r x
    cases h with
    | pass h =>
      obtain ⟨-, d, ha, rfl⟩ := h
      rw [after_daemon_self]
      dsimp only
      rw [Function.update_self]
      refine ⟨ownKept_act hs hk ha, ?_⟩
      rintro rcv fresh lsa f size rfl recv ht hsend ho
      obtain ⟨lsa', f', size', recv', hh⟩ := receive_handled ha
      rw [recv] at recv'
      cases recv'
      have hfil := filtered_lsa.mpr (ho rcv fresh lsa f size rfl recv ht hsend)
      rw [← hsend] at hfil
      cases hh with
      | ignored => exact ⟨rfl, rfl⟩
      | accepted type newer link update objects =>
        rw [hfil] at newer
        cases newer
      | credited type current update => exact absurd (ht.symm.trans type) (by decide)

/-! ### An advertisement from before a restart -/

/-- One step of a schedule with restarts, computed. -/
def restartMove (N : Net ι) (ok : List UInt8 → Prop) [DecidablePred ok]
    (s : World ι × (ι → Option LSA)) : Move ι ⊕ ι →
      Option ((ι × Option (Event × List Effect)) × World ι × (ι → Option LSA))
  | .inl m => do
    let ((x, ev, out), w) ← s.1.move N ok m
    return ((x, some (ev, out)),
      w, Function.update s.2 x (floodedAfter (s.1.daemon x) (s.2 x) ev))
  | .inr x => do
    let d ← (restart (N.files x) (s.1.daemon x)).toOption
    return ((x, none), ⟨Function.update s.1.daemon x d, s.1.wire⟩, Function.update s.2 x none)

theorem step_restartMove [DecidablePred ok] {s s' : World ι × (ι → Option LSA)} {m : Move ι ⊕ ι}
    {l : ι × Option (Event × List Effect)} (h : restartMove N ok s m = some (l, s')) :
    (restartNetwork N ok).step s l s' := by
  obtain ⟨w, last⟩ := s
  cases m with
  | inl m =>
    obtain ⟨⟨⟨x, ev, out⟩, w'⟩, hm, h⟩ := Option.bind_eq_some_iff.mp h
    cases h
    exact .pass (step_move hm)
  | inr x =>
    obtain ⟨d, hd, h⟩ := Option.bind_eq_some_iff.mp h
    cases h
    exact .restart (toOption_eq_some.mp hd)

/-- Three nodes, linked to each other, without objects. -/
def cycleNet : Net (Fin 3) := { triangleNet with lines := fun _ => [] }

theorem cycleNet_valid : cycleNet.Valid where
  ids := by decide
  hosts := by decide
  simple := by decide

theorem cycleNet_boots : ∀ x, (boot (cycleNet.files x)).toOption.isSome = true := by
  decide +kernel

/-- Node 1 floods twice; node 2 forwards its second LSA to node 3. Node 1 restarts and floods once, then
node 3 forwards that LSA to it. -/
def restartRun : List (Move (Fin 3) ⊕ Fin 3) :=
  let ticks (x : Fin 3) (n : ℕ) := List.replicate n (.inl (Move.tick x))
  let deliver (x : Fin 3) (k : ℕ) : Move (Fin 3) ⊕ Fin 3 := .inl (.deliver x k)
  ticks 0 6 ++ [deliver 1 0, deliver 2 1, deliver 0 2, deliver 0 3] ++ ticks 0 10 ++ [deliver 1 4] ++
    ticks 1 6 ++ [deliver 2 9, .inr 0] ++ ticks 0 6 ++ ticks 2 6 ++ [deliver 0 15]

/-- **An LSA from before the restart replaces the own advertisement.** -/
theorem exists_own_replaced : cycleNet.Valid ∧ ∃ s,
    (restartNetwork cycleNet fun _ => True).Reachable s ∧ ¬ OwnKept (s.1.daemon 0) (s.2 0) ∧
      ∃ a b, storedLsa (s.1.daemon 0).rt 0 = some a ∧ s.2 0 = some b ∧
        b.sequenceNum.toInt < a.sequenceNum.toInt := by
  have key : (System.follow (restartMove cycleNet fun _ => True) restartRun
      (cycleNet.start cycleNet_boots, fun _ => none)).map (fun p =>
        decide ((storedLsa (p.2.1.daemon 0).rt 0).map LSA.sequenceNum = some 1) &&
          decide ((p.2.2 0).map LSA.sequenceNum = some 0)) = some true := by
    decide +kernel
  obtain ⟨⟨ls, s⟩, h, key⟩ := Option.map_eq_some_iff.mp key
  simp only [Bool.and_eq_true, decide_eq_true_eq, Option.map_eq_some_iff] at key
  obtain ⟨⟨a, ha, hqa⟩, b, hb, hqb⟩ := key
  have r : (restartNetwork cycleNet fun _ => True).Run []
      (cycleNet.start cycleNet_boots, fun _ => none) :=
    .init ⟨init_start cycleNet_boots, rfl⟩
  refine ⟨cycleNet_valid, s, ⟨_, r.follow (fun _ _ _ _ => step_restartMove) h⟩, ?_, a, b, ha, hb, ?_⟩
  · rintro ⟨e, he, hl, -⟩
    rw [storedLsa, he, Option.bind_some, hl, hb, Option.some.injEq] at ha
    rw [← ha, hqb] at hqa
    cases hqa
  · rw [hqa, hqb]
    decide

/-- The condition on a pass, computed. -/
def ownOlder (d : Daemon) : Event → Bool
  | .datagram r _ =>
    match rtRecvfrom d.dl r with
    | .ok (some (lsa, _, _)) => decide (getType lsa.versionTtlType = typeLsa → lsa.senderNodeId = d.myNodeId →
        filtered d.rt (getRoutingEntry d.rt lsa.senderNodeId) typeLsa lsa.sequenceNum = true)
    | _ => true
  | _ => true

theorem ownOlder_eq_true {d : Daemon} {ev : Event} (h : ownOlder d ev = true) : OwnOlder d ev := by
  cases ev with
  | timeout fresh => exact fun _ _ _ _ _ he => by cases he
  | request c uri opened => exact fun _ _ _ _ _ he => by cases he
  | datagram r fresh =>
    intro r' fresh' lsa f size he recv
    cases he
    have hold : OwnOlder d (.datagram r fresh) :=
      (ownOlder_datagram recv).mpr (by simpa only [ownOlder, recv, decide_eq_true_eq] using h)
    exact hold r fresh lsa f size rfl recv

/-- One step of a schedule that meets the condition. -/
def olderMove (N : Net ι) (ok : List UInt8 → Prop) [DecidablePred ok] (s : World ι × (ι → Option LSA))
    (m : Move ι ⊕ ι) : Option ((ι × Option (Event × List Effect)) × World ι × (ι → Option LSA)) := do
  let (l, s') ← restartMove N ok s m
  if (l.2.elim true fun p => ownOlder (s.1.daemon l.1) p.1) = true then some (l, s') else none

theorem step_olderMove [DecidablePred ok] {s s' : World ι × (ι → Option LSA)} {m : Move ι ⊕ ι}
    {l : ι × Option (Event × List Effect)} (h : olderMove N ok s m = some (l, s')) :
    ((restartNetwork N ok).restrict OwnOlderStep).step s l s' := by
  obtain ⟨⟨l', t⟩, hm, h⟩ := Option.bind_eq_some_iff.mp h
  dsimp only at h
  split_ifs at h with hold
  cases h
  refine ⟨fun ev out he => ownOlder_eq_true ?_, step_restartMove hm⟩
  rwa [he, Option.elim_some] at hold

/-- Node 1 floods; node 2 floods and forwards its LSA to node 3. Node 1 restarts and floods again; node 3
floods and forwards the LSA from before the restart to it. -/
def oldCopyRun : List (Move (Fin 3) ⊕ Fin 3) :=
  let ticks (x : Fin 3) (n : ℕ) := List.replicate n (.inl (Move.tick x))
  let deliver (x : Fin 3) (k : ℕ) : Move (Fin 3) ⊕ Fin 3 := .inl (.deliver x k)
  ticks 0 6 ++ deliver 1 0 :: ticks 1 6 ++ deliver 2 5 :: .inr 0 :: ticks 0 6 ++ ticks 2 6

theorem restartMove_deliver [DecidablePred ok] {s s' : World ι × (ι → Option LSA)} {x : ι} {k : ℕ}
    {l : ι × Option (Event × List Effect)} (h : restartMove N ok s (.inl (.deliver x k)) = some (l, s')) :
    ∃ g out, s.1.wire[k]? = some g ∧ l = (x, some (.datagram (g.received N) zeros, out)) := by
  obtain ⟨⟨⟨x', ev, out⟩, w⟩, hm, h⟩ := Option.bind_eq_some_iff.mp h
  cases h
  obtain ⟨g, hg, hm⟩ := Option.bind_eq_some_iff.mp hm
  split_ifs at hm with hok
  obtain ⟨⟨d, out'⟩, -, hm⟩ := Option.bind_eq_some_iff.mp hm
  cases hm
  exact ⟨g, out, hg, rfl⟩

/-- After that run every node has flooded, and the old LSA of node 1 comes back to it: it changes nothing. -/
theorem own_advertisement_kept_cycleNet : ∃ s r lsa size out s',
    ((restartNetwork cycleNet fun _ => True).restrict OwnOlderStep).Reachable s ∧
      (restartNetwork cycleNet fun _ => True).step s (0, some (.datagram r zeros, out)) s' ∧
      rtRecvfrom (s.1.daemon 0).dl r = .ok (some (lsa, 3, size)) ∧ lsa.senderNodeId = 1 ∧
      (∀ x, s.2 x ≠ none) ∧ (∀ x, OwnKept (s.1.daemon x) (s.2 x)) ∧ OwnKept (s'.1.daemon 0) (s'.2 0) ∧
      s'.1.daemon 0 = s.1.daemon 0 ∧ out = [] := by
  have key : (System.follow (olderMove cycleNet fun _ => True) oldCopyRun
      (cycleNet.start cycleNet_boots, fun _ => none)).bind (fun p =>
        (olderMove cycleNet (fun _ => True) p.2 (.inl (.deliver 0 11))).map fun _ =>
          decide (∀ x, (p.2.2 x).isSome = true) && decide ((p.2.1.daemon 0).myNodeId = 1) &&
          decide (p.2.1.wire[11]?.map (fun g => (rtRecvfrom (p.2.1.daemon 0).dl (g.received cycleNet)).map
            (Option.map fun q => (q.1.senderNodeId, getType q.1.versionTtlType, q.2.1))) =
              some (.ok (some (1, typeLsa, 3))))) = some true := by
    decide +kernel
  obtain ⟨⟨ls, s⟩, hs, key⟩ := Option.bind_eq_some_iff.mp key
  obtain ⟨⟨l, s'⟩, hlast, key⟩ := Option.map_eq_some_iff.mp key
  simp only [Bool.and_eq_true, decide_eq_true_eq] at key
  obtain ⟨⟨hsome, hid⟩, hrecv⟩ := key
  have r : ((restartNetwork cycleNet fun _ => True).restrict OwnOlderStep).Reachable s :=
    ⟨_, (System.Run.init (S := (restartNetwork cycleNet fun _ => True).restrict OwnOlderStep)
      ⟨init_start cycleNet_boots, rfl⟩).follow (fun _ _ _ _ => step_olderMove) hs⟩
  obtain ⟨hold, hstep⟩ := step_olderMove hlast
  obtain ⟨⟨l', t⟩, hm, he⟩ := Option.bind_eq_some_iff.mp hlast
  dsimp only at he
  split_ifs at he
  cases he
  obtain ⟨g, out, hg, rfl⟩ := restartMove_deliver hm
  rw [hg, Option.map_some, Option.some.injEq] at hrecv
  obtain ⟨o, ho, hmap⟩ := exists_of_map_eq_ok hrecv
  obtain ⟨⟨lsa, f, size⟩, rfl, hq⟩ := Option.map_eq_some_iff.mp hmap
  simp only [Prod.mk.injEq] at hq
  obtain ⟨hsend, htype, rfl⟩ := hq
  obtain ⟨hrun, hpass⟩ := own_advertisement_kept cycleNet (fun _ => True) cycleNet_valid.toDistinct
  have hkept := hrun s r
  obtain ⟨hiff, hsame⟩ := hpass s 0 _ out s' r.of_restrict hstep (hkept 0)
  have hown := hold _ out rfl
  obtain ⟨hd, hout⟩ := hsame _ zeros lsa 3 size rfl ho htype (hsend.trans hid.symm) hown
  exact ⟨s, _, lsa, size, out, s', r, hstep, ho, hsend, fun x => Option.isSome_iff_ne_none.mp (hsome x),
    hkept, hiff.mpr hown, hd, hout⟩

end RoutingDaemon
