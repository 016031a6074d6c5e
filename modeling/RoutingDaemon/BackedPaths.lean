import RoutingDaemon.Agreement

/-!
# Paths and the LSAs behind them

* `Backed`: the routing table backs a path of the object table: the node is held to be up, and the LSA that is
  stored for it lists the object. `Backed.modify`: what changes of other fields keep.
* `AllBacked`: all paths to other nodes are backed; `allBacked_tick`, `allBacked_handled`, `allBacked_added`.
* `paths_backed`: in a network they always are.
-/

namespace RoutingDaemon

/-- The entry of the path's node is up and not dearer than the path, and its stored LSA lists the object. -/
def Backed (rt : RoutingTable) (s : CString) (p : Path) : Prop :=
  ∃ e a names, entryOf rt p.nodeId = some e ∧ e.nodeStatus ≠ statusDown ∧ e.cost ≤ p.cost ∧
    e.lsa = some a ∧ objectNames a = .ok names ∧ s ∈ names

/-- The routing table backs every path to another node. -/
def AllBacked (d : Daemon) : Prop :=
  ∀ s p, view superFastHash d.gol s = some (some p) → p.nodeId ≠ d.myNodeId → Backed d.rt s p

section Tables

variable {rt rt' : RoutingTable} {s : CString} {p : Path}

theorem Backed.congr (h : Backed rt s p) (he : entryOf rt' p.nodeId = entryOf rt p.nodeId) :
    Backed rt' s p := by
  unfold Backed
  rw [he]
  exact h

theorem Backed.modify {k : ℕ} {f : RoutingEntry → RoutingEntry} (h : Backed rt s p)
    (hid : ∀ e, (f e).id = e.id)
    (hf : ∀ e, rt.table[k]? = some e → e.id = p.nodeId → e.nodeStatus ≠ statusDown →
      (f e).nodeStatus ≠ statusDown ∧ (f e).cost = e.cost ∧ (f e).lsa = e.lsa) :
    Backed (rt.modify k f) s p := by
  obtain ⟨e, a, names, he, hup, hcost, ha, hn, hs⟩ := h
  unfold Backed
  rw [entryOf_modify hid]
  split_ifs with hk
  · obtain ⟨k', hk', hget⟩ := entryOf_eq_some.mp he
    obtain rfl : k = k' := Option.some.inj (hk.symm.trans hk')
    obtain ⟨hup', hcost', ha'⟩ := hf e hget (entryOf_id he) hup
    refine ⟨f e, a, names, ?_, hup', ?_, ha'.trans ha, hn, hs⟩
    · rw [he, Option.map_some]
    · rwa [hcost']
  · exact ⟨e, a, names, he, hup, hcost, ha, hn, hs⟩

theorem Backed.modifyChecker {k i : ℕ} {g : AckChecker → AckChecker} (h : Backed rt s p) :
    Backed (modifyChecker rt k i g) s p :=
  h.modify (fun _ => rfl) fun _ _ _ hup => ⟨hup, rfl, rfl⟩

theorem Backed.discard {m : ℕ} {e : RoutingEntry} (h : Backed rt s p) (he : rt.table[m]? = some e)
    (hne : e.id ≠ p.nodeId) : Backed (rt.modify m RoutingEntry.discard) s p := by
  refine h.modify (fun _ => rfl) fun e' he' hid => ?_
  rw [he, Option.some.injEq] at he'
  exact absurd (he' ▸ hid) hne

theorem updatedEntry_up {fresh : Fresh} {dl : DirectLinks} {lsa : LSA} {size : ℕ} {nexthop : Int32}
    {old : Option RoutingEntry} : (updatedEntry fresh dl lsa size nexthop old).nodeStatus ≠ statusDown := by
  have up : retransmitTime ≠ statusDown := by decide
  cases old with
  | none => exact up
  | some e => exact up

theorem updatedEntry_cost_le {fresh : Fresh} {dl : DirectLinks} {lsa : LSA} {size : ℕ} {nexthop : Int32}
    {old : Option RoutingEntry} : (updatedEntry fresh dl lsa size nexthop old).cost ≤ lsaCost lsa ∧
      ∀ e, old = some e → (updatedEntry fresh dl lsa size nexthop old).cost ≤ e.cost := by
  rw [updatedEntry_cost]
  cases old with
  | none => exact ⟨le_rfl, nofun⟩
  | some e =>
    refine ⟨min_le_left _ _, ?_⟩
    rintro e' ⟨⟩
    exact min_le_right _ _

end Tables

theorem ObjMap.announceAll_eq_some {m : ObjMap} {names : List CString} {q p : Path} {s : CString}
    (h : m.announceAll names q s = some (some p)) : m s = some (some p) ∨ s ∈ names ∧ p = q := by
  rw [announceAll_apply] at h
  split_ifs at h with hs
  · rw [Option.some.injEq, Option.some.injEq] at h
    rcases announcePath_cases (m s) q with hnew | hold
    · exact .inr ⟨hs, h.symm.trans hnew⟩
    · exact .inl (by rw [hold, h])
  · exact .inl h

/-! ### Steps -/

section Steps

variable {d d' : Daemon} {out : List Effect}

/-- **A timeout.** A node that is declared down loses its entry's LSA and all paths to it. -/
theorem allBacked_tick (hc : Consistent superFastHash d.gol) (hb : AllBacked d) (h : Tick d out d') :
    AllBacked d' := by
  intro s p hp hne
  rw [(micro_static (.tick h)).2] at hne
  obtain ⟨hp, hup⟩ := ((frame_tick hc h).path s p).mp hp
  have hb := hb s p hp hne
  cases h with
  | own packet entry update count =>
    refine hb.congr ?_
    rw [entryOf_updateEntry (Stores.own packet).type (updateEntry_own packet entry update),
      if_neg (by rw [(createPacket_lsa packet).2.1]; exact hne)]
  | send ok => exact hb.modifyChecker
  | resend ok checker pending budget => exact hb.modifyChecker
  | giveUp link checker pending budget =>
    refine (hb.discard link.entry fun hid => hup ?_).modifyChecker
    rw [hid]
    exact .inl (List.mem_singleton_self _)
  | age pos entry up more =>
    refine hb.modify (fun _ => rfl) fun e he _ _ => ?_
    rw [entry, Option.some.injEq] at he
    subst he
    exact ⟨more, rfl, rfl⟩
  | expire pos entry last =>
    refine hb.discard entry fun hid => hup ?_
    rw [hid]
    exact .inr (List.mem_singleton_self _)
  | clock => exact hb

/-- **A packet**, if it lists what older LSAs of its node list. -/
theorem allBacked_handled {fresh : Fresh} {lsa : LSA} {f : Int32} {size : ℕ}
    (hc : Consistent superFastHash d.gol) (hb : AllBacked d)
    (grows : ∀ a names names', storedFor d.rt lsa.senderNodeId = some a →
      a.sequenceNum.toInt < lsa.sequenceNum.toInt → objectNames a = .ok names →
        objectNames (acceptedLsa lsa) = .ok names' → names ⊆ names')
    (h : Handled d fresh lsa f size out d') : AllBacked d' := by
  cases h with
  | ignored => exact hb
  | @accepted src rt gol type newer link update objects =>
    intro s p hp hne
    obtain ⟨-, names, hn, hview⟩ := storeNodeObjects_view hc objects
    dsimp only at hp hne ⊢
    rw [hview] at hp
    have hp := ObjMap.announceAll_eq_some hp
    have he : entryOf rt p.nodeId = if p.nodeId = (acceptedLsa lsa).senderNodeId then
        some (updatedEntry fresh d.dl (acceptedLsa lsa) size f (entryOf d.rt p.nodeId))
        else entryOf d.rt p.nodeId :=
      entryOf_updateEntry (by rw [acceptedLsa_type]; exact type) update
    by_cases hid : p.nodeId = (acceptedLsa lsa).senderNodeId
    · rw [if_pos hid] at he
      refine ⟨_, acceptedLsa lsa, names, he, updatedEntry_up, ?_, rfl, hn, ?_⟩
      · rcases hp with hp | ⟨-, rfl⟩
        · obtain ⟨e, -, -, hold, -, hcost, -⟩ := hb s p hp hne
          exact (updatedEntry_cost_le.2 e hold).trans hcost
        · exact updatedEntry_cost_le.1
      · rcases hp with hp | ⟨hs, -⟩
        · obtain ⟨e, a, old, hold, -, -, ha, hn₀, hs⟩ := hb s p hp hne
          obtain ⟨k, hk, hget⟩ := entryOf_eq_some.mp hold
          rw [hid] at hk
          have hstored : storedFor d.rt lsa.senderNodeId = some a :=
            (storedFor_of_entry hk hget).trans ha
          exact grows a old names hstored (not_filtered_lsa.mp newer a hstored) hn₀ hn hs
        · exact hs
    · rw [if_neg hid] at he
      refine (hb s p ?_ hne).congr he
      exact hp.resolve_right fun ⟨_, hpq⟩ => hid (by rw [hpq])
  | credited type current update =>
    obtain ⟨_, _, _, _, _, _, _, _, _, _, _, rfl⟩ := creditAck_eq_ok update
    exact fun s p hp hne => (hb s p hp hne).modify (fun _ => rfl) fun _ _ _ hup => ⟨hup, rfl, rfl⟩

/-- **An ADDFILE** announces the own node. -/
theorem allBacked_added {o : ObjectEntry} (hc : Consistent superFastHash d.gol) (hb : AllBacked d)
    (h : Added d o d') : AllBacked d' := by
  have hrt : d'.rt = d.rt := by rw [h.rest]
  have hid : d'.myNodeId = d.myNodeId := by rw [h.rest]
  intro s p hp hne
  rw [hid] at hne
  rw [(hashAdd_spec hc h.gol).2] at hp
  rw [hrt]
  refine hb s p ?_ hne
  have hall : (view superFastHash d.gol).announceAll [o.name.1] ⟨d.myNodeId, 0⟩ s = some (some p) := hp
  exact (ObjMap.announceAll_eq_some hall).resolve_right fun ⟨_, hpq⟩ => hne (by rw [hpq])

theorem allBacked_boot {f : Files} (h : boot f = .ok d) : AllBacked d := by
  intro s p hp hne
  exact absurd (by rw [(paths_boot h).2 s p hp]) hne

end Steps

/-! ### Networks -/

section Networks

variable {ι : Type} [DecidableEq ι] {N : Net ι} {ok : List UInt8 → Prop} {w w' : World ι}

/-- What is kept of a network by every step. -/
structure Consonant (N : Net ι) (w : World ι) : Prop where
  lawful : Lawful N w
  originated : Originated N w
  agree : Related Agree (Extant w)
  backed : ∀ y, AllBacked (w.daemon y)

omit [DecidableEq ι] in
theorem Consonant.grows (hv : N.Distinct) (hi : Consonant N w) {x : ι} {a lsa : LSA}
    {names names' : List CString} (hlsa : Extant w lsa)
    (stored : storedFor (w.daemon x).rt lsa.senderNodeId = some a)
    (newer : a.sequenceNum.toInt < lsa.sequenceNum.toInt) (hn : objectNames a = .ok names)
    (hn' : objectNames (acceptedLsa lsa) = .ok names') : names ⊆ names' := by
  obtain ⟨k, hk, hl⟩ := Option.bind_eq_some_iff.mp stored
  obtain ⟨e, he, ha⟩ := Option.bind_eq_some_iff.mp hl
  have hmem : Extant w a := .inr ⟨x, e, List.mem_of_getElem? he, ha⟩
  have sender : a.senderNodeId = lsa.senderNodeId := by
    obtain ⟨e', he', hid⟩ := getRoutingEntry_eq_some hk
    rw [he, Option.some.injEq] at he'
    rw [((hi.lawful.sound x).entry k e he |>.sender a ha).1, he', hid]
  have made : Made w (acceptedLsa lsa) := by
    obtain ⟨y, hy⟩ := hi.originated.extant hlsa
    exact ⟨y, hy.header _⟩
  have fewer := (hi.agree a lsa hmem hlsa).later sender newer.le
  exact (names_prefix_of hv hi.lawful (hi.originated.extant hmem) made sender fewer hn hn').subset

/-- **Every step of a network keeps the paths backed.** -/
theorem consonant_step {l : ι × Event × List Effect} (hv : N.Distinct) (hi : Consonant N w)
    (h : (network N ok).step w l w') : Consonant N w' := by
  have hl' := (network_trail h).preserves (I := Lawful N) (fun _ _ _ hl hm => lawful_micro hl hm) hi.lawful
  refine ⟨hl', originated_step hi.lawful hi.originated h,
    agree_step hv hi.lawful hi.originated hi.agree h, ?_⟩
  obtain ⟨x, ev, out⟩ := l
  obtain ⟨hp, d, ha, rfl⟩ := h
  have hc := (hi.lawful.sound x).consistent
  refine forall_after (P := fun _ d => AllBacked d) ?_ hi.backed
  cases ev with
  | timeout fresh =>
    have key := (timeout_trail ha).preserves
      (I := fun d => Consistent superFastHash d.gol ∧ AllBacked d) ?_ ⟨hc, hi.backed x⟩
    · exact key.2
    · exact fun _ _ _ hd ht => ⟨consistent_tick hd.1 ht, allBacked_tick hd.1 hd.2 ht⟩
  | datagram r fresh =>
    obtain ⟨g, hg, -, -, rfl⟩ := hp
    obtain ⟨lsa, f, size, recv, hh⟩ := receive_handled ha
    refine allBacked_handled hc (hi.backed x) (fun a names names' stored newer hn hn' => ?_) hh
    exact hi.grows hv (.inl ⟨g, hg, received_carries recv⟩) stored newer hn hn'
  | request c uri opened =>
    obtain ⟨-, rfl | ⟨o, hadd⟩⟩ := request_added ha
    · exact hi.backed x
    · exact allBacked_added hc (hi.backed x) hadd

theorem consonant_reachable (hv : N.Distinct) (r : (network N ok).Reachable w) : Consonant N w := by
  refine r.invariant (I := Consonant N) (fun w h => ?_) fun w l w' hi h => consonant_step hv hi h
  obtain ⟨hl, hi, hr⟩ := agree_reachable hv (.init h)
  exact ⟨hl, hi, hr, fun y => allBacked_boot (h.2 y)⟩

/-- **No path outlives its advertisement.** Whatever the network does, a path to an object leads to the node
itself, which has the object, or to one whose last LSA lists the object; the routing table stores this LSA,
holds the node to be up and has a route that costs no more. -/
theorem paths_backed (hv : N.Distinct) (r : (network N ok).Reachable w) {y : ι} {s : CString} {p : Path}
    (h : getPaths superFastHash (w.daemon y).gol s = some p) :
    (p.nodeId = (N.self y).id ∧ s ∈ localNames (w.daemon y)) ∨ Backed (w.daemon y).rt s p := by
  have hi := consonant_reachable hv r
  rw [getPaths_eq (hi.lawful.sound y).consistent] at h
  have hview : view superFastHash (w.daemon y).gol s = some (some p) := Option.join_eq_some_iff.mp h
  by_cases hid : p.nodeId = (w.daemon y).myNodeId
  · rw [hi.lawful.myNodeId y] at hid
    obtain ⟨x, hx, hs⟩ := (hi.originated.objects y s _ hview).2 p rfl
    obtain rfl : x = y := hv.ids (hx.trans hid)
    exact .inl ⟨hid, hs⟩
  · exact .inr (hi.backed y s p hview hid)

/-- Node 2 has heard of an object of node 1. -/
theorem paths_backed_heardRun : ∃ w p, (network triangleNet fun _ => True).Reachable w ∧
    p.nodeId = 1 ∧ Backed (w.daemon 1).rt (lit "o") p := by
  have key : (System.follow (World.move triangleNet fun _ => True) heardRun
      (triangleNet.start triangleNet_boots)).map (fun p =>
        (getPaths superFastHash (p.2.daemon 1).gol (lit "o")).map Path.nodeId) = some (some 1) := by
    decide +kernel
  obtain ⟨⟨ls, w⟩, h, key⟩ := Option.map_eq_some_iff.mp key
  obtain ⟨p, hp, hid⟩ := Option.map_eq_some_iff.mp key
  have r := (System.Run.init (init_start triangleNet_boots)).follow (fun _ _ _ _ => step_move) h
  refine ⟨w, p, ⟨_, r⟩, hid, (paths_backed triangleNet_valid.toDistinct ⟨_, r⟩ hp).resolve_left ?_⟩
  rintro ⟨hown, -⟩
  rw [hid] at hown
  exact absurd hown (by decide)

end Networks

end RoutingDaemon
