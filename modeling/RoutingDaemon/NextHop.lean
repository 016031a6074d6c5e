import RoutingDaemon.AckWait
import RoutingDaemon.DeclaredDown

/-!
# Next hops that are down

* `Via`: an object of another node and the neighbour through which it is reached; `rdgetTarget_via`:
  a remote reply names that neighbour. `NextHopUp`: no remote reply names a neighbour that is down.
* `timeout_frame`: what a timeout does to paths, next hops and statuses.
* `RoutesStayUp`: the condition on the state before a pass and its event; `nextHopUp_timeout`,
  `nextHopUp_accepted`, `nextHopUp_act`: what it keeps up, and what breaks without it.
* `next_hop_up`: all runs; `exists_stale_route`: a run that ends with a reply through a dead neighbour.
-/

namespace RoutingDaemon

/-! ### Remote replies -/

/-- Object `s` is provided by the other node `n`, which is reached through `g`. -/
structure Via (d : Daemon) (s : CString) (n g : Int32) : Prop where
  path : ∃ c, view superFastHash d.gol s = some (some ⟨n, c⟩)
  remote : n ≠ d.myNodeId
  hop : nexthopOf d.rt n = some g

theorem nexthopOf_eq_some {rt : RoutingTable} {id g : Int32} :
    nexthopOf rt id = some g ↔ ∃ k e, getRoutingEntry rt id = some k ∧ rt.table[k]? = some e ∧
      e.nexthop = g := by
  rw [nexthopOf, Option.map_eq_some_iff]
  simp only [entryOf_eq_some]
  constructor
  · rintro ⟨e, ⟨k, hk, he⟩, hg⟩
    exact ⟨k, e, hk, he, hg⟩
  · rintro ⟨k, e, hk, he, hg⟩
    exact ⟨e, ⟨k, hk, he⟩, hg⟩

/-- **A remote reply names the next hop of the provider.** -/
theorem rdgetTarget_via {d : Daemon} (hc : Consistent superFastHash d.gol) {s : CString}
    {l : LinkEntry} : rdgetTarget d s = .ok (.via l) ↔
      ∃ n g, Via d s n g ∧ lookupLinkEntryNodeId d.dl g = some l := by
  unfold rdgetTarget
  rw [getPaths_eq hc]
  constructor
  · intro h
    cases hp : (view superFastHash d.gol s).join with
    | none =>
      rw [hp] at h
      cases h
    | some p =>
      rw [hp] at h
      dsimp only at h
      split_ifs at h with hid
      · cases h
      · obtain ⟨k, hk, h⟩ := bind_eq_ok.mp h
        obtain ⟨e, he, h⟩ := bind_eq_ok.mp h
        obtain ⟨l', hl, h⟩ := bind_eq_ok.mp h
        cases h
        rw [deref_eq_ok] at hk he hl
        exact ⟨p.nodeId, e.nexthop, ⟨⟨p.cost, Option.join_eq_some_iff.mp hp⟩, hid,
          nexthopOf_eq_some.mpr ⟨k, e, hk, he, rfl⟩⟩, hl⟩
  · rintro ⟨n, g, ⟨⟨c, hp⟩, hid, hg⟩, hl⟩
    obtain ⟨k, e, hk, he, rfl⟩ := nexthopOf_eq_some.mp hg
    rw [hp, Option.join_some]
    dsimp only
    rw [if_neg hid, hk, deref_some, ok_bind, he, deref_some, ok_bind, hl]
    rfl

theorem lookupLinkEntryNodeId_id {dl : DirectLinks} {g : Int32} {l : LinkEntry}
    (h : lookupLinkEntryNodeId dl g = some l) : l.id = g := by
  simpa using List.find?_some h

/-- No remote reply names a neighbour that is down. -/
def NextHopUp (d : Daemon) : Prop :=
  ∀ s l, rdgetTarget d s = .ok (.via l) → statusOf d.rt l.id ≠ some statusDown

theorem nextHopUp_iff {d : Daemon} (hc : Consistent superFastHash d.gol) :
    NextHopUp d ↔ ∀ s n g, Via d s n g → (∃ l ∈ d.dl.links, l.id = g) →
      statusOf d.rt g ≠ some statusDown := by
  constructor
  · intro h s n g hv hl
    obtain ⟨l, hl⟩ := exists_lookupLinkEntryNodeId hl
    have := h s l ((rdgetTarget_via hc).mpr ⟨n, g, hv, hl⟩)
    rwa [lookupLinkEntryNodeId_id hl] at this
  · intro h s l ht
    obtain ⟨n, g, hv, hl⟩ := (rdgetTarget_via hc).mp ht
    have hid := lookupLinkEntryNodeId_id hl
    rw [hid]
    exact h s n g hv ⟨l, List.mem_of_find?_eq_some hl, hid⟩

/-! ### Timeouts -/

/-- What a timeout does to paths, next hops and statuses. -/
structure TimeoutFrame (d : Daemon) (out : List Effect) (d' : Daemon) : Prop where
  path : ∀ s p, view superFastHash d'.gol s = some (some p) ↔
    view superFastHash d.gol s = some (some p) ∧ ¬ Declared out p.nodeId
  hop : ∀ id, id ≠ d.myNodeId → nexthopOf d'.rt id = nexthopOf d.rt id
  down : ∀ id, statusOf d'.rt id = some statusDown →
    statusOf d.rt id = some statusDown ∨ Declared out id

theorem view_hashRemoveNode {gol : LisoHash} (hc : Consistent superFastHash gol) {n : Int32}
    {s : CString} {p : Path} : view superFastHash (hashRemoveNode superFastHash gol n) s =
      some (some p) ↔ view superFastHash gol s = some (some p) ∧ p.nodeId ≠ n := by
  rw [(hashRemoveNode_spec hc n).2, ObjMap.withdraw, Option.map_eq_some_iff]
  constructor
  · rintro ⟨o, ho, hw⟩
    unfold withdrawPath at hw
    split_ifs at hw with hn
    subst hw
    exact ⟨ho, fun he => hn (by rw [Option.map_some, he])⟩
  · rintro ⟨ho, hn⟩
    exact ⟨some p, ho, by rw [withdrawPath, Option.map_some, if_neg (by simpa using hn)]⟩

theorem TimeoutFrame.silent {d : Daemon} {rt : RoutingTable} {seq : Int32} {n : ℤ}
    (hop : ∀ id, id ≠ d.myNodeId → nexthopOf rt id = nexthopOf d.rt id)
    (down : ∀ id, statusOf rt id = some statusDown → statusOf d.rt id = some statusDown) :
    TimeoutFrame d [] { d with rt := rt, sequenceNumber := seq, iterations := n } where
  path s p := by simp [Declared]
  hop := hop
  down id h := .inl (down id h)

theorem frame_discard {d : Daemon} {m : ℕ} {e : RoutingEntry} {x : Effect} {rt : RoutingTable}
    (hc : Consistent superFastHash d.gol) (hx : x = .giveUp e.id ∨ x = .expire e.id)
    (entry : d.rt.table[m]? = some e) (hop : ∀ id, nexthopOf rt id = nexthopOf d.rt id)
    (hst : ∀ id, statusOf rt id = statusOf (d.rt.modify m RoutingEntry.discard) id) :
    TimeoutFrame d [x] { d with rt := rt, gol := hashRemoveNode superFastHash d.gol e.id } where
  path s p := by
    rw [view_hashRemoveNode hc]
    rcases hx with rfl | rfl <;> simp [Declared]
  hop id _ := hop id
  down id hd := by
    rw [hst, statusOf_discard] at hd
    split_ifs at hd with hm
    · rw [entryOf_id (entryOf_eq_some.mpr ⟨m, hm, entry⟩)] at hx
      rcases hx with rfl | rfl
      · exact .inr (.inl (List.mem_singleton_self _))
      · exact .inr (.inr (List.mem_singleton_self _))
    · exact .inl hd

theorem frame_tick {d d' : Daemon} {out : List Effect} (hc : Consistent superFastHash d.gol)
    (h : Tick d out d') : TimeoutFrame d out d' := by
  have keep : ∀ {k i : ℕ} {g : AckChecker → AckChecker} {x : Effect},
      (∀ id, ¬ Declared [x] id) →
      TimeoutFrame d [x] { d with rt := modifyChecker d.rt k i g } := fun {k i g x} hx =>
    ⟨fun s p => by simp [hx], fun id _ => nexthopOf_keep (fun _ => rfl) fun _ => rfl,
      fun id h => .inl (by rwa [statusOf_modifyChecker] at h)⟩
  cases h with
  | @own fresh lsa size k rt seq packet entry update count =>
    have he : ∀ id, entryOf rt id = if id = lsa.senderNodeId then
        some (updatedEntry fresh d.dl lsa size d.myNodeId (entryOf d.rt id)) else entryOf d.rt id :=
      fun _ => entryOf_updateEntry (Stores.own packet).type (updateEntry_own packet entry update)
    have hid : lsa.senderNodeId = d.myNodeId := (createPacket_lsa packet).2.1
    refine .silent (n := d.iterations) (fun id hne => ?_) fun id hd => ?_
    · rw [nexthopOf, he, if_neg (hid ▸ hne), nexthopOf]
    · rw [statusOf, he] at hd
      split_ifs at hd with hown
      · cases h0 : entryOf d.rt id <;> simp [h0, updatedEntry, storeLsa, setRoute, newEntry,
          retransmitTime, statusDown] at hd
      · exact hd
  | send ok => exact keep fun id => by simp [Declared, rtSendto]
  | resend ok checker pending budget => exact keep fun id => by simp [Declared, rtSendto]
  | @giveUp k i m l e c link checker pending budget =>
    refine frame_discard hc (.inl rfl) link.entry (fun id => ?_) fun id => statusOf_modifyChecker
    rw [modifyChecker, nexthopOf_keep (by exact fun _ => rfl) (by exact fun _ => rfl),
      nexthopOf_keep (by exact fun _ => rfl) (by exact fun _ => rfl)]
  | @age i e pos entry up more =>
    have hn : ∀ id, id ≠ d.myNodeId → nexthopOf (d.rt.modify i fun e' =>
        { e' with nodeStatus := e.nodeStatus - 1 }) id = nexthopOf d.rt id :=
      fun _ _ => nexthopOf_keep (fun _ => rfl) fun _ => rfl
    refine TimeoutFrame.silent hn fun id hd => ?_
    rw [statusOf_modify (by exact fun _ => rfl)] at hd
    split_ifs at hd with hi
    · obtain ⟨_, -, hs⟩ := Option.map_eq_some_iff.mp hd
      exact absurd hs more
    · exact hd
  | @expire i e pos entry last =>
    exact frame_discard hc (.inr rfl) entry (fun id => nexthopOf_keep (fun _ => rfl) fun _ => rfl)
      fun _ => rfl
  | clock =>
    have hd : ∀ id, statusOf d.rt id = some statusDown → statusOf d.rt id = some statusDown :=
      fun _ h => h
    exact TimeoutFrame.silent (fun _ _ => rfl) hd

/-- **A timeout** takes away the paths of the nodes it declares down, and puts no other node down. -/
theorem timeout_frame {d d' : Daemon} {out : List Effect} (hc : Consistent superFastHash d.gol)
    (h : Trail Tick d out d') :
    TimeoutFrame d out d' ∧ Consistent superFastHash d'.gol ∧ d'.myNodeId = d.myNodeId := by
  induction h with
  | refl =>
    exact ⟨⟨fun s p => by simp [Declared], fun _ _ => rfl, fun _ h => .inl h⟩, hc, rfl⟩
  | tail _ h1 ih =>
    obtain ⟨hf, hc', hid⟩ := ih
    have hf' := frame_tick hc' h1
    refine ⟨⟨fun s p => ?_, fun id hne => ?_, fun id hd => ?_⟩, consistent_tick hc' h1,
      (micro_static (.tick h1)).2.trans hid⟩
    · rw [hf'.path, hf.path, declared_append, and_assoc, ← not_or]
    · rw [hf'.hop id (hid ▸ hne), hf.hop id hne]
    · rw [declared_append]
      rcases hf'.down id hd with hd | hd
      · exact (hf.down id hd).imp_right .inl
      · exact .inr (.inr hd)

/-- In a sound daemon, a node that a timeout declares down is down after it. -/
theorem declared_down {d d' : Daemon} {out : List Effect} (hs : Sound d) (h : Trail Tick d out d') :
    Sound d' ∧ ∀ id, Declared out id → id ≠ d'.myNodeId ∧ statusOf d'.rt id = some statusDown := by
  induction h with
  | refl => exact ⟨hs, fun id h => by simp [Declared] at h⟩
  | @tail u t xs ys _ h1 ih =>
    obtain ⟨hu, ih⟩ := ih
    refine ⟨sound_micro hu (.tick h1), fun id hd => ?_⟩
    have hid := (micro_static (.tick h1)).2
    rcases declared_append.mp hd with hd | hd
    · -- a node that is down stays down
      obtain ⟨hne, hdown⟩ := ih id hd
      refine ⟨hid ▸ hne, ?_⟩
      cases h1 with
      | own packet entry update count =>
        rw [statusOf, entryOf_updateEntry (Stores.own packet).type
          (updateEntry_own packet entry update), (createPacket_lsa packet).2.1, if_neg hne]
        exact hdown
      | send ok => rw [statusOf_modifyChecker]; exact hdown
      | resend ok => rw [statusOf_modifyChecker]; exact hdown
      | giveUp =>
        rw [statusOf_modifyChecker, statusOf_discard]
        split_ifs
        · rfl
        · exact hdown
      | @age i e pos entry up more =>
        rw [statusOf_modify (by exact fun _ => rfl), if_neg]
        · exact hdown
        · intro hi
          rw [statusOf, entryOf_eq_some.mpr ⟨i, hi, entry⟩, Option.map_some, Option.some.injEq]
            at hdown
          exact up hdown
      | expire =>
        rw [statusOf_discard]
        split_ifs
        · rfl
        · exact hdown
      | clock => exact hdown
    · refine ⟨fun he => forget_ne_own hu h1 (by rw [← hid, ← he]; exact hd), ?_⟩
      cases h1 with
      | @giveUp k i m l e c link =>
        obtain rfl : id = e.id := by simpa [Declared] using hd
        rw [statusOf_modifyChecker, statusOf_discard, if_pos]
        rw [link.entry_id]
        exact link.lookup
      | @expire i e pos entry last =>
        obtain rfl : id = e.id := by simpa [Declared] using hd
        rw [statusOf_discard, if_pos (getRoutingEntry_of_nodup hu.nodup entry)]
      | _ => simp [Declared, rtSendto] at hd

/-! ### One pass -/

/-- The next hop that `update_entry` leaves for the originator of an LSA from neighbour `f`. -/
def nexthopAfter (rt : RoutingTable) (lsa : LSA) (f : Int32) : Int32 :=
  match entryOf rt lsa.senderNodeId with
  | none => f
  | some e => if lsaCost lsa < e.cost then f else e.nexthop

theorem nexthop_updatedEntry {fresh : Fresh} {rt : RoutingTable} {dl : DirectLinks} {lsa : LSA}
    {size : ℕ} {f : Int32} :
    (updatedEntry fresh dl lsa size f (entryOf rt lsa.senderNodeId)).nexthop =
      nexthopAfter rt lsa f := by
  unfold nexthopAfter updatedEntry
  cases entryOf rt lsa.senderNodeId <;> rfl

/-- The originator of the LSA provides some object when it was processed: an old one, or one that the
LSA announces and that is not known at this cost or less. -/
def Provides (d : Daemon) (lsa : LSA) : Prop :=
  ∃ s, (∃ c, view superFastHash d.gol s = some (some ⟨lsa.senderNodeId, c⟩)) ∨
    ∃ names, objectNames lsa = .ok names ∧ s ∈ names ∧
      ∀ p, view superFastHash d.gol s = some (some p) → lsaCost lsa < p.cost

/-- Neighbour `g` is node `id` itself or is not down. -/
def HopUp (rt : RoutingTable) (id g : Int32) : Prop := g = id ∨ statusOf rt g ≠ some statusDown

/-- What keeps the next hops up in one pass. At a timeout, a neighbour that is to be declared down is not
the next hop of another provider that is not. When an LSA of another node that provides something is
accepted, its sender `f` may become the next hop only if it is the originator or not down, and the next
hop of a route that costs no more may stay only if it is. -/
structure RoutesStayUp (d : Daemon) (l : Event × List Effect) : Prop where
  timeout : ∀ fresh, l.1 = .timeout fresh → ∀ s n g, Via d s n g → ¬ DueDown d n → ¬ DueDown d g
  accepted : ∀ r fresh lsa f size, l.1 = .datagram r fresh →
    rtRecvfrom d.dl r = .ok (some (lsa, f, size)) → getType lsa.versionTtlType = typeLsa →
    filtered d.rt (getRoutingEntry d.rt lsa.senderNodeId) typeLsa lsa.sequenceNum = false →
    lsa.senderNodeId ≠ d.myNodeId → Provides d (acceptedLsa lsa) →
      ((∀ e, entryOf d.rt lsa.senderNodeId = some e → lsaCost (acceptedLsa lsa) < e.cost) →
        HopUp d.rt lsa.senderNodeId f) ∧
      ∀ e, entryOf d.rt lsa.senderNodeId = some e → e.cost ≤ lsaCost (acceptedLsa lsa) →
        HopUp d.rt lsa.senderNodeId e.nexthop

theorem hopUp_nexthopAfter {rt : RoutingTable} {lsa : LSA} {f : Int32} :
    HopUp rt lsa.senderNodeId (nexthopAfter rt lsa f) ↔
      ((∀ e, entryOf rt lsa.senderNodeId = some e → lsaCost lsa < e.cost) →
        HopUp rt lsa.senderNodeId f) ∧
      ∀ e, entryOf rt lsa.senderNodeId = some e → e.cost ≤ lsaCost lsa →
        HopUp rt lsa.senderNodeId e.nexthop := by
  unfold nexthopAfter
  cases entryOf rt lsa.senderNodeId with
  | none => simp
  | some e =>
    by_cases hlt : lsaCost lsa < e.cost
    · simp [hlt, not_le.mpr hlt]
    · simp [hlt, not_lt.mp hlt]

theorem nextHopUp_timeout {d d' : Daemon} {out : List Effect} (hc : Consistent superFastHash d.gol)
    (hn : NextHopUp d) (h : Trail Tick d out d') (hdl : d'.dl = d.dl)
    (hr : ∀ s n g, Via d s n g → ¬ Declared out n → ¬ Declared out g) : NextHopUp d' := by
  obtain ⟨hf, hc', hid⟩ := timeout_frame hc h
  rw [nextHopUp_iff hc] at hn
  rw [nextHopUp_iff hc', hdl]
  intro s n g hv hl hd
  obtain ⟨c, hp⟩ := hv.path
  obtain ⟨hp, hnd⟩ := (hf.path s _).mp hp
  have hne : n ≠ d.myNodeId := hid ▸ hv.remote
  have hv' : Via d s n g := ⟨⟨c, hp⟩, hne, (hf.hop n hne).symm.trans hv.hop⟩
  rcases hf.down g hd with hd | hd
  · exact hn s n g hv' hl hd
  · exact hr s n g hv' hnd hd

theorem Sound.hop_link {d : Daemon} (hs : Sound d) {n g : Int32} (h : nexthopOf d.rt n = some g) :
    ∃ l ∈ d.dl.links, l.id = g := by
  obtain ⟨k, e, -, he, rfl⟩ := nexthopOf_eq_some.mp h
  exact (hs.entry k e he).routed

theorem nextHopUp_timeout_iff {d d' : Daemon} {out : List Effect} (hs : Sound d)
    (hn : NextHopUp d) (h : Trail Tick d out d') (hdl : d'.dl = d.dl) :
    NextHopUp d' ↔ ∀ s n g, Via d s n g → ¬ Declared out n → ¬ Declared out g := by
  refine ⟨fun hn' s n g hv hnd hd => ?_, nextHopUp_timeout hs.consistent hn h hdl⟩
  obtain ⟨hf, hc', hid⟩ := timeout_frame hs.consistent h
  obtain ⟨-, hdown⟩ := declared_down hs h
  rw [nextHopUp_iff hc', hdl] at hn'
  obtain ⟨c, hp⟩ := hv.path
  refine hn' s n g ⟨⟨c, (hf.path s _).mpr ⟨hp, hnd⟩⟩, by rw [hid]; exact hv.remote,
    (hf.hop n hv.remote).trans hv.hop⟩ (hs.hop_link hv.hop) (hdown g hd).2

section Accepted

variable {d : Daemon} {rt : RoutingTable} {gol : LisoHash} {fresh : Fresh} {lsa : LSA} {size : ℕ}
  {f : Int32}

theorem nexthopOf_updateEntry (ht : getType lsa.versionTtlType = typeLsa)
    (update : updateEntry fresh (getRoutingEntry d.rt lsa.senderNodeId) d.rt d.dl lsa size f =
      .ok rt) (id : Int32) : nexthopOf rt id =
        if id = lsa.senderNodeId then some (nexthopAfter d.rt lsa f) else nexthopOf d.rt id := by
  rw [nexthopOf, entryOf_updateEntry ht update]
  split_ifs with hid
  · rw [Option.map_some, hid, nexthop_updatedEntry]
  · rfl

theorem statusOf_updateEntry (ht : getType lsa.versionTtlType = typeLsa)
    (update : updateEntry fresh (getRoutingEntry d.rt lsa.senderNodeId) d.rt d.dl lsa size f =
      .ok rt) (id : Int32) : statusOf rt id =
        if id = lsa.senderNodeId then some retransmitTime else statusOf d.rt id := by
  rw [statusOf, entryOf_updateEntry ht update]
  split_ifs
  · cases entryOf d.rt id <;> rfl
  · rfl

theorem path_announceAll {m : ObjMap} {names : List CString} {p q : Path} {s : CString}
    (h : m.announceAll names p s = some (some q)) :
    m s = some (some q) ∨ q = p ∧ s ∈ names ∧ ∀ p', m s = some (some p') → p.cost < p'.cost := by
  rw [ObjMap.announceAll_apply] at h
  split_ifs at h with hs
  · simp only [Option.some.injEq] at h
    subst h
    rcases m s with _ | _ | p'
    · exact .inr ⟨rfl, hs, by simp⟩
    · exact .inr ⟨rfl, hs, by simp⟩
    · by_cases hlt : p'.cost > p.cost
      · rw [announcePath, if_pos hlt]
        refine .inr ⟨rfl, hs, fun p'' he => ?_⟩
        simp only [Option.some.injEq] at he
        exact he ▸ hlt
      · rw [announcePath, if_neg hlt]
        exact .inl rfl
  · exact .inl h

theorem announceAll_path {m : ObjMap} {names : List CString} {p : Path} {s : CString}
    (hs : s ∈ names) (hp : ∀ p', m s = some (some p') → p.cost < p'.cost) :
    m.announceAll names p s = some (some p) := by
  rw [ObjMap.announceAll_apply, if_pos hs]
  rcases hm : m s with _ | _ | p'
  · rfl
  · rfl
  · rw [announcePath, if_pos (hp p' hm)]

/-- **An accepted LSA of another node** leaves the next hops up exactly when its originator provides
nothing, or is reached through itself or a neighbour that is not down. -/
theorem nextHopUp_accepted (hc : Consistent superFastHash d.gol) (hn : NextHopUp d)
    (ht : getType lsa.versionTtlType = typeLsa)
    (update : updateEntry fresh (getRoutingEntry d.rt lsa.senderNodeId) d.rt d.dl lsa size f =
      .ok rt) (objects : storeNodeObjects (hashAdd superFastHash) d.gol lsa = .ok gol)
    (hr : lsa.senderNodeId ≠ d.myNodeId → Provides d lsa →
      HopUp d.rt lsa.senderNodeId (nexthopAfter d.rt lsa f)) :
    NextHopUp { d with rt := rt, gol := gol } := by
  obtain ⟨hc', names, hnames, hv⟩ := storeNodeObjects_view hc objects
  rw [nextHopUp_iff hc] at hn
  rw [nextHopUp_iff (by exact hc')]
  rintro s n g ⟨⟨c, hp⟩, hne, hg⟩ hl hd
  dsimp only at hp hne hg hl hd
  rw [hv] at hp
  rw [nexthopOf_updateEntry ht update] at hg
  rw [statusOf_updateEntry ht update] at hd
  -- the originator itself is up now
  split_ifs at hd with hgs
  · simp [retransmitTime, statusDown] at hd
  by_cases hid : n = lsa.senderNodeId
  · subst hid
    rw [if_pos rfl, Option.some.injEq] at hg
    subst hg
    refine (hr hne ⟨s, ?_⟩).elim hgs fun h => h hd
    rcases path_announceAll hp with hp | ⟨-, hs, hp⟩
    · exact .inl ⟨c, hp⟩
    · exact .inr ⟨names, hnames, hs, hp⟩
  · rw [if_neg hid] at hg
    rcases path_announceAll hp with hp | ⟨he, -, -⟩
    · exact hn s n g ⟨⟨c, hp⟩, hne, hg⟩ hl hd
    · cases he
      exact hid rfl

theorem nexthopAfter_up (hs : Sound { d with rt := rt, gol := gol })
    (hc : Consistent superFastHash d.gol) (ht : getType lsa.versionTtlType = typeLsa)
    (update : updateEntry fresh (getRoutingEntry d.rt lsa.senderNodeId) d.rt d.dl lsa size f =
      .ok rt) (objects : storeNodeObjects (hashAdd superFastHash) d.gol lsa = .ok gol)
    (hn : NextHopUp { d with rt := rt, gol := gol }) (hne : lsa.senderNodeId ≠ d.myNodeId)
    (hp : Provides d lsa) : HopUp d.rt lsa.senderNodeId (nexthopAfter d.rt lsa f) := by
  obtain ⟨hc', names, hnames, hv⟩ := storeNodeObjects_view hc objects
  rw [nextHopUp_iff (by exact hc')] at hn
  have hop : nexthopOf rt lsa.senderNodeId = some (nexthopAfter d.rt lsa f) := by
    rw [nexthopOf_updateEntry ht update, if_pos rfl]
  have path : ∃ s c, view superFastHash gol s = some (some ⟨lsa.senderNodeId, c⟩) := by
    rw [hv]
    obtain ⟨s, ⟨c, hs⟩ | ⟨names', hnames', hs, hcost⟩⟩ := hp
    · by_cases hm : s ∈ names
      · refine ⟨s, ?_⟩
        rw [ObjMap.announceAll_apply, if_pos hm, hs, announcePath]
        split_ifs
        · exact ⟨_, rfl⟩
        · exact ⟨_, rfl⟩
      · exact ⟨s, c, by rw [ObjMap.announceAll_apply, if_neg hm, hs]⟩
    · rw [hnames, Except.ok.injEq] at hnames'
      subst hnames'
      exact ⟨s, _, announceAll_path hs hcost⟩
  obtain ⟨s, c, hp⟩ := path
  have hup := hn s _ _ ⟨⟨c, hp⟩, hne, hop⟩ (hs.hop_link hop)
  rw [statusOf_updateEntry ht update] at hup
  by_cases hid : nexthopAfter d.rt lsa f = lsa.senderNodeId
  · exact .inl hid
  · rw [if_neg hid] at hup
    exact .inr hup

end Accepted

theorem nextHopUp_keep {d d' : Daemon} {names : List CString} {c : ℤ}
    (hc : Consistent superFastHash d.gol) (hc' : Consistent superFastHash d'.gol)
    (hdl : d'.dl = d.dl) (hid : d'.myNodeId = d.myNodeId)
    (hst : ∀ id, statusOf d'.rt id = statusOf d.rt id)
    (hop : ∀ id, nexthopOf d'.rt id = nexthopOf d.rt id)
    (hv : view superFastHash d'.gol = (view superFastHash d.gol).announceAll names ⟨d.myNodeId, c⟩)
    (hn : NextHopUp d) : NextHopUp d' := by
  rw [nextHopUp_iff hc] at hn
  rw [nextHopUp_iff hc', hdl]
  rintro s n g ⟨⟨c', hp⟩, hne, hg⟩ hl
  rw [hid] at hne
  rw [hop] at hg
  rw [hst]
  rw [hv] at hp
  rcases path_announceAll hp with hp | ⟨he, -, -⟩
  · exact hn s n g ⟨⟨c', hp⟩, hne, hg⟩ hl
  · cases he
    exact absurd rfl hne

theorem nextHopUp_boot {f : Files} {d : Daemon} (h : boot f = .ok d) : NextHopUp d := by
  obtain ⟨-, ht, -⟩ := boot_eq_ok h
  intro s l _ hd
  obtain ⟨e, he, hst⟩ := Option.map_eq_some_iff.mp hd
  obtain ⟨k, -, he⟩ := entryOf_eq_some.mp he
  rw [ht, List.getElem?_mapIdx, Option.map_eq_some_iff] at he
  obtain ⟨l, -, rfl⟩ := he
  simp [loadedEntry, statusDown] at hst

/-- **One pass keeps the next hops up, if it meets the condition.** -/
theorem nextHopUp_act {f : Files} {d d' : Daemon} {l : Event × List Effect}
    (r : (daemonSystem f).Reachable d) (hn : NextHopUp d) (h : act l.1 d = .ok (d', l.2))
    (hr : RoutesStayUp d l) : NextHopUp d' := by
  obtain ⟨ev, out⟩ := l
  have hc := consistent_reachable r
  have hc' := consistent_reachable (r.step (l := (ev, out)) h)
  obtain ⟨hdl, hid⟩ := act_static h
  cases ev with
  | timeout fresh =>
    refine nextHopUp_timeout hc hn (timeout_trail h) hdl fun s n g hv => ?_
    rw [declared_iff r h, declared_iff r h]
    exact hr.timeout fresh rfl s n g hv
  | datagram rcv fresh =>
    obtain ⟨lsa, g, size, recv, hh⟩ := receive_handled h
    cases hh with
    | ignored => exact hn
    | accepted type newer link update objects =>
      exact nextHopUp_accepted hc hn ((acceptedLsa_type _).trans type) update objects fun hne hp =>
        hopUp_nexthopAfter.mpr (hr.accepted rcv fresh lsa g size rfl recv type newer hne hp)
    | credited type current update =>
      obtain ⟨_, _, _, _, _, -, -, -, -, -, -, rfl⟩ := creditAck_eq_ok update
      have hv : view superFastHash d.gol =
        (view superFastHash d.gol).announceAll [] ⟨d.myNodeId, 0⟩ := rfl
      exact nextHopUp_keep hc hc hdl hid
        (fun id => entryOf_modify_map (fun _ => rfl) fun _ => rfl)
        (fun id => nexthopOf_keep (fun _ => rfl) fun _ => rfl) hv hn
  | request c uri opened =>
    obtain ⟨-, rfl | ⟨name, gol, ol, file, hg, rfl⟩⟩ := request_cases h
    · exact hn
    · have hv : view superFastHash gol =
        (view superFastHash d.gol).announceAll [name] ⟨d.myNodeId, 0⟩ := (hashAdd_spec hc hg).2
      exact nextHopUp_keep hc hc' hdl hid (fun _ => rfl) (fun _ => rfl) hv hn

/-- **One pass that does not meet it breaks a next hop.** -/
theorem routesStayUp_act {f : Files} (hf : Configured f) {d d' : Daemon} {l : Event × List Effect}
    (r : (daemonSystem f).Reachable d) (hn : NextHopUp d) (h : act l.1 d = .ok (d', l.2))
    (hn' : NextHopUp d') : RoutesStayUp d l := by
  obtain ⟨ev, out⟩ := l
  have hs := sound_reachable hf r
  have hs' := sound_reachable hf (r.step (l := (ev, out)) h)
  cases ev with
  | timeout fresh =>
    refine ⟨fun _ _ s n g hv => ?_, fun _ _ _ _ _ he => by cases he⟩
    rw [← declared_iff r h, ← declared_iff r h]
    exact (nextHopUp_timeout_iff hs hn (timeout_trail h) (act_static h).1).mp hn' s n g hv
  | datagram rcv fresh =>
    obtain ⟨lsa, g, size, recv, hh⟩ := receive_handled h
    refine ⟨(by rintro _ ⟨⟩), fun r' fresh' lsa' g' size' he recv' ht hnew hne hp => ?_⟩
    cases he
    rw [recv] at recv'
    cases recv'
    cases hh with
    | ignored why =>
      rcases why with h1 | ⟨h1, -⟩
      · rw [ht, hnew] at h1
        cases h1
      · exact absurd ht h1
    | accepted type newer link update objects =>
      exact hopUp_nexthopAfter.mp (nexthopAfter_up hs' hs.consistent
        ((acceptedLsa_type _).trans type) update objects hn' hne hp)
    | credited type current update =>
      rw [ht] at type
      exact absurd type (by decide)
  | request c uri opened => exact ⟨(by rintro _ ⟨⟩), (by rintro _ _ _ _ _ ⟨⟩)⟩

/-- **In every run whose passes meet the condition no remote reply names a neighbour that is down**, and
a pass that does not meet it makes one that does. -/
theorem next_hop_up (f : Files) :
    (∀ d, ((daemonSystem f).restrict RoutesStayUp).Reachable d → NextHopUp d) ∧
      (Configured f → ∀ d l d', (daemonSystem f).Reachable d → NextHopUp d →
        (daemonSystem f).step d l d' → (NextHopUp d' ↔ RoutesStayUp d l)) := by
  constructor
  · intro d r
    have key := r.invariant (I := fun d => (daemonSystem f).Reachable d ∧ NextHopUp d)
      (fun d (h : boot f = .ok d) => ⟨.init h, nextHopUp_boot h⟩) ?_
    · exact key.2
    · rintro d l d' ⟨r, hn⟩ ⟨hr, h⟩
      exact ⟨r.step h, nextHopUp_act r hn h hr⟩
  · exact fun hf d l d' r hn h => ⟨routesStayUp_act hf r hn h, nextHopUp_act r hn h⟩

/-- An LSA of node 9 with one object, as its neighbour at distance `32 - ttl` sends it. -/
def objectLsa (sequenceNum : Int32) (ttl : ℤ) : LSA :=
  ⟨setTtl (newHeader typeLsa) ttl, 9, sequenceNum, 0, 1, le32 1 ++ [111]⟩

/-- Node 9 is heard through node 2, then only through node 3 and at a greater distance, while node 2
acknowledges nothing and is given up. -/
def detourRun : List Event :=
  [.datagram (.got (cstr [66]) (objectLsa 1 32).bytes) zeros] ++ List.replicate 6 (.timeout zeros) ++
    [.datagram (.got (cstr [67]) (objectLsa 2 30).bytes) zeros, .datagram (ackOf 1) zeros] ++
    List.replicate 4 (.timeout zeros) ++
    [.datagram (.got (cstr [67]) (objectLsa 3 30).bytes) zeros]

/-- **The next hop does not follow.** The object of node 9 is still looked for at node 2. -/
theorem exists_stale_route : ∃ d l, (daemonSystem forkFiles).Reachable d ∧
    rdgetTarget d (cstr [111]) = .ok (.via l) ∧ statusOf d.rt l.id = some statusDown ∧
      statusOf d.rt 3 ≠ some statusDown := by
  have key : (boot forkFiles >>= exec detourRun).map (fun d =>
      decide (rdgetTarget d (cstr [111]) = .ok (.via (linkOn 2 66))) &&
        decide (statusOf d.rt 2 = some statusDown) && decide (statusOf d.rt 3 ≠ some statusDown)) =
          .ok true := by decide +kernel
  obtain ⟨d, hd, hp⟩ := exists_of_map_eq_ok key
  simp only [Bool.and_eq_true, decide_eq_true_eq] at hp
  obtain ⟨d₀, h0, h⟩ := bind_eq_ok.mp hd
  obtain ⟨⟨ht, h2⟩, h3⟩ := hp
  exact ⟨d, _, reachable_exec (.init h0) h, ht, h2, h3⟩

end RoutingDaemon
