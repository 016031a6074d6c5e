import RoutingDaemon.AckWait

/-!
# Who the entries and the checkers belong to

* `smallSystem`: the runs of a daemon, one small step at a time.
* `Identified`: the ids of the routing table and of what it stores; `table_identity`: they hold in
  every state between two small steps, and no id ever changes.
* `Mirrored`: the lists of checkers mirror the link table; `CountedStep`: no list is made whose
  `num_links` is wrong; `mirrored_lists`: a list mirrors the link table as long as the steps are
  counted. `exists_uncounted_list`: `update_entry` makes a list that is not.
-/

namespace RoutingDaemon

/-! ### Small steps as a system -/

/-- The runs of a daemon started with the files `f`, one small step at a time. -/
def smallSystem (f : Files) : System Daemon (List Effect) where
  init d := boot f = .ok d
  step := Micro

theorem smallSystem_trail {f : Files} {d d' : Daemon} {out : List Effect}
    (r : (smallSystem f).Reachable d) (h : Trail Micro d out d') : (smallSystem f).Reachable d' :=
  h.preserves (fun _ _ _ r h => r.step h) r

/-- **The passes of the event loop reach nothing else.** -/
theorem smallSystem_reachable {f : Files} {d : Daemon} (r : (daemonSystem f).Reachable d) :
    (smallSystem f).Reachable d := by
  refine System.Reachable.invariant (S := daemonSystem f) (fun _ h => .init h) ?_ r
  exact fun d l d' r h => smallSystem_trail r (act_trail h)

theorem sound_small {f : Files} (hf : Configured f) {d : Daemon}
    (r : (smallSystem f).Reachable d) : Sound d :=
  r.invariant (fun _ h => sound_boot hf h) fun d out d' hs (h : Micro d out d') => sound_micro hs h

/-! ### The ids of the routing table -/

/-- The forwarder of the LSA that an entry stores is a link. -/
def Forwarded (dl : DirectLinks) (e : RoutingEntry) : Prop :=
  e.lsa ≠ none → ∃ l ∈ dl.links, l.id = e.forwarderId

theorem forwarded_change {d : Daemon} (hs : Sound d) {j : ℕ} {e e' : RoutingEntry}
    (h : Forwarded d.dl e) (hc : Change (Stores d) d j e e') : Forwarded d.dl e' := by
  cases hc with
  | checkers => exact h
  | discard => exact fun hn => absurd rfl hn
  | age => exact h
  | store stores => exact fun _ => stores.nexthop_mem hs

theorem forwarded_micro {d d' : Daemon} {out : List Effect} (hs : Sound d)
    (hf : ∀ e ∈ d.rt.table, Forwarded d.dl e) (h : Micro d out d') :
    ∀ e ∈ d'.rt.table, Forwarded d'.dl e := by
  intro e he
  obtain ⟨j, hj⟩ := List.mem_iff_getElem?.mp he
  rw [(micro_static h).1]
  refine (reshapes_micro h).forall_entry (P := fun _ => Forwarded d.dl)
    (fun j e e' he hc => forwarded_change hs he hc) (fun e ha => ?_)
    (fun j e he => hf e (List.mem_of_getElem? he)) j e hj
  obtain ⟨stores, -⟩ := ha
  exact fun _ => stores.nexthop_mem hs

theorem forwarded_boot {f : Files} {d : Daemon} (h : boot f = .ok d) :
    ∀ e ∈ d.rt.table, Forwarded d.dl e := by
  obtain ⟨-, ht, -⟩ := boot_eq_ok h
  intro e he hn
  rw [ht, List.mem_mapIdx] at he
  obtain ⟨j, hj, rfl⟩ := he
  exact absurd rfl hn

theorem forwarded_small {f : Files} (hf : Configured f) {d : Daemon}
    (r : (smallSystem f).Reachable d) : ∀ e ∈ d.rt.table, Forwarded d.dl e :=
  (r.invariant (I := fun d => Sound d ∧ ∀ e ∈ d.rt.table, Forwarded d.dl e)
    (fun _ h => ⟨sound_boot hf h, forwarded_boot h⟩)
    fun d out d' hi (h : Micro d out d') => ⟨sound_micro hi.1 h, forwarded_micro hi.1 hi.2 h⟩).2

/-- The ids of a routing table: distinct, those of the links first, the own one in front; and an LSA
is stored in the entry of its sender, with a link as forwarder. -/
structure Identified (d : Daemon) : Prop where
  distinct : (d.rt.table.map RoutingEntry.id).Nodup
  linked : ∀ (j : ℕ) l, d.dl.links[j]? = some l → ∃ e, d.rt.table[j]? = some e ∧ e.id = l.id
  own : ∃ e, d.rt.table[0]? = some e ∧ e.id = d.myNodeId
  stored : ∀ e ∈ d.rt.table, ∀ lsa, e.lsa = some lsa → lsa.senderNodeId = e.id ∧
    getType lsa.versionTtlType = typeLsa ∧ ∃ l ∈ d.dl.links, l.id = e.forwarderId

theorem Sound.identified {d : Daemon} (hs : Sound d) (hf : ∀ e ∈ d.rt.table, Forwarded d.dl e) :
    Identified d where
  distinct := hs.nodup
  linked _ _ hl := hs.entry_link hl
  own := by
    obtain ⟨e, he, hid, -⟩ := hs.own_entry
    exact ⟨e, he, hid⟩
  stored e he lsa hl := by
    obtain ⟨j, hj⟩ := List.mem_iff_getElem?.mp he
    obtain ⟨h1, h2, -⟩ := (hs.entry j e hj).sender lsa hl
    exact ⟨h1, h2, hf e he (by rw [hl]; simp)⟩

theorem ids_prefix {d d' : Daemon} {out : List Effect} (h : Trail Micro d out d') :
    d.rt.table.map RoutingEntry.id <+: d'.rt.table.map RoutingEntry.id := by
  induction h with
  | refl => exact List.prefix_rfl
  | tail _ h1 ih =>
    rcases (reshapes_micro h1).ids with he | ⟨id, -, he⟩
    · rw [he]; exact ih
    · rw [he]; exact ih.trans (List.prefix_append _ _)

/-- **The identity of the routing table.** It holds between any two small steps of any run, the ids
of the table only ever grow at its end, and so the lookups of links and of senders are never NULL. -/
theorem table_identity {f : Files} (hf : Configured f) :
    (∀ d, (daemonSystem f).Reachable d → (smallSystem f).Reachable d) ∧
      ∀ d, (smallSystem f).Reachable d → Identified d ∧
        (∀ out d', Trail Micro d out d' →
          d.rt.table.map RoutingEntry.id <+: d'.rt.table.map RoutingEntry.id) ∧
        (∀ l ∈ d.dl.links, getRoutingEntry d.rt l.id ≠ none) ∧
        ∀ e ∈ d.rt.table, ∀ lsa, e.lsa = some lsa →
          getRoutingEntry d.rt lsa.senderNodeId ≠ none := by
  refine ⟨fun d => smallSystem_reachable, fun d r => ?_⟩
  have hs := sound_small hf r
  have hi := hs.identified (forwarded_small hf r)
  refine ⟨hi, fun out d' h => ids_prefix h, fun l hl => ?_, fun e he lsa hlsa => ?_⟩
  · obtain ⟨i, hi⟩ := List.mem_iff_getElem?.mp hl
    rw [hs.getRoutingEntry_link hi]
    simp
  · obtain ⟨k, hk⟩ := getRoutingEntry_isSome he (hi.stored e he lsa hlsa).1.symm
    rw [hk]
    simp

/-- After the first flood of node 1, with neighbours 2 and 3. -/
theorem table_identity_forkRun : ∃ d, (smallSystem forkFiles).Reachable d ∧ Identified d ∧
    ∃ e ∈ d.rt.table, e.lsa ≠ none ∧ getRoutingEntry d.rt e.id ≠ none := by
  have key : (boot forkFiles >>= exec forkRun).map (fun d =>
      decide (∃ e ∈ d.rt.table, e.lsa ≠ none)) = .ok true := by decide +kernel
  obtain ⟨d, hd, hp⟩ := exists_of_map_eq_ok key
  obtain ⟨d₀, h0, h⟩ := bind_eq_ok.mp hd
  obtain ⟨e, he, hl⟩ := of_decide_eq_true hp
  obtain ⟨h1, h2⟩ := table_identity (f := forkFiles) ⟨by decide, by decide⟩
  have r := h1 d (reachable_exec (.init h0) h)
  obtain ⟨hi, -, -, hsend⟩ := h2 d r
  obtain ⟨lsa, hlsa⟩ := Option.ne_none_iff_exists'.mp hl
  exact ⟨d, r, hi, e, he, hl, by rw [← (hi.stored e he lsa hlsa).1]; exact hsend e he lsa hlsa⟩

/-! ### Lists of checkers and the link table -/

/-- A list of checkers that mirrors the link table. -/
structure Mirrors (dl : DirectLinks) (c : AckCheckers) : Prop where
  count : c.numLinks.toInt = dl.numLinks
  ids : ∀ (i : ℕ) l, dl.links[i]? = some l → ∃ a, c.checkers[i]? = some a ∧ a.id = l.id

/-- The list of checkers of an entry mirrors the link table. -/
def Mirrored (dl : DirectLinks) (e : RoutingEntry) : Prop :=
  ∃ c, e.checkersList = some c ∧ Mirrors dl c

theorem mirrors_cleared {dl : DirectLinks} {n : Int32} :
    Mirrors dl ⟨n, clearedCheckers dl⟩ ↔ n.toInt = dl.numLinks := by
  refine ⟨Mirrors.count, fun h => ⟨h, fun i l hl => ⟨⟨l.id, .received, 0⟩, ?_, rfl⟩⟩⟩
  rw [clearedCheckers, List.getElem?_map, hl, Option.map_some]

theorem Mirrors.congr {dl : DirectLinks} {c c' : AckCheckers} (h : Mirrors dl c)
    (hn : c'.numLinks = c.numLinks)
    (hids : c'.checkers.map AckChecker.id = c.checkers.map AckChecker.id) : Mirrors dl c' := by
  refine ⟨by rw [hn]; exact h.count, fun i l hl => ?_⟩
  obtain ⟨a, ha, hid⟩ := h.ids i l hl
  have := congrArg (fun l => l[i]?) hids
  simp only [List.getElem?_map, ha, Option.map_some, Option.map_eq_some_iff] at this
  obtain ⟨a', ha', he⟩ := this
  exact ⟨a', ha', he.trans hid⟩

theorem mirrored_change {S : LSA → ℕ → Int32 → Prop} {d : Daemon} {j : ℕ} {e e' : RoutingEntry}
    (h : Mirrored d.dl e) (hc : Change S d j e e') : Mirrored d.dl e' := by
  obtain ⟨c, hl, hm⟩ := h
  cases hc with
  | checkers old numLinks ids =>
    rw [old, Option.some.injEq] at hl
    subst hl
    exact ⟨_, rfl, hm.congr numLinks ids⟩
  | discard => exact ⟨c, hl, hm⟩
  | age => exact ⟨c, hl, hm⟩
  | store =>
    refine ⟨_, rfl, mirrors_cleared.mpr ?_⟩
    simp only [setRoute, hl, Option.map_some, Option.getD_some]
    exact hm.count

theorem Evolves.mirrored {S : LSA → ℕ → Int32 → Prop} {d : Daemon} {rt : RoutingTable}
    (h : Evolves S d rt) (hm : ∀ e ∈ d.rt.table, Mirrored d.dl e) :
    ∀ e ∈ rt.table, Mirrored d.dl e := by
  intro e he
  obtain ⟨j, hj⟩ := List.mem_iff_getElem?.mp he
  exact h.forall_entry (P := fun _ => Mirrored d.dl) (fun _ _ _ => mirrored_change)
    (fun j e he => hm e (List.mem_of_getElem? he)) j e hj

/-- All lists of checkers of a daemon mirror the link table. -/
def AllMirrored (d : Daemon) : Prop := ∀ e ∈ d.rt.table, Mirrored d.dl e

/-- A step that reads the first LSA of a node finds the right `num_links` in the fresh memory. -/
def CountedStep (d : Daemon) (l : Event × List Effect) : Prop :=
  ∀ r fresh lsa f n, l.1 = .datagram r fresh → rtRecvfrom d.dl r = .ok (some (lsa, f, n)) →
    getType lsa.versionTtlType = typeLsa → getRoutingEntry d.rt lsa.senderNodeId = none →
      fresh.numLinks.toInt = d.dl.numLinks

theorem allMirrored_boot {f : Files} {d : Daemon} (h : boot f = .ok d) : AllMirrored d := by
  obtain ⟨-, ht, -⟩ := boot_eq_ok h
  intro e he
  rw [ht, List.mem_mapIdx] at he
  obtain ⟨j, hj, rfl⟩ := he
  exact ⟨_, rfl, mirrors_cleared.mpr (toInt_numLinks _)⟩

theorem allMirrored_trail {d d' : Daemon} {out : List Effect} (hm : AllMirrored d)
    (h : Trail Tick d out d') : AllMirrored d' := by
  refine h.preserves (I := AllMirrored) (fun d out d' hm h => ?_) hm
  unfold AllMirrored
  rw [(micro_static (.tick h)).1]
  exact (evolves_tick (S := Stores d) (fun _ _ _ => .own) h).mirrored hm

/-- **A packet that is handled keeps the lists, unless it makes one that is not counted.** -/
theorem allMirrored_handled {d d' : Daemon} {fresh : Fresh} {lsa : LSA} {f : Int32} {size : ℕ}
    {out : List Effect} (hm : AllMirrored d) (h : Handled d fresh lsa f size out d') :
    AllMirrored d' ↔ (getType lsa.versionTtlType = typeLsa →
      getRoutingEntry d.rt lsa.senderNodeId = none → fresh.numLinks.toInt = d.dl.numLinks) := by
  cases h with
  | ignored why =>
    refine iff_of_true hm fun ht hn => ?_
    rw [hn] at why
    rcases why with h1 | ⟨h1, -⟩
    · cases h1
    · exact absurd ht h1
  | credited type current update =>
    refine iff_of_true ((evolves_creditAck (S := Stores d) update).mirrored hm) fun ht => ?_
    rw [type] at ht
    exact absurd ht (by decide)
  | @accepted src rt gol type newer link update objects =>
    have ht : getType (acceptedLsa lsa).versionTtlType = typeLsa := by rw [acceptedLsa_type, type]
    cases hk : getRoutingEntry d.rt lsa.senderNodeId with
    | some k =>
      rw [hk] at update
      refine iff_of_true ?_ fun _ h => by cases h
      exact (evolves_updateEntry (S := fun _ _ _ => True) trivial ht hk update).mirrored hm
    | none =>
      rw [hk, updateEntry_none ht] at update
      have htab := getElem?_push update
      constructor
      · intro h _ _
        obtain ⟨c, hc, hmc⟩ := h _ (by
          dsimp only
          rw [htab]
          exact List.mem_append_right _ (List.mem_singleton_self _))
        cases hc
        exact hmc.count
      · intro h e he
        dsimp only at he
        rw [htab, List.mem_append, List.mem_singleton] at he
        rcases he with he | rfl
        · exact hm e he
        · exact ⟨_, rfl, mirrors_cleared.mpr (h type rfl)⟩

/-- **A pass of the event loop keeps the lists exactly when it is counted.** -/
theorem allMirrored_act {d d' : Daemon} {l : Event × List Effect} (hm : AllMirrored d)
    (h : act l.1 d = .ok (d', l.2)) : AllMirrored d' ↔ CountedStep d l := by
  obtain ⟨ev, out⟩ := l
  cases ev with
  | timeout fresh =>
    exact iff_of_true (allMirrored_trail hm (timeout_trail h)) fun _ _ _ _ _ h => by cases h
  | datagram r fresh =>
    obtain ⟨lsa, f, size, recv, hh⟩ := receive_handled h
    rw [allMirrored_handled hm hh]
    constructor
    · intro h1 r' fresh' lsa' f' n' hr recv' ht hn
      cases hr
      rw [recv] at recv'
      cases recv'
      exact h1 ht hn
    · exact fun h1 ht hn => h1 r fresh lsa f size rfl recv ht hn
  | request c uri opened =>
    refine iff_of_true ?_ fun _ _ _ _ _ h => by cases h
    obtain ⟨-, rfl | ⟨_, _, _, _, -, rfl⟩⟩ := request_cases h <;> exact hm

/-- **The lists of checkers mirror the link table in every run whose steps are counted**, and a step
that is not counted makes a list that does not. -/
theorem mirrored_lists (f : Files) :
    (∀ d, ((daemonSystem f).restrict CountedStep).Reachable d → AllMirrored d) ∧
      ∀ d l d', (daemonSystem f).Reachable d → AllMirrored d → (daemonSystem f).step d l d' →
        (AllMirrored d' ↔ CountedStep d l) := by
  constructor
  · intro d r
    refine r.invariant (fun s (h : boot f = .ok s) => allMirrored_boot h) ?_
    rintro d l d' hm ⟨hc, h⟩
    exact (allMirrored_act hm h).mpr hc
  · exact fun d l d' _ hm h => allMirrored_act hm h

/-- Node 2 forwards the first LSA of node 9, which is not in the configuration, and `malloc` finds
memory with this `num_links`. -/
def firstLsa (numLinks : Int32) : Event :=
  .datagram (.got (cstr [66]) (plainPacket typeLsa 9).bytes) ⟨fun _ => 0, numLinks⟩

/-- The states before and after that datagram. -/
def firstHeard (numLinks : Int32) : Except Fault (Daemon × Daemon × List Effect) := do
  let d ← boot forkFiles
  let (d', out) ← act (firstLsa numLinks) d
  return (d, d', out)

theorem firstHeard_eq_ok {n : Int32} {d d' : Daemon} {out : List Effect}
    (h : firstHeard n = .ok (d, d', out)) :
    boot forkFiles = .ok d ∧ act (firstLsa n) d = .ok (d', out) := by
  obtain ⟨d₀, h0, h⟩ := bind_eq_ok.mp h
  obtain ⟨⟨d₁, out₁⟩, h1, h⟩ := bind_eq_ok.mp h
  cases h
  exact ⟨h0, h1⟩

theorem mirrored_lists_firstHeard : ∃ d, (daemonSystem forkFiles).Reachable d ∧ AllMirrored d ∧
    getRoutingEntry d.rt 9 = some 3 := by
  have key : (firstHeard 3).map (fun p => decide (getRoutingEntry p.2.1.rt 9 = some 3) &&
      decide (p.1.dl.numLinks = 3)) = .ok true := by decide +kernel
  obtain ⟨⟨d, d', out⟩, hd, hp⟩ := exists_of_map_eq_ok key
  simp only [Bool.and_eq_true, decide_eq_true_eq] at hp
  obtain ⟨h0, h1⟩ := firstHeard_eq_ok hd
  obtain ⟨hrun, hstep⟩ := mirrored_lists forkFiles
  refine ⟨d', (System.Reachable.init h0).step (l := (firstLsa 3, out)) h1, ?_, hp.1⟩
  refine (hstep d (firstLsa 3, out) d' (.init h0) (hrun d (.init h0)) h1).mpr ?_
  intro r fresh lsa f n hr _ _ _
  cases hr
  rw [hp.2]
  decide

/-- **The first LSA of an unknown node gets a list with whatever `num_links` the memory holds.** -/
theorem exists_uncounted_list : ∃ d, (daemonSystem forkFiles).Reachable d ∧ ¬ AllMirrored d := by
  have key : (firstHeard 0).map (fun p => decide (∃ e ∈ p.2.1.rt.table,
      e.checkersList.map AckCheckers.numLinks = some 0) && decide (p.2.1.dl.numLinks = 3)) =
        .ok true := by decide +kernel
  obtain ⟨⟨d, d', out⟩, hd, hp⟩ := exists_of_map_eq_ok key
  simp only [Bool.and_eq_true, decide_eq_true_eq] at hp
  obtain ⟨⟨e, he, hn⟩, hlen⟩ := hp
  obtain ⟨h0, h1⟩ := firstHeard_eq_ok hd
  refine ⟨d', (System.Reachable.init h0).step (l := (firstLsa 0, out)) h1, fun hm => ?_⟩
  obtain ⟨c, hc, hcount, -⟩ := hm e he
  rw [hc, Option.map_some, Option.some.injEq] at hn
  rw [hn, hlen] at hcount
  exact absurd hcount (by decide)

end RoutingDaemon
