import RoutingDaemon.Replies
import RoutingDaemon.TimeToLive

/-!
# Where the information in a network comes from

* `MadeBy`: a packet is a copy of an LSA that the daemon has flooded. `MadeBy.mono`, `MadeBy.header`,
  `MadeBy.cut`, `MadeBy.first`, `MadeBy.names`.
* `Grown`: what a daemon never loses.
* `Originated`: every packet on the wire and every stored LSA is such a copy, and every node and every
  object in a table exists. `originated_step`, `nothing_forged`.
* `no_phantoms`: what no node has, no daemon knows.
-/

namespace RoutingDaemon

/-- The names of the objects of a daemon's node. -/
def localNames (d : Daemon) : List CString := d.ol.objects.map fun o => o.name.1

/-- The packet is a copy of an LSA that the daemon has flooded: of the objects that came first, with any
header word, and cut anywhere. -/
structure MadeBy (d : Daemon) (a : LSA) : Prop where
  number : 0 ≤ a.sequenceNum.toInt ∧ a.sequenceNum.toInt < d.sequenceNumber.toInt
  made : ∃ fresh ol lsa size n, ol.objects <+: d.ol.objects ∧
    createPacket fresh typeLsa d.myNodeId a.sequenceNum d.dl ol = .ok (lsa, size) ∧
      a = { lsa with versionTtlType := a.versionTtlType, linksObjects := lsa.linksObjects.take n }

/-- What a daemon keeps: its configuration and its objects, and no number is used twice. -/
structure Grown (d d' : Daemon) : Prop where
  links : d'.dl = d.dl
  id : d'.myNodeId = d.myNodeId
  objects : d.ol.objects <+: d'.ol.objects
  sequence : d.sequenceNumber.toInt ≤ d'.sequenceNumber.toInt

section Daemons

variable {d d' : Daemon} {out : List Effect} {a lsa : LSA}

theorem Grown.refl (d : Daemon) : Grown d d := ⟨rfl, rfl, List.prefix_rfl, le_rfl⟩

theorem Grown.localNames (h : Grown d d') {s : CString} (hs : s ∈ localNames d) : s ∈ localNames d' := by
  obtain ⟨o, ho, rfl⟩ := List.mem_map.mp hs
  exact List.mem_map.mpr ⟨o, h.objects.subset ho, rfl⟩

theorem grown_tick (h : Tick d out d') : Grown d d' where
  links := (micro_static (.tick h)).1
  id := (micro_static (.tick h)).2
  objects := by rw [(tick_objects h).1]
  sequence := tick_sequence h

theorem grown_handled {fresh : Fresh} {f : Int32} {size : ℕ} (h : Handled d fresh lsa f size out d') :
    Grown d d' := by
  cases h <;> exact ⟨rfl, rfl, List.prefix_rfl, le_rfl⟩

theorem Added.grown {o : ObjectEntry} (h : Added d o d') : Grown d d' := by
  rw [h.rest]
  exact ⟨rfl, rfl, by rw [h.ol]; exact List.prefix_append _ _, le_rfl⟩

theorem MadeBy.mono (h : MadeBy d a) (g : Grown d d') : MadeBy d' a := by
  obtain ⟨fresh, ol, lsa, size, n, hol, hp, ha⟩ := h.made
  refine ⟨⟨h.number.1, h.number.2.trans_le g.sequence⟩, fresh, ol, lsa, size, n, hol.trans g.objects, ?_, ha⟩
  rw [g.id, g.links]
  exact hp

theorem MadeBy.sender (h : MadeBy d a) : a.senderNodeId = d.myNodeId := by
  obtain ⟨fresh, ol, lsa, size, n, -, hp, ha⟩ := h.made
  rw [ha]
  exact (createPacket_lsa hp).2.1

theorem MadeBy.header (h : MadeBy d a) (word : BitVec 32) : MadeBy d { a with versionTtlType := word } := by
  obtain ⟨fresh, ol, lsa, size, n, hol, hp, ha⟩ := h.made
  refine ⟨h.number, fresh, ol, lsa, size, n, hol, hp, ?_⟩
  rw [ha]

theorem MadeBy.cut (h : MadeBy d a) (n : ℕ) :
    MadeBy d { a with linksObjects := a.linksObjects.take n } := by
  obtain ⟨fresh, ol, lsa, size, m, hol, hp, ha⟩ := h.made
  refine ⟨h.number, fresh, ol, lsa, size, min n m, hol, hp, ?_⟩
  rw [ha]
  simp only [List.take_take]

theorem madeBy_flood {fresh : Fresh} {size : ℕ} (h0 : 0 ≤ d.sequenceNumber.toInt)
    (packet : createPacket fresh typeLsa d.myNodeId d.sequenceNumber d.dl d.ol = .ok (lsa, size))
    (g : Grown d d') (hseq : d'.sequenceNumber.toInt = d.sequenceNumber.toInt + 1) : MadeBy d' lsa := by
  obtain ⟨-, -, hq, -⟩ := createPacket_lsa packet
  refine ⟨by rw [hq, hseq]; omega, fresh, d.ol, lsa, size, lsa.linksObjects.length, g.objects, ?_, ?_⟩
  · rw [hq, g.id, g.links]
    exact packet
  · rw [List.take_length]

/-- **What is read of a copy**: the names of the objects that came first at the node that made it, as many as
the copy counts. -/
theorem MadeBy.first (h : MadeBy d a) (hd : Sound d) : ∃ ol : LocalObjects, ol.objects <+: d.ol.objects ∧
    a.numObjects = .ofNat ol.numObjects ∧
      ∀ names, objectNames a = .ok names → names = ol.objects.map fun o => o.name.1 := by
  obtain ⟨fresh, ol, lsa, size, n, hol, hp, ha⟩ := h.made
  have h1 : 1 ≤ d.dl.numLinks := by
    obtain ⟨l, hl, -⟩ := hd.link_zero
    exact Nat.one_le_of_lt (List.getElem?_eq_some_iff.mp hl).1
  obtain ⟨-, hcount, ⟨rest, hw⟩, -⟩ := createPacket_counts hp
  refine ⟨ol, hol, ?_, fun names hn => ?_⟩
  · rw [ha]
    exact hcount
  -- the whole packet holds the names of `ol`
  have hall := objectNames_append hn (lsa.linksObjects.drop n)
  rw [ha] at hall
  simp only [List.take_append_drop] at hall
  rw [hw, objectNames, storeNodeObjects_createPacket _ hp h1,
    foldlM_collect fun o : ObjectEntry => o.name.1] at hall
  cases hall
  rfl

/-- **The names that are read of a copy are names of the node that made it.** -/
theorem MadeBy.names (h : MadeBy d a) (hd : Sound d) {names : List CString}
    (hn : objectNames a = .ok names) : ∀ s ∈ names, s ∈ localNames d := by
  obtain ⟨ol, hol, -, hfirst⟩ := h.first hd
  rw [hfirst names hn]
  intro s hs
  obtain ⟨o, ho, rfl⟩ := List.mem_map.mp hs
  exact List.mem_map.mpr ⟨o, hol.subset ho, rfl⟩

end Daemons

/-! ### Networks -/

variable {ι : Type} {N : Net ι}

/-- Some node made the packet. -/
def Made (w : World ι) (a : LSA) : Prop := ∃ x, MadeBy (w.daemon x) a

/-- What a table says of a name is true: a node has it, and so does the node of its path. -/
def Provided (N : Net ι) (w : World ι) (s : CString) (v : Option Path) : Prop :=
  (∃ x, s ∈ localNames (w.daemon x)) ∧
    ∀ p, v = some p → ∃ x, (N.self x).id = p.nodeId ∧ s ∈ localNames (w.daemon x)

/-- Every packet on the wire and every stored LSA was made by a node, and every node and every object in a
table exists. -/
structure Originated (N : Net ι) (w : World ι) : Prop where
  wire : ∀ g ∈ w.wire, ∃ a, g.Carries a ∧ Made w a
  stored : ∀ y, ∀ e ∈ (w.daemon y).rt.table, ∀ a, e.lsa = some a → Made w a
  nodes : ∀ y, ∀ e ∈ (w.daemon y).rt.table, ∃ x, e.id = (N.self x).id
  objects : ∀ y s v, view superFastHash (w.daemon y).gol s = some v → Provided N w s v
  numbers : ∀ x, 0 ≤ (w.daemon x).sequenceNumber.toInt

section Step

variable [DecidableEq ι] {ok : List UInt8 → Prop} {w : World ι} {x : ι} {d : Daemon} {out : List Effect}

theorem Made.after (g : Grown (w.daemon x) d) {a : LSA} (h : Made w a) : Made (w.after x out d) a := by
  obtain ⟨y, hy⟩ := h
  refine ⟨y, ?_⟩
  by_cases hyx : y = x
  · subst hyx
    rw [after_daemon_self]
    exact hy.mono g
  · rw [after_daemon_of_ne hyx]
    exact hy

theorem Provided.after (g : Grown (w.daemon x) d) {s : CString} {v : Option Path} (h : Provided N w s v) :
    Provided N (w.after x out d) s v := by
  have key : ∀ y, s ∈ localNames (w.daemon y) → s ∈ localNames ((w.after x out d).daemon y) := by
    intro y hy
    by_cases hyx : y = x
    · subst hyx
      rw [after_daemon_self]
      exact g.localNames hy
    · rw [after_daemon_of_ne hyx]
      exact hy
  obtain ⟨⟨y, hy⟩, h2⟩ := h
  refine ⟨⟨y, key y hy⟩, fun p hp => ?_⟩
  obtain ⟨z, hz, hs⟩ := h2 p hp
  exact ⟨z, hz, key z hs⟩

/-- A step of a daemon keeps the network as it should be, if what it sends, stores and learns is. -/
theorem Originated.after (hi : Originated N w) (g : Grown (w.daemon x) d)
    (hsend : ∀ g ∈ sends x out, ∃ a, g.Carries a ∧ Made (w.after x out d) a)
    (hstored : ∀ e ∈ d.rt.table, ∀ a, e.lsa = some a → Made (w.after x out d) a)
    (hnodes : ∀ e ∈ d.rt.table, ∃ x, e.id = (N.self x).id)
    (hobjects : ∀ s v, view superFastHash d.gol s = some v → Provided N (w.after x out d) s v) :
    Originated N (w.after x out d) where
  wire h hh := by
    rcases List.mem_append.mp hh with hh | hh
    · obtain ⟨a, hc, ha⟩ := hi.wire h hh
      exact ⟨a, hc, ha.after g⟩
    · exact hsend h hh
  stored := forall_after (P := fun _ (d' : Daemon) => ∀ e ∈ d'.rt.table, ∀ a, e.lsa = some a →
    Made (w.after x out d) a) hstored fun y e he a ha => (hi.stored y e he a ha).after g
  nodes := forall_after (P := fun _ (d' : Daemon) => ∀ e ∈ d'.rt.table, ∃ x, e.id = (N.self x).id)
    hnodes hi.nodes
  objects := forall_after (P := fun _ d' => ∀ s v, view superFastHash d'.gol s = some v →
    Provided N (w.after x out d) s v) hobjects fun y s v h => (hi.objects y s v h).after g
  numbers := forall_after (P := fun _ d' => 0 ≤ d'.sequenceNumber.toInt)
    ((hi.numbers x).trans g.sequence) hi.numbers

omit [DecidableEq ι] in
theorem carries_stored (hd : Sound d) {slot : ℕ} {e : RoutingEntry} {a : LSA}
    (he : d.rt.table[slot]? = some e) (ha : e.lsa = some a) (l : LinkEntry) {g : Datagram ι}
    (hg : g ∈ sends x [rtSendto a l e.lsaSize]) :
    ∃ n, g.Carries { a with linksObjects := a.linksObjects.take n } := by
  obtain ⟨host, port, bytes, hm, rfl⟩ := mem_sends.mp hg
  rw [List.mem_singleton, rtSendto] at hm
  cases hm
  refine ⟨_, carries_rtSendto a ?_⟩
  rw [((hd.entry slot e he).sender a ha).2.2, length_bytes]
  exact Nat.le_add_right _ _

omit [DecidableEq ι] in
theorem nodes_reshapes {T : LSA → ℕ → Int32 → Prop}
    (hT : ∀ a n f, T a n f → ∃ x, a.senderNodeId = (N.self x).id)
    (hd : ∀ e ∈ d.rt.table, ∃ x, e.id = (N.self x).id) {rt : RoutingTable}
    (h : Reshapes T d rt) {e : RoutingEntry} (he : e ∈ rt.table) : ∃ x, e.id = (N.self x).id := by
  obtain ⟨j, hj⟩ := List.mem_iff_getElem?.mp he
  refine h.forall_entry (P := fun _ e => ∃ x, e.id = (N.self x).id) ?_ ?_
    (fun j e he => hd e (List.mem_of_getElem? he)) j e hj
  · intro j e e' he hc
    cases hc <;> exact he
  · intro e ha
    obtain ⟨stores, -⟩ := ha
    exact hT _ _ _ stores

theorem originated_tick (hl : Lawful N w) (hi : Originated N w) (h : Tick (w.daemon x) out d) :
    Originated N (w.after x out d) := by
  have g := grown_tick h
  refine hi.after g ?_ ?_ ?_ ?_
  · have sent : ∀ {slot : ℕ} {e : RoutingEntry} {a : LSA} {l : LinkEntry},
        (w.daemon x).rt.table[slot]? = some e → e.lsa = some a → ∀ h ∈ sends x [rtSendto a l e.lsaSize],
          ∃ b, h.Carries b ∧ Made (w.after x out d) b := by
      intro slot e a l he ha h hh
      obtain ⟨n, hn⟩ := carries_stored (hl.sound x) he ha l hh
      obtain ⟨y, hy⟩ : Made (w.after x out d) a := (hi.stored x e (List.mem_of_getElem? he) a ha).after g
      exact ⟨_, hn, y, hy.cut n⟩
    cases h with
    | send ok => exact sent ok.entry ok.stored
    | resend ok checker pending budget => exact sent ok.entry ok.stored
    | _ => simp [sends]
  · intro e he a ha
    rcases created_tick h he ha with ⟨e, he, ha⟩ | ⟨⟨fresh, size, packet⟩, count⟩
    · exact (hi.stored x e he a ha).after g
    · refine ⟨x, ?_⟩
      rw [after_daemon_self]
      exact madeBy_flood (hi.numbers x) packet g (nextSequence_eq_ok count)
  · intro e he
    refine nodes_reshapes (T := fun a _ _ => ∃ x, a.senderNodeId = (N.self x).id) (fun _ _ _ h => h)
      (hi.nodes x) (.inl (evolves_tick (fun fresh lsa size packet => ⟨x, ?_⟩) h)) he
    rw [(createPacket_lsa packet).2.1, hl.myNodeId]
  · intro s v hv
    rcases (tick_objects h).2.2 with hg | ⟨n, -, hg⟩
    · rw [hg] at hv
      exact (hi.objects x s v hv).after g
    · rw [hg, (hashRemoveNode_spec (hl.sound x).consistent n).2, ObjMap.withdraw,
        Option.map_eq_some_iff] at hv
      obtain ⟨v', hv', rfl⟩ := hv
      obtain ⟨h1, h2⟩ : Provided N (w.after x out d) s v' := (hi.objects x s v' hv').after g
      refine ⟨h1, fun p hp => h2 p ?_⟩
      unfold withdrawPath at hp
      split_ifs at hp
      exact hp

theorem originated_handled (hl : Lawful N w) (hi : Originated N w) {g : Datagram ι} (sent : g ∈ w.wire)
    {fresh : Fresh} {lsa : LSA} {f : Int32} {size : ℕ}
    (recv : rtRecvfrom (w.daemon x).dl (g.received N) = .ok (some (lsa, f, size)))
    (h : Handled (w.daemon x) fresh lsa f size out d) : Originated N (w.after x out d) := by
  have grown := grown_handled h
  obtain ⟨a, hc, ha⟩ := hi.wire g sent
  obtain rfl := (received_carries recv).unique hc
  have ha' : Made (w.after x out d) lsa := ha.after grown
  have hacc : Made (w.after x out d) (acceptedLsa lsa) := by
    obtain ⟨y, hy⟩ := ha'
    exact ⟨y, hy.header _⟩
  refine hi.after grown ?_ ?_ ?_ ?_
  · cases h with
    | accepted type newer link update objects =>
      intro g' hg'
      obtain ⟨host, port, bytes, hm, rfl⟩ := mem_sends.mp hg'
      simp only [rtSendto, List.mem_cons, List.not_mem_nil, or_false, reduceCtorEq,
        Effect.sendto.injEq] at hm
      obtain ⟨rfl, rfl, rfl⟩ := hm
      obtain ⟨y, hy⟩ := ha'
      exact ⟨_, carries_rtSendto _ (rtRecvfrom_size recv), y, (hy.header _).cut _⟩
    | _ => simp [sends]
  · intro e he b hb
    rcases lsa_handled h he hb with ⟨e, he, hb⟩ | ⟨rfl, -⟩
    · exact (hi.stored x e he b hb).after grown
    · exact hacc
  · intro e he
    refine nodes_reshapes (T := fun a _ _ => ∃ x, a.senderNodeId = (N.self x).id) (fun _ _ _ h => h)
      (hi.nodes x) (reshapes_handled (fun _ => ?_) h) he
    obtain ⟨y, hy⟩ := ha
    exact ⟨y, by rw [← hl.myNodeId y]; exact hy.sender⟩
  · intro s v hv
    have old : ∀ v, view superFastHash (w.daemon x).gol s = some v → Provided N (w.after x out d) s v :=
      fun v hv => (hi.objects x s v hv).after grown
    rcases (handled_objects h).2.2 with hg | ⟨-, hstore⟩
    · rw [hg] at hv
      exact old v hv
    · obtain ⟨-, names, hn, hview⟩ := storeNodeObjects_view (hl.sound x).consistent hstore
      rw [hview, ObjMap.announceAll_apply] at hv
      split_ifs at hv with hs
      · -- the name is one of the node that made the LSA
        obtain ⟨y, hy⟩ := ha
        have hname : s ∈ localNames (w.daemon y) := (hy.header _).names (hl.sound y) hn s hs
        have hprov : Provided N w s (some ⟨lsa.senderNodeId, lsaCost (acceptedLsa lsa)⟩) := by
          refine ⟨⟨y, hname⟩, fun p hp => ⟨y, ?_, hname⟩⟩
          cases hp
          rw [hy.sender, hl.myNodeId]
        obtain rfl := Option.some.inj hv
        rcases announcePath_cases (view superFastHash (w.daemon x).gol s)
          ⟨lsa.senderNodeId, lsaCost (acceptedLsa lsa)⟩ with hnew | hold
        · rw [show (acceptedLsa lsa).senderNodeId = lsa.senderNodeId from rfl, hnew]
          exact hprov.after grown
        · exact old _ hold
      · exact old v hv

theorem originated_added (hl : Lawful N w) (hi : Originated N w) {o : ObjectEntry}
    (h : Added (w.daemon x) o d) : Originated N (w.after x [] d) := by
  have grown := h.grown
  have hrt : d.rt = (w.daemon x).rt := by rw [h.rest]
  refine hi.after grown (by simp [sends]) ?_ ?_ ?_
  · intro e he a ha
    rw [hrt] at he
    exact (hi.stored x e he a ha).after grown
  · intro e he
    rw [hrt] at he
    exact hi.nodes x e he
  · intro s v hv
    obtain ⟨-, hview⟩ := hashAdd_spec (hl.sound x).consistent h.gol
    rw [hview] at hv
    by_cases hs : s = o.name.1
    · subst hs
      have hname : o.name.1 ∈ localNames d := by
        rw [localNames, h.ol, List.map_append]
        exact List.mem_append_right _ (List.mem_singleton_self _)
      have hhere : o.name.1 ∈ localNames ((w.after x [] d).daemon x) := by rwa [after_daemon_self]
      rw [ObjMap.announce_self] at hv
      obtain rfl := Option.some.inj hv
      rcases announcePath_cases (view superFastHash (w.daemon x).gol o.name.1)
        ⟨(w.daemon x).myNodeId, 0⟩ with hnew | hold
      · rw [hnew]
        refine ⟨⟨x, hhere⟩, fun p hp => ⟨x, ?_, hhere⟩⟩
        cases hp
        exact (hl.myNodeId x).symm
      · exact (hi.objects x _ _ hold).after grown
    · rw [ObjMap.announce_of_ne hs] at hv
      exact (hi.objects x s v hv).after grown

/-- **Every step of a network keeps it so.** -/
theorem originated_step {w' : World ι} {l : ι × Event × List Effect} (hl : Lawful N w)
    (hi : Originated N w) (h : (network N ok).step w l w') : Originated N w' := by
  obtain ⟨x, ev, out⟩ := l
  obtain ⟨hp, d, ha, rfl⟩ := h
  cases ev with
  | timeout fresh =>
    have key := (after_trail (timeout_trail ha)).preserves (I := fun w => Lawful N w ∧ Originated N w) ?_
      ⟨hl, hi⟩
    · exact key.2
    · rintro w out _ ⟨hl, hi⟩ ⟨d, ht, rfl⟩
      have hm : NetMicro N ok x w out (w.after x out d) := .tick ht
      exact ⟨lawful_micro hl hm, originated_tick hl hi ht⟩
  | datagram r fresh =>
    obtain ⟨g, hg, -, -, rfl⟩ := hp
    obtain ⟨lsa, f, size, recv, hh⟩ := receive_handled ha
    exact originated_handled hl hi hg recv hh
  | request c uri opened =>
    obtain ⟨rfl, rfl | ⟨o, hadd⟩⟩ := request_added ha
    · rw [after_nil]
      exact hi
    · exact originated_added hl hi hadd

theorem paths_boot {f : Files} {d : Daemon} (h : boot f = .ok d) : Consistent superFastHash d.gol ∧
    ForallPaths superFastHash d.gol fun p => p = ⟨d.myNodeId, 0⟩ := by
  obtain ⟨-, -, -, -, -, hload⟩ := boot_eq_ok h
  refine loadNodeFile_invariant (I := fun g => Consistent superFastHash g ∧
    ForallPaths superFastHash g fun p => p = ⟨d.myNodeId, 0⟩) ?_
    ⟨consistent_initHash, forallPaths_initHash⟩ hload
  exact fun g s g' hg h1 => ⟨(hashAdd_spec hg.1 h1).1, hg.2.hashAdd hg.1 h1 rfl⟩

theorem originated_init (h : (network N ok).init w) : Originated N w where
  wire g hg := by
    rw [h.1] at hg
    cases hg
  stored y e he a ha := by
    rw [(boot_eq_ok (h.2 y)).2.1] at he
    obtain ⟨i, hi, rfl⟩ := List.mem_mapIdx.mp he
    cases ha
  nodes y e he := by
    rw [(boot_eq_ok (h.2 y)).2.1] at he
    obtain ⟨i, hi, rfl⟩ := List.mem_mapIdx.mp he
    have hm : (N.files y).rows[i] ∈ (N.files y).rows := List.getElem_mem hi
    rcases List.mem_cons.mp hm with hs | hm
    · exact ⟨y, congrArg LinkEntry.id hs⟩
    · obtain ⟨z, -, hz⟩ := List.mem_map.mp hm
      exact ⟨z, congrArg LinkEntry.id hz.symm⟩
  objects y s v hs := by
    obtain ⟨-, -, hid, -, -, hload⟩ := boot_eq_ok (h.2 y)
    have hnone : ∀ s, view superFastHash initHash s = none := fun s => by rw [view_initHash]; rfl
    obtain ⟨-, hlist⟩ := loadNodeFile_listed consistent_initHash (fun s hs => absurd (hnone s) hs) hload
    obtain ⟨o, ho, hname⟩ := hlist s (by rw [hs]; exact Option.some_ne_none v)
    have hlocal : s ∈ localNames (w.daemon y) := List.mem_map.mpr ⟨o, ho, hname⟩
    refine ⟨⟨y, hlocal⟩, fun p hp => ⟨y, ?_, hlocal⟩⟩
    rw [hp] at hs
    rw [(paths_boot (h.2 y)).2 s p hs, hid]
    rfl
  numbers x := by
    rw [(boot_eq_ok (h.2 x)).2.2.2.1]
    decide

end Step

/-! ### The results -/

section Results

variable [DecidableEq ι] {ok : List UInt8 → Prop} {w : World ι}

theorem originated_reachable (hv : N.Distinct) (r : (network N ok).Reachable w) :
    Lawful N w ∧ Originated N w := by
  refine r.invariant (I := fun w => Lawful N w ∧ Originated N w)
    (fun w h => ⟨lawful_init hv h, originated_init h⟩) ?_
  rintro w l w' ⟨hl, hi⟩ h
  refine ⟨?_, originated_step hl hi h⟩
  exact (network_trail h).preserves (I := Lawful N) (fun _ _ _ hl hm => lawful_micro hl hm) hl

/-- **Nothing is forged.** Whatever is lost, duplicated or reordered, every packet on the wire and every
stored LSA is a copy of an LSA that the node it names has flooded: with the number of that flood, the objects
that the node had then, and possibly another header word and fewer bytes. -/
theorem nothing_forged (hv : N.Distinct) (r : (network N ok).Reachable w) :
    (∀ g ∈ w.wire, ∃ a, g.Carries a ∧ ∃ x, a.senderNodeId = (N.self x).id ∧ MadeBy (w.daemon x) a) ∧
      ∀ y, ∀ e ∈ (w.daemon y).rt.table, ∀ a, e.lsa = some a →
        ∃ x, a.senderNodeId = (N.self x).id ∧ MadeBy (w.daemon x) a := by
  obtain ⟨hl, hi⟩ := originated_reachable hv r
  have key : ∀ a, Made w a → ∃ x, a.senderNodeId = (N.self x).id ∧ MadeBy (w.daemon x) a := by
    rintro a ⟨x, hx⟩
    exact ⟨x, by rw [hx.sender, hl.myNodeId], hx⟩
  refine ⟨fun g hg => ?_, fun y e he a ha => key a (hi.stored y e he a ha)⟩
  obtain ⟨a, hc, ha⟩ := hi.wire g hg
  exact ⟨a, hc, key a ha⟩

/-- **No phantoms.** Every entry of a routing table is that of a node; a name that an object table knows is
that of an object at some node, and a path leads to a node that has it; so a daemon serves only what its
node has, and answers NOTFOUND for what no node has. -/
theorem no_phantoms (hv : N.Distinct) (r : (network N ok).Reachable w) :
    (∀ y, ∀ e ∈ (w.daemon y).rt.table, ∃ x, e.id = (N.self x).id) ∧
    (∀ y s v, view superFastHash (w.daemon y).gol s = some v → Provided N w s v) ∧
    (∀ y s, rdgetTarget (w.daemon y) s = .ok .here → s ∈ localNames (w.daemon y)) ∧
    ∀ s, (∀ x, s ∉ localNames (w.daemon x)) → ∀ y, rdgetTarget (w.daemon y) s = .ok .notFound := by
  obtain ⟨hl, hi⟩ := originated_reachable hv r
  refine ⟨hi.nodes, hi.objects, fun y s h => ?_, fun s hs y => ?_⟩
  · obtain ⟨p, hp, hid⟩ := rdgetTarget_here (hl.sound y).consistent h
    obtain ⟨x, hx, hname⟩ := (hi.objects y s _ hp).2 p rfl
    have hxy : x = y := hv.ids (hx.trans (hid.trans (hl.myNodeId y)))
    exact hxy ▸ hname
  · unfold rdgetTarget
    rw [getPaths_eq (hl.sound y).consistent]
    cases hp : view superFastHash (w.daemon y).gol s with
    | none => rfl
    | some v =>
      obtain ⟨⟨x, hx⟩, -⟩ := hi.objects y s v hp
      exact absurd hx (hs x)

/-- Node 1 floods, and node 2 hears it. -/
def heardRun : List (Move (Fin 3)) := List.replicate 6 (.tick 0) ++ [.deliver 1 0]

theorem exists_heardRun : ∃ w, (network triangleNet fun _ => True).Reachable w ∧ w.wire ≠ [] ∧
    view superFastHash (w.daemon 1).gol (lit "o") ≠ none := by
  have key : (System.follow (World.move triangleNet fun _ => True) heardRun
      (triangleNet.start triangleNet_boots)).map (fun p => decide (p.2.wire ≠ []) &&
        (view superFastHash (p.2.daemon 1).gol (lit "o")).isSome) = some true := by
    decide +kernel
  obtain ⟨⟨ls, w⟩, h, key⟩ := Option.map_eq_some_iff.mp key
  simp only [Bool.and_eq_true, decide_eq_true_eq] at key
  have r := (System.Run.init (init_start triangleNet_boots)).follow (fun _ _ _ _ => step_move) h
  exact ⟨w, ⟨_, r⟩, key.1, Option.isSome_iff_ne_none.mp key.2⟩

theorem nothing_forged_heardRun : ∃ w, (network triangleNet fun _ => True).Reachable w ∧
    ∃ g ∈ w.wire, ∃ a x, g.Carries a ∧ MadeBy (w.daemon x) a := by
  obtain ⟨w, r, hw, -⟩ := exists_heardRun
  obtain ⟨g, hg⟩ := List.exists_mem_of_ne_nil _ hw
  obtain ⟨a, hc, x, -, hx⟩ := (nothing_forged triangleNet_valid.toDistinct r).1 g hg
  exact ⟨w, r, g, hg, a, x, hc, hx⟩

theorem no_phantoms_heardRun : ∃ w, (network triangleNet fun _ => True).Reachable w ∧
    (∃ x, lit "o" ∈ localNames (w.daemon x)) ∧
      ((∀ x, lit "p" ∉ localNames (w.daemon x)) →
        rdgetTarget (w.daemon 2) (lit "p") = .ok .notFound) := by
  obtain ⟨w, r, -, hv⟩ := exists_heardRun
  obtain ⟨v, hv⟩ := Option.ne_none_iff_exists'.mp hv
  obtain ⟨-, hobjects, -, hnot⟩ := no_phantoms triangleNet_valid.toDistinct r
  exact ⟨w, r, (hobjects 1 _ v hv).1, fun h => hnot _ h 2⟩

end Results

end RoutingDaemon
