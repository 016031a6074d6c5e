import RoutingDaemon.DaemonInvariant

/-!
# Networks of daemons

* `Net`, `Net.Valid`: a network with symmetric links, distinct ids and distinct hosts.
* `World`: the daemons and the datagrams sent so far. The wire only grows and any sent datagram may
  be delivered at any time, so runs include every loss, duplication and reordering.
* `network`: all runs; the parameter says which datagrams may be delivered.
* `NetMicro`, `network_trail`: steps, unrolled; `Lawful`: every daemon is sound;
  `network_invariant`: the invariant rule.
-/

namespace RoutingDaemon

/-- A network: how every node is configured. -/
structure Net (ι : Type) where
  self : ι → LinkEntry
  nbrs : ι → List ι
  hostname : ι → CString
  lines : ι → List (CString × CString)
  filefile : ι → List UInt8

variable {ι : Type}

/-- The files of a node: its configuration lists itself, then its neighbours. -/
def Net.files (N : Net ι) (x : ι) : Files :=
  ⟨N.self x :: (N.nbrs x).map N.self, N.hostname x, N.lines x, N.filefile x⟩

/-- Distinct ids, and no configuration that lists a node twice. -/
structure Net.Distinct (N : Net ι) : Prop where
  ids : Function.Injective fun x => (N.self x).id
  simple : ∀ x, (x :: N.nbrs x).Nodup

/-- Distinct ids and hosts. -/
structure Net.Valid (N : Net ι) : Prop extends N.Distinct where
  hosts : Function.Injective fun x => (N.self x).host.1

/-- Links are configured at both ends. -/
def Net.Symmetric (N : Net ι) : Prop := ∀ x, ∀ y ∈ N.nbrs x, x ∈ N.nbrs y

theorem Net.Distinct.configured {N : Net ι} (hv : N.Distinct) (x : ι) : Configured (N.files x) where
  own := List.cons_ne_nil _ _
  distinct := by
    have h : (N.files x).rows.map LinkEntry.id = (x :: N.nbrs x).map fun y => (N.self y).id := by
      simp [Net.files, Function.comp_def]
    rw [h]
    exact (hv.simple x).map hv.ids

/-- A datagram on its way. -/
structure Datagram (ι : Type) where
  src : ι
  host : CString
  port : Int32
  bytes : List UInt8
  deriving DecidableEq

/-- All daemons, and all datagrams sent so far. -/
structure World (ι : Type) where
  daemon : ι → Daemon
  wire : List (Datagram ι)

/-- The datagrams among some effects. -/
def sends (x : ι) (out : List Effect) : List (Datagram ι) :=
  out.filterMap fun
    | .sendto host port bytes => some ⟨x, host, port, bytes⟩
    | _ => none

theorem sends_append (x : ι) (xs ys : List Effect) :
    sends x (xs ++ ys) = sends x xs ++ sends x ys := List.filterMap_append ..

/-- A datagram is addressed to a node. -/
def Datagram.To (N : Net ι) (g : Datagram ι) (x : ι) : Prop :=
  g.host = (N.self x).host.1 ∧ g.port = (N.self x).routeP

/-- What `recvfrom` gets of a datagram. -/
def Datagram.received (N : Net ι) (g : Datagram ι) : Received :=
  .got (N.self g.src).host.1 g.bytes

/-- What a node handles may happen now: a datagram was sent to it, and may be delivered. -/
def Possible (N : Net ι) (ok : List UInt8 → Prop) (w : World ι) (x : ι) : Event → Prop
  | .datagram r _ => ∃ g ∈ w.wire, g.To N x ∧ ok g.bytes ∧ r = g.received N
  | _ => True

section Steps

variable [DecidableEq ι]

/-- The world after a step of node `x`. -/
def World.after (w : World ι) (x : ι) (out : List Effect) (d : Daemon) : World ι :=
  ⟨Function.update w.daemon x d, w.wire ++ sends x out⟩

/-- The runs of a network. No daemon restarts. -/
def network (N : Net ι) (ok : List UInt8 → Prop) : System (World ι) (ι × Event × List Effect) where
  init w := w.wire = [] ∧ ∀ x, boot (N.files x) = .ok (w.daemon x)
  step w l w' := Possible N ok w l.1 l.2.1 ∧
    ∃ d, act l.2.1 (w.daemon l.1) = .ok (d, l.2.2) ∧ w' = w.after l.1 l.2.2 d

/-! ### Steps, unrolled -/

/-- The small steps of node `x` in a network. -/
inductive NetMicro (N : Net ι) (ok : List UInt8 → Prop) (x : ι) :
    World ι → List Effect → World ι → Prop
  | tick {w : World ι} {out : List Effect} {d : Daemon} (h : Tick (w.daemon x) out d) :
      NetMicro N ok x w out (w.after x out d)
  | receive {w : World ι} {g : Datagram ι} {fresh : Fresh} {lsa : LSA} {f : Int32} {size : ℕ}
      {out : List Effect} {d : Daemon} (sent : g ∈ w.wire) (here : g.To N x) (admitted : ok g.bytes)
      (recv : rtRecvfrom (w.daemon x).dl (g.received N) = .ok (some (lsa, f, size)))
      (h : Handled (w.daemon x) fresh lsa f size out d) : NetMicro N ok x w out (w.after x out d)
  | add {w : World ι} {name : CString} {gol : LisoHash} {ol : LocalObjects} {file : List UInt8}
      (objects : hashAdd superFastHash (w.daemon x).gol name (w.daemon x).myNodeId 0 = .ok gol) :
      NetMicro N ok x w [] (w.after x [] { w.daemon x with gol := gol, ol := ol, filefile := file })

variable {N : Net ι} {ok : List UInt8 → Prop} {x : ι}

@[simp] theorem after_daemon_self (w : World ι) (out : List Effect) (d : Daemon) :
    (w.after x out d).daemon x = d := Function.update_self ..

theorem after_daemon_of_ne {y : ι} (h : y ≠ x) (w : World ι) (out : List Effect) (d : Daemon) :
    (w.after x out d).daemon y = w.daemon y := Function.update_of_ne h ..

theorem forall_after {P : ι → Daemon → Prop} {w : World ι} {out : List Effect} {d : Daemon}
    (hx : P x d) (h : ∀ y, P y (w.daemon y)) (y : ι) : P y ((w.after x out d).daemon y) :=
  (Function.forall_update_iff _ P).mpr ⟨hx, fun y _ => h y⟩ y

theorem after_nil (w : World ι) : w.after x [] (w.daemon x) = w := by
  simp [World.after, sends]

theorem after_after (w : World ι) (xs ys : List Effect) (d d' : Daemon) :
    (w.after x xs d).after x ys d' = w.after x (xs ++ ys) d' := by
  simp [World.after, sends_append]

theorem NetMicro.micro {w w' : World ι} {out : List Effect} (h : NetMicro N ok x w out w') :
    ∃ d, Micro (w.daemon x) out d ∧ w' = w.after x out d := by
  cases h with
  | tick h => exact ⟨_, .tick h, rfl⟩
  | receive sent here admitted recv h => exact ⟨_, .receive recv h, rfl⟩
  | add objects => exact ⟨_, .add objects, rfl⟩

theorem after_trail {R : Daemon → List Effect → Daemon → Prop} {w : World ι} {out : List Effect}
    {d : Daemon} (h : Trail R (w.daemon x) out d) :
    Trail (fun w out w' => ∃ d, R (w.daemon x) out d ∧ w' = w.after x out d) w out
      (w.after x out d) := by
  generalize hd : w.daemon x = d₀ at h
  induction h with
  | refl =>
    subst hd
    rw [after_nil]
    exact .refl w
  | @tail t u xs ys _ h1 ih =>
    rw [← after_after w xs ys t u]
    exact ih.tail ⟨u, by rwa [after_daemon_self], rfl⟩

theorem tick_netTrail {w : World ι} {out : List Effect} {d : Daemon}
    (h : Trail Tick (w.daemon x) out d) : Trail (NetMicro N ok x) w out (w.after x out d) := by
  refine (after_trail h).mono ?_
  rintro w out _ ⟨d, hd, rfl⟩
  exact .tick hd

/-- **A step of the network is a trail of small steps.** -/
theorem network_trail {w w' : World ι} {l : ι × Event × List Effect}
    (h : (network N ok).step w l w') : Trail (NetMicro N ok l.1) w l.2.2 w' := by
  obtain ⟨x, ev, out⟩ := l
  obtain ⟨hp, d, ha, rfl⟩ := h
  cases ev with
  | timeout fresh => exact tick_netTrail (timeout_trail ha)
  | datagram r fresh =>
    obtain ⟨g, hg, hto, hok, rfl⟩ := hp
    obtain ⟨_, _, _, recv, hh⟩ := receive_handled ha
    exact .single (.receive hg hto hok recv hh)
  | request c uri opened =>
    obtain ⟨hout, hd | ⟨name, gol, ol, file, hg, hd⟩⟩ := request_cases ha <;>
      dsimp only at hout hd ⊢ <;> subst hout hd
    · rw [after_nil]
      exact .refl w
    · exact .single (.add hg)

/-! ### Invariants -/

/-- Every daemon is sound, and has the links of its node. -/
structure Lawful (N : Net ι) (w : World ι) : Prop where
  sound : ∀ x, Sound (w.daemon x)
  links : ∀ x, (w.daemon x).dl.links = (N.files x).rows

theorem lawful_init (hv : N.Distinct) {w : World ι} (h : (network N ok).init w) : Lawful N w where
  sound x := sound_boot (hv.configured x) (h.2 x)
  links x := (boot_eq_ok (h.2 x)).1

omit [DecidableEq ι] in
theorem Lawful.exists_node {w : World ι} (hl : Lawful N w) {l : LinkEntry}
    (h : l ∈ (w.daemon x).dl.links) : ∃ y, N.self y = l := by
  rw [hl.links x] at h
  rcases List.mem_cons.mp h with rfl | hm
  · exact ⟨x, rfl⟩
  · obtain ⟨y, -, hy⟩ := List.mem_map.mp hm
    exact ⟨y, hy⟩

theorem lawful_micro {w w' : World ι} {out : List Effect} (hl : Lawful N w)
    (h : NetMicro N ok x w out w') : Lawful N w' := by
  obtain ⟨d, hm, rfl⟩ := h.micro
  refine ⟨forall_after (P := fun _ d => Sound d) (sound_micro (hl.sound x) hm) hl.sound,
    forall_after (P := fun y d => d.dl.links = (N.files y).rows) ?_ hl.links⟩
  rw [(micro_static hm).1]
  exact hl.links x

/-- **Invariant rule for networks.** -/
theorem network_invariant (hv : N.Distinct) {I : World ι → Prop}
    (h0 : ∀ w, (network N ok).init w → I w)
    (hs : ∀ x w out w', Lawful N w → I w → NetMicro N ok x w out w' → I w') {w : World ι}
    (r : (network N ok).Reachable w) : Lawful N w ∧ I w :=
  r.invariant (I := fun w => Lawful N w ∧ I w) (fun w h => ⟨lawful_init hv h, h0 w h⟩)
    fun _ _ _ hi h => (network_trail h).preserves (I := fun w => Lawful N w ∧ I w)
      (fun _ _ _ hi hm => ⟨lawful_micro hi.1 hm, hs _ _ _ _ hi.1 hi.2 hm⟩) hi

end Steps

/-- **Every daemon of a network runs as a daemon on its own.** -/
theorem network_daemon [DecidableEq ι] {N : Net ι} {ok : List UInt8 → Prop} {w : World ι}
    (r : (network N ok).Reachable w) (x : ι) :
    (daemonSystem (N.files x)).Reachable (w.daemon x) := by
  have h0 : ∀ w : World ι, (network N ok).init w →
      (daemonSystem (N.files x)).init (w.daemon x) := fun w h => h.2 x
  refine r.map (f := fun w => w.daemon x) h0 ?_
  rintro w ⟨y, l⟩ w' ⟨-, d, ha, rfl⟩
  by_cases hy : x = y
  · subst hy
    exact .inr ⟨l, by rw [after_daemon_self]; exact ha⟩
  · exact .inl (after_daemon_of_ne hy ..)

/-! ### What is on the wire -/

/-- The packet that a receiver reads from a datagram. -/
def Datagram.Carries (g : Datagram ι) (lsa : LSA) : Prop :=
  bytesToPacket (g.bytes.take maxLsaLen) = .ok lsa

theorem Datagram.Carries.unique {g : Datagram ι} {a b : LSA} (ha : g.Carries a)
    (hb : g.Carries b) : a = b := by
  unfold Datagram.Carries at ha hb
  rw [ha, Except.ok.injEq] at hb
  exact hb

theorem carries_rtSendto (p : LSA) {size : ℕ} (hs : sizeofLsa ≤ size) :
    bytesToPacket ((p.bytes.take size).take maxLsaLen) =
      .ok { p with linksObjects := p.linksObjects.take (min maxLsaLen size - sizeofLsa) } := by
  have h : sizeofLsa ≤ min maxLsaLen size := le_min (by decide) hs
  rw [List.take_take, bytesToPacket_bytes_take p h]

section Wire

variable {N : Net ι} {ok : List UInt8 → Prop} {x : ι} {w w' : World ι} {out : List Effect}

theorem received_carries {d : Daemon} {g : Datagram ι} {lsa : LSA} {f : Int32} {size : ℕ}
    (recv : rtRecvfrom d.dl (g.received N) = .ok (some (lsa, f, size))) : g.Carries lsa := by
  obtain ⟨_, buf, _, hr, -, hp, -⟩ := rtRecvfrom_eq_ok recv
  cases hr
  exact hp

theorem received_from (hv : N.Valid) (hl : Lawful N w) {g : Datagram ι} {lsa : LSA} {f : Int32}
    {size : ℕ} (recv : rtRecvfrom (w.daemon x).dl (g.received N) = .ok (some (lsa, f, size))) :
    g.Carries lsa ∧ g.src ∈ N.nbrs x ∧ f = (N.self g.src).id := by
  refine ⟨received_carries recv, ?_⟩
  obtain ⟨a, buf, l, hr, -, hp, hf, hid, -⟩ := rtRecvfrom_eq_ok recv
  cases hr
  rw [lookupLinkEntry, hl.links x, Net.files, List.tail_cons] at hf
  obtain ⟨y, hy, rfl⟩ := List.mem_map.mp (List.mem_of_find?_eq_some hf)
  have hh := List.find?_some hf
  simp only [decide_eq_true_eq] at hh
  have hy' : y = g.src := hv.hosts hh
  subst hy'
  exact ⟨hy, hid⟩

/-- The LSAs that node `x` stores: its own, and those that arrive. -/
inductive NetStores (N : Net ι) (ok : List UInt8 → Prop) (w : World ι) (x : ι) :
    LSA → ℕ → Int32 → Prop
  | own {fresh : Fresh} {lsa : LSA} {size : ℕ} (packet : createPacket fresh typeLsa
      (w.daemon x).myNodeId (w.daemon x).sequenceNumber (w.daemon x).dl (w.daemon x).ol =
        .ok (lsa, size)) : NetStores N ok w x lsa size (w.daemon x).myNodeId
  | arrived {g : Datagram ι} {lsa : LSA} {size : ℕ} (sent : g ∈ w.wire) (here : g.To N x)
      (admitted : ok g.bytes) (carries : g.Carries lsa) (nbr : g.src ∈ N.nbrs x)
      (type : getType lsa.versionTtlType = typeLsa) :
      NetStores N ok w x (acceptedLsa lsa) size (N.self g.src).id

variable [DecidableEq ι] in
theorem reshapes_netMicro (hv : N.Valid) (hl : Lawful N w) (h : NetMicro N ok x w out w') :
    Reshapes (NetStores N ok w x) (w.daemon x) (w'.daemon x).rt := by
  cases h with
  | tick h => rw [after_daemon_self]; exact .inl (evolves_tick (fun _ _ _ => .own) h)
  | receive sent here admitted recv h =>
    obtain ⟨hc, hn, rfl⟩ := received_from hv hl recv
    rw [after_daemon_self]
    exact reshapes_handled (.arrived sent here admitted hc hn) h
  | add objects => rw [after_daemon_self]; exact .inl (.refl _ _)

/-- A stored LSA is sent, or an ACK. -/
def SentBy (w : World ι) (x : ι) (g : Datagram ι) : Prop :=
  g.src = x ∧ ((∃ e ∈ (w.daemon x).rt.table, ∃ a, e.lsa = some a ∧
    ∃ n, g.Carries { a with linksObjects := a.linksObjects.take n }) ∨
      ∃ a, g.Carries a ∧ getType a.versionTtlType = typeAck)

theorem mem_sends {g : Datagram ι} : g ∈ sends x out ↔
    ∃ host port bytes, .sendto host port bytes ∈ out ∧ g = ⟨x, host, port, bytes⟩ := by
  unfold sends
  rw [List.mem_filterMap]
  constructor
  · rintro ⟨e, he, h⟩
    cases e with
    | sendto host port bytes => exact ⟨host, port, bytes, he, (Option.some.inj h).symm⟩
    | _ => cases h
  · rintro ⟨host, port, bytes, he, rfl⟩
    exact ⟨_, he, rfl⟩

theorem sentBy_stored (hl : Lawful N w) {d : Daemon} (hd : w.daemon x = d) {slot : ℕ}
    {s : RoutingEntry} {lsa : LSA} (hs : d.rt.table[slot]? = some s) (hlsa : s.lsa = some lsa)
    (l : LinkEntry) {g : Datagram ι} (hg : g ∈ sends x [rtSendto lsa l s.lsaSize]) :
    SentBy w x g := by
  subst hd
  obtain ⟨host, port, bytes, he, rfl⟩ := mem_sends.mp hg
  rw [List.mem_singleton, rtSendto] at he
  cases he
  have hz := (((hl.sound x).entry slot s hs).sender lsa hlsa).2.2
  refine ⟨rfl, .inl ⟨s, List.mem_of_getElem? hs, lsa, hlsa, _, carries_rtSendto lsa ?_⟩⟩
  rw [hz, length_bytes]
  exact Nat.le_add_right _ _

theorem sentBy_tick (hl : Lawful N w) {d : Daemon} (h : Tick (w.daemon x) out d) {g : Datagram ι}
    (hg : g ∈ sends x out) : SentBy w x g := by
  cases h with
  | send ok => exact sentBy_stored hl rfl ok.entry ok.stored _ hg
  | resend ok checker pending budget => exact sentBy_stored hl rfl ok.entry ok.stored _ hg
  | _ => simp [sends] at hg

theorem sentBy_handled {d : Daemon} {fresh : Fresh} {lsa : LSA} {f : Int32} {size : ℕ}
    (hs : sizeofLsa ≤ size) (h : Handled (w.daemon x) fresh lsa f size out d) {g : Datagram ι}
    (hg : g ∈ sends x out) : SentBy w x g := by
  cases h with
  | accepted type newer link update objects =>
    obtain ⟨host, port, bytes, he, rfl⟩ := mem_sends.mp hg
    simp only [rtSendto, List.mem_cons, List.not_mem_nil, or_false, reduceCtorEq,
      Effect.sendto.injEq] at he
    obtain ⟨rfl, rfl, rfl⟩ := he
    exact ⟨rfl, .inr ⟨_, carries_rtSendto _ hs, getType_setType_ack _⟩⟩
  | _ => simp [sends] at hg

variable [DecidableEq ι] in
/-- **What a small step adds to the wire.** -/
theorem sentBy_netMicro (hl : Lawful N w) (h : NetMicro N ok x w out w') {g : Datagram ι}
    (hg : g ∈ w'.wire) : g ∈ w.wire ∨ SentBy w x g := by
  have key : g ∈ sends x out → SentBy w x g := by
    clear hg
    intro hg
    cases h with
    | tick h => exact sentBy_tick hl h hg
    | receive sent here admitted recv h => exact sentBy_handled (rtRecvfrom_size recv) h hg
    | add objects => simp [sends] at hg
  obtain ⟨d, -, rfl⟩ := h.micro
  exact (List.mem_append.mp hg).imp_right key

end Wire

end RoutingDaemon
