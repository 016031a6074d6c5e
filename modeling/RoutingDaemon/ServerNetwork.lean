import RoutingDaemon.EventLoop
import RoutingDaemon.OwnAdvertisement

/-!
# Networks of servers

* `Serves`: what a handler of the engine does to its daemon and its connections; `handle_serves`.
* `Servers`: the engines of all nodes, and the datagrams sent so far; `serverNetwork`: all runs, one
  handler at a time.
* `world_step`, `world_reachable`: a run of the servers is a run of their daemons.
* `restartServers`: the runs in which servers also restart; `sound_restartServers`.
-/

namespace RoutingDaemon

/-! ### What a handler does -/

/-- The request that a connection holds after `recv`. -/
inductive Requested (c : TcpConnection) : Recv → TcpConnection → Prop
  | got {data buf : List UInt8} {c₁ c₂ : TcpConnection} (received : c.receive buf = .ok c₁)
      (parsed : processBuffer c₁ = .ok c₂) : Requested c (.got data) c₂
  | failed : Requested c .failed { c with status := 500 }

/-- The pass of the daemon in a handler. -/
def daemonPass : ConnectionEvent → Option Event
  | .datagram r fresh => some (.datagram r fresh)
  | .timeout fresh => some (.timeout fresh)
  | _ => none

/-- The daemon and the connections after a handler. -/
inductive Serves (e : Engine) : ConnectionEvent → Daemon → (ℕ → TcpConnection) → Prop
  /-- nothing was accepted -/
  | idle {a : Accept} : Serves e (.accept a) e.daemon e.connections
  /-- a connection is initialised, when it is accepted or closed -/
  | init {ev : ConnectionEvent} (i : ℕ) {c : TcpConnection} (other : daemonPass ev = none)
      (name : c.name = blankBuf) (path : c.path = blankBuf) :
      Serves e ev e.daemon (Function.update e.connections i c)
  /-- a request is answered -/
  | answered {i : ℕ} {r : Recv} {uri : List UInt8} {opened : Bool} {c c' : TcpConnection} {d : Daemon}
      (request : Requested (e.connections i) r c)
      (answer : buildResponse uri opened e.daemon c = .ok (d, c')) :
      Serves e (.read i r uri opened) d (Function.update e.connections i c')
  /-- the daemon makes a pass of its own -/
  | pass {ev : ConnectionEvent} {p : Event} {d : Daemon} {out : List Effect}
      (own : daemonPass ev = some p) (act : act p e.daemon = .ok (d, out)) : Serves e ev d e.connections

section Handlers

variable {e e' : Engine} {i : ℕ} {ret : ℤ}

theorem answer_serves {uri : List UInt8} {opened : Bool} {r : Recv} {c : TcpConnection}
    (hr : Requested (e.connections i) r c) (h : e.answer i uri opened c = .ok (e', ret)) :
    Serves e (.read i r uri opened) e'.daemon e'.connections := by
  obtain ⟨⟨d, c'⟩, hb, h⟩ := bind_eq_ok.mp h
  cases h
  exact .answered hr (guarded_eq_ok.mp hb)

/-- **Every handler serves.** -/
theorem handle_serves {ev : ConnectionEvent} (h : handle ev e = .ok (e', ret)) :
    Serves e ev e'.daemon e'.connections := by
  cases ev with
  | accept a =>
    change newClientHandler a e = .ok (e', ret) at h
    unfold newClientHandler at h
    split_ifs at h
    · split at h
      · cases h
        exact .idle
      · rename_i s _
        split_ifs at h
        cases h
        unfold Engine.register
        dsimp only
        split_ifs <;> exact .init s rfl rfl rfl
    · cases h
      exact .idle
  | read i r uri opened =>
    cases r with
    | got data =>
      simp only [handle, flaskRequestHandler] at h
      split_ifs at h
      · cases h
        exact .init i rfl rfl rfl
      · obtain ⟨c₁, h1, h⟩ := bind_eq_ok.mp h
        obtain ⟨c₂, h2, h⟩ := bind_eq_ok.mp h
        exact answer_serves (.got (guarded_eq_ok.mp h1) (guarded_eq_ok.mp h2)) h
    | reset =>
      cases h
      exact .init i rfl rfl rfl
    | failed => exact answer_serves .failed h
  | send i s =>
    cases s with
    | failed => cases h
    | sent => cases h; exact .init i rfl rfl rfl
    | broken => cases h; exact .init i rfl rfl rfl
  | datagram r fresh =>
    obtain ⟨⟨_, rt, gol, out⟩, hl, h⟩ := bind_eq_ok.mp h
    cases h
    rw [guarded_eq_ok] at hl
    have hact : act (.datagram r fresh) e.daemon = .ok ({ e.daemon with rt := rt, gol := gol }, out) :=
      bind_eq_ok.mpr ⟨_, hl, rfl⟩
    exact .pass rfl hact
  | timeout fresh =>
    obtain ⟨⟨d, out⟩, ht, h⟩ := bind_eq_ok.mp h
    cases h
    exact .pass (p := .timeout fresh) rfl (guarded_eq_ok.mp ht)

end Handlers

/-! ### Networks -/

/-- The engines of all nodes, and all datagrams sent so far. -/
structure Servers (ι : Type) where
  engine : ι → Engine
  wire : List (Datagram ι)

variable {ι : Type}

/-- The daemons of the engines. -/
def Servers.world (s : Servers ι) : World ι := ⟨fun x => (s.engine x).daemon, s.wire⟩

/-- What a handler does besides changing the engine. -/
def handlerEffects (ev : ConnectionEvent) (d : Daemon) : List Effect :=
  match (daemonPass ev).map fun p => act p d with
  | some (.ok (_, out)) => out
  | _ => []

theorem handlerEffects_eq {ev : ConnectionEvent} {p : Event} {d d' : Daemon} {out : List Effect}
    (hp : daemonPass ev = some p) (h : act p d = .ok (d', out)) : handlerEffects ev d = out := by
  rw [handlerEffects, hp, Option.map_some, h]

theorem handlerEffects_nil {ev : ConnectionEvent} (hp : daemonPass ev = none) (d : Daemon) :
    handlerEffects ev d = [] := by
  rw [handlerEffects, hp]
  rfl

variable [DecidableEq ι]

/-- The runs of a network of servers. No daemon restarts. -/
def serverNetwork (N : Net ι) (ok : List UInt8 → Prop) : System (Servers ι) (ι × ConnectionEvent) where
  init s := s.wire = [] ∧ ∀ x, (connectionSystem (N.files x)).init (s.engine x)
  step s l s' := Serviceable (s.engine l.1) l.2 ∧
    (∀ p, daemonPass l.2 = some p → Possible N ok s.world l.1 p) ∧
      ∃ e ret, handle l.2 (s.engine l.1) = .ok (e, ret) ∧
        s' = ⟨Function.update s.engine l.1 e,
          s.wire ++ sends l.1 (handlerEffects l.2 (s.engine l.1).daemon)⟩

section Worlds

variable {N : Net ι} {ok : List UInt8 → Prop} {s s' : Servers ι} {x : ι} {ev : ConnectionEvent}

theorem world_update (s : Servers ι) (x : ι) (e : Engine) (out : List Effect) :
    (⟨Function.update s.engine x e, s.wire ++ sends x out⟩ : Servers ι).world =
      s.world.after x out e.daemon := by
  rw [Servers.world, World.after, World.mk.injEq]
  refine ⟨?_, rfl⟩
  funext y
  dsimp only
  by_cases hy : y = x
  · subst hy
    rw [Function.update_self, Function.update_self]
  · rw [Function.update_of_ne hy, Function.update_of_ne hy]
    rfl

theorem world_init (h : (serverNetwork N ok).init s) : (network N ok).init s.world := by
  refine ⟨h.1, fun x => ?_⟩
  obtain ⟨udpSock, tcpSock, d, -, -, -, hd, he⟩ := h.2 x
  change boot (N.files x) = .ok (s.engine x).daemon
  rw [he]
  exact hd

/-- **A handler is a step of the daemons, or leaves them alone.** -/
theorem world_step (h : (serverNetwork N ok).step s (x, ev) s') :
    s'.world = s.world ∨ ∃ l, (network N ok).step s.world l s'.world := by
  obtain ⟨-, hp, e, ret, hh, rfl⟩ := h
  rw [world_update]
  have hserves := handle_serves hh
  generalize e.daemon = d at hserves
  generalize e.connections = cs at hserves
  cases hserves with
  | idle => exact .inl (by rw [handlerEffects_nil rfl]; exact after_nil s.world)
  | init i other => exact .inl (by rw [handlerEffects_nil other]; exact after_nil s.world)
  | @answered i r uri opened c c' d request answer =>
    rw [handlerEffects_nil rfl]
    have hact : act (.request c uri opened) (s.engine x).daemon = .ok (d, []) :=
      bind_eq_ok.mpr ⟨_, answer, rfl⟩
    exact .inr ⟨(x, .request c uri opened, []), trivial, d, hact, rfl⟩
  | @pass _ p d out own hact =>
    rw [handlerEffects_eq own hact]
    exact .inr ⟨(x, p, out), hp p own, d, hact, rfl⟩

/-- **A run of the servers is a run of their daemons.** -/
theorem world_reachable (r : (serverNetwork N ok).Reachable s) : (network N ok).Reachable s.world :=
  r.map (fun _ h => world_init h) fun _ _ _ h => world_step h

end Worlds

/-! ### Restarts -/

/-- The steps of servers that may restart. Datagrams that were sent before stay on the wire. -/
inductive ServerStep (N : Net ι) (ok : List UInt8 → Prop) :
    Servers ι → ι × Option ConnectionEvent → Servers ι → Prop
  | handler {s s' : Servers ι} {x : ι} {ev : ConnectionEvent}
      (h : (serverNetwork N ok).step s (x, ev) s') : ServerStep N ok s (x, some ev) s'
  | restart {s : Servers ι} {x : ι} {udpSock tcpSock : ℕ} {d : Daemon} (socks : udpSock ≠ tcpSock)
      (udp : udpSock < maxConnections) (tcp : tcpSock < maxConnections)
      (h : RoutingDaemon.restart (N.files x) (s.engine x).daemon = .ok d) :
      ServerStep N ok s (x, none)
        ⟨Function.update s.engine x (createEngine udpSock tcpSock d), s.wire⟩

/-- The runs of a network whose servers may restart. -/
def restartServers (N : Net ι) (ok : List UInt8 → Prop) :
    System (Servers ι) (ι × Option ConnectionEvent) where
  init := (serverNetwork N ok).init
  step := ServerStep N ok

section Restarts

variable {N : Net ι} {ok : List UInt8 → Prop} {s : Servers ι}

theorem restartServers_reachable (r : (serverNetwork N ok).Reachable s) :
    (restartServers N ok).Reachable s := by
  refine r.invariant (fun _ h => .init h) ?_
  rintro s ⟨x, ev⟩ s' r h
  exact r.step (.handler h)

theorem Serves.sound {e : Engine} {ev : ConnectionEvent} {d : Daemon} {cs : ℕ → TcpConnection}
    (h : Serves e ev d cs) (hs : Sound e.daemon) : Sound d := by
  cases h with
  | idle => exact hs
  | init => exact hs
  | @answered i r uri opened c c' d request answer =>
    have hact : act (.request c uri opened) e.daemon = .ok (d, []) := bind_eq_ok.mpr ⟨_, answer, rfl⟩
    exact sound_act hs hact
  | pass own hact => exact sound_act hs hact

/-- **Every daemon stays sound**, also over restarts. -/
theorem sound_restartServers (hv : N.Distinct) (r : (restartServers N ok).Reachable s) :
    ∀ x, Sound (s.engine x).daemon := by
  refine r.invariant (I := fun s => ∀ x, Sound (s.engine x).daemon) (fun s h x => ?_) ?_
  · have hinit : (serverNetwork N ok).init s := h
    exact sound_boot (hv.configured x) ((world_init hinit).2 x)
  · intro s l s' hs h
    cases h with
    | @handler _ x ev h =>
      obtain ⟨-, -, e, ret, hh, rfl⟩ := h
      exact (Function.forall_update_iff _ fun _ (e : Engine) => Sound e.daemon).mpr
        ⟨(handle_serves hh).sound (hs x), fun y _ => hs y⟩
    | @restart x udpSock tcpSock d socks udp tcp h =>
      obtain ⟨lines, -, hb⟩ := restart_eq_ok h
      exact (Function.forall_update_iff _ fun _ (e : Engine) => Sound e.daemon).mpr
        ⟨sound_boot (hv.configured_with x lines _) hb, fun y _ => hs y⟩

end Restarts

end RoutingDaemon
