import RoutingDaemon.FileLoader
import RoutingDaemon.RequestParsing

/-!
# Client connections

* `Engine`: the descriptor sets, the counter and the connections of `engine`, with the daemon and
  the open client sockets; `createEngine`.
* `newClientHandler`, `flaskRequestHandler`, `flaskResponseHandler`.
* `ConnectionEvent`, `handle`: these handlers and the passes of the daemon; `connectionSystem`: their
  runs, in any order.
* `Kept`: a property that the handlers keep; `Kept.reachable`: it holds of every connection.
* `nfds_run`: what the counter counts; `counted_iff`: it counts the open connections exactly as long
  as none was closed.
-/

namespace RoutingDaemon

/-- `MAX_CONNECTIONS` -/
def maxConnections : ℕ := 1024

/-- `BUF_SIZE` -/
def bufSize : ℕ := 1024

theorem bufSize_eq : bufSize = maxBuf := rfl

/-! ### The engine -/

/-- Why there is no next state: a fault, or `exit`. -/
inductive Stop
  | fault (f : Fault)
  | exit
  deriving DecidableEq

/-- A fault stops the engine. -/
def guarded {α : Type} (x : Except Fault α) : Except Stop α := x.mapError Stop.fault

/-- `engine`, the other global variables, and the client sockets that are open. -/
structure Engine where
  udpSock : ℕ
  tcpSock : ℕ
  rfds : Finset ℕ
  wfds : Finset ℕ
  nfds : ℤ
  fdmax : ℕ
  connections : ℕ → TcpConnection
  clients : Finset ℕ
  daemon : Daemon

/-- `create_engine`, from the two sockets it opened. -/
def createEngine (udpSock tcpSock : ℕ) (d : Daemon) : Engine where
  udpSock := udpSock
  tcpSock := tcpSock
  rfds := {udpSock, tcpSock}
  wfds := ∅
  nfds := 5
  fdmax := max udpSock tcpSock
  connections _ := blankConnection
  clients := ∅
  daemon := d

namespace Engine

/-- The sockets that are open. -/
def sockets (e : Engine) : Finset ℕ := insert e.udpSock (insert e.tcpSock e.clients)

/-- Store the state of a connection. -/
def setConnection (e : Engine) (i : ℕ) (c : TcpConnection) : Engine :=
  { e with connections := Function.update e.connections i c }

/-- `init_connection` and `close` -/
def close (e : Engine) (i : ℕ) : Engine :=
  { e.setConnection i (initConnection (e.connections i)) with clients := e.clients.erase i }

/-- `FD_CLR`, from both sets -/
def unwatch (e : Engine) (i : ℕ) : Engine :=
  { e with rfds := e.rfds.erase i, wfds := e.wfds.erase i }

/-- The accepted connection is the last one for which there is room. -/
def isLast (e : Engine) : Bool := e.nfds + 1 = (maxConnections : ℤ) - 1

/-- An accepted connection is initialised and watched; the last one is refused with status 503. -/
def register (e : Engine) (sock : ℕ) : Engine :=
  let c := initConnection (e.connections sock)
  { e.setConnection sock (if e.isLast then { c with status := 503 } else c) with
    fdmax := max e.fdmax sock
    nfds := e.nfds + 1
    rfds := insert sock e.rfds
    wfds := if e.isLast then insert sock e.wfds else e.wfds
    clients := insert sock e.clients }

/-- `build_response`, and `FD_SET` to send the response. -/
def answer (e : Engine) (i : ℕ) (uri : List UInt8) (opened : Bool) (c : TcpConnection) :
    Except Stop (Engine × ℤ) := do
  let (d, c) ← guarded (buildResponse uri opened e.daemon c)
  .ok ({ e.setConnection i c with daemon := d, wfds := insert i e.wfds }, 1)

end Engine

/-! ### The handlers -/

/-- How `accept` answers, given the sockets that are open: a failure, or a descriptor not in use. -/
structure Accept where
  answer : Finset ℕ → Option ℕ
  unused : ∀ sockets s, answer sockets = some s → s ∉ sockets

/-- How `recv` on a client socket ends. -/
inductive Recv
  /-- the bytes that are there; none at the end of the stream -/
  | got (data : List UInt8)
  /-- `ECONNRESET` -/
  | reset
  /-- another error -/
  | failed

/-- How `send` on a client socket ends: with at least one byte sent, or with what `errno` holds. -/
inductive Send
  | sent
  /-- `EPIPE` or `ECONNRESET` -/
  | broken
  /-- anything else -/
  | failed
  deriving DecidableEq

/-- `new_client_handler`. A descriptor past the end of `connections` and of the `fd_set`s
overflows them. -/
def newClientHandler (a : Accept) (e : Engine) : Except Stop (Engine × ℤ) :=
  if e.nfds ≤ (maxConnections : ℤ) - 1 then
    match a.answer e.sockets with
    | none => .ok (e, -1)
    | some sock =>
      if maxConnections ≤ sock then .error (.fault .overflow)
      else .ok (e.register sock, 1)
  else .ok (e, -1)

/-- `flask_request_handler`. `recv` is asked for `BUF_SIZE - request_index` bytes. -/
def flaskRequestHandler (i : ℕ) (r : Recv) (uri : List UInt8) (opened : Bool) (e : Engine) :
    Except Stop (Engine × ℤ) :=
  let c := e.connections i
  match r with
  | .got data =>
    let buf := data.take (bufSize - c.requestIndex).toNat
    if buf = [] then .ok ((e.close i).unwatch i, 0)
    else do
      let c ← guarded (c.receive buf)
      let c ← guarded (processBuffer c)
      e.answer i uri opened c
  | .reset => .ok (e.close i, -1)
  | .failed => e.answer i uri opened { c with status := 500 }

/-- `flask_response_handler` -/
def flaskResponseHandler (i : ℕ) (s : Send) (e : Engine) : Except Stop (Engine × ℤ) :=
  match s with
  | .failed => .error .exit
  | _ => .ok ((e.close i).unwatch i, 1)

/-- `lsa_handler`, on the global variables. -/
def lsaEvent (r : Received) (fresh : Fresh) (e : Engine) : Except Stop (Engine × ℤ) := do
  let d := e.daemon
  let (ret, rt, gol, _) ← guarded ((lsaHandler fresh r d.dl d.rt d.gol).mapError Prod.fst)
  .ok ({ e with daemon := { d with rt := rt, gol := gol } }, ret)

/-! ### Runs -/

/-- What happens to the engine. -/
inductive ConnectionEvent
  /-- the TCP socket is readable -/
  | accept (a : Accept)
  /-- a client socket is readable -/
  | read (i : ℕ) (r : Recv) (uri : List UInt8) (opened : Bool)
  /-- a client socket is writable -/
  | send (i : ℕ) (s : Send)
  /-- the UDP socket is readable -/
  | datagram (r : Received) (fresh : Fresh)
  /-- `select` timed out -/
  | timeout (fresh : Fresh)

/-- Reads and sends are on open client sockets, and of an empty response no byte is sent. -/
def Serviceable (e : Engine) : ConnectionEvent → Prop
  | .accept _ => True
  | .read i _ _ _ => i ∈ e.clients
  | .send i s => i ∈ e.clients ∧ (s = .sent → 1 ≤ (e.connections i).responseIndex)
  | .datagram _ _ => True
  | .timeout _ => True

/-- The handlers. -/
def handle : ConnectionEvent → Engine → Except Stop (Engine × ℤ)
  | .accept a, e => newClientHandler a e
  | .read i r uri opened, e => flaskRequestHandler i r uri opened e
  | .send i s, e => flaskResponseHandler i s e
  | .datagram r fresh, e => lsaEvent r fresh e
  | .timeout fresh, e => do
    let (d, _) ← guarded (timeout fresh e.daemon)
    .ok ({ e with daemon := d }, 1)

/-- What becomes of a connection. -/
inductive Fate
  | kept
  /-- the stream ended -/
  | ended
  | reset
  /-- the response was sent -/
  | served
  deriving DecidableEq

/-- What a handler does to the connection it is about. -/
def fate (e : Engine) : ConnectionEvent → Fate
  | .read i (.got data) _ _ =>
    if data.take (bufSize - (e.connections i).requestIndex).toNat = [] then .ended else .kept
  | .read _ .reset _ _ => .reset
  | .send _ _ => .served
  | _ => .kept

/-- Whether a handler closes a connection. -/
def Closes (e : Engine) (ev : ConnectionEvent) : Bool := fate e ev ≠ .kept

/-- The runs of an engine, by single handlers in any order. A label tells whether a connection was
closed. -/
def connectionSystem (f : Files) : System Engine (ConnectionEvent × Bool) where
  init e := ∃ udpSock tcpSock d, udpSock ≠ tcpSock ∧ udpSock < maxConnections ∧
    tcpSock < maxConnections ∧ boot f = .ok d ∧ e = createEngine udpSock tcpSock d
  step e l e' := Serviceable e l.1 ∧ l.2 = Closes e l.1 ∧ ∃ ret, handle l.1 e = .ok (e', ret)

theorem reachable_handle {f : Files} {e e' : Engine} {ret : ℤ} (ev : ConnectionEvent)
    (r : (connectionSystem f).Reachable e) (hp : Serviceable e ev) (h : handle ev e = .ok (e', ret)) :
    (connectionSystem f).Reachable e' := r.step (l := (ev, Closes e ev)) ⟨hp, rfl, ret, h⟩

/-- The connections that a run closed. -/
def closed (ls : List (ConnectionEvent × Bool)) : ℕ := ls.countP Prod.snd

/-! ### What the handlers do to the counter -/

theorem guarded_eq_ok {α : Type} {x : Except Fault α} {a : α} : guarded x = .ok a ↔ x = .ok a := by
  cases x <;> simp [guarded, Except.mapError]

/-- What a handler at descriptor `i` does: the fate of the connection, what it returns, and the engine
after it. -/
inductive Step (e : Engine) (i : ℕ) : Fate → ℤ → Engine → Prop
  /-- no connection is accepted -/
  | refused : Step e i .kept (-1) e
  | admitted {s : ℕ} (room : e.nfds ≤ (maxConnections : ℤ) - 1) (unused : s ∉ e.sockets)
      (bound : s < maxConnections) : Step e i .kept 1 (e.register s)
  /-- a response is built -/
  | answered {c c' : TcpConnection} {uri : List UInt8} {opened : Bool} {d : Daemon}
      (client : i ∈ e.clients) (request : act (.request c uri opened) e.daemon = .ok (d, [])) :
      Step e i .kept 1 { e.setConnection i c' with daemon := d, wfds := insert i e.wfds }
  | ended (client : i ∈ e.clients) : Step e i .ended 0 ((e.close i).unwatch i)
  | reset (client : i ∈ e.clients) : Step e i .reset (-1) (e.close i)
  | served (client : i ∈ e.clients) : Step e i .served 1 ((e.close i).unwatch i)
  /-- a datagram or a timeout -/
  | other {ev : Event} {d : Daemon} {out : List Effect} {ret : ℤ}
      (pass : act ev e.daemon = .ok (d, out)) : Step e i .kept ret { e with daemon := d }

section Handlers

variable {e e' : Engine} {i : ℕ} {ret : ℤ}

theorem newClientHandler_step {a : Accept} (h : newClientHandler a e = .ok (e', ret)) :
    Step e i .kept ret e' := by
  unfold newClientHandler at h
  split_ifs at h with hn
  · split at h
    · cases h; exact .refused
    · rename_i s ha
      split_ifs at h with hs
      cases h
      exact .admitted hn (a.unused _ _ ha) (not_le.mp hs)
  · cases h; exact .refused

theorem answer_step {uri : List UInt8} {opened : Bool} {c : TcpConnection}
    (hi : i ∈ e.clients) (h : e.answer i uri opened c = .ok (e', ret)) :
    Step e i .kept ret e' := by
  obtain ⟨⟨d, c'⟩, hb, h⟩ := bind_eq_ok.mp h
  cases h
  rw [guarded_eq_ok] at hb
  have request : act (.request c uri opened) e.daemon = .ok (d, []) := bind_eq_ok.mpr ⟨_, hb, rfl⟩
  exact .answered hi request

theorem flaskRequestHandler_step {r : Recv} {uri : List UInt8} {opened : Bool}
    (hi : i ∈ e.clients) (h : flaskRequestHandler i r uri opened e = .ok (e', ret)) :
    Step e i (fate e (.read i r uri opened)) ret e' := by
  cases r with
  | got data =>
    simp only [flaskRequestHandler] at h
    split_ifs at h with hbuf
    · cases h
      simpa [fate, hbuf] using Step.ended hi
    · obtain ⟨c, -, h⟩ := bind_eq_ok.mp h
      obtain ⟨c', -, h⟩ := bind_eq_ok.mp h
      simpa [fate, hbuf] using answer_step hi h
  | reset => cases h; exact .reset hi
  | failed => exact answer_step hi h

theorem flaskResponseHandler_step {s : Send} (hi : i ∈ e.clients)
    (h : flaskResponseHandler i s e = .ok (e', ret)) : Step e i .served ret e' := by
  cases s with
  | sent => cases h; exact .served hi
  | broken => cases h; exact .served hi
  | failed => cases h

theorem lsaEvent_step {r : Received} {fresh : Fresh} (h : lsaEvent r fresh e = .ok (e', ret)) :
    Step e i .kept ret e' := by
  obtain ⟨⟨_, rt, gol, out⟩, hl, h⟩ := bind_eq_ok.mp h
  cases h
  rw [guarded_eq_ok] at hl
  have pass : act (.datagram r fresh) e.daemon = .ok ({ e.daemon with rt := rt, gol := gol }, out) :=
    bind_eq_ok.mpr ⟨_, hl, rfl⟩
  exact .other pass

/-- **Every handler does one of these things.** -/
theorem handle_step {ev : ConnectionEvent} (hp : Serviceable e ev) (h : handle ev e = .ok (e', ret)) :
    ∃ i, Step e i (fate e ev) ret e' := by
  cases ev with
  | accept a => exact ⟨0, newClientHandler_step h⟩
  | read i r uri opened => exact ⟨i, flaskRequestHandler_step hp h⟩
  | send i s => exact ⟨i, flaskResponseHandler_step hp.1 h⟩
  | datagram r fresh => exact ⟨0, lsaEvent_step h⟩
  | timeout fresh =>
    obtain ⟨⟨d, out⟩, ht, h⟩ := bind_eq_ok.mp h
    cases h
    rw [guarded_eq_ok] at ht
    have pass : act (.timeout fresh) e.daemon = .ok (d, out) := ht
    exact ⟨0, .other pass⟩

/-- A closed connection stays in the counter. -/
theorem nfds_close (hi : i ∈ e.clients) :
    (e.close i).nfds + e.clients.card = e.nfds + (e.close i).clients.card + 1 := by
  have hcard : (e.close i).clients.card + 1 = e.clients.card := Finset.card_erase_add_one hi
  have hnfds : (e.close i).nfds = e.nfds := rfl
  rw [hnfds, ← hcard]
  push_cast
  ring

theorem nfds_unwatch (hi : i ∈ e.clients) : ((e.close i).unwatch i).nfds + e.clients.card =
    e.nfds + ((e.close i).unwatch i).clients.card + 1 := nfds_close hi

/-- Only an accept raises the counter, and nothing lowers it. -/
theorem nfds_step {t : Fate} (h : Step e i t ret e') :
    e'.nfds + e.clients.card = e.nfds + e'.clients.card + if t = .kept then 0 else 1 := by
  cases h with
  | refused => simp
  | @admitted s room unused bound =>
    have hs : s ∉ e.clients := fun hm =>
      unused (Finset.mem_insert_of_mem (Finset.mem_insert_of_mem hm))
    have hcard : (e.register s).clients.card = e.clients.card + 1 := Finset.card_insert_of_notMem hs
    have hnfds : (e.register s).nfds = e.nfds + 1 := rfl
    rw [hcard, hnfds]
    simp
    omega
  | answered client request => simp [Engine.setConnection]
  | ended client => exact nfds_unwatch client
  | reset client => exact nfds_close client
  | served client => exact nfds_unwatch client
  | other pass => simp

end Handlers

/-- **The counter counts every connection that was ever accepted.** -/
theorem nfds_run {f : Files} {ls : List (ConnectionEvent × Bool)} {e : Engine}
    (r : (connectionSystem f).Run ls e) : e.nfds = 5 + e.clients.card + closed ls := by
  refine r.traceInvariant (I := fun ls (e : Engine) => e.nfds = 5 + e.clients.card + closed ls) ?_ ?_
  · rintro _ ⟨udpSock, tcpSock, d, -, -, -, -, rfl⟩
    rfl
  · rintro ls e ⟨ev, b⟩ e' - ih ⟨hp, hb, ret, h⟩
    dsimp only at hp hb h
    subst hb
    obtain ⟨i, hstep⟩ := handle_step hp h
    have hcount := nfds_step hstep
    have hclosed : closed (ls ++ [(ev, Closes e ev)]) =
        closed ls + if fate e ev = .kept then 0 else 1 := by
      rw [closed, List.countP_append]
      by_cases hk : fate e ev = .kept <;> simp [Closes, hk, closed]
    rw [hclosed]
    push_cast
    omega

/-! ### What holds of all connections -/

/-- What the handlers do to a connection keeps the property. -/
structure Kept (P : TcpConnection → Prop) : Prop where
  init : ∀ c, P c → P (initConnection c)
  status : ∀ c n, P c → P { c with status := n }
  read : ∀ c c₁ c₂ data, P c → data ≠ [] → data.length ≤ (bufSize - c.requestIndex).toNat →
    c.receive data = .ok c₁ → processBuffer c₁ = .ok c₂ → P c₂
  build : ∀ c c' d d' uri opened, P c → buildResponse uri opened d c = .ok (d', c') → P c'

section Kept

variable {P : TcpConnection → Prop} {e e' : Engine} {i : ℕ} {ret : ℤ}

theorem forall_setConnection (he : ∀ i, P (e.connections i)) {c : TcpConnection} (hc : P c) (j : ℕ) :
    P ((e.setConnection i c).connections j) := by
  show P (Function.update e.connections i c j)
  by_cases hj : j = i
  · rw [hj, Function.update_self]
    exact hc
  · rw [Function.update_of_ne hj]
    exact he j

theorem Kept.answer (hP : Kept P) (he : ∀ i, P (e.connections i)) {uri : List UInt8} {opened : Bool}
    {c : TcpConnection} (hc : P c) (h : e.answer i uri opened c = .ok (e', ret)) (j : ℕ) :
    P (e'.connections j) := by
  obtain ⟨⟨d, c'⟩, hb, h⟩ := bind_eq_ok.mp h
  cases h
  rw [guarded_eq_ok] at hb
  exact forall_setConnection he (hP.build _ _ _ _ _ _ hc hb) j

theorem Kept.flaskRequestHandler (hP : Kept P) (he : ∀ i, P (e.connections i)) {r : Recv}
    {uri : List UInt8} {opened : Bool} (h : flaskRequestHandler i r uri opened e = .ok (e', ret))
    (j : ℕ) : P (e'.connections j) := by
  cases r with
  | got data =>
    simp only [RoutingDaemon.flaskRequestHandler] at h
    split_ifs at h with hdata
    · cases h
      exact forall_setConnection he (hP.init _ (he i)) j
    · obtain ⟨c₁, h1, h⟩ := bind_eq_ok.mp h
      obtain ⟨c₂, h2, h⟩ := bind_eq_ok.mp h
      rw [guarded_eq_ok] at h1 h2
      have hlen := List.length_take_le (bufSize - (e.connections i).requestIndex).toNat data
      exact hP.answer he (hP.read _ _ _ _ (he i) hdata hlen h1 h2) h j
  | reset =>
    cases h
    exact forall_setConnection he (hP.init _ (he i)) j
  | failed => exact hP.answer he (hP.status _ 500 (he i)) h j

theorem Kept.handle (hP : Kept P) (he : ∀ i, P (e.connections i)) {ev : ConnectionEvent}
    (h : handle ev e = .ok (e', ret)) (j : ℕ) : P (e'.connections j) := by
  cases ev with
  | accept a =>
    simp only [RoutingDaemon.handle, newClientHandler] at h
    split_ifs at h
    · split at h
      · cases h
        exact he j
      · rename_i s _
        split_ifs at h
        cases h
        refine forall_setConnection he ?_ j
        have hc := hP.init _ (he s)
        split_ifs
        · exact hP.status _ 503 hc
        · exact hc
    · cases h
      exact he j
  | read i r uri opened => exact hP.flaskRequestHandler he h j
  | send i s =>
    cases s with
    | failed => cases h
    | sent => cases h; exact forall_setConnection he (hP.init _ (he i)) j
    | broken => cases h; exact forall_setConnection he (hP.init _ (he i)) j
  | datagram r fresh =>
    obtain ⟨⟨_, rt, gol, out⟩, -, h⟩ := bind_eq_ok.mp h
    cases h
    exact he j
  | timeout fresh =>
    obtain ⟨⟨d, out⟩, -, h⟩ := bind_eq_ok.mp h
    cases h
    exact he j

/-- **What holds of static memory and is kept holds of every connection, in every reachable state.** -/
theorem Kept.reachable (hP : Kept P) (h0 : P blankConnection) {f : Files}
    (r : (connectionSystem f).Reachable e) (i : ℕ) : P (e.connections i) := by
  refine r.invariant (I := fun e => ∀ i, P (e.connections i)) ?_ ?_ i
  · rintro _ ⟨udpSock, tcpSock, d, -, -, -, -, rfl⟩ i
    exact h0
  · rintro e l e' he ⟨-, -, ret, h⟩
    exact hP.handle he h

end Kept

/-! ### What the counter is for -/

/-- The lowest descriptor that is not in use. -/
def lowest : Accept where
  answer sockets := (List.range (sockets.card + 1)).find? fun s => s ∉ sockets
  unused _ _ h := by simpa using List.find?_some h

theorem lowest_answer : lowest.answer {3, 4} = some 0 := by decide

theorem accept_lowest {e : Engine} (hn : e.nfds ≤ (maxConnections : ℤ) - 1)
    (hs : e.sockets = {3, 4}) : newClientHandler lowest e = .ok (e.register 0, 1) := by
  rw [newClientHandler, if_pos hn, hs, lowest_answer]
  rfl

/-- A node without neighbours. -/
def loneFiles : Files where
  rows := [linkOn 1 65]
  hostname := cstr [65]
  lines := []
  filefile := []

theorem exists_boot_loneFiles : ∃ d, boot loneFiles = .ok d := by
  have key : (boot loneFiles).map (fun _ => true) = .ok true := by decide +kernel
  obtain ⟨d, hd, -⟩ := exists_of_map_eq_ok key
  exact ⟨d, hd⟩

theorem init_loneFiles {d : Daemon} (h : boot loneFiles = .ok d) :
    (connectionSystem loneFiles).init (createEngine 3 4 d) :=
  ⟨3, 4, d, by decide, by decide, by decide, h, rfl⟩

theorem reachable_first {d : Daemon} (h : boot loneFiles = .ok d) :
    (connectionSystem loneFiles).Reachable ((createEngine 3 4 d).register 0) :=
  reachable_handle (.accept lowest) (.init (init_loneFiles h)) trivial
    (accept_lowest (show (5 : ℤ) ≤ _ by decide) rfl)

/-- No client is turned away, unless `accept` fails. -/
def AcceptsNext (e : Engine) : Prop :=
  ∀ a e', newClientHandler a e = .ok (e', -1) → a.answer e.sockets = none

/-- The counter counts the open connections, so that there is room for the next one. -/
structure Counted (e : Engine) : Prop where
  nfds : e.nfds = 5 + e.clients.card
  next : e.clients.card < maxConnections - 5 → AcceptsNext e

theorem acceptsNext_of_le {e : Engine} (h : e.nfds ≤ (maxConnections : ℤ) - 1) : AcceptsNext e := by
  intro a e' ha
  rw [newClientHandler, if_pos h] at ha
  split at ha
  · assumption
  · split_ifs at ha
    cases ha

/-- **The counter is right exactly as long as no connection was closed.** -/
theorem counted_iff (f : Files) : ∀ ls e, (connectionSystem f).Run ls e →
    (Counted e ↔ ∀ l ∈ ls, l.2 = false) := by
  intro ls e r
  have hn := nfds_run r
  have hzero : closed ls = 0 ↔ ∀ l ∈ ls, l.2 = false := by simp [closed, List.countP_eq_zero]
  rw [← hzero]
  constructor
  · intro h
    have := h.nfds
    omega
  · intro h
    have hnfds : e.nfds = 5 + e.clients.card := by omega
    refine ⟨hnfds, fun hlt => acceptsNext_of_le ?_⟩
    unfold maxConnections at *
    omega

/-- After one accept the counter is right. -/
theorem counted_iff_accept : ∃ e, (connectionSystem loneFiles).Run [(.accept lowest, false)] e ∧
    Counted e ∧ e.clients = {0} := by
  obtain ⟨d, hd⟩ := exists_boot_loneFiles
  have r₀ : (connectionSystem loneFiles).Run [] (createEngine 3 4 d) := .init (init_loneFiles hd)
  have r : (connectionSystem loneFiles).Run [(.accept lowest, false)] ((createEngine 3 4 d).register 0) :=
    r₀.step ⟨trivial, rfl, 1, accept_lowest (show (5 : ℤ) ≤ _ by decide) rfl⟩
  exact ⟨_, r, (counted_iff loneFiles _ _ r).mpr (by simp), rfl⟩

/-- No client is connected to a node that listens on descriptors 3 and 4. Slot 0 was left with this
`response_index`. -/
structure Idle (d : Daemon) (n index : ℤ) (e : Engine) : Prop where
  udpSock : e.udpSock = 3
  tcpSock : e.tcpSock = 4
  clients : e.clients = ∅
  daemon : e.daemon = d
  nfds : e.nfds = n
  index : (e.connections 0).responseIndex = index

theorem idle_init (d : Daemon) : Idle d 5 0 (createEngine 3 4 d) := ⟨rfl, rfl, rfl, rfl, rfl, rfl⟩

theorem connections_register (e : Engine) (s : ℕ) : (e.register s).connections s =
    if e.isLast then { initConnection (e.connections s) with status := 503 }
    else initConnection (e.connections s) := Function.update_self _ _ _

theorem index_register (e : Engine) (s : ℕ) :
    ((e.register s).connections s).responseIndex = (e.connections s).responseIndex := by
  rw [connections_register]
  split_ifs <;> rfl

section Idle

variable {d : Daemon} {n k : ℤ} {e : Engine}

theorem Idle.sockets (h : Idle d n k e) : e.sockets = {3, 4} := by
  rw [Engine.sockets, h.clients, h.udpSock, h.tcpSock]
  rfl

theorem Idle.accept (h : Idle d n k e) (hn : n ≤ (maxConnections : ℤ) - 1) :
    newClientHandler lowest e = .ok (e.register 0, 1) := accept_lowest (h.nfds ▸ hn) h.sockets

theorem Idle.close (h : Idle d n k e) : Idle d (n + 1) k (((e.register 0).close 0).unwatch 0) where
  udpSock := h.udpSock
  tcpSock := h.tcpSock
  clients := by
    show (insert 0 e.clients).erase 0 = ∅
    rw [h.clients]
    rfl
  daemon := h.daemon
  nfds := congrArg (· + 1) h.nfds
  index := by
    have hclose : (((e.register 0).close 0).unwatch 0).connections 0 =
        initConnection ((e.register 0).connections 0) := rfl
    rw [hclose, ← h.index, ← index_register e 0]
    rfl

theorem Idle.leave (r : (connectionSystem loneFiles).Reachable e) (h : Idle d n k e)
    (hn : n ≤ (maxConnections : ℤ) - 1) :
    ∃ e', (connectionSystem loneFiles).Reachable e' ∧ Idle d (n + 1) k e' := by
  have hread : flaskRequestHandler 0 (.got []) [] true (e.register 0) =
      .ok (((e.register 0).close 0).unwatch 0, 0) := by
    simp [flaskRequestHandler]
  have r₁ : (connectionSystem loneFiles).Reachable (e.register 0) :=
    reachable_handle (.accept lowest) r trivial (h.accept hn)
  have r₂ : (connectionSystem loneFiles).Reachable (((e.register 0).close 0).unwatch 0) :=
    reachable_handle (.read 0 (.got []) [] true) r₁ (Finset.mem_insert_self _ _) hread
  exact ⟨_, r₂, h.close⟩

theorem Idle.leave_all (r : (connectionSystem loneFiles).Reachable e) (h : Idle d n k e) (m : ℕ)
    (hm : n + m ≤ maxConnections) :
    ∃ e', (connectionSystem loneFiles).Reachable e' ∧ Idle d (n + m) k e' := by
  induction m with
  | zero => exact ⟨e, r, by simpa using h⟩
  | succ m ih =>
    push_cast at hm
    obtain ⟨e₁, r₁, h₁⟩ := ih (by omega)
    obtain ⟨e', r', h'⟩ := Idle.leave r₁ h₁ (by omega)
    exact ⟨e', r', by simpa [add_assoc] using h'⟩

end Idle

/-- **After enough clients that came and went, no client gets in.** -/
theorem exists_refused : ∃ ls e, (connectionSystem loneFiles).Run ls e ∧ e.clients = ∅ ∧
    ¬ Counted e ∧ ¬ AcceptsNext e := by
  obtain ⟨d, hd⟩ := exists_boot_loneFiles
  have r₀ : (connectionSystem loneFiles).Reachable (createEngine 3 4 d) := .init (init_loneFiles hd)
  obtain ⟨e, ⟨ls, r⟩, h⟩ := Idle.leave_all r₀ (idle_init d) (maxConnections - 5) (by decide)
  have hnext : ¬ AcceptsNext e := fun hnext => by
    have ha : newClientHandler lowest e = .ok (e, -1) := by
      rw [newClientHandler, if_neg (by rw [h.nfds]; decide)]
    have := hnext lowest e ha
    rw [h.sockets, lowest_answer] at this
    cases this
  refine ⟨ls, e, r, h.clients, fun hc => hnext (hc.next ?_), hnext⟩
  rw [h.clients]
  decide

end RoutingDaemon
