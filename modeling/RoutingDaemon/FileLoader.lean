import RoutingDaemon.FlaskEngine
import RoutingDaemon.Lib.Run

/-!
# Loading and running a daemon

* `loadNodeConf`, `loadNodeFile`: the tables after the two files were read, from the fields of their
  lines.
* `boot`: the state in which `main` enters `engine_event`.
* `Event`, `act`: one pass of the event loop; `daemonSystem`: all runs of one daemon; `exec`: one
  of them, computed.
-/

namespace RoutingDaemon

/-! ### `file_loader.c` -/

/-- Entry `j` as the reading loop leaves it. The loop writes `lsa_is_new`, `lsa_size` and
`forwarder_id` at the token index, which is 5 by then; elsewhere these fields keep their zeros. -/
def loadedEntry (dl : DirectLinks) (j : ℕ) (l : LinkEntry) : RoutingEntry where
  id := l.id
  nexthop := l.id
  cost := if j = 0 then 0 else 1
  nodeStatus := 3
  lsa := none
  lsaSize := 0
  lsaIsNew := false
  forwarderId := if j = 5 then (dl.links.head?.map LinkEntry.id).getD 0 else 0
  checkersList := some ⟨.ofNat dl.numLinks, clearedCheckers dl⟩

/-- `load_node_conf`, from the fields of the lines: the two tables and `my_uri`. -/
def loadNodeConf (rows : List LinkEntry) (hostname : CString) :
    Except Fault (DirectLinks × RoutingTable × CString) :=
  if h : rows.length ≤ maxNodes then
    let dl : DirectLinks := ⟨rows, h⟩
    let port := (rows.head?.map LinkEntry.serverP).getD 0
    .ok (dl, ⟨rows.mapIdx (loadedEntry dl), by simpa using h⟩,
      cstr (ascii "http://" ++ hostname.1 ++ ascii ":" ++ decimal port.toInt))
  else .error .overflow

/-- `load_node_file`, from the two tokens of each line. -/
def loadNodeFile (myNodeId : Int32) :
    List (CString × CString) → LocalObjects → LisoHash → Except Fault (LocalObjects × LisoHash)
  | [], ol, gol => .ok (ol, gol)
  | (name, path) :: lines, ol, gol => do
    let n ← strcpy maxObjLen name
    let p ← strcpy maxPathLen path
    let ol ← ol.push ⟨n, p⟩
    let gol ← hashAdd superFastHash gol name myNodeId 0
    loadNodeFile myNodeId lines ol gol

theorem push_objects {ol ol' : LocalObjects} {o : ObjectEntry} (h : ol.push o = .ok ol') :
    ol'.objects = ol.objects ++ [o] := by
  unfold LocalObjects.push at h
  split_ifs at h
  cases h
  rfl

theorem loadNodeFile_cons_eq_ok {id : Int32} {p : CString × CString} {lines : List (CString × CString)}
    {ol : LocalObjects} {gol : LisoHash} {r : LocalObjects × LisoHash} :
    loadNodeFile id (p :: lines) ol gol = .ok r ↔ ∃ (o : ObjectEntry) (ol₁ : LocalObjects)
      (gol₁ : LisoHash), o.name.1 = p.1 ∧ o.path.1 = p.2 ∧ ol.push o = .ok ol₁ ∧
        hashAdd superFastHash gol p.1 id 0 = .ok gol₁ ∧ loadNodeFile id lines ol₁ gol₁ = .ok r := by
  constructor
  · intro h
    obtain ⟨n, hn, h⟩ := bind_eq_ok.mp h
    obtain ⟨q, hq, h⟩ := bind_eq_ok.mp h
    obtain ⟨ol₁, hol, h⟩ := bind_eq_ok.mp h
    obtain ⟨gol₁, hgol, h⟩ := bind_eq_ok.mp h
    exact ⟨⟨n, q⟩, ol₁, gol₁, strcpy_eq_ok.mp hn, strcpy_eq_ok.mp hq, hol, hgol, h⟩
  · rintro ⟨⟨n, q⟩, ol₁, gol₁, hn, hq, hol, hgol, h⟩
    exact bind_eq_ok.mpr ⟨n, strcpy_eq_ok.mpr hn, bind_eq_ok.mpr ⟨q, strcpy_eq_ok.mpr hq,
      bind_eq_ok.mpr ⟨ol₁, hol, bind_eq_ok.mpr ⟨gol₁, hgol, h⟩⟩⟩⟩

/-- No local objects. -/
def LocalObjects.empty : LocalObjects := ⟨[], by simp⟩

/-- A link to a host with a name of one character. -/
def linkOn (id : Int32) (c : UInt8) : LinkEntry :=
  ⟨id, ⟨cstr [c], (strlen_cstr_le [c]).trans_lt (by simp [maxBuf])⟩, 0, 0, 0⟩

/-- Unwritten memory that happens to hold zeros. -/
def zeros : Fresh := ⟨fun _ => 0, 0⟩

/-- The files a daemon is started with. -/
structure Files where
  rows : List LinkEntry
  hostname : CString
  lines : List (CString × CString)
  filefile : List UInt8

/-- The state in which `main` enters `engine_event`. -/
def boot (f : Files) : Except Fault Daemon := do
  let (dl, rt, myUri) ← loadNodeConf f.rows f.hostname
  let myNodeId := (dl.links.head?.map LinkEntry.id).getD 0
  let (ol, gol) ← loadNodeFile myNodeId f.lines LocalObjects.empty initHash
  .ok ⟨dl, ol, rt, gol, myNodeId, 0, retransmitTime + 1, myUri, f.filefile⟩

/-! ### Runs -/

/-- What one pass of the event loop handles. -/
inductive Event
  /-- `select` timed out -/
  | timeout (fresh : Fresh)
  /-- the UDP socket is readable -/
  | datagram (r : Received) (fresh : Fresh)
  /-- a parsed request, with the contents of `uri` and the outcome of `fopen` -/
  | request (c : TcpConnection) (uri : List UInt8) (opened : Bool)

/-- One pass of the event loop. -/
def act : Event → Daemon → Except Fault (Daemon × List Effect)
  | .timeout fresh, d => timeout fresh d
  | .datagram r fresh, d => receive fresh r d
  | .request c uri opened, d => do
    let (d, _) ← buildResponse uri opened d c
    .ok (d, [])

/-- The runs of a daemon started with the files `f`. A step that faults has no successor. -/
def daemonSystem (f : Files) : System Daemon (Event × List Effect) where
  init d := boot f = .ok d
  step d l d' := act l.1 d = .ok (d', l.2)

/-- Several passes of the event loop. -/
def exec : List Event → Daemon → Except Fault Daemon
  | [], d => .ok d
  | ev :: evs, d => do
    let (d, _) ← act ev d
    exec evs d

theorem reachable_exec {f : Files} {evs : List Event} {d d' : Daemon}
    (r : (daemonSystem f).Reachable d) (h : exec evs d = .ok d') : (daemonSystem f).Reachable d' := by
  induction evs generalizing d with
  | nil => cases h; exact r
  | cons ev evs ih =>
    obtain ⟨⟨d₁, out⟩, h1, h⟩ := bind_eq_ok.mp h
    exact ih (r.step (l := (ev, out)) h1) h

end RoutingDaemon
