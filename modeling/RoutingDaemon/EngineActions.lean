import RoutingDaemon.FloodingEngine

/-!
# The engine

* `Daemon`: the global state of one routing daemon.
* `timeout`: one pass of `engine_event` whose `select` timed out: the flood tick when `iterations`
  has reached `FLOODING_PERIOD`, a retransmission round in the next `RETRANSMIT_TIME` passes.
* `receive`: one pass that reads a datagram.
-/

namespace RoutingDaemon

/-- The global variables of a routing daemon, the counter of `engine_event`, and the contents of the
files file. -/
structure Daemon where
  dl : DirectLinks
  ol : LocalObjects
  rt : RoutingTable
  gol : LisoHash
  myNodeId : Int32
  sequenceNumber : Int32
  iterations : ℤ
  myUri : CString
  filefile : List UInt8

/-- `sequence_number++` -/
def nextSequence (n : Int32) : Except Fault Int32 :=
  if n = Int32.maxValue then .error .signedOverflow else .ok (n + 1)

/-- "forward any LSA received to all other links": the first test of the flood tick's loop, on the
copy of an entry. -/
def forwardEntry (dl : DirectLinks) (rt : RoutingTable) (entry : RoutingEntry) :
    Except Fault (RoutingTable × List Effect) :=
  if entry.lsaIsNew ∧ entry.nodeStatus ≠ statusDown then do
    let lsa ← deref entry.lsa
    floodReceivedLsa lsa dl rt entry.lsaSize entry.forwarderId
  else .ok (rt, [])

/-- The body of the flood tick's loop for entry `i`; `entry` is the copy taken at its start. -/
def tickEntry (dl : DirectLinks) (i : ℕ) (rt : RoutingTable) (ht : LisoHash) :
    Except Fault (RoutingTable × LisoHash × List Effect) := do
  let entry ← deref rt.table[i]?
  let (rt, out) ← forwardEntry dl rt entry
  if entry.nodeStatus = statusDown then .ok (rt, ht, out)
  else if entry.nodeStatus - 1 = statusDown then
    .ok (rt.modify i RoutingEntry.discard, hashRemoveNode superFastHash ht entry.id,
      out ++ [.expire entry.id])
  else .ok (rt.modify i fun e => { e with nodeStatus := entry.nodeStatus - 1 }, ht, out)

/-- The flood tick's loop. -/
def tickEntries (dl : DirectLinks) : List ℕ → RoutingTable → LisoHash →
    Except Fault (RoutingTable × LisoHash × List Effect)
  | [], rt, ht => .ok (rt, ht, [])
  | i :: is, rt, ht => do
    let (rt, ht, out) ← tickEntry dl i rt ht
    let (rt, ht, out') ← tickEntries dl is rt ht
    .ok (rt, ht, out ++ out')

/-- "It's time to flood": the own LSA, then every entry from index 1. -/
def floodTick (fresh : Fresh) (d : Daemon) : Except Fault (Daemon × List Effect) := do
  let (rt, out) ← flood fresh typeLsa d.dl d.ol d.rt d.myNodeId d.sequenceNumber
  let seq ← nextSequence d.sequenceNumber
  let (rt, gol, out') ← tickEntries d.dl (List.range' 1 (rt.numEntry - 1)) rt d.gol
  .ok ({ d with rt := rt, gol := gol, sequenceNumber := seq, iterations := 0 }, out ++ out')

/-- The loop of a retransmission round. -/
def retransmitEntries (dl : DirectLinks) : List ℕ → RoutingTable → LisoHash →
    Except Fault (RoutingTable × LisoHash × List Effect)
  | [], rt, ht => .ok (rt, ht, [])
  | i :: is, rt, ht => do
    let entry ← deref rt.table[i]?
    let (rt, ht, out) ← retransmitMissing i dl rt entry.lsaSize entry.forwarderId ht
    let (rt, ht, out') ← retransmitEntries dl is rt ht
    .ok (rt, ht, out ++ out')

/-- A retransmission round over all entries. -/
def retransmitRound (d : Daemon) : Except Fault (Daemon × List Effect) := do
  let (rt, gol, out) ← retransmitEntries d.dl (List.range d.rt.numEntry) d.rt d.gol
  .ok ({ d with rt := rt, gol := gol }, out)

/-- The first half of a timeout: the flood tick, once in a period. -/
def floodPhase (fresh : Fresh) (d : Daemon) : Except Fault (Daemon × List Effect) :=
  if d.iterations = floodingPeriod then floodTick fresh d else .ok (d, [])

/-- The second half of a timeout: a retransmission round, if it is time for one. -/
def retransmitPhase (d : Daemon) : Except Fault (Daemon × List Effect) :=
  if d.iterations ≠ 0 ∧ d.iterations ≤ retransmitTime then retransmitRound d else .ok (d, [])

/-- One pass of `engine_event` after a `select` timeout. -/
def timeout (fresh : Fresh) (d : Daemon) : Except Fault (Daemon × List Effect) := do
  let (d, out) ← floodPhase fresh d
  let (d, out') ← retransmitPhase d
  .ok ({ d with iterations := d.iterations + 1 }, out ++ out')

/-- One pass of `engine_event` in which the UDP socket is readable: `recv_handler` calls
`lsa_handler`. -/
def receive (fresh : Fresh) (r : Received) (d : Daemon) : Except Fault (Daemon × List Effect) := do
  let (_, rt, gol, out) ← (lsaHandler fresh r d.dl d.rt d.gol).mapError Prod.fst
  .ok ({ d with rt := rt, gol := gol }, out)

end RoutingDaemon
