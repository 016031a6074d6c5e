import RoutingDaemon.FileLoader
import RoutingDaemon.Lib.Memory

/-!
# Stored LSAs in memory

The flooding engine and the engine once more, with the blocks that hold the LSAs: `bytes_to_packet` and
`create_packet` allocate one, a routing entry points to one, and `update_entry`, `retransmit_missing` and the
flood tick free them. Lists of checkers are never freed, and stay in their entries.

* `Blocks.RoutingEntry`, `Blocks.RoutingTable`: an entry has a pointer; the table has the memory.
* `Blocks.Crash`: a fault, or misuse of the memory of another kind.
* The functions, under the source's names: `Blocks.updateEntry`, `Blocks.lsaHandler`, `Blocks.flood`,
  `Blocks.floodReceivedLsa`, `Blocks.retransmitMissing`, `Blocks.tickEntry`, `Blocks.timeout`,
  `Blocks.receive`.
* `Blocks.act`, `Blocks.daemonSystem`: the runs of a daemon in memory.
-/

namespace RoutingDaemon.Blocks

/-! ### The table -/

/-- `routing_entry` -/
structure RoutingEntry where
  id : Int32
  nexthop : Int32
  cost : ℤ
  nodeStatus : ℤ
  lsa : Ptr
  lsaSize : ℕ
  lsaIsNew : Bool
  forwarderId : Int32
  checkersList : Option AckCheckers

/-- The first `num_entry` entries of the routing table, and the blocks of the LSAs. -/
structure RoutingTable where
  table : List RoutingEntry
  bounded : table.length ≤ maxNodes
  lsas : Memory LSA

/-- Why there is no next state: a fault, or another misuse of the memory. -/
inductive Crash
  | fault (f : Fault)
  | memory (m : MemFault)
  deriving DecidableEq

/-- The memory faults that are faults of their own. -/
def Crash.ofMem : MemFault → Crash
  | .null => .fault .badPointer
  | .dangling => .fault .useAfterFree
  | m => .memory m

/-- A computation that has nothing to do with the blocks. -/
def lift {α : Type} (x : Except Fault α) : Except Crash α := x.mapError Crash.fault

/-- An access to the blocks. -/
def access {α : Type} (x : Except MemFault α) : Except Crash α := x.mapError Crash.ofMem

namespace RoutingTable

variable (t : RoutingTable)

/-- Change the entry at index `k`. -/
def modify (k : ℕ) (f : RoutingEntry → RoutingEntry) : RoutingTable :=
  ⟨t.table.modify k f, by simpa using t.bounded, t.lsas⟩

/-- Append an entry at index `num_entry`. -/
def push (e : RoutingEntry) : Except Fault RoutingTable :=
  if h : t.table.length < maxNodes then .ok ⟨t.table ++ [e], by simpa using h, t.lsas⟩
  else .error .overflow

/-- `*lsa` -/
def load (lsa : Ptr) : Except Crash LSA := access (t.lsas.load lsa)

/-- `lsa->version_ttl_type = f(lsa->version_ttl_type)` -/
def setHeader (lsa : Ptr) (f : BitVec 32 → BitVec 32) : Except Crash RoutingTable := do
  let lsas ← access (t.lsas.store (fun l => { l with versionTtlType := f l.versionTtlType }) lsa)
  .ok { t with lsas := lsas }

/-- A new block with a packet in it. -/
def alloc (A : Allocator) (packet : LSA) : Except Crash (Ptr × RoutingTable) := do
  let (lsa, lsas) := t.lsas.malloc A
  let lsas ← access (lsas.store (fun _ => packet) lsa)
  .ok (lsa, { t with lsas := lsas })

/-- Free the LSA of the entry at index `k`, and change the entry. -/
def release (k : ℕ) (f : RoutingEntry → RoutingEntry) : Except Crash RoutingTable := do
  let e ← lift (deref t.table[k]?)
  let lsas ← access (t.lsas.free e.lsa)
  .ok { t.modify k f with lsas := lsas }

end RoutingTable

/-- `get_routing_entry` -/
def getRoutingEntry (t : RoutingTable) (nodeId : Int32) : Option ℕ :=
  t.table.findIdx? fun e => e.id = nodeId

/-- `checkers_list->checkers[i]` of the entry at index `k`. -/
def getChecker (t : RoutingTable) (k i : ℕ) : Except Fault AckChecker := do
  let e ← deref t.table[k]?
  let c ← deref e.checkersList
  match c.checkers[i]? with
  | some a => .ok a
  | none => .error .overRead

/-- Change checker `i` of the entry at index `k`. -/
def modifyChecker (t : RoutingTable) (k i : ℕ) (f : AckChecker → AckChecker) : RoutingTable :=
  t.modify k fun e =>
    { e with checkersList := e.checkersList.map fun c => { c with checkers := c.checkers.modify i f } }

/-- `get_routing_entry(rt, id)->node_status` -/
def linkStatus (t : RoutingTable) (nodeId : Int32) : Except Fault ℤ := do
  let k ← deref (getRoutingEntry t nodeId)
  let e ← deref t.table[k]?
  return e.nodeStatus

/-! ### `update_entry` -/

/-- The cost and next hop of an existing entry, and the status. -/
def setRoute (newCost : ℤ) (nexthop : Int32) (e : RoutingEntry) : RoutingEntry :=
  { e with
    nexthop := if newCost < e.cost then nexthop else e.nexthop
    cost := if newCost < e.cost then newCost else e.cost
    nodeStatus := retransmitTime }

/-- The assignments of the second half of `update_entry`. -/
def storeLsa (fresh : Fresh) (dl : DirectLinks) (lsa : Ptr) (lsaSize : ℕ) (nexthop : Int32)
    (e : RoutingEntry) : RoutingEntry :=
  { e with
    lsa := lsa
    lsaIsNew := true
    lsaSize := lsaSize
    forwarderId := nexthop
    checkersList := some ⟨(e.checkersList.map AckCheckers.numLinks).getD fresh.numLinks,
      clearedCheckers dl⟩ }

/-- The entry for an unknown originator, before the second half; it was never used before. -/
def newEntry (lsa : LSA) (nexthop : Int32) (newCost : ℤ) : RoutingEntry :=
  ⟨lsa.senderNodeId, nexthop, newCost, retransmitTime, none, 0, false, 0, none⟩

/-- `update_entry` -/
def updateEntry (fresh : Fresh) (entry : Option ℕ) (t : RoutingTable) (dl : DirectLinks) (lsa : Ptr)
    (lsaSize : ℕ) (nexthop : Int32) : Except Crash RoutingTable := do
  let packet ← t.load lsa
  let newCost := defaultTtl - getTtl packet.versionTtlType + 1
  if getType packet.versionTtlType = typeLsa then
    match entry with
    | none => do
      let t ← lift (t.push (newEntry packet nexthop newCost))
      t.release (t.table.length - 1) (storeLsa fresh dl lsa lsaSize nexthop)
    | some k => (t.modify k (setRoute newCost nexthop)).release k (storeLsa fresh dl lsa lsaSize nexthop)
  else do
    let k ← lift (deref entry)
    t.release k (storeLsa fresh dl lsa lsaSize nexthop)

/-! ### `lsa_handler` -/

/-- `rt_recvfrom`: the packet (or NULL), the forwarder and the size. -/
def rtRecvfrom (A : Allocator) (dl : DirectLinks) (t : RoutingTable) :
    Received → Except Crash (Option (Ptr × Int32 × ℕ) × RoutingTable)
  | .failed => .error (.fault .badPointer)
  | .got cliAddr buf =>
    let buf := buf.take maxLsaLen
    if buf.length < sizeofLsa then .ok (none, t)
    else do
      let packet ← lift (bytesToPacket buf)
      let (lsa, t) ← t.alloc A packet
      let forwarder ← lift (deref (lookupLinkEntry dl cliAddr))
      .ok (some (lsa, forwarder.id, buf.length), t)

/-- The early return. -/
def filtered (t : RoutingTable) (entry : Option ℕ) (type : BitVec 32) (sequenceNum : Int32) :
    Except Crash Bool :=
  match (entry.bind fun k => t.table[k]?).bind RoutingEntry.lsa with
  | some a => do
    let old ← t.load (some a)
    .ok ((type = typeLsa && decide (sequenceNum.toInt ≤ old.sequenceNum.toInt)) ||
      (type = typeAck && sequenceNum != old.sequenceNum))
  | none => .ok false

/-- The ACK branch. -/
def creditAck (t : RoutingTable) (entry : Option ℕ) (forwarderId : Int32) : Except Fault RoutingTable := do
  let k ← deref entry
  let e ← deref t.table[k]?
  let c ← deref e.checkersList
  let own ← deref t.table[0]?
  let o ← deref own.checkersList
  let numLinks := c.numLinks.toInt.toNat
  if c.checkers.length < numLinks then .error .overRead
  else
    let credited := o.checkers.mapIdx fun i a =>
      if i < numLinks ∧ c.checkers[i]?.map AckChecker.id = some forwarderId then
        { a with ackReceived := .received, retransmit := 0 }
      else a
    .ok (t.modify 0 fun e => { e with checkersList := some { o with checkers := credited } })

/-- `lsa_handler`, with its return value. The packet is changed in place. -/
def lsaHandler (A : Allocator) (fresh : Fresh) (r : Received) (dl : DirectLinks) (t : RoutingTable)
    (ht : LisoHash) : Except (Crash × List Effect) (ℤ × RoutingTable × LisoHash × List Effect) := do
  let (received, t) ← afterEffects [] (rtRecvfrom A dl t r)
  let (lsa, forwarderId, lsaSize) ← afterEffects [] (lift (deref received))
  let packet ← afterEffects [] (t.load lsa)
  let type := getType packet.versionTtlType
  let entry := getRoutingEntry t packet.senderNodeId
  let early ← afterEffects [] (filtered t entry type packet.sequenceNum)
  if early then .ok (-1, t, ht, [])
  else if type = typeLsa then do
    let tmpType := packet.versionTtlType
    let t ← afterEffects [] (t.setHeader lsa fun w => setType w typeAck)
    let srcLink ← afterEffects [] (lift (deref (lookupLinkEntryNodeId dl forwarderId)))
    let ack ← afterEffects [] (t.load lsa)
    let out := [rtSendto ack srcLink lsaSize, .accept packet.senderNodeId packet.sequenceNum]
    let t ← afterEffects out (t.setHeader lsa fun w => setType w tmpType)
    let t ← afterEffects out (t.setHeader lsa fun w => setTtl w (getTtl w - 1))
    let t ← afterEffects out (updateEntry fresh entry t dl lsa lsaSize forwarderId)
    let stored ← afterEffects out (t.load lsa)
    let ht ← afterEffects out (lift (storeNodeObjects (hashAdd superFastHash) ht stored))
    .ok (1, t, ht, out)
  else if type = typeAck then do
    let t ← afterEffects [] (lift (creditAck t entry forwarderId))
    .ok (1, t, ht, [])
  else .ok (1, t, ht, [])

/-! ### Flooding -/

/-- The loop of `flood` and `flood_received_lsa`. -/
def floodLinks (k : ℕ) (lsa : Ptr) (size : ℕ) (skip : Int32 → Bool) :
    List (LinkEntry × ℕ) → RoutingTable → Except Crash (RoutingTable × List Effect)
  | [], t => .ok (t, [])
  | (l, i) :: rest, t =>
    if skip l.id then floodLinks k lsa size skip rest t
    else do
      let status ← lift (linkStatus t l.id)
      if status = statusDown then floodLinks k lsa size skip rest t
      else do
        let packet ← t.load lsa
        let _ ← lift (getChecker t k i)
        let (t, out) ← floodLinks k lsa size skip rest (modifyChecker t k i AckChecker.expect)
        .ok (t, rtSendto packet l size :: out)

/-- `flood` -/
def flood (A : Allocator) (fresh : Fresh) (lsaType : BitVec 32) (dl : DirectLinks) (ol : LocalObjects)
    (t : RoutingTable) (nodeId sequenceNum : Int32) : Except Crash (RoutingTable × List Effect) := do
  let (packet, size) ← lift (createPacket fresh lsaType nodeId sequenceNum dl ol)
  let (lsa, t) ← t.alloc A packet
  let entry := getRoutingEntry t nodeId
  let t ← updateEntry fresh entry t dl lsa size nodeId
  let k ← lift (deref entry)
  floodLinks k lsa size (fun _ => false) dl.neighbours t

/-- `flood_received_lsa` -/
def floodReceivedLsa (lsa : Ptr) (dl : DirectLinks) (t : RoutingTable) (lsaSize : ℕ)
    (forwarderId : Int32) : Except Crash (RoutingTable × List Effect) := do
  let packet ← t.load lsa
  let k ← lift (deref (getRoutingEntry t packet.senderNodeId))
  floodLinks k lsa lsaSize (fun id => id == forwarderId) dl.neighbours t

/-! ### Retransmission -/

/-- Give a node up: discard its stored LSA and set its status. -/
def RoutingEntry.discard (e : RoutingEntry) : RoutingEntry :=
  { e with lsa := none, nodeStatus := statusDown }

/-- The loop of `retransmit_missing`. The pointer to the packet is not looked up again. -/
def retransmitLinks (lsa : Ptr) (k lsaSize : ℕ) (forwarderId : Int32) :
    List (LinkEntry × ℕ) → RoutingTable → LisoHash →
      Except Crash (RoutingTable × LisoHash × List Effect)
  | [], t, ht => .ok (t, ht, [])
  | (l, i) :: rest, t, ht =>
    if l.id = forwarderId then retransmitLinks lsa k lsaSize forwarderId rest t ht
    else do
      let c ← lift (getChecker t k i)
      match c.ackReceived with
      | .received => retransmitLinks lsa k lsaSize forwarderId rest t ht
      | .notReceived => do
        let m ← lift (deref (getRoutingEntry t l.id))
        let entry ← lift (deref t.table[m]?)
        if c.retransmit ≥ retransmitTime - 1 then do
          let t ← t.release m RoutingEntry.discard
          let t := modifyChecker t k i fun a => { a with ackReceived := .received }
          let ht := hashRemoveNode superFastHash ht entry.id
          let (t, ht, out) ← retransmitLinks lsa k lsaSize forwarderId rest t ht
          .ok (t, ht, .giveUp entry.id :: out)
        else if entry.nodeStatus ≠ statusDown then do
          let packet ← t.load lsa
          let t := modifyChecker t k i fun a => { a with retransmit := a.retransmit + 1 }
          let (t, ht, out) ← retransmitLinks lsa k lsaSize forwarderId rest t ht
          .ok (t, ht, rtSendto packet l lsaSize :: out)
        else retransmitLinks lsa k lsaSize forwarderId rest t ht

/-- `retransmit_missing` -/
def retransmitMissing (lsa : Ptr) (dl : DirectLinks) (t : RoutingTable) (lsaSize : ℕ) (forwarderId : Int32)
    (ht : LisoHash) : Except Crash (RoutingTable × LisoHash × List Effect) :=
  if lsa = none then .ok (t, ht, [])
  else do
    let packet ← t.load lsa
    let k ← lift (deref (getRoutingEntry t packet.senderNodeId))
    retransmitLinks lsa k lsaSize forwarderId dl.neighbours t ht

/-! ### The engine -/

/-- "forward any LSA received to all other links" -/
def forwardEntry (dl : DirectLinks) (t : RoutingTable) (entry : RoutingEntry) :
    Except Crash (RoutingTable × List Effect) :=
  if entry.lsaIsNew ∧ entry.nodeStatus ≠ statusDown then
    floodReceivedLsa entry.lsa dl t entry.lsaSize entry.forwarderId
  else .ok (t, [])

/-- The body of the flood tick's loop for entry `i`; `entry` is the copy taken at its start. -/
def tickEntry (dl : DirectLinks) (i : ℕ) (t : RoutingTable) (ht : LisoHash) :
    Except Crash (RoutingTable × LisoHash × List Effect) := do
  let entry ← lift (deref t.table[i]?)
  let (t, out) ← forwardEntry dl t entry
  if entry.nodeStatus = statusDown then .ok (t, ht, out)
  else if entry.nodeStatus - 1 = statusDown then do
    let t ← t.release i RoutingEntry.discard
    .ok (t, hashRemoveNode superFastHash ht entry.id, out ++ [.expire entry.id])
  else .ok (t.modify i fun e => { e with nodeStatus := entry.nodeStatus - 1 }, ht, out)

/-- The flood tick's loop. -/
def tickEntries (dl : DirectLinks) : List ℕ → RoutingTable → LisoHash →
    Except Crash (RoutingTable × LisoHash × List Effect)
  | [], t, ht => .ok (t, ht, [])
  | i :: is, t, ht => do
    let (t, ht, out) ← tickEntry dl i t ht
    let (t, ht, out') ← tickEntries dl is t ht
    .ok (t, ht, out ++ out')

/-- The loop of a retransmission round; `entry` is a copy. -/
def retransmitEntries (dl : DirectLinks) : List ℕ → RoutingTable → LisoHash →
    Except Crash (RoutingTable × LisoHash × List Effect)
  | [], t, ht => .ok (t, ht, [])
  | i :: is, t, ht => do
    let entry ← lift (deref t.table[i]?)
    let (t, ht, out) ← retransmitMissing entry.lsa dl t entry.lsaSize entry.forwarderId ht
    let (t, ht, out') ← retransmitEntries dl is t ht
    .ok (t, ht, out ++ out')

/-- The global variables of a routing daemon, the counter of `engine_event`, and the contents of the
files file. -/
structure Daemon where
  dl : DirectLinks
  ol : LocalObjects
  rt : RoutingTable
  gol : LisoHash
  myNodeId : Int32
  sequenceNumber : Int32
  iterations : ℤ
  myUri : CString
  filefile : List UInt8

/-- "It's time to flood" -/
def floodTick (A : Allocator) (fresh : Fresh) (d : Daemon) : Except Crash (Daemon × List Effect) := do
  let (t, out) ← flood A fresh typeLsa d.dl d.ol d.rt d.myNodeId d.sequenceNumber
  let seq ← lift (nextSequence d.sequenceNumber)
  let (t, gol, out') ← tickEntries d.dl (List.range' 1 (t.table.length - 1)) t d.gol
  .ok ({ d with rt := t, gol := gol, sequenceNumber := seq, iterations := 0 }, out ++ out')

/-- A retransmission round over all entries. -/
def retransmitRound (d : Daemon) : Except Crash (Daemon × List Effect) := do
  let (t, gol, out) ← retransmitEntries d.dl (List.range d.rt.table.length) d.rt d.gol
  .ok ({ d with rt := t, gol := gol }, out)

/-- The first half of a timeout. -/
def floodPhase (A : Allocator) (fresh : Fresh) (d : Daemon) : Except Crash (Daemon × List Effect) :=
  if d.iterations = floodingPeriod then floodTick A fresh d else .ok (d, [])

/-- The second half of a timeout. -/
def retransmitPhase (d : Daemon) : Except Crash (Daemon × List Effect) :=
  if d.iterations ≠ 0 ∧ d.iterations ≤ retransmitTime then retransmitRound d else .ok (d, [])

/-- One pass of `engine_event` after a `select` timeout. -/
def timeout (A : Allocator) (fresh : Fresh) (d : Daemon) : Except Crash (Daemon × List Effect) := do
  let (d, out) ← floodPhase A fresh d
  let (d, out') ← retransmitPhase d
  .ok ({ d with iterations := d.iterations + 1 }, out ++ out')

/-- One pass of `engine_event` in which the UDP socket is readable. -/
def receive (A : Allocator) (fresh : Fresh) (r : Received) (d : Daemon) :
    Except Crash (Daemon × List Effect) := do
  let (_, t, gol, out) ← (lsaHandler A fresh r d.dl d.rt d.gol).mapError Prod.fst
  .ok ({ d with rt := t, gol := gol }, out)

/-! ### Runs -/

/-- An entry, with what its pointer leads to. -/
def RoutingEntry.read (m : Memory LSA) (e : RoutingEntry) : RoutingDaemon.RoutingEntry :=
  ⟨e.id, e.nexthop, e.cost, e.nodeStatus, e.lsa.map m.cell, e.lsaSize, e.lsaIsNew, e.forwarderId,
    e.checkersList⟩

/-- The table, with what its pointers lead to. -/
def RoutingTable.read (t : RoutingTable) : RoutingDaemon.RoutingTable :=
  ⟨t.table.map (RoutingEntry.read t.lsas), by simpa using t.bounded⟩

/-- The daemon, with what its pointers lead to. -/
def Daemon.read (d : Daemon) : RoutingDaemon.Daemon :=
  ⟨d.dl, d.ol, d.rt.read, d.gol, d.myNodeId, d.sequenceNumber, d.iterations, d.myUri, d.filefile⟩

/-- A loaded entry has no LSA. -/
def RoutingEntry.loaded (e : RoutingDaemon.RoutingEntry) : RoutingEntry :=
  ⟨e.id, e.nexthop, e.cost, e.nodeStatus, none, e.lsaSize, e.lsaIsNew, e.forwarderId, e.checkersList⟩

/-- The state in which `main` enters `engine_event`: no block is allocated, and none is read. -/
def boot (cells : ℕ → LSA) (f : Files) : Except Crash Daemon := do
  let d ← lift (RoutingDaemon.boot f)
  .ok ⟨d.dl, d.ol, ⟨d.rt.table.map RoutingEntry.loaded, by simpa using d.rt.bounded, ⟨cells, ∅, 0⟩⟩, d.gol,
    d.myNodeId, d.sequenceNumber, d.iterations, d.myUri, d.filefile⟩

/-- One pass of the event loop. `build_response` neither reads LSAs nor writes to the routing table. -/
def act (A : Allocator) : Event → Daemon → Except Crash (Daemon × List Effect)
  | .timeout fresh, d => timeout A fresh d
  | .datagram r fresh, d => receive A fresh r d
  | .request c uri opened, d => do
    let (d', _) ← lift (buildResponse uri opened d.read c)
    .ok ({ d with gol := d'.gol, ol := d'.ol, filefile := d'.filefile }, [])

/-- The runs of a daemon started with the files `f`, on an allocator. -/
def daemonSystem (A : Allocator) (f : Files) : System Daemon (Event × List Effect) where
  init d := ∃ cells, boot cells f = .ok d
  step d l d' := act A l.1 d = .ok (d', l.2)

end RoutingDaemon.Blocks
