import RoutingDaemon.RoutingTable
import RoutingDaemon.HashSet

/-!
# The flooding engine

`flooding_engine.c`: `rtRecvfrom`, `lsaHandler`, `flood`, `floodReceivedLsa`, `retransmitMissing`.
Each returns the tables it leaves and its `Effect`s, oldest first. Sockets are not modelled: a send
is an effect, and what `recvfrom` delivered is an argument. A fault of `lsaHandler` comes with its
effects up to there.
-/

namespace RoutingDaemon

/-- What a step of a daemon does besides changing its tables: the datagrams it sends, and marks for
the places in the source that the theorems talk about. -/
inductive Effect
  /-- `sendto` a host and port -/
  | sendto (host : CString) (port : Int32) (bytes : List UInt8)
  /-- `lsa_handler` passes an LSA of this node with this sequence number to `update_entry` -/
  | accept (nodeId sequenceNum : Int32)
  /-- `retransmit_missing` sets this node's status to `STATUS_DOWN` -/
  | giveUp (nodeId : Int32)
  /-- the flood tick ages this node's status to `STATUS_DOWN` -/
  | expire (nodeId : Int32)
  deriving DecidableEq

/-- `rt_sendto` -/
def rtSendto (lsa : LSA) (l : LinkEntry) (size : ℕ) : Effect :=
  .sendto l.host.1 l.routeP (lsa.bytes.take size)

/-- The result of `recvfrom` on the UDP socket. -/
inductive Received
  | failed
  | got (cliAddr : CString) (buf : List UInt8)
  deriving DecidableEq

/-- `rt_recvfrom`: the packet (or NULL), the forwarder and the size. A failure return is compared
with a `size_t`, so it passes the length check and is copied as a packet of that size. -/
def rtRecvfrom (dl : DirectLinks) : Received → Except Fault (Option (LSA × Int32 × ℕ))
  | .failed => .error .badPointer
  | .got cliAddr buf =>
    let buf := buf.take maxLsaLen
    if buf.length < sizeofLsa then .ok none
    else do
      let lsa ← bytesToPacket buf
      let forwarder ← deref (lookupLinkEntry dl cliAddr)
      return some (lsa, forwarder.id, buf.length)

theorem rtRecvfrom_eq_ok {dl : DirectLinks} {r : Received} {lsa : LSA} {id : Int32} {size : ℕ}
    (h : rtRecvfrom dl r = .ok (some (lsa, id, size))) :
    ∃ cliAddr buf f, r = .got cliAddr buf ∧ sizeofLsa ≤ buf.length ∧
      bytesToPacket (buf.take maxLsaLen) = .ok lsa ∧ lookupLinkEntry dl cliAddr = some f ∧
        id = f.id ∧ size = (buf.take maxLsaLen).length := by
  cases r with
  | failed => simp [rtRecvfrom] at h
  | got cliAddr buf =>
    simp only [rtRecvfrom] at h
    split_ifs at h with hl
    · simp at h
    · obtain ⟨p, hp, h⟩ := bind_eq_ok.mp h
      obtain ⟨f, hf, h⟩ := bind_eq_ok.mp h
      simp only [pure_eq_ok, Except.ok.injEq, Option.some.injEq, Prod.mk.injEq] at h
      obtain ⟨rfl, rfl, rfl⟩ := h
      rw [List.length_take] at hl
      exact ⟨cliAddr, buf, f, rfl, by omega, hp, deref_eq_ok.mp hf, rfl, rfl⟩

theorem rtRecvfrom_got {dl : DirectLinks} {a : CString} {buf : List UInt8} {l : LinkEntry} {lsa : LSA}
    (long : sizeofLsa ≤ buf.length) (known : lookupLinkEntry dl a = some l)
    (packet : bytesToPacket (buf.take maxLsaLen) = .ok lsa) :
    rtRecvfrom dl (.got a buf) = .ok (some (lsa, l.id, (buf.take maxLsaLen).length)) := by
  have hl : ¬ (buf.take maxLsaLen).length < sizeofLsa := not_lt.mpr (sizeofLsa_le_take long)
  rw [rtRecvfrom]
  simp only [if_neg hl, packet, known, deref_some, ok_bind, pure_eq_ok]

theorem rtRecvfrom_size {dl : DirectLinks} {r : Received} {lsa : LSA} {id : Int32} {size : ℕ}
    (h : rtRecvfrom dl r = .ok (some (lsa, id, size))) : sizeofLsa ≤ size := by
  obtain ⟨_, buf, _, -, hlong, -, -, -, rfl⟩ := rtRecvfrom_eq_ok h
  rw [List.length_take]
  exact le_min (by decide) hlong

/-! ### `lsa_handler` -/

/-- The early return: a stored LSA that is not older, or an ACK of another LSA. -/
def filtered (rt : RoutingTable) (entry : Option ℕ) (type : BitVec 32) (sequenceNum : Int32) : Bool :=
  match (entry.bind fun k => rt.table[k]?).bind RoutingEntry.lsa with
  | some old =>
    (type = typeLsa && decide (sequenceNum.toInt ≤ old.sequenceNum.toInt)) ||
      (type = typeAck && sequenceNum != old.sequenceNum)
  | none => false

/-- What `lsa_handler` stores of an accepted packet: the type was set to ACK and back, the TTL
decremented. -/
def acceptedLsa (lsa : LSA) : LSA :=
  let w := setType (setType lsa.versionTtlType typeAck) lsa.versionTtlType
  { lsa with versionTtlType := setTtl w (getTtl w - 1) }

/-- The ACK branch: the loop runs over the checkers of the originator's entry, and writes to those
of `table[0]`. -/
def creditAck (rt : RoutingTable) (entry : Option ℕ) (forwarderId : Int32) :
    Except Fault RoutingTable := do
  let k ← deref entry
  let e ← deref rt.table[k]?
  let c ← deref e.checkersList
  let own ← deref rt.table[0]?
  let o ← deref own.checkersList
  let numLinks := c.numLinks.toInt.toNat
  if c.checkers.length < numLinks then .error .overRead
  else
    let credited := o.checkers.mapIdx fun i a =>
      if i < numLinks ∧ c.checkers[i]?.map AckChecker.id = some forwarderId then
        { a with ackReceived := .received, retransmit := 0 }
      else a
    .ok (rt.modify 0 fun e => { e with checkersList := some { o with checkers := credited } })

/-- `lsa_handler`, with its return value. The ACK is sent before anything is stored. -/
def lsaHandler (fresh : Fresh) (r : Received) (dl : DirectLinks) (rt : RoutingTable)
    (ht : LisoHash) : Except (Fault × List Effect) (ℤ × RoutingTable × LisoHash × List Effect) := do
  let received ← afterEffects [] (rtRecvfrom dl r)
  let (lsa, forwarderId, lsaSize) ← afterEffects [] (deref received)
  let type := getType lsa.versionTtlType
  let entry := getRoutingEntry rt lsa.senderNodeId
  if filtered rt entry type lsa.sequenceNum then .ok (-1, rt, ht, [])
  else if type = typeLsa then do
    let ack := { lsa with versionTtlType := setType lsa.versionTtlType typeAck }
    let srcLink ← afterEffects [] (deref (lookupLinkEntryNodeId dl forwarderId))
    let out := [rtSendto ack srcLink lsaSize, .accept lsa.senderNodeId lsa.sequenceNum]
    let rt ← afterEffects out (updateEntry fresh entry rt dl (acceptedLsa lsa) lsaSize forwarderId)
    let ht ← afterEffects out (storeNodeObjects (hashAdd superFastHash) ht (acceptedLsa lsa))
    .ok (1, rt, ht, out)
  else if type = typeAck then do
    let rt ← afterEffects [] (creditAck rt entry forwarderId)
    .ok (1, rt, ht, [])
  else .ok (1, rt, ht, [])

/-- The effects of a call that returned or faulted. -/
def effects {α β γ : Type} : Except (Fault × List Effect) (α × β × γ × List Effect) → List Effect
  | .ok (_, _, _, out) => out
  | .error (_, out) => out

/-- A statement that faults does not take back what was done before it. -/
theorem effects_afterEffects {α β γ δ : Type} {out : List Effect} {x : Except Fault α}
    {g : α → Except (Fault × List Effect) (β × γ × δ × List Effect)} (hg : ∀ a, effects (g a) = out) :
    effects (afterEffects out x >>= g) = out := by
  cases x with
  | error e => rfl
  | ok a => exact hg a

/-- **What `lsa_handler` does, whether it returns or not.** -/
theorem mem_effects_lsaHandler {fresh : Fresh} {r : Received} {dl : DirectLinks} {rt : RoutingTable}
    {ht : LisoHash} {x : Effect} : x ∈ effects (lsaHandler fresh r dl rt ht) ↔
      ∃ lsa f size src, rtRecvfrom dl r = .ok (some (lsa, f, size)) ∧ getType lsa.versionTtlType = typeLsa ∧
        filtered rt (getRoutingEntry rt lsa.senderNodeId) typeLsa lsa.sequenceNum = false ∧
        lookupLinkEntryNodeId dl f = some src ∧
        (x = rtSendto { lsa with versionTtlType := setType lsa.versionTtlType typeAck } src size ∨
          x = .accept lsa.senderNodeId lsa.sequenceNum) := by
  rw [lsaHandler]
  cases hr : rtRecvfrom dl r with
  | error e => simp [effects]
  | ok o =>
    cases o with
    | none => simp [effects]
    | some p =>
      obtain ⟨lsa, f, size⟩ := p
      simp only [afterEffects_ok, ok_bind, deref_some]
      split_ifs with hfil hlsa hack
      · refine iff_of_false List.not_mem_nil ?_
        rintro ⟨_, _, _, _, ⟨⟩, type, newer, -⟩
        rw [type, newer] at hfil
        cases hfil
      · rw [hlsa, Bool.not_eq_true] at hfil
        cases hsrc : lookupLinkEntryNodeId dl f with
        | none =>
          refine iff_of_false List.not_mem_nil ?_
          rintro ⟨_, _, _, _, ⟨⟩, -, -, link, -⟩
          rw [hsrc] at link
          cases link
        | some src =>
          rw [deref_some, afterEffects_ok, ok_bind, effects_afterEffects, List.mem_cons, List.mem_singleton]
          swap
          · exact fun rt' => effects_afterEffects fun _ => rfl
          constructor
          · exact fun hx => ⟨lsa, f, size, src, rfl, hlsa, hfil, hsrc, hx⟩
          · rintro ⟨_, _, _, _, ⟨⟩, -, -, link, hx⟩
            rw [hsrc] at link
            cases link
            exact hx
      · refine iff_of_false ?_ ?_
        · cases creditAck rt (getRoutingEntry rt lsa.senderNodeId) f <;> exact List.not_mem_nil
        · rintro ⟨_, _, _, _, ⟨⟩, type, -⟩
          exact hlsa type
      · refine iff_of_false List.not_mem_nil ?_
        rintro ⟨_, _, _, _, ⟨⟩, type, -⟩
        exact hlsa type

/-! ### Flooding -/

/-- `get_routing_entry(rt, id)->node_status` -/
def linkStatus (rt : RoutingTable) (nodeId : Int32) : Except Fault ℤ := do
  let k ← deref (getRoutingEntry rt nodeId)
  let e ← deref rt.table[k]?
  return e.nodeStatus

/-- Wait for an acknowledgement. -/
def AckChecker.expect (a : AckChecker) : AckChecker := { a with ackReceived := .notReceived }

/-- The loop of `flood` and `flood_received_lsa` over links with their indices: send the packet to
every link that is not skipped and not down, and wait for its ACK in entry `k`. -/
def floodLinks (k : ℕ) (lsa : LSA) (size : ℕ) (skip : Int32 → Bool) :
    List (LinkEntry × ℕ) → RoutingTable → Except Fault (RoutingTable × List Effect)
  | [], rt => .ok (rt, [])
  | (l, i) :: rest, rt =>
    if skip l.id then floodLinks k lsa size skip rest rt
    else do
      let status ← linkStatus rt l.id
      if status = statusDown then floodLinks k lsa size skip rest rt
      else do
        let _ ← getChecker rt k i
        let (rt, out) ← floodLinks k lsa size skip rest (modifyChecker rt k i AckChecker.expect)
        .ok (rt, rtSendto lsa l size :: out)

/-- Links `1 .. num_links - 1` with their indices. -/
def DirectLinks.neighbours (dl : DirectLinks) : List (LinkEntry × ℕ) := dl.links.zipIdx.tail

/-- `flood` -/
def flood (fresh : Fresh) (lsaType : BitVec 32) (dl : DirectLinks) (ol : LocalObjects)
    (rt : RoutingTable) (nodeId sequenceNum : Int32) :
    Except Fault (RoutingTable × List Effect) := do
  let (lsa, size) ← createPacket fresh lsaType nodeId sequenceNum dl ol
  let entry := getRoutingEntry rt nodeId
  let rt ← updateEntry fresh entry rt dl lsa size nodeId
  let k ← deref entry
  floodLinks k lsa size (fun _ => false) dl.neighbours rt

/-- `flood_received_lsa` -/
def floodReceivedLsa (lsa : LSA) (dl : DirectLinks) (rt : RoutingTable) (lsaSize : ℕ)
    (forwarderId : Int32) : Except Fault (RoutingTable × List Effect) := do
  let k ← deref (getRoutingEntry rt lsa.senderNodeId)
  floodLinks k lsa lsaSize (fun id => id == forwarderId) dl.neighbours rt

/-! ### Retransmission -/

/-- Give a node up: discard its stored LSA and set its status. -/
def RoutingEntry.discard (e : RoutingEntry) : RoutingEntry :=
  { e with lsa := none, nodeStatus := statusDown }

/-- The LSA an entry stores now; a pointer to it taken earlier may dangle. -/
def storedLsa (rt : RoutingTable) (slot : ℕ) : Option LSA := rt.table[slot]?.bind RoutingEntry.lsa

/-- The loop of `retransmit_missing` over links with their indices. The packet is the one stored in
entry `slot`; its checkers are those of entry `k`. -/
def retransmitLinks (slot k lsaSize : ℕ) (forwarderId : Int32) :
    List (LinkEntry × ℕ) → RoutingTable → LisoHash →
      Except Fault (RoutingTable × LisoHash × List Effect)
  | [], rt, ht => .ok (rt, ht, [])
  | (l, i) :: rest, rt, ht =>
    if l.id = forwarderId then retransmitLinks slot k lsaSize forwarderId rest rt ht
    else do
      let c ← getChecker rt k i
      match c.ackReceived with
      | .received => retransmitLinks slot k lsaSize forwarderId rest rt ht
      | .notReceived => do
        let m ← deref (getRoutingEntry rt l.id)
        let entry ← deref rt.table[m]?
        if c.retransmit ≥ retransmitTime - 1 then do
          let rt := modifyChecker (rt.modify m RoutingEntry.discard) k i
            fun a => { a with ackReceived := .received }
          let ht := hashRemoveNode superFastHash ht entry.id
          let (rt, ht, out) ← retransmitLinks slot k lsaSize forwarderId rest rt ht
          .ok (rt, ht, .giveUp entry.id :: out)
        else if entry.nodeStatus ≠ statusDown then
          match storedLsa rt slot with
          | none => .error .useAfterFree
          | some lsa => do
            let rt := modifyChecker rt k i fun a => { a with retransmit := a.retransmit + 1 }
            let (rt, ht, out) ← retransmitLinks slot k lsaSize forwarderId rest rt ht
            .ok (rt, ht, rtSendto lsa l lsaSize :: out)
        else retransmitLinks slot k lsaSize forwarderId rest rt ht

/-- `retransmit_missing` for the LSA stored in entry `slot`. -/
def retransmitMissing (slot : ℕ) (dl : DirectLinks) (rt : RoutingTable) (lsaSize : ℕ)
    (forwarderId : Int32) (ht : LisoHash) : Except Fault (RoutingTable × LisoHash × List Effect) :=
  match storedLsa rt slot with
  | none => .ok (rt, ht, [])
  | some lsa => do
    let k ← deref (getRoutingEntry rt lsa.senderNodeId)
    retransmitLinks slot k lsaSize forwarderId dl.neighbours rt ht

end RoutingDaemon
