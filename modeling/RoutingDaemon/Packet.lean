import RoutingDaemon.Basic
import RoutingDaemon.Lib.LittleEndian

/-!
# LSA packets

* `DirectLinks`, `LocalObjects`: the two static tables a packet is built from. Their C strings fit
  their arrays and their counts fit the tables, by type.
* `LSA`: the packed struct; `LSA.bytes` its memory image; `bytesToPacket` reads it back
  (`bytesToPacket_bytes_take`).
* `getVersion`, `getTtl`, `getType`, `setVersion`, `setTtl`, `setType`: the header macros, and their algebra.
* `createPacket`: what `flood` sends; `storeNodeObjects`: what a receiver reads, for any function
  in the place of `hash_add`.
-/

namespace RoutingDaemon

/-! ### The tables of a node -/

/-- An entry of the direct neighbours table. -/
structure LinkEntry where
  id : Int32
  host : CharBuf maxBuf
  localP : Int32
  routeP : Int32
  serverP : Int32
  deriving DecidableEq

/-- The direct neighbours table; `links[0]` is the node itself. -/
structure DirectLinks where
  links : List LinkEntry
  bounded : links.length ≤ maxNodes
  deriving DecidableEq

/-- `num_links` -/
def DirectLinks.numLinks (dl : DirectLinks) : ℕ := dl.links.length

/-- An entry of the local objects table. -/
structure ObjectEntry where
  name : CharBuf maxObjLen
  path : CharBuf maxPathLen
  deriving DecidableEq

/-- The local objects table. -/
structure LocalObjects where
  objects : List ObjectEntry
  bounded : objects.length ≤ maxObjNum
  deriving DecidableEq

/-- `num_objects` -/
def LocalObjects.numObjects (ol : LocalObjects) : ℕ := ol.objects.length

/-- Append an object at index `num_objects`. -/
def LocalObjects.push (ol : LocalObjects) (o : ObjectEntry) : Except Fault LocalObjects :=
  if h : ol.objects.length < maxObjNum then .ok ⟨ol.objects ++ [o], by simpa using h⟩
  else .error .overflow

/-! ### The header word -/

/-- `TYPE_LSA` -/
def typeLsa : BitVec 32 := 0x00000000

/-- `TYPE_ACK` -/
def typeAck : BitVec 32 := 0x00000001

/-- `TYPE_DOWN` -/
def typeDown : BitVec 32 := 0x00000010

/-- `GET_VERSION` -/
def getVersion (w : BitVec 32) : ℤ := (w.sshiftRight 24 &&& 0xFF).toInt

/-- `GET_TTL` -/
def getTtl (w : BitVec 32) : ℤ := (w.sshiftRight 16 &&& 0xFF).toInt

/-- `GET_TYPE` -/
def getType (w : BitVec 32) : BitVec 32 := w &&& 0xFFFF

/-- `SET_VERSION` -/
def setVersion (line version : BitVec 32) : BitVec 32 := line &&& 0x00FFFFFF ||| version <<< 24

/-- `SET_TTL` -/
def setTtl (line : BitVec 32) (ttl : ℤ) : BitVec 32 :=
  line &&& 0xFF00FFFF ||| BitVec.ofInt 32 ttl <<< 16

/-- `SET_TYPE` -/
def setType (line type : BitVec 32) : BitVec 32 := line &&& 0xFFFF0000 ||| type

/-! ### Packets in memory -/

/-- An LSA or ACK packet: five header words and a payload of any length. -/
structure LSA where
  versionTtlType : BitVec 32
  senderNodeId : Int32
  sequenceNum : Int32
  numLinks : Int32
  numObjects : Int32
  linksObjects : List UInt8
  deriving DecidableEq

/-- `sizeof(LSA)`, which is also `5*sizeof(int)`. -/
def sizeofLsa : ℕ := 20

/-- The memory image of a packet. -/
def LSA.bytes (l : LSA) : List UInt8 :=
  le32 l.versionTtlType ++ (le32 l.senderNodeId.toBitVec ++ (le32 l.sequenceNum.toBitVec ++
    (le32 l.numLinks.toBitVec ++ (le32 l.numObjects.toBitVec ++ l.linksObjects))))

/-- A header word at the head of some bytes. -/
def headerWord (buf : List UInt8) : Except Fault (BitVec 32) :=
  match ofLe32 buf with
  | some w => .ok w
  | none => .error .overRead

/-- `bytes_to_packet`, with the header fields of the copy read out. -/
def bytesToPacket (buf : List UInt8) : Except Fault LSA := do
  let versionTtlType ← headerWord buf
  let senderNodeId ← headerWord (buf.drop 4)
  let sequenceNum ← headerWord (buf.drop 8)
  let numLinks ← headerWord (buf.drop 12)
  let numObjects ← headerWord (buf.drop 16)
  return ⟨versionTtlType, .ofBitVec senderNodeId, .ofBitVec sequenceNum, .ofBitVec numLinks,
    .ofBitVec numObjects, buf.drop 20⟩

/-! ### Building a packet -/

/-- What the program finds in freshly allocated memory before it writes there: the bytes of a
packet's payload, and the `num_links` field of a list of checkers. -/
structure Fresh where
  packet : ℕ → UInt8
  numLinks : Int32

/-- The link ids written after the header: those of links `1 .. num_links - 1`. -/
def linkBytes (dl : DirectLinks) : List UInt8 := dl.links.tail.flatMap fun l => le32 l.id.toBitVec

/-- One object name, length first. -/
def objectBytes (o : ObjectEntry) : List UInt8 :=
  le32 (BitVec.ofNat 32 (strlen o.name.1)) ++ o.name.1.1

/-- What `create_packet` writes after the header. -/
def writtenBytes (dl : DirectLinks) (ol : LocalObjects) : List UInt8 :=
  linkBytes dl ++ ol.objects.flatMap objectBytes

/-- `link_size_total` -/
def linkSizeTotal (dl : DirectLinks) : ℕ := 4 * dl.numLinks

/-- `object_size_total` -/
def objectSizeTotal (ol : LocalObjects) : ℕ :=
  4 * ol.numObjects + (ol.objects.map fun o => strlen o.name.1).sum

/-- The header word of a new packet. -/
def newHeader (type : BitVec 32) : BitVec 32 :=
  setType (setTtl (setVersion 0 0x1) defaultTtl) type

/-- `create_packet`; the second component is `*size`. The payload is the whole allocated block, so
what is not written keeps its fresh contents. For any other type `lsa` is never assigned. -/
def createPacket (fresh : Fresh) (type : BitVec 32) (nodeId sequenceNum : Int32)
    (dl : DirectLinks) (ol : LocalObjects) : Except Fault (LSA × ℕ) :=
  if type = typeAck ∨ type = typeDown then
    .ok (⟨newHeader type, nodeId, sequenceNum, -1, 0, []⟩, sizeofLsa)
  else if type = typeLsa then
    let total := linkSizeTotal dl + objectSizeTotal ol
    let written := writtenBytes dl ol
    let leftover := (List.range' written.length (total - written.length)).map fresh.packet
    .ok (⟨newHeader type, nodeId, sequenceNum, .ofInt (dl.numLinks - 1), .ofNat ol.numObjects,
      written ++ leftover⟩, sizeofLsa + total)
  else .error .badPointer

/-! ### Reading a packet -/

/-- The `int` at index `i` of `links_objects`. A negative index points back into the header. -/
def readInt (lsa : LSA) (i : ℤ) : Except Fault ℤ :=
  if sizeofLsa + i < 0 then .error .overRead
  else match ofLe32 (lsa.bytes.drop (sizeofLsa + i).toNat) with
    | some w => .ok w.toInt
    | none => .error .overRead

/-- `strncpy(object, links_objects + i, len)` into `char object[MAX_OBJ_LEN]`, then
`object[len] = '\0'`. A negative `len` is a huge `size_t`. -/
def readName (lsa : LSA) (i len : ℤ) : Except Fault CString :=
  if len < 0 ∨ maxObjLen ≤ len then .error .overflow
  else
    let src := (lsa.bytes.drop (sizeofLsa + i).toNat).take len.toNat
    if src.length < len ∧ 0 ∉ src then .error .overRead else .ok (cstr src)

section Store

variable {σ : Type} (add : σ → CString → Int32 → ℤ → Except Fault σ)

/-- The loop of `store_node_objects`, with `n` rounds left and `lsa_index` as given. -/
def storeLoop (lsa : LSA) : ℕ → ℤ → σ → Except Fault σ
  | 0, _, ht => .ok ht
  | n + 1, lsaIndex, ht => do
    let objectLen ← readInt lsa lsaIndex
    let object ← readName lsa (lsaIndex + 4) objectLen
    let ht ← add ht object lsa.senderNodeId (defaultTtl - getTtl lsa.versionTtlType + 1)
    storeLoop lsa n (lsaIndex + 4 + objectLen) ht

/-- `store_node_objects`, with `add` called for `hash_add`. -/
def storeNodeObjects (ht : σ) (lsa : LSA) : Except Fault σ :=
  storeLoop add lsa lsa.numObjects.toInt.toNat (lsa.numLinks <<< 2).toInt ht

end Store

section Store

variable {σ : Type} {add : σ → CString → Int32 → ℤ → Except Fault σ}

/-- **Invariant rule for `store_node_objects`.** -/
theorem storeNodeObjects_invariant {I : σ → Prop} {lsa : LSA} {ht ht' : σ}
    (hadd : ∀ h s h', I h → add h s lsa.senderNodeId
      (defaultTtl - getTtl lsa.versionTtlType + 1) = .ok h' → I h') (h0 : I ht)
    (h : storeNodeObjects add ht lsa = .ok ht') : I ht' := by
  unfold storeNodeObjects at h
  generalize lsa.numObjects.toInt.toNat = n at h
  generalize (lsa.numLinks <<< 2).toInt = i at h
  induction n generalizing ht i with
  | zero => cases h; exact h0
  | succ n ih =>
    obtain ⟨len, -, h⟩ := bind_eq_ok.mp h
    obtain ⟨s, -, h⟩ := bind_eq_ok.mp h
    obtain ⟨h₁, h1, h⟩ := bind_eq_ok.mp h
    exact ih (hadd _ _ _ h0 h1) _ h

end Store

/-! ### Header algebra -/

theorem ttl_eq_extract (w : BitVec 32) :
    w.sshiftRight 16 &&& 0xFF = (w.extractLsb' 16 8).setWidth 32 := by
  ext i hi
  interval_cases i <;> simp [BitVec.getElem_sshiftRight]

theorem getTtl_eq (w : BitVec 32) : getTtl w = (w.extractLsb' 16 8).toNat := by
  have h := (w.extractLsb' 16 8).isLt
  unfold getTtl
  rw [ttl_eq_extract, BitVec.toInt_setWidth]
  simp only [Int.bmod]
  omega

theorem extract_setTtl (w : BitVec 32) (t : BitVec 32) :
    (w &&& 0xFF00FFFF ||| t <<< 16).extractLsb' 16 8 = t.extractLsb' 0 8 := by
  ext i hi
  interval_cases i <;> simp

theorem getTtl_setTtl (w : BitVec 32) {t : ℤ} (h0 : 0 ≤ t) (h1 : t ≤ 255) :
    getTtl (setTtl w t) = t := by
  rw [getTtl_eq, setTtl, extract_setTtl]
  simp
  omega

theorem getTtl_le (w : BitVec 32) : getTtl w ≤ 255 := by
  have h := (w.extractLsb' 16 8).isLt
  rw [getTtl_eq]
  omega

theorem getVersion_setTtl (w : BitVec 32) {t : ℤ} (h0 : 0 ≤ t) (h1 : t ≤ 255) :
    getVersion (setTtl w t) = getVersion w := by
  obtain ⟨n, rfl⟩ := Int.eq_ofNat_of_zero_le h0
  have hbit : ∀ i (hi : i < 32), 8 ≤ i → (BitVec.ofInt 32 n)[i] = false := by
    intro i hi h8
    have hn : n < 2 ^ i := lt_of_lt_of_le (by omega : n < 2 ^ 8) (Nat.pow_le_pow_right (by decide) h8)
    rw [BitVec.ofInt_natCast, BitVec.getElem_eq_testBit_toNat, BitVec.toNat_ofNat,
      Nat.mod_eq_of_lt (by omega), Nat.testBit_lt_two_pow hn]
  unfold getVersion setTtl
  generalize BitVec.ofInt 32 n = v at hbit
  congr 1
  ext i hi
  interval_cases i <;> simp [BitVec.getElem_sshiftRight, hbit]

@[simp] theorem getType_setTtl (w : BitVec 32) (t : ℤ) : getType (setTtl w t) = getType w := by
  unfold getType setTtl
  ext i hi
  interval_cases i <;> simp

@[simp] theorem getType_setType_ack (w : BitVec 32) : getType (setType w typeAck) = typeAck := by
  unfold getType setType typeAck
  ext i hi
  interval_cases i <;> simp

/-- The type is restored by putting the whole old word back. -/
@[simp] theorem setType_setType_ack (w : BitVec 32) : setType (setType w typeAck) w = w := by
  unfold setType typeAck
  ext i hi
  interval_cases i <;> simp

@[simp] theorem getTtl_newHeader : getTtl (newHeader typeLsa) = 32 := by decide

@[simp] theorem getType_newHeader : getType (newHeader typeLsa) = typeLsa := by decide

/-! ### The memory image -/

@[simp] theorem headerWord_le32 (w : BitVec 32) (bs : List UInt8) :
    headerWord (le32 w ++ bs) = .ok w := by simp [headerWord]

@[simp] theorem length_bytes (l : LSA) : l.bytes.length = sizeofLsa + l.linksObjects.length := by
  simp [LSA.bytes, sizeofLsa]; omega

/-- **Reading back a sent packet.** Truncation beyond the header only cuts the payload. -/
theorem bytesToPacket_bytes_take (l : LSA) {n : ℕ} (hn : sizeofLsa ≤ n) :
    bytesToPacket (l.bytes.take n) =
      .ok { l with linksObjects := l.linksObjects.take (n - sizeofLsa) } := by
  obtain ⟨m, rfl⟩ := Nat.exists_eq_add_of_le hn
  have key : l.bytes.take (sizeofLsa + m) = { l with linksObjects := l.linksObjects.take m }.bytes := by
    simp [LSA.bytes, sizeofLsa, le32, Nat.add_comm]
  rw [key]
  simp [bytesToPacket, LSA.bytes, sizeofLsa]

theorem bytesToPacket_length {buf : List UInt8} {l : LSA} (h : bytesToPacket buf = .ok l)
    (hn : sizeofLsa ≤ buf.length) : l.bytes.length = buf.length := by
  obtain ⟨_, _, h⟩ := bind_eq_ok.mp h
  obtain ⟨_, _, h⟩ := bind_eq_ok.mp h
  obtain ⟨_, _, h⟩ := bind_eq_ok.mp h
  obtain ⟨_, _, h⟩ := bind_eq_ok.mp h
  obtain ⟨_, _, h⟩ := bind_eq_ok.mp h
  cases h
  unfold sizeofLsa at hn
  rw [length_bytes, List.length_drop, sizeofLsa]
  omega

theorem bytesToPacket_bytes (l : LSA) : bytesToPacket l.bytes = .ok l := by
  have h := bytesToPacket_bytes_take l (n := sizeofLsa + l.linksObjects.length) (by omega)
  rw [List.take_of_length_le (by simp)] at h
  simpa using h

/-! ### New packets -/

theorem length_linkBytes (dl : DirectLinks) : (linkBytes dl).length = 4 * (dl.numLinks - 1) := by
  unfold linkBytes
  rw [List.length_flatMap]
  simp [DirectLinks.numLinks, Nat.mul_comm]

theorem length_objectBytes (os : List ObjectEntry) :
    (os.flatMap objectBytes).length = 4 * os.length + (os.map fun o => strlen o.name.1).sum := by
  induction os with
  | nil => rfl
  | cons o os ih =>
    simp only [List.flatMap_cons, List.length_append, ih, objectBytes, length_le32,
      List.length_cons, List.map_cons, List.sum_cons, strlen]
    omega

theorem length_writtenBytes (dl : DirectLinks) (ol : LocalObjects) :
    (writtenBytes dl ol).length = 4 * (dl.numLinks - 1) + objectSizeTotal ol := by
  rw [writtenBytes, List.length_append, length_linkBytes, length_objectBytes, objectSizeTotal,
    LocalObjects.numObjects]

theorem sizeofLsa_le_take {buf : List UInt8} (h : sizeofLsa ≤ buf.length) :
    sizeofLsa ≤ (buf.take maxLsaLen).length := by
  rw [List.length_take]
  exact le_min (by decide) h

/-- The packet that `create_packet` makes for `flood`, with what is left over of the block. -/
theorem createPacket_typeLsa (fresh : Fresh) (nodeId sequenceNum : Int32) (dl : DirectLinks)
    (ol : LocalObjects) : createPacket fresh typeLsa nodeId sequenceNum dl ol =
      .ok (⟨newHeader typeLsa, nodeId, sequenceNum, .ofInt (dl.numLinks - 1), .ofNat ol.numObjects,
        writtenBytes dl ol ++ (List.range' (writtenBytes dl ol).length (linkSizeTotal dl +
          objectSizeTotal ol - (writtenBytes dl ol).length)).map fresh.packet⟩,
        sizeofLsa + (linkSizeTotal dl + objectSizeTotal ol)) := by
  rw [createPacket, if_neg (by decide), if_pos rfl]

theorem createPacket_lsa {fresh : Fresh} {nodeId sequenceNum : Int32} {dl : DirectLinks}
    {ol : LocalObjects} {lsa : LSA} {size : ℕ}
    (h : createPacket fresh typeLsa nodeId sequenceNum dl ol = .ok (lsa, size)) :
    lsa.versionTtlType = newHeader typeLsa ∧ lsa.senderNodeId = nodeId ∧
      lsa.sequenceNum = sequenceNum ∧ size = lsa.bytes.length := by
  have hw := length_writtenBytes dl ol
  rw [createPacket_typeLsa, Except.ok.injEq, Prod.mk.injEq] at h
  obtain ⟨rfl, rfl⟩ := h
  refine ⟨rfl, rfl, rfl, ?_⟩
  simp only [length_bytes, List.length_append, List.length_map, List.length_range', linkSizeTotal]
  omega

end RoutingDaemon
