import RoutingDaemon.Advertisement

/-!
# What the header of a new packet says about its content

* `Describes`: the counts, the size and the bytes of a packet agree with what `create_packet` writes.
* `createPacket_control`, `createPacket_leftover`: what they are for ACK and DOWN packets, and for LSAs.
* `never_describes`: they never agree.
-/

namespace RoutingDaemon

/-- The link ids that are written after the header. -/
def writtenIds (type : BitVec 32) (dl : DirectLinks) : List Int32 :=
  if type = typeLsa then dl.links.tail.map LinkEntry.id else []

/-- The names that are written after the link ids, each with its length. -/
def writtenNames (type : BitVec 32) (ol : LocalObjects) : List CString :=
  if type = typeLsa then ol.objects.map fun o => o.name.1 else []

/-- What is written after the header. -/
def content (type : BitVec 32) (dl : DirectLinks) (ol : LocalObjects) : List UInt8 :=
  if type = typeLsa then writtenBytes dl ol else []

/-- The header and the size of a packet describe what was written, and nothing else is sent. -/
structure Describes (type : BitVec 32) (dl : DirectLinks) (ol : LocalObjects) (lsa : LSA)
    (size : ℕ) : Prop where
  links : lsa.numLinks.toInt = (writtenIds type dl).length
  objects : lsa.numObjects.toInt = (writtenNames type ol).length
  total : size = sizeofLsa + 4 * (writtenIds type dl).length +
    ((writtenNames type ol).map fun s => 4 + strlen s).sum
  written : lsa.linksObjects.take (size - sizeofLsa) = content type dl ol

variable (fresh : Fresh) (nodeId sequenceNum : Int32) (dl : DirectLinks) (ol : LocalObjects)

theorem createPacket_control {type : BitVec 32} (ht : type = typeAck ∨ type = typeDown) :
    createPacket fresh type nodeId sequenceNum dl ol =
      .ok (⟨newHeader type, nodeId, sequenceNum, -1, 0, []⟩, sizeofLsa) := if_pos ht

theorem sum_lengths (os : List ObjectEntry) :
    ((os.map fun o => o.name.1).map fun s => 4 + strlen s).sum =
      4 * os.length + (os.map fun o => strlen o.name.1).sum := by
  induction os with
  | nil => rfl
  | cons o os ih =>
    simp only [List.map_cons, List.sum_cons, List.length_cons] at ih ⊢
    omega

/-- The block for an LSA has room for one link more than is written: the last four bytes that are sent
are those of the heap. -/
theorem createPacket_leftover (h1 : 1 ≤ dl.numLinks) : ∃ lsa size,
    createPacket fresh typeLsa nodeId sequenceNum dl ol = .ok (lsa, size) ∧
      lsa.numLinks.toInt = (writtenIds typeLsa dl).length ∧
      lsa.numObjects.toInt = (writtenNames typeLsa ol).length ∧
      size = sizeofLsa + 4 * (writtenIds typeLsa dl).length +
        ((writtenNames typeLsa ol).map fun s => 4 + strlen s).sum + 4 ∧
      lsa.linksObjects.take (size - sizeofLsa) = content typeLsa dl ol ++
        (List.range' (content typeLsa dl ol).length 4).map fresh.packet := by
  have hl : dl.links.length ≤ 150 := dl.bounded
  have ho : ol.objects.length ≤ 10000 := ol.bounded
  have hw := length_writtenBytes dl ol
  have hs := sum_lengths ol.objects
  have hsize : linkSizeTotal dl + objectSizeTotal ol = (writtenBytes dl ol).length + 4 := by
    rw [hw, linkSizeTotal]
    omega
  refine ⟨_, _, createPacket_typeLsa fresh nodeId sequenceNum dl ol, ?_, ?_, ?_, ?_⟩
  · rw [writtenIds, if_pos rfl, List.length_map, List.length_tail]
    unfold DirectLinks.numLinks at *
    rw [Int32.toInt_ofInt_of_le (by omega) (by omega)]
    omega
  · rw [writtenNames, if_pos rfl, List.length_map, LocalObjects.numObjects,
      Int32.toInt_ofNat_of_lt (by omega)]
  · rw [hsize, hw, objectSizeTotal, writtenIds, writtenNames, if_pos rfl, if_pos rfl, hs,
      List.length_map, List.length_tail]
    unfold DirectLinks.numLinks LocalObjects.numObjects
    omega
  · rw [hsize, content, if_pos rfl, Nat.add_sub_cancel_left, Nat.add_sub_cancel_left]
    exact List.take_of_length_le (by simp)

/-- **The header and the size never describe the content.** An ACK or DOWN packet counts `-1` links, and
an LSA is four bytes longer than what was written. -/
theorem never_describes (type : BitVec 32)
    (ht : type = typeLsa ∨ type = typeAck ∨ type = typeDown) (h1 : 1 ≤ dl.numLinks) :
    ∃ lsa size, createPacket fresh type nodeId sequenceNum dl ol = .ok (lsa, size) ∧
      ¬ Describes type dl ol lsa size := by
  rcases ht with rfl | ht
  · obtain ⟨lsa, size, hp, -, -, hsize, -⟩ := createPacket_leftover fresh nodeId sequenceNum dl ol h1
    refine ⟨lsa, size, hp, fun hd => ?_⟩
    have := hd.total
    omega
  · refine ⟨_, _, createPacket_control fresh nodeId sequenceNum dl ol ht, fun hd => ?_⟩
    have hneg : (-1 : ℤ) = (writtenIds type dl).length := hd.links
    omega

theorem never_describes_pairLinks : ∃ lsa size,
    createPacket zeros typeAck 1 0 pairLinks oneObject = .ok (lsa, size) ∧
      ¬ Describes typeAck pairLinks oneObject lsa size :=
  never_describes zeros 1 0 pairLinks oneObject typeAck (.inr (.inl rfl)) (by decide)

/-- Node 1 has one neighbour and one object: 29 bytes are written and 33 are sent, the last four as the
heap had them. -/
theorem exists_undescribed : ∃ lsa,
    createPacket ⟨fun _ => 7, 0⟩ typeLsa 1 0 pairLinks oneObject = .ok (lsa, 33) ∧
      lsa.linksObjects.take (33 - sizeofLsa) = content typeLsa pairLinks oneObject ++ [7, 7, 7, 7] ∧
      ¬ Describes typeLsa pairLinks oneObject lsa 33 := by
  obtain ⟨lsa, size, hp, -, -, hsize, hleft⟩ :=
    createPacket_leftover ⟨fun _ => 7, 0⟩ 1 0 pairLinks oneObject (by decide)
  obtain rfl : size = 33 := hsize.trans (by decide)
  exact ⟨lsa, hp, hleft, fun hd => absurd (hd.total.trans (by decide) : 33 = 29) (by decide)⟩

end RoutingDaemon
