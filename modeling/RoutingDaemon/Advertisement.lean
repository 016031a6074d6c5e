import RoutingDaemon.FileLoader
import RoutingDaemon.ObjectTable

/-!
# Advertisements, from `create_packet` to `store_node_objects`

* `storeLoop_names`, `storeLoop_objects`: the decoder's loop over a payload that holds names, or
  encoded objects.
* `HeaderRewrite`: what `lsa_handler` does to a header word.
* `storeNodeObjects_createPacket`: decoding undoes encoding, for any header and any payload that
  starts with the bytes `create_packet` wrote; `decode_encode`.
* `ReceivedWhole`: advertisements survive reception; `receivedWhole_iff`: exactly when they fit the
  receiver's read limit.
-/

namespace RoutingDaemon

/-! ### The payload -/

theorem drop_bytes (l : LSA) (n : ℕ) : l.bytes.drop (sizeofLsa + n) = l.linksObjects.drop n := by
  have h : ∀ k, (20 + n) - k = 20 - k + n ∨ 20 < k := fun k => by omega
  simp only [LSA.bytes, sizeofLsa]
  rw [drop_le32 _ _ (by omega), drop_le32 _ _ (by omega), drop_le32 _ _ (by omega),
    drop_le32 _ _ (by omega), drop_le32 _ _ (by omega)]
  congr 1
  omega

theorem readInt_eq {l : LSA} {i : ℕ} {w : BitVec 32} {rest : List UInt8}
    (h : l.linksObjects.drop i = le32 w ++ rest) : readInt l i = .ok w.toInt := by
  have hi : (sizeofLsa + (i : ℤ)).toNat = sizeofLsa + i := by omega
  rw [readInt, if_neg (by omega), hi, drop_bytes, h, ofLe32_le32]

theorem readName_eq {l : LSA} {i : ℕ} {raw rest : List UInt8} (hr : raw.length < maxObjLen)
    (h : l.linksObjects.drop i = raw ++ rest) : readName l i raw.length = .ok (cstr raw) := by
  have hi : (sizeofLsa + (i : ℤ)).toNat = sizeofLsa + i := by omega
  have hsrc : (l.linksObjects.drop i).take (raw.length : ℤ).toNat = raw := by
    rw [h, Int.toNat_natCast, List.take_left]
  rw [readName, if_neg (by omega), hi, drop_bytes, hsrc, if_neg (by simp)]

/-- The bytes of one name in a packet, length first. -/
def nameBytes (raw : List UInt8) : List UInt8 := le32 (BitVec.ofNat 32 raw.length) ++ raw

theorem toInt_length {n : ℕ} (h : n < 2 ^ 31) : (BitVec.ofNat 32 n).toInt = n := by
  rw [BitVec.toInt_eq_toNat_of_lt] <;> rw [BitVec.toNat_ofNat] <;> omega

section Store

variable {σ : Type} (add : σ → CString → Int32 → ℤ → Except Fault σ)

/-- What one round of the decoder's loop does with the bytes of a name. -/
def storeName (l : LSA) (ht : σ) (raw : List UInt8) : Except Fault σ :=
  if raw.length < maxObjLen then
    add ht (cstr raw) l.senderNodeId (defaultTtl - getTtl l.versionTtlType + 1)
  else .error .overflow

/-- **The decoder's loop.** Over a payload with the bytes of some names at the index, it stores
these names, in order. -/
theorem storeLoop_names (l : LSA) (raws : List (List UInt8)) {i : ℕ} {rest : List UInt8} (ht : σ)
    (hlen : ∀ raw ∈ raws, raw.length < 2 ^ 31)
    (h : l.linksObjects.drop i = raws.flatMap nameBytes ++ rest) :
    storeLoop add l raws.length i ht = raws.foldlM (storeName add l) ht := by
  induction raws generalizing i ht with
  | nil => rfl
  | cons raw raws ih =>
    rw [List.flatMap_cons, nameBytes, List.append_assoc, List.append_assoc] at h
    have h4 : l.linksObjects.drop (i + 4) = raw ++ (raws.flatMap nameBytes ++ rest) := by
      rw [← List.drop_drop, h, drop_le32 _ _ le_rfl]; rfl
    have hnext : l.linksObjects.drop (i + 4 + raw.length) = raws.flatMap nameBytes ++ rest := by
      rw [← List.drop_drop, h4, List.drop_left]
    rw [List.length_cons, storeLoop, readInt_eq h, ok_bind,
      toInt_length (hlen raw List.mem_cons_self), List.foldlM_cons, storeName]
    split_ifs with hr
    · have hname := readName_eq hr h4
      push_cast at hname
      rw [hname, ok_bind]
      congr 1
      funext ht'
      have := ih ht' (fun r hm => hlen r (List.mem_cons_of_mem _ hm)) hnext
      push_cast at this
      exact this
    · rw [readName, if_pos (.inr (by exact_mod_cast not_lt.mp hr))]
      rfl

/-- Over a payload with some encoded objects at the index, it adds exactly these objects. -/
theorem storeLoop_objects (l : LSA) (os : List ObjectEntry) {i : ℕ} {rest : List UInt8} (ht : σ)
    (h : l.linksObjects.drop i = os.flatMap objectBytes ++ rest) :
    storeLoop add l os.length i ht = os.foldlM (fun ht o => add ht o.name.1 l.senderNodeId
      (defaultTtl - getTtl l.versionTtlType + 1)) ht := by
  have hlt : ∀ o : ObjectEntry, o.name.1.1.length < maxObjLen := fun o => o.name.2
  have hmap : os.flatMap objectBytes = (os.map fun o => o.name.1.1).flatMap nameBytes := by
    rw [List.flatMap_map]; rfl
  have key := storeLoop_names add l (os.map fun o => o.name.1.1) ht (fun raw hm => ?_) (hmap ▸ h)
  · rw [List.length_map, List.foldlM_map] at key
    rw [key]
    congr 1
    funext ht' o
    rw [storeName, if_pos (hlt o), cstr_eq_self]
  · obtain ⟨o, -, rfl⟩ := List.mem_map.mp hm
    exact (hlt o).trans (by decide)

theorem drop_linkBytes (ls : List LinkEntry) (i : ℕ) (rest : List UInt8) (hi : i ≤ ls.length) :
    ((ls.flatMap fun l => le32 l.id.toBitVec) ++ rest).drop (4 * i) =
      ((ls.drop i).flatMap fun l => le32 l.id.toBitVec) ++ rest := by
  induction i generalizing ls with
  | zero => rfl
  | succ i ih =>
    cases ls with
    | nil => simp at hi
    | cons l ls =>
      rw [List.flatMap_cons, List.append_assoc, drop_le32 _ _ (by omega), List.drop_succ_cons,
        ← ih ls (by simpa using hi)]
      congr 1

theorem toInt_shiftLeft_two {n : Int32} {k : ℕ} (h : n.toInt * 4 = k) (hk : k < 2 ^ 31) :
    (n <<< 2).toInt = k := by
  have h1 : (n <<< 2).toBitVec = n.toBitVec <<< 2 := by
    rw [Int32.toBitVec_shiftLeft]; rfl
  have hn : n.toBitVec.toInt = n.toInt := rfl
  have hlt : n.toBitVec.toNat < 2 ^ 29 := by
    have := BitVec.toInt_eq_toNat_cond n.toBitVec
    split_ifs at this <;> omega
  have hnat : n.toInt = n.toBitVec.toNat := by
    rw [← hn, BitVec.toInt_eq_toNat_of_lt (by omega)]
  have h2 : (n.toBitVec <<< 2).toNat = k := by
    rw [BitVec.toNat_shiftLeft, Nat.shiftLeft_eq, Nat.mod_eq_of_lt (by omega)]
    omega
  rw [← Int32.toInt_toBitVec, h1, BitVec.toInt_eq_toNat_of_lt (by omega), h2]

theorem toInt_shiftLeft_numLinks {n : ℕ} (h1 : 1 ≤ n) (h : n ≤ maxNodes) :
    (Int32.ofInt (n - 1) <<< 2).toInt = (4 * (n - 1) : ℕ) := by
  unfold maxNodes at h
  have hsize : Int32.size = 4294967296 := rfl
  have hn : (Int32.ofInt (n - 1)).toInt = n - 1 := by
    rw [Int32.toInt_ofInt, Int.bmod_eq_of_le] <;> omega
  exact toInt_shiftLeft_two (by rw [hn]; omega) (by omega)

variable {fresh : Fresh} {nodeId sequenceNum : Int32} {dl : DirectLinks} {ol : LocalObjects}
  {lsa : LSA} {size : ℕ}

theorem exists_createPacket (fresh : Fresh) (nodeId sequenceNum : Int32) (dl : DirectLinks)
    (ol : LocalObjects) :
    ∃ lsa size, createPacket fresh typeLsa nodeId sequenceNum dl ol = .ok (lsa, size) :=
  ⟨_, _, createPacket_typeLsa fresh nodeId sequenceNum dl ol⟩

theorem createPacket_counts
    (h : createPacket fresh typeLsa nodeId sequenceNum dl ol = .ok (lsa, size)) :
    lsa.numLinks = .ofInt (dl.numLinks - 1) ∧ lsa.numObjects = .ofNat ol.numObjects ∧
      (∃ rest, lsa.linksObjects = writtenBytes dl ol ++ rest) ∧
      size = sizeofLsa + (linkSizeTotal dl + objectSizeTotal ol) := by
  rw [createPacket_typeLsa, Except.ok.injEq, Prod.mk.injEq] at h
  obtain ⟨rfl, rfl⟩ := h
  exact ⟨rfl, rfl, ⟨_, rfl⟩, rfl⟩

/-- **Decoding undoes encoding.** Whatever the header word has become, and whatever follows the
bytes `create_packet` wrote. -/
theorem storeNodeObjects_createPacket
    (h : createPacket fresh typeLsa nodeId sequenceNum dl ol = .ok (lsa, size))
    (h1 : 1 ≤ dl.numLinks) (w : BitVec 32) (rest : List UInt8) (ht : σ) :
    storeNodeObjects add ht
        { lsa with versionTtlType := w, linksObjects := writtenBytes dl ol ++ rest } =
      ol.objects.foldlM (fun ht o => add ht o.name.1 nodeId (defaultTtl - getTtl w + 1)) ht := by
  obtain ⟨-, hid, -, -⟩ := createPacket_lsa h
  obtain ⟨hl, ho, -, -⟩ := createPacket_counts h
  have hb : ol.objects.length ≤ 10000 := ol.bounded
  have hn : (Int32.ofNat ol.numObjects).toInt.toNat = ol.objects.length := by
    rw [LocalObjects.numObjects, Int32.toInt_ofNat_of_lt (by omega), Int.toNat_natCast]
  have hd : (writtenBytes dl ol ++ rest).drop (4 * (dl.numLinks - 1)) =
      ol.objects.flatMap objectBytes ++ rest := by
    rw [writtenBytes, List.append_assoc, ← length_linkBytes, List.drop_left]
  rw [storeNodeObjects]
  simp only [hl, ho, hn, toInt_shiftLeft_numLinks h1 dl.bounded]
  rw [storeLoop_objects add _ ol.objects ht hd, hid]

theorem readInt_createPacket
    (h : createPacket fresh typeLsa nodeId sequenceNum dl ol = .ok (lsa, size)) {i : ℕ}
    {l : LinkEntry} (hl : dl.links.tail[i]? = some l) :
    readInt lsa (4 * i : ℕ) = .ok l.id.toInt := by
  obtain ⟨-, -, ⟨rest, hp⟩, -⟩ := createPacket_counts h
  obtain ⟨hi, rfl⟩ := List.getElem?_eq_some_iff.mp hl
  have hd : lsa.linksObjects.drop (4 * i) = le32 dl.links.tail[i].id.toBitVec ++
      (((dl.links.tail.drop (i + 1)).flatMap fun l => le32 l.id.toBitVec) ++
        (ol.objects.flatMap objectBytes ++ rest)) := by
    rw [hp, writtenBytes, linkBytes, List.append_assoc, drop_linkBytes _ _ _ hi.le,
      List.drop_eq_getElem_cons hi, List.flatMap_cons, List.append_assoc]
  exact readInt_eq hd

end Store

/-! ### Header rewrites -/

/-- What `lsa_handler` does to the header word of an LSA: the type is set to ACK and put back, and
the TTL is decremented. -/
inductive HeaderRewrite : BitVec 32 → BitVec 32 → Prop
  | ackAndBack (w : BitVec 32) : HeaderRewrite w (setType (setType w typeAck) w)
  | decrement (w : BitVec 32) (h : 0 < getTtl w) : HeaderRewrite w (setTtl w (getTtl w - 1))

theorem headerRewrite_newHeader {w : BitVec 32}
    (h : Relation.ReflTransGen HeaderRewrite (newHeader typeLsa) w) :
    getType w = typeLsa ∧ 0 ≤ getTtl w ∧ getTtl w ≤ defaultTtl := by
  induction h with
  | refl => exact ⟨getType_newHeader, by decide, by decide⟩
  | tail _ hr ih =>
    obtain ⟨h1, h2, h3⟩ := ih
    unfold defaultTtl at h3 ⊢
    cases hr with
    | ackAndBack => rw [setType_setType_ack]; exact ⟨h1, h2, h3⟩
    | decrement h0 =>
      rw [getType_setTtl, getTtl_setTtl _ (by omega) (by omega)]
      exact ⟨h1, by omega, by omega⟩

/-- **LSA decode undoes encode.** After any header rewrites, `store_node_objects` calls `hash_add`
once per local object, in order, with its name and the originator; it does the same when only the
bytes that `create_packet` wrote are there to be read, so it reads no others; and the link ids in
the packet are those of links `1 .. num_links - 1`. -/
theorem decode_encode (fresh : Fresh) (nodeId sequenceNum : Int32) (dl : DirectLinks)
    (ol : LocalObjects) (h1 : 1 ≤ dl.numLinks) :
    ∃ lsa size, createPacket fresh typeLsa nodeId sequenceNum dl ol = .ok (lsa, size) ∧
      (∃ rest, lsa.linksObjects = writtenBytes dl ol ++ rest) ∧
      (∀ w, Relation.ReflTransGen HeaderRewrite lsa.versionTtlType w →
        (getType w = typeLsa ∧ 0 ≤ getTtl w ∧ getTtl w ≤ defaultTtl) ∧
        ∀ (σ : Type) (add : σ → CString → Int32 → ℤ → Except Fault σ) (ht : σ),
          storeNodeObjects add ht { lsa with versionTtlType := w } =
            ol.objects.foldlM (fun ht o => add ht o.name.1 nodeId (defaultTtl - getTtl w + 1)) ht ∧
          storeNodeObjects add ht
              { lsa with versionTtlType := w, linksObjects := writtenBytes dl ol } =
            storeNodeObjects add ht { lsa with versionTtlType := w }) ∧
      lsa.numLinks.toInt = dl.links.tail.length ∧
      ∀ i (l : LinkEntry), dl.links.tail[i]? = some l →
        readInt lsa (4 * i : ℕ) = .ok l.id.toInt := by
  obtain ⟨lsa, size, h⟩ := exists_createPacket fresh nodeId sequenceNum dl ol
  obtain ⟨hl, -, ⟨rest, hp⟩, -⟩ := createPacket_counts h
  have hb : dl.links.length ≤ 150 := dl.bounded
  refine ⟨lsa, size, h, ⟨rest, hp⟩, fun w hw => ⟨?_, fun σ add ht => ?_⟩, ?_,
    fun i l => readInt_createPacket h⟩
  · rw [(createPacket_lsa h).1] at hw
    exact headerRewrite_newHeader hw
  · have e := storeNodeObjects_createPacket add h h1 w
    have e₀ := e [] ht
    rw [List.append_nil] at e₀
    have e₁ := e rest ht
    rw [← hp] at e₁
    exact ⟨e₁, e₀.trans e₁.symm⟩
  · rw [hl, List.length_tail]
    unfold DirectLinks.numLinks at *
    rw [Int32.toInt_ofInt_of_le (by omega) (by omega)]
    omega

/-- Node 1 with one neighbour, node 2. -/
def pairLinks : DirectLinks := ⟨[linkOn 1 65, linkOn 2 66], by decide⟩

/-- An object named `o`. -/
def oneObject : LocalObjects :=
  ⟨[⟨⟨cstr [111], by decide⟩, ⟨cstr [112], by decide⟩⟩], by decide⟩

theorem decode_encode_oneObject : ∃ lsa size,
    createPacket ⟨fun _ => 0, 0⟩ typeLsa 1 0 pairLinks oneObject = .ok (lsa, size) ∧
      storeNodeObjects (fun calls s n c => .ok (calls ++ [(s.1, n, c)])) [] lsa =
        .ok [([111], 1, 1)] := by
  obtain ⟨lsa, size, h, -, hs, -⟩ := decode_encode ⟨fun _ => 0, 0⟩ 1 0 pairLinks oneObject (by decide)
  have hw : lsa.versionTtlType = newHeader typeLsa := (createPacket_lsa h).1
  refine ⟨lsa, size, h, ((hs _ .refl).2 _ _ _).1.trans ?_⟩
  rw [hw, getTtl_newHeader]
  rfl

/-! ### Reception -/

theorem foldlM_hashAdd {sfh : CString → UInt32} {os : List ObjectEntry} {n : Int32} {c : ℤ}
    {ht ht' : LisoHash} (hc : Consistent sfh ht)
    (h : os.foldlM (fun ht o => hashAdd sfh ht o.name.1 n c) ht = .ok ht') :
    Consistent sfh ht' ∧ (∀ s, (view sfh ht s).isSome → (view sfh ht' s).isSome) ∧
      ∀ o ∈ os, (view sfh ht' o.name.1).isSome := by
  induction os generalizing ht with
  | nil => cases h; exact ⟨hc, fun _ hs => hs, by simp⟩
  | cons o os ih =>
    rw [List.foldlM_cons, bind_eq_ok] at h
    obtain ⟨ht₁, h1, h⟩ := h
    obtain ⟨hc₁, hv⟩ := hashAdd_spec hc h1
    obtain ⟨hc', hmono, hnew⟩ := ih hc₁ h
    refine ⟨hc', fun s hs => hmono s ?_, fun p hp => ?_⟩
    · rw [hv]
      exact ObjMap.announce_isSome.mpr (.inr hs)
    · rcases List.mem_cons.mp hp with rfl | hp
      · exact hmono _ (by rw [hv]; exact ObjMap.announce_isSome.mpr (.inl rfl))
      · exact hnew p hp

theorem foldlM_hashAdd_error {sfh : CString → UInt32} {os : List ObjectEntry} {n : Int32} {c : ℤ}
    {ht : LisoHash} {f : Fault} (hc : Consistent sfh ht)
    (h : os.foldlM (fun ht o => hashAdd sfh ht o.name.1 n c) ht = .error f) : f = .overflow := by
  induction os generalizing ht with
  | nil => cases h
  | cons o os ih =>
    rw [List.foldlM_cons] at h
    cases h1 : hashAdd sfh ht o.name.1 n c with
    | ok ht₁ => rw [h1] at h; exact ih (hashAdd_spec hc h1).1 h
    | error f₁ =>
      rw [h1] at h
      cases h
      exact (hashAdd_eq_error (s := o.name) hc h1).1

theorem updateEntry_ne_overRead {fresh : Fresh} {entry : Option ℕ} {rt : RoutingTable}
    {dl : DirectLinks} {lsa : LSA} {size : ℕ} {nexthop : Int32} :
    updateEntry fresh entry rt dl lsa size nexthop ≠ .error .overRead := by
  unfold updateEntry
  intro h
  dsimp only at h
  split_ifs at h
  · cases entry with
    | none => simp only [RoutingTable.push] at h; split_ifs at h; simp at h
    | some k => simp at h
  · cases entry <;> simp at h

/-- The advertisement that a node with these tables floods to its neighbours survives reception:
`rt_recvfrom` gets it whole, `store_node_objects` reads nothing outside it, and when it is accepted
every object of the sender is in the receiver's table. -/
def ReceivedWhole (dl : DirectLinks) (ol : LocalObjects) : Prop :=
  ∀ _ ∈ dl.links.tail, ∀ fresh nodeId sequenceNum lsa size,
    createPacket fresh typeLsa nodeId sequenceNum dl ol = .ok (lsa, size) →
    ∀ (dl' : DirectLinks) cliAddr l, lookupLinkEntry dl' cliAddr = some l →
      let r := Received.got cliAddr (lsa.bytes.take size)
      rtRecvfrom dl' r = .ok (some (lsa, l.id, size)) ∧
      ∀ fresh' rt ht, Consistent superFastHash ht →
        (∀ out, lsaHandler fresh' r dl' rt ht ≠ .error (.overRead, out)) ∧
        ∀ ret rt' ht' out, lsaHandler fresh' r dl' rt ht = .ok (ret, rt', ht', out) →
          .accept nodeId sequenceNum ∈ out →
          ∀ o ∈ ol.objects, (containsObject superFastHash ht' o.name.1).isSome

theorem one_lt_numLinks {dl : DirectLinks} : 1 < dl.numLinks ↔ ∃ l, l ∈ dl.links.tail := by
  rw [← List.length_pos_iff_exists_mem, List.length_tail, DirectLinks.numLinks]
  omega

/-- The size of an advertisement. -/
def advertisementSize (dl : DirectLinks) (ol : LocalObjects) : ℕ :=
  sizeofLsa + (linkSizeTotal dl + objectSizeTotal ol)

theorem not_receivedWhole {dl : DirectLinks} {ol : LocalObjects} (hn : 1 < dl.numLinks)
    (h : maxLsaLen < advertisementSize dl ol) : ¬ ReceivedWhole dl ol := by
  intro hr
  obtain ⟨nbr, hnbr⟩ := one_lt_numLinks.mp hn
  obtain ⟨lsa, size, hp⟩ := exists_createPacket ⟨fun _ => 0, 0⟩ 0 0 dl ol
  obtain ⟨-, -, -, hlen⟩ := createPacket_lsa hp
  have hsize : size = advertisementSize dl ol := (createPacket_counts hp).2.2.2
  obtain ⟨hw, -⟩ := hr nbr hnbr _ _ _ _ _ hp pairLinks (cstr [66]) (linkOn 2 66) (by decide)
  obtain ⟨_, buf, _, hbuf, -, -, -, -, he⟩ := rtRecvfrom_eq_ok hw
  cases hbuf
  rw [List.length_take, List.length_take] at he
  omega

section Fits

variable {fresh : Fresh} {nodeId sequenceNum : Int32} {dl : DirectLinks} {ol : LocalObjects}
  {lsa : LSA} {size : ℕ}

theorem rtRecvfrom_advertisement
    (hp : createPacket fresh typeLsa nodeId sequenceNum dl ol = .ok (lsa, size))
    (hfit : advertisementSize dl ol ≤ maxLsaLen) {dl' : DirectLinks} {cliAddr : CString}
    {l : LinkEntry} (hl : lookupLinkEntry dl' cliAddr = some l) :
    rtRecvfrom dl' (.got cliAddr (lsa.bytes.take size)) = .ok (some (lsa, l.id, size)) := by
  obtain ⟨-, -, -, hlen⟩ := createPacket_lsa hp
  have hsize : size = advertisementSize dl ol := (createPacket_counts hp).2.2.2
  have hall : lsa.bytes.take size = lsa.bytes := List.take_of_length_le (by omega)
  have hread : lsa.bytes.take maxLsaLen = lsa.bytes := List.take_of_length_le (by omega)
  have h20 : ¬ lsa.bytes.length < sizeofLsa := by rw [length_bytes]; omega
  rw [hall, rtRecvfrom]
  simp only [hread, if_neg h20, bytesToPacket_bytes, hl, ok_bind, deref_some, pure_eq_ok, hlen]

/-- What is stored after acceptance is what was encoded. -/
theorem storeNodeObjects_acceptedLsa (sfh : CString → UInt32)
    (hp : createPacket fresh typeLsa nodeId sequenceNum dl ol = .ok (lsa, size))
    (h1 : 1 ≤ dl.numLinks) (ht : LisoHash) :
    ∃ c, storeNodeObjects (hashAdd sfh) ht (acceptedLsa lsa) =
      ol.objects.foldlM (fun ht o => hashAdd sfh ht o.name.1 nodeId c) ht := by
  obtain ⟨-, -, ⟨rest, hrest⟩, -⟩ := createPacket_counts hp
  have := storeNodeObjects_createPacket (hashAdd sfh) hp h1 (acceptedLsa lsa).versionTtlType rest ht
  rw [← hrest] at this
  exact ⟨_, this⟩

end Fits

/-- **Advertisements survive reception exactly when they fit the read limit**, or there is no
neighbour to receive them. -/
theorem receivedWhole_iff (dl : DirectLinks) (ol : LocalObjects) :
    ReceivedWhole dl ol ↔ dl.numLinks ≤ 1 ∨ advertisementSize dl ol ≤ maxLsaLen := by
  constructor
  · intro hr
    by_contra hne
    rw [not_or, not_le, not_le] at hne
    exact not_receivedWhole hne.1 hne.2 hr
  intro hfit nbr hnbr fresh nodeId sequenceNum lsa size hp dl' cliAddr l hl
  have hlinks : 1 < dl.numLinks := one_lt_numLinks.mpr ⟨nbr, hnbr⟩
  have hrec := rtRecvfrom_advertisement hp (hfit.resolve_left (not_le.mpr hlinks)) hl
  have htype : getType lsa.versionTtlType = typeLsa := by rw [(createPacket_lsa hp).1]; rfl
  refine ⟨hrec, fun fresh' rt ht hc => ?_⟩
  obtain ⟨c, hstore⟩ := storeNodeObjects_acceptedLsa superFastHash hp hlinks.le ht
  rw [lsaHandler, hrec]
  simp only [afterEffects_ok, ok_bind, deref_some, htype, if_true, hstore]
  refine ⟨fun out h => ?_, fun ret rt' ht' out h hmem o ho => ?_⟩
  · split_ifs at h
    obtain h | ⟨src, -, h⟩ := bind_eq_error.mp h
    · simp [afterEffects_eq_error, deref_eq_error] at h
    obtain h | ⟨rt', -, h⟩ := bind_eq_error.mp h
    · exact updateEntry_ne_overRead (afterEffects_eq_error.mp h).1
    obtain h | ⟨ht', -, h⟩ := bind_eq_error.mp h
    · exact absurd (foldlM_hashAdd_error hc (afterEffects_eq_error.mp h).1) (by decide)
    · simp at h
  · split_ifs at h
    · simp only [Except.ok.injEq, Prod.mk.injEq] at h
      obtain ⟨-, -, -, rfl⟩ := h
      simp at hmem
    · obtain ⟨src, -, h⟩ := bind_eq_ok.mp h
      obtain ⟨rt₁, -, h⟩ := bind_eq_ok.mp h
      obtain ⟨ht₁, hs, h⟩ := bind_eq_ok.mp h
      simp only [Except.ok.injEq, Prod.mk.injEq] at h
      obtain ⟨-, -, rfl, -⟩ := h
      obtain ⟨hc', -, hnew⟩ := foldlM_hashAdd hc (afterEffects_eq_ok.mp hs)
      have := hnew o ho
      rwa [view, Option.isSome_map, ← containsObject_eq hc'] at this

theorem receivedWhole_oneObject : ReceivedWhole pairLinks oneObject :=
  (receivedWhole_iff pairLinks oneObject).mpr (.inr (by decide))

/-! ### An object table that does not fit -/

/-- The lines of a files file with sixteen names of 63 characters. -/
def longNames : List (CString × CString) :=
  (List.range 16).map fun i => (cstr (List.replicate 62 97 ++ [97 + .ofNat i]), cstr [112])

theorem loadNodeFile_objects {id : Int32} {lines : List (CString × CString)}
    {ol ol' : LocalObjects} {gol gol' : LisoHash}
    (h : loadNodeFile id lines ol gol = .ok (ol', gol')) :
    ol'.objects.map (fun o => o.name.1) = ol.objects.map (fun o => o.name.1) ++ lines.map Prod.fst := by
  induction lines generalizing ol gol with
  | nil => cases h; simp
  | cons p lines ih =>
    obtain ⟨o, ol₁, gol₁, hn, -, ho, -, h⟩ := loadNodeFile_cons_eq_ok.mp h
    rw [ih h, push_objects ho]
    simp [hn]

/-- **A loadable object table whose advertisement is cut.** -/
theorem exists_not_receivedWhole : ∃ ol gol,
    loadNodeFile 1 longNames LocalObjects.empty initHash = .ok (ol, gol) ∧
      ¬ ReceivedWhole pairLinks ol := by
  have hok : (loadNodeFile 1 longNames LocalObjects.empty initHash).isOk = true := by
    decide +kernel
  cases h : loadNodeFile 1 longNames LocalObjects.empty initHash with
  | error f => rw [h] at hok; cases hok
  | ok p =>
    obtain ⟨ol, gol⟩ := p
    have hm := loadNodeFile_objects h
    refine ⟨ol, gol, rfl, not_receivedWhole (by decide) ?_⟩
    have hn : ol.numObjects = 16 := by
      have := congrArg List.length hm
      simpa [LocalObjects.numObjects, LocalObjects.empty, longNames] using this
    have hs : (ol.objects.map fun o => strlen o.name.1).sum = 16 * 63 := by
      have := congrArg (fun l => (l.map strlen).sum) hm
      simp only [List.map_map] at this
      exact this.trans (by decide +kernel)
    rw [advertisementSize, objectSizeTotal, hn, hs]
    decide

end RoutingDaemon
