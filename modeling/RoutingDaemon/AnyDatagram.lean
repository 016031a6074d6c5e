import RoutingDaemon.Freshness
import RoutingDaemon.Advertisement
import RoutingDaemon.LocalService
import RoutingDaemon.ObjectHistory

/-!
# Any datagram

* `Payload`, `CountsFit`: the counts and lengths of a packet fit its size.
* `newNames`: the names of a packet that the object table does not know; `foldlM_hashAdd_iff`: they
  must fit.
* `Unprocessable`: the datagrams that should be dropped; `Survived`: what should happen to a
  datagram; `Survivable`: the datagrams to which it happens (`survived_iff`).
-/

namespace RoutingDaemon

/-! ### Counts and lengths -/

/-- The payload of a packet holds the counted links, and then the counted names. -/
structure Payload (lsa : LSA) (raws : List (List UInt8)) : Prop where
  objects : lsa.numObjects.toInt = raws.length
  payload : ∃ links rest, lsa.linksObjects = links ++ (raws.flatMap nameBytes ++ rest) ∧
    lsa.numLinks.toInt * 4 = links.length

/-- The counts and lengths of a packet fit its size. -/
def CountsFit (lsa : LSA) : Prop := ∃ raws, Payload lsa raws

theorem Payload.storeNodeObjects {σ : Type} {add : σ → CString → Int32 → ℤ → Except Fault σ}
    {lsa : LSA} {raws : List (List UInt8)} (h : Payload lsa raws)
    (hlen : lsa.linksObjects.length < 2 ^ 31) (ht : σ) :
    storeNodeObjects add ht lsa = raws.foldlM (storeName add lsa) ht := by
  obtain ⟨hobj, links, rest, hp, hl⟩ := h
  have hraw : ∀ raw ∈ raws, raw.length < 2 ^ 31 := fun raw hm => by
    have h1 : raw.length ≤ (raws.flatMap nameBytes).length := by
      rw [List.length_flatMap]
      refine le_trans ?_ (List.single_le_sum (by simp) _ (List.mem_map_of_mem hm))
      simp [nameBytes]
    rw [hp, List.length_append, List.length_append] at hlen
    omega
  have hlinks : links.length < 2 ^ 31 := by
    rw [hp, List.length_append] at hlen
    omega
  rw [RoutingDaemon.storeNodeObjects, toInt_shiftLeft_two hl hlinks, hobj, Int.toNat_natCast]
  exact storeLoop_names add lsa raws ht hraw (by rw [hp, List.drop_left])

/-! ### Room in the object table -/

/-- The names of a list that the object table does not know. -/
def newNames (gol : LisoHash) (names : List CString) : Finset CString :=
  names.toFinset.filter fun s => view superFastHash gol s = none

theorem newNames_cons_known {gol : LisoHash} {s : CString} {names : List CString}
    (h : view superFastHash gol s ≠ none) : newNames gol (s :: names) = newNames gol names := by
  ext t
  simp only [newNames, Finset.mem_filter, List.mem_toFinset, List.mem_cons]
  exact ⟨fun ⟨h1, h2⟩ => ⟨h1.resolve_left fun e => h (e ▸ h2), h2⟩, fun ⟨h1, h2⟩ => ⟨.inr h1, h2⟩⟩

theorem newNames_hashAdd {gol gol' : LisoHash} {s : CString} {n : Int32} {c : ℤ}
    (hc : Consistent superFastHash gol) (h : hashAdd superFastHash gol s n c = .ok gol')
    (names : List CString) : newNames gol' names = (newNames gol names).erase s := by
  ext t
  simp only [newNames, Finset.mem_filter, List.mem_toFinset, Finset.mem_erase]
  have hknown : view superFastHash gol' t = none ↔ t ≠ s ∧ view superFastHash gol t = none := by
    rw [(hashAdd_spec hc h).2, ← not_iff_not, not_and_or, not_not]
    exact ObjMap.announce_ne_none
  rw [hknown]
  exact and_left_comm

/-- **Adding names succeeds exactly when the new ones fit.** -/
theorem foldlM_hashAdd_iff {gol : LisoHash} (hc : Consistent superFastHash gol)
    {names : List CString} (hs : ∀ s ∈ names, strlen s < maxobjname) {n : Int32} {c : ℤ} :
    (∃ gol', names.foldlM (fun g s => hashAdd superFastHash g s n c) gol = .ok gol') ↔
      gol.numObjs + (newNames gol names).card ≤ maxobjnum := by
  induction names generalizing gol with
  | nil => simpa [newNames] using hc.room
  | cons s names ih =>
    rw [List.foldlM_cons]
    cases h : hashAdd superFastHash gol s n c with
    | error f =>
      obtain ⟨-, hv, hn⟩ := hashAdd_eq_error (s := ⟨s, hs s List.mem_cons_self⟩) hc h
      have hm : s ∈ newNames gol (s :: names) := by
        simp only [newNames, Finset.mem_filter, List.mem_toFinset, List.mem_cons, true_or, true_and]
        exact hv
      have := Finset.card_pos.mpr ⟨_, hm⟩
      exact iff_of_false (by simp) (by omega)
    | ok gol₁ =>
      rw [ok_bind, ih (hashAdd_spec hc h).1 fun t ht => hs t (List.mem_cons_of_mem _ ht),
        hashAdd_numObjs hc h, newNames_hashAdd hc h]
      by_cases hv : view superFastHash gol s = none
      · rw [if_neg (by simp [hv])]
        have he : newNames gol (s :: names) = insert s ((newNames gol names).erase s) := by
          ext t
          simp only [newNames, Finset.mem_filter, List.mem_toFinset, List.mem_cons, Finset.mem_insert,
            Finset.mem_erase]
          by_cases ht : t = s
          · subst ht; simp [hv]
          · simp [ht]
        rw [he, Finset.card_insert_of_notMem (by simp)]
        omega
      · rw [if_pos (Option.isSome_iff_ne_none.mpr hv), newNames_cons_known hv,
          Finset.erase_eq_of_notMem (by simp [newNames, hv])]

theorem foldlM_storeName {σ : Type} {add : σ → CString → Int32 → ℤ → Except Fault σ} {lsa : LSA}
    {raws : List (List UInt8)} {ht : σ} (h : ∀ raw ∈ raws, raw.length < maxObjLen) :
    raws.foldlM (storeName add lsa) ht = (raws.map cstr).foldlM (fun g s =>
      add g s lsa.senderNodeId (defaultTtl - getTtl lsa.versionTtlType + 1)) ht := by
  induction raws generalizing ht with
  | nil => rfl
  | cons raw raws ih =>
    rw [List.foldlM_cons, List.map_cons, List.foldlM_cons, storeName, if_pos (h raw List.mem_cons_self)]
    congr 1
    funext ht'
    exact ih fun r hr => h r (List.mem_cons_of_mem _ hr)

theorem short_of_foldlM_storeName {σ : Type} {add : σ → CString → Int32 → ℤ → Except Fault σ}
    {lsa : LSA} {raws : List (List UInt8)} {ht ht' : σ}
    (h : raws.foldlM (storeName add lsa) ht = .ok ht') : ∀ raw ∈ raws, raw.length < maxObjLen := by
  induction raws generalizing ht with
  | nil => simp
  | cons raw raws ih =>
    rw [List.foldlM_cons] at h
    obtain ⟨ht₁, h1, h⟩ := bind_eq_ok.mp h
    unfold storeName at h1
    split_ifs at h1 with hr
    intro r hm
    rcases List.mem_cons.mp hm with rfl | hm
    · exact hr
    · exact ih h r hm

theorem strlen_map_cstr {raws : List (List UInt8)} (h : ∀ raw ∈ raws, raw.length < maxObjLen) :
    ∀ s ∈ raws.map cstr, strlen s < maxobjname := by
  intro s hs
  obtain ⟨raw, hr, rfl⟩ := List.mem_map.mp hs
  exact (strlen_cstr_le raw).trans_lt (h raw hr)

/-- **The names of a packet are stored exactly when they are short and fit.** -/
theorem Payload.stored_iff {lsa : LSA} {raws : List (List UInt8)} {gol : LisoHash}
    (h : Payload lsa raws) (hc : Consistent superFastHash gol)
    (hlen : lsa.linksObjects.length < 2 ^ 31) :
    (∃ gol', RoutingDaemon.storeNodeObjects (hashAdd superFastHash) gol lsa = .ok gol') ↔
      (∀ raw ∈ raws, raw.length < maxObjLen) ∧
        gol.numObjs + (newNames gol (raws.map cstr)).card ≤ maxobjnum := by
  rw [h.storeNodeObjects hlen]
  constructor
  · rintro ⟨gol', hs⟩
    have hshort := short_of_foldlM_storeName hs
    rw [foldlM_storeName hshort] at hs
    exact ⟨hshort, (foldlM_hashAdd_iff hc (strlen_map_cstr hshort)).mp ⟨gol', hs⟩⟩
  · rintro ⟨hshort, hroom⟩
    rw [foldlM_storeName hshort]
    exact (foldlM_hashAdd_iff hc (strlen_map_cstr hshort)).mpr hroom

/-! ### Datagrams -/

/-- The datagrams that should be dropped. -/
inductive Unprocessable (d : Daemon) : Received → Prop
  | failed : Unprocessable d .failed
  | short {a : CString} {buf : List UInt8} (h : buf.length < sizeofLsa) : Unprocessable d (.got a buf)
  | stranger {a : CString} {buf : List UInt8} (h : lookupLinkEntry d.dl a = none) :
      Unprocessable d (.got a buf)
  | type {a : CString} {buf : List UInt8} {lsa : LSA}
      (packet : bytesToPacket (buf.take maxLsaLen) = .ok lsa)
      (h : getType lsa.versionTtlType ≠ typeLsa ∧ getType lsa.versionTtlType ≠ typeAck) :
      Unprocessable d (.got a buf)
  | originator {a : CString} {buf : List UInt8} {lsa : LSA}
      (packet : bytesToPacket (buf.take maxLsaLen) = .ok lsa)
      (type : getType lsa.versionTtlType = typeAck)
      (h : getRoutingEntry d.rt lsa.senderNodeId = none) : Unprocessable d (.got a buf)
  | misfit {a : CString} {buf : List UInt8} {lsa : LSA}
      (packet : bytesToPacket (buf.take maxLsaLen) = .ok lsa) (h : ¬ CountsFit lsa) :
      Unprocessable d (.got a buf)

/-- A datagram is survived: no fault, and it is dropped if it should be. -/
def Survived (d : Daemon) (r : Received) (fresh : Fresh) : Prop :=
  ∃ d' out, act (.datagram r fresh) d = .ok (d', out) ∧
    (Unprocessable d r → d'.rt = d.rt ∧ d'.gol = d.gol)

/-- The packets from neighbour `f` that are handled as they should be. -/
inductive Handleable (d : Daemon) (lsa : LSA) (f : Int32) : Prop
  /-- the early return -/
  | early (h : filtered d.rt (getRoutingEntry d.rt lsa.senderNodeId)
      (getType lsa.versionTtlType) lsa.sequenceNum = true)
  /-- another type -/
  | other (h : getType lsa.versionTtlType ≠ typeLsa ∧ getType lsa.versionTtlType ≠ typeAck)
  /-- an LSA whose counts and lengths fit, and for which there is room in the tables -/
  | lsa {raws : List (List UInt8)} (type : getType lsa.versionTtlType = typeLsa)
      (counts : Payload lsa raws) (short : ∀ raw ∈ raws, raw.length < maxObjLen)
      (entry : getRoutingEntry d.rt lsa.senderNodeId ≠ none ∨ d.rt.numEntry < maxNodes)
      (names : d.gol.numObjs + (newNames d.gol (raws.map cstr)).card ≤ maxobjnum)
  /-- an ACK about a known node, whose list has its `num_links`, and whose counts fit unless it
  finds its checkers marked -/
  | ack {k : ℕ} {e own : RoutingEntry} {c o : AckCheckers}
      (type : getType lsa.versionTtlType = typeAck)
      (known : getRoutingEntry d.rt lsa.senderNodeId = some k) (entry : d.rt.table[k]? = some e)
      (list : e.checkersList = some c) (first : d.rt.table[0]? = some own)
      (ownList : own.checkersList = some o)
      (inside : c.numLinks.toInt.toNat ≤ c.checkers.length)
      (counts : CountsFit lsa ∨ ∀ i a b, i < c.numLinks.toInt.toNat → c.checkers[i]? = some a →
        a.id = f → o.checkers[i]? = some b → b.Settled)

/-- The datagrams that are survived: from a neighbour, at least a header long, and handled as they
should be. -/
inductive Survivable (d : Daemon) : Received → Prop
  | mk {a : CString} {buf : List UInt8} {l : LinkEntry} {lsa : LSA} (long : sizeofLsa ≤ buf.length)
      (known : lookupLinkEntry d.dl a = some l)
      (packet : bytesToPacket (buf.take maxLsaLen) = .ok lsa) (h : Handleable d lsa l.id) :
      Survivable d (.got a buf)

section Datagrams

variable {d d' : Daemon} {r : Received} {fresh : Fresh} {lsa : LSA} {f : Int32} {size : ℕ}
  {out : List Effect}

theorem received_length (recv : rtRecvfrom d.dl r = .ok (some (lsa, f, size))) :
    lsa.linksObjects.length < 2 ^ 31 := by
  obtain ⟨_, buf, _, -, hlong, hp, -, -, -⟩ := rtRecvfrom_eq_ok recv
  have h1 : (buf.take maxLsaLen).length ≤ 1024 := by
    rw [List.length_take]; exact min_le_left _ _
  have h2 := bytesToPacket_length hp (sizeofLsa_le_take hlong)
  rw [length_bytes] at h2
  omega

theorem accepted_ne (type : getType lsa.versionTtlType = typeLsa)
    (newer : filtered d.rt (getRoutingEntry d.rt lsa.senderNodeId) typeLsa lsa.sequenceNum = false)
    {rt : RoutingTable} (update : updateEntry fresh (getRoutingEntry d.rt lsa.senderNodeId) d.rt d.dl
      (acceptedLsa lsa) size f = .ok rt) : rt ≠ d.rt := by
  rintro rfl
  have hst := storedFor_updateEntry (s := lsa.senderNodeId)
    (by rw [acceptedLsa_type]; exact type) update
  rw [if_pos (by rfl)] at hst
  have : filtered d.rt (getRoutingEntry d.rt lsa.senderNodeId) typeLsa lsa.sequenceNum = true :=
    filtered_lsa.mpr ⟨_, hst, le_rfl⟩
  rw [newer] at this
  cases this

theorem Payload.acceptedLsa {raws : List (List UInt8)} (h : Payload lsa raws) :
    Payload (acceptedLsa lsa) raws := ⟨h.objects, h.payload⟩

theorem Handleable.survived (hc : Consistent superFastHash d.gol)
    (recv : rtRecvfrom d.dl r = .ok (some (lsa, f, size)))
    (h : Handleable d lsa f) (fresh : Fresh) : ∃ d' out, Handled d fresh lsa f size out d' ∧
      (CountsFit lsa ∨ d'.rt = d.rt ∧ d'.gol = d.gol) := by
  cases h with
  | early h => exact ⟨d, [], .ignored (.inl h), .inr ⟨rfl, rfl⟩⟩
  | other h => exact ⟨d, [], .ignored (.inr h), .inr ⟨rfl, rfl⟩⟩
  | lsa type counts short entry names =>
    by_cases hf : filtered d.rt (getRoutingEntry d.rt lsa.senderNodeId) typeLsa lsa.sequenceNum = true
    · exact ⟨d, [], .ignored (.inl (by rw [type]; exact hf)), .inr ⟨rfl, rfl⟩⟩
    have hlen : lsa.linksObjects.length < 2 ^ 31 := received_length recv
    obtain ⟨gol, hg⟩ := (counts.acceptedLsa.stored_iff hc hlen).mpr ⟨short, names⟩
    obtain ⟨_, _, l, -, -, -, hlink, rfl, -⟩ := rtRecvfrom_eq_ok recv
    obtain ⟨src, hsrc⟩ := exists_lookupLinkEntryNodeId ⟨l, lookupLinkEntry_mem hlink, rfl⟩
    obtain ⟨rt, hrt⟩ := (@updateEntry_iff fresh _ d.rt d.dl (RoutingDaemon.acceptedLsa lsa) size l.id
      (by rw [acceptedLsa_type]; exact type)).mpr entry
    exact ⟨_, _, .accepted type (by simpa using hf) hsrc hrt hg, .inl ⟨_, counts⟩⟩
  | ack type known entry list first ownList inside counts =>
    by_cases hf : filtered d.rt (getRoutingEntry d.rt lsa.senderNodeId) typeAck lsa.sequenceNum = true
    · exact ⟨d, [], .ignored (.inl (by rw [type]; exact hf)), .inr ⟨rfl, rfl⟩⟩
    have hcred := creditAck_some (f := f) entry list first ownList
    rw [if_neg (not_lt.mpr inside)] at hcred
    refine ⟨_, _, .credited type (by simpa using hf) (by rw [known]; exact hcred), counts.imp_right ?_⟩
    intro hset
    rw [← creditedCells_eq_self] at hset
    exact ⟨(modify_eq_self first).mpr ((setCheckers_eq_self ownList).mpr hset), rfl⟩

/-- A packet that was handled, and that left the tables as they were if its counts do not fit, is
handled as it should be. -/
theorem Handleable.of_handled (hc : Consistent superFastHash d.gol)
    (recv : rtRecvfrom d.dl r = .ok (some (lsa, f, size))) (h : Handled d fresh lsa f size out d')
    (hsame : CountsFit lsa ∨ d'.rt = d.rt ∧ d'.gol = d.gol) : Handleable d lsa f := by
  cases h with
  | ignored why => exact why.elim .early .other
  | accepted type newer link update objects =>
    obtain ⟨raws, counts⟩ := hsame.resolve_right fun h => accepted_ne type newer update h.1
    have ht : getType (acceptedLsa lsa).versionTtlType = typeLsa := by
      rw [acceptedLsa_type]; exact type
    have hlen : lsa.linksObjects.length < 2 ^ 31 := received_length recv
    obtain ⟨short, names⟩ := (counts.acceptedLsa.stored_iff hc hlen).mp ⟨_, objects⟩
    exact .lsa type counts short ((updateEntry_iff ht).mp ⟨_, update⟩) names
  | credited type current update =>
    obtain ⟨k, e, c, own, o, known, entry, list, first, ownList, inside, rfl⟩ :=
      creditAck_eq_ok update
    refine .ack type known entry list first ownList inside (hsame.imp_right fun h => ?_)
    rw [known, creditAck_some entry list first ownList, if_neg (not_lt.mpr inside)] at update
    have hself := (Except.ok.inj update).trans h.1
    exact creditedCells_eq_self.mp ((setCheckers_eq_self ownList).mp ((modify_eq_self first).mp hself))

/-- A packet that is received should be dropped only for its type, its originator or its counts. -/
theorem Unprocessable.received (recv : rtRecvfrom d.dl r = .ok (some (lsa, f, size)))
    (h : Unprocessable d r) :
    (getType lsa.versionTtlType ≠ typeLsa ∧ getType lsa.versionTtlType ≠ typeAck) ∨
      (getType lsa.versionTtlType = typeAck ∧ getRoutingEntry d.rt lsa.senderNodeId = none) ∨
      ¬ CountsFit lsa := by
  obtain ⟨_, _, l, rfl, long, packet, known, -, -⟩ := rtRecvfrom_eq_ok recv
  cases h with
  | short h => exact absurd long (not_le.mpr h)
  | stranger h => rw [known] at h; cases h
  | type p h => rw [packet] at p; cases p; exact .inl h
  | originator p type h => rw [packet] at p; cases p; exact .inr (.inl ⟨type, h⟩)
  | misfit p h => rw [packet] at p; cases p; exact .inr (.inr h)

theorem Handled.unchanged (h : Handled d fresh lsa f size out d')
    (why : (getType lsa.versionTtlType ≠ typeLsa ∧ getType lsa.versionTtlType ≠ typeAck) ∨
      (getType lsa.versionTtlType = typeAck ∧ getRoutingEntry d.rt lsa.senderNodeId = none)) :
    d'.rt = d.rt ∧ d'.gol = d.gol := by
  cases h with
  | ignored _ => exact ⟨rfl, rfl⟩
  | accepted type _ _ _ _ =>
    rcases why with ⟨h, -⟩ | ⟨h, -⟩
    · exact absurd type h
    · rw [type] at h; exact absurd h (by decide)
  | credited type current update =>
    rcases why with ⟨-, h⟩ | ⟨-, h⟩
    · exact absurd type h
    · obtain ⟨k, _, _, _, _, known, -⟩ := creditAck_eq_ok update
      rw [h] at known; cases known

end Datagrams

/-- **A datagram is survived exactly when it is long enough, from a neighbour, and handled as it
should be.** -/
theorem survived_iff (f : Files) : ∀ d, (daemonSystem f).Reachable d → ∀ r fresh,
    Survived d r fresh ↔ Survivable d r := by
  intro d hr r fresh
  have hc : Consistent superFastHash d.gol := (registered_reachable hr).1
  constructor
  · rintro ⟨d', out, h, hdrop⟩
    obtain ⟨lsa, _, _, recv, hh⟩ := receive_handled h
    have hsame : CountsFit lsa ∨ d'.rt = d.rt ∧ d'.gol = d.gol := by
      by_cases hfit : CountsFit lsa
      · exact .inl hfit
      · obtain ⟨_, _, _, rfl, -, packet, -, -, -⟩ := rtRecvfrom_eq_ok recv
        exact .inr (hdrop (.misfit packet hfit))
    have handle := Handleable.of_handled hc recv hh hsame
    obtain ⟨_, _, l, rfl, long, packet, known, rfl, -⟩ := rtRecvfrom_eq_ok recv
    exact .mk long known packet handle
  · rintro ⟨long, known, packet, handle⟩
    have recv : rtRecvfrom d.dl _ = .ok (some (_, _, _)) := rtRecvfrom_got long known packet
    obtain ⟨d', out, hh, hsame⟩ := handle.survived hc recv fresh
    refine ⟨d', out, receive_of_handled recv hh, fun hdrop => ?_⟩
    rcases hdrop.received recv with h | h | h
    · exact hh.unchanged (.inl h)
    · exact hh.unchanged (.inr h)
    · exact hsame.resolve_left h

/-- An LSA from a neighbour, without links or objects, is survived. -/
theorem survived_iff_plainPacket : ∃ d, (daemonSystem forkFiles).Reachable d ∧ ∀ fresh,
    Survived d (.got (cstr [66]) (plainPacket typeLsa 2).bytes) fresh := by
  have key : (boot forkFiles).map (fun d => decide (lookupLinkEntry d.dl (cstr [66]) ≠ none) &&
      decide (getRoutingEntry d.rt 2 ≠ none ∨ d.rt.numEntry < maxNodes) &&
      decide (d.gol.numObjs ≤ maxobjnum)) = .ok true := by decide +kernel
  obtain ⟨d, hd, hp⟩ := exists_of_map_eq_ok key
  simp only [Bool.and_eq_true, decide_eq_true_eq] at hp
  obtain ⟨⟨hlink, hentry⟩, hroom⟩ := hp
  obtain ⟨l, hl⟩ := Option.ne_none_iff_exists'.mp hlink
  have hp : bytesToPacket ((plainPacket typeLsa 2).bytes.take maxLsaLen) =
      .ok (plainPacket typeLsa 2) := by decide +kernel
  have hfit : Payload (plainPacket typeLsa 2) [] := ⟨rfl, [], [], rfl, rfl⟩
  have handle : Handleable d (plainPacket typeLsa 2) l.id :=
    .lsa (by decide) hfit (by simp) hentry (by simpa [newNames] using hroom)
  exact ⟨d, .init hd, fun fresh => (survived_iff forkFiles d (.init hd) _ fresh).mpr
    (.mk (by decide) hl hp handle)⟩

/-- **Neither a failure of `recvfrom` nor a datagram of one byte is survived.** -/
theorem exists_not_survived : ∃ d, (daemonSystem forkFiles).Reachable d ∧ ∃ fresh,
    ¬ Survived d .failed fresh ∧ ¬ Survived d (.got (cstr [66]) [0]) fresh := by
  have key : (boot forkFiles).map (fun _ => true) = .ok true := by decide +kernel
  obtain ⟨d, hd, -⟩ := exists_of_map_eq_ok key
  refine ⟨d, .init hd, zeros, fun ⟨_, _, h, _⟩ => ?_, fun ⟨_, _, h, _⟩ => ?_⟩
  · obtain ⟨_, _, _, recv, -⟩ := receive_handled h
    cases recv
  · obtain ⟨_, _, _, recv, -⟩ := receive_handled h
    obtain ⟨_, _, _, hgot, long, -⟩ := rtRecvfrom_eq_ok recv
    cases hgot
    exact absurd long (by decide)

end RoutingDaemon
