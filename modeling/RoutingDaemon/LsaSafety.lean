import RoutingDaemon.LsaLedger
import RoutingDaemon.Traffic
import RoutingDaemon.HeapSafety

/-!
# The flooding engine in memory

* `Reads`: a table in memory, with its ledger in order, and what it reads as.
* The functions, one lemma each: `updateEntry_sim`, `lsaHandler_sim`, `flood_sim`, `floodReceivedLsa_sim`,
  `retransmitMissing_sim`, `tickEntry_sim`, `timeout_sim`; `act_sim`: one pass of the event loop.
* `Aims`: a pointer that was taken earlier, to the LSA of an entry, or to a block that was freed since.
* `lsa_memory_safe`: the runs in memory are the runs on values; `lsa_leaks`: what is allocated after a run.
-/

namespace RoutingDaemon.Blocks

/-! ### The flooding engine -/

/-- The table reads as that one, and its ledger is in order. -/
structure Reads (L : Finset ℕ) (t : RoutingTable) (rt : RoutingDaemon.RoutingTable) : Prop where
  read : t.read = rt
  ledger : Ledger t L

section FloodingEngine

variable {A : Allocator} {fresh : Fresh} {dl : DirectLinks} {t t' : RoutingTable} {L : Finset ℕ} {k : ℕ}
  {rt : RoutingDaemon.RoutingTable} {e : RoutingEntry} {a : ℕ} {p : Ptr} {packet : LSA} {size : ℕ}
  {nexthop : Int32}

/-- **A new block takes the place of that of an entry.** -/
theorem store_eq (fresh : Fresh) (dl : DirectLinks) (size : ℕ) (nexthop : Int32) (h : Loose L a packet t rt)
    (hk : k < t.table.length) : ∃ t', t.release k (storeLsa fresh dl (some a) size nexthop) = .ok t' ∧
      Reads L t' (rt.modify k (RoutingDaemon.storeLsa fresh dl packet size nexthop)) ∧
        t'.load (some a) = .ok packet := by
  obtain ⟨b, hb, hab, rfl⟩ := load_eq_ok.mp h.load
  cases hab
  have hk' : t.table[k]? = some _ := List.getElem?_eq_getElem hk
  obtain ⟨t', ht, htable, hcell, hlive⟩ := release_eq h.ledger hk' (storeLsa fresh dl (some a) size nexthop)
  have hne : t.table[k].lsa ≠ some a := fun he =>
    h.ledger.held k a ((lsaAt_of_entry hk').trans he) (Finset.mem_insert_self a L)
  refine ⟨t', ht, ⟨?_, ?_⟩, load_eq_ok.mpr ⟨a, (hlive a).mpr ⟨hb, hne⟩, rfl, by rw [hcell]⟩⟩
  · rw [← h.read, read_congr htable fun _ _ _ => by rw [hcell]; rfl]
    exact read_modify fun _ => rfl
  · refine h.ledger.release hk' htable hlive (fun b hb => ?_) fun b => ?_
    · cases hb
      exact Finset.mem_insert_self a L
    · rw [Finset.mem_insert]
      constructor
      · intro hb
        refine ⟨.inr hb, fun he => h.new ?_⟩
        cases he
        exact hb
      · rintro ⟨rfl | hb, he⟩
        · exact absurd rfl he
        · exact hb

theorem push_eq (h : Ledger t L) (he : e.lsa = none) (hlen : t.table.length < maxNodes) :
    ∃ t', t.push e = .ok t' ∧ t'.table = t.table ++ [e] ∧ t'.lsas = t.lsas ∧ Ledger t' L := by
  refine ⟨_, dif_pos hlen, rfl, rfl, h.congr (fun j => ?_) rfl⟩
  rw [RoutingTable.lsaAt, RoutingTable.lsaAt, List.getElem?_append]
  split_ifs with hj
  · rfl
  · rw [List.getElem?_eq_none (not_lt.mp hj)]
    rcases Nat.eq_zero_or_pos (j - t.table.length) with h0 | h0
    · rw [h0]
      exact he
    · rw [List.getElem?_eq_none (Nat.succ_le_of_lt h0)]

theorem modify_map_concat {α β : Type} (g : α → β) (l : List α) (b : β) (f : β → β) :
    (l.map g ++ [b]).modify l.length f = l.map g ++ [f b] := by
  rw [List.modify_eq_take_drop, List.take_left' (List.length_map g), List.drop_left' (List.length_map g)]
  rfl

/-- **`update_entry`.** The block it is called with is that of an entry then. -/
theorem updateEntry_sim {entry : Option ℕ} (h : Loose L a packet t rt)
    (hentry : ∀ k, entry = some k → k < t.table.length) :
    Sim (fun t' rt' => Reads L t' rt' ∧ t'.load (some a) = .ok packet)
      (updateEntry fresh entry t dl (some a) size nexthop)
      (RoutingDaemon.updateEntry fresh entry rt dl packet size nexthop) := by
  obtain ⟨rfl, ha, hl, hp⟩ := h
  rw [updateEntry, RoutingDaemon.updateEntry.eq_def, hp, ok_bind]
  dsimp only
  generalize defaultTtl - getTtl packet.versionTtlType + 1 = cost
  split_ifs with htype
  · cases entry with
    | none =>
      by_cases hlen : t.table.length < maxNodes
      · obtain ⟨t₁, ht₁, htable, hlsas, h₁⟩ := push_eq (e := newEntry packet nexthop cost) hl rfl hlen
        have hp₁ : t₁.load (some a) = .ok packet := by rw [RoutingTable.load, hlsas]; exact hp
        obtain ⟨t₂, ht₂, hr, hp₂⟩ := store_eq (k := t₁.table.length - 1) fresh dl size nexthop
          ⟨rfl, ha, h₁, hp₁⟩ (by simp [htable])
        rw [ht₁]
        change Sim _ (t₁.release _ _) _
        rw [ht₂, RoutingDaemon.RoutingTable.push, dif_pos (by rw [length_read]; exact hlen)]
        refine sim_ok ⟨⟨hr.read.trans ?_, hr.ledger⟩, hp₂⟩
        simp only [RoutingTable.read, RoutingDaemon.RoutingTable.modify, htable, hlsas, List.map_append,
          List.length_append, List.map_singleton, List.length_singleton, Nat.add_sub_cancel,
          modify_map_concat]
        rfl
      · rw [RoutingTable.push, RoutingDaemon.RoutingTable.push, dif_neg hlen, dif_neg (by rwa [length_read])]
        exact sim_error _
    | some k =>
      obtain ⟨t', ht, hr, hp'⟩ := store_eq (k := k) fresh dl size nexthop
        ⟨read_modify (g := RoutingDaemon.setRoute cost nexthop) fun _ => rfl, ha,
          hl.modify (f := setRoute cost nexthop) fun _ => rfl, hp⟩
        (by simpa [RoutingTable.modify] using hentry k rfl)
      dsimp only
      rw [ht]
      refine sim_ok ⟨⟨hr.read.trans ?_, hr.ledger⟩, hp'⟩
      simp only [RoutingDaemon.RoutingTable.modify, List.modify_modify_eq]
      rfl
  · cases entry with
    | none => exact sim_error _
    | some k =>
      obtain ⟨t', ht, hr, hp'⟩ := store_eq fresh dl size nexthop ⟨rfl, ha, hl, hp⟩ (hentry k rfl)
      change Sim _ (t.release _ _) _
      rw [ht]
      exact sim_ok ⟨hr, hp'⟩

/-- **The loops of `flood` and `flood_received_lsa`.** -/
theorem floodLinks_sim {skip : Int32 → Bool} {ls : List (LinkEntry × ℕ)} (h : Ledger t L)
    (hp : t.load p = .ok packet) :
    Sim (fun x y => Reads L x.1 y.1 ∧ x.2 = y.2 ∧ x.1.table.length = t.table.length)
      (floodLinks k p size skip ls t) (RoutingDaemon.floodLinks k packet size skip ls t.read) := by
  induction ls generalizing t with
  | nil => exact sim_ok ⟨⟨rfl, h⟩, rfl, rfl⟩
  | cons q ls ih =>
    obtain ⟨l, i⟩ := q
    rw [floodLinks, RoutingDaemon.floodLinks]
    split_ifs with hskip
    · exact ih h hp
    · rw [linkStatus_read]
      refine .lift_bind _ fun status _ => ?_
      split_ifs with hdown
      · exact ih h hp
      · rw [hp, ok_bind, getChecker_read]
        refine .lift_bind _ fun _ _ => ?_
        rw [← modifyChecker_read]
        refine .bind (ih (h.modify fun _ => rfl) hp) fun x y hxy => ?_
        obtain ⟨hr, hout, hlen⟩ := hxy
        exact sim_ok ⟨hr, congrArg _ hout, hlen.trans (List.length_modify ..)⟩

/-- What a computation that does not free anything it was not given leaves: the tables, and the same result
otherwise. -/
def Same {α : Type} (L : Finset ℕ) (x : RoutingTable × α) (y : RoutingDaemon.RoutingTable × α) : Prop :=
  Reads L x.1 y.1 ∧ x.2 = y.2

/-- **`flood`.** -/
theorem flood_sim {type : BitVec 32} {ol : LocalObjects} {nodeId sequenceNum : Int32} (h : Ledger t L) :
    Sim (Same L) (flood A fresh type dl ol t nodeId sequenceNum)
      (RoutingDaemon.flood fresh type dl ol t.read nodeId sequenceNum) := by
  refine .lift_bind _ fun ⟨packet, size⟩ _ => ?_
  obtain ⟨a, t₁, ht₁, h₁⟩ := alloc_eq A h packet
  dsimp only
  rw [ht₁, ok_bind, ← h₁.read, getRoutingEntry_read, h₁.read]
  dsimp only
  refine .bind (updateEntry_sim h₁ fun k hk => lt_of_getRoutingEntry hk) ?_
  rintro t₂ _ ⟨⟨rfl, h₂⟩, hp₂⟩
  refine .lift_bind _ fun k _ => ?_
  exact (floodLinks_sim h₂ hp₂).mono fun _ _ hr => ⟨hr.1, hr.2.1⟩

/-- **`flood_received_lsa`** of a stored LSA. -/
theorem floodReceivedLsa_sim {forwarderId : Int32} (h : Ledger t L) (hp : t.load p = .ok packet) :
    Sim (fun x y => Same L x y ∧ x.1.table.length = t.table.length)
      (floodReceivedLsa p dl t size forwarderId)
      (RoutingDaemon.floodReceivedLsa packet dl t.read size forwarderId) := by
  rw [floodReceivedLsa, RoutingDaemon.floodReceivedLsa, hp, ok_bind, getRoutingEntry_read]
  refine .lift_bind _ fun k _ => ?_
  exact (floodLinks_sim h hp).mono fun _ _ hr => ⟨⟨hr.1, hr.2.1⟩, hr.2.2⟩

theorem filtered_sim {entry : Option ℕ} {type : BitVec 32} {n : Int32} (h : Ledger t L) :
    filtered t entry type n = .ok (RoutingDaemon.filtered t.read entry type n) := by
  cases entry with
  | none => rfl
  | some k =>
    simp only [filtered, RoutingDaemon.filtered, Option.bind_some, read_getElem?]
    cases hk : t.table[k]? with
    | none => rfl
    | some e =>
      simp only [Option.bind_some, Option.map_some, RoutingEntry.read]
      cases hp : e.lsa with
      | none => rfl
      | some b =>
        have hb := h.live k b (by rw [lsaAt_of_entry hk, hp])
        have hload : t.load (some b) = .ok (t.lsas.cell b) := load_eq_ok.mpr ⟨b, hb, rfl, rfl⟩
        simp only [hload, ok_bind, Option.map_some]

theorem creditAck_read (entry : Option ℕ) (forwarderId : Int32) :
    RoutingDaemon.creditAck t.read entry forwarderId =
      (creditAck t entry forwarderId).map RoutingTable.read := by
  cases entry with
  | none => rfl
  | some k =>
    simp only [creditAck, RoutingDaemon.creditAck, deref_some, ok_bind, read_getElem?]
    cases t.table[k]? with
    | none => rfl
    | some e =>
      simp only [Option.map_some, deref_some, ok_bind, read_checkersList]
      cases e.checkersList with
      | none => rfl
      | some c =>
        simp only [deref_some, ok_bind]
        cases t.table[0]? with
        | none => rfl
        | some own =>
          simp only [Option.map_some, deref_some, ok_bind, read_checkersList]
          cases own.checkersList with
          | none => rfl
          | some o =>
            simp only [deref_some, ok_bind]
            split_ifs with hlen
            · rfl
            · exact congrArg Except.ok (read_modify fun _ => rfl).symm

theorem creditAck_sim {entry : Option ℕ} {forwarderId : Int32} (h : Ledger t L) :
    Sim (Reads L) (lift (creditAck t entry forwarderId))
      (RoutingDaemon.creditAck t.read entry forwarderId) := by
  rw [creditAck_read]
  cases hc : creditAck t entry forwarderId with
  | error e => exact sim_error e
  | ok t' =>
    refine sim_ok ⟨rfl, ?_⟩
    obtain ⟨_, -, hc⟩ := bind_eq_ok.mp hc
    obtain ⟨_, -, hc⟩ := bind_eq_ok.mp hc
    obtain ⟨_, -, hc⟩ := bind_eq_ok.mp hc
    obtain ⟨_, -, hc⟩ := bind_eq_ok.mp hc
    obtain ⟨_, -, hc⟩ := bind_eq_ok.mp hc
    dsimp only at hc
    split_ifs at hc
    cases hc
    exact h.modify fun _ => rfl

/-- **`rt_recvfrom`.** -/
theorem rtRecvfrom_sim {r : Received} (h : Ledger t L) :
    Sim (fun x y => (x.1 = none ∧ y = none) ∨ ∃ a packet f n, x.1 = some (some a, f, n) ∧
        y = some (packet, f, n) ∧ Loose L a packet x.2 t.read)
      (rtRecvfrom A dl t r) (RoutingDaemon.rtRecvfrom dl r) := by
  cases r with
  | failed => exact sim_error _
  | got cliAddr buf =>
    simp only [rtRecvfrom, RoutingDaemon.rtRecvfrom]
    split_ifs with hlen
    · exact sim_ok (.inl ⟨rfl, rfl⟩)
    · refine .lift_bind _ fun packet _ => ?_
      obtain ⟨a, t₁, ht₁, h₁⟩ := alloc_eq A h packet
      rw [ht₁, ok_bind]
      refine .lift_bind _ fun f _ => ?_
      exact sim_ok (.inr ⟨a, packet, f.id, _, rfl, rfl, h₁⟩)

/-- **`lsa_handler`.** One more block is leaked, unless the packet is stored. -/
theorem lsaHandler_sim {r : Received} {ht : LisoHash} (h : Ledger t L) :
    SimEffects (fun x y => (∃ L', Reads L' x.2.1 y.2.1 ∧
        L'.card + (if x.2.2.2.any Effect.isAccept then 1 else 0) = L.card + 1) ∧ x.1 = y.1 ∧ x.2.2 = y.2.2)
      (lsaHandler A fresh r dl t ht) (RoutingDaemon.lsaHandler fresh r dl t.read ht) := by
  refine (rtRecvfrom_sim h).bind_after ?_
  rintro ⟨_, t₁⟩ _ (⟨rfl, rfl⟩ | ⟨a, packet, f, n, rfl, rfl, h₁⟩)
  · exact .error _
  have hcard := Finset.card_insert_of_notMem h₁.new
  simp only [deref_some, lift_ok, afterEffects_ok, ok_bind, h₁.load, ← h₁.read, getRoutingEntry_read,
    filtered_sim h₁.ledger]
  split_ifs with hearly hlsa hack
  · exact .ok ⟨⟨_, ⟨rfl, h₁.ledger⟩, hcard⟩, rfl, rfl⟩
  · obtain ⟨t₂, ht₂, h₂⟩ := setHeader_eq h₁ fun w => setType w typeAck
    obtain ⟨t₃, ht₃, h₃⟩ := setHeader_eq h₂ fun w => setType w packet.versionTtlType
    obtain ⟨t₄, ht₄, h₄⟩ := setHeader_eq h₃ fun w => setTtl w (getTtl w - 1)
    rw [ht₂, afterEffects_ok, ok_bind]
    refine .lift_bind _ fun srcLink _ => ?_
    rw [h₂.load, afterEffects_ok, ok_bind, ht₃, afterEffects_ok, ok_bind, ht₄, afterEffects_ok, ok_bind,
      h₁.read]
    refine (updateEntry_sim h₄ fun k hk => ?_).bind_after ?_
    · rw [← length_read, h₄.read, ← h₁.read, length_read]
      exact lt_of_getRoutingEntry hk
    · rintro t₅ rt₅ ⟨h₅, hp₅⟩
      rw [hp₅, afterEffects_ok, ok_bind]
      refine .lift_bind _ fun gol _ => ?_
      exact .ok ⟨⟨L, h₅, rfl⟩, rfl, rfl⟩
  · refine (creditAck_sim h₁.ledger).bind_after fun t₂ rt₂ h₂ => ?_
    exact .ok ⟨⟨_, h₂, hcard⟩, rfl, rfl⟩
  · exact .ok ⟨⟨_, ⟨rfl, h₁.ledger⟩, hcard⟩, rfl, rfl⟩

end FloodingEngine

/-! ### Retransmission -/

section Retransmission

variable {dl : DirectLinks} {t t' : RoutingTable} {L : Finset ℕ} {k slot a size : ℕ} {e : RoutingEntry}
  {forwarderId : Int32} {ht : LisoHash}

/-- `a` is the pointer that an entry had: it still has it, or the block was freed. -/
def Aims (t : RoutingTable) (slot a : ℕ) : Prop :=
  t.lsaAt slot = some a ∨ t.lsaAt slot = none ∧ a ∉ t.lsas.live

theorem storedLsa_read : storedLsa t.read slot = (t.lsaAt slot).map t.lsas.cell := by
  rw [storedLsa, read_getElem?, RoutingTable.lsaAt]
  cases t.table[slot]? <;> rfl

theorem Aims.modifyChecker (h : Aims t slot a) (k i : ℕ) (f : AckChecker → AckChecker) :
    Aims (modifyChecker t k i f) slot a := by
  have hat : (Blocks.modifyChecker t k i f).lsaAt slot = t.lsaAt slot :=
    lsaAt_modify_of (by exact fun _ => rfl) slot
  rw [Aims, hat]
  exact h

/-- **A node is given up.** The pointers that others still have to its LSA dangle. -/
theorem discard_eq (h : Ledger t L) (hk : t.table[k]? = some e) :
    ∃ t', t.release k RoutingEntry.discard = .ok t' ∧
      Reads L t' (t.read.modify k RoutingDaemon.RoutingEntry.discard) ∧
        ∀ slot a, Aims t slot a → Aims t' slot a := by
  obtain ⟨t', ht, htable, hcell, hlive⟩ := release_eq h hk RoutingEntry.discard
  refine ⟨t', ht, ⟨?_, ?_⟩, fun slot a haim => ?_⟩
  · rw [read_congr htable fun _ _ _ => by rw [hcell]; rfl]
    exact read_modify fun _ => rfl
  · exact h.release hk htable hlive (fun b hb => nomatch hb) fun b =>
      ⟨fun hb => ⟨hb, nofun⟩, fun hb => hb.1⟩
  · rw [Aims, lsaAt_of_table hk htable, hlive]
    by_cases hslot : slot = k
    · subst hslot
      rw [if_pos rfl]
      refine .inr ⟨rfl, fun hlive' => ?_⟩
      rw [← lsaAt_of_entry hk] at hlive'
      exact haim.elim hlive'.2 fun hd => hd.2 hlive'.1
    · rw [if_neg hslot]
      exact haim.imp_right fun hd => ⟨hd.1, fun hlive' => hd.2 hlive'.1⟩

/-- **The loop of `retransmit_missing`.** A packet that was freed is read exactly where the model on values
has a use after free. -/
theorem retransmitLinks_sim {ls : List (LinkEntry × ℕ)} (h : Ledger t L) (haim : Aims t slot a) :
    Sim (Same L) (retransmitLinks (some a) k size forwarderId ls t ht)
      (RoutingDaemon.retransmitLinks slot k size forwarderId ls t.read ht) := by
  induction ls generalizing t ht with
  | nil => exact sim_ok ⟨⟨rfl, h⟩, rfl⟩
  | cons q ls ih =>
    obtain ⟨l, i⟩ := q
    rw [retransmitLinks, RoutingDaemon.retransmitLinks]
    split_ifs with hskip
    · exact ih h haim
    rw [getChecker_read]
    refine .lift_bind _ fun c _ => ?_
    cases c.ackReceived with
    | received => exact ih h haim
    | notReceived =>
      dsimp only
      rw [getRoutingEntry_read]
      refine .lift_bind _ fun m _ => ?_
      rw [read_getElem?]
      cases hm : t.table[m]? with
      | none => exact sim_error _
      | some e =>
        simp only [Option.map_some, deref_some, lift_ok, ok_bind]
        refine .ite Iff.rfl (fun _ => ?_) fun _ => .ite Iff.rfl (fun _ => ?_) fun _ => ih h haim
        · obtain ⟨t', ht', hr, haim'⟩ := discard_eq h hm
          rw [ht', ok_bind, ← hr.read, ← modifyChecker_read]
          refine .bind (ih (hr.ledger.modify fun _ => rfl) ((haim' _ _ haim).modifyChecker k i _)) ?_
          rintro ⟨t₂, gol, out⟩ ⟨rt₂, _, _⟩ ⟨hr₂, heq⟩
          cases heq
          exact sim_ok ⟨hr₂, rfl⟩
        · rw [storedLsa_read]
          rcases haim with hat | ⟨hat, hfree⟩
          · rw [hat, load_eq_ok.mpr ⟨a, h.live slot a hat, rfl, rfl⟩, ok_bind]
            dsimp only [Option.map_some]
            rw [← modifyChecker_read]
            refine .bind (ih (h.modify (by exact fun _ => rfl)) (Aims.modifyChecker (.inl hat) k i _)) ?_
            rintro ⟨t₂, gol, out⟩ ⟨rt₂, _, _⟩ ⟨hr₂, heq⟩
            cases heq
            exact sim_ok ⟨hr₂, rfl⟩
          · rw [hat, load_dangling hfree]
            exact sim_error _

/-- **`retransmit_missing`** of the LSA of an entry. -/
theorem retransmitMissing_sim (h : Ledger t L) (hk : t.table[slot]? = some e) :
    Sim (Same L) (retransmitMissing e.lsa dl t size forwarderId ht)
      (RoutingDaemon.retransmitMissing slot dl t.read size forwarderId ht) := by
  have hat := lsaAt_of_entry hk
  rw [retransmitMissing, RoutingDaemon.retransmitMissing, storedLsa_read, hat]
  cases hp : e.lsa with
  | none => exact sim_ok ⟨⟨rfl, h⟩, rfl⟩
  | some a =>
    have hslot : t.lsaAt slot = some a := hat.trans hp
    rw [if_neg (Option.some_ne_none a), load_eq_ok.mpr ⟨a, h.live slot a hslot, rfl, rfl⟩, ok_bind]
    dsimp only [Option.map_some]
    rw [getRoutingEntry_read]
    exact .lift_bind _ fun k _ => retransmitLinks_sim h (.inl hslot)

theorem retransmitEntries_sim {is : List ℕ} (h : Ledger t L) :
    Sim (Same L) (retransmitEntries dl is t ht) (RoutingDaemon.retransmitEntries dl is t.read ht) := by
  induction is generalizing t ht with
  | nil => exact sim_ok ⟨⟨rfl, h⟩, rfl⟩
  | cons i is ih =>
    rw [retransmitEntries, RoutingDaemon.retransmitEntries, read_getElem?]
    cases hi : t.table[i]? with
    | none => exact sim_error _
    | some e =>
      simp only [Option.map_some, deref_some, lift_ok, ok_bind]
      refine .bind (retransmitMissing_sim h hi) ?_
      rintro ⟨t₁, gol₁, out₁⟩ ⟨_, _, _⟩ ⟨⟨rfl, h₁⟩, heq⟩
      cases heq
      refine .bind (ih h₁) ?_
      rintro ⟨t₂, gol₂, out₂⟩ ⟨rt₂, _, _⟩ ⟨hr₂, heq⟩
      cases heq
      exact sim_ok ⟨hr₂, rfl⟩

end Retransmission

/-! ### The flood tick -/

section Tick

variable {A : Allocator} {fresh : Fresh} {dl : DirectLinks} {t t' : RoutingTable} {L : Finset ℕ}
  {e : RoutingEntry} {i : ℕ} {ht : LisoHash}

theorem forwardEntry_sim (h : Ledger t L) (hi : t.table[i]? = some e) :
    Sim (fun x y => Same L x y ∧ x.1.table.length = t.table.length) (forwardEntry dl t e)
      (RoutingDaemon.forwardEntry dl t.read (e.read t.lsas)) := by
  rw [forwardEntry, RoutingDaemon.forwardEntry]
  refine .ite Iff.rfl (fun _ => ?_) fun _ => sim_ok ⟨⟨⟨rfl, h⟩, rfl⟩, rfl⟩
  cases hp : e.lsa with
  | none =>
    rw [RoutingEntry.read, hp]
    exact sim_error _
  | some a =>
    have hat : t.lsaAt i = some a := (lsaAt_of_entry hi).trans hp
    rw [RoutingEntry.read, hp]
    exact floodReceivedLsa_sim h (load_eq_ok.mpr ⟨a, h.live i a hat, rfl, rfl⟩)

/-- **One entry in a flood tick.** -/
theorem tickEntry_sim (h : Ledger t L) :
    Sim (Same L) (tickEntry dl i t ht) (RoutingDaemon.tickEntry dl i t.read ht) := by
  rw [tickEntry, RoutingDaemon.tickEntry, read_getElem?]
  cases hi : t.table[i]? with
  | none => exact sim_error _
  | some e =>
    simp only [Option.map_some, deref_some, lift_ok, ok_bind]
    refine .bind (forwardEntry_sim h hi) ?_
    rintro ⟨t₁, out₁⟩ ⟨_, _⟩ ⟨⟨⟨rfl, h₁⟩, heq⟩, hlen⟩
    cases heq
    refine .ite Iff.rfl (fun _ => sim_ok ⟨⟨rfl, h₁⟩, rfl⟩) fun _ => .ite Iff.rfl (fun _ => ?_) fun _ => ?_
    · have hi₁ : i < t₁.table.length := hlen ▸ (List.getElem?_eq_some_iff.mp hi).1
      obtain ⟨t₂, ht₂, hr₂, -⟩ := discard_eq h₁ (List.getElem?_eq_getElem hi₁)
      rw [ht₂]
      exact sim_ok ⟨hr₂, rfl⟩
    · exact sim_ok ⟨⟨read_modify fun _ => rfl, h₁.modify fun _ => rfl⟩, rfl⟩

theorem tickEntries_sim {is : List ℕ} (h : Ledger t L) :
    Sim (Same L) (tickEntries dl is t ht) (RoutingDaemon.tickEntries dl is t.read ht) := by
  induction is generalizing t ht with
  | nil => exact sim_ok ⟨⟨rfl, h⟩, rfl⟩
  | cons i is ih =>
    refine .bind (tickEntry_sim h) ?_
    rintro ⟨t₁, gol₁, out₁⟩ ⟨_, _, _⟩ ⟨⟨rfl, h₁⟩, heq⟩
    cases heq
    refine .bind (ih h₁) ?_
    rintro ⟨t₂, gol₂, out₂⟩ ⟨rt₂, _, _⟩ ⟨hr₂, heq⟩
    cases heq
    exact sim_ok ⟨hr₂, rfl⟩

end Tick

/-! ### The engine -/

section Engine

variable {A : Allocator} {fresh : Fresh} {d d' : Daemon} {L : Finset ℕ} {ev : Event}

/-- The daemon reads as that one, and its ledger is in order. -/
structure Daemon.Reads (L : Finset ℕ) (d : Daemon) (d' : RoutingDaemon.Daemon) : Prop where
  read : d.read = d'
  ledger : Ledger d.rt L

theorem floodTick_sim (h : Ledger d.rt L) :
    Sim (fun x y => Daemon.Reads L x.1 y.1 ∧ x.2 = y.2) (floodTick A fresh d)
      (RoutingDaemon.floodTick fresh d.read) := by
  refine .bind (flood_sim h) ?_
  rintro ⟨t₁, out₁⟩ ⟨_, _⟩ ⟨⟨rfl, h₁⟩, heq⟩
  cases heq
  refine .lift_bind _ fun n _ => ?_
  dsimp only
  rw [RoutingDaemon.RoutingTable.numEntry, length_read]
  refine .bind (tickEntries_sim h₁) ?_
  rintro ⟨t₂, gol₂, out₂⟩ ⟨_, _, _⟩ ⟨⟨rfl, h₂⟩, heq⟩
  cases heq
  exact sim_ok ⟨⟨rfl, h₂⟩, rfl⟩

theorem retransmitRound_sim (h : Ledger d.rt L) :
    Sim (fun x y => Daemon.Reads L x.1 y.1 ∧ x.2 = y.2) (retransmitRound d)
      (RoutingDaemon.retransmitRound d.read) := by
  rw [retransmitRound, RoutingDaemon.retransmitRound, Daemon.read]
  dsimp only
  rw [RoutingDaemon.RoutingTable.numEntry, length_read]
  refine .bind (retransmitEntries_sim h) ?_
  rintro ⟨t₁, gol₁, out₁⟩ ⟨_, _, _⟩ ⟨⟨rfl, h₁⟩, heq⟩
  cases heq
  exact sim_ok ⟨⟨rfl, h₁⟩, rfl⟩

/-- **A timeout leaks nothing.** -/
theorem timeout_sim (h : Ledger d.rt L) :
    Sim (fun x y => Daemon.Reads L x.1 y.1 ∧ x.2 = y.2) (timeout A fresh d)
      (RoutingDaemon.timeout fresh d.read) := by
  have flooded : Sim (fun x y => Daemon.Reads L x.1 y.1 ∧ x.2 = y.2) (floodPhase A fresh d)
      (RoutingDaemon.floodPhase fresh d.read) :=
    .ite Iff.rfl (fun _ => floodTick_sim h) fun _ => sim_ok ⟨⟨rfl, h⟩, rfl⟩
  refine .bind flooded ?_
  rintro ⟨d₁, out₁⟩ ⟨_, _⟩ ⟨⟨rfl, h₁⟩, heq⟩
  cases heq
  have sent : Sim (fun x y => Daemon.Reads L x.1 y.1 ∧ x.2 = y.2) (retransmitPhase d₁)
      (RoutingDaemon.retransmitPhase d₁.read) :=
    .ite Iff.rfl (fun _ => retransmitRound_sim h₁) fun _ => sim_ok ⟨⟨rfl, h₁⟩, rfl⟩
  refine .bind sent ?_
  rintro ⟨d₂, out₂⟩ ⟨_, _⟩ ⟨⟨rfl, h₂⟩, heq⟩
  cases heq
  exact sim_ok ⟨⟨rfl, h₂⟩, rfl⟩

/-- A pass leaks the packet it received: it is an acknowledgement, or not newer than what is stored. -/
def leaks : Event × List Effect → Bool
  | (.datagram _ _, out) => !out.any Effect.isAccept
  | _ => false

/-- **One pass of the event loop.** -/
theorem act_sim (h : Ledger d.rt L) :
    Sim (fun x y => (∃ L', Daemon.Reads L' x.1 y.1 ∧ L'.card = L.card + (leaks (ev, x.2)).toNat) ∧ x.2 = y.2)
      (act A ev d) (RoutingDaemon.act ev d.read) := by
  cases ev with
  | timeout fresh => exact (timeout_sim h).mono fun _ _ hr => ⟨⟨L, hr.1, rfl⟩, hr.2⟩
  | datagram r fresh =>
    refine .bind (lsaHandler_sim h).fault ?_
    rintro ⟨n, t₁, gol₁, out₁⟩ ⟨_, _, _, _⟩ ⟨⟨L', ⟨rfl, h₁⟩, hcard⟩, heq, heq'⟩
    cases heq
    cases heq'
    refine sim_ok ⟨⟨L', ⟨rfl, h₁⟩, ?_⟩, rfl⟩
    cases hacc : out₁.any Effect.isAccept <;> simpa [leaks, hacc] using hcard
  | request c uri opened =>
    cases hb : buildResponse uri opened d.read c with
    | error f =>
      simp only [act, RoutingDaemon.act, hb]
      exact sim_error f
    | ok x =>
      obtain ⟨d', c'⟩ := x
      have hact : RoutingDaemon.act (.request c uri opened) d.read = .ok (d', []) := by
        rw [RoutingDaemon.act, hb]
        rfl
      have hd' : { d.read with gol := d'.gol, ol := d'.ol, filefile := d'.filefile } = d' := by
        obtain ⟨-, rfl | ⟨o, ho⟩⟩ := request_added hact
        · rfl
        · rw [ho.rest]
      rw [hact, act, hb]
      exact sim_ok ⟨⟨L, ⟨hd', h⟩, rfl⟩, rfl⟩

end Engine

/-! ### Runs -/

section Runs

variable {A : Allocator} {f : Files} {d : Daemon} {ls : List (Event × List Effect)}

theorem lsaAt_loaded {t : RoutingTable} {rt : RoutingDaemon.RoutingTable}
    (htable : t.table = rt.table.map RoutingEntry.loaded) (j : ℕ) : t.lsaAt j = none := by
  rw [RoutingTable.lsaAt, htable, List.getElem?_map]
  cases rt.table[j]? <;> rfl

theorem boot_sim (cells : ℕ → LSA) : Sim (Daemon.Reads ∅) (boot cells f) (RoutingDaemon.boot f) := by
  rw [boot]
  cases hb : RoutingDaemon.boot f with
  | error e => exact sim_error e
  | ok d =>
    have hnone : ∀ j a, RoutingTable.lsaAt ⟨d.rt.table.map RoutingEntry.loaded, by simpa using d.rt.bounded,
        ⟨cells, ∅, 0⟩⟩ j ≠ some a := by
      intro j a hj
      rw [lsaAt_loaded rfl] at hj
      cases hj
    have hread : (d.rt.table.map RoutingEntry.loaded).map (RoutingEntry.read ⟨cells, ∅, 0⟩) = d.rt.table := by
      rw [List.map_map, (boot_eq_ok hb).2.1]
      refine (List.map_congr_left fun e he => ?_).trans (List.map_id _)
      obtain ⟨j, hj, rfl⟩ := List.mem_mapIdx.mp he
      rfl
    refine sim_ok ⟨?_, Finset.empty_subset _, fun j a hj => absurd hj (hnone j a), fun j a _ => by simp,
      fun j _ a hj _ => absurd hj (hnone j a), fun a ha => absurd ha (Finset.notMem_empty a)⟩
    simp only [Daemon.read, RoutingTable.read, hread]

/-- **The ledger of a run.** -/
theorem ledger_run (r : (daemonSystem A f).Run ls d) :
    (RoutingDaemon.daemonSystem f).Run ls d.read ∧ ∃ L, Ledger d.rt L ∧ L.card = ls.countP leaks := by
  induction r with
  | init h =>
    obtain ⟨cells, h⟩ := h
    obtain ⟨_, hd, rfl, hl⟩ := (boot_sim cells).of_eq_ok h
    exact ⟨.init (lift_eq_ok.mp hd), ∅, hl, rfl⟩
  | @step ls d d' l r h ih =>
    obtain ⟨ih, L, hL, hcard⟩ := ih
    obtain ⟨⟨_, out⟩, hd, ⟨L', ⟨rfl, hL'⟩, hcard'⟩, rfl⟩ := (act_sim hL).of_eq_ok h
    refine ⟨.step ih (lift_eq_ok.mp hd), L', hL', ?_⟩
    rw [hcard', hcard, List.countP_append, List.countP_singleton]
    cases leaks l <;> rfl

theorem Ledger.card_live {t : RoutingTable} {L : Finset ℕ} (h : Ledger t L) :
    t.lsas.live.card = t.table.countP (fun e => e.lsa.isSome) + L.card := by
  have hnodup : (t.table.filterMap RoutingEntry.lsa).Nodup := by
    rw [List.Nodup, List.pairwise_filterMap, List.pairwise_iff_getElem]
    rintro i j hi hj hij a ha _ hb rfl
    have := h.own i j a ((lsaAt_of_entry (List.getElem?_eq_getElem hi)).trans ha)
      ((lsaAt_of_entry (List.getElem?_eq_getElem hj)).trans hb)
    omega
  have hmem : ∀ a, a ∈ (t.table.filterMap RoutingEntry.lsa).toFinset ↔ ∃ j, t.lsaAt j = some a := by
    intro a
    rw [List.mem_toFinset, List.mem_filterMap]
    simp only [RoutingTable.lsaAt, Option.bind_eq_some_iff, List.mem_iff_getElem?]
    constructor
    · rintro ⟨e, ⟨j, hj⟩, he⟩
      exact ⟨j, e, hj, he⟩
    · rintro ⟨j, e, hj, he⟩
      exact ⟨e, ⟨j, hj⟩, he⟩
  have hlive : t.lsas.live = (t.table.filterMap RoutingEntry.lsa).toFinset ∪ L := by
    ext a
    rw [Finset.mem_union, hmem]
    constructor
    · intro ha
      exact (h.accounted a ha).symm
    · rintro (⟨j, hj⟩ | ha)
      · exact h.live j a hj
      · exact h.leaked ha
  have hdisj : Disjoint (t.table.filterMap RoutingEntry.lsa).toFinset L := by
    rw [Finset.disjoint_left]
    intro a ha
    obtain ⟨j, hj⟩ := (hmem a).mp ha
    exact h.held j a hj
  rw [hlive, Finset.card_union_of_disjoint hdisj, List.toFinset_card_of_nodup hnodup,
    List.length_filterMap_eq_countP]

theorem exists_run {A : Allocator} {f : Files} {ls : List (Event × List Effect)} {d' : RoutingDaemon.Daemon}
    (r : (RoutingDaemon.daemonSystem f).Run ls d') : ∃ d, (daemonSystem A f).Run ls d ∧ d.read = d' := by
  induction r with
  | init h =>
    obtain ⟨d, hd, hr⟩ := (boot_sim fun _ => ⟨0, 0, 0, 0, 0, []⟩).exists_ok h
    exact ⟨d, .init ⟨_, hd⟩, hr.read⟩
  | @step ls _ d' l r h ih =>
    obtain ⟨d, hd, rfl⟩ := ih
    obtain ⟨-, L, hL, -⟩ := ledger_run hd
    obtain ⟨⟨d₁, out⟩, h₁, ⟨L', hr, -⟩, rfl⟩ := (act_sim hL).exists_ok h
    exact ⟨d₁, hd.step h₁, hr.read⟩

theorem exists_leak : ∃ ls d, (RoutingDaemon.daemonSystem forkFiles).Run ls d ∧ 0 < ls.countP leaks := by
  let ev : Event := .datagram (ackOf 1) zeros
  have key : (do
      let d ← RoutingDaemon.boot forkFiles
      let d ← exec forkRun d
      RoutingDaemon.act ev d).map (fun p : RoutingDaemon.Daemon × List Effect => leaks (ev, p.2)) =
        .ok true := by decide +kernel
  obtain ⟨⟨d', out⟩, hd, hp⟩ := exists_of_map_eq_ok key
  obtain ⟨d₀, h0, hd⟩ := bind_eq_ok.mp hd
  obtain ⟨d₁, h1, hd⟩ := bind_eq_ok.mp hd
  obtain ⟨ls, r⟩ := reachable_exec (.init h0) h1
  refine ⟨_, d', r.step (l := (ev, out)) hd, ?_⟩
  rw [List.countP_append, List.countP_singleton, if_pos hp]
  exact Nat.succ_pos _

/-- **The runs in memory are the runs on values.** An entry points to a block of its own, which is allocated.
A pass fails only with a fault of the model on values: no block is freed twice, and one that was freed is read
only where that model has a use after free. -/
theorem lsa_memory_safe (A : Allocator) (f : Files) :
    (∀ ls d, (daemonSystem A f).Run ls d → (RoutingDaemon.daemonSystem f).Run ls d.read) ∧
    (∀ ls d', (RoutingDaemon.daemonSystem f).Run ls d' → ∃ d, (daemonSystem A f).Run ls d ∧ d.read = d') ∧
    ∀ d, (daemonSystem A f).Reachable d →
      (∀ j a, d.rt.lsaAt j = some a → a ∈ d.rt.lsas.live ∧ ∀ i, d.rt.lsaAt i = some a → i = j) ∧
        ∀ ev, (act A ev d).map (fun p => (p.1.read, p.2)) = lift (RoutingDaemon.act ev d.read) := by
  refine ⟨fun ls d r => (ledger_run r).1, fun ls d' r => exists_run r, fun d r => ?_⟩
  obtain ⟨ls, r⟩ := r
  obtain ⟨-, L, hL, -⟩ := ledger_run r
  refine ⟨fun j a hj => ⟨hL.live j a hj, fun i hi => hL.own i j a hi hj⟩, fun ev => ?_⟩
  have step : Sim _ (act A ev d) (RoutingDaemon.act ev d.read) := act_sim hL
  generalize act A ev d = x at step
  unfold Sim at step
  cases hy : RoutingDaemon.act ev d.read with
  | error e =>
    rw [hy] at step
    cases step
    rfl
  | ok y =>
    obtain ⟨a, rfl, ⟨L', hr, -⟩, hout⟩ := Sim.exists_ok step hy
    rw [lift_ok]
    exact congrArg Except.ok (Prod.ext hr.read hout)

theorem lsa_memory_safe_forkRun : ∃ ls d, (daemonSystem Heap.above forkFiles).Run ls d ∧
    (RoutingDaemon.daemonSystem forkFiles).Run ls d.read ∧ 0 < ls.countP leaks ∧
      ∀ ev, (act Heap.above ev d).map (fun p => (p.1.read, p.2)) = lift (RoutingDaemon.act ev d.read) := by
  obtain ⟨ls, d', r, hpos⟩ := exists_leak
  obtain ⟨hread, hrun, hsafe⟩ := lsa_memory_safe Heap.above forkFiles
  obtain ⟨d, rd, -⟩ := hrun ls d' r
  exact ⟨ls, d, rd, hread ls d rd, hpos, (hsafe d ⟨ls, rd⟩).2⟩

/-- **What is allocated after a run**: the LSAs of the entries, and every packet that was handled but not
stored. -/
theorem lsa_leaks {A : Allocator} {f : Files} {ls : List (Event × List Effect)} {d : Daemon}
    (r : (daemonSystem A f).Run ls d) :
    d.rt.lsas.live.card = d.rt.table.countP (fun e => e.lsa.isSome) + ls.countP leaks := by
  obtain ⟨-, L, hL, hcard⟩ := ledger_run r
  rw [hL.card_live, hcard]

theorem lsa_leaks_forkRun : ∃ ls d, (daemonSystem Heap.above forkFiles).Run ls d ∧ 0 < ls.countP leaks ∧
    d.rt.lsas.live.card = d.rt.table.countP (fun e => e.lsa.isSome) + ls.countP leaks := by
  obtain ⟨ls, d', r, hpos⟩ := exists_leak
  obtain ⟨d, r, -⟩ := exists_run (A := Heap.above) r
  exact ⟨ls, d, r, hpos, lsa_leaks r⟩

end Runs

end RoutingDaemon.Blocks
