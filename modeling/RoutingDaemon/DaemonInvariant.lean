import RoutingDaemon.TableChange
import RoutingDaemon.ObjectTable

/-!
# The tables of a daemon agree

* `Configured`: a configuration names the node itself and has distinct ids; `twinFiles`: one that does not.
* `EntryOk`: what holds of one routing entry; `Sound`: what holds of all tables of a daemon.
* `sound_boot`, `sound_micro`, `sound_reachable`: `Sound` holds in every reachable state.
* `consistent_reachable`: what holds for every configuration.
-/

namespace RoutingDaemon

/-- The configuration file names the node itself first, and the ids are distinct. -/
structure Configured (f : Files) : Prop where
  own : f.rows ≠ []
  distinct : (f.rows.map LinkEntry.id).Nodup

/-- A neighbour has the own id: node 1, with the neighbours 1 and 2. -/
def twinFiles : Files where
  rows := [linkOn 1 65, linkOn 1 66, linkOn 2 67]
  hostname := cstr [65]
  lines := []
  filefile := []

/-- Node 2's LSA arrives, and is forwarded to the neighbour 1 at the flood tick; node 2 acknowledges the own LSA,
the neighbour 1 nothing, and the retransmission rounds pass. -/
def twinRun : List Event :=
  .datagram (.got (cstr [67]) (LSA.mk (newHeader typeLsa) 2 0 0 0 []).bytes) zeros ::
    List.replicate 6 (.timeout zeros) ++
  .datagram (.got (cstr [67]) (LSA.mk (newHeader typeAck) 1 0 0 0 []).bytes) zeros ::
    List.replicate 4 (.timeout zeros)

/-- What holds of the routing entry at index `j`. -/
structure EntryOk (dl : DirectLinks) (j : ℕ) (e : RoutingEntry) : Prop where
  linked : ∀ l, dl.links[j]? = some l → e.id = l.id
  routed : ∃ l ∈ dl.links, l.id = e.nexthop
  cleared : e.nodeStatus = statusDown → e.lsa = none
  stored : e.lsaIsNew = true → e.nodeStatus ≠ statusDown → e.lsa ≠ none
  own : j = 0 → e.nodeStatus ≠ statusDown
  sender : ∀ lsa, e.lsa = some lsa → lsa.senderNodeId = e.id ∧
    getType lsa.versionTtlType = typeLsa ∧ e.lsaSize = lsa.bytes.length
  checkers : ∃ c, e.checkersList = some c ∧
    c.checkers.map AckChecker.id = dl.links.map LinkEntry.id

/-- Some entry of this node is not down. -/
def Alive (rt : RoutingTable) (id : Int32) : Prop :=
  ∃ e ∈ rt.table, e.id = id ∧ e.nodeStatus ≠ statusDown

/-- What holds of all tables of a daemon. -/
structure Sound (d : Daemon) : Prop where
  distinct : (d.dl.links.map LinkEntry.id).Nodup
  own : d.dl.links.head?.map LinkEntry.id = some d.myNodeId
  linked : d.dl.links.length ≤ d.rt.numEntry
  nodup : (d.rt.table.map RoutingEntry.id).Nodup
  entry : ∀ j e, d.rt.table[j]? = some e → EntryOk d.dl j e
  consistent : Consistent superFastHash d.gol
  alive : ForallPaths superFastHash d.gol fun p => Alive d.rt p.nodeId

/-! ### Links and their entries -/

theorem mem_neighbours {dl : DirectLinks} {l : LinkEntry} {i : ℕ} :
    (l, i) ∈ dl.neighbours ↔ 1 ≤ i ∧ dl.links[i]? = some l := by
  unfold DirectLinks.neighbours
  cases hl : dl.links with
  | nil => simp
  | cons a ls =>
    rw [List.zipIdx_cons, List.tail_cons, List.mem_zipIdx_iff_le_and_getElem?_sub]
    simp only [Nat.zero_add]
    constructor
    · rintro ⟨h1, h2⟩
      exact ⟨h1, by rw [List.getElem?_cons, if_neg (by omega)]; exact h2⟩
    · rintro ⟨h1, h2⟩
      rw [List.getElem?_cons, if_neg (by omega)] at h2
      exact ⟨h1, h2⟩

theorem neighbour_ne_head {dl : DirectLinks} (hn : (dl.links.map LinkEntry.id).Nodup)
    {p : LinkEntry × ℕ} (hp : p ∈ dl.neighbours) {l : LinkEntry} (hl : dl.links[0]? = some l) :
    p.1.id ≠ l.id := by
  obtain ⟨l', i⟩ := p
  obtain ⟨h1, h2⟩ := mem_neighbours.mp hp
  intro he
  have e1 : (dl.links.map LinkEntry.id)[i]? = some l'.id := by rw [List.getElem?_map, h2]; rfl
  have e0 : (dl.links.map LinkEntry.id)[0]? = some l'.id := by
    rw [List.getElem?_map, hl, Option.map_some, ← he]
  obtain ⟨hlt, -⟩ := List.getElem?_eq_some_iff.mp e1
  have := (List.getElem?_inj hlt hn).mp (e1.trans e0.symm)
  omega

theorem lookupLinkEntry_mem {dl : DirectLinks} {a : CString} {l : LinkEntry}
    (h : lookupLinkEntry dl a = some l) : l ∈ dl.links :=
  List.mem_of_mem_tail (List.mem_of_find?_eq_some h)

namespace Sound

variable {d : Daemon}

theorem entry_link (h : Sound d) {i : ℕ} {l : LinkEntry} (hl : d.dl.links[i]? = some l) :
    ∃ e, d.rt.table[i]? = some e ∧ e.id = l.id := by
  obtain ⟨hi, -⟩ := List.getElem?_eq_some_iff.mp hl
  have hlt : i < d.rt.table.length := hi.trans_le h.linked
  have he := List.getElem?_eq_getElem hlt
  exact ⟨_, he, (h.entry i _ he).linked l hl⟩

theorem getRoutingEntry_link (h : Sound d) {i : ℕ} {l : LinkEntry} (hl : d.dl.links[i]? = some l) :
    getRoutingEntry d.rt l.id = some i := by
  obtain ⟨e, he, hid⟩ := h.entry_link hl
  rw [← hid]
  exact getRoutingEntry_of_nodup h.nodup he

theorem link_zero (h : Sound d) : ∃ l, d.dl.links[0]? = some l ∧ l.id = d.myNodeId := by
  have := h.own
  rw [List.head?_eq_getElem?, Option.map_eq_some_iff] at this
  exact this

theorem own_entry (h : Sound d) : ∃ e, d.rt.table[0]? = some e ∧ e.id = d.myNodeId ∧
    e.nodeStatus ≠ statusDown := by
  obtain ⟨l, hl, hid⟩ := h.link_zero
  obtain ⟨e, he, he'⟩ := h.entry_link hl
  exact ⟨e, he, he'.trans hid, (h.entry 0 e he).own rfl⟩

theorem getRoutingEntry_own (h : Sound d) : getRoutingEntry d.rt d.myNodeId = some 0 := by
  obtain ⟨l, hl, hid⟩ := h.link_zero
  rw [← hid]
  exact h.getRoutingEntry_link hl

theorem alive_own (h : Sound d) : Alive d.rt d.myNodeId := by
  obtain ⟨e, he, hid, hst⟩ := h.own_entry
  exact ⟨e, List.mem_of_getElem? he, hid, hst⟩

theorem neighbour_ne (h : Sound d) {p : LinkEntry × ℕ} (hp : p ∈ d.dl.neighbours) {l : LinkEntry}
    (hl : d.dl.links[0]? = some l) : p.1.id ≠ l.id := neighbour_ne_head h.distinct hp hl

end Sound

/-! ### After `boot` -/

theorem loadNodeFile_invariant {id : Int32} {I : LisoHash → Prop}
    (hadd : ∀ h s h', I h → hashAdd superFastHash h s id 0 = .ok h' → I h')
    {lines : List (CString × CString)} {ol ol' : LocalObjects} {gol gol' : LisoHash} (h0 : I gol)
    (h : loadNodeFile id lines ol gol = .ok (ol', gol')) : I gol' := by
  induction lines generalizing ol gol with
  | nil => cases h; exact h0
  | cons p lines ih =>
    obtain ⟨_, _, _, -, -, -, h1, h⟩ := loadNodeFile_cons_eq_ok.mp h
    exact ih (hadd _ _ _ h0 h1) h

theorem boot_eq_ok {f : Files} {d : Daemon} (h : boot f = .ok d) :
    d.dl.links = f.rows ∧ d.rt.table = f.rows.mapIdx (loadedEntry d.dl) ∧
      d.myNodeId = (f.rows.head?.map LinkEntry.id).getD 0 ∧ d.sequenceNumber = 0 ∧
      d.iterations = retransmitTime + 1 ∧
      loadNodeFile d.myNodeId f.lines LocalObjects.empty initHash = .ok (d.ol, d.gol) := by
  obtain ⟨⟨dl, rt, uri⟩, h1, h⟩ := bind_eq_ok.mp h
  obtain ⟨⟨ol, gol⟩, h2, h⟩ := bind_eq_ok.mp h
  cases h
  unfold loadNodeConf at h1
  split_ifs at h1
  cases h1
  exact ⟨rfl, rfl, rfl, rfl, rfl, h2⟩

theorem links_reachable {f : Files} {d : Daemon} (r : (daemonSystem f).Reachable d) :
    d.dl.links = f.rows :=
  reachable_invariant (I := fun d => d.dl.links = f.rows) (fun _ h => (boot_eq_ok h).1)
    (fun _ _ _ hd h => by rw [(micro_static h).1, hd]) r

theorem entryOk_loadedEntry {dl : DirectLinks} {j : ℕ} {l : LinkEntry} (hl : dl.links[j]? = some l) :
    EntryOk dl j (loadedEntry dl j l) where
  linked l' hl' := by rw [hl, Option.some.injEq] at hl'; rw [← hl']; rfl
  routed := ⟨l, List.mem_of_getElem? hl, rfl⟩
  cleared _ := rfl
  stored h := by cases h
  own _ := by simp [loadedEntry, statusDown]
  sender lsa h := by cases h
  checkers := ⟨_, rfl, by simp [clearedCheckers, Function.comp_def]⟩

theorem sound_boot {f : Files} (hf : Configured f) {d : Daemon} (h : boot f = .ok d) : Sound d := by
  obtain ⟨hl, ht, hid, -, -, hload⟩ := boot_eq_ok h
  have hids : d.rt.table.map RoutingEntry.id = f.rows.map LinkEntry.id := by
    rw [ht]
    exact List.ext_getElem? fun j => by
      simp [List.getElem?_map, List.getElem?_mapIdx, Function.comp_def, loadedEntry]
  have hown : d.dl.links.head?.map LinkEntry.id = some d.myNodeId := by
    rw [hl, hid]
    cases hr : f.rows with
    | nil => exact absurd hr hf.own
    | cons l ls => rfl
  have hentry : ∀ j e, d.rt.table[j]? = some e → EntryOk d.dl j e := by
    intro j e he
    rw [ht, List.getElem?_mapIdx, Option.map_eq_some_iff] at he
    obtain ⟨l, hj, rfl⟩ := he
    exact entryOk_loadedEntry (hl ▸ hj)
  have hcon : Consistent superFastHash d.gol ∧
      ForallPaths superFastHash d.gol fun p => p.nodeId = d.myNodeId := by
    refine loadNodeFile_invariant (I := fun g => Consistent superFastHash g ∧
      ForallPaths superFastHash g fun p => p.nodeId = d.myNodeId) ?_
      ⟨consistent_initHash, forallPaths_initHash⟩ hload
    exact fun g s g' hg h1 => ⟨(hashAdd_spec hg.1 h1).1, hg.2.hashAdd hg.1 h1 rfl⟩
  have hs : Sound { d with gol := initHash } :=
    ⟨by rw [hl]; exact hf.distinct, hown, by rw [RoutingTable.numEntry, ht, hl]; simp,
      by rw [hids]; exact hf.distinct, hentry, consistent_initHash, forallPaths_initHash⟩
  exact { hs with
    consistent := hcon.1
    alive := hcon.2.mono fun p hp => by rw [hp]; exact hs.alive_own }

/-! ### Small steps -/

theorem Stores.nexthop_mem {d : Daemon} {lsa : LSA} {size : ℕ} {nexthop : Int32}
    (h : Stores d lsa size nexthop) (hs : Sound d) : ∃ l ∈ d.dl.links, l.id = nexthop := by
  cases h with
  | own =>
    obtain ⟨l, hl, hid⟩ := hs.link_zero
    exact ⟨l, List.mem_of_getElem? hl, hid⟩
  | accepted recv =>
    obtain ⟨_, _, f, -, -, -, hf, hid, -⟩ := rtRecvfrom_eq_ok recv
    exact ⟨f, lookupLinkEntry_mem hf, hid.symm⟩

theorem Stores.size_eq {d : Daemon} {lsa : LSA} {size : ℕ} {nexthop : Int32}
    (h : Stores d lsa size nexthop) : size = lsa.bytes.length := by
  cases h with
  | own packet => exact (createPacket_lsa packet).2.2.2
  | accepted recv =>
    obtain ⟨_, buf, _, -, hlong, hp, -, -, hsize⟩ := rtRecvfrom_eq_ok recv
    have := bytesToPacket_length hp (sizeofLsa_le_take hlong)
    rw [hsize, ← this, length_bytes, length_bytes]
    rfl

theorem map_id_clearedCheckers (dl : DirectLinks) :
    (clearedCheckers dl).map AckChecker.id = dl.links.map LinkEntry.id := by
  simp [clearedCheckers, Function.comp_def]

theorem entryOk_change {d : Daemon} (hs : Sound d) {j : ℕ} {e e' : RoutingEntry}
    (h : EntryOk d.dl j e) (hc : Change (Stores d) d j e e') : EntryOk d.dl j e' := by
  cases hc with
  | checkers old numLinks ids =>
    obtain ⟨c₀, hc₀, hids⟩ := h.checkers
    rw [old, Option.some.injEq] at hc₀
    subst hc₀
    exact { h with checkers := ⟨_, rfl, ids.trans hids⟩ }
  | discard other =>
    refine { h with
      cleared := fun _ => rfl
      stored := fun _ hd => absurd rfl hd
      sender := fun lsa hl => by cases hl
      own := fun hj => ?_ }
    subst hj
    rcases other with h1 | ⟨p, hp, hid⟩
    · omega
    · obtain ⟨l, hl, -⟩ := hs.link_zero
      exact absurd (hid.trans (h.linked l hl)) (hs.neighbour_ne hp hl)
  | age up more =>
    exact { h with
      cleared := fun hd => absurd hd more
      stored := fun hn _ => h.stored hn up
      own := fun _ => more }
  | store stores id =>
    refine ⟨h.linked, ?_, fun hd => ?_, fun _ _ => by simp [storeLsa], fun _ => ?_, fun lsa hl => ?_,
      ⟨_, rfl, map_id_clearedCheckers _⟩⟩
    · simp only [storeLsa, setRoute]
      split_ifs
      · exact stores.nexthop_mem hs
      · exact h.routed
    · exact absurd hd (by simp [storeLsa, setRoute, retransmitTime, statusDown])
    · simp [storeLsa, setRoute, retransmitTime, statusDown]
    · simp only [storeLsa, Option.some.injEq] at hl
      subst hl
      exact ⟨id.symm, stores.type, stores.size_eq⟩

theorem entryOk_appended {d : Daemon} (hs : Sound d) {e : RoutingEntry} (ha : Appended (Stores d) d e) :
    EntryOk d.dl d.rt.numEntry e := by
  obtain ⟨stores, -⟩ := ha
  refine ⟨fun l hl => ?_, stores.nexthop_mem hs, fun hd => ?_, fun _ _ => by simp [storeLsa],
    fun hj => ?_, fun lsa hl => ?_, ⟨_, rfl, map_id_clearedCheckers _⟩⟩
  · have := hs.linked
    obtain ⟨hlt, -⟩ := List.getElem?_eq_some_iff.mp hl
    omega
  · exact absurd hd (by simp [storeLsa, newEntry, retransmitTime, statusDown])
  · simp [storeLsa, newEntry, retransmitTime, statusDown]
  · simp only [storeLsa, Option.some.injEq] at hl
    subst hl
    exact ⟨rfl, stores.type, stores.size_eq⟩

section Alive

variable {rt : RoutingTable} {id : Int32}

theorem Alive.modify (h : Alive rt id) {k : ℕ} {f : RoutingEntry → RoutingEntry}
    (hid : ∀ e, (f e).id = e.id) (hst : ∀ e, rt.table[k]? = some e → e.id = id →
      e.nodeStatus ≠ statusDown → (f e).nodeStatus ≠ statusDown) : Alive (rt.modify k f) id := by
  obtain ⟨e, he, hi, hs⟩ := h
  obtain ⟨j, hj⟩ := List.mem_iff_getElem?.mp he
  have hj' : (rt.modify k f).table[j]? = some (if k = j then f e else e) := by
    rw [getElem?_modify, hj]; rfl
  refine ⟨_, List.mem_of_getElem? hj', ?_, ?_⟩
  · split_ifs
    · rw [hid, hi]
    · exact hi
  · split_ifs with hk
    · exact hst e (hk ▸ hj) hi hs
    · exact hs

theorem Alive.discard (h : Alive rt id) {k : ℕ} {e : RoutingEntry} (he : rt.table[k]? = some e)
    (hne : id ≠ e.id) : Alive (rt.modify k RoutingEntry.discard) id := by
  refine h.modify (fun _ => rfl) fun e' he' hid _ => ?_
  rw [he, Option.some.injEq] at he'
  subst he'
  exact absurd hid.symm hne

theorem alive_updateEntry {fresh : Fresh} {dl : DirectLinks} {lsa : LSA} {size : ℕ}
    {nexthop : Int32} {rt' : RoutingTable} (ht : getType lsa.versionTtlType = typeLsa)
    (h : updateEntry fresh (getRoutingEntry rt lsa.senderNodeId) rt dl lsa size nexthop = .ok rt') :
    Alive rt' lsa.senderNodeId ∧ ∀ id, Alive rt id → Alive rt' id := by
  cases hk : getRoutingEntry rt lsa.senderNodeId with
  | none =>
    rw [hk, updateEntry_none ht] at h
    have ht' := getElem?_push h
    refine ⟨⟨_, by rw [ht']; exact List.mem_append_right _ (List.mem_singleton_self _), rfl, ?_⟩, ?_⟩
    · simp [storeLsa, newEntry, retransmitTime, statusDown]
    · rintro id ⟨e, he, h1⟩
      exact ⟨e, by rw [ht']; exact List.mem_append_left _ he, h1⟩
  | some k =>
    rw [hk, updateEntry_some ht] at h
    cases h
    obtain ⟨e, he, hid⟩ := getRoutingEntry_eq_some hk
    have hk' : (rt.modify k fun e => storeLsa fresh dl lsa size nexthop
        (setRoute (defaultTtl - getTtl lsa.versionTtlType + 1) nexthop e)).table[k]? = _ :=
      getElem?_modify k
    rw [he, Option.map_some, if_pos rfl] at hk'
    refine ⟨⟨_, List.mem_of_getElem? hk', hid, ?_⟩, fun id ha => ha.modify (fun _ => rfl) ?_⟩
    · simp [storeLsa, setRoute, retransmitTime, statusDown]
    · intro e _ _ _
      simp [storeLsa, setRoute, retransmitTime, statusDown]

end Alive

theorem Sound.keep {d : Daemon} (hs : Sound d) {rt : RoutingTable}
    (hrt : ∀ id, Alive d.rt id → Alive rt id) :
    Consistent superFastHash d.gol ∧ ForallPaths superFastHash d.gol fun p => Alive rt p.nodeId :=
  ⟨hs.consistent, hs.alive.mono fun _ hp => hrt _ hp⟩

theorem alive_tick {d d' : Daemon} {out : List Effect} (hs : Sound d) (h : Tick d out d') :
    Consistent superFastHash d'.gol ∧
      ForallPaths superFastHash d'.gol fun p => Alive d'.rt p.nodeId := by
  have hc := hs.consistent
  cases h with
  | own packet entry update count =>
    exact hs.keep (alive_updateEntry (Stores.own packet).type
      (updateEntry_own packet entry update)).2
  | send ok => exact hs.keep fun id ha => ha.modify (fun _ => rfl) fun _ _ _ h => h
  | resend ok checker pending budget =>
    exact hs.keep fun id ha => ha.modify (fun _ => rfl) fun _ _ _ h => h
  | giveUp link checker pending budget =>
    refine ⟨(hashRemoveNode_spec hc _).1, (hs.alive.hashRemoveNode hc _).mono fun p hp => ?_⟩
    exact (hp.1.discard link.entry hp.2).modify (fun _ => rfl) fun _ _ _ h => h
  | age pos entry up more =>
    exact hs.keep fun id ha => ha.modify (fun _ => rfl) fun _ _ _ _ => more
  | expire pos entry last =>
    refine ⟨(hashRemoveNode_spec hc _).1, (hs.alive.hashRemoveNode hc _).mono fun p hp => ?_⟩
    exact hp.1.discard entry hp.2
  | clock => exact hs.keep fun _ h => h

theorem alive_micro {d d' : Daemon} {out : List Effect} (hs : Sound d) (h : Micro d out d') :
    Consistent superFastHash d'.gol ∧
      ForallPaths superFastHash d'.gol fun p => Alive d'.rt p.nodeId := by
  have hc := hs.consistent
  cases h with
  | tick h => exact alive_tick hs h
  | receive recv h =>
    cases h with
    | ignored => exact hs.keep fun _ h => h
    | accepted type newer link update objects =>
      obtain ⟨hnew, hold⟩ := alive_updateEntry (by rw [acceptedLsa_type]; exact type) update
      refine storeNodeObjects_invariant (I := fun g => Consistent superFastHash g ∧
        ForallPaths superFastHash g fun p => Alive _ p.nodeId) ?_ (hs.keep hold) objects
      exact fun g s g' hg h1 => ⟨(hashAdd_spec hg.1 h1).1, hg.2.hashAdd hg.1 h1 hnew⟩
    | credited type current update =>
      obtain ⟨_, _, _, _, _, -, -, -, -, -, -, rfl⟩ := creditAck_eq_ok update
      exact hs.keep fun id ha => ha.modify (fun _ => rfl) fun _ _ _ h => h
  | add objects =>
    exact ⟨(hashAdd_spec hc objects).1, hs.alive.hashAdd hc objects hs.alive_own⟩

/-- **Every small step keeps the tables sound.** -/
theorem sound_micro {d d' : Daemon} {out : List Effect} (hs : Sound d) (h : Micro d out d') :
    Sound d' := by
  obtain ⟨hdl, hid⟩ := micro_static h
  obtain ⟨hc, ha⟩ := alive_micro hs h
  refine ⟨by rw [hdl]; exact hs.distinct, by rw [hdl, hid]; exact hs.own,
    by rw [hdl]; exact hs.linked.trans (reshapes_micro h).numEntry, ?_, ?_, hc, ha⟩
  · rcases (reshapes_micro h).ids with h1 | ⟨id, hnot, h1⟩
    · rw [h1]; exact hs.nodup
    · rw [h1, List.nodup_append]
      refine ⟨hs.nodup, List.nodup_singleton _, fun a ha b hb => ?_⟩
      rw [List.mem_singleton] at hb
      rintro rfl
      exact hnot (hb ▸ ha)
  · rw [hdl]
    exact (reshapes_micro h).forall_entry (fun j e e' => entryOk_change hs)
      (fun e => entryOk_appended hs) hs.entry

theorem forget_ne_own {d d' : Daemon} {out : List Effect} (hd : Sound d) (h : Tick d out d') :
    ¬ (.giveUp d.myNodeId ∈ out ∨ .expire d.myNodeId ∈ out) := by
  intro hf
  obtain ⟨l₀, hl₀, hid₀⟩ := hd.link_zero
  cases h with
  | @giveUp k i m l e c link checker pending budget =>
    obtain ⟨e', he', hid⟩ := getRoutingEntry_eq_some link.lookup
    rw [link.entry, Option.some.injEq] at he'
    subst he'
    have hown : d.myNodeId = e.id := by simpa using hf
    exact hd.neighbour_ne link.link hl₀ (hid.symm.trans (hown.symm.trans hid₀.symm))
  | @expire i e pos entry last =>
    have hown : d.myNodeId = e.id := by simpa using hf
    have h1 := getRoutingEntry_of_nodup hd.nodup entry
    rw [← hown, hd.getRoutingEntry_own, Option.some.injEq] at h1
    omega
  | _ => simp [rtSendto] at hf

theorem sound_act {d d' : Daemon} {ev : Event} {out : List Effect} (hs : Sound d)
    (h : act ev d = .ok (d', out)) : Sound d' :=
  (act_trail h).preserves (fun _ _ _ hs hm => sound_micro hs hm) hs

/-- **The tables are sound in every reachable state.** -/
theorem sound_reachable {f : Files} (hf : Configured f) {d : Daemon}
    (r : (daemonSystem f).Reachable d) : Sound d :=
  reachable_invariant (fun _ h => sound_boot hf h) (fun _ _ _ hs h => sound_micro hs h) r

theorem consistent_tick {d d' : Daemon} {out : List Effect} (hc : Consistent superFastHash d.gol)
    (h : Tick d out d') : Consistent superFastHash d'.gol := by
  cases h with
  | giveUp => exact (hashRemoveNode_spec hc _).1
  | expire => exact (hashRemoveNode_spec hc _).1
  | _ => exact hc

/-- **The object table is consistent, whatever the configuration.** -/
theorem consistent_reachable {f : Files} {d : Daemon} (r : (daemonSystem f).Reachable d) :
    Consistent superFastHash d.gol := by
  refine reachable_invariant (I := fun d => Consistent superFastHash d.gol) (fun d h => ?_)
    (fun d _ d' hc h => ?_) r
  · obtain ⟨-, -, -, -, -, hload⟩ := boot_eq_ok h
    exact loadNodeFile_invariant (fun g s g' hg h1 => (hashAdd_spec hg h1).1) consistent_initHash
      hload
  · cases h with
    | tick h => exact consistent_tick hc h
    | receive recv h =>
      cases h with
      | accepted type newer link update objects =>
        exact storeNodeObjects_invariant (fun g s g' hg h1 => (hashAdd_spec hg h1).1) hc objects
      | _ => exact hc
    | add objects => exact (hashAdd_spec hc objects).1

end RoutingDaemon
