import RoutingDaemon.SafePointers

/-!
# Local objects are served locally

* `Registered`: every local object is known to the object table; `registered_reachable`.
* `ServedHere`: a name has the path `(my_node_id, 0)` and a first entry in the local objects table;
  `servedHere_added`: an ADDFILE makes it so.
* `OwnOnce`: no other node has the own id, so the own node is not declared down; `ServedHere.act`: nothing ends
  the service then.
* `rdget_here`: what an RDGET then answers; `served_locally`: for ever after. `exists_not_served`: with a
  neighbour of the own id it ends.
-/

namespace RoutingDaemon

/-! ### What small steps do to the objects -/

section Objects

variable {d d' : Daemon} {out : List Effect}

theorem tick_objects (h : Tick d out d') : d'.ol = d.ol ∧ d'.myUri = d.myUri ∧
    (d'.gol = d.gol ∨ ∃ n, (.giveUp n ∈ out ∨ .expire n ∈ out) ∧
      d'.gol = hashRemoveNode superFastHash d.gol n) := by
  cases h with
  | giveUp => exact ⟨rfl, rfl, .inr ⟨_, .inl (List.mem_singleton_self _), rfl⟩⟩
  | expire => exact ⟨rfl, rfl, .inr ⟨_, .inr (List.mem_singleton_self _), rfl⟩⟩
  | _ => exact ⟨rfl, rfl, .inl rfl⟩

theorem handled_objects {fresh : Fresh} {lsa : LSA} {f : Int32} {size : ℕ}
    (h : Handled d fresh lsa f size out d') : d'.ol = d.ol ∧ d'.myUri = d.myUri ∧
      (d'.gol = d.gol ∨ (getType lsa.versionTtlType = typeLsa ∧
        storeNodeObjects (hashAdd superFastHash) d.gol (acceptedLsa lsa) = .ok d'.gol)) := by
  cases h with
  | ignored => exact ⟨rfl, rfl, .inl rfl⟩
  | accepted type newer link update objects => exact ⟨rfl, rfl, .inr ⟨type, objects⟩⟩
  | credited => exact ⟨rfl, rfl, .inl rfl⟩

end Objects

/-! ### Names never leave the object table -/

/-- The table is consistent and knows the name. -/
def Knows (gol : LisoHash) (s : CString) : Prop :=
  Consistent superFastHash gol ∧ view superFastHash gol s ≠ none

theorem Knows.hashAdd {gol gol' : LisoHash} {s t : CString} {n : Int32} {c : ℤ}
    (h : Knows gol s) (e : hashAdd superFastHash gol t n c = .ok gol') : Knows gol' s := by
  obtain ⟨hc, hv⟩ := hashAdd_spec h.1 e
  refine ⟨hc, ?_⟩
  rw [hv]
  exact ObjMap.announce_ne_none.mpr (.inr h.2)

theorem knows_added {gol gol' : LisoHash} {s : CString} {n : Int32} {c : ℤ}
    (hc : Consistent superFastHash gol) (e : hashAdd superFastHash gol s n c = .ok gol') :
    Knows gol' s := by
  obtain ⟨hc', hv⟩ := hashAdd_spec hc e
  exact ⟨hc', by rw [hv]; exact ObjMap.announce_ne_none.mpr (.inl rfl)⟩

theorem Knows.hashRemoveNode {gol : LisoHash} {s : CString} (h : Knows gol s) (n : Int32) :
    Knows (hashRemoveNode superFastHash gol n) s := by
  obtain ⟨hc, hv⟩ := hashRemoveNode_spec h.1 n
  refine ⟨hc, ?_⟩
  rw [hv, ObjMap.withdraw]
  simpa using h.2

/-- Every local object is known to the object table. -/
def Registered (d : Daemon) : Prop :=
  Consistent superFastHash d.gol ∧ ∀ o ∈ d.ol.objects, Knows d.gol o.name.1

theorem loadNodeFile_knows {id : Int32} {lines : List (CString × CString)}
    {ol ol' : LocalObjects} {gol gol' : LisoHash} (hc : Consistent superFastHash gol)
    (h0 : ∀ o ∈ ol.objects, Knows gol o.name.1)
    (h : loadNodeFile id lines ol gol = .ok (ol', gol')) :
    Consistent superFastHash gol' ∧ ∀ o ∈ ol'.objects, Knows gol' o.name.1 := by
  induction lines generalizing ol gol with
  | nil => cases h; exact ⟨hc, h0⟩
  | cons p lines ih =>
    obtain ⟨o₁, ol₁, gol₁, hn, -, ho, hg, h⟩ := loadNodeFile_cons_eq_ok.mp h
    refine ih (hashAdd_spec hc hg).1 (fun o hm => ?_) h
    rw [push_objects ho, List.mem_append, List.mem_singleton] at hm
    rcases hm with hm | rfl
    · exact (h0 o hm).hashAdd hg
    · rw [hn]; exact knows_added hc hg

theorem registered_boot {f : Files} {d : Daemon} (h : boot f = .ok d) : Registered d :=
  loadNodeFile_knows consistent_initHash (by simp [LocalObjects.empty]) (boot_eq_ok h).2.2.2.2.2

theorem Registered.keep {d d' : Daemon} (h : Registered d) (hol : d'.ol = d.ol)
    (hc : Consistent superFastHash d'.gol) (hk : ∀ s, Knows d.gol s → Knows d'.gol s) :
    Registered d' :=
  ⟨hc, fun o ho => hk _ (h.2 o (hol ▸ ho))⟩

theorem registered_tick {d d' : Daemon} {out : List Effect} (hr : Registered d)
    (h : Tick d out d') : Registered d' := by
  obtain ⟨hol, -, hg | ⟨n, -, hg⟩⟩ := tick_objects h
  · exact hr.keep hol (hg ▸ hr.1) fun s hs => hg ▸ hs
  · exact hr.keep hol (hg ▸ (hashRemoveNode_spec hr.1 n).1) fun s hs => hg ▸ hs.hashRemoveNode n

theorem registered_handled {d d' : Daemon} {fresh : Fresh} {lsa : LSA} {f : Int32} {size : ℕ}
    {out : List Effect} (hr : Registered d) (h : Handled d fresh lsa f size out d') :
    Registered d' := by
  obtain ⟨hol, -, hg | ⟨-, hg⟩⟩ := handled_objects h
  · exact hr.keep hol (hg ▸ hr.1) fun s hs => hg ▸ hs
  · refine hr.keep hol ?_ fun s hs => ?_
    · exact storeNodeObjects_invariant (I := Consistent superFastHash)
        (fun _ _ _ hc e => (hashAdd_spec hc e).1) hr.1 hg
    · exact storeNodeObjects_invariant (I := fun g => Knows g s)
        (fun _ _ _ hk e => hk.hashAdd e) hs hg

theorem registered_added {d d' : Daemon} {o : ObjectEntry} (hr : Registered d)
    (h : Added d o d') : Registered d' := by
  refine ⟨(hashAdd_spec hr.1 h.gol).1, fun o' ho' => ?_⟩
  rw [h.ol, List.mem_append, List.mem_singleton] at ho'
  rcases ho' with ho' | rfl
  · exact (hr.2 o' ho').hashAdd h.gol
  · exact knows_added hr.1 h.gol

theorem registered_act {d d' : Daemon} {ev : Event} {out : List Effect} (hr : Registered d)
    (h : act ev d = .ok (d', out)) : Registered d' := by
  cases ev with
  | timeout fresh =>
    exact (timeout_trail h).preserves (fun _ _ _ hr ht => registered_tick hr ht) hr
  | datagram r fresh =>
    obtain ⟨_, _, _, -, hh⟩ := receive_handled h
    exact registered_handled hr hh
  | request c uri opened =>
    obtain ⟨-, rfl | ⟨o, ha⟩⟩ := request_added h
    · exact hr
    · exact registered_added hr ha

/-- **Every local object is known to the object table, in every reachable state.** -/
theorem registered_reachable {f : Files} {d : Daemon} (r : (daemonSystem f).Reachable d) :
    Registered d :=
  r.invariant (I := Registered) (fun _ h => registered_boot h) fun _ _ _ hr h => registered_act hr h

/-! ### A local object stays -/

/-- The name is served by this node, from the path `p`. -/
structure ServedHere (d : Daemon) (s p : CString) : Prop where
  view : view superFastHash d.gol s = some (some ⟨d.myNodeId, 0⟩)
  first : ∃ o, d.ol.objects.find? (fun o => o.name.1 = s) = some o ∧ o.path.1 = p

/-- **An ADDFILE makes its object served.** A name that is not in the object table is not in the
local objects table, so the new entry is the first with that name. -/
theorem servedHere_added {d d' : Daemon} {o : ObjectEntry} (hr : Registered d) (h : Added d o d') :
    ServedHere d' o.name.1 o.path.1 where
  view := by
    have hn : RoutingDaemon.view superFastHash d.gol o.name.1 = none := by
      rw [← containsObject_map hr.1, h.new]
      rfl
    rw [(hashAdd_spec hr.1 h.gol).2, ObjMap.announce_self, hn, h.rest]
    rfl
  first := by
    refine ⟨o, ?_, rfl⟩
    rw [h.ol, List.find?_append, List.find?_eq_none.mpr fun o' ho' he => ?_]
    · simp
    · obtain ⟨hc, hk⟩ := hr.2 o' ho'
      rw [of_decide_eq_true he, ← containsObject_map hc, h.new] at hk
      exact hk rfl

theorem announce_local {m : ObjMap} {s t : CString} {own n : Int32} {c : ℤ}
    (h : m s = some (some ⟨own, 0⟩)) (hc : 0 ≤ c) :
    m.announce t ⟨n, c⟩ s = some (some ⟨own, 0⟩) := by
  by_cases hs : s = t
  · subst hs
    rw [ObjMap.announce_self, h, announcePath, if_neg (by exact not_lt.mpr hc)]
  · rw [ObjMap.announce_of_ne hs, h]

/-- No other node has the own id: no neighbour, and no entry but the first. -/
structure OwnOnce (d : Daemon) : Prop where
  neighbours : ∀ p ∈ d.dl.neighbours, p.1.id ≠ d.myNodeId
  entries : (d.dl.links = [] ∧ d.rt.table.map RoutingEntry.id = []) ∨
    ∃ ids, d.rt.table.map RoutingEntry.id = d.myNodeId :: ids ∧ d.myNodeId ∉ ids

theorem ownOnce_boot {f : Files} {d : Daemon} (h : boot f = .ok d)
    (hn : ∀ p ∈ d.dl.neighbours, p.1.id ≠ d.myNodeId) : OwnOnce d := by
  refine ⟨hn, ?_⟩
  obtain ⟨hl, ht, hid, -⟩ := boot_eq_ok h
  have hids : d.rt.table.map RoutingEntry.id = d.dl.links.map LinkEntry.id := by
    rw [ht, hl]
    exact List.ext_getElem? fun j => by
      simp [List.getElem?_map, List.getElem?_mapIdx, Function.comp_def, loadedEntry]
  rw [hids]
  cases hls : d.dl.links with
  | nil => exact .inl ⟨rfl, rfl⟩
  | cons l ls =>
    have hown : d.myNodeId = l.id := by rw [hid, ← hl, hls]; rfl
    refine .inr ⟨ls.map LinkEntry.id, by rw [hown]; rfl, fun hm => ?_⟩
    obtain ⟨l', hl', he⟩ := List.mem_map.mp hm
    obtain ⟨i, hi⟩ := List.mem_iff_getElem?.mp hl'
    exact hn (l', i + 1) (mem_neighbours.mpr ⟨by omega, by rw [hls]; exact hi⟩) he

theorem ownOnce_micro {d d' : Daemon} {out : List Effect} (ho : OwnOnce d) (h : Micro d out d') :
    OwnOnce d' := by
  obtain ⟨hdl, hid⟩ := micro_static h
  refine ⟨by rw [hdl, hid]; exact ho.neighbours, ?_⟩
  rw [hdl, hid]
  rcases ho.entries with ⟨hl, hids⟩ | ⟨ids, hids, hown⟩
  · -- without links, no LSA is received
    refine .inl ⟨hl, ?_⟩
    cases h with
    | tick h => rw [(evolves_tick (S := Stores d) (fun _ _ _ => .own) h).ids, hids]
    | receive recv h =>
      obtain ⟨_, _, f, -, -, -, hf, -⟩ := rtRecvfrom_eq_ok recv
      rw [lookupLinkEntry, hl] at hf
      cases hf
    | add objects => exact hids
  · rcases (reshapes_micro h).ids with h1 | ⟨id, hnew, h1⟩
    · exact .inr ⟨ids, h1.trans hids, hown⟩
    · rw [hids, List.mem_cons, not_or] at hnew
      refine .inr ⟨ids ++ [id], by rw [h1, hids]; rfl, ?_⟩
      rw [List.mem_append, List.mem_singleton, not_or]
      exact ⟨hown, Ne.symm hnew.1⟩

theorem ownOnce_act {d d' : Daemon} {ev : Event} {out : List Effect} (ho : OwnOnce d)
    (h : act ev d = .ok (d', out)) : OwnOnce d' :=
  (act_trail h).preserves (fun _ _ _ ho hm => ownOnce_micro ho hm) ho

/-- **The ids around the own one**: if no neighbour has it, no other entry ever has. -/
theorem ownOnce_reachable {f : Files} {d : Daemon} (r : (daemonSystem f).Reachable d)
    (hn : ∀ p ∈ d.dl.neighbours, p.1.id ≠ d.myNodeId) : OwnOnce d := by
  have key : (∀ p ∈ d.dl.neighbours, p.1.id ≠ d.myNodeId) → OwnOnce d := by
    refine reachable_invariant (I := fun d => (∀ p ∈ d.dl.neighbours, p.1.id ≠ d.myNodeId) → OwnOnce d)
      (fun d h => ownOnce_boot h) (fun d _ d' hi h hn => ?_) r
    obtain ⟨hdl, hid⟩ := micro_static h
    rw [hdl, hid] at hn
    exact ownOnce_micro (hi hn) h
  exact key hn

theorem Sound.ownOnce {d : Daemon} (hs : Sound d) : OwnOnce d := by
  obtain ⟨l₀, hl₀, hid₀⟩ := hs.link_zero
  refine ⟨fun p hp he => hs.neighbour_ne hp hl₀ (he.trans hid₀.symm), .inr ?_⟩
  have hown := hs.getRoutingEntry_own
  have hnodup := hs.nodup
  cases ht : d.rt.table with
  | nil => simp [getRoutingEntry, ht] at hown
  | cons e es =>
    obtain ⟨e', he', hid⟩ := getRoutingEntry_eq_some hown
    rw [ht, List.getElem?_cons_zero, Option.some.injEq] at he'
    subst he'
    rw [ht, List.map_cons, List.nodup_cons, hid] at hnodup
    exact ⟨es.map RoutingEntry.id, by rw [List.map_cons, hid], hnodup.1⟩

/-- **The own node is not declared down.** -/
theorem OwnOnce.not_declared {d d' : Daemon} {out : List Effect} (ho : OwnOnce d) (h : Tick d out d') :
    ¬ (.giveUp d.myNodeId ∈ out ∨ .expire d.myNodeId ∈ out) := by
  intro hf
  cases h with
  | @giveUp k i m l e c link checker pending budget =>
    have hown : d.myNodeId = e.id := by simpa using hf
    obtain ⟨e', he', hid⟩ := getRoutingEntry_eq_some link.lookup
    rw [link.entry, Option.some.injEq] at he'
    subst he'
    exact ho.neighbours _ link.link (hid.symm.trans hown.symm)
  | @expire i e pos entry last =>
    have hown : d.myNodeId = e.id := by simpa using hf
    have hat : (d.rt.table.map RoutingEntry.id)[i]? = some d.myNodeId := by
      rw [List.getElem?_map, entry, hown]
      rfl
    rcases ho.entries with ⟨-, hids⟩ | ⟨ids, hids, hnot⟩
    · rw [hids] at hat
      cases hat
    · obtain ⟨i, rfl⟩ := Nat.exists_eq_add_of_le' pos
      rw [hids, List.getElem?_cons_succ] at hat
      exact hnot (List.mem_of_getElem? hat)
  | _ => simp [rtSendto] at hf

theorem ServedHere.tick {d d' : Daemon} {out : List Effect} {s p : CString} (ho : OwnOnce d)
    (hc : Consistent superFastHash d.gol) (hv : ServedHere d s p) (h : Tick d out d') :
    ServedHere d' s p := by
  have hid := (micro_static (.tick h)).2
  obtain ⟨hol, -, hg⟩ := tick_objects h
  refine ⟨?_, by rw [hol]; exact hv.first⟩
  rcases hg with hg | ⟨n, hn, hg⟩
  · rw [hg, hid]; exact hv.view
  · have hne : ¬ (some d.myNodeId = some n) := fun he =>
      ho.not_declared h (by rw [Option.some.inj he]; exact hn)
    rw [hg, (hashRemoveNode_spec hc n).2, ObjMap.withdraw, hv.view, Option.map_some,
      withdrawPath, Option.map_some, if_neg hne, hid]

/-- A packet whose TTL is that of a sent LSA. -/
def SentTtl (lsa : LSA) : Prop :=
  1 ≤ getTtl lsa.versionTtlType ∧ getTtl lsa.versionTtlType ≤ defaultTtl

theorem ServedHere.handled {d d' : Daemon} {fresh : Fresh} {lsa : LSA} {f : Int32} {size : ℕ}
    {out : List Effect} {s p : CString} (hc : Consistent superFastHash d.gol) (hv : ServedHere d s p)
    (h : Handled d fresh lsa f size out d')
    (ttl : getType lsa.versionTtlType = typeLsa → SentTtl lsa) (hid : d'.myNodeId = d.myNodeId) :
    ServedHere d' s p := by
  obtain ⟨hol, -, hg⟩ := handled_objects h
  refine ⟨?_, by rw [hol]; exact hv.first⟩
  rcases hg with hg | ⟨type, hg⟩
  · rw [hg, hid]; exact hv.view
  · -- no announced cost is negative
    obtain ⟨h1, h2⟩ := ttl type
    have hcost : 0 ≤ lsaCost (acceptedLsa lsa) := by
      rw [lsaCost_acceptedLsa h1 h2, lsaCost]
      omega
    have hinv := storeNodeObjects_invariant (I := fun g => Consistent superFastHash g ∧
      RoutingDaemon.view superFastHash g s = some (some ⟨d.myNodeId, 0⟩)) ?_ ⟨hc, hv.view⟩ hg
    · rw [hid]; exact hinv.2
    · rintro g t g' ⟨hc, hm⟩ e
      obtain ⟨hc', hv'⟩ := hashAdd_spec hc e
      exact ⟨hc', by rw [hv']; exact announce_local hm hcost⟩

theorem ServedHere.added {d d' : Daemon} {o : ObjectEntry} {s p : CString}
    (hc : Consistent superFastHash d.gol) (hv : ServedHere d s p) (h : Added d o d') :
    ServedHere d' s p := by
  obtain ⟨o₁, ho₁, hp⟩ := hv.first
  refine ⟨?_, o₁, by rw [h.ol, List.find?_append, ho₁]; rfl, hp⟩
  rw [(hashAdd_spec hc h.gol).2, announce_local hv.view le_rfl, h.rest]

/-- The received LSAs have a TTL between 1 and `DEFAULT_TTL`. -/
def EventTtl (dl : DirectLinks) (ev : Event) : Prop :=
  ∀ r fresh lsa g n, ev = .datagram r fresh → rtRecvfrom dl r = .ok (some (lsa, g, n)) →
    getType lsa.versionTtlType = typeLsa → SentTtl lsa

/-- **Nothing ends it.** -/
theorem ServedHere.act {d d' : Daemon} {ev : Event} {out : List Effect} {s p : CString}
    (ho : OwnOnce d) (hc : Consistent superFastHash d.gol) (hv : ServedHere d s p) (ttl : EventTtl d.dl ev)
    (h : act ev d = .ok (d', out)) : ServedHere d' s p := by
  have hid := (act_static h).2
  cases ev with
  | timeout fresh =>
    refine ((timeout_trail h).preserves
      (I := fun d => OwnOnce d ∧ Consistent superFastHash d.gol ∧ ServedHere d s p) ?_ ⟨ho, hc, hv⟩).2.2
    exact fun d out d' hi ht =>
      ⟨ownOnce_micro hi.1 (.tick ht), consistent_tick hi.2.1 ht, hi.2.2.tick hi.1 hi.2.1 ht⟩
  | datagram r fresh =>
    obtain ⟨lsa, f, size, recv, hh⟩ := receive_handled h
    exact hv.handled hc hh (ttl r fresh lsa f size rfl recv) hid
  | request c uri opened =>
    obtain ⟨-, rfl | ⟨o, ha⟩⟩ := request_added h
    · exact hv
    · exact hv.added hc ha

theorem ServedHere.exec {d d' : Daemon} {evs : List Event} {s p : CString} (ho : OwnOnce d)
    (hr : Registered d) (hv : ServedHere d s p) (ttl : ∀ ev ∈ evs, EventTtl d.dl ev)
    (h : exec evs d = .ok d') : Registered d' ∧ ServedHere d' s p := by
  induction evs generalizing d with
  | nil => cases h; exact ⟨hr, hv⟩
  | cons ev evs ih =>
    obtain ⟨⟨d₁, out⟩, h1, h⟩ := bind_eq_ok.mp h
    refine ih (ownOnce_act ho h1) (registered_act hr h1) (hv.act ho hr.1 (ttl ev List.mem_cons_self) h1)
      (fun ev' hev' => ?_) h
    rw [(act_static h1).1]
    exact ttl ev' (List.mem_cons_of_mem _ hev')

/-! ### What an RDGET then answers -/

/-- The answer with a URI. -/
def okUri (uri : List UInt8) : List UInt8 :=
  ascii "OK " ++ decimal uri.length ++ ascii " " ++ uri ++ ascii " "

theorem okUri_zero {uri : List UInt8} (h : 0 ∉ uri) : 0 ∉ okUri uri := by
  have h1 : 0 ∉ ascii "OK " := by decide
  have h2 : 0 ∉ ascii " " := by decide
  simp only [okUri, List.mem_append, not_or]
  exact ⟨⟨⟨⟨h1, zero_notMem_decimal _⟩, h2⟩, h⟩, h2⟩

/-- The buffers of an RDGET have room for a URI that ends in `p` and for the answer with it. -/
structure Room (d : Daemon) (p : CString) (uri : List UInt8) (q : TcpConnection) : Prop where
  path : strlen p < q.path.length
  uri : strlen d.myUri + strlen p < uri.length
  response : (okUri (d.myUri.1 ++ p.1)).length < q.response.length

instance (d : Daemon) (p : CString) (uri : List UInt8) (q : TcpConnection) :
    Decidable (Room d p uri q) :=
  decidable_of_iff (_ ∧ _ ∧ _) ⟨fun ⟨h1, h2, h3⟩ => ⟨h1, h2, h3⟩, fun ⟨h1, h2, h3⟩ => ⟨h1, h2, h3⟩⟩

theorem respondUri_eq {c : TcpConnection} {uri u : List UInt8} (h : (cstr uri).1 = u) :
    c.respondUri uri = c.respond 200 (okUri u) := by
  rw [TcpConnection.respondUri, strlen, h]
  rfl

theorem getLocalFilePath_eq {ol : LocalObjects} {q : TcpConnection} {o : ObjectEntry}
    {b : List UInt8} (ho : ol.objects.find? (fun o => o.name.1 = cstr q.name) = some o)
    (hb : store q.path o.path.1.1 = .ok b) : getLocalFilePath ol q = .ok { q with path := b } := by
  rw [getLocalFilePath, ho]
  simp only [hb, ok_bind]

/-- **An RDGET for an object that is served here** is answered with its URI. -/
theorem rdget_here {d : Daemon} {p : CString} {uri : List UInt8} {q : TcpConnection}
    (hc : Consistent superFastHash d.gol) (hv : ServedHere d (cstr q.name) p) (hp : p ≠ lit "")
    (room : Room d p uri q) :
    ∃ q', rdget uri d q = .ok q' ∧ (cstr q'.response).1 = okUri (d.myUri.1 ++ p.1) := by
  have ht : rdgetTarget d (cstr q.name) = .ok .here := by
    rw [rdgetTarget, getPaths_eq hc, hv.view]
    simp
  obtain ⟨o, ho, rfl⟩ := hv.first
  obtain ⟨path, hpath, -⟩ := store_of_lt room.path
  have hcp : cstr path = o.path.1 := Subtype.ext (cstr_store hpath o.path.1.2)
  have huri : 0 ∉ d.myUri.1 ++ o.path.1.1 := by
    simp only [List.mem_append, not_or]
    exact ⟨d.myUri.2, o.path.1.2⟩
  have hroom : (d.myUri.1 ++ o.path.1.1).length < uri.length := by
    rw [List.length_append]
    exact room.uri
  obtain ⟨u, hu, -⟩ := store_of_lt hroom
  have hcu := cstr_store hu huri
  obtain ⟨b, hb, -⟩ := store_of_lt room.response
  have hne : strlen o.path.1 ≠ 0 := fun h0 =>
    hp (Subtype.ext ((List.length_eq_zero_iff.mp h0).trans rfl))
  refine ⟨{ q with path := path, status := 200, response := b }, ?_, ?_⟩
  · simp only [rdget, ht, ok_bind, getLocalFilePath_eq ho hpath, hcp, if_neg hne, hu,
      respondUri_eq hcu, TcpConnection.respond, hb]
  · exact cstr_store hb (okUri_zero huri)

theorem answered_ok {d d₁ : Daemon} {uri : List UInt8} {opened : Bool} {c c₁ : TcpConnection}
    (hm : cstr c.method = lit "ADDFILE") (h : buildResponse uri opened d c = .ok (d₁, c₁))
    (hok : cstr c₁.response = lit "OK 0 ") :
    ∃ o, Added d o d₁ ∧ o.name.1 = cstr c.name ∧ o.path.1 = cstr c.path := by
  obtain ⟨⟨d₂, c₂⟩, h2, h⟩ := bind_eq_ok.mp h
  cases h
  have key : ∀ {status : ℤ} {s : String}, c.respond status (ascii s) = .ok c₂ → 0 ∉ ascii s →
      ascii s = (lit "OK 0 ").1 := by
    intro status s hc h0
    obtain ⟨b, hb, hc⟩ := bind_eq_ok.mp hc
    cases hc
    rw [← cstr_store hb h0]
    exact congrArg Subtype.val hok
  unfold dispatch at h2
  split_ifs at h2 with hst hget
  · obtain ⟨c₃, hc, h2⟩ := bind_eq_ok.mp h2
    cases h2
    exact absurd (key hc (by decide)) (by decide)
  · rw [hm] at hget
    exact absurd hget (by decide)
  · rcases addfile_eq_ok h2 with ⟨-, -, hc⟩ | ⟨ha, -⟩
    · exact absurd (key hc (by decide)) (by decide)
    · exact ha

/-- **Read your write.** If no neighbour has the own id: once an ADDFILE was answered OK, the object has the
path `(my_node_id, 0)` after every later run, and every RDGET for it is answered with `my_uri` and that path. -/
theorem served_locally {f : Files} {d d₁ d₂ : Daemon} {uri : List UInt8}
    {opened : Bool} {c c₁ : TcpConnection} {evs : List Event} (r : (daemonSystem f).Reachable d)
    (hn : ∀ p ∈ d.dl.neighbours, p.1.id ≠ d.myNodeId)
    (hm : cstr c.method = lit "ADDFILE") (h : buildResponse uri opened d c = .ok (d₁, c₁))
    (hok : cstr c₁.response = lit "OK 0 ") (hp : cstr c.path ≠ lit "")
    (later : exec evs d₁ = .ok d₂) (ttl : ∀ ev ∈ evs, EventTtl d₁.dl ev) :
    getPaths superFastHash d₂.gol (cstr c.name) = some ⟨d₂.myNodeId, 0⟩ ∧
      ∀ uri' opened' q, q.status = 200 → cstr q.method = lit "RDGET" →
        cstr q.name = cstr c.name → Room d₂ (cstr c.path) uri' q →
          ∃ q', buildResponse uri' opened' d₂ q = .ok (d₂, q') ∧
            (cstr q'.response).1 = okUri (d₂.myUri.1 ++ (cstr c.path).1) := by
  have hr := registered_reachable r
  obtain ⟨o, ha, hname, hpath⟩ := answered_ok hm h hok
  have hact : act (.request c uri opened) d = .ok (d₁, []) := by rw [act, h]; rfl
  have hv₁ : ServedHere d₁ (cstr c.name) (cstr c.path) := hname ▸ hpath ▸ servedHere_added hr ha
  obtain ⟨⟨hc₂, -⟩, hv₂⟩ :=
    hv₁.exec (ownOnce_act (ownOnce_reachable r hn) hact) (registered_act hr hact) ttl later
  refine ⟨by rw [getPaths_eq hc₂, hv₂.view]; rfl, ?_⟩
  intro uri' opened' q hst hget hq room
  obtain ⟨q', hq', hresp⟩ := rdget_here hc₂ (hq ▸ hv₂) hp room
  refine ⟨{ q' with responseIndex := strlen (cstr q'.response) }, ?_, hresp⟩
  simp only [buildResponse, dispatch, hst, hget, hq', ok_bind, if_true]
  rfl

/-- A parsed request about an object with the name `n`. -/
def parsed (method path : String) : TcpConnection :=
  { blankConnection with
    method := (lit method).1 ++ blankBuf
    name := (lit "n").1 ++ blankBuf
    path := (lit path).1 ++ blankBuf
    status := 200 }

/-- An announcement of an object with the name `n` by node 2. -/
def rivalLsa : LSA := ⟨newHeader typeLsa, 2, 0, 0, 1, [1, 0, 0, 0, 110]⟩

/-- Node 2 announces an object with the name `n` too, and a period passes. -/
def rivalEvents : List Event :=
  [.datagram (.got (cstr [66]) rivalLsa.bytes) zeros, .timeout zeros]

/-- The states before and after an ADDFILE for `n`, and after the announcement by node 2. -/
def rivalRun : Except Fault (Daemon × Daemon × TcpConnection × Daemon) := do
  let d ← boot pairFiles
  let (d₁, c₁) ← buildResponse blankBuf true d (parsed "ADDFILE" "/p")
  let d₂ ← exec rivalEvents d₁
  return (d, d₁, c₁, d₂)

theorem served_locally_rivalRun : ∃ d d₁ c₁ d₂ q, rivalRun = .ok (d, d₁, c₁, d₂) ∧
    getPaths superFastHash d₂.gol (lit "n") = some ⟨d₂.myNodeId, 0⟩ ∧
    buildResponse blankBuf true d₂ (parsed "RDGET" "") = .ok (d₂, q) ∧
    (cstr q.response).1 = okUri (d₂.myUri.1 ++ ascii "/p") := by
  have key : rivalRun.map (fun p => decide (cstr p.2.2.1.response = lit "OK 0 ") &&
      decide (Room p.2.2.2 (cstr (parsed "ADDFILE" "/p").path) blankBuf (parsed "RDGET" ""))) =
        .ok true := by decide +kernel
  obtain ⟨⟨d, d₁, c₁, d₂⟩, hd, hp⟩ := exists_of_map_eq_ok key
  simp only [Bool.and_eq_true, decide_eq_true_eq] at hp
  obtain ⟨hok, room⟩ := hp
  obtain ⟨d', h0, h⟩ := bind_eq_ok.mp hd
  obtain ⟨⟨d₁', c₁'⟩, h1, h⟩ := bind_eq_ok.mp h
  obtain ⟨d₂', h2, h⟩ := bind_eq_ok.mp h
  cases h
  have ttl : ∀ ev ∈ rivalEvents, EventTtl d₁.dl ev := by
    rintro ev hev r fresh lsa g n rfl recv -
    obtain ⟨_, _, _, hr, -, hb, -⟩ := rtRecvfrom_eq_ok recv
    simp only [rivalEvents, List.mem_cons, Event.datagram.injEq, reduceCtorEq, List.not_mem_nil,
      or_false] at hev
    obtain ⟨rfl, -⟩ := hev
    cases hr
    rw [show bytesToPacket (rivalLsa.bytes.take maxLsaLen) = .ok rivalLsa by decide] at hb
    cases hb
    exact ⟨by decide, by decide⟩
  have hn : ∀ p ∈ d.dl.neighbours, p.1.id ≠ d.myNodeId := by
    obtain ⟨hl, -, hid, -⟩ := boot_eq_ok h0
    rw [DirectLinks.neighbours, hl, hid]
    decide
  obtain ⟨hget, hans⟩ := served_locally (.init h0) hn (by decide) h1 hok (by decide) h2 ttl
  obtain ⟨q, hq, hr⟩ := hans blankBuf true (parsed "RDGET" "") rfl (by decide) (by decide)
    room
  exact ⟨d, d₁, c₁, d₂, q, hd, hget, hq, hr⟩

/-- **A neighbour with the own id**: when it is given up, the paths of the own objects are cleared. -/
theorem exists_not_served : ∃ d d₁ d₂ c₁, (daemonSystem twinFiles).Reachable d ∧
    buildResponse blankBuf true d (parsed "ADDFILE" "/p") = .ok (d₁, c₁) ∧
    cstr c₁.response = lit "OK 0 " ∧ exec twinRun d₁ = .ok d₂ ∧ (∀ ev ∈ twinRun, EventTtl d₁.dl ev) ∧
    getPaths superFastHash d₂.gol (lit "n") = none := by
  have key : (boot twinFiles >>= fun d => buildResponse blankBuf true d (parsed "ADDFILE" "/p") >>= fun p =>
      exec twinRun p.1 >>= fun d₂ => .ok (d, p, d₂)).map (fun p => decide (cstr p.2.1.2.response = lit "OK 0 ") &&
        decide (getPaths superFastHash p.2.2.gol (lit "n") = none)) = .ok true := by decide +kernel
  obtain ⟨⟨d, ⟨d₁, c₁⟩, d₂⟩, hd, hp⟩ := exists_of_map_eq_ok key
  simp only [Bool.and_eq_true, decide_eq_true_eq] at hp
  obtain ⟨_, h0, h⟩ := bind_eq_ok.mp hd
  obtain ⟨_, h1, h⟩ := bind_eq_ok.mp h
  obtain ⟨_, h2, h⟩ := bind_eq_ok.mp h
  cases h
  refine ⟨d, d₁, d₂, c₁, .init h0, h1, hp.1, h2, ?_, hp.2⟩
  rintro ev hev r fresh lsa g n rfl recv type
  obtain ⟨_, _, _, rfl, -, hb, -⟩ := rtRecvfrom_eq_ok recv
  simp only [twinRun, List.mem_append, List.mem_cons, List.mem_replicate, reduceCtorEq, and_false, or_false,
    Event.datagram.injEq, Received.got.injEq] at hev
  rcases hev with ⟨⟨-, rfl⟩, -⟩ | ⟨⟨-, rfl⟩, -⟩
  · rw [show bytesToPacket _ = .ok (LSA.mk (newHeader typeLsa) 2 0 0 0 []) by decide] at hb
    cases hb
    exact ⟨by decide, by decide⟩
  · rw [show bytesToPacket _ = .ok (LSA.mk (newHeader typeAck) 1 0 0 0 []) by decide] at hb
    cases hb
    exact absurd type (by decide)

end RoutingDaemon
