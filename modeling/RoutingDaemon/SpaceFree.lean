import RoutingDaemon.CutPackets
import RoutingDaemon.ServerNetwork

/-!
# Names and paths without spaces

`load_node_file` and `process_buffer` take names and paths from `strtok`; `store_node_objects` reads
names that `create_packet` wrote, perhaps at another node.

* `FromFile`: the fields of the lines of a file.
* `Spaceless`: no name, path or host that a daemon has stored holds a space; `spaceless_boot`,
  `Spaceless.tick`, `Spaceless.handled`, `Spaceless.added`.
* `SpacelessBuffers`: nor does the name or the path of a connection.
* `SpacelessServers`: both at all nodes, and in every datagram; `spaceless_reachable`.
-/

namespace RoutingDaemon

/-! ### What is read and written -/

/-- The fields of the lines of a file. -/
def FromFile (lines : List (CString × CString)) : Prop :=
  ∃ file, (readLines file.length file).mapM lineTokens = .ok lines

theorem lineTokens_space {line : List UInt8} {p : CString × CString} (h : lineTokens line = .ok p) :
    32 ∉ p.1.1 ∧ 32 ∉ p.2.1 := by
  obtain ⟨t0, h0, h⟩ := bind_eq_ok.mp h
  obtain ⟨t1, h1, h⟩ := bind_eq_ok.mp h
  obtain ⟨name, hname, h⟩ := bind_eq_ok.mp h
  obtain ⟨path, hpath, h⟩ := bind_eq_ok.mp h
  cases h
  rw [strtokSpace_eq_ok] at h0 h1
  rw [deref_eq_ok] at hname hpath
  exact ⟨notMem_cstr (isWord_token space_ne_zero h0 hname).sep,
    notMem_cstr (isWord_token space_ne_zero h1 hpath).sep⟩

theorem mapM_lineTokens_space {ls : List (List UInt8)} {ps : List (CString × CString)}
    (h : ls.mapM lineTokens = .ok ps) : ∀ p ∈ ps, 32 ∉ p.1.1 ∧ 32 ∉ p.2.1 := by
  induction ls generalizing ps with
  | nil => cases h; exact fun p hp => absurd hp List.not_mem_nil
  | cons line ls ih =>
    rw [List.mapM_cons] at h
    obtain ⟨p, hp, h⟩ := bind_eq_ok.mp h
    obtain ⟨ps, hps, h⟩ := bind_eq_ok.mp h
    cases h
    intro q hq
    rcases List.mem_cons.mp hq with rfl | hq
    · exact lineTokens_space hp
    · exact ih hps q hq

/-- **The fields of a file hold no space.** -/
theorem FromFile.space {lines : List (CString × CString)} (h : FromFile lines) :
    ∀ p ∈ lines, 32 ∉ p.1.1 ∧ 32 ∉ p.2.1 := by
  obtain ⟨file, h⟩ := h
  exact mapM_lineTokens_space h

theorem space_notMem_store {buf s b : List UInt8} (h : store buf s = .ok b) (hs : 32 ∉ s)
    (hbuf : 32 ∉ buf) : 32 ∉ b := by
  unfold store at h
  split_ifs at h
  cases h
  simp only [List.mem_append, List.mem_cons, not_or]
  exact ⟨hs, by decide, fun hm => hbuf (List.mem_of_mem_drop hm)⟩

/-! ### The object table and the local objects -/

/-- No name or path in the two object tables holds a space. -/
structure SpacelessObjects (ol : LocalObjects) (gol : LisoHash) : Prop where
  consistent : Consistent superFastHash gol
  objects : ∀ o ∈ ol.objects, 32 ∉ o.name.1.1 ∧ 32 ∉ o.path.1.1
  known : ∀ s, view superFastHash gol s ≠ none → 32 ∉ s.1

section Objects

variable {ol ol' : LocalObjects} {gol gol' : LisoHash}

theorem SpacelessObjects.empty : SpacelessObjects LocalObjects.empty initHash where
  consistent := consistent_initHash
  objects o ho := absurd ho List.not_mem_nil
  known s hs := absurd (by rw [view_initHash]; rfl) hs

theorem SpacelessObjects.add (h : SpacelessObjects ol gol) {o : ObjectEntry} {n : Int32} {c : ℤ}
    (hname : 32 ∉ o.name.1.1) (hpath : 32 ∉ o.path.1.1) (hol : ol'.objects = ol.objects ++ [o])
    (hadd : hashAdd superFastHash gol o.name.1 n c = .ok gol') : SpacelessObjects ol' gol' := by
  obtain ⟨hc, hv⟩ := hashAdd_spec h.consistent hadd
  refine ⟨hc, fun o' ho' => ?_, fun s hs => ?_⟩
  · rw [hol, List.mem_append, List.mem_singleton] at ho'
    rcases ho' with ho' | rfl
    · exact h.objects o' ho'
    · exact ⟨hname, hpath⟩
  · rw [hv] at hs
    rcases ObjMap.announce_ne_none.mp hs with rfl | hs
    · exact hname
    · exact h.known s hs

theorem SpacelessObjects.store (h : SpacelessObjects ol gol) {lsa : LSA} (hlsa : Unspaced lsa)
    (hadd : storeNodeObjects (hashAdd superFastHash) gol lsa = .ok gol') :
    SpacelessObjects ol gol' := by
  obtain ⟨hc, names, hnames, hv⟩ := storeNodeObjects_view h.consistent hadd
  refine ⟨hc, h.objects, fun s hs => ?_⟩
  rw [hv, ObjMap.announceAll_apply] at hs
  split_ifs at hs with hm
  · exact hlsa.names hnames s hm
  · exact h.known s hs

theorem SpacelessObjects.removeNode (h : SpacelessObjects ol gol) (n : Int32) :
    SpacelessObjects ol (hashRemoveNode superFastHash gol n) := by
  obtain ⟨hc, hv⟩ := hashRemoveNode_spec h.consistent n
  refine ⟨hc, h.objects, fun s hs => h.known s fun hn => hs ?_⟩
  rw [hv, ObjMap.withdraw, hn]
  rfl

theorem spacelessObjects_load {id : Int32} {lines : List (CString × CString)}
    (hl : ∀ p ∈ lines, 32 ∉ p.1.1 ∧ 32 ∉ p.2.1) (h0 : SpacelessObjects ol gol)
    (h : loadNodeFile id lines ol gol = .ok (ol', gol')) : SpacelessObjects ol' gol' := by
  induction lines generalizing ol gol with
  | nil => cases h; exact h0
  | cons p lines ih =>
    obtain ⟨o, ol₁, gol₁, hn, hp, hol, hadd, h⟩ := loadNodeFile_cons_eq_ok.mp h
    obtain ⟨hname, hpath⟩ := hl p List.mem_cons_self
    rw [← hn] at hname hadd
    rw [← hp] at hpath
    have h1 : SpacelessObjects ol₁ gol₁ := h0.add hname hpath (push_objects hol) hadd
    exact ih (fun p hm => hl p (List.mem_cons_of_mem _ hm)) h1 h

end Objects

/-! ### Daemons -/

/-- No name, path or host that a daemon has stored holds a space. -/
structure Spaceless (d : Daemon) : Prop where
  objects : SpacelessObjects d.ol d.gol
  stored : ∀ e ∈ d.rt.table, ∀ a, e.lsa = some a → Unspaced a
  links : 1 ≤ d.dl.numLinks
  hosts : ∀ l ∈ d.dl.links, 32 ∉ l.host.1.1
  uri : 32 ∉ d.myUri.1

/-- The files of a daemon: nothing that comes from them holds a space. -/
structure SpacelessFiles (f : Files) : Prop where
  rows : f.rows ≠ []
  lines : FromFile f.lines
  hostname : 32 ∉ f.hostname.1
  hosts : ∀ l ∈ f.rows, 32 ∉ l.host.1.1

theorem boot_myUri {f : Files} {d : Daemon} (h : boot f = .ok d) : ∃ port : ℤ,
    d.myUri = cstr (ascii "http://" ++ f.hostname.1 ++ ascii ":" ++ decimal port) := by
  obtain ⟨⟨dl, rt, uri⟩, h1, h⟩ := bind_eq_ok.mp h
  obtain ⟨⟨ol, gol⟩, -, h⟩ := bind_eq_ok.mp h
  cases h
  unfold loadNodeConf at h1
  split_ifs at h1
  cases h1
  exact ⟨_, rfl⟩

theorem spaceless_boot {f : Files} (hf : SpacelessFiles f) {d : Daemon} (h : boot f = .ok d) :
    Spaceless d := by
  obtain ⟨hlinks, htable, -, -, -, hload⟩ := boot_eq_ok h
  refine ⟨spacelessObjects_load hf.lines.space .empty hload, fun e he a ha => ?_, ?_, ?_, ?_⟩
  · rw [htable] at he
    obtain ⟨i, l, rfl⟩ := List.mem_mapIdx.mp he
    cases ha
  · rw [DirectLinks.numLinks, hlinks]
    exact List.length_pos_iff.mpr hf.rows
  · rw [hlinks]
    exact hf.hosts
  · obtain ⟨port, hport⟩ := boot_myUri h
    have h1 : 32 ∉ ascii "http://" := by decide
    have h2 : 32 ∉ ascii ":" := by decide
    rw [hport]
    refine notMem_cstr ?_
    simp only [List.mem_append, not_or]
    exact ⟨⟨⟨h1, hf.hostname⟩, h2⟩, space_notMem_decimal port⟩

section Daemons

variable {d d' : Daemon} {out : List Effect}

theorem Spaceless.tick (hd : Spaceless d) (h : Tick d out d') : Spaceless d' := by
  obtain ⟨hol, huri, hgol⟩ := tick_objects h
  have hdl := (micro_static (.tick h)).1
  refine ⟨?_, fun e he a ha => ?_, hdl ▸ hd.links, hdl ▸ hd.hosts, huri ▸ hd.uri⟩
  · rw [hol]
    rcases hgol with hg | ⟨n, -, hg⟩
    · rw [hg]; exact hd.objects
    · rw [hg]; exact hd.objects.removeNode n
  · rcases created_tick h he ha with ⟨e₀, he₀, ha₀⟩ | ⟨⟨fresh, size, hp⟩, -⟩
    · exact hd.stored e₀ he₀ a ha₀
    · exact unspaced_createPacket hp hd.links fun o ho => (hd.objects.objects o ho).1

theorem Spaceless.handled (hd : Spaceless d) {fresh : Fresh} {lsa : LSA} {f : Int32} {size : ℕ}
    (hlsa : getType lsa.versionTtlType = typeLsa → Unspaced lsa)
    (h : Handled d fresh lsa f size out d') : Spaceless d' := by
  obtain ⟨hol, huri, hgol⟩ := handled_objects h
  have hdl : d'.dl = d.dl := by cases h <;> rfl
  refine ⟨?_, fun e he a ha => ?_, hdl ▸ hd.links, hdl ▸ hd.hosts, huri ▸ hd.uri⟩
  · rw [hol]
    rcases hgol with hg | ⟨type, hg⟩
    · rw [hg]; exact hd.objects
    · exact hd.objects.store (hlsa type).accepted hg
  · rcases lsa_handled h he ha with ⟨e₀, he₀, ha₀⟩ | ⟨rfl, type⟩
    · exact hd.stored e₀ he₀ a ha₀
    · exact (hlsa type).accepted

theorem Spaceless.added (hd : Spaceless d) {o : ObjectEntry} (hname : 32 ∉ o.name.1.1)
    (hpath : 32 ∉ o.path.1.1) (h : Added d o d') : Spaceless d' := by
  have hobjects := hd.objects.add hname hpath h.ol h.gol
  have hrest := h.rest
  generalize d'.gol = gol at hobjects hrest
  generalize d'.ol = ol at hobjects hrest
  subst hrest
  exact ⟨hobjects, hd.stored, hd.links, hd.hosts, hd.uri⟩

end Daemons

/-! ### Connections -/

/-- The buffers that hold the name and the path of a request hold no space. -/
structure SpacelessBuffers (c : TcpConnection) : Prop where
  name : 32 ∉ c.name
  path : 32 ∉ c.path

section Connections

variable {c c' : TcpConnection}

theorem spacelessBuffers_blank (hname : c.name = blankBuf) (hpath : c.path = blankBuf) :
    SpacelessBuffers c where
  name := by rw [hname]; exact space_notMem_replicate maxBuf
  path := by rw [hpath]; exact space_notMem_replicate maxBuf

theorem copyTokens_path {method : List UInt8} {nameLength name pathLength path : Option (List UInt8)}
    (h : copyTokens c method nameLength name pathLength path = .ok c')
    (hm : method ≠ ascii "ADDFILE") : c'.path = c.path := by
  obtain ⟨_, -, h⟩ := bind_eq_ok.mp h
  obtain ⟨_, -, h⟩ := bind_eq_ok.mp h
  obtain ⟨_, -, h⟩ := bind_eq_ok.mp h
  obtain ⟨_, -, h⟩ := bind_eq_ok.mp h
  obtain ⟨_, -, h⟩ := bind_eq_ok.mp h
  rw [if_neg hm] at h
  cases h
  rfl

theorem SpacelessBuffers.processBuffer (hc : SpacelessBuffers c) (h : processBuffer c = .ok c') :
    SpacelessBuffers c' := by
  rcases processBuffer_eq_ok h with ⟨t0, -, -, rfl⟩ | ⟨t0, t1, t2, t3, t4, m, ht, -, hcopy⟩
  · exact ⟨hc.name, hc.path⟩
  · obtain ⟨nl, n, -, hn, -, hname, -, hpath⟩ := copyTokens_eq_ok hcopy
    refine ⟨notMem_strncpy hname (isWord_token space_ne_zero ht.call2 hn).sep hc.name space_ne_zero, ?_⟩
    by_cases hm : m = ascii "ADDFILE"
    · obtain ⟨pl, p, -, hp, hcopied⟩ := hpath hm
      exact notMem_strncpy hcopied (isWord_token space_ne_zero ht.call4 hp).sep hc.path space_ne_zero
    · rw [copyTokens_path hcopy hm]
      exact hc.path

theorem SpacelessBuffers.requested {r : Recv} (hc : SpacelessBuffers c) (h : Requested c r c') :
    SpacelessBuffers c' := by
  cases h with
  | got received parsed =>
    unfold TcpConnection.receive at received
    split_ifs at received
    cases received
    refine SpacelessBuffers.processBuffer ?_ parsed
    exact ⟨hc.name, hc.path⟩
  | failed => exact ⟨hc.name, hc.path⟩

theorem SpacelessBuffers.getLocalFilePath {ol : LocalObjects}
    (ho : ∀ o ∈ ol.objects, 32 ∉ o.path.1.1) (hc : SpacelessBuffers c)
    (h : getLocalFilePath ol c = .ok c') : SpacelessBuffers c' := by
  unfold RoutingDaemon.getLocalFilePath at h
  split at h
  · rename_i o hfind
    obtain ⟨b, hb, h⟩ := bind_eq_ok.mp h
    cases h
    exact ⟨hc.name, space_notMem_store hb (ho o (List.mem_of_find?_eq_some hfind)) hc.path⟩
  · cases h
    refine ⟨hc.name, fun hm => ?_⟩
    rcases List.mem_cons.mp hm with hm | hm
    · exact space_ne_zero hm
    · exact hc.path (List.mem_of_mem_tail hm)

/-- **An answered request leaves no space in the daemon and in its connection.** -/
theorem Spaceless.buildResponse {d d' : Daemon} {uri : List UInt8} {opened : Bool} (hd : Spaceless d)
    (hc : SpacelessBuffers c) (h : buildResponse uri opened d c = .ok (d', c')) :
    Spaceless d' ∧ SpacelessBuffers c' := by
  constructor
  · obtain ⟨⟨d₁, c₁⟩, h1, h⟩ := bind_eq_ok.mp h
    cases h
    rcases dispatch_added h1 with rfl | ⟨o, ha, hname, hpath⟩
    · exact hd
    · exact hd.added (by rw [hname]; exact notMem_cstr hc.name)
        (by rw [hpath]; exact notMem_cstr hc.path) ha
  · refine buildResponse_rule (P := SpacelessBuffers) (fun c _ _ _ hc => ⟨hc.name, hc.path⟩) ?_ hc h
    exact fun c c' hc h => hc.getLocalFilePath (fun o ho => (hd.objects.objects o ho).2) h

end Connections

/-! ### Networks -/

variable {ι : Type}

/-- If a datagram holds an LSA, its names hold no space. -/
def Datagram.Spaceless (g : Datagram ι) : Prop :=
  sizeofLsa ≤ g.bytes.length → ∀ a, g.Carries a → getType a.versionTtlType = typeLsa → Unspaced a

section Sent

variable {x : ι} {g : Datagram ι} {d d' : Daemon} {out : List Effect}

theorem spaceless_rtSendto {p : LSA} {l : LinkEntry} {size : ℕ}
    (hp : getType p.versionTtlType = typeLsa → Unspaced p) (hg : g ∈ sends x [rtSendto p l size]) :
    g.Spaceless := by
  obtain ⟨host, port, bytes, he, rfl⟩ := mem_sends.mp hg
  rw [List.mem_singleton, rtSendto] at he
  cases he
  intro hlong a ha type
  rw [List.length_take] at hlong
  have hsize : sizeofLsa ≤ size := hlong.trans (Nat.min_le_left _ _)
  obtain rfl := ha.unique (carries_rtSendto p hsize)
  exact (hp type).cut _

theorem Spaceless.sent_tick (hd : Spaceless d) (h : Tick d out d') (hg : g ∈ sends x out) :
    g.Spaceless := by
  cases h with
  | send ok =>
    exact spaceless_rtSendto (fun _ => hd.stored _ (List.mem_of_getElem? ok.entry) _ ok.stored) hg
  | resend ok checker pending budget =>
    exact spaceless_rtSendto (fun _ => hd.stored _ (List.mem_of_getElem? ok.entry) _ ok.stored) hg
  | _ => simp [sends] at hg

theorem spaceless_sent_handled {fresh : Fresh} {lsa : LSA} {f : Int32} {size : ℕ}
    (h : Handled d fresh lsa f size out d') (hg : g ∈ sends x out) : g.Spaceless := by
  cases h with
  | @accepted src rt gol type newer link update objects =>
    have hack : getType (setType lsa.versionTtlType typeAck) = typeLsa →
        Unspaced { lsa with versionTtlType := setType lsa.versionTtlType typeAck } := fun h => by
      rw [getType_setType_ack] at h
      exact absurd h (by decide)
    exact spaceless_rtSendto (l := src) hack hg
  | _ => simp [sends] at hg

end Sent

/-- No daemon and no datagram holds a space. -/
structure SpacelessWorld (w : World ι) : Prop where
  daemons : ∀ x, Spaceless (w.daemon x)
  wire : ∀ g ∈ w.wire, g.Spaceless

variable [DecidableEq ι]

section World

variable {N : Net ι} {ok : List UInt8 → Prop} {w w' : World ι} {x : ι} {d : Daemon}
  {out : List Effect}

theorem SpacelessWorld.after (hw : SpacelessWorld w) (hd : Spaceless d)
    (hg : ∀ g ∈ sends x out, g.Spaceless) : SpacelessWorld (w.after x out d) where
  daemons := forall_after (P := fun _ d => Spaceless d) hd hw.daemons
  wire g hm := (List.mem_append.mp hm).elim (hw.wire g) (hg g)

/-- **The passes of a daemon create no space.** -/
theorem SpacelessWorld.pass (hw : SpacelessWorld w) {ev : ConnectionEvent} {p : Event}
    (own : daemonPass ev = some p) (hp : Possible N ok w x p)
    (h : act p (w.daemon x) = .ok (d, out)) : SpacelessWorld (w.after x out d) := by
  cases p with
  | timeout fresh =>
    refine (after_trail (timeout_trail h)).preserves (I := SpacelessWorld) ?_ hw
    rintro w out _ hw ⟨d, ht, rfl⟩
    exact hw.after ((hw.daemons x).tick ht) fun g hg => (hw.daemons x).sent_tick ht hg
  | datagram r fresh =>
    obtain ⟨g, hg, -, -, rfl⟩ := hp
    obtain ⟨lsa, f, size, recv, hh⟩ := receive_handled h
    obtain ⟨_, _, _, hr, hlong, -⟩ := rtRecvfrom_eq_ok recv
    cases hr
    have hlsa : getType lsa.versionTtlType = typeLsa → Unspaced lsa :=
      hw.wire g hg hlong lsa (received_carries recv)
    exact hw.after ((hw.daemons x).handled hlsa hh) fun g hg => spaceless_sent_handled hh hg
  | request c uri opened => cases ev <;> cases own

end World

/-- No daemon, no datagram and no connection holds a space. -/
structure SpacelessServers (s : Servers ι) : Prop where
  world : SpacelessWorld s.world
  buffers : ∀ x i, SpacelessBuffers ((s.engine x).connections i)

section Servers

variable {N : Net ι} {ok : List UInt8 → Prop} {s s' : Servers ι} {x : ι} {ev : ConnectionEvent}

theorem SpacelessServers.update (hs : SpacelessServers s) {e : Engine} {wire : List (Datagram ι)}
    (hd : Spaceless e.daemon) (hc : ∀ i, SpacelessBuffers (e.connections i))
    (hw : ∀ g ∈ wire, g.Spaceless) : SpacelessServers ⟨Function.update s.engine x e, wire⟩ where
  world := ⟨(Function.forall_update_iff _ fun _ (e : Engine) => Spaceless e.daemon).mpr
    ⟨hd, fun y _ => hs.world.daemons y⟩, hw⟩
  buffers := (Function.forall_update_iff _ fun _ (e : Engine) => ∀ i, SpacelessBuffers
    (e.connections i)).mpr ⟨hc, fun y _ => hs.buffers y⟩

theorem spacelessServers_init (hf : ∀ x, SpacelessFiles (N.files x))
    (h : (serverNetwork N ok).init s) : SpacelessServers s where
  world := by
    refine ⟨fun x => spaceless_boot (hf x) ((world_init h).2 x), fun g hg => ?_⟩
    rw [(world_init h).1] at hg
    exact absurd hg List.not_mem_nil
  buffers x i := by
    obtain ⟨udpSock, tcpSock, d, -, -, -, -, he⟩ := h.2 x
    rw [he]
    exact spacelessBuffers_blank rfl rfl

/-- **Every handler keeps spaces out.** -/
theorem SpacelessServers.handler (hs : SpacelessServers s)
    (h : (serverNetwork N ok).step s (x, ev) s') : SpacelessServers s' := by
  obtain ⟨-, hp, e, ret, hh, rfl⟩ := h
  have hserves := handle_serves hh
  have hnone : ∀ g ∈ sends x [], g.Spaceless := fun g hg => absurd hg List.not_mem_nil
  have key : SpacelessWorld (s.world.after x (handlerEffects ev (s.engine x).daemon) e.daemon) ∧
      ∀ i, SpacelessBuffers (e.connections i) := by
    generalize e.daemon = d at hserves
    generalize e.connections = cs at hserves
    have hupdate : ∀ i c, SpacelessBuffers c →
        ∀ j, SpacelessBuffers (Function.update (s.engine x).connections i c j) := fun i c hc =>
      (Function.forall_update_iff _ fun _ c => SpacelessBuffers c).mpr ⟨hc, fun j _ => hs.buffers x j⟩
    cases hserves with
    | idle =>
      rw [handlerEffects_nil rfl]
      exact ⟨hs.world.after (hs.world.daemons x) hnone, hs.buffers x⟩
    | init i other name path =>
      rw [handlerEffects_nil other]
      exact ⟨hs.world.after (hs.world.daemons x) hnone,
        hupdate i _ (spacelessBuffers_blank name path)⟩
    | answered request answer =>
      obtain ⟨hd, hc⟩ := (hs.world.daemons x).buildResponse ((hs.buffers x _).requested request) answer
      rw [handlerEffects_nil rfl]
      exact ⟨hs.world.after hd hnone, hupdate _ _ hc⟩
    | pass own hact =>
      rw [handlerEffects_eq own hact]
      exact ⟨hs.world.pass own (hp _ own) hact, hs.buffers x⟩
  have hd := key.1.daemons x
  rw [after_daemon_self] at hd
  exact hs.update hd key.2 key.1.wire

/-- **Nothing that a server stores holds a space, in every reachable state**, also over restarts. -/
theorem spaceless_reachable (hf : ∀ x, SpacelessFiles (N.files x))
    (r : (restartServers N ok).Reachable s) : SpacelessServers s := by
  refine r.invariant (I := SpacelessServers) (fun s h => ?_) ?_
  · have hinit : (serverNetwork N ok).init s := h
    exact spacelessServers_init hf hinit
  · intro s l s' hs h
    cases h with
    | handler h => exact hs.handler h
    | @restart x udpSock tcpSock d socks udp tcp h =>
      obtain ⟨lines, hlines, hb⟩ := restart_eq_ok h
      have hfiles : SpacelessFiles
          { N.files x with lines := lines, filefile := (s.engine x).daemon.filefile } :=
        ⟨(hf x).rows, ⟨_, hlines⟩, (hf x).hostname, (hf x).hosts⟩
      exact hs.update (spaceless_boot hfiles hb) (fun i => spacelessBuffers_blank rfl rfl) hs.world.wire

end Servers

end RoutingDaemon
