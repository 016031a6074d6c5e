import RoutingDaemon.AddFile
import RoutingDaemon.Interleaving

/-!
# The limits of the tables

Nothing compares a counter with the size of its table, so an append to a full table writes past the end.

* `loadNodeFile_iff`, `boot_iff`: loading succeeds exactly when everything fits.
* `RoomFor`: the condition on a pass; `lsa_iff`, `addfile_iff`: an LSA, and an ADDFILE.
* `AppendsInside`, `appendsInside_iff`: one pass; `RunInside`, `appends_inside`: all runs.
-/

namespace RoutingDaemon

/-! ### Loading -/

/-- Fields that fit the arrays of an object entry. -/
def FitsEntry (p : CString × CString) : Prop := strlen p.1 < maxObjLen ∧ strlen p.2 < maxPathLen

theorem push_iff {ol : LocalObjects} {o : ObjectEntry} :
    (∃ ol', ol.push o = .ok ol') ↔ ol.numObjects < maxObjNum := by
  unfold LocalObjects.push LocalObjects.numObjects
  split_ifs with h
  · exact iff_of_true ⟨_, rfl⟩ h
  · exact iff_of_false (by simp) h

theorem loadNodeFile_split {id : Int32} {lines : List (CString × CString)} {ol : LocalObjects}
    {gol : LisoHash} (hl : ∀ p ∈ lines, FitsEntry p) :
    (∃ r, loadNodeFile id lines ol gol = .ok r) ↔ ol.numObjects + lines.length ≤ maxObjNum ∧
      ∃ gol', (lines.map Prod.fst).foldlM (fun g s => hashAdd superFastHash g s id 0) gol = .ok gol' := by
  induction lines generalizing ol gol with
  | nil => exact iff_of_true ⟨_, rfl⟩ ⟨ol.bounded, gol, rfl⟩
  | cons p lines ih =>
    have hp := hl p List.mem_cons_self
    have hrest : ∀ q ∈ lines, FitsEntry q := fun q hq => hl q (List.mem_cons_of_mem _ hq)
    simp only [loadNodeFile_cons_eq_ok, List.map_cons, List.foldlM_cons, bind_eq_ok, List.length_cons]
    constructor
    · rintro ⟨r, o, ol₁, gol₁, -, -, hpush, hadd, h⟩
      obtain ⟨hlen, gol', hgol⟩ := (ih hrest).mp ⟨r, h⟩
      rw [LocalObjects.numObjects, push_objects hpush, List.length_append, List.length_singleton,
        ← LocalObjects.numObjects] at hlen
      exact ⟨by omega, gol', gol₁, hadd, hgol⟩
    · rintro ⟨hlen, gol', gol₁, hadd, hgol⟩
      obtain ⟨ol₁, hpush⟩ : ∃ ol₁, ol.push ⟨⟨p.1, hp.1⟩, ⟨p.2, hp.2⟩⟩ = .ok ol₁ :=
        push_iff.mpr (by omega)
      have hlen₁ : ol₁.numObjects + lines.length ≤ maxObjNum := by
        rw [LocalObjects.numObjects, push_objects hpush, List.length_append, List.length_singleton,
          ← LocalObjects.numObjects]
        omega
      obtain ⟨r, h⟩ := (ih hrest).mpr ⟨hlen₁, gol', hgol⟩
      exact ⟨r, _, ol₁, gol₁, rfl, rfl, hpush, hadd, h⟩

/-- **`load_node_file` succeeds exactly when the lines and their distinct names fit.** -/
theorem loadNodeFile_iff {id : Int32} {lines : List (CString × CString)}
    (hl : ∀ p ∈ lines, FitsEntry p) :
    (∃ r, loadNodeFile id lines LocalObjects.empty initHash = .ok r) ↔
      lines.length ≤ maxObjNum ∧ (lines.map Prod.fst).toFinset.card ≤ maxobjnum := by
  have hnew : newNames initHash (lines.map Prod.fst) = (lines.map Prod.fst).toFinset := by
    rw [newNames, view_initHash]
    exact Finset.filter_true_of_mem fun _ _ => rfl
  have hs : ∀ s ∈ lines.map Prod.fst, strlen s < maxobjname := by
    intro s hs
    obtain ⟨p, hp, rfl⟩ := List.mem_map.mp hs
    exact (hl p hp).1
  rw [loadNodeFile_split hl, foldlM_hashAdd_iff consistent_initHash hs, hnew]
  simp [LocalObjects.numObjects, LocalObjects.empty, initHash]

/-- The rows, the lines and their names fit the tables. -/
structure FitsTables (f : Files) : Prop where
  rows : f.rows.length ≤ maxNodes
  lines : f.lines.length ≤ maxObjNum
  names : (f.lines.map Prod.fst).toFinset.card ≤ maxobjnum

/-- **A daemon starts exactly when its files fit the tables.** -/
theorem boot_iff {f : Files} (hl : ∀ p ∈ f.lines, FitsEntry p) :
    (∃ d, boot f = .ok d) ↔ FitsTables f := by
  constructor
  · rintro ⟨d, h⟩
    obtain ⟨hrows, -, -, -, -, hload⟩ := boot_eq_ok h
    obtain ⟨hlen, hnames⟩ := (loadNodeFile_iff hl).mp ⟨_, hload⟩
    exact ⟨by rw [← hrows]; exact d.dl.bounded, hlen, hnames⟩
  · rintro ⟨hrows, hlen, hnames⟩
    rw [boot, loadNodeConf, dif_pos hrows, ok_bind]
    obtain ⟨⟨ol, gol⟩, h⟩ := (loadNodeFile_iff hl).mpr ⟨hlen, hnames⟩
    exact ⟨_, bind_eq_ok.mpr ⟨(ol, gol), h, rfl⟩⟩

/-! ### One pass -/

/-- A parsed ADDFILE whose name and path fit the arrays of an object entry. -/
structure AddRequest (c : TcpConnection) : Prop where
  status : c.status = 200
  method : cstr c.method = lit "ADDFILE"
  name : strlen (cstr c.name) < maxObjLen
  path : strlen (cstr c.path) < maxPathLen
  response : c.response.length = maxBuf

/-- The passes that append to tables: a well-formed LSA, and an ADDFILE. -/
inductive Appends (dl : DirectLinks) : Event → Prop
  | lsa {r : Received} {fresh : Fresh} (h : WellFormed dl r) : Appends dl (.datagram r fresh)
  | addfile {c : TcpConnection} {uri : List UInt8} (h : AddRequest c) :
      Appends dl (.request c uri true)

/-- There is room for what a pass appends: an LSA that is accepted needs an entry or room for one, and
room for the names that are new; a new object needs room in both tables of objects. -/
def RoomFor (d : Daemon) : Event → Prop
  | .timeout _ => True
  | .datagram r _ => ∀ a, announcement d.dl r = some a →
      filtered d.rt (getRoutingEntry d.rt a.lsa.senderNodeId) typeLsa a.lsa.sequenceNum = false →
        (getRoutingEntry d.rt a.lsa.senderNodeId ≠ none ∨ d.rt.numEntry < maxNodes) ∧
          d.gol.numObjs + (newNames d.gol a.names).card ≤ maxobjnum
  | .request c _ _ => containsObject superFastHash d.gol (cstr c.name) = none →
      d.gol.numObjs < maxobjnum ∧ d.ol.numObjects < maxObjNum

section Pass

variable {d : Daemon}

theorem hashAdd_new_iff {gol : LisoHash} {s : CString} {n : Int32} {c : ℤ}
    (hn : containsObject superFastHash gol s = none) (hs : strlen s < maxobjname) :
    (∃ gol', hashAdd superFastHash gol s n c = .ok gol') ↔ gol.numObjs < maxobjnum := by
  rw [hashAdd, hn]
  dsimp only
  rw [strcpy, dif_pos hs, ok_bind]
  split_ifs with hr
  · exact iff_of_true ⟨_, rfl⟩ hr
  · exact iff_of_false (by simp) hr

/-- **A well-formed LSA is handled exactly when there is room.** -/
theorem lsa_iff {r : Received} (hc : Consistent superFastHash d.gol) (wf : WellFormed d.dl r)
    (fresh : Fresh) : (∃ d' out, act (.datagram r fresh) d = .ok (d', out)) ↔
      RoomFor d (.datagram r fresh) := by
  obtain @⟨lsa, f, size, raws, recv, type, counts, short⟩ := wf
  have ha := announcement_eq recv counts short
  have ht : getType (acceptedLsa lsa).versionTtlType = typeLsa := by rw [acceptedLsa_type]; exact type
  have hroom : RoomFor d (.datagram r fresh) ↔
      (filtered d.rt (getRoutingEntry d.rt lsa.senderNodeId) typeLsa lsa.sequenceNum = false →
        (getRoutingEntry d.rt lsa.senderNodeId ≠ none ∨ d.rt.numEntry < maxNodes) ∧
          d.gol.numObjs + (newNames d.gol (raws.map cstr)).card ≤ maxobjnum) := by
    refine ⟨fun h => h _ ha, fun h a ha' => ?_⟩
    rw [ha] at ha'
    cases ha'
    exact h
  have hlen := received_length recv
  have hstored := counts.acceptedLsa.stored_iff hc hlen
  rw [hroom]
  constructor
  · rintro ⟨d', out, h⟩ hf
    obtain ⟨_, _, _, recv', hh⟩ := receive_handled h
    rw [recv] at recv'
    cases recv'
    cases hh with
    | ignored why =>
      rw [type, hf] at why
      rcases why with h1 | h1
      · cases h1
      · exact absurd rfl h1.1
    | accepted _ newer link update objects =>
      exact ⟨(updateEntry_iff ht).mp ⟨_, update⟩, (hstored.mp ⟨_, objects⟩).2⟩
    | credited type' => rw [type] at type'; exact absurd type' (by decide)
  · intro h
    cases hs : filtered d.rt (getRoutingEntry d.rt lsa.senderNodeId) typeLsa lsa.sequenceNum with
    | true => exact ⟨d, [], receive_of_handled recv (.ignored (.inl (by rw [type]; exact hs)))⟩
    | false =>
      obtain ⟨hentry, hnames⟩ := h hs
      obtain ⟨rt, update⟩ : ∃ rt, updateEntry fresh (getRoutingEntry d.rt lsa.senderNodeId) d.rt d.dl
        (acceptedLsa lsa) size f = .ok rt := (updateEntry_iff ht).mpr hentry
      obtain ⟨gol, objects⟩ := hstored.mpr ⟨short, hnames⟩
      obtain ⟨_, _, l, -, -, -, hl, rfl, -⟩ := rtRecvfrom_eq_ok recv
      obtain ⟨src, hsrc⟩ := exists_lookupLinkEntryNodeId
        ⟨l, List.mem_of_mem_tail (List.mem_of_find?_eq_some hl), rfl⟩
      exact ⟨_, _, receive_of_handled recv (.accepted type hs hsrc update objects)⟩

/-- **An ADDFILE is handled exactly when there is room.** -/
theorem addfile_iff {c : TcpConnection} (hr : AddRequest c)
    (uri : List UInt8) : (∃ d' out, act (.request c uri true) d = .ok (d', out)) ↔
      RoomFor d (.request c uri true) := by
  have hbuf : ∀ (status : ℤ) (s : List UInt8), s.length < maxBuf →
      ∃ c', c.respond status s = .ok c' := by
    intro status s hs
    rw [← hr.response] at hs
    obtain ⟨b, hb, -⟩ := store_of_lt hs
    exact ⟨_, bind_eq_ok.mpr ⟨b, hb, rfl⟩⟩
  have hd : dispatch uri true d c = addfile true d c := by
    rw [dispatch, if_neg (by rw [hr.status]; simp), if_neg (by rw [hr.method]; decide),
      if_pos hr.method]
  have hact : (∃ d' out, act (.request c uri true) d = .ok (d', out)) ↔
      ∃ x, addfile true d c = .ok x := by
    rw [← hd]
    constructor
    · rintro ⟨d', out, h⟩
      obtain ⟨⟨_, _⟩, h1, -⟩ := bind_eq_ok.mp h
      obtain ⟨x, h2, -⟩ := bind_eq_ok.mp h1
      exact ⟨x, h2⟩
    · rintro ⟨⟨d', c'⟩, h⟩
      exact ⟨d', [], bind_eq_ok.mpr ⟨_, bind_eq_ok.mpr ⟨_, h, rfl⟩, rfl⟩⟩
  rw [hact, RoomFor]
  cases hn : containsObject superFastHash d.gol (cstr c.name) with
  | some p =>
    obtain ⟨c', h⟩ := hbuf 500 (ascii "ERROR 19 File already exists ") (by decide)
    refine iff_of_true ⟨(d, c'), ?_⟩ fun h => absurd h (Option.some_ne_none p)
    rw [addfile, hn]
    exact bind_eq_ok.mpr ⟨c', h, rfl⟩
  | none =>
    obtain ⟨c', hok⟩ := hbuf 200 (ascii "OK 0 ") (by decide)
    constructor
    · rintro ⟨⟨d', c'⟩, h⟩ -
      rcases addfile_eq_ok h with ⟨-, ⟨p, hp⟩, -⟩ | ⟨⟨o, ha, ho, -⟩, -⟩
      · rw [hn] at hp
        cases hp
      · have hl := d'.ol.bounded
        rw [ha.ol, List.length_append, List.length_singleton] at hl
        exact ⟨(hashAdd_new_iff (ho ▸ hn) o.name.2).mp ⟨_, ha.gol⟩, hl⟩
    · intro h
      obtain ⟨hg, hl⟩ := h rfl
      obtain ⟨gol, hadd⟩ := (hashAdd_new_iff (n := d.myNodeId) (c := 0) hn hr.name).mpr hg
      obtain ⟨ol, hpush⟩ : ∃ ol, d.ol.push ⟨⟨cstr c.name, hr.name⟩, ⟨cstr c.path, hr.path⟩⟩ = .ok ol :=
        push_iff.mpr hl
      have hname : strcpy maxObjLen (cstr c.name) = .ok ⟨cstr c.name, hr.name⟩ := strcpy_eq_ok.mpr rfl
      have hpath : strcpy maxPathLen (cstr c.path) = .ok ⟨cstr c.path, hr.path⟩ := strcpy_eq_ok.mpr rfl
      rw [addfile, hn]
      simp only [hadd, hname, hpath, hpush, hok, ok_bind, if_true]
      exact ⟨_, rfl⟩

/-- **A pass that appends is handled exactly when there is room.** -/
theorem appends_iff {ev : Event} (hc : Consistent superFastHash d.gol) (h : Appends d.dl ev) :
    (∃ d' out, act ev d = .ok (d', out)) ↔ RoomFor d ev := by
  cases h with
  | lsa wf => exact lsa_iff hc wf _
  | addfile hr => exact addfile_iff hr _

end Pass

/-! ### Runs -/

/-- The counters do not exceed the sizes of their tables. -/
structure Bounded (d : Daemon) : Prop where
  numEntry : d.rt.numEntry ≤ maxNodes
  numLinks : d.dl.numLinks ≤ maxNodes
  localObjects : d.ol.numObjects ≤ maxObjNum
  objects : d.gol.numObjs ≤ maxobjnum

theorem bounded_of_consistent {d : Daemon} (hc : Consistent superFastHash d.gol) : Bounded d :=
  ⟨d.rt.bounded, d.dl.bounded, d.ol.bounded, hc.room⟩

/-- A pass appends inside the tables, and refuses what does not fit with the tables unchanged. -/
def AppendsInside (d : Daemon) (ev : Event) : Prop :=
  ∃ d' out, act ev d = .ok (d', out) ∧ Bounded d' ∧
    (¬ RoomFor d ev → d'.rt = d.rt ∧ d'.dl = d.dl ∧ d'.ol = d.ol ∧ d'.gol = d.gol)

/-- A run appends inside the tables, from the loading of the files on. -/
def RunInside (f : Files) (evs : List Event) : Prop :=
  (∃ d, boot f = .ok d ∧ Bounded d) ∧
    ∀ es ev rest, evs = es ++ ev :: rest → ∃ d, (boot f >>= exec es) = .ok d ∧ AppendsInside d ev

/-- There is room at every point of a run. -/
def RoomThroughout (f : Files) (evs : List Event) : Prop :=
  FitsTables f ∧
    ∀ es ev rest d, evs = es ++ ev :: rest → (boot f >>= exec es) = .ok d → RoomFor d ev

section Runs

variable {f : Files} {d d' : Daemon} {ev : Event} {es evs : List Event}

/-- **A pass appends inside the tables exactly when there is room.** -/
theorem appendsInside_iff (r : (daemonSystem f).Reachable d) (h : Appends d.dl ev) :
    AppendsInside d ev ↔ RoomFor d ev := by
  rw [← appends_iff (consistent_reachable r) h]
  constructor
  · rintro ⟨d', out, h', -⟩
    exact ⟨d', out, h'⟩
  · rintro ⟨d', out, h'⟩
    have hroom := (appends_iff (consistent_reachable r) h).mp ⟨d', out, h'⟩
    exact ⟨d', out, h', bounded_of_consistent (consistent_reachable (r.step (l := (ev, out)) h')),
      fun hno => absurd hroom hno⟩

theorem exec_append (es es' : List Event) (d : Daemon) :
    exec (es ++ es') d = exec es d >>= exec es' := by
  induction es generalizing d with
  | nil => rfl
  | cons ev es ih =>
    rw [List.cons_append, exec, exec]
    cases act ev d with
    | error _ => rfl
    | ok p => exact ih p.1

theorem exec_dl (h : exec es d = .ok d') : d'.dl = d.dl := by
  induction es generalizing d with
  | nil => cases h; rfl
  | cons ev es ih =>
    obtain ⟨p, h1, h⟩ := bind_eq_ok.mp h
    rw [ih h, (act_static h1).1]

theorem reachable_boot_exec (h : (boot f >>= exec es) = .ok d) : (daemonSystem f).Reachable d := by
  obtain ⟨d₀, h0, h1⟩ := bind_eq_ok.mp h
  exact reachable_exec (.init h0) h1

theorem appends_exec (hrun : ∀ d, boot f = .ok d → ∀ ev ∈ evs, Appends d.dl ev)
    (h : (boot f >>= exec es) = .ok d) {rest : List Event} (he : evs = es ++ ev :: rest) :
    Appends d.dl ev := by
  obtain ⟨d₀, h0, h1⟩ := bind_eq_ok.mp h
  rw [exec_dl h1]
  exact hrun d₀ h0 ev (by rw [he]; simp)

theorem exists_exec_of_room (hrun : ∀ d, boot f = .ok d → ∀ ev ∈ evs, Appends d.dl ev)
    (hroom : ∀ es ev rest d, evs = es ++ ev :: rest → (boot f >>= exec es) = .ok d → RoomFor d ev)
    (hb : ∃ d, boot f = .ok d) (es rest : List Event) (he : evs = es ++ rest) :
    ∃ d, (boot f >>= exec es) = .ok d := by
  induction es using List.reverseRecOn generalizing rest with
  | nil =>
    obtain ⟨d, h⟩ := hb
    exact ⟨d, bind_eq_ok.mpr ⟨d, h, rfl⟩⟩
  | append_singleton es ev ih =>
    rw [List.append_assoc] at he
    obtain ⟨d, h⟩ := ih _ he
    obtain ⟨d₀, h0, h1⟩ := bind_eq_ok.mp h
    have r := reachable_boot_exec h
    have ha := appends_exec hrun h he
    obtain ⟨d', out, hact⟩ := (appends_iff (consistent_reachable r) ha).mpr (hroom es ev rest d he h)
    refine ⟨d', bind_eq_ok.mpr ⟨d₀, h0, ?_⟩⟩
    rw [exec_append, h1, ok_bind]
    exact bind_eq_ok.mpr ⟨_, hact, rfl⟩

end Runs

/-- **The tables are never overrun exactly when there is always room**: in a run of well-formed LSAs and
ADDFILEs from the loading of the files on, and in a single such pass from any reachable state. -/
theorem appends_inside (f : Files) (hl : ∀ p ∈ f.lines, FitsEntry p) :
    (∀ evs, (∀ d, boot f = .ok d → ∀ ev ∈ evs, Appends d.dl ev) →
      (RunInside f evs ↔ RoomThroughout f evs)) ∧
    ∀ d ev, (daemonSystem f).Reachable d → Appends d.dl ev → (AppendsInside d ev ↔ RoomFor d ev) := by
  refine ⟨fun evs hrun => ⟨?_, ?_⟩, fun d ev r h => appendsInside_iff r h⟩
  · rintro ⟨⟨d, hd, -⟩, hs⟩
    refine ⟨(boot_iff hl).mp ⟨d, hd⟩, fun es ev rest d' he h => ?_⟩
    obtain ⟨d'', h', hin⟩ := hs es ev rest he
    rw [h] at h'
    cases h'
    exact (appendsInside_iff (reachable_boot_exec h) (appends_exec hrun h he)).mp hin
  · rintro ⟨hf, hroom⟩
    have hb := (boot_iff hl).mpr hf
    refine ⟨?_, fun es ev rest he => ?_⟩
    · obtain ⟨d, hd⟩ := hb
      exact ⟨d, hd, bounded_of_consistent (consistent_reachable (.init hd))⟩
    · obtain ⟨d, h⟩ := exists_exec_of_room hrun hroom hb es _ he
      exact ⟨d, h, (appendsInside_iff (reachable_boot_exec h) (appends_exec hrun h he)).mpr
        (hroom es ev rest d he h)⟩

/-- A configuration that fills the table: node 0, and 149 neighbours. -/
def fullFiles : Files where
  rows := (List.range 150).map fun i => linkOn (.ofNat i) 66
  hostname := lit "h"
  lines := []
  filefile := []

/-- **The LSA of another node is written past the end of a full routing table.** -/
theorem exists_overrun : ∃ d ev, (daemonSystem fullFiles).Reachable d ∧ Appends d.dl ev ∧
    ¬ AppendsInside d ev := by
  have key : (boot fullFiles).map (fun d =>
      decide (rtRecvfrom d.dl (offerOf 200) = .ok (some (offerLsa 200, 1, 25))) &&
        decide (getRoutingEntry d.rt 200 = none) && decide (¬ d.rt.numEntry < maxNodes)) = .ok true := by
    decide +kernel
  obtain ⟨d, h0, hp⟩ := exists_of_map_eq_ok key
  simp only [Bool.and_eq_true, decide_eq_true_eq] at hp
  obtain ⟨⟨recv, hnew⟩, hfull⟩ := hp
  have hf : filtered d.rt (getRoutingEntry d.rt 200) typeLsa 1 = false := by rw [hnew]; rfl
  have ha : Appends d.dl (.datagram (offerOf 200) zeros) := .lsa (wellFormed_offerOf recv)
  refine ⟨d, _, .init h0, ha, fun hin => ?_⟩
  rcases ((appendsInside_iff (.init h0) ha).mp hin _ (announcement_offerOf recv) hf).1 with h | h
  · exact h hnew
  · exact hfull h

theorem appends_inside_offer : ∃ d, (daemonSystem forkFiles).Reachable d ∧
    AppendsInside d (.datagram (offerOf 9) zeros) := by
  have key : (boot forkFiles).map (fun d =>
      decide (rtRecvfrom d.dl (offerOf 9) = .ok (some (offerLsa 9, 2, 25))) &&
        decide (d.rt.numEntry < maxNodes) && decide (d.gol.numObjs = 0)) = .ok true := by
    decide +kernel
  obtain ⟨d, h0, hp⟩ := exists_of_map_eq_ok key
  simp only [Bool.and_eq_true, decide_eq_true_eq] at hp
  obtain ⟨⟨recv, hroom⟩, hnum⟩ := hp
  obtain ⟨-, hpass⟩ := appends_inside forkFiles (by simp [forkFiles])
  refine ⟨d, .init h0, (hpass d _ (.init h0) (.lsa (wellFormed_offerOf recv))).mpr ?_⟩
  intro a ha _
  rw [announcement_offerOf recv] at ha
  cases ha
  refine ⟨.inr hroom, ?_⟩
  have hcard : (newNames d.gol [cstr [111]]).card ≤ 1 :=
    (Finset.card_filter_le _ _).trans (List.toFinset_card_le _)
  rw [hnum]
  exact le_trans (by simpa using hcard) (by decide)

end RoutingDaemon
