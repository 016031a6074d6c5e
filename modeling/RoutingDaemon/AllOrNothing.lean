import RoutingDaemon.RequestReplies
import RoutingDaemon.TableLimits

/-!
# ADDFILE is not all or nothing

* `Done`, `Refused`: the two ways in which an ADDFILE may end.
* `addable_iff`: a new object is added exactly if the files file opens and the tables have room.
* `all_or_nothing_iff`: otherwise the daemon stops in the middle, with the object in its tables and
  neither a reply nor a line in the files file.
-/

namespace RoutingDaemon

/-- The object is added everywhere. -/
structure Done (d : Daemon) (c : TcpConnection) (d' : Daemon) (reply : List UInt8) : Prop where
  reply : reply = ascii "OK 0 "
  path : getPaths superFastHash d'.gol (cstr c.name) = some ⟨d.myNodeId, 0⟩
  stored : ∃ o : ObjectEntry, o.name.1 = cstr c.name ∧ o.path.1 = cstr c.path ∧
    d'.ol.objects = d.ol.objects ++ [o] ∧ d'.filefile = d.filefile ++ fileLine o

/-- The object is added nowhere. -/
structure Refused (d d' : Daemon) (reply : List UInt8) : Prop where
  reply : ascii "ERROR " <+: reply
  gol : d'.gol = d.gol
  ol : d'.ol = d.ol
  filefile : d'.filefile = d.filefile

/-- The parsed ADDFILE on connection `i` is done, or refused. -/
def AllOrNothing (e : Engine) (i : ℕ) (data uri : List UInt8) (opened : Bool) (c : TcpConnection) : Prop :=
  ∃ e' ret, flaskRequestHandler i (.got data) uri opened e = .ok (e', ret) ∧
    (Done e.daemon c e'.daemon (e'.connections i).sent ∨
      Refused e.daemon e'.daemon (e'.connections i).sent)

/-- A new object can be added: `fopen` succeeds, and both tables of objects have room. -/
structure RoomToAdd (opened : Bool) (d : Daemon) : Prop where
  opened : opened = true
  gol : d.gol.numObjs < maxobjnum
  ol : d.ol.numObjects < maxObjNum

section Branches

variable {d d' : Daemon} {c c' : TcpConnection} {opened : Bool}

/-- **A new object is added exactly if there is room and the files file opens.** -/
theorem addable_iff {name path : CString} (hn : containsObject superFastHash d.gol name = none)
    (hname : strlen name < maxObjLen) (hpath : strlen path < maxPathLen) :
    Addable opened d name path ↔ RoomToAdd opened d := by
  constructor
  · intro h
    exact ⟨h.opened, (hashAdd_new_iff hn hname).mp h.gol, h.room⟩
  · intro h
    exact ⟨hn, (hashAdd_new_iff hn hname).mpr h.gol, hname, hpath, h.ol, h.opened⟩

/-- If `fopen` fails, `fprintf` gets its NULL, after the object was stored in both tables. -/
theorem addfile_unopened (h : Addable true d (cstr c.name) (cstr c.path)) :
    addfile false d c = .error .badPointer := by
  obtain ⟨_, hsteps⟩ := addfile_steps h false
  exact hsteps

theorem Added.getPaths {o : ObjectEntry} (hc : Consistent superFastHash d.gol) (h : Added d o d') :
    RoutingDaemon.getPaths superFastHash d'.gol o.name.1 = some ⟨d.myNodeId, 0⟩ := by
  obtain ⟨hc', hv⟩ := hashAdd_spec hc h.gol
  have hnew : view superFastHash d.gol o.name.1 = none := by
    rw [← containsObject_map hc, h.new]
    rfl
  rw [getPaths_eq hc', hv, ObjMap.announce_self, hnew]
  rfl

/-- **What the ADDFILE branch returns is all or nothing.** -/
theorem addfile_done_or_refused (hc : Consistent superFastHash d.gol)
    (h : addfile opened d c = .ok (d', c')) :
    Done d c d' (cstr c'.response).1 ∨ Refused d d' (cstr c'.response).1 := by
  rcases addfile_eq_ok h with ⟨rfl, -, hr⟩ | ⟨⟨o, ha, hname, hpath⟩, hr⟩
  · obtain ⟨-, -, -, text⟩ := respond_eq_ok hr
    refine .inr ⟨?_, rfl, rfl, rfl⟩
    rw [text (by decide)]
    decide
  · obtain ⟨-, -, -, text⟩ := respond_eq_ok hr
    refine .inl ⟨text (by decide), hname ▸ ha.getPaths hc, o, hname, hpath, ha.ol, ?_⟩
    rw [ha.rest]

end Branches

/-- **An ADDFILE is all or nothing exactly if the name is known already, or the files file opens and both
tables of objects have room.** -/
theorem all_or_nothing_iff {f : Files} {e : Engine} (r : (connectionSystem f).Reachable e) {i : ℕ}
    {data : List UInt8} {c : TcpConnection} (hp : Parses e i data c) (hs : c.status = 200)
    (hm : cstr c.method = lit "ADDFILE") (hname : strlen (cstr c.name) < maxObjLen)
    (uri : List UInt8) (opened : Bool) :
    AllOrNothing e i data uri opened c ↔
      (containsObject superFastHash e.daemon.gol (cstr c.name) = none → RoomToAdd opened e.daemon) := by
  have hc := hp.connectionOk (connectionsOk_reachable r)
  have hcons := consistent_reachable (daemon_reachable r)
  have hpath := hc.path_lt
  constructor
  · rintro ⟨e', ret, h, -⟩ hn
    obtain ⟨-, d', c', hb, -⟩ := hp.handler_iff.mp h
    obtain ⟨x, hx, -⟩ := bind_eq_ok.mp hb
    rw [dispatch_addfile hs hm] at hx
    exact (addable_iff hn hname hpath).mp (addable_of_addfile hn hx)
  · intro h
    obtain ⟨⟨d', c'⟩, hx⟩ : ∃ x, addfile opened e.daemon c = .ok x := by
      cases hk : containsObject superFastHash e.daemon.gol (cstr c.name) with
      | some p =>
        obtain ⟨c', hr⟩ := exists_respond 500 (s := ascii "ERROR 19 File already exists ") (c := c)
          (by rw [hc.response]; decide)
        refine ⟨(e.daemon, c'), ?_⟩
        rw [addfile, hk]
        exact bind_eq_ok.mpr ⟨c', hr, rfl⟩
      | none =>
        obtain ⟨c', hr⟩ := exists_respond 200 (s := ascii "OK 0 ") (c := c) (by rw [hc.response]; decide)
        obtain ⟨d', hd⟩ := addfile_new ((addable_iff hk hname hpath).mpr (h hk))
        rw [hr] at hd
        exact ⟨(d', c'), hd⟩
    have hdispatch : dispatch uri opened e.daemon c = .ok (d', c') := (dispatch_addfile hs hm).trans hx
    have hb := buildResponse_of_dispatch hdispatch
    refine ⟨_, 1, hp.handler_iff.mpr ⟨rfl, d', _, hb, rfl⟩, ?_⟩
    have hdone := addfile_done_or_refused hcons hx
    simp only [setConnection_self]
    rw [sent_buildResponse hb]
    exact hdone

theorem firstRequest_addfile : ∃ d c, firstRequest (ascii "ADDFILE 1 a 1 b") = .ok (d, c) ∧ c.status = 200 ∧
    cstr c.method = lit "ADDFILE" ∧ strlen (cstr c.name) < maxObjLen ∧ strlen (cstr c.path) < maxPathLen ∧
      containsObject superFastHash d.gol (cstr c.name) = none ∧ RoomToAdd true d := by
  have key : (firstRequest (ascii "ADDFILE 1 a 1 b")).map (fun p => decide (p.2.status = 200) &&
      decide (cstr p.2.method = lit "ADDFILE") && decide (strlen (cstr p.2.name) < maxObjLen) &&
      decide (strlen (cstr p.2.path) < maxPathLen) &&
      decide (containsObject superFastHash p.1.gol (cstr p.2.name) = none) &&
      decide (p.1.gol.numObjs < maxobjnum) && decide (p.1.ol.numObjects < maxObjNum)) = .ok true := by
    decide +kernel
  obtain ⟨⟨d, c⟩, h, hk⟩ := exists_of_map_eq_ok key
  simp only [Bool.and_eq_true, decide_eq_true_eq] at hk
  obtain ⟨⟨⟨⟨⟨⟨hs, hm⟩, hn⟩, hpath⟩, hnew⟩, hg⟩, ho⟩ := hk
  exact ⟨d, c, h, hs, hm, hn, hpath, hnew, rfl, hg, ho⟩

theorem all_or_nothing_iff_first : ∃ e c, Parses e 0 (ascii "ADDFILE 1 a 1 b") c ∧
    AllOrNothing e 0 (ascii "ADDFILE 1 a 1 b") blankBuf true c := by
  obtain ⟨d, c, h, hs, hm, hn, -, -, room⟩ := firstRequest_addfile
  obtain ⟨r, hp⟩ := firstRequest_eq_ok (by decide) (by decide) h
  exact ⟨_, c, hp, (all_or_nothing_iff r hp hs hm hn blankBuf true).mpr fun _ => room⟩

/-- **If the files file does not open, the daemon crashes in the middle of an ADDFILE.** -/
theorem exists_half_added : ∃ e c, (connectionSystem loneFiles).Reachable e ∧ 0 ∈ e.clients ∧
    Parses e 0 (ascii "ADDFILE 1 a 1 b") c ∧ c.status = 200 ∧ cstr c.method = lit "ADDFILE" ∧
    strlen (cstr c.name) < maxObjLen ∧ strlen (cstr c.path) < maxPathLen ∧
    flaskRequestHandler 0 (.got (ascii "ADDFILE 1 a 1 b")) blankBuf false e =
      .error (.fault .badPointer) ∧
    ¬ AllOrNothing e 0 (ascii "ADDFILE 1 a 1 b") blankBuf false c := by
  obtain ⟨d, c, h, hs, hm, hn, hpath, hnew, room⟩ := firstRequest_addfile
  obtain ⟨r, hp⟩ := firstRequest_eq_ok (by decide) (by decide) h
  have hfault : flaskRequestHandler 0 (.got (ascii "ADDFILE 1 a 1 b")) blankBuf false
      ((createEngine 3 4 d).register 0) = .error (.fault .badPointer) := by
    have hb : buildResponse blankBuf false d c = .error .badPointer := by
      rw [buildResponse, dispatch_addfile hs hm,
        addfile_unopened ((addable_iff hnew hn hpath).mpr room)]
      rfl
    rw [hp.handler_eq, Engine.answer]
    exact congrArg (fun x => guarded x >>= _) hb
  refine ⟨_, c, r, Finset.mem_insert_self _ _, hp, hs, hm, hn, hpath, hfault, ?_⟩
  rintro ⟨e', ret, h', -⟩
  rw [hfault] at h'
  cases h'

end RoutingDaemon
