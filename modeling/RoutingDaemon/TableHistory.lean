import RoutingDaemon.HeapSafety
import RoutingDaemon.AckWait
import RoutingDaemon.TablesAsMaps

/-!
# The object table of a daemon, from its history

* `passOps`: the operations on the object table that a pass of the event loop makes, read off the datagram,
  the objects that are added and the effects. `loggedSystem`: the runs of a daemon with all of them.
* `foldlM_ticks`, `foldlM_heard`, `foldlM_request`: a pass makes just these; `execOps_logged`: so does a run.
* `table_from_history`: what the object table of a daemon holds after any run, on lists and in memory.
-/

namespace RoutingDaemon

/-- A node that is declared down is removed. -/
def removals (out : List Effect) : List Op :=
  out.filterMap fun
    | .giveUp nodeId => some (.removeNode nodeId)
    | .expire nodeId => some (.removeNode nodeId)
    | _ => none

/-- A node announces the names, which all fit a key. -/
def announcements (nodeId : Int32) (cost : ℤ) (names : List CString) : List Op :=
  names.filterMap fun s => if h : strlen s < maxobjname then some (.add ⟨s, h⟩ nodeId cost) else none

/-- An accepted LSA announces its names. -/
def heardOps (dl : DirectLinks) (r : Received) (out : List Effect) : List Op :=
  match rtRecvfrom dl r with
  | .ok (some (lsa, _, _)) =>
    if .accept lsa.senderNodeId lsa.sequenceNum ∈ out then
      match objectNames (acceptedLsa lsa) with
      | .ok names => announcements lsa.senderNodeId (lsaCost (acceptedLsa lsa)) names
      | .error _ => []
    else []
  | _ => []

/-- A local object is announced at no cost. -/
def ownOps (myNodeId : Int32) (objects : List ObjectEntry) : List Op :=
  objects.map fun o => .add o.name myNodeId 0

/-- The operations on the object table in a pass. -/
def passOps (d d' : Daemon) : Event × List Effect → List Op
  | (.timeout _, out) => removals out
  | (.datagram r _, out) => heardOps d.dl r out
  | (.request _ _ _, _) => ownOps d.myNodeId (d'.ol.objects.drop d.ol.numObjects)

/-- The runs of a daemon with the operations on its object table. -/
def loggedSystem (f : Files) : System (Daemon × List Op) (Event × List Effect) where
  init s := boot f = .ok s.1 ∧ s.2 = ownOps s.1.myNodeId s.1.ol.objects
  step s l s' := act l.1 s.1 = .ok (s'.1, l.2) ∧ s'.2 = s.2 ++ passOps s.1 s'.1 l

theorem exists_logged {f : Files} {ls : List (Event × List Effect)} {d : Daemon}
    (r : (daemonSystem f).Run ls d) : ∃ ops, (loggedSystem f).Run ls (d, ops) := by
  induction r with
  | @init d h => exact ⟨ownOps d.myNodeId d.ol.objects, .init ⟨h, rfl⟩⟩
  | @step ls d d' l r h ih =>
    obtain ⟨ops, ih⟩ := ih
    exact ⟨ops ++ passOps d d' l, ih.step ⟨h, rfl⟩⟩

section Passes

variable {sfh : CString → UInt32} {g g' : LisoHash} {d d' : Daemon} {out : List Effect}

/-! ### A timeout -/

theorem removals_append (out out' : List Effect) : removals (out ++ out') = removals out ++ removals out' :=
  List.filterMap_append

theorem foldlM_tick (h : Tick d out d') :
    (removals out).foldlM (applyOp superFastHash) d.gol = .ok d'.gol := by
  cases h <;> rfl

theorem foldlM_ticks (h : Trail Tick d out d') :
    (removals out).foldlM (applyOp superFastHash) d.gol = .ok d'.gol := by
  induction h with
  | refl => rfl
  | tail _ ht ih =>
    rw [removals_append, List.foldlM_append, ih, ok_bind]
    exact foldlM_tick ht

/-! ### A datagram -/

theorem fits_of_hashAdd {s : CString} {n : Int32} {c : ℤ} (hc : Consistent sfh g)
    (h : hashAdd sfh g s n c = .ok g') : strlen s < maxobjname := by
  unfold hashAdd at h
  cases hobj : containsObject sfh g s with
  | some dom =>
    rw [containsObject_eq hc, pairOf] at hobj
    obtain ⟨rfl, -⟩ := hc.placed.lookup_eq_some_iff.mp hobj
    exact dom.objName.2
  | none =>
    rw [hobj] at h
    obtain ⟨name, hname, -⟩ := bind_eq_ok.mp h
    rw [← strcpy_eq_ok.mp hname]
    exact name.2

theorem foldlM_announcements {n : Int32} {c : ℤ} {names : List CString} (hc : Consistent sfh g)
    (h : names.foldlM (fun g s => hashAdd sfh g s n c) g = .ok g') :
    (announcements n c names).foldlM (applyOp sfh) g = .ok g' := by
  induction names generalizing g with
  | nil => exact h
  | cons s names ih =>
    obtain ⟨g₁, h1, h⟩ := bind_eq_ok.mp h
    have hs := fits_of_hashAdd hc h1
    have hcons : announcements n c (s :: names) = .add ⟨s, hs⟩ n c :: announcements n c names := by
      rw [announcements, List.filterMap_cons, dif_pos hs]
      rfl
    rw [hcons, List.foldlM_cons]
    exact bind_eq_ok.mpr ⟨g₁, h1, ih (hashAdd_spec hc h1).1 h⟩

theorem foldlM_heard {r : Received} {fresh : Fresh} (hc : Consistent superFastHash d.gol)
    (h : act (.datagram r fresh) d = .ok (d', out)) :
    (heardOps d.dl r out).foldlM (applyOp superFastHash) d.gol = .ok d'.gol := by
  obtain ⟨lsa, f, size, recv, hh⟩ := receive_handled h
  unfold heardOps
  rw [recv]
  cases hh with
  | ignored why => rfl
  | accepted type newer link update objects =>
    obtain ⟨names, hn, hadd⟩ := storeNodeObjects_iff.mp objects
    dsimp only
    rw [if_pos (List.mem_cons_of_mem _ (List.mem_singleton_self _)), hn]
    exact foldlM_announcements hc hadd
  | credited type current update => rfl

/-! ### Local objects -/

theorem foldlM_request {c : TcpConnection} {uri : List UInt8} {opened : Bool}
    (h : act (.request c uri opened) d = .ok (d', out)) :
    (ownOps d.myNodeId (d'.ol.objects.drop d.ol.numObjects)).foldlM (applyOp superFastHash) d.gol =
      .ok d'.gol := by
  obtain ⟨-, rfl | ⟨o, ha⟩⟩ := request_added h
  · rw [LocalObjects.numObjects, List.drop_length]
    rfl
  · rw [ha.ol, LocalObjects.numObjects, List.drop_left]
    exact bind_eq_ok.mpr ⟨d'.gol, ha.gol, rfl⟩

theorem foldlM_loaded {id : Int32} {lines : List (CString × CString)} {ol ol' : LocalObjects}
    (h : loadNodeFile id lines ol g = .ok (ol', g')) : ∃ objects, ol'.objects = ol.objects ++ objects ∧
      (ownOps id objects).foldlM (applyOp superFastHash) g = .ok g' := by
  induction lines generalizing ol g with
  | nil =>
    cases h
    exact ⟨[], (List.append_nil _).symm, rfl⟩
  | cons p lines ih =>
    obtain ⟨o, ol₁, g₁, hname, -, hpush, hadd, h⟩ := loadNodeFile_cons_eq_ok.mp h
    obtain ⟨objects, hol, hfold⟩ := ih h
    refine ⟨o :: objects, ?_, bind_eq_ok.mpr ⟨g₁, ?_, hfold⟩⟩
    · rw [hol, push_objects hpush, List.append_assoc]
      rfl
    · rw [← hname] at hadd
      exact hadd

end Passes

/-! ### Runs -/

section Runs

variable {f : Files} {ls : List (Event × List Effect)} {d : Daemon} {ops : List Op}

theorem execOps_append (sfh : CString → UInt32) (ops ops' : List Op) :
    execOps sfh (ops ++ ops') = execOps sfh ops >>= fun h => ops'.foldlM (applyOp sfh) h :=
  List.foldlM_append

/-- **The object table of a daemon is that of its history.** -/
theorem execOps_logged (r : (loggedSystem f).Run ls (d, ops)) : execOps superFastHash ops = .ok d.gol := by
  refine r.invariant (I := fun s => execOps superFastHash s.2 = .ok s.1.gol) ?_ ?_
  · rintro ⟨d, ops⟩ ⟨hb, hops⟩
    obtain ⟨-, -, -, -, -, hload⟩ := boot_eq_ok hb
    obtain ⟨objects, hol, hfold⟩ := foldlM_loaded hload
    rw [hops, show d.ol.objects = objects from hol]
    exact hfold
  · rintro ⟨d, ops⟩ ⟨ev, out⟩ ⟨d', ops'⟩ hi ⟨ha, hops⟩
    dsimp only at hi ha hops ⊢
    rw [hops, execOps_append, hi, ok_bind]
    cases ev with
    | timeout fresh => exact foldlM_ticks (timeout_trail ha)
    | datagram r fresh => exact foldlM_heard (execOps_tracks hi).1.consistent ha
    | request c uri opened => exact foldlM_request ha

theorem execCalls_op (sfh : CString → UInt32) (ops : List Op) :
    execCalls sfh (ops.map .op) = execOps sfh ops := by
  rw [execCalls, List.foldlM_map]
  rfl

/-- **What the object table of a daemon holds.** After any run a lookup finds the earliest of the cheapest
announcements made since the path was last emptied. In memory the same calls use no memory that is not
theirs and build a table that stands for this one, with a pair for every known name; `collapse` frees it. -/
theorem table_from_history {t : Heap.LisoHash} (A : Allocator) (hu : Heap.Unused t)
    (r : (daemonSystem f).Run ls d) : ∃ ops, (loggedSystem f).Run ls (d, ops) ∧
      (∀ s, getPaths superFastHash d.gol s = nearest Path.cost (offers s ops)) ∧
      ∃ t', Heap.execCalls A superFastHash t (ops.map .op) = .ok t' ∧ Heap.StandsFor superFastHash t' d.gol ∧
        t'.pairs.live.card = (known ops).length ∧
        ∃ ret t'', Heap.collapse t' = .ok (ret, t'') ∧ Heap.Unused t'' := by
  obtain ⟨ops, logged⟩ := exists_logged r
  have e := execOps_logged logged
  have calls : execCalls superFastHash (ops.map .op) = .ok d.gol := (execCalls_op _ _).trans e
  have c := execCalls_chained calls
  have count : d.gol.numObjs = (known ops).length := (execOps_tracks e).1.count
  have run := Heap.lockstep_foldlM A superFastHash (ops.map .op) (Heap.represents_initHash hu)
  rw [show (ops.map .op).foldlM (applyCall superFastHash) initHash = .ok d.gol from calls] at run
  refine ⟨ops, logged, getPaths_execOps e, ?_⟩
  generalize ht : (ops.map .op).foldlM (Heap.applyCall A superFastHash) (Heap.initHash t) = x at run
  cases run with
  | ok R =>
    obtain ⟨cells, R⟩ := R
    exact ⟨_, ht, R.standsFor, by rw [R.card_eq c, R.count, count], R.exists_collapse c⟩

/-- Node 2 announces an object. -/
def announcedRun : List Event :=
  [.datagram (.got (cstr [66]) (LSA.bytes ⟨newHeader typeLsa, 2, 0, 0, 1, [1, 0, 0, 0, 111]⟩)) zeros]

theorem table_from_history_announcedRun : ∃ d ops t',
    (daemonSystem forkFiles).Reachable d ∧ execOps superFastHash ops = .ok d.gol ∧
      nearest Path.cost (offers objectO.1 ops) = some ⟨2, 2⟩ ∧
      Heap.execCalls Heap.above superFastHash Heap.noCells (ops.map .op) = .ok t' ∧
      ∃ ptr, Heap.getPaths superFastHash t' objectO.1 = .ok ptr ∧ ptr.map t'.path = some ⟨2, 2⟩ := by
  have key : (boot forkFiles >>= exec announcedRun).map (fun d =>
      decide (getPaths superFastHash d.gol objectO.1 = some ⟨2, 2⟩)) = .ok true := by decide +kernel
  obtain ⟨d, hd, hp⟩ := exists_of_map_eq_ok key
  obtain ⟨d₀, h0, h1⟩ := bind_eq_ok.mp hd
  obtain ⟨ls, r⟩ := reachable_exec (.init h0) h1
  have hp := of_decide_eq_true hp
  obtain ⟨ops, logged, hpaths, t', ht', stands, -⟩ := table_from_history Heap.above Heap.unused_noCells r
  obtain ⟨ptr, hptr, hmap⟩ := stands.path objectO.1
  exact ⟨d, ops, t', ⟨ls, r⟩, execOps_logged logged, by rw [← hpaths, hp], ht', ptr, hptr, by rw [hmap, hp]⟩

end Runs

end RoutingDaemon
