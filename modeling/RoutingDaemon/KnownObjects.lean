import RoutingDaemon.NextHop
import RoutingDaemon.RdgetReplies

/-!
# What ADDFILE and RDGET know

* `RequestFor`, `AnsweredWith`: the requests for a name, and what they are answered; `exists_iff`,
  `notFound_iff`: which lookup decides.
* `Agrees`: ADDFILE and RDGET agree on a name; `agrees_iff`: its path was not withdrawn.
* `Spares`: the condition on a pass; `agrees_act_iff`: it decides whether they still agree.
* `existence_agrees`: all runs; `exists_disagreeing`: a name that can be neither added nor found.
-/

namespace RoutingDaemon

/-! ### Two requests for a name -/

/-- A parsed request for the name. -/
structure RequestFor (method : String) (s : CString) (c : TcpConnection) : Prop where
  status : c.status = 200
  method : cstr c.method = lit method
  name : cstr c.name = s
  buffers : ConnectionOk c

/-- The request is answered so, if `uri` holds these bytes and `fopen` has this outcome. -/
def AnsweredWith (d : Daemon) (c : TcpConnection) (uri : List UInt8) (opened : Bool) (reply : List UInt8) :
    Prop :=
  ∃ d' c', buildResponse uri opened d c = .ok (d', c') ∧ c'.sent = reply

section Requests

variable {d : Daemon} {s : CString} {c : TcpConnection} {uri : List UInt8} {opened : Bool}

theorem answeredWith_iff (hc : ConnectionOk c) (hu : uri.length = bufSize) {reply : List UInt8} :
    AnsweredWith d c uri opened reply ↔ Replies uri opened d c reply := by
  constructor
  · rintro ⟨d', c', h, rfl⟩
    exact (buildResponse_replies hc.path hc.response hu h).1
  · exact exists_buildResponse_of_replies hc.path hc.response hu

/-- **ADDFILE is refused** exactly if `contains_object` finds the name. -/
theorem exists_iff (h : RequestFor "ADDFILE" s c) (hu : uri.length = bufSize) :
    AnsweredWith d c uri opened (ascii "ERROR 19 File already exists ") ↔
      containsObject superFastHash d.gol s ≠ none := by
  have hne : lit "RDGET" ≠ lit "ADDFILE" := by decide
  rw [answeredWith_iff h.buffers hu]
  constructor
  · generalize hr : ascii "ERROR 19 File already exists " = reply
    rintro (hs | ⟨-, hm, -, -⟩ | ⟨-, -, hk⟩ | - | ⟨-, -, hm⟩)
    · exact absurd h.status hs
    · exact absurd (hm.symm.trans h.method) hne
    · rwa [h.name] at hk
    · exact absurd hr (by decide)
    · exact absurd h.method hm
  · intro hk
    exact .listed h.status h.method (by rwa [h.name])

/-- **RDGET is answered NOTFOUND** exactly if `get_paths` finds nothing. -/
theorem notFound_iff (h : RequestFor "RDGET" s c) (hu : uri.length = bufSize) :
    AnsweredWith d c uri opened (ascii "NOTFOUND 0 ") ↔ getPaths superFastHash d.gol s = none := by
  have hne : lit "RDGET" ≠ lit "ADDFILE" := by decide
  rw [answeredWith_iff h.buffers hu]
  constructor
  · generalize hr : ascii "NOTFOUND 0 " = reply
    rintro (hs | ⟨-, -, ht, -⟩ | ⟨-, hm, -⟩ | ⟨-, hm, -⟩ | ⟨-, hm, -⟩)
    · exact absurd h.status hs
    · rename_i t
      cases hp : printedUri uri d (cstr c.name) t with
      | none =>
        -- only a target that is not found prints nothing
        cases t with
        | notFound => rwa [rdgetTarget_notFound, h.name] at ht
        | here => cases hp
        | via l => cases hp
      | some u =>
        rw [hp, rdgetReply, okUri] at hr
        exact absurd (congrArg List.head? hr) (by simp [ascii])
    · exact absurd (h.method.symm.trans hm) hne
    · exact absurd (h.method.symm.trans hm) hne
    · exact absurd h.method hm
  · intro hn
    have ht : rdgetTarget d (cstr c.name) = .ok .notFound := by rw [rdgetTarget_notFound, h.name, hn]
    exact .rdget h.status h.method ht (show (ascii "NOTFOUND 0 ").length < maxBuf by decide)

end Requests

/-! ### Agreement -/

/-- ADDFILE and RDGET agree on whether the object exists. -/
structure Agrees (d : Daemon) (s : CString) : Prop where
  lookups : containsObject superFastHash d.gol s ≠ none ↔ getPaths superFastHash d.gol s ≠ none
  requests : ∀ c q uri uri' opened opened', RequestFor "ADDFILE" s c → RequestFor "RDGET" s q →
    uri.length = bufSize → uri'.length = bufSize →
      (AnsweredWith d c uri opened (ascii "ERROR 19 File already exists ") ↔
        ¬ AnsweredWith d q uri' opened' (ascii "NOTFOUND 0 "))

/-- **They agree exactly if the name is not stored without a path.** -/
theorem agrees_iff {d : Daemon} (hc : Consistent superFastHash d.gol) {s : CString} :
    Agrees d s ↔ view superFastHash d.gol s ≠ some none := by
  have hlook : (containsObject superFastHash d.gol s ≠ none ↔ getPaths superFastHash d.gol s ≠ none) ↔
      view superFastHash d.gol s ≠ some none := by
    have hmap := containsObject_map hc s
    rw [getPaths_eq hc, ← hmap]
    cases containsObject superFastHash d.gol s with
    | none => simp
    | some q =>
      rw [Option.map_some, Option.join_some]
      simp
  constructor
  · exact fun h => hlook.mp h.lookups
  · intro h
    refine ⟨hlook.mpr h, fun c q uri uri' opened opened' hadd hget hu hu' => ?_⟩
    rw [exists_iff hadd hu, notFound_iff hget hu']
    exact hlook.mpr h

/-! ### One pass -/

/-- The pass does not declare the provider of the object down. -/
def Spares (s : CString) (d : Daemon) (l : Event × List Effect) : Prop :=
  ∀ p, getPaths superFastHash d.gol s = some p → ¬ Declared l.2 p.nodeId

section Passes

variable {d d' : Daemon} {s : CString} {out : List Effect}

theorem view_none_tick (hc : Consistent superFastHash d.gol) (h : Tick d out d') :
    view superFastHash d'.gol s = none ↔ view superFastHash d.gol s = none := by
  obtain ⟨-, -, hg | ⟨n, -, hg⟩⟩ := tick_objects h
  · rw [hg]
  · rw [hg, (hashRemoveNode_spec hc n).2, ObjMap.withdraw, Option.map_eq_none_iff]

theorem view_none_timeout (hc : Consistent superFastHash d.gol) (h : Trail Tick d out d') :
    view superFastHash d'.gol s = none ↔ view superFastHash d.gol s = none := by
  induction h with
  | refl => exact Iff.rfl
  | tail ht h1 ih => exact (view_none_tick (timeout_frame hc ht).2.1 h1).trans ih

/-- **A timeout leaves a name without a path** if it had none, or if its provider is declared down. -/
theorem pathless_timeout (hc : Consistent superFastHash d.gol) (h : Trail Tick d out d') :
    view superFastHash d'.gol s = some none ↔ view superFastHash d.gol s = some none ∨
      ∃ p, view superFastHash d.gol s = some (some p) ∧ Declared out p.nodeId := by
  obtain ⟨hf, -, -⟩ := timeout_frame hc h
  have hknown := view_none_timeout (s := s) hc h
  cases hv : view superFastHash d.gol s with
  | none => simp [hknown.mpr hv]
  | some o =>
    have hsome : view superFastHash d'.gol s ≠ none := fun h0 => by simp [hknown.mp h0] at hv
    obtain ⟨o', ho'⟩ := Option.ne_none_iff_exists'.mp hsome
    cases o with
    | none =>
      -- a timeout stores no path
      cases o' with
      | none => simp [ho']
      | some q => simp [((hf.path s q).mp ho').1] at hv
    | some p =>
      have hpath := hf.path s p
      rw [ho', hv] at hpath
      cases o' with
      | none => simp at hpath; simp [ho', hpath]
      | some q =>
        obtain ⟨hq, hnd⟩ := (hf.path s q).mp ho'
        rw [hv, Option.some.injEq, Option.some.injEq] at hq
        simp [ho', hq, hnd]

theorem pathless_announceAll {m : ObjMap} {names : List CString} {p : Path} (h : m s ≠ some none) :
    m.announceAll names p s ≠ some none := by
  rw [ObjMap.announceAll_apply]
  split_ifs
  · simp
  · exact h

/-- **A pass keeps ADDFILE and RDGET in agreement on a name exactly if it spares its provider.** -/
theorem agrees_act_iff {f : Files} {l : Event × List Effect} (r : (daemonSystem f).Reachable d)
    (ha : Agrees d s) (h : act l.1 d = .ok (d', l.2)) : Agrees d' s ↔ Spares s d l := by
  obtain ⟨ev, out⟩ := l
  have hc := consistent_reachable r
  have hc' := consistent_reachable (r.step (l := (ev, out)) h)
  rw [agrees_iff hc] at ha
  rw [agrees_iff hc']
  -- what declares no node down keeps them in agreement
  have keep : (∀ n, ¬ Declared out n) → view superFastHash d'.gol s ≠ some none →
      (view superFastHash d'.gol s ≠ some none ↔ Spares s d (ev, out)) :=
    fun hd hv => iff_of_true hv fun p _ => hd p.nodeId
  cases ev with
  | timeout fresh =>
    rw [ne_eq, pathless_timeout hc (timeout_trail h), Spares, getPaths_eq hc]
    simp only [Option.join_eq_some_iff]
    constructor
    · exact fun hn p hp hd => hn (.inr ⟨p, hp, hd⟩)
    · rintro hs (hv | ⟨p, hp, hd⟩)
      · exact ha hv
      · exact hs p hp hd
  | datagram rcv fresh =>
    obtain ⟨lsa, g, size, -, hh⟩ := receive_handled h
    have hd : ∀ n, ¬ Declared out n := by
      intro n hd
      cases hh <;> simp [Declared, rtSendto] at hd
    refine keep hd ?_
    obtain ⟨-, -, hg | ⟨-, hg⟩⟩ := handled_objects hh
    · rw [hg]
      exact ha
    · obtain ⟨-, names, -, hv⟩ := storeNodeObjects_view hc hg
      rw [hv]
      exact pathless_announceAll ha
  | request c uri opened =>
    obtain ⟨rfl, hd⟩ := request_added h
    refine keep (fun n hd => by simp [Declared] at hd) ?_
    obtain rfl | ⟨o, ho⟩ := hd
    · exact ha
    · have hv : view superFastHash d'.gol =
          (view superFastHash d.gol).announceAll [o.name.1] ⟨d.myNodeId, 0⟩ := (hashAdd_spec hc ho.gol).2
      rw [hv]
      exact pathless_announceAll ha

end Passes

theorem agrees_boot {f : Files} {d : Daemon} (h : boot f = .ok d) (s : CString) : Agrees d s := by
  rw [agrees_iff (consistent_reachable (.init h))]
  obtain ⟨-, -, -, -, -, hload⟩ := boot_eq_ok h
  refine (loadNodeFile_invariant (I := fun g => Consistent superFastHash g ∧
    view superFastHash g s ≠ some none) ?_ ⟨consistent_initHash, ?_⟩ hload).2
  · rintro g t g' ⟨hc, hg⟩ h1
    have hv : view superFastHash g' = (view superFastHash g).announceAll [t] ⟨d.myNodeId, 0⟩ :=
      (hashAdd_spec hc h1).2
    refine ⟨(hashAdd_spec hc h1).1, ?_⟩
    rw [hv]
    exact pathless_announceAll hg
  · rw [view_initHash]
    exact fun h0 => by cases h0

/-- **In every run whose passes spare the provider of a name, ADDFILE and RDGET agree on it**, and a pass
that declares it down makes them differ. -/
theorem existence_agrees (f : Files) (s : CString) :
    (∀ d, ((daemonSystem f).restrict (Spares s)).Reachable d → Agrees d s) ∧
      ∀ d l d', (daemonSystem f).Reachable d → Agrees d s → (daemonSystem f).step d l d' →
        (Agrees d' s ↔ Spares s d l) := by
  constructor
  · intro d r
    have key := r.invariant (I := fun d => (daemonSystem f).Reachable d ∧ Agrees d s)
      (fun d (h : boot f = .ok d) => ⟨.init h, agrees_boot h s⟩) ?_
    · exact key.2
    · rintro d l d' ⟨r, ha⟩ ⟨hs, h⟩
      exact ⟨r.step h, (agrees_act_iff r ha h).mpr hs⟩
  · exact fun d l d' r ha h => agrees_act_iff r ha h

/-- Node 2 announces the object `n`, acknowledges nothing and is given up. -/
def givenUpRun : List Event :=
  .datagram (.got (cstr [66]) rivalLsa.bytes) zeros :: List.replicate 12 (.timeout zeros)

/-- **After the provider was declared down, the object can be neither found nor added.** -/
theorem exists_disagreeing : ∃ d c q, (daemonSystem pairFiles).Reachable d ∧
    RequestFor "ADDFILE" (lit "n") c ∧ RequestFor "RDGET" (lit "n") q ∧ blankBuf.length = bufSize ∧
    AnsweredWith d c blankBuf true (ascii "ERROR 19 File already exists ") ∧
    AnsweredWith d q blankBuf true (ascii "NOTFOUND 0 ") ∧ ¬ Agrees d (lit "n") := by
  have key : (boot pairFiles >>= exec givenUpRun).map (fun d =>
      decide (containsObject superFastHash d.gol (lit "n") ≠ none) &&
        decide (getPaths superFastHash d.gol (lit "n") = none)) = .ok true := by decide +kernel
  obtain ⟨d, hd, hp⟩ := exists_of_map_eq_ok key
  simp only [Bool.and_eq_true, decide_eq_true_eq] at hp
  obtain ⟨d₀, h0, h⟩ := bind_eq_ok.mp hd
  obtain ⟨hknown, hnone⟩ := hp
  have hbuf : blankBuf.length = bufSize := List.length_replicate
  have asks : ∀ m ∈ ["ADDFILE", "RDGET"], RequestFor m (lit "n") (parsed m "") := by
    have hm : ∀ m ∈ ["ADDFILE", "RDGET"], cstr (parsed m "").method = lit m := by decide
    have hname : cstr ((lit "n").1 ++ blankBuf) = lit "n" := by decide
    have hpath : ((lit "").1 ++ blankBuf).length = maxBuf := by
      rw [show (lit "").1 = [] by decide]
      exact List.length_replicate
    exact fun m h => ⟨rfl, hm m h, hname, List.length_replicate, hpath, .inl cstr_blankBuf_eq⟩
  have hadd := asks "ADDFILE" List.mem_cons_self
  have hget := asks "RDGET" (List.mem_cons_of_mem _ List.mem_cons_self)
  refine ⟨d, _, _, reachable_exec (.init h0) h, hadd, hget, hbuf, (exists_iff hadd hbuf).mpr hknown,
    (notFound_iff hget hbuf).mpr hnone, ?_⟩
  intro ha
  exact ha.lookups.mp hknown hnone

end RoutingDaemon
