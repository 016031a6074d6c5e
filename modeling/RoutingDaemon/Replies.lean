import RoutingDaemon.NextHop
import RoutingDaemon.SpaceFree

/-!
# What the web server reads of a reply

* `responsewords`: the words of a reply; `rdGetrd`: the three that `rd_getrd` indexes.
* `targetUri`: the URI that a reply is about; `ReadBack`: the web server reads it back; `reply_read`.
* `OwnListed`: the own node provides local objects only; `ownListed_reachable`: without restarts, if
  the node ids are distinct.
* `replies_read`: every reply in every reachable state.
-/

namespace RoutingDaemon

/-! ### `rd_getrd` -/

/-- `responsewords` -/
def responsewords (rdresponse : List UInt8) : List (List UInt8) := rdresponse.splitOn 32

/-- `status`, `url_len` and `url` -/
structure ReplyWords where
  status : List UInt8
  urlLen : List UInt8
  url : List UInt8

/-- The words that `rd_getrd` indexes; `none` is its `IndexError`. -/
def rdGetrd (rdresponse : List UInt8) : Option ReplyWords := do
  let words := responsewords rdresponse
  let status ← words[0]?
  let urlLen ← words[1]?
  let url ← words[2]?
  return ⟨status, urlLen, url⟩

/-- What `flask_response_handler` sends. -/
def TcpConnection.sent (c : TcpConnection) : List UInt8 := c.response.take c.responseIndex.toNat

theorem responsewords_okUri {u : List UInt8} (h : 32 ∉ u) :
    responsewords (okUri u) = [ascii "OK", decimal u.length, u, []] := by
  have hwords : okUri u = List.intercalate [32] [ascii "OK", decimal u.length, u, []] := by
    simp [okUri, ascii, List.intercalate]
  rw [responsewords, hwords]
  refine List.splitOn_intercalate _ ?_ (List.cons_ne_nil _ _)
  simp only [List.mem_cons, List.not_mem_nil, or_false]
  rintro w (rfl | rfl | rfl | rfl)
  · decide
  · exact space_notMem_decimal _
  · exact h
  · exact List.not_mem_nil

theorem rdGetrd_okUri {u : List UInt8} (h : 32 ∉ u) :
    rdGetrd (okUri u) = some ⟨ascii "OK", decimal u.length, u⟩ := by
  rw [rdGetrd, responsewords_okUri h]
  rfl

theorem rdGetrd_notFound :
    rdGetrd (ascii "NOTFOUND 0 ") = some ⟨ascii "NOTFOUND", ascii "0", []⟩ := by
  have hwords : ascii "NOTFOUND 0 " = List.intercalate [32] [ascii "NOTFOUND", ascii "0", []] := by
    decide
  have hsplit : responsewords (ascii "NOTFOUND 0 ") = [ascii "NOTFOUND", ascii "0", []] := by
    rw [responsewords, hwords]
    exact List.splitOn_intercalate _ (by decide) (List.cons_ne_nil _ _)
  rw [rdGetrd, hsplit]
  rfl

/-! ### The reply to an RDGET -/

/-- The URI that answers an RDGET. -/
def targetUri (d : Daemon) (name : CString) : Target → Option (List UInt8)
  | .notFound => none
  | .here => (d.ol.objects.find? fun o => o.name.1 = name).map fun o => d.myUri.1 ++ o.path.1.1
  | .via l => some (ascii "http://" ++ l.host.1.1 ++ ascii ":" ++ decimal l.serverP.toInt ++
      ascii "/static/f/" ++ name.1)

/-- Every object that is served here has a local path, which is not empty. -/
def LocalPaths (d : Daemon) : Prop := ∀ name, rdgetTarget d name = .ok .here →
  ∃ o, d.ol.objects.find? (fun o => o.name.1 = name) = some o ∧ o.path.1 ≠ lit ""

/-- The reply to an RDGET, as the web server reads it. -/
inductive ReadBack (d : Daemon) (name : CString) (rdresponse : List UInt8) : Prop
  | notFound (target : rdgetTarget d name = .ok .notFound)
      (words : rdGetrd rdresponse = some ⟨ascii "NOTFOUND", ascii "0", []⟩)
  | found {t : Target} {u : List UInt8} (target : rdgetTarget d name = .ok t)
      (uri : targetUri d name t = some u) (reply : rdresponse = okUri u)
      (words : rdGetrd rdresponse = some ⟨ascii "OK", decimal u.length, u⟩)

section Reply

variable {d d' : Daemon} {c c' : TcpConnection} {uri : List UInt8} {opened : Bool}

theorem sent_buildResponse (h : buildResponse uri opened d c = .ok (d', c')) :
    c'.sent = (cstr c'.response).1 := by
  obtain ⟨⟨d₁, c₁⟩, -, h⟩ := bind_eq_ok.mp h
  cases h
  exact (List.prefix_iff_eq_take.mp (List.takeWhile_prefix _)).symm

theorem buildResponse_rdget (hst : c.status = 200) (hm : cstr c.method = lit "RDGET") :
    buildResponse uri opened d c = (rdget uri d c).map fun c' =>
      (d, { c' with responseIndex := strlen (cstr c'.response) }) := by
  simp only [buildResponse, dispatch, hst, ne_eq, not_true_eq_false, if_false, hm, if_true]
  cases rdget uri d c <;> rfl

theorem known_of_target (hd : Spaceless d) {name : CString} {t : Target}
    (h : rdgetTarget d name = .ok t) (ht : t ≠ .notFound) : 32 ∉ name.1 := by
  refine hd.objects.known name fun hv => ht ?_
  rw [rdgetTarget, getPaths_eq hd.objects.consistent, hv] at h
  cases h
  rfl

theorem readBack_okUri {name : CString} {t : Target} {u : List UInt8}
    (ht : rdgetTarget d name = .ok t) (hu : targetUri d name t = some u) (h0 : 0 ∉ u) (hs : 32 ∉ u)
    (h : c.respond 200 (okUri u) = .ok c') : ReadBack d name (cstr c'.response).1 := by
  obtain ⟨b, hb, h⟩ := bind_eq_ok.mp h
  cases h
  have hreply : (cstr b).1 = okUri u := cstr_store hb (okUri_zero h0)
  exact .found ht hu hreply (hreply ▸ rdGetrd_okUri hs)

theorem notMem_viaUri {l : LinkEntry} {name : CString} {u : List UInt8} {b : UInt8}
    (hu : targetUri d name (.via l) = some u) (hhost : b ∉ l.host.1.1) (hname : b ∉ name.1)
    (hport : b ∉ decimal l.serverP.toInt) (hascii : b = 0 ∨ b = 32) : b ∉ u := by
  obtain rfl := Option.some.inj hu
  have htext : b ∉ ascii "http://" ∧ b ∉ ascii ":" ∧ b ∉ ascii "/static/f/" := by
    rcases hascii with rfl | rfl <;> decide
  simp only [List.mem_append, not_or]
  exact ⟨⟨⟨⟨⟨htext.1, hhost⟩, htext.2.1⟩, hport⟩, htext.2.2⟩, hname⟩

/-- **What `rdget` answers is read as meant.** -/
theorem rdget_read (hd : Spaceless d) (hl : LocalPaths d) (h : rdget uri d c = .ok c') :
    ReadBack d (cstr c.name) (cstr c'.response).1 := by
  obtain ⟨t, ht, h⟩ := bind_eq_ok.mp h
  cases t with
  | notFound =>
    obtain ⟨b, hb, h⟩ := bind_eq_ok.mp h
    cases h
    have hreply : (cstr b).1 = ascii "NOTFOUND 0 " := cstr_store hb (by decide)
    exact .notFound ht (hreply ▸ rdGetrd_notFound)
  | here =>
    obtain ⟨o, ho, hne⟩ := hl _ ht
    obtain ⟨c₁, h1, h⟩ := bind_eq_ok.mp h
    rw [getLocalFilePath, ho] at h1
    obtain ⟨path, hpath, h1⟩ := bind_eq_ok.mp h1
    cases h1
    have hcp : cstr path = o.path.1 := Subtype.ext (cstr_store hpath o.path.1.2)
    have hlen : strlen o.path.1 ≠ 0 := fun h0 =>
      hne (Subtype.ext ((List.length_eq_zero_iff.mp h0).trans rfl))
    simp only [hcp, if_neg hlen] at h
    obtain ⟨u, hu, h⟩ := bind_eq_ok.mp h
    have h0 : 0 ∉ d.myUri.1 ++ o.path.1.1 :=
      List.mem_append.not.mpr (not_or.mpr ⟨d.myUri.2, o.path.1.2⟩)
    have hspace : 32 ∉ d.myUri.1 ++ o.path.1.1 := List.mem_append.not.mpr
      (not_or.mpr ⟨hd.uri, (hd.objects.objects o (List.mem_of_find?_eq_some ho)).2⟩)
    rw [respondUri_eq (cstr_store hu h0)] at h
    exact readBack_okUri ht (by rw [targetUri, ho]; rfl) h0 hspace h
  | via l =>
    obtain ⟨n, g, -, hlink⟩ := (rdgetTarget_via hd.objects.consistent).mp ht
    have hhost := hd.hosts l (List.mem_of_find?_eq_some hlink)
    obtain ⟨u, hu, h⟩ := bind_eq_ok.mp h
    have h0 := notMem_viaUri (d := d) rfl l.host.1.2 (cstr c.name).2 (zero_notMem_decimal _) (.inl rfl)
    have hspace := notMem_viaUri (d := d) rfl hhost (known_of_target hd ht (by simp))
      (space_notMem_decimal _) (.inr rfl)
    rw [respondUri_eq (cstr_store hu h0)] at h
    exact readBack_okUri ht rfl h0 hspace h

/-- **The web server reads a reply to an RDGET as meant.** -/
theorem reply_read (hd : Spaceless d) (hl : LocalPaths d) (hst : c.status = 200)
    (hm : cstr c.method = lit "RDGET") (h : buildResponse uri opened d c = .ok (d', c')) :
    d' = d ∧ ReadBack d (cstr c.name) c'.sent := by
  rw [sent_buildResponse h]
  rw [buildResponse_rdget hst hm] at h
  obtain ⟨c₁, h1, h⟩ := exists_of_map_eq_ok h
  cases h
  have hread := rdget_read hd hl h1
  exact ⟨rfl, hread⟩

theorem store_error {buf s : List UInt8} {f : Fault} (h : store buf s = .error f) : f = .overflow := by
  unfold store at h
  split_ifs at h
  exact (Except.error.inj h).symm

theorem respond_error {status : ℤ} {s : List UInt8} {f : Fault} (h : c.respond status s = .error f) :
    f = .overflow := by
  rcases bind_eq_error.mp h with h | ⟨b, -, h⟩
  · exact store_error h
  · cases h

theorem rdget_error {t : Target} {f : Fault} (ht : rdgetTarget d (cstr c.name) = .ok t)
    (h : rdget uri d c = .error f) : f = .overflow := by
  rw [rdget, ht, ok_bind] at h
  cases t with
  | notFound => exact respond_error h
  | here =>
    rcases bind_eq_error.mp h with h | ⟨c₁, -, h⟩
    · unfold getLocalFilePath at h
      split at h
      · rcases bind_eq_error.mp h with h | ⟨b, -, h⟩
        · exact store_error h
        · cases h
      · cases h
    · split_ifs at h
      · rcases bind_eq_error.mp h with h | ⟨c₂, -, h⟩
        · exact respond_error h
        · exact respond_error h
      · rcases bind_eq_error.mp h with h | ⟨u, -, h⟩
        · exact store_error h
        · exact respond_error h
  | via l =>
    rcases bind_eq_error.mp h with h | ⟨u, -, h⟩
    · exact store_error h
    · exact respond_error h

theorem exists_buildResponse (hs : Sound d) (hst : c.status = 200) (hm : cstr c.method = lit "RDGET")
    (hroom : buildResponse uri opened d c ≠ .error .overflow) :
    ∃ c', buildResponse uri opened d c = .ok (d, c') := by
  obtain ⟨t, ht⟩ := rdgetTarget_ok hs (cstr c.name)
  rw [buildResponse_rdget hst hm] at hroom ⊢
  cases h : rdget uri d c with
  | ok c' => exact ⟨_, rfl⟩
  | error f =>
    rw [h, rdget_error ht h] at hroom
    exact absurd rfl hroom

end Reply

/-! ### Objects of the own node -/

/-- The objects that the own node provides are local objects. -/
structure OwnListed (d : Daemon) : Prop where
  consistent : Consistent superFastHash d.gol
  listed : ∀ s p, view superFastHash d.gol s = some (some p) → p.nodeId = d.myNodeId →
    ∃ o ∈ d.ol.objects, o.name.1 = s

section OwnListed

variable {d d' : Daemon} {out : List Effect}

theorem rdgetTarget_here (hc : Consistent superFastHash d.gol) {name : CString}
    (h : rdgetTarget d name = .ok .here) :
    ∃ p, view superFastHash d.gol name = some (some p) ∧ p.nodeId = d.myNodeId := by
  unfold rdgetTarget at h
  rw [getPaths_eq hc] at h
  cases hp : (view superFastHash d.gol name).join with
  | none =>
    rw [hp] at h
    cases h
  | some p =>
    rw [hp] at h
    dsimp only at h
    split_ifs at h with hid
    · exact ⟨p, Option.join_eq_some_iff.mp hp, hid⟩
    · obtain ⟨_, -, h⟩ := bind_eq_ok.mp h
      obtain ⟨_, -, h⟩ := bind_eq_ok.mp h
      obtain ⟨_, -, h⟩ := bind_eq_ok.mp h
      cases h

/-- **They have local paths, if every local object has one.** -/
theorem OwnListed.localPaths (h : OwnListed d) (hp : ∀ o ∈ d.ol.objects, o.path.1 ≠ lit "") :
    LocalPaths d := by
  intro name ht
  obtain ⟨p, hv, hid⟩ := rdgetTarget_here h.consistent ht
  obtain ⟨o, ho, hname⟩ := h.listed name p hv hid
  have hsome : (d.ol.objects.find? fun o => o.name.1 = name).isSome :=
    List.find?_isSome.mpr ⟨o, ho, by simpa using hname⟩
  obtain ⟨o', ho'⟩ := Option.isSome_iff_exists.mp hsome
  exact ⟨o', ho', hp o' (List.mem_of_find?_eq_some ho')⟩

theorem loadNodeFile_listed {id : Int32} {lines : List (CString × CString)} {ol ol' : LocalObjects}
    {gol gol' : LisoHash} (hc : Consistent superFastHash gol)
    (h0 : ∀ s, view superFastHash gol s ≠ none → ∃ o ∈ ol.objects, o.name.1 = s)
    (h : loadNodeFile id lines ol gol = .ok (ol', gol')) : Consistent superFastHash gol' ∧
      ∀ s, view superFastHash gol' s ≠ none → ∃ o ∈ ol'.objects, o.name.1 = s := by
  induction lines generalizing ol gol with
  | nil => cases h; exact ⟨hc, h0⟩
  | cons p lines ih =>
    obtain ⟨o, ol₁, gol₁, hn, -, hol, hadd, h⟩ := loadNodeFile_cons_eq_ok.mp h
    obtain ⟨hc₁, hv⟩ := hashAdd_spec hc hadd
    refine ih hc₁ (fun s hs => ?_) h
    rw [push_objects hol]
    rw [hv] at hs
    rcases ObjMap.announce_ne_none.mp hs with rfl | hs
    · exact ⟨o, List.mem_append_right _ (List.mem_singleton_self _), hn⟩
    · obtain ⟨o', ho', hname⟩ := h0 s hs
      exact ⟨o', List.mem_append_left _ ho', hname⟩

theorem ownListed_boot {f : Files} (h : boot f = .ok d) : OwnListed d := by
  have hnone : ∀ s, view superFastHash initHash s = none := fun s => by rw [view_initHash]; rfl
  obtain ⟨hc, hl⟩ := loadNodeFile_listed consistent_initHash
    (fun s hs => absurd (hnone s) hs) (boot_eq_ok h).2.2.2.2.2
  refine ⟨hc, fun s p hv _ => hl s ?_⟩
  rw [hv]
  exact Option.some_ne_none _

theorem OwnListed.tick (hd : OwnListed d) (h : Tick d out d') : OwnListed d' := by
  obtain ⟨hol, -, hg⟩ := tick_objects h
  have hid := (micro_static (.tick h)).2
  rcases hg with hg | ⟨n, -, hg⟩
  · exact ⟨hg ▸ hd.consistent, by rw [hg, hol, hid]; exact hd.listed⟩
  · refine ⟨hg ▸ (hashRemoveNode_spec hd.consistent n).1, fun s p hs hp => ?_⟩
    rw [hg] at hs
    obtain ⟨hs, -⟩ := (view_hashRemoveNode hd.consistent).mp hs
    rw [hol]
    exact hd.listed s p hs (hp.trans hid)

theorem OwnListed.handled (hd : OwnListed d) {fresh : Fresh} {lsa : LSA} {f : Int32} {size : ℕ}
    (h : Handled d fresh lsa f size out d')
    (hown : .accept d.myNodeId lsa.sequenceNum ∉ out) : OwnListed d' := by
  cases h with
  | ignored => exact hd
  | credited => exact ⟨hd.consistent, hd.listed⟩
  | accepted type newer link update objects =>
    have hne : lsa.senderNodeId ≠ d.myNodeId := by
      rintro he
      rw [he] at hown
      exact hown (List.mem_cons_of_mem _ (List.mem_singleton_self _))
    obtain ⟨hc, names, -, hv⟩ := storeNodeObjects_view hd.consistent objects
    refine ⟨hc, fun s p hs hp => ?_⟩
    dsimp only at hs hp ⊢
    rw [hv, ObjMap.announceAll_apply] at hs
    split_ifs at hs with hm
    · obtain rfl := Option.some.inj (Option.some.inj hs)
      rcases announcePath_cases (view superFastHash d.gol s)
        ⟨lsa.senderNodeId, lsaCost (acceptedLsa lsa)⟩ with hnew | hold
      · rw [show (acceptedLsa lsa).senderNodeId = lsa.senderNodeId from rfl, hnew] at hp
        exact absurd hp hne
      · exact hd.listed s _ hold hp
    · exact hd.listed s p hs hp

theorem OwnListed.added (hd : OwnListed d) {o : ObjectEntry} (h : Added d o d') : OwnListed d' := by
  obtain ⟨hc, hv⟩ := hashAdd_spec hd.consistent h.gol
  have hid : d'.myNodeId = d.myNodeId := by rw [h.rest]
  refine ⟨hc, fun s p hs hp => ?_⟩
  rw [h.ol]
  by_cases he : s = o.name.1
  · exact ⟨o, List.mem_append_right _ (List.mem_singleton_self _), he.symm⟩
  · rw [hv, ObjMap.announce_of_ne he] at hs
    obtain ⟨o', ho', hname⟩ := hd.listed s p hs (hp.trans hid)
    exact ⟨o', List.mem_append_left _ ho', hname⟩

end OwnListed

section Network

variable {ι : Type} [DecidableEq ι] {N : Net ι} {ok : List UInt8 → Prop} {s : Servers ι}

/-- **What a handler does keeps the own objects listed.** -/
theorem OwnListed.serves (hv : N.Distinct) (r : (network N ok).Reachable s.world) {x : ι}
    {ev : ConnectionEvent} {d : Daemon} {cs : ℕ → TcpConnection}
    (hp : ∀ p, daemonPass ev = some p → Possible N ok s.world x p)
    (hd : OwnListed (s.engine x).daemon) (h : Serves (s.engine x) ev d cs) : OwnListed d := by
  cases h with
  | idle => exact hd
  | init => exact hd
  | answered request answer =>
    obtain ⟨⟨d₁, c₁⟩, h1, h⟩ := bind_eq_ok.mp answer
    cases h
    rcases dispatch_added h1 with rfl | ⟨o, ha, -⟩
    · exact hd
    · exact hd.added ha
  | @pass _ p d out own hact =>
    cases p with
    | timeout fresh => exact (timeout_trail hact).preserves (fun _ _ _ hd ht => hd.tick ht) hd
    | datagram r' fresh =>
      obtain ⟨g, hg, hto, hok, rfl⟩ := hp _ own
      obtain ⟨lsa, f, size, recv, hh⟩ := receive_handled hact
      obtain ⟨hl, hi⟩ := network_invariant hv (fun _ => numbered_init)
        (fun _ _ _ _ => numbered_micro hv) r
      have hown := accept_ne_own hi (.receive hg hto hok recv hh) lsa.sequenceNum
      rw [← hl.myNodeId] at hown
      exact hd.handled hh hown
    | request c uri opened => cases ev <;> cases own

/-- **Every object that the own node provides is a local object**, in every state that is reached
without a restart. -/
theorem ownListed_reachable (hv : N.Distinct) (r : (serverNetwork N ok).Reachable s) :
    ∀ x, OwnListed (s.engine x).daemon := by
  refine (r.invariant (I := fun s => (serverNetwork N ok).Reachable s ∧
    ∀ x, OwnListed (s.engine x).daemon) (fun s h => ⟨.init h, fun x => ?_⟩) ?_).2
  · exact ownListed_boot ((world_init h).2 x)
  · rintro s ⟨x, ev⟩ s' ⟨r, hs⟩ h
    refine ⟨r.step h, ?_⟩
    obtain ⟨-, hp, e, ret, hh, rfl⟩ := h
    exact (Function.forall_update_iff _ fun _ (e : Engine) => OwnListed e.daemon).mpr
      ⟨(hs x).serves hv (world_reachable r) hp (handle_serves hh), fun y _ => hs y⟩

omit [DecidableEq ι] in
theorem spacelessFiles (file : ∀ x, FromFile (N.lines x)) (hostname : ∀ x, 32 ∉ (N.hostname x).1)
    (host : ∀ x, 32 ∉ (N.self x).host.1.1) (x : ι) : SpacelessFiles (N.files x) where
  rows := List.cons_ne_nil _ _
  lines := file x
  hostname := hostname x
  hosts l hl := by
    rcases List.mem_cons.mp hl with rfl | hl
    · exact host x
    · obtain ⟨y, -, rfl⟩ := List.mem_map.mp hl
      exact host y

/-- **The web server reads the replies as meant**, in every reachable state of a network whose files
hold what `load_node_file` can read and whose host names hold no space. If the node ids are distinct,
every RDGET is answered, and without restarts it is enough that no local object has an empty path. -/
theorem replies_read (file : ∀ x, FromFile (N.lines x)) (hostname : ∀ x, 32 ∉ (N.hostname x).1)
    (host : ∀ x, 32 ∉ (N.self x).host.1.1) (r : (restartServers N ok).Reachable s) :
    ∀ x d, (s.engine x).daemon = d →
      ((∀ o ∈ d.ol.objects, 32 ∉ o.name.1.1 ∧ 32 ∉ o.path.1.1) ∧
        ∀ name, view superFastHash d.gol name ≠ none → 32 ∉ name.1) ∧
      (LocalPaths d → ∀ c uri opened d' c', c.status = 200 → cstr c.method = lit "RDGET" →
        buildResponse uri opened d c = .ok (d', c') → d' = d ∧ ReadBack d (cstr c.name) c'.sent) ∧
      (N.Distinct → ∀ c uri opened, c.status = 200 → cstr c.method = lit "RDGET" →
        buildResponse uri opened d c ≠ .error .overflow →
          ∃ c', buildResponse uri opened d c = .ok (d, c')) ∧
      (N.Distinct → (serverNetwork N ok).Reachable s → (∀ o ∈ d.ol.objects, o.path.1 ≠ lit "") →
        LocalPaths d) := by
  rintro x _ rfl
  have hd := (spaceless_reachable (spacelessFiles file hostname host) r).world.daemons x
  refine ⟨⟨hd.objects.objects, hd.objects.known⟩, ?_, ?_, ?_⟩
  · intro hl c uri opened d' c' hst hm h
    exact reply_read hd hl hst hm h
  · intro hv c uri opened hst hm hroom
    exact exists_buildResponse (sound_restartServers hv r x) hst hm hroom
  · intro hv hrun hp
    exact (ownListed_reachable hv hrun x).localPaths hp

end Network

/-- The first engines of the triangle. -/
def triangleServers : Servers (Fin 3) :=
  ⟨fun x => createEngine 3 4 ((triangleNet.start triangleNet_boots).daemon x), []⟩

/-- A parsed RDGET for the object of node 1. -/
def askO : TcpConnection := { parsed "RDGET" "" with name := (lit "o").1 ++ blankBuf }

theorem replies_read_triangleNet :
    (serverNetwork triangleNet fun _ => True).Reachable triangleServers ∧
      ∃ c', buildResponse blankBuf true (triangleServers.engine 0).daemon askO =
          .ok ((triangleServers.engine 0).daemon, c') ∧
        ReadBack (triangleServers.engine 0).daemon (lit "o") c'.sent := by
  have file : ∀ x, FromFile (triangleNet.lines x) := by
    intro x
    fin_cases x
    · exact ⟨ascii "o /o", by decide +kernel⟩
    · exact ⟨[], rfl⟩
    · exact ⟨[], rfl⟩
  have h0 : (network triangleNet fun _ => True).init (triangleNet.start triangleNet_boots) :=
    init_start triangleNet_boots
  have r : (serverNetwork triangleNet fun _ => True).Reachable triangleServers :=
    .init ⟨rfl, fun x => ⟨3, 4, _, by decide, by decide, by decide, h0.2 x, rfl⟩⟩
  obtain ⟨-, hread, hanswer, hlocal⟩ :=
    replies_read file (by decide) (by decide) (restartServers_reachable r) 0 _ rfl
  have hl := hlocal triangleNet_valid.toDistinct r (by decide +kernel)
  have hname : cstr askO.name = lit "o" := by decide +kernel
  have hroom :
      buildResponse blankBuf true (triangleServers.engine 0).daemon askO ≠ .error .overflow := by
    intro h
    have hsome :
        (buildResponse blankBuf true (triangleServers.engine 0).daemon askO).toOption.isSome := by
      decide +kernel
    rw [h] at hsome
    cases hsome
  obtain ⟨c', hc⟩ :=
    hanswer triangleNet_valid.toDistinct askO blankBuf true rfl (by decide +kernel) hroom
  obtain ⟨-, hback⟩ := hread hl askO blankBuf true _ c' rfl (by decide +kernel) hc
  exact ⟨r, c', hc, hname ▸ hback⟩

end RoutingDaemon
