import RoutingDaemon.RequestReplies

/-!
# What answers an RDGET

* `Located`: what the lookups of an RDGET need; `located_reachable`: it holds whatever the configuration.
* `RdgetAnswer`: the three answers: NOTFOUND, an ERROR if the object is here without a local path, and
  otherwise OK with the URI that the call assembled.
* `rdget_answered_iff`: an RDGET gets one of them, whatever the array `uri` held, exactly if the object is
  not here without a local path, and the reply fits. Without the path, the ERROR is overwritten.
-/

namespace RoutingDaemon

/-! ### The lookups of an RDGET -/

/-- Every next hop is a link, and every provider is this node or has an entry. -/
structure Located (d : Daemon) : Prop where
  consistent : Consistent superFastHash d.gol
  listed : Listed d
  routed : ∀ (j : ℕ) e, d.rt.table[j]? = some e → ∃ l ∈ d.dl.links, l.id = e.nexthop
  paths : ForallPaths superFastHash d.gol fun p =>
    p.nodeId = d.myNodeId ∨ p.nodeId ∈ d.rt.table.map RoutingEntry.id

theorem Located.rdgetTarget_ok {d : Daemon} (h : Located d) (name : CString) :
    ∃ t, rdgetTarget d name = .ok t := by
  refine exists_rdgetTarget h.consistent (fun e he => ?_) h.paths name
  obtain ⟨j, hj⟩ := List.mem_iff_getElem?.mp he
  exact h.routed j e hj

theorem located_boot {f : Files} {d : Daemon} (h : boot f = .ok d) : Located d := by
  obtain ⟨hl, ht, -, -, -, hload⟩ := boot_eq_ok h
  obtain ⟨hc, hp⟩ := loadNodeFile_invariant (I := fun g => Consistent superFastHash g ∧
    ForallPaths superFastHash g fun p => p.nodeId = d.myNodeId)
    (fun g s g' hg h1 => ⟨(hashAdd_spec hg.1 h1).1, hg.2.hashAdd hg.1 h1 rfl⟩)
    ⟨consistent_initHash, forallPaths_initHash⟩ hload
  refine ⟨hc, listed_boot h, fun j e he => ?_, hp.mono fun p hp => .inl hp⟩
  rw [ht, List.getElem?_mapIdx, Option.map_eq_some_iff] at he
  obtain ⟨l, hj, rfl⟩ := he
  exact ⟨l, hl ▸ List.mem_of_getElem? hj, rfl⟩

section Located

variable {d d' : Daemon} {out : List Effect}

theorem Change.routed {S : LSA → ℕ → Int32 → Prop} {j : ℕ} {e e' : RoutingEntry}
    (h : Change S d j e e') (he : ∃ l ∈ d.dl.links, l.id = e.nexthop)
    (hS : ∀ lsa size n, S lsa size n → ∃ l ∈ d.dl.links, l.id = n) :
    ∃ l ∈ d.dl.links, l.id = e'.nexthop := by
  cases h with
  | checkers => exact he
  | discard => exact he
  | age => exact he
  | store stores id =>
    simp only [storeLsa, setRoute]
    split_ifs
    · exact hS _ _ _ stores
    · exact he

theorem Located.own_link (h : Located d) (hne : ∃ l, l ∈ d.dl.links) :
    ∃ l ∈ d.dl.links, l.id = d.myNodeId := by
  obtain ⟨l, hl⟩ := hne
  cases hls : d.dl.links with
  | nil => rw [hls] at hl; cases hl
  | cons l₀ ls =>
    have hown := h.listed.own l₀ (by rw [hls]; rfl)
    exact ⟨l₀, List.mem_cons_self, hown.1.symm⟩

theorem located_tick (h : Located d) (ht : Tick d out d') : Located d' := by
  obtain ⟨hdl, hid⟩ := micro_static (.tick ht)
  refine ⟨consistent_tick h.consistent ht, listed_micro h.listed (.tick ht), ?_, ?_⟩
  · rw [hdl]
    have hev := evolves_tick (S := fun _ _ n => n = d.myNodeId) (fun _ _ _ _ => rfl) ht
    refine hev.forall_entry (P := fun _ e => ∃ l ∈ d.dl.links, l.id = e.nexthop)
      (fun j e e' he hc => hc.routed he ?_) h.routed
    rintro _ _ _ rfl
    exact h.own_link (he.imp fun _ h => h.1)
  · rw [tick_ids ht, hid]
    obtain ⟨-, -, hg | ⟨n, -, hg⟩⟩ := tick_objects ht
    · rw [hg]
      exact h.paths
    · rw [hg]
      exact (h.paths.hashRemoveNode h.consistent n).mono fun p hp => hp.1

theorem located_accepted {fresh : Fresh} {lsa : LSA} {size : ℕ} {f : Int32} {rt : RoutingTable}
    {gol : LisoHash} (h : Located d) (hf : ∃ l ∈ d.dl.links, l.id = f)
    (ht : getType lsa.versionTtlType = typeLsa)
    (update : updateEntry fresh (getRoutingEntry d.rt lsa.senderNodeId) d.rt d.dl lsa size f = .ok rt)
    (objects : storeNodeObjects (hashAdd superFastHash) d.gol lsa = .ok gol) :
    (∀ (j : ℕ) e, rt.table[j]? = some e → ∃ l ∈ d.dl.links, l.id = e.nexthop) ∧
      ForallPaths superFastHash gol fun p =>
        p.nodeId = d.myNodeId ∨ p.nodeId ∈ rt.table.map RoutingEntry.id := by
  have hre := reshapes_updateEntry (S := fun _ _ n => n = f) rfl ht update
  constructor
  · refine hre.forall_entry (P := fun _ e => ∃ l ∈ d.dl.links, l.id = e.nexthop)
      (fun j e e' he hc => hc.routed he ?_) (fun e ha => ?_) h.routed
    · rintro _ _ _ rfl
      exact hf
    · obtain ⟨rfl, -⟩ := ha
      exact hf
  · have hsub : ∀ n ∈ d.rt.table.map RoutingEntry.id, n ∈ rt.table.map RoutingEntry.id := by
      intro n hn
      rcases hre.ids with hids | ⟨_, -, hids⟩
      · rw [hids]
        exact hn
      · rw [hids]
        exact List.mem_append_left _ hn
    obtain ⟨e, he, hid, -⟩ := (alive_updateEntry ht update).1
    have hold : ForallPaths superFastHash d.gol fun p =>
        p.nodeId = d.myNodeId ∨ p.nodeId ∈ rt.table.map RoutingEntry.id :=
      h.paths.mono fun p hp => hp.imp_right (hsub p.nodeId)
    refine (storeNodeObjects_invariant (I := fun g => Consistent superFastHash g ∧
      ForallPaths superFastHash g fun p =>
        p.nodeId = d.myNodeId ∨ p.nodeId ∈ rt.table.map RoutingEntry.id) ?_ ⟨h.consistent, hold⟩
      objects).2
    exact fun g s g' hg h1 => ⟨(hashAdd_spec hg.1 h1).1,
      hg.2.hashAdd hg.1 h1 (.inr (List.mem_map.mpr ⟨e, he, hid⟩))⟩

theorem located_micro (h : Located d) (hm : Micro d out d') : Located d' := by
  have hl := listed_micro h.listed hm
  cases hm with
  | tick ht => exact located_tick h ht
  | receive recv hh =>
    cases hh with
    | ignored => exact h
    | accepted type newer link update objects =>
      obtain ⟨_, _, src, -, -, -, hsrc, hid, -⟩ := rtRecvfrom_eq_ok recv
      have hc := (storeNodeObjects_view h.consistent objects).1
      obtain ⟨hr, hp⟩ := located_accepted h ⟨src, lookupLinkEntry_mem hsrc, hid.symm⟩
        ((acceptedLsa_type _).trans type) update objects
      exact ⟨hc, hl, hr, hp⟩
    | credited type current update =>
      have hev := evolves_creditAck (S := fun _ _ _ => False) update
      refine ⟨h.consistent, hl, ?_, ?_⟩
      · exact hev.forall_entry (P := fun _ e => ∃ l ∈ d.dl.links, l.id = e.nexthop)
          (fun j e e' he hc => hc.routed he fun _ _ _ h => h.elim) h.routed
      · rw [hev.ids]
        exact h.paths
  | add objects =>
    exact ⟨(hashAdd_spec h.consistent objects).1, hl, h.routed,
      h.paths.hashAdd h.consistent objects (.inl rfl)⟩

end Located

/-- **No RDGET dereferences NULL**, whatever the configuration. -/
theorem located_reachable {f : Files} {d : Daemon} (r : (daemonSystem f).Reachable d) : Located d :=
  reachable_invariant (fun _ h => located_boot h) (fun _ _ _ h hm => located_micro h hm) r

/-! ### The answers -/

/-- An RDGET is answered by one of these. -/
inductive RdgetAnswer (d : Daemon) (name : CString) (reply : List UInt8) : Prop
  | notFound (none : getPaths superFastHash d.gol name = none) (text : reply = ascii "NOTFOUND 0 ")
  | noPath (target : rdgetTarget d name = .ok .here) (empty : localPath d.ol name = lit "")
      (text : ascii "ERROR " <+: reply)
  | found {t : Target} {u : List UInt8} (target : rdgetTarget d name = .ok t)
      (path : t = .here → localPath d.ol name ≠ lit "") (assembled : targetUri d name t = some u)
      (text : reply = okUri u)

section Answer

variable {d : Daemon} {name : CString} {uri u : List UInt8} {t : Target}

theorem rdgetTarget_notFound : rdgetTarget d name = .ok .notFound ↔
    getPaths superFastHash d.gol name = none := by
  unfold rdgetTarget
  cases hp : getPaths superFastHash d.gol name with
  | none => simp
  | some obj =>
    dsimp only
    split_ifs
    · simp
    · refine iff_of_false (fun h => ?_) (by simp)
      obtain ⟨_, -, h⟩ := bind_eq_ok.mp h
      obtain ⟨_, -, h⟩ := bind_eq_ok.mp h
      obtain ⟨_, -, h⟩ := bind_eq_ok.mp h
      cases h

theorem targetUri_here (h : localPath d.ol name ≠ lit "") :
    targetUri d name .here = some (d.myUri.1 ++ (localPath d.ol name).1) := by
  unfold localPath at h ⊢
  rw [targetUri]
  cases hf : d.ol.objects.find? fun o => o.name.1 = name with
  | none =>
    rw [hf] at h
    exact absurd rfl h
  | some o => rfl

theorem printedUri_eq (h : t = .here → localPath d.ol name ≠ lit "") :
    printedUri uri d name t = targetUri d name t := by
  cases t with
  | notFound => rfl
  | here => rw [targetUri_here (h rfl), printedUri, if_neg (h rfl)]
  | via l => rfl

theorem rdgetAnswer_reply (ht : rdgetTarget d name = .ok t)
    (h : t = .here → localPath d.ol name ≠ lit "") :
    RdgetAnswer d name (rdgetReply (printedUri uri d name t)) := by
  rw [printedUri_eq h]
  cases t with
  | notFound => exact .notFound (rdgetTarget_notFound.mp ht) rfl
  | here => exact .found ht h (targetUri_here (h rfl)) (by rw [targetUri_here (h rfl)]; rfl)
  | via l => exact .found ht h rfl rfl

/-- **Without a local path, the answer is overwritten.** -/
theorem not_rdgetAnswer (ht : rdgetTarget d name = .ok .here) (h : localPath d.ol name = lit "") :
    ¬ RdgetAnswer d name (okUri u) := by
  intro ha
  cases ha with
  | notFound none text =>
    rw [rdgetTarget_notFound.mpr none] at ht
    cases ht
  | noPath target empty text =>
    obtain ⟨r, hr⟩ := text
    rw [okUri] at hr
    exact absurd (congrArg List.head? hr) (by simp [ascii])
  | found target path assembled text =>
    rw [ht] at target
    cases target
    exact path rfl h

end Answer

/-- Every RDGET of the name on connection `i` is answered, whatever `uri` held, and nothing else
changes. -/
def RdgetAnswered (e : Engine) (i : ℕ) (data : List UInt8) (name : CString) : Prop :=
  ∀ uri opened, uri.length = bufSize → ∃ e' ret,
    flaskRequestHandler i (.got data) uri opened e = .ok (e', ret) ∧ e'.daemon = e.daemon ∧
      RdgetAnswer e.daemon name (e'.connections i).sent

/-- The reply with the assembled URI fits the response. -/
def UriFits (d : Daemon) (name : CString) : Prop :=
  ∀ t u, rdgetTarget d name = .ok t → targetUri d name t = some u → (okUri u).length < maxBuf

/-- The object is here, and `get_local_file_path` yields an empty path. -/
def PathMissing (d : Daemon) (name : CString) : Prop :=
  rdgetTarget d name = .ok .here ∧ localPath d.ol name = lit ""

section Handler

variable {e e' : Engine} {i : ℕ} {data uri : List UInt8} {c : TcpConnection} {opened : Bool}
  {t : Target} {ret : ℤ}

theorem Parses.rdget_sent (hp : Parses e i data c) (hc : ConnectionOk c) (hs : c.status = 200)
    (hm : cstr c.method = lit "RDGET") (ht : rdgetTarget e.daemon (cstr c.name) = .ok t)
    (hu : uri.length = bufSize) (h : flaskRequestHandler i (.got data) uri opened e = .ok (e', ret)) :
    (e'.connections i).sent = rdgetReply (printedUri uri e.daemon (cstr c.name) t) ∧
      (rdgetReply (printedUri uri e.daemon (cstr c.name) t)).length < maxBuf := by
  obtain ⟨-, d', c', hb, rfl⟩ := hp.handler_iff.mp h
  rw [buildResponse_rdget hs hm] at hb
  obtain ⟨c₁, h1, hb⟩ := exists_of_map_eq_ok hb
  have hl := rdget_text hc.path hc.response hu ht
  cases hb
  simp only [setConnection_self]
  refine ⟨?_, hl.fits.mp ⟨_, h1⟩⟩
  rw [← hl.text _ h1]
  exact (List.prefix_iff_eq_take.mp (List.takeWhile_prefix _)).symm

theorem Parses.exists_rdget (hp : Parses e i data c) (hc : ConnectionOk c) (hs : c.status = 200)
    (hm : cstr c.method = lit "RDGET") (ht : rdgetTarget e.daemon (cstr c.name) = .ok t)
    (hu : uri.length = bufSize) (opened : Bool)
    (hlt : (rdgetReply (printedUri uri e.daemon (cstr c.name) t)).length < maxBuf) :
    ∃ e' ret, flaskRequestHandler i (.got data) uri opened e = .ok (e', ret) ∧ e'.daemon = e.daemon := by
  obtain ⟨c₁, h1⟩ := (rdget_text hc.path hc.response hu ht).fits.mpr hlt
  have hb : buildResponse uri opened e.daemon c =
      .ok (e.daemon, { c₁ with responseIndex := strlen (cstr c₁.response) }) := by
    rw [buildResponse_rdget hs hm, h1]
    rfl
  exact ⟨_, 1, hp.handler_iff.mpr ⟨rfl, _, _, hb, rfl⟩, rfl⟩

end Handler

/-- **An RDGET is answered exactly if its object is not here without a path, and the reply fits.** -/
theorem rdget_answered_iff {f : Files} {e : Engine} (r : (connectionSystem f).Reachable e) {i : ℕ}
    {data : List UInt8} {c : TcpConnection} (hp : Parses e i data c) (hs : c.status = 200)
    (hm : cstr c.method = lit "RDGET") :
    RdgetAnswered e i data (cstr c.name) ↔
      ¬ PathMissing e.daemon (cstr c.name) ∧ UriFits e.daemon (cstr c.name) := by
  have hc := hp.connectionOk (connectionsOk_reachable r)
  obtain ⟨t, ht⟩ := (located_reachable (daemon_reachable r)).rdgetTarget_ok (cstr c.name)
  constructor
  · intro h
    obtain ⟨e', ret, hh, -, ha⟩ := h (List.replicate bufSize 0) true List.length_replicate
    obtain ⟨hsent, hfit⟩ := hp.rdget_sent hc hs hm ht List.length_replicate hh
    rw [hsent] at ha
    have hnot : ¬ PathMissing e.daemon (cstr c.name) := by
      rintro ⟨hhere, hempty⟩
      rw [ht] at hhere
      cases hhere
      rw [printedUri_stale _ hempty] at ha
      exact not_rdgetAnswer ht hempty ha
    refine ⟨hnot, fun t' u ht' hu => ?_⟩
    rw [ht] at ht'
    cases ht'
    rw [printedUri_eq (fun h0 hempty => hnot ⟨h0 ▸ ht, hempty⟩), hu] at hfit
    exact hfit
  · rintro ⟨hnot, hfit⟩ uri opened hu
    have hpath : t = .here → localPath e.daemon.ol (cstr c.name) ≠ lit "" :=
      fun h0 hempty => hnot ⟨h0 ▸ ht, hempty⟩
    have hlt : (rdgetReply (printedUri uri e.daemon (cstr c.name) t)).length < maxBuf := by
      rw [printedUri_eq hpath]
      cases hu : targetUri e.daemon (cstr c.name) t with
      | none => exact show (ascii "NOTFOUND 0 ").length < maxBuf by decide
      | some u => exact hfit t u ht hu
    obtain ⟨e', ret, hh, hd⟩ := hp.exists_rdget hc hs hm ht hu opened hlt
    refine ⟨e', ret, hh, hd, ?_⟩
    rw [(hp.rdget_sent hc hs hm ht hu hh).1]
    exact rdgetAnswer_reply ht hpath

/-- `RDGET 1 a` is answered. -/
theorem rdget_answered_iff_first : ∃ e c, Parses e 0 (ascii "RDGET 1 a") c ∧
    RdgetAnswered e 0 (ascii "RDGET 1 a") (cstr c.name) := by
  obtain ⟨d, c, h, hst, hm, ht⟩ := firstRequest_rdget
  obtain ⟨r, hp⟩ := firstRequest_eq_ok (by decide) (by decide) h
  refine ⟨_, c, hp, (rdget_answered_iff r hp hst hm).mpr ⟨?_, ?_⟩⟩
  · rintro ⟨hhere, -⟩
    cases ht.symm.trans hhere
  · intro t u ht' hu
    cases ht.symm.trans ht'
    cases hu

/-- A stack that holds the string `x`. -/
def staleUri : List UInt8 := ascii "x" ++ List.replicate 1023 0

theorem length_staleUri : staleUri.length = bufSize := by
  rw [staleUri, List.length_append, List.length_replicate]
  rfl

/-- Client 0 adds the object `o` with a path of length 0, and then asks for it. -/
def emptyPathRun : Except Stop (Daemon × Engine × TcpConnection × Engine) := do
  let d ← guarded (boot loneFiles)
  let (e₁, _) ← handle (.read 0 (.got (ascii "ADDFILE 1 o 0 p")) staleUri true)
    ((createEngine 3 4 d).register 0)
  let c₁ ← guarded ((e₁.connections 0).receive (ascii "RDGET 1 o"))
  let c ← guarded (processBuffer c₁)
  let (e₂, _) ← handle (.read 0 (.got (ascii "RDGET 1 o")) staleUri true) e₁
  .ok (d, e₁, c, e₂)

/-- **An object that was added with a path of length 0 is answered with what `uri` held.** -/
theorem exists_stale_uri : ∃ e c e' ret, (connectionSystem loneFiles).Reachable e ∧
    Parses e 0 (ascii "RDGET 1 o") c ∧ c.status = 200 ∧ cstr c.method = lit "RDGET" ∧
    PathMissing e.daemon (cstr c.name) ∧ staleUri.length = bufSize ∧
    flaskRequestHandler 0 (.got (ascii "RDGET 1 o")) staleUri true e = .ok (e', ret) ∧
    (e'.connections 0).sent = ascii "OK 1 x " ∧
    ¬ RdgetAnswer e.daemon (cstr c.name) (e'.connections 0).sent := by
  have key : emptyPathRun.map (fun p => decide ((p.2.1.connections 0).requestIndex = 15) &&
      decide (p.2.2.1.status = 200) && decide (cstr p.2.2.1.method = lit "RDGET") &&
      decide ((rdgetTarget p.2.1.daemon (cstr p.2.2.1.name)).toOption = some .here) &&
      decide (localPath p.2.1.daemon.ol (cstr p.2.2.1.name) = lit "") &&
      decide ((p.2.2.2.connections 0).sent = ascii "OK 1 x ")) = .ok true := by decide +kernel
  obtain ⟨⟨d, e₁, c, e₂⟩, hrun, hk⟩ := exists_of_map_eq_ok key
  simp only [Bool.and_eq_true, decide_eq_true_eq] at hk
  obtain ⟨⟨⟨⟨⟨hidx, hst⟩, hm⟩, hhere⟩, hempty⟩, hsent⟩ := hk
  rw [toOption_eq_some] at hhere
  obtain ⟨d', hd, hrun⟩ := bind_eq_ok.mp hrun
  obtain ⟨⟨e₁', ret₁⟩, h1, hrun⟩ := bind_eq_ok.mp hrun
  obtain ⟨c₁, hc₁, hrun⟩ := bind_eq_ok.mp hrun
  obtain ⟨c', hc, hrun⟩ := bind_eq_ok.mp hrun
  obtain ⟨⟨e₂', ret₂⟩, h2, hrun⟩ := bind_eq_ok.mp hrun
  cases hrun
  rw [guarded_eq_ok] at hd hc₁ hc
  have r₁ := reachable_first hd
  have r₂ : (connectionSystem loneFiles).Reachable e₁ :=
    r₁.step (l := (_, _)) ⟨Finset.mem_insert_self _ _, rfl, ret₁, h1⟩
  have htake : (ascii "RDGET 1 o").take (bufSize - (e₁.connections 0).requestIndex).toNat =
      ascii "RDGET 1 o" := by
    rw [hidx]
    decide
  have hp : Parses e₁ 0 (ascii "RDGET 1 o") c :=
    ⟨by rw [htake]; decide, c₁, by rw [htake]; exact hc₁, hc⟩
  refine ⟨e₁, c, e₂, ret₂, r₂, hp, hst, hm, ⟨hhere, hempty⟩, length_staleUri, h2,
    hsent, ?_⟩
  rw [hsent, show ascii "OK 1 x " = okUri (ascii "x") by decide]
  exact not_rdgetAnswer hhere hempty

end RoutingDaemon
