import RoutingDaemon.Origins
import RoutingDaemon.AcceptOnce

/-!
# What the LSAs of a node bring about

* `Lists`: the names that can be read of a packet, however it was cut.
* `hasSeen_before_tick`, `hasSeen_before_handled`: where `HasSeen` comes from; `Sound.hasSeen`: what a daemon
  stores, it has seen.
* `Spread`: what holds of the LSAs that a node floods from some time on, as long as nobody declares it down:
  who sent one has seen it, and who has seen one has paths to the objects of the node. `Spread.after`,
  `spread_step`, `spread_steps`.
-/

namespace RoutingDaemon

/-! ### The names in a packet -/

/-- The packet may be completed so that, whatever its header word, these are among its names. -/
def Lists (names : List CString) (a : LSA) : Prop := ∃ rest, ∀ w ns,
  objectNames { a with versionTtlType := w, linksObjects := a.linksObjects ++ rest } = .ok ns → names ⊆ ns

section Lists

variable {names : List CString} {a : LSA}

theorem Lists.subset (h : Lists names a) {ns : List CString} (hn : objectNames a = .ok ns) : names ⊆ ns := by
  obtain ⟨rest, h⟩ := h
  exact h _ _ (objectNames_append hn rest)

theorem Lists.mono (h : Lists names a) {ms : List CString} (hs : ms ⊆ names) : Lists ms a := by
  obtain ⟨rest, h⟩ := h
  exact ⟨rest, fun w ns hn => List.Subset.trans hs (h w ns hn)⟩

theorem Lists.header (h : Lists names a) (w : BitVec 32) : Lists names { a with versionTtlType := w } := h

theorem Lists.cut (h : Lists names a) (n : ℕ) :
    Lists names { a with linksObjects := a.linksObjects.take n } := by
  obtain ⟨rest, h⟩ := h
  refine ⟨a.linksObjects.drop n ++ rest, fun w ns => ?_⟩
  dsimp only
  rw [← List.append_assoc, List.take_append_drop]
  exact h w ns

theorem lists_createPacket {d : Daemon} (hd : Sound d) {fresh : Fresh} {size : ℕ}
    (h : createPacket fresh typeLsa d.myNodeId d.sequenceNumber d.dl d.ol = .ok (a, size)) :
    Lists (localNames d) a := by
  have h1 : 1 ≤ d.dl.numLinks := by
    obtain ⟨l, hl, -⟩ := hd.link_zero
    exact Nat.one_le_of_lt (List.getElem?_eq_some_iff.mp hl).1
  obtain ⟨-, -, ⟨rest, hp⟩, -⟩ := createPacket_counts h
  refine ⟨[], fun w ns hn => ?_⟩
  rw [List.append_nil, hp, objectNames, storeNodeObjects_createPacket _ h h1,
    foldlM_collect fun o : ObjectEntry => o.name.1] at hn
  cases hn
  exact List.Subset.refl _

end Lists

/-! ### What was seen, and from where -/

theorem hasSeen_iff {rt : RoutingTable} {s : Int32} {c : ℤ} :
    HasSeen rt s c ↔ ∃ a, storedFor rt s = some a ∧ c ≤ a.sequenceNum.toInt := by
  constructor
  · rintro ⟨k, e, a, hk, he, ha, hc⟩
    exact ⟨a, by rw [storedFor_of_entry hk he, ha], hc⟩
  · rintro ⟨a, ha, hc⟩
    obtain ⟨k, hk, h⟩ := Option.bind_eq_some_iff.mp ha
    obtain ⟨e, he, h⟩ := Option.bind_eq_some_iff.mp h
    exact ⟨k, e, a, hk, he, h, hc⟩

section Daemons

variable {d d' : Daemon} {out : List Effect} {s : Int32} {c : ℤ}

theorem not_declared_iff :
    ¬ Declared out s ↔ ∀ x ∈ out, x ≠ .giveUp s ∧ x ≠ .expire s := by
  constructor
  · exact fun h x hx => ⟨fun he => h (.inl (he ▸ hx)), fun he => h (.inr (he ▸ hx))⟩
  · rintro h (hd | hd)
    · exact (h _ hd).1 rfl
    · exact (h _ hd).2 rfl

/-- **What a daemon stores, it has seen.** -/
theorem Sound.hasSeen (hd : Sound d) {e : RoutingEntry} (he : e ∈ d.rt.table) {a : LSA}
    (ha : e.lsa = some a) : HasSeen d.rt a.senderNodeId a.sequenceNum.toInt := by
  obtain ⟨k, hk⟩ := List.mem_iff_getElem?.mp he
  rw [((hd.entry k e hk).sender a ha).1]
  exact ⟨k, e, a, getRoutingEntry_of_nodup hd.nodup hk, hk, ha, le_rfl⟩

theorem hasSeen_before_tick (h : Tick d out d') (hs : s ≠ d.myNodeId) (hc : HasSeen d'.rt s c) :
    HasSeen d.rt s c := by
  rw [hasSeen_iff] at hc ⊢
  obtain ⟨a, ha, hle⟩ := hc
  rcases keptOrReset_tick h hs with hk | ⟨hk, -⟩
  · exact ⟨a, hk ▸ ha, hle⟩
  · rw [hk] at ha
    cases ha

/-- **What a packet brings, the packet is.** -/
theorem hasSeen_before_handled {fresh : Fresh} {lsa : LSA} {f : Int32} {size : ℕ}
    (h : Handled d fresh lsa f size out d') (hc : HasSeen d'.rt s c) : HasSeen d.rt s c ∨
      getType lsa.versionTtlType = typeLsa ∧ lsa.senderNodeId = s ∧ c ≤ lsa.sequenceNum.toInt ∧
        storeNodeObjects (hashAdd superFastHash) d.gol (acceptedLsa lsa) = .ok d'.gol := by
  rw [hasSeen_iff] at hc ⊢
  obtain ⟨a, ha, hle⟩ := hc
  rw [storedFor_handled h] at ha
  split_ifs at ha with hn
  · cases ha
    obtain ⟨type, hid, newer⟩ := hn
    refine .inr ⟨type, hid, hle, ?_⟩
    subst hid
    cases h with
    | ignored why =>
      rcases why with why | why
      · rw [type, not_filtered_lsa.mpr newer] at why
        cases why
      · exact absurd type why.1
    | accepted type newer link update objects => exact objects
    | credited type' =>
      rw [type] at type'
      exact absurd type' (by decide)
  · exact .inl ⟨a, ha, hle⟩

/-- **A packet has been seen after it was handled.** -/
theorem hasSeen_after_handled {fresh : Fresh} {lsa : LSA} {f : Int32} {size : ℕ}
    (h : Handled d fresh lsa f size out d') (type : getType lsa.versionTtlType = typeLsa) :
    HasSeen d'.rt lsa.senderNodeId lsa.sequenceNum.toInt := by
  rw [hasSeen_iff, storedFor_handled h]
  split_ifs with hn
  · exact ⟨_, rfl, le_rfl⟩
  · -- an LSA that is as new was stored
    by_contra hnone
    refine hn ⟨type, rfl, fun a ha => ?_⟩
    by_contra hle
    exact hnone ⟨a, ha, not_lt.mp hle⟩

end Daemons

/-! ### The LSAs from some time on -/

variable {ι : Type} {N : Net ι}

/-- An LSA of node `s` with number `q`, or a later one. -/
def Recent (N : Net ι) (s : ι) (q : ℤ) (a : LSA) : Prop :=
  a.senderNodeId = (N.self s).id ∧ q ≤ a.sequenceNum.toInt

/-- No other node has the object. -/
def Only (w : World ι) (s : ι) (o : CString) : Prop := ∀ x, x ≠ s → o ∉ localNames (w.daemon x)

/-- What the LSAs of node `s` from number `q` on bring about: they list its objects, who sent or forwarded
one has seen it, and who has seen one has paths to the objects that only `s` has. -/
structure Spread (N : Net ι) (s : ι) (q : ℤ) (names : List CString) (w : World ι) : Prop where
  counter : q ≤ (w.daemon s).sequenceNumber.toInt
  objects : names ⊆ localNames (w.daemon s)
  wire : ∀ g ∈ w.wire, ∀ a, g.Carries a → getType a.versionTtlType = typeLsa → Recent N s q a →
    Lists names a ∧ HasSeen (w.daemon g.src).rt a.senderNodeId a.sequenceNum.toInt
  stored : ∀ y, ∀ e ∈ (w.daemon y).rt.table, ∀ a, e.lsa = some a → Recent N s q a →
    Lists names a ∧ ∀ z, z ≠ y → (N.self z).id = e.forwarderId →
      HasSeen (w.daemon z).rt a.senderNodeId a.sequenceNum.toInt
  paths : ∀ y, y ≠ s → HasSeen (w.daemon y).rt (N.self s).id q → ∀ o ∈ names, Only w s o →
    ∃ p, view superFastHash (w.daemon y).gol o = some (some p)

/-- What is kept of a network by every step. -/
structure Orderly (N : Net ι) (w : World ι) : Prop where
  lawful : Lawful N w
  numbered : Numbered N w
  originated : Originated N w

section Step

variable [DecidableEq ι] {ok : List UInt8 → Prop} {w : World ι} {s x : ι} {q : ℤ} {names : List CString}
  {d : Daemon} {out : List Effect}

theorem Only.before (g : Grown (w.daemon x) d) {o : CString} (h : Only (w.after x out d) s o) :
    Only w s o := by
  intro y hy ho
  refine h y hy ?_
  by_cases hyx : y = x
  · subst hyx
    rw [after_daemon_self]
    exact g.localNames ho
  · rwa [after_daemon_of_ne hyx]

/-- A step of a daemon keeps all that is listed, seen and known, if what it sends, stores and sees is. -/
theorem Spread.after (hi : Spread N s q names w) (ho : Orderly N w) (g : Grown (w.daemon x) d)
    (hseen : ∀ a, a.senderNodeId = (N.self s).id → Issued N w a →
      HasSeen (w.daemon x).rt a.senderNodeId a.sequenceNum.toInt →
        HasSeen d.rt a.senderNodeId a.sequenceNum.toInt)
    (hsend : ∀ g ∈ sends x out, SentBy w x g)
    (hstored : ∀ e ∈ d.rt.table, ∀ a, e.lsa = some a → Recent N s q a →
      Lists names a ∧ ∀ z, z ≠ x → (N.self z).id = e.forwarderId →
        HasSeen (w.daemon z).rt a.senderNodeId a.sequenceNum.toInt)
    (hpaths : x ≠ s → HasSeen d.rt (N.self s).id q → ∀ o ∈ names, Only w s o →
      ∃ p, view superFastHash d.gol o = some (some p)) : Spread N s q names (w.after x out d) := by
  -- what was seen stays seen
  have keep : ∀ y a, a.senderNodeId = (N.self s).id → Issued N w a →
      HasSeen (w.daemon y).rt a.senderNodeId a.sequenceNum.toInt →
        HasSeen ((w.after x out d).daemon y).rt a.senderNodeId a.sequenceNum.toInt := by
    intro y a ha hn h
    by_cases hyx : y = x
    · subst hyx
      rw [after_daemon_self]
      exact hseen a ha hn h
    · rwa [after_daemon_of_ne hyx]
  refine ⟨?_, ?_, ?_, ?_, ?_⟩
  · by_cases hsx : s = x
    · subst hsx
      rw [after_daemon_self]
      exact hi.counter.trans g.sequence
    · rw [after_daemon_of_ne hsx]
      exact hi.counter
  · intro o hm
    by_cases hsx : s = x
    · subst hsx
      rw [after_daemon_self]
      exact g.localNames (hi.objects hm)
    · rw [after_daemon_of_ne hsx]
      exact hi.objects hm
  · intro g hg a ha type hr
    rcases List.mem_append.mp hg with hg | hg
    · obtain ⟨h1, h2⟩ := hi.wire g hg a ha type hr
      exact ⟨h1, keep _ a hr.1 (ho.numbered.wire g hg a ha type) h2⟩
    · obtain ⟨rfl, ⟨e, he, b, hb, n, hc⟩ | ⟨b, hc, hack⟩⟩ := hsend g hg
      · obtain rfl := ha.unique hc
        have hb' : Recent N s q b := hr
        refine ⟨(hi.stored _ e he b hb hb').1.cut n, ?_⟩
        exact keep _ b hb'.1 (ho.numbered.stored _ e he b hb) ((ho.lawful.sound _).hasSeen he hb)
      · obtain rfl := ha.unique hc
        rw [hack] at type
        exact absurd type (by decide)
  · intro y e he a ha hr
    by_cases hyx : y = x
    · subst hyx
      rw [after_daemon_self] at he
      obtain ⟨h1, h2⟩ := hstored e he a ha hr
      refine ⟨h1, fun z hz hf => ?_⟩
      rw [after_daemon_of_ne hz]
      exact h2 z hz hf
    · rw [after_daemon_of_ne hyx] at he
      obtain ⟨h1, h2⟩ := hi.stored y e he a ha hr
      exact ⟨h1, fun z hz hf => keep z a hr.1 (ho.numbered.stored y e he a ha) (h2 z hz hf)⟩
  · intro y hy h o hm only
    have hbefore := only.before g
    by_cases hyx : y = x
    · subst hyx
      rw [after_daemon_self] at h ⊢
      exact hpaths hy h o hm hbefore
    · rw [after_daemon_of_ne hyx] at h ⊢
      exact hi.paths y hy h o hm hbefore

omit [DecidableEq ι] in
theorem Only.leads (ho : Originated N w) {o : CString} (only : Only w s o) {y : ι} {p : Path}
    (h : view superFastHash (w.daemon y).gol o = some (some p)) : p.nodeId = (N.self s).id := by
  obtain ⟨z, hz, hm⟩ := (ho.objects y o _ h).2 p rfl
  have hzs : z = s := by
    by_contra hne
    exact only z hne hm
  rw [← hz, hzs]

omit [DecidableEq ι] in
/-- What a step stores, if the LSAs that it stores are listed and seen. -/
theorem Spread.reshapes (hi : Spread N s q names w) {T : LSA → ℕ → Int32 → Prop}
    (hT : ∀ a n f, T a n f → Recent N s q a → Lists names a ∧ ∀ z, z ≠ x → (N.self z).id = f →
      HasSeen (w.daemon z).rt a.senderNodeId a.sequenceNum.toInt)
    {rt : RoutingTable} (h : Reshapes T (w.daemon x) rt) {e : RoutingEntry} (he : e ∈ rt.table) {a : LSA}
    (ha : e.lsa = some a) (hr : Recent N s q a) : Lists names a ∧
      ∀ z, z ≠ x → (N.self z).id = e.forwarderId →
        HasSeen (w.daemon z).rt a.senderNodeId a.sequenceNum.toInt := by
  obtain ⟨j, hj⟩ := List.mem_iff_getElem?.mp he
  refine h.forall_entry (P := fun _ e => ∀ a, e.lsa = some a → Recent N s q a → Lists names a ∧
    ∀ z, z ≠ x → (N.self z).id = e.forwarderId →
      HasSeen (w.daemon z).rt a.senderNodeId a.sequenceNum.toInt) ?_ ?_ ?_ j e hj a ha hr
  · intro j e e' he hc
    cases hc with
    | checkers => exact he
    | discard =>
      intro a ha
      cases ha
    | age => exact he
    | store stores =>
      intro a ha
      cases ha
      exact hT _ _ _ stores
  · intro e happ a ha
    obtain ⟨stores, -⟩ := happ
    cases ha
    exact hT _ _ _ stores
  · exact fun j e he => hi.stored x e (List.mem_of_getElem? he)

theorem spread_tick (hv : N.Distinct) (ho : Orderly N w) (hi : Spread N s q names w)
    (h : Tick (w.daemon x) out d) (up : ¬ Declared out (N.self s).id) :
    Spread N s q names (w.after x out d) := by
  have hid := ho.lawful.myNodeId x
  refine hi.after ho (grown_tick h) ?_ (fun g hg => sentBy_tick ho.lawful h hg) ?_ ?_
  · intro a ha issued hc
    refine (hasSeen_tick h hc fun hown => ?_).resolve_right ?_
    · exact (issued x (hown.trans hid)).2.le
    · rw [ha]
      exact up
  · intro e he a ha hr
    refine hi.reshapes (x := x) (T := fun a _ f => (Recent N s q a → Lists names a) ∧ f = (N.self x).id)
      ?_ (.inl (evolves_tick (fun fresh lsa size packet => ⟨fun hr => ?_, hid⟩) h)) he ha hr
    · rintro a _ _ ⟨hlists, rfl⟩ hr
      exact ⟨hlists hr, fun z hz hf => absurd (hv.ids hf) hz⟩
    · obtain rfl : s = x := hv.ids (hr.1.symm.trans ((createPacket_lsa packet).2.1.trans hid))
      exact (lists_createPacket (ho.lawful.sound s) packet).mono hi.objects
  · intro hx hc o hm only
    obtain ⟨p, hp⟩ := hi.paths x hx
      (hasSeen_before_tick h (fun hs => hx (hv.ids (hs.trans hid).symm)) hc) o hm only
    refine ⟨p, ((frame_tick (ho.lawful.sound x).consistent h).path o p).mpr ⟨hp, ?_⟩⟩
    rw [only.leads ho.originated hp]
    exact up

theorem spread_handled (hv : N.Valid) (ho : Orderly N w) (hi : Spread N s q names w) {g : Datagram ι}
    (sent : g ∈ w.wire) {fresh : Fresh} {lsa : LSA} {f : Int32} {size : ℕ}
    (recv : rtRecvfrom (w.daemon x).dl (g.received N) = .ok (some (lsa, f, size)))
    (h : Handled (w.daemon x) fresh lsa f size out d) : Spread N s q names (w.after x out d) := by
  obtain ⟨hc, -, rfl⟩ := received_from hv ho.lawful recv
  refine hi.after ho (grown_handled h) (fun a _ _ hs => hasSeen_handled h hs)
    (fun g hg => sentBy_handled (rtRecvfrom_size recv) h hg) ?_ ?_
  · intro e he a ha hr
    refine hi.reshapes (x := x) (T := fun a _ f => (Recent N s q a → Lists names a ∧
      HasSeen (w.daemon g.src).rt a.senderNodeId a.sequenceNum.toInt) ∧ f = (N.self g.src).id)
      ?_ (reshapes_handled (fun type => ⟨fun hr => ?_, rfl⟩) h) he ha hr
    · rintro a _ _ ⟨hknown, rfl⟩ hr
      refine ⟨(hknown hr).1, fun z hz hf => ?_⟩
      rw [hv.ids hf]
      exact (hknown hr).2
    · exact hi.wire g sent lsa hc type hr
  · intro hx hs o hm only
    have old : HasSeen (w.daemon x).rt (N.self s).id q →
        ∃ p, view superFastHash d.gol o = some (some p) := by
      intro hs
      obtain ⟨p, hp⟩ := hi.paths x hx hs o hm only
      rcases (handled_objects h).2.2 with hg | ⟨-, hstore⟩
      · exact ⟨p, by rw [hg, hp]⟩
      · obtain ⟨-, ns, -, hview⟩ := storeNodeObjects_view (ho.lawful.sound x).consistent hstore
        rw [hview, ObjMap.announceAll_apply, hp]
        split_ifs
        · exact ⟨_, rfl⟩
        · exact ⟨p, rfl⟩
    rcases hasSeen_before_handled h hs with hs | ⟨type, hid, hq, hstore⟩
    · exact old hs
    · -- a new LSA of the node lists its objects
      obtain ⟨hlists, -⟩ := hi.wire g sent lsa hc type ⟨hid, hq⟩
      obtain ⟨-, ns, hns, hview⟩ := storeNodeObjects_view (ho.lawful.sound x).consistent hstore
      rw [hview, ObjMap.announceAll_apply, if_pos ((hlists.header _).subset hns hm)]
      exact ⟨_, rfl⟩

theorem spread_added (ho : Orderly N w) (hi : Spread N s q names w) {e : ObjectEntry}
    (h : Added (w.daemon x) e d) : Spread N s q names (w.after x [] d) := by
  have hrt : d.rt = (w.daemon x).rt := by rw [h.rest]
  refine hi.after ho h.grown ?_ (by simp [sends]) ?_ ?_
  · intro a _ _ hs
    rwa [hrt]
  · intro e he a ha hr
    rw [hrt] at he
    exact hi.stored x e he a ha hr
  · intro hx hs o hm only
    rw [hrt] at hs
    obtain ⟨p, hp⟩ := hi.paths x hx hs o hm only
    rw [(hashAdd_spec (ho.lawful.sound x).consistent h.gol).2]
    by_cases ho : o = e.name.1
    · rw [ho, ObjMap.announce_self]
      exact ⟨_, rfl⟩
    · rw [ObjMap.announce_of_ne ho]
      exact ⟨p, hp⟩

/-- **Every step keeps a network in order.** -/
theorem orderly_tick (hv : N.Distinct) (ho : Orderly N w) (h : Tick (w.daemon x) out d) :
    Orderly N (w.after x out d) := by
  have hm : NetMicro N (fun _ => True) x w out (w.after x out d) := .tick h
  exact ⟨lawful_micro ho.lawful hm, numbered_micro hv ho.lawful ho.numbered hm,
    originated_tick ho.lawful ho.originated h⟩

theorem orderly_reachable (hv : N.Distinct) (r : (network N ok).Reachable w) : Orderly N w := by
  obtain ⟨hl, hn⟩ := network_invariant hv (fun _ => numbered_init) (fun _ _ _ _ => numbered_micro hv) r
  exact ⟨hl, hn, (originated_reachable hv r).2⟩

/-- **Every step that does not declare the node down keeps its LSAs spreading.** -/
theorem spread_step (hv : N.Valid) (r : (network N ok).Reachable w) (hi : Spread N s q names w)
    {w' : World ι} {l : ι × Event × List Effect} (h : (network N ok).step w l w')
    (up : ¬ Declared l.2.2 (N.self s).id) : Spread N s q names w' := by
  have ho := orderly_reachable hv.toDistinct r
  obtain ⟨x, ev, out⟩ := l
  obtain ⟨hp, d, ha, rfl⟩ := h
  cases ev with
  | timeout fresh =>
    have key := (after_trail (timeout_trail ha)).preserves_of
      (I := fun w => Orderly N w ∧ Spread N s q names w)
      (P := fun e => e ≠ .giveUp (N.self s).id ∧ e ≠ .expire (N.self s).id) ?_
      (not_declared_iff.mp up) ⟨ho, hi⟩
    · exact key.2
    · rintro w out _ ⟨ho, hi⟩ ⟨d, ht, rfl⟩ up
      exact ⟨orderly_tick hv.toDistinct ho ht, spread_tick hv.toDistinct ho hi ht (not_declared_iff.mpr up)⟩
  | datagram r fresh =>
    obtain ⟨g, hg, -, -, rfl⟩ := hp
    obtain ⟨lsa, f, size, recv, hh⟩ := receive_handled ha
    exact spread_handled hv ho hi hg recv hh
  | request c uri opened =>
    obtain ⟨rfl, rfl | ⟨o, hadd⟩⟩ := request_added ha
    · rw [after_nil]
      exact hi
    · exact spread_added ho hi hadd

theorem spread_start (hv : N.Distinct) (r : (network N ok).Reachable w) (s : ι) :
    Spread N s (w.daemon s).sequenceNumber.toInt (localNames (w.daemon s)) w := by
  have hn := (orderly_reachable hv r).numbered
  have early : ∀ a, Issued N w a → ¬ Recent N s (w.daemon s).sequenceNumber.toInt a :=
    fun a hissued hr => absurd (hissued s hr.1).2 (not_lt.mpr hr.2)
  refine ⟨le_rfl, List.Subset.refl _, ?_, ?_, ?_⟩
  · exact fun g hg a ha type hr => absurd hr (early a (hn.wire g hg a ha type))
  · exact fun y e he a ha hr => absurd hr (early a (hn.stored y e he a ha))
  · rintro y - ⟨k, e, a, hk, he, ha, hq⟩
    have hmem := List.mem_of_getElem? he
    have hid : a.senderNodeId = (N.self s).id := by
      obtain ⟨e', he', hid⟩ := getRoutingEntry_eq_some hk
      rw [he, Option.some.injEq] at he'
      rw [(((orderly_reachable hv r).lawful.sound y).entry k e he |>.sender a ha).1, he', hid]
    exact absurd ⟨hid, hq⟩ (early a (hn.stored y e hmem a ha))

/-- **A part of a run without such a step keeps them spreading.** -/
theorem spread_steps (hv : N.Valid) (r : (network N ok).Reachable w) {w' : World ι}
    {ls : List (ι × Event × List Effect)} (h : (network N ok).Steps w ls w')
    (up : ∀ l ∈ ls, ¬ Declared l.2.2 (N.self s).id) (hi : Spread N s q names w) :
    Spread N s q names w' := by
  have key := h.invariant (I := fun w => (network N ok).Reachable w ∧ Spread N s q names w)
    (P := fun l => ¬ Declared l.2.2 (N.self s).id) ?_ up ⟨r, hi⟩
  · exact key.2
  · rintro w l w' ⟨r, hi⟩ up h
    exact ⟨r.step h, spread_step hv r hi h up⟩

theorem seen_steps (hv : N.Distinct) (r : (network N ok).Reachable w) {w' : World ι}
    {ls : List (ι × Event × List Effect)} (h : (network N ok).Steps w ls w')
    (up : ∀ l ∈ ls, ¬ Declared l.2.2 (N.self s).id) {y : ι} (hy : y ≠ s) {c : ℤ}
    (hs : HasSeen (w.daemon y).rt (N.self s).id c) : HasSeen (w'.daemon y).rt (N.self s).id c := by
  have key := h.invariant
    (I := fun w => (network N ok).Reachable w ∧ HasSeen (w.daemon y).rt (N.self s).id c)
    (P := fun l => ¬ Declared l.2.2 (N.self s).id) ?_ up ⟨r, hs⟩
  · exact key.2
  · rintro w ⟨x, ev, out⟩ w' ⟨r, hs⟩ up h
    refine ⟨r.step h, ?_⟩
    have hid := (orderly_reachable hv r).lawful.myNodeId y
    obtain ⟨-, d, ha, rfl⟩ := h
    by_cases hyx : y = x
    · subst hyx
      rw [after_daemon_self]
      have key := (act_trail ha).preserves_of
        (I := fun d => d.myNodeId = (N.self y).id ∧ HasSeen d.rt (N.self s).id c)
        (P := fun e => e ≠ .giveUp (N.self s).id ∧ e ≠ .expire (N.self s).id) ?_
        (not_declared_iff.mp up) ⟨hid, hs⟩
      · exact key.2
      · rintro d out d' ⟨hid, hs⟩ hm up
        refine ⟨(micro_static hm).2.trans hid, ?_⟩
        cases hm with
        | tick ht =>
          exact (hasSeen_tick ht hs fun hown => absurd (hv.ids (hown.trans hid)).symm hy).resolve_right
            (not_declared_iff.mpr up)
        | receive recv hh => exact hasSeen_handled hh hs
        | add objects => exact hs
    · rwa [after_daemon_of_ne hyx]

end Step

end RoutingDaemon
