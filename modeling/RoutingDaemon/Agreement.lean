import RoutingDaemon.Lib.Copies
import RoutingDaemon.Origins

/-!
# Agreement

* `Extant`: the packets of a network, on the wire or in a table; `Copy`: what sending, receiving and storing
  do to a packet.
* `Agree`: what holds of two packets of one node; `Agree.copies`.
* `Derives`: a step adds copies, and at most one LSA that is new. `derives_tick`, `derives_handled`, and
  `Derives.agree`.
* `agreement`: the packets of a node with one number are copies of one LSA, and later ones name more objects.
-/

namespace RoutingDaemon

variable {ι : Type} {N : Net ι}

/-- A packet with another header word, and cut. -/
def Copy (a b : LSA) : Prop :=
  ∃ n, a = { b with versionTtlType := a.versionTtlType, linksObjects := b.linksObjects.take n }

/-- A datagram carries the packet, or a daemon stores it. -/
def Extant (w : World ι) (a : LSA) : Prop :=
  (∃ g ∈ w.wire, g.Carries a) ∨ ∃ y, ∃ e ∈ (w.daemon y).rt.table, e.lsa = some a

/-- Two packets of one node: with the same number they are copies of one LSA, and with a higher one there are
no fewer objects. -/
structure Agree (a b : LSA) : Prop where
  original : a.senderNodeId = b.senderNodeId → a.sequenceNum = b.sequenceNum → ∃ c, Copy a c ∧ Copy b c
  later : a.senderNodeId = b.senderNodeId → a.sequenceNum.toInt ≤ b.sequenceNum.toInt →
    a.numObjects.toInt ≤ b.numObjects.toInt

section Copies

variable {a b c : LSA}

theorem Copy.refl (a : LSA) : Copy a a := ⟨a.linksObjects.length, by rw [List.take_length]⟩

theorem Copy.trans (h : Copy a b) (h' : Copy b c) : Copy a c := by
  obtain ⟨n, ha⟩ := h
  obtain ⟨m, hb⟩ := h'
  refine ⟨min n m, ?_⟩
  rw [ha, hb]
  simp only [List.take_take]

theorem Copy.header (a : LSA) (word : BitVec 32) : Copy { a with versionTtlType := word } a :=
  ⟨a.linksObjects.length, by rw [List.take_length]⟩

theorem Copy.fields (h : Copy a b) : a.senderNodeId = b.senderNodeId ∧ a.sequenceNum = b.sequenceNum ∧
    a.numLinks = b.numLinks ∧ a.numObjects = b.numObjects := by
  obtain ⟨n, ha⟩ := h
  rw [ha]
  exact ⟨rfl, rfl, rfl, rfl⟩

/-- Of two copies, one goes on where the other is cut. -/
theorem Copy.prefix_or (ha : Copy a c) (hb : Copy b c) :
    a.linksObjects <+: b.linksObjects ∨ b.linksObjects <+: a.linksObjects := by
  obtain ⟨n, ha⟩ := ha
  obtain ⟨m, hb⟩ := hb
  rw [ha, hb]
  rcases le_total n m with hnm | hmn
  · exact .inl (List.take_prefix_take_left hnm)
  · exact .inr (List.take_prefix_take_left hmn)

theorem Agree.copies {a' b' : LSA} (ca : Copy a a') (cb : Copy b b') (h : Agree a' b') : Agree a b := by
  obtain ⟨sa, qa, -, oa⟩ := ca.fields
  obtain ⟨sb, qb, -, ob⟩ := cb.fields
  constructor
  · intro hs hq
    rw [sa, sb] at hs
    rw [qa, qb] at hq
    obtain ⟨c, hac, hbc⟩ := h.original hs hq
    exact ⟨c, ca.trans hac, cb.trans hbc⟩
  · intro hs hq
    rw [sa, sb] at hs
    rw [qa, qb] at hq
    rw [oa, ob]
    exact h.later hs hq

end Copies

/-! ### Steps -/

/-- The packets after a step of node `x`: copies of those before, and at most one LSA, which `x` makes. -/
def Derives (w w' : World ι) (x : ι) : Prop :=
  ∃ o : Option LSA, (∀ a, o = some a → ∃ fresh size, createPacket fresh typeLsa (w.daemon x).myNodeId
    (w.daemon x).sequenceNumber (w.daemon x).dl (w.daemon x).ol = .ok (a, size)) ∧
      ∀ a, Extant w' a → (∃ b, Extant w b ∧ Copy a b) ∨ o = some a

section Steps

variable [DecidableEq ι] {ok : List UInt8 → Prop} {w w' : World ι} {x : ι} {d : Daemon} {out : List Effect}

theorem extant_after {a : LSA} (h : Extant (w.after x out d) a) : Extant w a ∨
    (∃ g ∈ sends x out, g.Carries a) ∨ ∃ e ∈ d.rt.table, e.lsa = some a := by
  rcases h with ⟨g, hg, hc⟩ | ⟨y, e, he, ha⟩
  · rcases List.mem_append.mp hg with hg | hg
    · exact .inl (.inl ⟨g, hg, hc⟩)
    · exact .inr (.inl ⟨g, hg, hc⟩)
  · by_cases hy : y = x
    · subst hy
      rw [after_daemon_self] at he
      exact .inr (.inr ⟨e, he, ha⟩)
    · rw [after_daemon_of_ne hy] at he
      exact .inl (.inr ⟨y, e, he, ha⟩)

theorem derives_of_copies (hsend : ∀ g ∈ sends x out, ∃ a b, g.Carries a ∧ Copy a b ∧ Extant w b)
    (hstored : ∀ e ∈ d.rt.table, ∀ a, e.lsa = some a → ∃ b, Extant w b ∧ Copy a b) :
    Derives w (w.after x out d) x := by
  refine ⟨none, ?_, fun a ha => .inl ?_⟩
  · rintro a ⟨⟩
  · rcases extant_after ha with ha | ⟨g, hg, hc⟩ | ⟨e, he, ha⟩
    · exact ⟨a, ha, .refl a⟩
    · obtain ⟨a', b, hc', hcopy, hb⟩ := hsend g hg
      obtain rfl := hc.unique hc'
      exact ⟨b, hb, hcopy⟩
    · exact hstored e he a ha

omit [DecidableEq ι] in
theorem sends_copy (hl : Lawful N w) {slot k i : ℕ} {l : LinkEntry} {s : RoutingEntry} {lsa : LSA}
    (ok : Sendable (w.daemon x) slot k i l s lsa) :
    ∀ g ∈ sends x [rtSendto lsa l s.lsaSize], ∃ a b, g.Carries a ∧ Copy a b ∧ Extant w b := by
  intro g hg
  obtain ⟨n, hn⟩ := carries_stored (hl.sound x) ok.entry ok.stored l hg
  exact ⟨_, lsa, hn, ⟨n, rfl⟩, .inr ⟨x, s, List.mem_of_getElem? ok.entry, ok.stored⟩⟩

/-- **A timeout.** Only `flood` makes an LSA. -/
theorem derives_tick (hl : Lawful N w) (h : Tick (w.daemon x) out d) : Derives w (w.after x out d) x := by
  have stored : d.sequenceNumber = (w.daemon x).sequenceNumber →
      ∀ e ∈ d.rt.table, ∀ a, e.lsa = some a → ∃ b, Extant w b ∧ Copy a b := by
    intro hseq e he a ha
    rcases created_tick h he ha with ha | ⟨-, count⟩
    · exact ⟨a, .inr ⟨x, ha⟩, .refl a⟩
    · rw [hseq] at count
      have := nextSequence_eq_ok count
      omega
  cases h with
  | @own fresh lsa size k rt seq packet entry update count =>
    refine ⟨some lsa, ?_, fun a ha => ?_⟩
    · rintro a ⟨⟩
      exact ⟨fresh, size, packet⟩
    · rcases extant_after ha with ha | ⟨g, hg, -⟩ | ⟨e, he, ha⟩
      · exact .inl ⟨a, ha, .refl a⟩
      · cases hg
      · obtain ⟨hw, -⟩ := createPacket_lsa packet
        rcases lsa_updateEntry (by rw [hw]; rfl) update he ha with ha | rfl
        · exact .inl ⟨a, .inr ⟨x, ha⟩, .refl a⟩
        · exact .inr rfl
  | send ok => exact derives_of_copies (sends_copy hl ok) (stored rfl)
  | resend ok checker pending budget => exact derives_of_copies (sends_copy hl ok) (stored rfl)
  | _ => exact derives_of_copies (by simp [sends]) (stored rfl)

/-- **A datagram.** The packet is acknowledged and stored as a copy. -/
theorem derives_handled {g : Datagram ι} (sent : g ∈ w.wire) {fresh : Fresh} {lsa : LSA} {f : Int32}
    {size : ℕ} (recv : rtRecvfrom (w.daemon x).dl (g.received N) = .ok (some (lsa, f, size)))
    (h : Handled (w.daemon x) fresh lsa f size out d) : Derives w (w.after x out d) x := by
  have extant : Extant w lsa := .inl ⟨g, sent, received_carries recv⟩
  refine derives_of_copies ?_ fun e he a ha => ?_
  · cases h with
    | accepted type newer link update objects =>
      intro g' hg'
      obtain ⟨host, port, bytes, hm, rfl⟩ := mem_sends.mp hg'
      simp only [rtSendto, List.mem_cons, List.not_mem_nil, or_false, reduceCtorEq,
        Effect.sendto.injEq] at hm
      obtain ⟨rfl, rfl, rfl⟩ := hm
      exact ⟨_, lsa, carries_rtSendto _ (rtRecvfrom_size recv), ⟨_, rfl⟩, extant⟩
    | _ => simp [sends]
  · rcases lsa_handled h he ha with ha | ⟨rfl, -⟩
    · exact ⟨a, .inr ⟨x, ha⟩, .refl a⟩
    · exact ⟨lsa, extant, .header lsa _⟩

omit [DecidableEq ι] in
theorem Originated.extant (hi : Originated N w) {a : LSA} (h : Extant w a) : Made w a := by
  rcases h with ⟨g, hg, hc⟩ | ⟨y, e, he, ha⟩
  · obtain ⟨b, hb, hm⟩ := hi.wire g hg
    obtain rfl := hc.unique hb
    exact hm
  · exact hi.stored y e he a ha

omit [DecidableEq ι] in
theorem Originated.madeBy (hv : N.Distinct) (hl : Lawful N w) (hi : Originated N w) {a : LSA} (h : Extant w a)
    (sender : a.senderNodeId = (w.daemon x).myNodeId) : MadeBy (w.daemon x) a := by
  obtain ⟨y, hy⟩ := hi.extant h
  have hxy : y = x := by
    refine hv.ids ?_
    change (N.self y).id = (N.self x).id
    rw [← hl.myNodeId y, ← hl.myNodeId x, ← hy.sender]
    exact sender
  exact hxy ▸ hy

theorem toInt_numObjects (ol : LocalObjects) : (Int32.ofNat ol.numObjects).toInt = ol.objects.length := by
  have h : ol.objects.length ≤ 10000 := ol.bounded
  exact Int32.toInt_ofNat_of_lt (by unfold LocalObjects.numObjects; omega)

omit [DecidableEq ι] in
/-- A step keeps agreement: what is new has a higher number than what the node made before, and no fewer
objects. -/
theorem Derives.agree (hv : N.Distinct) (hl : Lawful N w) (hi : Originated N w) (h : Derives w w' x)
    (hr : Related Agree (Extant w)) : Related Agree (Extant w') := by
  obtain ⟨o, hnew, hext⟩ := h
  refine hr.extend Copy .refl (fun _ _ _ _ => Agree.copies) (fun c hc => ?_) hext
  obtain ⟨fresh, size, packet⟩ := hnew c hc
  obtain ⟨-, hid, hq, -⟩ := createPacket_lsa packet
  obtain ⟨-, hcount, -⟩ := createPacket_counts packet
  have earlier : ∀ a, Extant w a → a.senderNodeId = c.senderNodeId →
      a.sequenceNum.toInt < c.sequenceNum.toInt ∧ a.numObjects.toInt ≤ c.numObjects.toInt := by
    intro a ha hs
    have hm := hi.madeBy hv hl ha (hs.trans hid)
    obtain ⟨ol, hol, hn, -⟩ := hm.first (hl.sound x)
    rw [hq, hn, hcount, toInt_numObjects, toInt_numObjects]
    exact ⟨hm.number.2, by exact_mod_cast hol.length_le⟩
  refine ⟨⟨fun _ _ => ⟨c, .refl c, .refl c⟩, fun _ _ => le_rfl⟩, fun a ha => ⟨?_, ?_⟩⟩
  · refine ⟨fun hs hn => ?_, fun hs _ => (earlier a ha hs).2⟩
    have := (earlier a ha hs).1
    rw [hn] at this
    exact absurd this (lt_irrefl _)
  · refine ⟨fun hs hn => ?_, fun hs hle => ?_⟩
    · have := (earlier a ha hs.symm).1
      rw [hn] at this
      exact absurd this (lt_irrefl _)
    · exact absurd (earlier a ha hs.symm).1 (not_lt.mpr hle)

/-- **Every step of a network keeps agreement.** -/
theorem agree_step {l : ι × Event × List Effect} (hv : N.Distinct) (hl : Lawful N w) (hi : Originated N w)
    (hr : Related Agree (Extant w)) (h : (network N ok).step w l w') : Related Agree (Extant w') := by
  obtain ⟨x, ev, out⟩ := l
  obtain ⟨hp, d, ha, rfl⟩ := h
  cases ev with
  | timeout fresh =>
    have key := (after_trail (timeout_trail ha)).preserves
      (I := fun w => Lawful N w ∧ Originated N w ∧ Related Agree (Extant w)) ?_ ⟨hl, hi, hr⟩
    · exact key.2.2
    · rintro w out _ ⟨hl, hi, hr⟩ ⟨d, ht, rfl⟩
      have hm : NetMicro N ok x w out (w.after x out d) := .tick ht
      exact ⟨lawful_micro hl hm, originated_tick hl hi ht, (derives_tick hl ht).agree hv hl hi hr⟩
  | datagram r fresh =>
    obtain ⟨g, hg, -, -, rfl⟩ := hp
    obtain ⟨lsa, f, size, recv, hh⟩ := receive_handled ha
    exact (derives_handled hg recv hh).agree hv hl hi hr
  | request c uri opened =>
    obtain ⟨rfl, hd⟩ := request_added ha
    have hrt : d.rt = (w.daemon x).rt := by
      rcases hd with rfl | ⟨o, hadd⟩
      · rfl
      · rw [hadd.rest]
    refine (derives_of_copies (by simp [sends]) fun e he a ha => ?_ : Derives w _ x).agree hv hl hi hr
    rw [hrt] at he
    exact ⟨a, .inr ⟨x, e, he, ha⟩, .refl a⟩

end Steps

/-! ### The result -/

section Results

variable [DecidableEq ι] {ok : List UInt8 → Prop} {w : World ι} {a b : LSA}

theorem agree_reachable (hv : N.Distinct) (r : (network N ok).Reachable w) :
    Lawful N w ∧ Originated N w ∧ Related Agree (Extant w) := by
  refine r.invariant (I := fun w => Lawful N w ∧ Originated N w ∧ Related Agree (Extant w)) (fun w h => ?_) ?_
  · refine ⟨lawful_init hv h, originated_init h, fun a b ha => ?_⟩
    obtain ⟨y, hy⟩ := (originated_init h).extant ha
    have := hy.number
    rw [(boot_eq_ok (h.2 y)).2.2.2.1] at this
    have h0 : (0 : Int32).toInt = 0 := by decide
    omega
  · rintro w l w' ⟨hl, hi, hr⟩ h
    refine ⟨?_, originated_step hl hi h, agree_step hv hl hi hr h⟩
    exact (network_trail h).preserves (I := Lawful N) (fun _ _ _ hl hm => lawful_micro hl hm) hl

omit [DecidableEq ι] in
theorem names_prefix_of (hv : N.Distinct) (hl : Lawful N w) (ha : Made w a) (hb : Made w b)
    (sender : a.senderNodeId = b.senderNodeId) (fewer : a.numObjects.toInt ≤ b.numObjects.toInt)
    {names names' : List CString} (hn : objectNames a = .ok names) (hn' : objectNames b = .ok names') :
    names <+: names' := by
  obtain ⟨x, hx⟩ := ha
  obtain ⟨y, hy⟩ := hb
  obtain rfl : x = y := by
    refine hv.ids ?_
    change (N.self x).id = (N.self y).id
    rw [← hl.myNodeId x, ← hl.myNodeId y, ← hx.sender, ← hy.sender]
    exact sender
  obtain ⟨ol, hol, hcount, hnames⟩ := hx.first (hl.sound x)
  obtain ⟨ol', hol', hcount', hnames'⟩ := hy.first (hl.sound x)
  rw [hcount, hcount', toInt_numObjects, toInt_numObjects] at fewer
  rw [hnames names hn, hnames' names' hn']
  exact (List.prefix_of_prefix_length_le hol hol' (by exact_mod_cast fewer)).map _

/-- **Agreement.** Whatever is lost, duplicated or reordered: of two packets of a node with the same number,
on the wire or stored anywhere, one is a copy of the other, but for the header word and where it was cut. What
is read of a packet with a higher number names the same objects, in the same order, and possibly more. -/
theorem agreement (hv : N.Distinct) (r : (network N ok).Reachable w) (ha : Extant w a) (hb : Extant w b)
    (sender : a.senderNodeId = b.senderNodeId) :
    (a.sequenceNum = b.sequenceNum → a.numLinks = b.numLinks ∧ a.numObjects = b.numObjects ∧
      (a.linksObjects <+: b.linksObjects ∨ b.linksObjects <+: a.linksObjects)) ∧
    (a.sequenceNum.toInt ≤ b.sequenceNum.toInt → ∀ names names', objectNames a = .ok names →
      objectNames b = .ok names' → names <+: names') := by
  obtain ⟨hl, hi, hr⟩ := agree_reachable hv r
  refine ⟨fun number => ?_, fun number names names' hn hn' => ?_⟩
  · obtain ⟨c, hac, hbc⟩ := (hr a b ha hb).original sender number
    obtain ⟨-, -, la, oa⟩ := hac.fields
    obtain ⟨-, -, lb, ob⟩ := hbc.fields
    exact ⟨la.trans lb.symm, oa.trans ob.symm, hac.prefix_or hbc⟩
  · exact names_prefix_of hv hl (hi.extant ha) (hi.extant hb) sender ((hr a b ha hb).later sender number) hn hn'

theorem exists_copies : ∃ w a b, (network triangleNet fun _ => True).Reachable w ∧ Extant w a ∧ Extant w b ∧
    a ≠ b ∧ a.senderNodeId = b.senderNodeId ∧ a.sequenceNum = b.sequenceNum := by
  have key : (System.follow (World.move triangleNet fun _ => True) heardRun
      (triangleNet.start triangleNet_boots)).map (fun p =>
        (p.2.daemon 0).rt.table.any fun e => (p.2.daemon 1).rt.table.any fun e' =>
          e.lsa.any fun a => e'.lsa.any fun b =>
            decide (a ≠ b ∧ a.senderNodeId = b.senderNodeId ∧ a.sequenceNum = b.sequenceNum)) =
      some true := by decide +kernel
  obtain ⟨⟨ls, w⟩, h, key⟩ := Option.map_eq_some_iff.mp key
  simp only [List.any_eq_true, Option.any_eq_true, decide_eq_true_eq] at key
  obtain ⟨e, he, e', he', a, ha, b, hb, hne, sender, number⟩ := key
  have r := (System.Run.init (init_start triangleNet_boots)).follow (fun _ _ _ _ => step_move) h
  exact ⟨w, a, b, ⟨_, r⟩, .inr ⟨0, e, he, ha⟩, .inr ⟨1, e', he', hb⟩, hne, sender, number⟩

theorem agreement_heardRun : ∃ w a b, (network triangleNet fun _ => True).Reachable w ∧ Extant w a ∧
    Extant w b ∧ a ≠ b ∧ a.numLinks = b.numLinks ∧ a.numObjects = b.numObjects ∧
      (a.linksObjects <+: b.linksObjects ∨ b.linksObjects <+: a.linksObjects) := by
  obtain ⟨w, a, b, r, ha, hb, hne, sender, number⟩ := exists_copies
  exact ⟨w, a, b, r, ha, hb, hne, (agreement triangleNet_valid.toDistinct r ha hb sender).1 number⟩

end Results

end RoutingDaemon
