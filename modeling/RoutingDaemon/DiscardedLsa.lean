import RoutingDaemon.DeclaredDown

/-!
# An LSA that was discarded

* `Behind`: a link behind which the loop goes on.
* `retransmitLinks_freedIff`: the loop reads freed memory exactly when it sends again behind a link at which it
  gave up the originator of the packet.
* `sends_stored_iff`: every packet of a call is stored, unless the call `SendsDiscarded`.
-/

namespace RoutingDaemon

/-! ### Behind a link -/

/-- In `ls` there is a link of `s` whose neighbour no earlier link of `g` has, and `freed` holds or an
earlier link of `g` leads to node `id`. -/
def Behind (g s : LinkEntry × ℕ → Prop) (id : Int32) (freed : Prop) (ls : List (LinkEntry × ℕ)) : Prop :=
  ∃ pre q post, ls = pre ++ q :: post ∧ s q ∧ (freed ∨ ∃ p ∈ pre, g p ∧ p.1.id = id) ∧
    ∀ p ∈ pre, g p → p.1.id ≠ q.1.id

section Behind

variable {g s g' s' : LinkEntry × ℕ → Prop} {id : Int32} {freed freed' : Prop} {p : LinkEntry × ℕ}
  {ls : List (LinkEntry × ℕ)}

theorem not_behind_nil : ¬ Behind g s id freed [] := by
  rintro ⟨pre, q, post, h, -⟩
  simp at h

theorem behind_cons : Behind g s id freed (p :: ls) ↔ s p ∧ freed ∨
    Behind g (fun q => s q ∧ (g p → p.1.id ≠ q.1.id)) id (freed ∨ g p ∧ p.1.id = id) ls := by
  constructor
  · rintro ⟨pre, q, post, h, hs, hf, hne⟩
    cases pre with
    | nil =>
      rw [List.nil_append, List.cons.injEq] at h
      obtain ⟨rfl, rfl⟩ := h
      exact .inl ⟨hs, by simpa using hf⟩
    | cons a pre =>
      rw [List.cons_append, List.cons.injEq] at h
      obtain ⟨rfl, rfl⟩ := h
      refine .inr ⟨pre, q, post, rfl, ⟨hs, hne p List.mem_cons_self⟩, ?_,
        fun b hb => hne b (List.mem_cons_of_mem _ hb)⟩
      simp only [List.mem_cons, exists_eq_or_imp] at hf
      rwa [or_assoc]
  · rintro (⟨hs, hf⟩ | ⟨pre, q, post, rfl, ⟨hs, hp⟩, hf, hne⟩)
    · exact ⟨[], p, ls, rfl, hs, .inl hf, by simp⟩
    · refine ⟨p :: pre, q, post, rfl, hs, ?_, ?_⟩
      · simp only [List.mem_cons, exists_eq_or_imp]
        rwa [or_assoc] at hf
      · simp only [List.mem_cons, forall_eq_or_imp]
        exact ⟨hp, hne⟩

theorem behind_congr (hg : ∀ q ∈ ls, g q ↔ g' q) (hs : ∀ q ∈ ls, s q ↔ s' q) (hf : freed ↔ freed') :
    Behind g s id freed ls ↔ Behind g' s' id freed' ls := by
  unfold Behind
  refine exists_congr fun pre => exists_congr fun q => exists_congr fun post => and_congr_right ?_
  rintro rfl
  have hq : ∀ p ∈ pre, g p ↔ g' p := fun p hp => hg p (List.mem_append_left _ hp)
  rw [hs q (by simp), hf]
  refine and_congr_right fun _ => and_congr (or_congr_right ?_) ?_
  · exact exists_congr fun p => and_congr_right fun hp => and_congr_left' (hq p hp)
  · exact forall₂_congr fun p hp => imp_congr_left (hq p hp)

theorem behind_skip (hg : ¬ g p) (hs : ¬ s p) : Behind g s id freed (p :: ls) ↔
    Behind g s id freed ls := by
  simp [behind_cons, hg, hs]

end Behind

/-! ### The loop -/

/-- The computation reads freed memory if `P` holds, and returns otherwise. -/
structure FreedIff {α : Type} (x : Except Fault α) (P : Prop) : Prop where
  freed : x = .error .useAfterFree ↔ P
  returns : (∃ r, x = .ok r) ↔ ¬ P

section FreedIff

variable {α β : Type} {x : Except Fault α} {P Q : Prop}

theorem FreedIff.congr (h : FreedIff x P) (he : P ↔ Q) : FreedIff x Q := by
  rwa [← he]

theorem FreedIff.map (h : FreedIff x P) (f : α → β) : FreedIff (x >>= fun a => .ok (f a)) P := by
  refine ⟨?_, ?_⟩
  · rw [← h.freed, bind_eq_error]
    simp
  · rw [← h.returns]
    cases x <;> simp

theorem freedIff_ok (a : α) (h : ¬ P) : FreedIff (.ok a) P := ⟨by simp [h], by simp [h]⟩

theorem freedIff_error (h : P) : FreedIff (.error .useAfterFree : Except Fault α) P :=
  ⟨by simp [h], by simp [h]⟩

end FreedIff

section Loop

variable {dl : DirectLinks} {rt rt' : RoutingTable} {slot k m i size : ℕ} {fw id id' : Int32}
  {p q : LinkEntry × ℕ} {ht : LisoHash} {ls : List (LinkEntry × ℕ)}

theorem sendsAgain_congr (hc : cellAt rt' k q.2 = cellAt rt k q.2) {P : Prop}
    (hs : (∃ s, statusOf rt' q.1.id = some s ∧ s ≠ statusDown) ↔
      (∃ s, statusOf rt q.1.id = some s ∧ s ≠ statusDown) ∧ P) :
    SendsAgain rt' k fw q ↔ SendsAgain rt k fw q ∧ P := by
  simp only [SendsAgain, getChecker_iff, hc, hs, and_assoc]

theorem statusOf_discard_up (hm : getRoutingEntry rt id = some m) :
    (∃ s, statusOf (rt.modify m RoutingEntry.discard) id' = some s ∧ s ≠ statusDown) ↔
      (∃ s, statusOf rt id' = some s ∧ s ≠ statusDown) ∧ id ≠ id' := by
  rw [statusOf_discard]
  simp only [getRoutingEntry_inj hm, eq_comm (a := id')]
  split_ifs with h
  · simp [h]
  · simp [h]

/-- **The loop reads freed memory exactly when it sends again after the packet was discarded**: before
the loop, or at a link behind which it goes on. -/
theorem retransmitLinks_freedIff (h : Walks dl rt slot id ls) :
    FreedIff (retransmitLinks slot slot size fw ls rt ht)
      (Behind (GivesUp rt slot fw) (SendsAgain rt slot fw) id (storedLsa rt slot = none) ls) := by
  induction ls generalizing rt ht with
  | nil => exact freedIff_ok _ not_behind_nil
  | cons p ls ih =>
    obtain ⟨l, i⟩ := p
    obtain ⟨m, e, c, hm, he, hc⟩ := h.head
    dsimp only at hm hc
    by_cases hg : GivesUp rt slot fw (l, i)
    · have hs := hg.not_sendsAgain
      have hcells : ∀ j, cellAt (rt.modify m RoutingEntry.discard) slot j = cellAt rt slot j :=
        fun j => cellAt_keep fun _ => rfl
      rw [retransmitLinks_giveUp hm he hg]
      refine ((ih (h.next hcells (fun _ => getRoutingEntry_modify (by exact fun _ => rfl) _)
        (h.linked.modify (fun _ => rfl) fun _ hc => hc))).map _).congr ?_
      rw [behind_cons, storedLsa_modifyChecker]
      simp only [hs, false_and, false_or, hg, true_and, forall_const]
      have hiff : m = slot ↔ l.id = id := by rw [← getRoutingEntry_inj h.own, hm, Option.some.injEq]
      refine behind_congr (fun q hq => givesUp_congr (h.cell hcells hq)) (fun q hq => ?_)
        (storedLsa_discard.trans (or_congr_right hiff))
      refine sendsAgain_congr (h.cell hcells hq) ?_
      rw [statusOf_modifyChecker, statusOf_discard_up hm]
    by_cases hs : SendsAgain rt slot fw (l, i)
    · rw [retransmitLinks_resend hm he hs]
      cases hlsa : storedLsa rt slot with
      | none =>
        refine freedIff_error (behind_cons.mpr (.inl ⟨hs, ?_⟩))
        trivial
      | some lsa =>
        refine ((ih (h.next (fun _ => rfl) (fun _ => rfl) h.linked)).map _).congr ?_
        rw [behind_cons, storedLsa_modifyChecker, hlsa]
        simp only [hg, false_and, or_false, false_imp_iff, and_true, reduceCtorEq, and_false, false_or]
        refine behind_congr (fun q hq => givesUp_congr (h.cell (fun _ => rfl) hq)) (fun q hq => ?_) Iff.rfl
        rw [← and_true (SendsAgain rt slot fw q)]
        refine sendsAgain_congr (h.cell (fun _ => rfl) hq) ?_
        rw [statusOf_modifyChecker, and_true]
    · rw [retransmitLinks_skip hc hm he hg hs]
      exact (ih h.tail).congr (behind_skip hg hs).symm

end Loop

/-! ### One call -/

/-- The call of `retransmit_missing` for the LSA of entry `slot` sends again behind a link at which it
gives up the originator of that LSA. -/
def SendsDiscarded (dl : DirectLinks) (rt : RoutingTable) (slot : ℕ) (e : RoutingEntry) : Prop :=
  e.lsa ≠ none ∧ ∃ pre q post, dl.neighbours = pre ++ q :: post ∧ SendsAgain rt slot e.forwarderId q ∧
    (∃ p ∈ pre, GivesUp rt slot e.forwarderId p ∧ p.1.id = e.id) ∧
      ∀ p ∈ pre, GivesUp rt slot e.forwarderId p → p.1.id ≠ q.1.id

theorem retransmitMissing_freedIff {d : Daemon} (h : Prepared d) {slot : ℕ} {e : RoutingEntry}
    (he : d.rt.table[slot]? = some e) :
    FreedIff (retransmitMissing slot d.dl d.rt e.lsaSize e.forwarderId d.gol)
      (SendsDiscarded d.dl d.rt slot e) := by
  have hs : storedLsa d.rt slot = e.lsa := by rw [storedLsa, he]; rfl
  unfold retransmitMissing
  rw [hs]
  cases hl : e.lsa with
  | none => exact freedIff_ok _ fun hd => hd.1 hl
  | some lsa =>
    have hk := h.countable.found slot e lsa he hl
    obtain ⟨e', he', hid⟩ := getRoutingEntry_eq_some hk
    rw [he, Option.some.injEq] at he'
    subst he'
    dsimp only
    rw [hk, deref_some, ok_bind]
    have hw : Walks d.dl d.rt slot lsa.senderNodeId d.dl.neighbours :=
      ⟨h.linked, hk, fun p hp => ⟨neighbour_mem hp, h.checker he hp⟩, nodup_neighbours d.dl⟩
    refine (retransmitLinks_freedIff hw).congr ?_
    simp only [Behind, SendsDiscarded, hs, hl, hid, ne_eq, reduceCtorEq, false_or,
      not_false_eq_true, true_and]

/-- What is sent is stored in the entry of its originator. -/
def SentFromTable (d : Daemon) (out : List Effect) : Prop :=
  ∀ host port bytes, .sendto host port bytes ∈ out → ∃ k s lsa l,
    getRoutingEntry d.rt lsa.senderNodeId = some k ∧ d.rt.table[k]? = some s ∧ s.lsa = some lsa ∧
      .sendto host port bytes = rtSendto lsa l s.lsaSize

/-- The call of `retransmit_missing` for the LSA of entry `slot` sends only what is stored when it is
sent. -/
def SendsStored (d : Daemon) (slot : ℕ) (e : RoutingEntry) : Prop :=
  ∃ rt gol ms, retransmitMissing slot d.dl d.rt e.lsaSize e.forwarderId d.gol =
      .ok (rt, gol, ms.map Prod.snd) ∧
    Trail (fun d ms d' => Retry d ms d' ∧ SentFromTable d (ms.map Prod.snd)) d ms
      { d with rt := rt, gol := gol }

theorem Prepared.sentFromTable {d d' : Daemon} {ms : List (Option (ℕ × ℕ) × Effect)} (h : Prepared d)
    (hr : Retry d ms d') : SentFromTable d (ms.map Prod.snd) := by
  cases hr with
  | @resend slot k i l s lsa c ok other checker pending budget =>
    intro host port bytes hm
    exact ⟨slot, s, lsa, l, h.countable.found slot s lsa ok.entry ok.stored, ok.entry, ok.stored,
      List.mem_singleton.mp hm⟩
  | giveUp =>
    intro host port bytes hm
    simp at hm

/-- **An LSA is sent from the table, in every call of every retransmission round, exactly when the call
does not go on sending behind a link at which it gives up the originator of its LSA.** -/
theorem sends_stored_iff {f : Files} {d : Daemon} (r : (daemonSystem f).Reachable d) {slot : ℕ}
    {rt : RoutingTable} {gol : LisoHash} {out : List Effect} {e : RoutingEntry}
    (before : retransmitEntries d.dl (List.range slot) d.rt d.gol = .ok (rt, gol, out))
    (entry : rt.table[slot]? = some e) :
    SendsStored { d with rt := rt, gol := gol } slot e ↔ ¬ SendsDiscarded d.dl rt slot e := by
  obtain ⟨ms, -, tr⟩ := retransmitEntries_trail before
  have hp : Prepared { d with rt := rt, gol := gol } :=
    tr.preserves (I := Prepared) (fun _ _ _ => prepared_retry) (prepared_reachable r)
  rw [← (retransmitMissing_freedIff hp entry).returns]
  constructor
  · rintro ⟨rt', gol', ms', h, -⟩
    exact ⟨_, h⟩
  · rintro ⟨⟨rt', gol', out'⟩, h⟩
    obtain ⟨ms', rfl, tr'⟩ := retransmitMissing_trail (d := { d with rt := rt, gol := gol }) entry h
    refine ⟨rt', gol', ms', h, (tr'.strengthen (I := Prepared) (fun _ _ _ => prepared_retry) hp).mono ?_⟩
    rintro d₁ ms₁ d₂ ⟨h1, h2⟩
    exact ⟨h2, h1.sentFromTable h2⟩

/-! ### A run -/

/-- The files of node 1, with neighbours 2, 3 and 4. -/
def starFiles : Files where
  rows := [linkOn 1 65, linkOn 2 66, linkOn 3 67, linkOn 4 68]
  hostname := cstr [65]
  lines := []
  filefile := []

/-- Node 4 acknowledges the first two LSAs of node 1, the others nothing. Before the third flood the LSA of
node 2 comes from node 3, so it goes to nodes 2 and 4, and 4 ages. Then node 2 acknowledges the own LSA only,
and node 4 sends an LSA when the next round is to give node 2 up. -/
def discardRun : List Event :=
  List.replicate 6 (.timeout zeros) ++
  .datagram (.got (cstr [68]) (plainPacket typeAck 1).bytes) zeros :: List.replicate 10 (.timeout zeros) ++
  .datagram (.got (cstr [68]) { plainPacket typeAck 1 with sequenceNum := 1 }.bytes) zeros ::
    List.replicate 9 (.timeout zeros) ++
  [.datagram (.got (cstr [67]) (plainPacket typeLsa 2).bytes) zeros, .timeout zeros,
    .datagram (.got (cstr [66]) { plainPacket typeAck 1 with sequenceNum := 2 }.bytes) zeros] ++
  List.replicate 3 (.timeout zeros) ++ [.datagram (.got (cstr [68]) (plainPacket typeLsa 4).bytes) zeros]

/-- The round after `discardRun`, up to the call for entry `slot`. -/
def beforeCall (slot : ℕ) :
    Except Fault (Daemon × RoutingTable × LisoHash × List Effect × RoutingEntry) := do
  let d ← boot starFiles
  let d ← exec discardRun d
  let (rt, gol, out) ← retransmitEntries d.dl (List.range slot) d.rt d.gol
  let e ← deref rt.table[slot]?
  return (d, rt, gol, out, e)

theorem beforeCall_eq_ok {slot : ℕ} {d : Daemon} {rt : RoutingTable} {gol : LisoHash} {out : List Effect}
    {e : RoutingEntry} (h : beforeCall slot = .ok (d, rt, gol, out, e)) :
    (daemonSystem starFiles).Reachable d ∧
      retransmitEntries d.dl (List.range slot) d.rt d.gol = .ok (rt, gol, out) ∧
      rt.table[slot]? = some e := by
  obtain ⟨d₀, h0, h⟩ := bind_eq_ok.mp h
  obtain ⟨d₁, h1, h⟩ := bind_eq_ok.mp h
  obtain ⟨⟨rt₁, gol₁, out₁⟩, h2, h⟩ := bind_eq_ok.mp h
  obtain ⟨e₁, h3, h⟩ := bind_eq_ok.mp h
  cases h
  exact ⟨reachable_exec (.init h0) h1, h2, deref_eq_ok.mp h3⟩

/-- In that round the own LSA is stored when it is sent: nothing is given up on its account. -/
theorem sends_stored_iff_discardRun : ∃ d rt gol e, (daemonSystem starFiles).Reachable d ∧
    rt.table[0]? = some e ∧ SendsStored { d with rt := rt, gol := gol } 0 e := by
  have key : (beforeCall 0).map (fun p => decide (∀ q ∈ p.1.dl.neighbours, (cellAt p.2.1 0 q.2).all
      fun c => decide (c.retransmit < retransmitTime - 1)) ) = .ok true := by decide +kernel
  obtain ⟨⟨d, rt, gol, out, e⟩, h, hp⟩ := exists_of_map_eq_ok key
  rw [decide_eq_true_eq] at hp
  obtain ⟨r, before, entry⟩ := beforeCall_eq_ok h
  refine ⟨d, rt, gol, e, r, entry, (sends_stored_iff r before entry).mpr ?_⟩
  rintro ⟨-, pre, q, post, hls, -, ⟨p, hp', hg, -⟩, -⟩
  obtain ⟨-, c, hc, -, hb⟩ := hg
  have hall := hp p (by rw [hls]; exact List.mem_append_left _ hp')
  rw [getChecker_iff.mp hc, Option.all_some, decide_eq_true_eq] at hall
  omega

/-- **The LSA of node 2 is sent to node 4 after it was discarded.** -/
theorem exists_discarded_sent : ∃ d rt gol out e, (daemonSystem starFiles).Reachable d ∧
    retransmitEntries d.dl (List.range 1) d.rt d.gol = .ok (rt, gol, out) ∧ rt.table[1]? = some e ∧
      retransmitMissing 1 d.dl rt e.lsaSize e.forwarderId gol = .error .useAfterFree ∧
      ¬ SendsStored { d with rt := rt, gol := gol } 1 e ∧ timeout zeros d = .error .useAfterFree := by
  have key : (beforeCall 1).map (fun p => decide ((retransmitMissing 1 p.1.dl p.2.1 p.2.2.2.2.lsaSize
      p.2.2.2.2.forwarderId p.2.2.1).map (fun _ => ()) = .error .useAfterFree) &&
        decide ((timeout zeros p.1).map (fun _ => ()) = .error .useAfterFree)) = .ok true := by
    decide +kernel
  obtain ⟨⟨d, rt, gol, out, e⟩, h, hp⟩ := exists_of_map_eq_ok key
  simp only [Bool.and_eq_true, decide_eq_true_eq] at hp
  obtain ⟨hcall, hpass⟩ := hp
  obtain ⟨r, before, entry⟩ := beforeCall_eq_ok h
  have hcall' := error_of_map hcall
  refine ⟨d, rt, gol, out, e, r, before, entry, hcall', ?_, error_of_map hpass⟩
  rintro ⟨rt', gol', ms, hok, -⟩
  exact absurd (hcall'.symm.trans hok) (by simp)

end RoutingDaemon
