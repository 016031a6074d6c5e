import RoutingDaemon.AckWait

/-!
# Freshness of the stored LSAs

* `storedFor`: the LSA stored for a node; `keptOrReset_tick`, `storedFor_handled`: what a step does to
  it.
* `Heard`: the runs of a daemon, with the numbers of the LSAs of one node that were handled since its
  entry was last reset; `exists_heard`: every run is one of them.
* `Freshest`: the stored LSA is the newest of these; `freshest_act`, `freshest_stored`.
-/

namespace RoutingDaemon

/-- The LSA stored in the entry that is found for node `s`. -/
def storedFor (rt : RoutingTable) (s : Int32) : Option LSA :=
  (getRoutingEntry rt s).bind (storedLsa rt)

section Stored

variable {rt rt' : RoutingTable} {s : Int32}

theorem storedFor_of_entry {k : ℕ} {e : RoutingEntry} (hk : getRoutingEntry rt s = some k)
    (he : rt.table[k]? = some e) : storedFor rt s = e.lsa := by
  rw [storedFor, hk, Option.bind_some, storedLsa, he, Option.bind_some]

theorem storedFor_modify {k : ℕ} {f : RoutingEntry → RoutingEntry} (hid : ∀ e, (f e).id = e.id) :
    storedFor (rt.modify k f) s = if getRoutingEntry rt s = some k then
      (rt.table[k]?).bind fun e => (f e).lsa else storedFor rt s := by
  unfold storedFor
  rw [getRoutingEntry_modify hid]
  cases hj : getRoutingEntry rt s with
  | none => simp
  | some j =>
    obtain ⟨e, he, -⟩ := getRoutingEntry_eq_some hj
    simp only [Option.bind_some, storedLsa, getElem?_modify, Option.some.injEq]
    by_cases hk : j = k
    · subst hk; simp [he]
    · rw [if_neg hk, he, Option.map_some, if_neg (Ne.symm hk)]

theorem storedFor_keep {k : ℕ} {f : RoutingEntry → RoutingEntry} (hid : ∀ e, (f e).id = e.id)
    (hl : ∀ e, (f e).lsa = e.lsa) : storedFor (rt.modify k f) s = storedFor rt s := by
  rw [storedFor_modify hid]
  split_ifs with hk
  · rw [storedFor, hk, Option.bind_some, storedLsa]
    simp only [hl]
  · rfl

theorem storedFor_discard {k : ℕ} {e : RoutingEntry} (he : rt.table[k]? = some e) :
    storedFor (rt.modify k RoutingEntry.discard) s = storedFor rt s ∨
      (storedFor (rt.modify k RoutingEntry.discard) s = none ∧ e.id = s) := by
  rw [storedFor_modify (by exact fun _ => rfl)]
  split_ifs with hk
  · obtain ⟨e', he', hid⟩ := getRoutingEntry_eq_some hk
    rw [he, Option.some.injEq] at he'
    exact .inr ⟨by rw [he]; rfl, he' ▸ hid⟩
  · exact .inl rfl

theorem storedFor_push {e : RoutingEntry} (h : rt.push e = .ok rt')
    (hn : getRoutingEntry rt e.id = none) :
    storedFor rt' s = if s = e.id then e.lsa else storedFor rt s := by
  split_ifs with hs
  · have he : rt'.table[rt.table.length]? = some e := by
      rw [getElem?_push h, List.getElem?_concat_length]
    rw [hs]
    exact storedFor_of_entry (getRoutingEntry_push_self h hn) he
  · cases hj : getRoutingEntry rt s with
    | some j =>
      obtain ⟨e', he, -⟩ := getRoutingEntry_eq_some hj
      have he' : rt'.table[j]? = some e' := by
        rw [getElem?_push h, List.getElem?_append_left (List.getElem?_eq_some_iff.mp he).1, he]
      rw [storedFor_of_entry hj he, storedFor_of_entry (getRoutingEntry_push h hj) he']
    | none =>
      rw [storedFor, storedFor, hj, getRoutingEntry_push_ne h hs hj]
      rfl

variable {fresh : Fresh} {dl : DirectLinks} {lsa : LSA} {size : ℕ} {nexthop : Int32}

theorem storedFor_updateEntry (ht : getType lsa.versionTtlType = typeLsa)
    (h : updateEntry fresh (getRoutingEntry rt lsa.senderNodeId) rt dl lsa size nexthop = .ok rt') :
    storedFor rt' s = if s = lsa.senderNodeId then some lsa else storedFor rt s := by
  cases hk : getRoutingEntry rt lsa.senderNodeId with
  | none =>
    rw [hk, updateEntry_none ht] at h
    exact storedFor_push h hk
  | some k =>
    rw [hk, updateEntry_some ht] at h
    cases h
    obtain ⟨e, he, hid⟩ := getRoutingEntry_eq_some hk
    rw [storedFor_modify (by exact fun _ => rfl)]
    by_cases hs : s = lsa.senderNodeId
    · subst hs
      rw [if_pos hk, if_pos rfl, he]
      rfl
    · have hne : getRoutingEntry rt s ≠ some k := fun hj => by
        obtain ⟨e', he', hid'⟩ := getRoutingEntry_eq_some hj
        rw [he, Option.some.injEq] at he'
        exact hs (hid'.symm.trans (he' ▸ hid))
      rw [if_neg hne, if_neg hs]

end Stored

/-- What a step that emits `out` may do to the LSA stored for another node `s`, if it handles no
LSA of `s`: nothing, or a down declaration resets it. -/
def KeptOrReset (s : Int32) (old new : Option LSA) (out : List Effect) : Prop :=
  new = old ∨ new = none ∧ (.giveUp s ∈ out ∨ .expire s ∈ out)

section Steps

variable {d d' : Daemon} {out : List Effect} {s : Int32}

theorem keptOrReset_tick (h : Tick d out d') (hs : s ≠ d.myNodeId) :
    KeptOrReset s (storedFor d.rt s) (storedFor d'.rt s) out := by
  cases h with
  | own packet entry update count =>
    refine .inl ((storedFor_updateEntry (Stores.own packet).type
      (updateEntry_own packet entry update)).trans ?_)
    rw [if_neg (by rw [(createPacket_lsa packet).2.1]; exact hs)]
  | send ok => exact .inl (storedFor_keep (fun _ => rfl) fun _ => rfl)
  | resend ok checker pending budget => exact .inl (storedFor_keep (fun _ => rfl) fun _ => rfl)
  | @giveUp k i m l e c link checker pending budget =>
    unfold KeptOrReset
    dsimp only
    rw [modifyChecker, storedFor_keep (by exact fun _ => rfl) (by exact fun _ => rfl)]
    refine (storedFor_discard link.entry).imp_right fun h => ⟨h.1, .inl ?_⟩
    rw [h.2]
    exact List.mem_singleton_self _
  | age pos entry up more => exact .inl (storedFor_keep (fun _ => rfl) fun _ => rfl)
  | expire pos entry last =>
    refine (storedFor_discard entry).imp_right fun h => ⟨h.1, .inr ?_⟩
    rw [h.2]
    exact List.mem_singleton_self _
  | clock => exact .inl rfl

theorem keptOrReset_trail (h : Trail Tick d out d') (hs : s ≠ d.myNodeId) :
    KeptOrReset s (storedFor d.rt s) (storedFor d'.rt s) out ∧ d'.myNodeId = d.myNodeId := by
  induction h with
  | refl => exact ⟨.inl rfl, rfl⟩
  | tail _ h1 ih =>
    obtain ⟨ih, hid⟩ := ih
    refine ⟨?_, (micro_static (.tick h1)).2.trans hid⟩
    rcases keptOrReset_tick h1 (hid ▸ hs) with h2 | ⟨h2, ho⟩
    · rcases ih with h3 | ⟨h3, ho⟩
      · exact .inl (h2.trans h3)
      · exact .inr ⟨h2.trans h3, ho.imp (List.mem_append_left _) (List.mem_append_left _)⟩
    · exact .inr ⟨h2, ho.imp (List.mem_append_right _) (List.mem_append_right _)⟩

theorem filtered_eq {rt : RoutingTable} {type : BitVec 32} {q : Int32} :
    filtered rt (getRoutingEntry rt s) type q = match storedFor rt s with
      | some old => (type = typeLsa && decide (q.toInt ≤ old.sequenceNum.toInt)) ||
          (type = typeAck && q != old.sequenceNum)
      | none => false := by
  unfold filtered storedFor
  cases hk : getRoutingEntry rt s with
  | none => rfl
  | some k => rfl

theorem filtered_lsa {rt : RoutingTable} {q : Int32} :
    filtered rt (getRoutingEntry rt s) typeLsa q = true ↔
      ∃ a, storedFor rt s = some a ∧ q.toInt ≤ a.sequenceNum.toInt := by
  have h1 : ¬ typeLsa = typeAck := by decide
  rw [filtered_eq]
  cases storedFor rt s with
  | none => simp
  | some a => simp [h1]

theorem not_filtered_lsa {rt : RoutingTable} {q : Int32} :
    filtered rt (getRoutingEntry rt s) typeLsa q = false ↔
      ∀ a, storedFor rt s = some a → a.sequenceNum.toInt < q.toInt := by
  rw [← Bool.not_eq_true, filtered_lsa]
  simp

/-- **What a packet does to the LSA stored for a node.** -/
theorem storedFor_handled {fresh : Fresh} {lsa : LSA} {f : Int32} {size : ℕ}
    (h : Handled d fresh lsa f size out d') : storedFor d'.rt s =
      if getType lsa.versionTtlType = typeLsa ∧ lsa.senderNodeId = s ∧
        ∀ a, storedFor d.rt s = some a → a.sequenceNum.toInt < lsa.sequenceNum.toInt
      then some (acceptedLsa lsa) else storedFor d.rt s := by
  cases h with
  | ignored why =>
    rw [if_neg]
    rintro ⟨ht, rfl, hn⟩
    rcases why with h1 | ⟨h1, -⟩
    · rw [ht, filtered_lsa] at h1
      obtain ⟨a, ha, hle⟩ := h1
      exact absurd (hn a ha) (not_lt.mpr hle)
    · exact h1 ht
  | accepted type newer link update objects =>
    refine (storedFor_updateEntry (by rw [acceptedLsa_type]; exact type) update).trans ?_
    by_cases hs : s = lsa.senderNodeId
    · subst hs
      -- an LSA that is not newer is filtered
      have hlt : ∀ a, storedFor d.rt lsa.senderNodeId = some a →
          a.sequenceNum.toInt < lsa.sequenceNum.toInt := fun a ha => by
        by_contra hle
        rw [filtered_lsa.mpr ⟨a, ha, not_lt.mp hle⟩] at newer
        cases newer
      rw [if_pos (by rfl), if_pos ⟨type, rfl, hlt⟩]
    · rw [if_neg (by exact hs), if_neg fun h => hs h.2.1.symm]
  | credited type current update =>
    have ht : getType lsa.versionTtlType ≠ typeLsa := by rw [type]; decide
    obtain ⟨_, _, _, own, o, _, _, _, hown, ho, _, rfl⟩ := creditAck_eq_ok update
    rw [if_neg fun h => ht h.1]
    exact storedFor_keep (fun _ => rfl) fun _ => rfl

end Steps

/-! ### Runs -/

/-- The numbers heard of node `s` after one more pass: those of its LSAs are added, and all are
dropped when the LSA stored for `s` is reset. -/
def heardAfter (s : Int32) (d d' : Daemon) (ev : Event) (heard : List Int32) : List Int32 :=
  if storedFor d.rt s ≠ none ∧ storedFor d'.rt s = none then []
  else match ev with
    | .datagram r _ =>
      match rtRecvfrom d.dl r with
      | .ok (some (lsa, _, _)) =>
        if getType lsa.versionTtlType = typeLsa ∧ lsa.senderNodeId = s then
          heard ++ [lsa.sequenceNum]
        else heard
      | _ => heard
    | _ => heard

/-- The runs of a daemon, with the numbers of the LSAs of node `s` that were handled since the LSA
stored for `s` was last reset. -/
inductive Heard (f : Files) (s : Int32) : Daemon → List Int32 → Prop
  | boot {d : Daemon} (h : boot f = .ok d) : Heard f s d []
  | step {d d' : Daemon} {heard : List Int32} {ev : Event} {out : List Effect}
      (r : Heard f s d heard) (h : act ev d = .ok (d', out)) :
      Heard f s d' (heardAfter s d d' ev heard)

theorem exists_heard {f : Files} (s : Int32) {d : Daemon} (r : (daemonSystem f).Reachable d) :
    ∃ heard, Heard f s d heard := by
  refine r.invariant (I := fun d => ∃ heard, Heard f s d heard) (fun d h => ⟨[], .boot h⟩) ?_
  rintro d l d' ⟨heard, hr⟩ h
  exact ⟨_, hr.step h⟩

/-- What the stored LSA of a node says about the numbers heard of it: it has the largest. -/
def Freshest (stored : Option LSA) (heard : List Int32) : Prop :=
  match stored with
  | none => heard = []
  | some a => a.sequenceNum ∈ heard ∧ ∀ q ∈ heard, q.toInt ≤ a.sequenceNum.toInt

section Passes

variable {d d' : Daemon} {out : List Effect} {s : Int32}

theorem acceptedLsa_sequenceNum (lsa : LSA) : (acceptedLsa lsa).sequenceNum = lsa.sequenceNum := rfl

theorem Freshest.heard {stored : Option LSA} {heard : List Int32} (h : Freshest stored heard)
    (lsa : LSA) : Freshest
      (if ∀ a, stored = some a → a.sequenceNum.toInt < lsa.sequenceNum.toInt
        then some (acceptedLsa lsa) else stored) (heard ++ [lsa.sequenceNum]) := by
  cases stored with
  | none =>
    rw [if_pos (by simp), show heard = [] from h]
    refine ⟨List.mem_singleton_self _, fun q hq => ?_⟩
    rw [List.nil_append, List.mem_singleton] at hq
    rw [hq, acceptedLsa_sequenceNum]
  | some a =>
    obtain ⟨hm, hle⟩ := h
    simp only [Option.some.injEq, forall_eq']
    split_ifs with hlt
    · refine ⟨List.mem_append_right _ (List.mem_singleton_self _), fun q hq => ?_⟩
      rw [acceptedLsa_sequenceNum]
      rcases List.mem_append.mp hq with hq | hq
      · exact (hle q hq).trans hlt.le
      · rw [List.mem_singleton.mp hq]
    · refine ⟨List.mem_append_left _ hm, fun q hq => ?_⟩
      rcases List.mem_append.mp hq with hq | hq
      · exact hle q hq
      · rw [List.mem_singleton.mp hq]
        exact not_lt.mp hlt

theorem Freshest.keptOrReset {heard : List Int32}
    (h : Freshest (storedFor d.rt s) heard)
    (hk : KeptOrReset s (storedFor d.rt s) (storedFor d'.rt s) out) : Freshest (storedFor d'.rt s)
      (if storedFor d.rt s ≠ none ∧ storedFor d'.rt s = none then [] else heard) := by
  split_ifs with hr
  · rw [hr.2]
    rfl
  · rcases hk with he | ⟨hn, -⟩
    · rw [he]; exact h
    · -- the LSA was already gone
      have ho : storedFor d.rt s = none := by
        by_contra ho
        exact hr ⟨ho, hn⟩
      rw [hn, ← ho]
      exact h

/-- **One pass keeps the stored LSA the newest.** -/
theorem freshest_act {ev : Event} {heard : List Int32} (hs : s ≠ d.myNodeId)
    (hf : Freshest (storedFor d.rt s) heard) (h : act ev d = .ok (d', out)) :
    Freshest (storedFor d'.rt s) (heardAfter s d d' ev heard) := by
  cases ev with
  | timeout fresh => exact hf.keptOrReset (keptOrReset_trail (timeout_trail h) hs).1
  | request c uri opened =>
    have hk : KeptOrReset s (storedFor d.rt s) (storedFor d'.rt s) out := by
      obtain ⟨-, rfl | ⟨_, _, _, _, -, rfl⟩⟩ := request_cases h <;> exact .inl rfl
    exact hf.keptOrReset hk
  | datagram r fresh =>
    obtain ⟨lsa, f, size, recv, hh⟩ := receive_handled h
    have hst := storedFor_handled (s := s) hh
    have hkeep : ¬ (storedFor d.rt s ≠ none ∧ storedFor d'.rt s = none) := by
      rintro ⟨h1, h2⟩
      rw [hst] at h2
      split_ifs at h2
      exact h1 h2
    rw [heardAfter, if_neg hkeep, recv, hst]
    by_cases hlsa : getType lsa.versionTtlType = typeLsa ∧ lsa.senderNodeId = s
    · simpa only [hlsa, true_and, if_true] using hf.heard lsa
    · simp only [if_neg hlsa]
      rw [if_neg fun h => hlsa ⟨h.1, h.2.1⟩]
      exact hf

theorem Heard.freshest {f : Files} {heard : List Int32} (h : Heard f s d heard)
    (hs : s ≠ d.myNodeId) : Freshest (storedFor d.rt s) heard := by
  induction h with
  | @boot d h =>
    have : storedFor d.rt s = none := by
      obtain ⟨-, ht, -⟩ := boot_eq_ok h
      unfold storedFor
      cases hk : getRoutingEntry d.rt s with
      | none => rfl
      | some k =>
        obtain ⟨e, he, -⟩ := getRoutingEntry_eq_some hk
        rw [Option.bind_some, storedLsa, he, Option.bind_some]
        rw [ht, List.getElem?_mapIdx, Option.map_eq_some_iff] at he
        obtain ⟨l, -, rfl⟩ := he
        rfl
    rw [this]
    rfl
  | step r h ih =>
    have hid := (act_static h).2
    exact freshest_act (hid ▸ hs) (ih (hid ▸ hs)) h

/-- The early return keeps everything that is not newer away. -/
theorem Freshest.lt_of_newer {heard : List Int32} {q : Int32}
    (hf : Freshest (storedFor d.rt s) heard)
    (h : filtered d.rt (getRoutingEntry d.rt s) typeLsa q = false) :
    ∀ p ∈ heard, p.toInt < q.toInt := by
  intro p hp
  cases hst : storedFor d.rt s with
  | none =>
    rw [hst] at hf
    rw [show heard = [] from hf] at hp
    cases hp
  | some a =>
    rw [hst] at hf
    by_contra hle
    rw [filtered_lsa.mpr ⟨a, hst, (not_lt.mp hle).trans (hf.2 p hp)⟩] at h
    cases h

theorem tick_accept (h : Tick d out d') (q : Int32) : .accept s q ∉ out := by
  cases h <;> simp [rtSendto]

/-- **What is accepted is newer than all that was heard.** -/
theorem accept_newer {ev : Event} {heard : List Int32} (hf : Freshest (storedFor d.rt s) heard)
    (h : act ev d = .ok (d', out)) {q : Int32} (hq : .accept s q ∈ out) :
    ∀ p ∈ heard, p.toInt < q.toInt := by
  cases ev with
  | timeout fresh =>
    have := (timeout_trail h).forall_mem (I := fun _ => True) (P := fun x => x ≠ .accept s q)
      (fun _ _ _ _ _ => trivial) (fun _ _ _ _ ht x hx he => tick_accept ht q (he ▸ hx)) trivial
    exact absurd rfl (this _ hq)
  | request c uri opened =>
    obtain ⟨rfl, -⟩ := request_cases h
    cases hq
  | datagram r fresh =>
    obtain ⟨lsa, f, size, recv, hh⟩ := receive_handled h
    cases hh with
    | ignored => cases hq
    | credited => cases hq
    | accepted type newer link update objects =>
      simp only [rtSendto, List.mem_cons, reduceCtorEq, Effect.accept.injEq, List.not_mem_nil,
        or_false, false_or] at hq
      obtain ⟨rfl, rfl⟩ := hq
      exact hf.lt_of_newer newer

/-- **What is not newer changes nothing**, but for the checkers if it is an ACK. -/
theorem stale_unchanged {r : Received} {fresh : Fresh} {lsa a : LSA} {g : Int32} {n : ℕ}
    (h : act (.datagram r fresh) d = .ok (d', out))
    (recv : rtRecvfrom d.dl r = .ok (some (lsa, g, n)))
    (ha : storedFor d.rt lsa.senderNodeId = some a)
    (hle : lsa.sequenceNum.toInt ≤ a.sequenceNum.toInt) : d'.gol = d.gol ∧
      d'.rt.table.map RoutingEntry.bare = d.rt.table.map RoutingEntry.bare ∧
      (getType lsa.versionTtlType = typeLsa → d'.rt = d.rt) := by
  obtain ⟨lsa', f, size, recv', hh⟩ := receive_handled h
  rw [recv] at recv'
  cases recv'
  cases hh with
  | ignored => exact ⟨rfl, rfl, fun _ => rfl⟩
  | accepted type newer link update objects =>
    rw [filtered_lsa.mpr ⟨a, ha, hle⟩] at newer
    cases newer
  | credited type current update =>
    refine ⟨rfl, ?_, fun ht => ?_⟩
    · obtain ⟨_, _, _, _, _, _, _, _, _, _, _, rfl⟩ := creditAck_eq_ok update
      exact map_modify fun _ => rfl
    · rw [type] at ht
      exact absurd ht (by decide)

/-- **Only a down declaration resets.** -/
theorem reset_declared {ev : Event} (hs : s ≠ d.myNodeId) (h : act ev d = .ok (d', out))
    (h0 : storedFor d.rt s ≠ none) (h1 : storedFor d'.rt s = none) :
    .giveUp s ∈ out ∨ .expire s ∈ out := by
  cases ev with
  | timeout fresh =>
    rcases (keptOrReset_trail (timeout_trail h) hs).1 with he | ⟨-, ho⟩
    · exact absurd (he.symm.trans h1) h0
    · exact ho
  | request c uri opened =>
    obtain ⟨-, rfl | ⟨_, _, _, _, -, rfl⟩⟩ := request_cases h <;> exact absurd h1 h0
  | datagram r fresh =>
    obtain ⟨lsa, f, size, recv, hh⟩ := receive_handled h
    rw [storedFor_handled hh] at h1
    split_ifs at h1
    exact absurd h1 h0

end Passes

/-- **Freshness.** Along every run, the LSA stored for another node is the newest that was handled
since the last reset, or none was; what is accepted is newer than all of these; an LSA that is not
newer than the stored one changes nothing, and an ACK with such a number nothing but checkers; and
only a down declaration resets. -/
theorem freshest_stored (f : Files) (s : Int32) :
    (∀ d, (daemonSystem f).Reachable d → ∃ heard, Heard f s d heard) ∧
      ∀ d heard, Heard f s d heard → s ≠ d.myNodeId → Freshest (storedFor d.rt s) heard ∧
        ∀ ev d' out, act ev d = .ok (d', out) →
          (∀ q, .accept s q ∈ out → ∀ p ∈ heard, p.toInt < q.toInt) ∧
          (∀ r fresh lsa g n a, ev = .datagram r fresh →
            rtRecvfrom d.dl r = .ok (some (lsa, g, n)) → lsa.senderNodeId = s →
            storedFor d.rt s = some a → lsa.sequenceNum.toInt ≤ a.sequenceNum.toInt →
              d'.gol = d.gol ∧
              d'.rt.table.map RoutingEntry.bare = d.rt.table.map RoutingEntry.bare ∧
              (getType lsa.versionTtlType = typeLsa → d'.rt = d.rt)) ∧
          (storedFor d.rt s ≠ none → storedFor d'.rt s = none →
            .giveUp s ∈ out ∨ .expire s ∈ out) := by
  refine ⟨fun d => exists_heard s, fun d heard r hs => ?_⟩
  have hf := r.freshest hs
  refine ⟨hf, fun ev d' out h => ⟨fun q hq => accept_newer hf h hq, ?_, reset_declared hs h⟩⟩
  rintro r fresh lsa g n a rfl recv rfl ha hle
  exact stale_unchanged h recv ha hle

/-- Node 1 hears of node 2 once. -/
theorem freshest_stored_firstLsa : ∃ d heard, Heard forkFiles 2 d heard ∧ heard ≠ [] ∧
    Freshest (storedFor d.rt 2) heard := by
  have key : (boot forkFiles >>= fun d =>
      act (.datagram (.got (cstr [66]) (plainPacket typeLsa 2).bytes) zeros) d >>= fun p =>
        .ok (d, p)).map (fun p => (storedFor p.2.1.rt 2).isSome && decide (p.2.1.myNodeId = 1)) =
          .ok true := by decide +kernel
  obtain ⟨⟨d, d', out⟩, hd, hp⟩ := exists_of_map_eq_ok key
  simp only [Bool.and_eq_true, decide_eq_true_eq, Option.isSome_iff_exists] at hp
  obtain ⟨⟨a, ha⟩, hid⟩ := hp
  obtain ⟨d₀, h0, h⟩ := bind_eq_ok.mp hd
  obtain ⟨p, h1, h⟩ := bind_eq_ok.mp h
  cases h
  have r := (Heard.boot (s := 2) h0).step h1
  obtain ⟨hf, -⟩ := (freshest_stored forkFiles 2).2 d' _ r (by rw [hid]; decide)
  refine ⟨d', _, r, fun hn => ?_, hf⟩
  rw [hn, ha] at hf
  exact absurd hf.1 (by simp)

end RoutingDaemon
