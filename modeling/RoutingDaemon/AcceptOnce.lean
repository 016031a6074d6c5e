import RoutingDaemon.LoopFree
import RoutingDaemon.AckWait
import RoutingDaemon.Lib.Dedup

/-!
# What is accepted, and how often

* `HasSeen`: an entry stores an LSA with this number or a later one; `hasSeen_tick`,
  `hasSeen_handled`: it does until its node is declared down.
* `marks`: the effects of a daemon, as those of a duplicate filter for other nodes; `Remembers`,
  `remembers_micro`: the daemon refines the filter, whatever its configuration.
* `Numbered`: the numbers on the wire and in the tables were used by their nodes, so that no node
  accepts its own LSA if ids are distinct; `numbered_micro`, `accept_ne_own_run`.
* `accepts_once`: acceptances over all runs; `exists_revival`: a run in which a dead node is revived.
-/

namespace RoutingDaemon

open Dedup

/-- The entry that is found for node `s` stores an LSA with number `c`, or a later one. -/
def HasSeen (rt : RoutingTable) (s : Int32) (c : ℤ) : Prop :=
  ∃ k e a, getRoutingEntry rt s = some k ∧ rt.table[k]? = some e ∧ e.lsa = some a ∧
    c ≤ a.sequenceNum.toInt

section Seen

variable {rt rt' : RoutingTable} {s : Int32} {c : ℤ}

theorem HasSeen.modify {k : ℕ} {f : RoutingEntry → RoutingEntry} (h : HasSeen rt s c)
    (hid : ∀ e, (f e).id = e.id)
    (hf : ∀ e a, rt.table[k]? = some e → e.id = s → e.lsa = some a → c ≤ a.sequenceNum.toInt →
      ∃ a', (f e).lsa = some a' ∧ c ≤ a'.sequenceNum.toInt) : HasSeen (rt.modify k f) s c := by
  obtain ⟨j, e, a, hj, he, ha, hc⟩ := h
  have hj' : getRoutingEntry (rt.modify k f) s = some j := (getRoutingEntry_modify hid s).trans hj
  have he' : (rt.modify k f).table[j]? = some (if k = j then f e else e) := by
    rw [getElem?_modify, he]; rfl
  by_cases hk : k = j
  · obtain ⟨e₁, he₁, hs⟩ := getRoutingEntry_eq_some hj
    rw [he, Option.some.injEq] at he₁
    obtain ⟨a', ha', hc'⟩ := hf e a (hk ▸ he) (he₁ ▸ hs) ha hc
    exact ⟨j, _, a', hj', he', by rw [if_pos hk]; exact ha', hc'⟩
  · exact ⟨j, _, a, hj', he', by rw [if_neg hk]; exact ha, hc⟩

theorem HasSeen.keep {k : ℕ} {f : RoutingEntry → RoutingEntry} (h : HasSeen rt s c)
    (hid : ∀ e, (f e).id = e.id) (hl : ∀ e, (f e).lsa = e.lsa) : HasSeen (rt.modify k f) s c :=
  h.modify hid fun e a _ _ ha hc => ⟨a, (hl e).trans ha, hc⟩

theorem HasSeen.discard {k : ℕ} {e : RoutingEntry} (h : HasSeen rt s c)
    (he : rt.table[k]? = some e) (hne : e.id ≠ s) : HasSeen (rt.modify k RoutingEntry.discard) s c := by
  refine h.modify (fun _ => rfl) fun e' _ he' hid => ?_
  rw [he, Option.some.injEq] at he'
  exact absurd (he' ▸ hid) hne

variable {fresh : Fresh} {dl : DirectLinks} {lsa : LSA} {size : ℕ} {nexthop : Int32}

theorem hasSeen_updateEntry (ht : getType lsa.versionTtlType = typeLsa)
    (h : updateEntry fresh (getRoutingEntry rt lsa.senderNodeId) rt dl lsa size nexthop = .ok rt') :
    HasSeen rt' lsa.senderNodeId lsa.sequenceNum.toInt := by
  cases hk : getRoutingEntry rt lsa.senderNodeId with
  | none =>
    rw [hk, updateEntry_none ht] at h
    obtain ⟨e, ha, hid, h⟩ : ∃ e : RoutingEntry, e.lsa = some lsa ∧ e.id = lsa.senderNodeId ∧
        rt.push e = .ok rt' := ⟨_, rfl, rfl, h⟩
    rw [← hid] at hk ⊢
    refine ⟨_, e, lsa, getRoutingEntry_push_self h hk, ?_, ha, le_rfl⟩
    rw [getElem?_push h, List.getElem?_concat_length]
  | some k =>
    rw [hk, updateEntry_some ht] at h
    cases h
    obtain ⟨e, he, -⟩ := getRoutingEntry_eq_some hk
    refine ⟨k, storeLsa fresh dl lsa size nexthop
      (setRoute (defaultTtl - getTtl lsa.versionTtlType + 1) nexthop e), lsa,
      ?_, ?_, rfl, le_rfl⟩
    · exact (getRoutingEntry_modify (fun _ => by rfl) _).trans hk
    · rw [getElem?_modify, he, Option.map_some, if_pos rfl]

theorem HasSeen.updateEntry (hs : HasSeen rt s c) (ht : getType lsa.versionTtlType = typeLsa)
    (h : updateEntry fresh (getRoutingEntry rt lsa.senderNodeId) rt dl lsa size nexthop = .ok rt')
    (hc : s = lsa.senderNodeId → c ≤ lsa.sequenceNum.toInt) : HasSeen rt' s c := by
  cases hk : getRoutingEntry rt lsa.senderNodeId with
  | none =>
    rw [hk, updateEntry_none ht] at h
    obtain ⟨j, e, a, hj, he, ha⟩ := hs
    refine ⟨j, e, a, getRoutingEntry_push h hj, ?_, ha⟩
    rw [getElem?_push h, List.getElem?_append_left (List.getElem?_eq_some_iff.mp he).1, he]
  | some k =>
    rw [hk, updateEntry_some ht] at h
    cases h
    obtain ⟨e, he, hid⟩ := getRoutingEntry_eq_some hk
    refine hs.modify (fun _ => rfl) fun e' _ he' hid' _ _ => ⟨lsa, rfl, hc ?_⟩
    rw [he, Option.some.injEq] at he'
    rw [← hid', ← he', hid]

theorem HasSeen.filtered {q : Int32} (h : HasSeen rt s c) (hq : q.toInt ≤ c) :
    filtered rt (getRoutingEntry rt s) typeLsa q = true := by
  obtain ⟨k, e, a, hk, he, ha, hc⟩ := h
  unfold RoutingDaemon.filtered
  rw [hk, Option.bind_some, he, Option.bind_some, ha]
  simp only [decide_true, Bool.true_and, Bool.or_eq_true, decide_eq_true_eq]
  exact .inl (hq.trans hc)

end Seen

/-! ### A daemon refines a duplicate filter -/

/-- An effect, as a mark of a duplicate filter for the LSAs of other nodes than `own`. -/
def mark (own : Int32) : Effect → Option (Mark Int32 ℤ)
  | .accept nodeId sequenceNum =>
    if nodeId = own then none else some (.accept nodeId sequenceNum.toInt)
  | .giveUp nodeId => some (.forget nodeId)
  | .expire nodeId => some (.forget nodeId)
  | .sendto .. => none

/-- Effects, as marks of a duplicate filter. -/
def marks (own : Int32) (out : List Effect) : List (Mark Int32 ℤ) := out.filterMap (mark own)

theorem marks_append (own : Int32) (xs ys : List Effect) :
    marks own (xs ++ ys) = marks own xs ++ marks own ys := List.filterMap_append ..

theorem marks_accepted (own : Int32) (host : CString) (port : Int32) (bytes : List UInt8)
    (s q : Int32) : marks own [.sendto host port bytes, .accept s q] =
      if s = own then [] else [.accept s q.toInt] := by
  by_cases hs : s = own <;> simp [marks, List.filterMap_cons, mark, hs]

theorem forget_mem_marks {own s : Int32} {out : List Effect} :
    .forget s ∈ marks own out ↔ .giveUp s ∈ out ∨ .expire s ∈ out := by
  unfold marks
  rw [List.mem_filterMap]
  constructor
  · rintro ⟨e, he, hm⟩
    cases e with
    | accept nodeId q =>
      rw [mark] at hm
      split_ifs at hm
      cases hm
    | giveUp => cases hm; exact .inl he
    | expire => cases hm; exact .inr he
    | sendto => cases hm
  · rintro (h | h) <;> exact ⟨_, h, rfl⟩

section Daemons

variable {d d' : Daemon} {out : List Effect} {s : Int32} {c : ℤ}

theorem tick_marks (own : Int32) (h : Tick d out d') :
    marks own out = [] ∨ ∃ id, marks own out = [.forget id] := by
  cases h with
  | giveUp => exact .inr ⟨_, rfl⟩
  | expire => exact .inr ⟨_, rfl⟩
  | _ => exact .inl rfl

theorem handled_sequence {fresh : Fresh} {lsa : LSA} {f : Int32} {size : ℕ}
    (h : Handled d fresh lsa f size out d') : d'.sequenceNumber = d.sequenceNumber := by
  cases h <;> rfl

theorem micro_sequence (h : Micro d out d') : d.sequenceNumber.toInt ≤ d'.sequenceNumber.toInt := by
  cases h with
  | tick h => exact tick_sequence h
  | receive recv h => rw [handled_sequence h]
  | add objects => exact le_rfl

/-- After a timeout a node has still been seen, or was declared down. -/
theorem hasSeen_tick (h : Tick d out d') (hs : HasSeen d.rt s c)
    (hc : s = d.myNodeId → c ≤ d.sequenceNumber.toInt) :
    HasSeen d'.rt s c ∨ .giveUp s ∈ out ∨ .expire s ∈ out := by
  cases h with
  | own packet entry update count =>
    obtain ⟨-, hid, hq, -⟩ := createPacket_lsa packet
    exact .inl (hs.updateEntry (Stores.own packet).type (updateEntry_own packet entry update)
      fun he => by rw [hq]; exact hc (he.trans hid))
  | send ok => exact .inl (hs.keep (fun _ => rfl) fun _ => rfl)
  | resend ok checker pending budget => exact .inl (hs.keep (fun _ => rfl) fun _ => rfl)
  | @giveUp k i m l e a link checker pending budget =>
    by_cases he : e.id = s
    · exact .inr (.inl (by rw [← he]; exact List.mem_singleton_self _))
    · exact .inl ((hs.discard link.entry he).keep (fun _ => rfl) fun _ => rfl)
  | age pos entry up more => exact .inl (hs.keep (fun _ => rfl) fun _ => rfl)
  | @expire i e pos entry last =>
    by_cases he : e.id = s
    · exact .inr (.inr (by rw [← he]; exact List.mem_singleton_self _))
    · exact .inl (hs.discard entry he)
  | clock => exact .inl hs

theorem hasSeen_handled {fresh : Fresh} {lsa : LSA} {f : Int32} {size : ℕ}
    (h : Handled d fresh lsa f size out d') (hs : HasSeen d.rt s c) : HasSeen d'.rt s c := by
  cases h with
  | ignored => exact hs
  | accepted type newer link update objects =>
    refine hs.updateEntry (by rw [acceptedLsa_type]; exact type) update fun he => ?_
    -- an LSA that is not newer is filtered
    by_contra hlt
    rw [he] at hs
    have : filtered d.rt (getRoutingEntry d.rt lsa.senderNodeId) typeLsa lsa.sequenceNum = true :=
      hs.filtered (not_le.mp hlt).le
    rw [this] at newer
    cases newer
  | credited type current update =>
    obtain ⟨_, _, _, _, _, _, _, _, _, _, _, rfl⟩ := creditAck_eq_ok update
    exact hs.keep (fun _ => rfl) fun _ => rfl

/-- The daemon remembers what it accepted. -/
structure Remembers (h : List (Mark Int32 ℤ)) (d : Daemon) : Prop where
  increasing : Increasing h
  foreign : ∀ q, .accept d.myNodeId q ∉ h
  seen : ∀ s c, last s h = some c → HasSeen d.rt s c

section Remember

variable {h : List (Mark Int32 ℤ)}

theorem Remembers.keep (hr : Remembers h d) (hid : d'.myNodeId = d.myNodeId)
    (hk : ∀ s c, last s h = some c → HasSeen d'.rt s c) : Remembers h d' :=
  ⟨hr.increasing, by rw [hid]; exact hr.foreign, hk⟩

theorem Remembers.forget (hr : Remembers h d) (hid : d'.myNodeId = d.myNodeId)
    (hk : ∀ s' c, last s' h = some c → s' ≠ s → HasSeen d'.rt s' c) :
    Remembers (h ++ [.forget s]) d' := by
  refine ⟨increasing_forget hr.increasing, fun q hq => ?_, fun s' c hl => ?_⟩
  · rw [hid] at hq
    exact hr.foreign q (by simpa using hq)
  · rw [last_append_singleton, after] at hl
    split_ifs at hl with hs
    exact hk s' c hl (Ne.symm hs)

theorem Remembers.accept (hr : Remembers h d) (hid : d'.myNodeId = d.myNodeId)
    (hne : s ≠ d.myNodeId) (hlt : ∀ b, last s h = some b → b < c) (hs : HasSeen d'.rt s c)
    (hk : ∀ s' c', last s' h = some c' → HasSeen d'.rt s' c') :
    Remembers (h ++ [.accept s c]) d' := by
  refine ⟨increasing_accept hr.increasing hlt, fun q hq => ?_, fun s' c' hl => ?_⟩
  · rw [hid, List.mem_append, List.mem_singleton] at hq
    rcases hq with hq | hq
    · exact hr.foreign q hq
    · exact hne (Mark.accept.inj hq).1.symm
  · rw [last_append_singleton, after] at hl
    split_ifs at hl with hs'
    · cases hl
      rw [← hs']
      exact hs
    · exact hk s' c' hl

theorem remembers_tick (hr : Remembers h d) (ht : Tick d out d') :
    Remembers (h ++ marks d.myNodeId out) d' := by
  have hid : d'.myNodeId = d.myNodeId := (micro_static (.tick ht)).2
  have hseen : ∀ s c, last s h = some c →
      HasSeen d'.rt s c ∨ .forget s ∈ marks d.myNodeId out := by
    intro s c hl
    have hne : s ≠ d.myNodeId := by
      rintro rfl
      exact hr.foreign c (mem_of_last hl)
    exact (hasSeen_tick ht (hr.seen s c hl) fun he => absurd he hne).imp_right forget_mem_marks.mpr
  rcases tick_marks d.myNodeId ht with h0 | ⟨id, h1⟩
  · rw [h0] at hseen ⊢
    rw [List.append_nil]
    exact hr.keep hid fun s c hl => (hseen s c hl).resolve_right List.not_mem_nil
  · rw [h1] at hseen ⊢
    refine hr.forget hid fun s c hl hs => (hseen s c hl).resolve_right fun hf => hs ?_
    exact Mark.forget.inj (List.mem_singleton.mp hf)

theorem remembers_handled {fresh : Fresh} {lsa : LSA} {f : Int32} {size : ℕ}
    (hr : Remembers h d) (hh : Handled d fresh lsa f size out d') :
    Remembers (h ++ marks d.myNodeId out) d' := by
  have hkeep : ∀ s c, last s h = some c → HasSeen d'.rt s c :=
    fun s c hl => hasSeen_handled hh (hr.seen s c hl)
  cases hh with
  | @accepted src rt gol type newer link update objects =>
    rw [rtSendto, marks_accepted]
    split_ifs with hown
    · rw [List.append_nil]
      exact hr.keep rfl hkeep
    refine hr.accept rfl hown (fun b hl => ?_) ?_ hkeep
    · -- an LSA that is not newer is filtered
      by_contra hle
      rw [(hr.seen _ b hl).filtered (not_lt.mp hle)] at newer
      cases newer
    · have hs : HasSeen rt (acceptedLsa lsa).senderNodeId (acceptedLsa lsa).sequenceNum.toInt :=
        hasSeen_updateEntry (by rw [acceptedLsa_type]; exact type) update
      exact hs
  | _ =>
    rw [show marks _ [] = [] from rfl, List.append_nil]
    exact hr.keep rfl hkeep

/-- **A small step of a daemon is one of the duplicate filter.** -/
theorem remembers_micro (hr : Remembers h d) (hm : Micro d out d') :
    Remembers (h ++ marks d.myNodeId out) d' := by
  cases hm with
  | tick ht => exact remembers_tick hr ht
  | receive recv hh => exact remembers_handled hr hh
  | add objects =>
    rw [show marks _ [] = [] from rfl, List.append_nil]
    exact hr.keep rfl hr.seen

end Remember

end Daemons

/-! ### Own LSAs -/

theorem lsa_modify {rt : RoutingTable} {k : ℕ} {f : RoutingEntry → RoutingEntry}
    {e : RoutingEntry} {a : LSA} (he : e ∈ (rt.modify k f).table) (ha : e.lsa = some a)
    (hf : ∀ e a, (f e).lsa = some a → e.lsa = some a) : ∃ e ∈ rt.table, e.lsa = some a := by
  rcases mem_modify he with he | ⟨e₀, h0, rfl⟩
  · exact ⟨e, he, ha⟩
  · exact ⟨e₀, List.mem_of_getElem? h0, hf e₀ a ha⟩

theorem lsa_updateEntry {fresh : Fresh} {rt rt' : RoutingTable} {dl : DirectLinks} {lsa : LSA}
    {size : ℕ} {nexthop : Int32} {entry : Option ℕ} (ht : getType lsa.versionTtlType = typeLsa)
    (h : updateEntry fresh entry rt dl lsa size nexthop = .ok rt') {e : RoutingEntry} {a : LSA}
    (he : e ∈ rt'.table) (ha : e.lsa = some a) : (∃ e ∈ rt.table, e.lsa = some a) ∨ a = lsa := by
  cases entry with
  | none =>
    rw [updateEntry_none ht] at h
    rw [getElem?_push h] at he
    rcases List.mem_append.mp he with he | he
    · exact .inl ⟨e, he, ha⟩
    · rw [List.mem_singleton] at he
      subst he
      cases ha
      exact .inr rfl
  | some k =>
    rw [updateEntry_some ht] at h
    cases h
    rcases mem_modify he with he | ⟨e₀, -, rfl⟩
    · exact .inl ⟨e, he, ha⟩
    · cases ha
      exact .inr rfl

theorem created_tick {d d' : Daemon} {out : List Effect} (h : Tick d out d') {e : RoutingEntry}
    {a : LSA} (he : e ∈ d'.rt.table) (ha : e.lsa = some a) : (∃ e ∈ d.rt.table, e.lsa = some a) ∨
      ((∃ fresh size, createPacket fresh typeLsa d.myNodeId d.sequenceNumber d.dl d.ol =
        .ok (a, size)) ∧ nextSequence d.sequenceNumber = .ok d'.sequenceNumber) := by
  cases h with
  | own packet entry update count =>
    obtain ⟨hw, -⟩ := createPacket_lsa packet
    refine (lsa_updateEntry (by rw [hw]; rfl) update he ha).imp_right ?_
    rintro rfl
    exact ⟨⟨_, _, packet⟩, count⟩
  | send ok => exact .inl (lsa_modify he ha fun _ _ h => h)
  | resend ok checker pending budget => exact .inl (lsa_modify he ha fun _ _ h => h)
  | giveUp link checker pending budget =>
    obtain ⟨e₁, he₁, ha₁⟩ := lsa_modify he ha fun _ _ h => h
    exact .inl (lsa_modify he₁ ha₁ fun _ _ h => by cases h)
  | age pos entry up more => exact .inl (lsa_modify he ha fun _ _ h => h)
  | expire pos entry last => exact .inl (lsa_modify he ha fun _ _ h => by cases h)
  | clock => exact .inl ⟨e, he, ha⟩

theorem lsa_tick {d d' : Daemon} {out : List Effect} (h : Tick d out d') {e : RoutingEntry} {a : LSA}
    (he : e ∈ d'.rt.table) (ha : e.lsa = some a) : (∃ e ∈ d.rt.table, e.lsa = some a) ∨
      (a.senderNodeId = d.myNodeId ∧ a.sequenceNum = d.sequenceNumber ∧
        d'.sequenceNumber.toInt = d.sequenceNumber.toInt + 1) := by
  refine (created_tick h he ha).imp_right ?_
  rintro ⟨⟨_, _, packet⟩, count⟩
  obtain ⟨-, hid, hq, -⟩ := createPacket_lsa packet
  exact ⟨hid, hq, nextSequence_eq_ok count⟩

theorem lsa_handled {d d' : Daemon} {fresh : Fresh} {lsa : LSA} {f : Int32} {size : ℕ}
    {out : List Effect} (h : Handled d fresh lsa f size out d') {e : RoutingEntry} {a : LSA}
    (he : e ∈ d'.rt.table) (ha : e.lsa = some a) : (∃ e ∈ d.rt.table, e.lsa = some a) ∨
      (a = acceptedLsa lsa ∧ getType lsa.versionTtlType = typeLsa) := by
  cases h with
  | ignored => exact .inl ⟨e, he, ha⟩
  | accepted type newer link update objects =>
    exact (lsa_updateEntry (by rw [acceptedLsa_type]; exact type) update he ha).imp_right
      fun h => ⟨h, type⟩
  | credited type current update =>
    obtain ⟨_, _, _, _, _, _, _, _, _, _, _, rfl⟩ := creditAck_eq_ok update
    exact .inl (lsa_modify he ha fun _ _ h => h)

theorem current_tick {d d' : Daemon} {out : List Effect} (hd : Sound d) (h : Tick d out d')
    (h0 : 0 ≤ d.sequenceNumber.toInt) (hc : 0 < d.sequenceNumber.toInt →
      HasSeen d.rt d.myNodeId (d.sequenceNumber.toInt - 1)) :
    0 ≤ d'.sequenceNumber.toInt ∧ (0 < d'.sequenceNumber.toInt →
      HasSeen d'.rt d.myNodeId (d'.sequenceNumber.toInt - 1)) := by
  have hforget := forget_ne_own hd h
  have hkeep : 0 < d.sequenceNumber.toInt →
      HasSeen d'.rt d.myNodeId (d.sequenceNumber.toInt - 1) := fun hpos =>
    (hasSeen_tick h (hc hpos) fun _ => by omega).resolve_right hforget
  cases h with
  | own packet entry update count =>
    obtain ⟨-, hid, hq, -⟩ := createPacket_lsa packet
    have hn := nextSequence_eq_ok count
    have hs := hasSeen_updateEntry (Stores.own packet).type (updateEntry_own packet entry update)
    rw [hid, hq] at hs
    dsimp only
    rw [hn, add_sub_cancel_right]
    exact ⟨by omega, fun _ => hs⟩
  | _ => exact ⟨h0, hkeep⟩

section Numbers

variable {ι : Type} {N : Net ι} {ok : List UInt8 → Prop} {w w' : World ι} {x : ι}
  {out : List Effect}

/-- The number of an LSA was used by the node that it names. -/
def Issued (N : Net ι) (w : World ι) (a : LSA) : Prop :=
  ∀ x, a.senderNodeId = (N.self x).id → 0 ≤ a.sequenceNum.toInt ∧
    a.sequenceNum.toInt < (w.daemon x).sequenceNumber.toInt

/-- All numbers were used, and every node stores its last own LSA. -/
structure Numbered (N : Net ι) (w : World ι) : Prop where
  wire : ∀ g ∈ w.wire, ∀ a, g.Carries a → getType a.versionTtlType = typeLsa → Issued N w a
  stored : ∀ x, ∀ e ∈ (w.daemon x).rt.table, ∀ a, e.lsa = some a → Issued N w a
  current : ∀ x, 0 ≤ (w.daemon x).sequenceNumber.toInt ∧
    (0 < (w.daemon x).sequenceNumber.toInt →
      HasSeen (w.daemon x).rt (N.self x).id ((w.daemon x).sequenceNumber.toInt - 1))

variable [DecidableEq ι]

theorem numbered_init {w : World ι} (h : (network N ok).init w) : Numbered N w where
  wire g hg := by rw [h.1] at hg; simp at hg
  stored x e he a ha := by
    rw [(boot_eq_ok (h.2 x)).2.1] at he
    obtain ⟨i, l, rfl⟩ := List.mem_mapIdx.mp he
    cases ha
  current x := by
    have h0 : (w.daemon x).sequenceNumber.toInt = 0 := by
      rw [(boot_eq_ok (h.2 x)).2.2.2.1]
      rfl
    exact ⟨h0.ge, fun h => absurd h (by rw [h0]; exact lt_irrefl 0)⟩

theorem Issued.micro {a : LSA} (h : Issued N w a) (hm : NetMicro N ok x w out w') :
    Issued N w' a := by
  intro y hy
  obtain ⟨h1, h2⟩ := h y hy
  refine ⟨h1, h2.trans_le ?_⟩
  obtain ⟨d, hd, rfl⟩ := hm.micro
  by_cases hyx : y = x
  · subst hyx
    rw [after_daemon_self]
    exact micro_sequence hd
  · rw [after_daemon_of_ne hyx]

/-- **No node accepts its own LSA.** -/
theorem accept_ne_own (hi : Numbered N w) (h : NetMicro N ok x w out w') (q : Int32) :
    .accept (N.self x).id q ∉ out := by
  intro hq
  cases h with
  | tick h => cases h <;> simp [rtSendto] at hq
  | add objects => simp at hq
  | receive sent here admitted recv h =>
    have hc := received_carries recv
    cases h with
    | accepted type newer link update objects =>
      simp only [rtSendto, List.mem_cons, List.not_mem_nil, or_false, reduceCtorEq, false_or,
        Effect.accept.injEq] at hq
      obtain ⟨hid, -⟩ := hq
      obtain ⟨h0, hlt⟩ := hi.wire _ sent _ hc type x hid.symm
      have hseen := (hi.current x).2 (h0.trans_lt hlt)
      rw [hid] at hseen
      rw [hseen.filtered (by omega)] at newer
      cases newer
    | _ => simp at hq

theorem issued_stored (hv : N.Distinct) (hl : Lawful N w) (hi : Numbered N w)
    (h : NetMicro N ok x w out w') {e : RoutingEntry} (he : e ∈ (w'.daemon x).rt.table) {a : LSA}
    (ha : e.lsa = some a) : Issued N w' a := by
  have later : ∀ b, Issued N w b → Issued N w' b := fun _ hb => hb.micro h
  have old : (∃ e ∈ (w.daemon x).rt.table, e.lsa = some a) → Issued N w' a := by
    rintro ⟨e, he, ha⟩
    exact later a (hi.stored x e he a ha)
  cases h with
  | tick h =>
    rw [after_daemon_self] at he
    rcases lsa_tick h he ha with h1 | ⟨hid, hq, hn⟩
    · exact old h1
    · intro y hy
      have hyx : y = x := hv.ids (hy.symm.trans (hid.trans (hl.myNodeId x)))
      subst hyx
      rw [after_daemon_self, hq, hn]
      exact ⟨(hi.current y).1, by omega⟩
  | receive sent here admitted recv h' =>
    have hc := received_carries recv
    rw [after_daemon_self] at he
    rcases lsa_handled h' he ha with h1 | ⟨rfl, ht⟩
    · exact old h1
    · have hb : Issued N w _ := hi.wire _ sent _ hc ht
      exact later (acceptedLsa _) hb
  | add objects =>
    rw [after_daemon_self] at he
    exact old ⟨e, he, ha⟩

/-- The last own LSA stays, or is replaced by the next. -/
theorem current_micro (hl : Lawful N w) (hi : Numbered N w) (h : NetMicro N ok x w out w') :
    0 ≤ (w'.daemon x).sequenceNumber.toInt ∧ (0 < (w'.daemon x).sequenceNumber.toInt →
      HasSeen (w'.daemon x).rt (N.self x).id ((w'.daemon x).sequenceNumber.toInt - 1)) := by
  obtain ⟨h0, hc⟩ := hi.current x
  cases h with
  | tick h =>
    rw [after_daemon_self, ← hl.myNodeId] at *
    exact current_tick (hl.sound x) h h0 hc
  | receive sent here admitted recv h =>
    rw [after_daemon_self]
    rw [handled_sequence h]
    exact ⟨h0, fun hpos => hasSeen_handled h (hc hpos)⟩
  | add objects =>
    rw [after_daemon_self]
    exact ⟨h0, hc⟩

/-- **Every small step keeps the numbers in order.** -/
theorem numbered_micro (hv : N.Distinct) (hl : Lawful N w) (hi : Numbered N w)
    (h : NetMicro N ok x w out w') : Numbered N w' where
  stored y e he a ha := by
    by_cases hy : y = x
    · subst hy
      exact issued_stored hv hl hi h he ha
    · obtain ⟨d, -, rfl⟩ := h.micro
      rw [after_daemon_of_ne hy] at he
      exact (hi.stored y e he a ha).micro h
  current y := by
    by_cases hy : y = x
    · subst hy
      exact current_micro hl hi h
    · obtain ⟨d, -, rfl⟩ := h.micro
      rw [after_daemon_of_ne hy]
      exact hi.current y
  wire g hg a ha ht := by
    refine Issued.micro ?_ h
    rcases sentBy_netMicro hl h hg with hold | ⟨rfl, ⟨e, he, b, hb, n, hc⟩ | ⟨b, hc, hack⟩⟩
    · exact hi.wire g hold a ha ht
    · obtain rfl := ha.unique hc
      exact hi.stored _ e he b hb
    · obtain rfl := ha.unique hc
      rw [hack] at ht
      exact absurd ht (by decide)

end Numbers

/-! ### Runs -/

section Runs

variable {ι : Type} [DecidableEq ι] {N : Net ι} {ok : List UInt8 → Prop} {w : World ι}
  {ls : List (ι × Event × List Effect)}

/-- The effects of node `x` in a run, oldest first. -/
def trace (x : ι) (ls : List (ι × Event × List Effect)) : List Effect :=
  ls.flatMap fun l => if l.1 = x then l.2.2 else []

theorem trace_append_singleton (x y : ι) (ls : List (ι × Event × List Effect)) (ev : Event)
    (out : List Effect) :
    trace x (ls ++ [(y, ev, out)]) = trace x ls ++ if y = x then out else [] := by
  simp [trace]

/-- **After every run, every node remembers what it accepted.** -/
theorem remembers_run (r : (network N ok).Run ls w) (x : ι) :
    (w.daemon x).myNodeId = (N.self x).id ∧
      Remembers (marks (N.self x).id (trace x ls)) (w.daemon x) := by
  refine r.traceInvariant (I := fun ls w => (w.daemon x).myNodeId = (N.self x).id ∧
    Remembers (marks (N.self x).id (trace x ls)) (w.daemon x)) ?_ ?_
  · intro w h
    exact ⟨(boot_eq_ok (h.2 x)).2.2.1, increasing_nil, fun q => List.not_mem_nil, nofun⟩
  · rintro ls w ⟨y, ev, out⟩ w' - ⟨hid, hr⟩ hs
    have tr : Trail (NetMicro N ok y) w out w' := network_trail hs
    rw [trace_append_singleton]
    by_cases hy : y = x
    · subst hy
      rw [if_pos rfl]
      refine tr.accumulates (I := fun h w => (w.daemon y).myNodeId = (N.self y).id ∧
        Remembers (marks (N.self y).id h) (w.daemon y)) ?_ ⟨hid, hr⟩
      rintro h w xs w' ⟨hid, hr⟩ hm
      obtain ⟨d, hd, rfl⟩ := hm.micro
      rw [after_daemon_self, marks_append, (micro_static hd).2, ← hid] at *
      exact ⟨rfl, remembers_micro hr hd⟩
    · obtain ⟨-, d, -, rfl⟩ := hs
      rw [if_neg hy, List.append_nil, after_daemon_of_ne (Ne.symm hy)]
      exact ⟨hid, hr⟩

theorem accept_ne_own_run (hv : N.Distinct) (r : (network N ok).Run ls w) (x : ι) (q : Int32) :
    .accept (N.self x).id q ∉ trace x ls := by
  intro hq
  obtain ⟨⟨y, ev, out⟩, hl, hq⟩ := List.mem_flatMap.mp hq
  split_ifs at hq with hy
  · obtain rfl : y = x := hy
    obtain ⟨w₁, w₂, r₁, h⟩ := r.exists_of_mem hl
    have hi : Lawful N w₁ ∧ Numbered N w₁ :=
      network_invariant hv (fun _ => numbered_init) (fun _ _ _ _ => numbered_micro hv) r₁
    refine (network_trail h).forall_mem (I := fun w => Lawful N w ∧ Numbered N w)
      (P := fun e => e ≠ .accept (N.self y).id q) (fun _ _ _ hi hm => ?_) (fun _ _ _ hi hm e he => ?_)
      hi _ hq rfl
    · exact ⟨lawful_micro hi.1 hm, numbered_micro hv hi.1 hi.2 hm⟩
    · rintro rfl
      exact accept_ne_own hi.2 hm q he
  · exact List.not_mem_nil hq

/-- **LSAs are accepted once between down declarations.** In every run, a node accepts the LSAs of
another node with increasing sequence numbers, until it declares that node down; and if ids are
distinct, it never accepts its own. -/
theorem accepts_once (r : (network N ok).Run ls w) (x : ι) :
    (∀ s q q' pre mid post, s ≠ (N.self x).id →
      trace x ls = pre ++ .accept s q :: (mid ++ .accept s q' :: post) →
        .giveUp s ∈ mid ∨ .expire s ∈ mid ∨ q.toInt < q'.toInt) ∧
    (N.Distinct → ∀ q, .accept (N.self x).id q ∉ trace x ls) := by
  refine ⟨fun s q q' pre mid post hs he => ?_, fun hv => accept_ne_own_run hv r x⟩
  have hi := (remembers_run r x).2.increasing
  have hm : ∀ q post, marks (N.self x).id (.accept s q :: post) =
      .accept s q.toInt :: marks (N.self x).id post := fun q post =>
    List.filterMap_cons_some (if_neg hs)
  rw [he, marks_append, hm, marks_append, hm] at hi
  by_cases hf : .forget s ∈ marks (N.self x).id mid
  · exact (forget_mem_marks.mp hf).imp_right .inl
  · exact .inr (.inr (hi.lt hf))

end Runs

/-! ### A revival -/

/-- Three nodes, linked to each other; the first has object `o`. -/
def triangleNet : Net (Fin 3) where
  self := ![linkOn 1 65, linkOn 2 66, linkOn 3 67]
  nbrs := ![[1, 2], [0, 2], [0, 1]]
  hostname _ := cstr [104]
  lines := ![[(lit "o", lit "/o")], [], []]
  filefile _ := []

theorem triangleNet_valid : triangleNet.Valid where
  ids := by decide
  hosts := by decide
  simple := by decide

theorem triangleNet_symmetric : triangleNet.Symmetric := by unfold Net.Symmetric; decide

theorem triangleNet_boots : ∀ x, (boot (triangleNet.files x)).toOption.isSome = true := by
  decide +kernel

/-- Node 1 floods and stops. The others get its LSA, and node 3 forwards it to node 2; before that
copy arrives, node 2 gives node 1 up. -/
def stopRun : List (Move (Fin 3)) :=
  let ticks (x : Fin 3) (n : ℕ) := List.replicate n (Move.tick x)
  ticks 0 6 ++ [.deliver 1 0, .deliver 2 1] ++ ticks 2 6 ++ ticks 1 10

/-- A dead node that was revived: the worlds before and after the late copy arrives. -/
structure Revival (N : Net (Fin 3)) (s q : Int32) (x y : Fin 3) (o : CString)
    (ls₁ ls₂ : List (Fin 3 × Event × List Effect)) (w₁ w₂ : World (Fin 3)) : Prop where
  node : (N.self y).id = s
  before : (network N fun _ => True).Run ls₁ w₁
  after : (network N fun _ => True).Run (ls₁ ++ ls₂) w₂
  stopped : ∀ l ∈ ls₂, l.1 ≠ y
  accepted : .accept s q ∈ trace x ls₁
  again : .accept s q ∈ trace x ls₂
  down : linkStatus (w₁.daemon x).rt s = .ok statusDown
  up : linkStatus (w₂.daemon x).rt s ≠ .ok statusDown
  cleared : getPaths superFastHash (w₁.daemon x).gol o = none
  restored : (getPaths superFastHash (w₂.daemon x).gol o).map Path.nodeId = some s

theorem stopRun_revival : ∃ ls₁ ls₂ w₁ w₂, Revival triangleNet 1 0 1 0 (lit "o") ls₁ ls₂ w₁ w₂ := by
  have key : (System.follow (World.move triangleNet fun _ => True) stopRun
      (triangleNet.start triangleNet_boots)).bind (fun p =>
        (System.follow (World.move triangleNet fun _ => True) [.deliver 1 6] p.2).map fun p' =>
        decide (∀ l ∈ p'.1, l.1 ≠ 0) && decide (.accept 1 0 ∈ trace 1 p.1) &&
        decide (.accept 1 0 ∈ trace 1 p'.1) &&
        decide (linkStatus (p.2.daemon 1).rt 1 = .ok statusDown) &&
        decide (linkStatus (p'.2.daemon 1).rt 1 ≠ .ok statusDown) &&
        decide ((getPaths superFastHash (p.2.daemon 1).gol (lit "o")).map Path.nodeId = none) &&
        decide ((getPaths superFastHash (p'.2.daemon 1).gol (lit "o")).map Path.nodeId = some 1)) =
      some true := by
    decide +kernel
  obtain ⟨⟨ls₁, w₁⟩, h1, key⟩ := Option.bind_eq_some_iff.mp key
  obtain ⟨⟨ls₂, w₂⟩, h2, key⟩ := Option.map_eq_some_iff.mp key
  simp only [Bool.and_eq_true, decide_eq_true_eq] at key
  obtain ⟨⟨⟨⟨⟨⟨k1, k2⟩, k3⟩, k4⟩, k5⟩, k6⟩, k7⟩ := key
  have r := (System.Run.init (init_start triangleNet_boots)).follow (fun _ _ _ _ => step_move) h1
  have r' := r.follow (fun _ _ _ _ => step_move) h2
  exact ⟨ls₁, ls₂, w₁, w₂, rfl, r, r', k1, k2, k3, k4, k5, Option.map_eq_none_iff.mp k6, k7⟩

/-- A node accepts an LSA twice, and the second time this revives its originator, which has stopped
and was declared down in between. -/
theorem exists_revival : ∃ N : Net (Fin 3), N.Valid ∧ N.Symmetric ∧
    ∃ s q x y o ls₁ ls₂ w₁ w₂, Revival N s q x y o ls₁ ls₂ w₁ w₂ :=
  ⟨triangleNet, triangleNet_valid, triangleNet_symmetric, 1, 0, 1, 0, lit "o", stopRun_revival⟩

theorem accepts_once_triangleNet : ∃ ls w, (network triangleNet fun _ => True).Run ls w ∧
    2 ≤ (trace 1 ls).count (.accept 1 0) ∧
    (∀ pre mid post, trace 1 ls = pre ++ .accept 1 0 :: (mid ++ .accept 1 0 :: post) →
      .giveUp 1 ∈ mid ∨ .expire 1 ∈ mid ∨ (0 : Int32).toInt < (0 : Int32).toInt) ∧
    ∀ q, .accept 2 q ∉ trace 1 ls := by
  obtain ⟨ls₁, ls₂, w₁, w₂, h⟩ := stopRun_revival
  obtain ⟨hs, hown⟩ := accepts_once h.after 1
  refine ⟨_, w₂, h.after, ?_, fun pre mid post => hs 1 0 0 pre mid post (by decide),
    hown triangleNet_valid.toDistinct⟩
  have h1 := List.one_le_count_iff.mpr h.accepted
  have h2 := List.one_le_count_iff.mpr h.again
  rw [trace, List.flatMap_append, List.count_append]
  exact Nat.add_le_add h1 h2

end RoutingDaemon
