import RoutingDaemon.MicroStep

/-!
# How a small step changes the routing table

* `Stores`: the LSAs that a daemon stores, its own and those it accepts.
* `Change`: the changes of one entry; `Appended`: the entries that are added. Both take the LSAs that
  are stored as a parameter.
* `Evolves`: entries are changed in place; `Reshapes`: or one is appended; `evolves_tick`,
  `reshapes_handled`, `reshapes_micro`. Its rules: `Reshapes.forall_entry` (a property of all entries),
  `Reshapes.exists_entry` (an entry stays, changed), `Reshapes.ids`.
-/

namespace RoutingDaemon

/-- The daemon stores this LSA, with this size, under this next hop. -/
inductive Stores (d : Daemon) : LSA → ℕ → Int32 → Prop
  | own {fresh : Fresh} {lsa : LSA} {size : ℕ}
      (packet : createPacket fresh typeLsa d.myNodeId d.sequenceNumber d.dl d.ol = .ok (lsa, size)) :
      Stores d lsa size d.myNodeId
  | accepted {r : Received} {lsa : LSA} {f : Int32} {size : ℕ}
      (recv : rtRecvfrom d.dl r = .ok (some (lsa, f, size)))
      (type : getType lsa.versionTtlType = typeLsa) : Stores d (acceptedLsa lsa) size f

/-- The cost `update_entry` computes from a stored LSA. -/
def lsaCost (lsa : LSA) : ℤ := defaultTtl - getTtl lsa.versionTtlType + 1

section Changes

variable (S : LSA → ℕ → Int32 → Prop) (d : Daemon)

/-- The changes of the entry at index `j` by a step that stores LSAs with `S`. -/
inductive Change (j : ℕ) : RoutingEntry → RoutingEntry → Prop
  | checkers {e : RoutingEntry} {c c' : AckCheckers} (old : e.checkersList = some c)
      (numLinks : c'.numLinks = c.numLinks)
      (ids : c'.checkers.map AckChecker.id = c.checkers.map AckChecker.id) :
      Change j e { e with checkersList := some c' }
  | discard {e : RoutingEntry} (other : 1 ≤ j ∨ ∃ p ∈ d.dl.neighbours, p.1.id = e.id) :
      Change j e e.discard
  | age {e : RoutingEntry} (up : e.nodeStatus ≠ statusDown) (more : e.nodeStatus - 1 ≠ statusDown) :
      Change j e { e with nodeStatus := e.nodeStatus - 1 }
  | store {e : RoutingEntry} {fresh : Fresh} {lsa : LSA} {size : ℕ} {nexthop : Int32}
      (stores : S lsa size nexthop) (id : e.id = lsa.senderNodeId) :
      Change j e (storeLsa fresh d.dl lsa size nexthop (setRoute (lsaCost lsa) nexthop e))

/-- The entries that such a step appends. -/
inductive Appended : RoutingEntry → Prop
  | mk {fresh : Fresh} {lsa : LSA} {size : ℕ} {nexthop : Int32} (stores : S lsa size nexthop)
      (unknown : getRoutingEntry d.rt lsa.senderNodeId = none) :
      Appended (storeLsa fresh d.dl lsa size nexthop (newEntry lsa nexthop (lsaCost lsa)))

/-- Every entry is changed in place. -/
def Evolves (rt : RoutingTable) : Prop :=
  ∀ j, Option.Rel (Relation.ReflTransGen (Change S d j)) d.rt.table[j]? rt.table[j]?

/-- Entries are changed in place, or one is appended. -/
def Reshapes (rt : RoutingTable) : Prop :=
  Evolves S d rt ∨ ∃ e, Appended S d e ∧ rt.table = d.rt.table ++ [e]

end Changes

variable {S : LSA → ℕ → Int32 → Prop} {d : Daemon}

theorem Evolves.refl (S : LSA → ℕ → Int32 → Prop) (d : Daemon) : Evolves S d d.rt := by
  intro j
  cases d.rt.table[j]? with
  | none => exact .none
  | some e => exact .some .refl

theorem Evolves.modify {rt : RoutingTable} {k : ℕ} {f : RoutingEntry → RoutingEntry}
    (h : Evolves S d rt) (hf : ∀ e, rt.table[k]? = some e → f e = e ∨ Change S d k e (f e)) :
    Evolves S d (rt.modify k f) := by
  intro j
  rw [getElem?_modify]
  have hj := h j
  cases he : rt.table[j]? with
  | none => rw [he] at hj; exact hj
  | some e =>
    rw [he] at hj
    rw [Option.map_some]
    split_ifs with hk
    · subst hk
      rcases hf e he with h1 | h1
      · rwa [h1]
      · generalize d.rt.table[k]? = o at hj ⊢
        cases hj with | some hr => exact .some (hr.tail h1)
    · exact hj

theorem change_modifyChecker {j i : ℕ} {g : AckChecker → AckChecker}
    (hg : ∀ a, (g a).id = a.id) (e : RoutingEntry) :
    e.modifyChecker i g = e ∨ Change S d j e (e.modifyChecker i g) := by
  cases h : e.checkersList with
  | none => left; unfold RoutingEntry.modifyChecker; rw [h, Option.map_none, ← h]
  | some c =>
    right
    unfold RoutingEntry.modifyChecker
    rw [h, Option.map_some]
    refine .checkers h rfl (List.ext_getElem? fun n => ?_)
    simp only [List.getElem?_map, List.getElem?_modify, Option.map_eq_map, Option.map_map]
    congr 1
    funext a
    simp only [Function.comp]
    split_ifs
    · exact hg a
    · rfl

theorem Evolves.modifyChecker {rt : RoutingTable} {k i : ℕ}
    {g : AckChecker → AckChecker} (h : Evolves S d rt) (hg : ∀ a, (g a).id = a.id) :
    Evolves S d (modifyChecker rt k i g) :=
  h.modify fun e _ => change_modifyChecker hg e

theorem creditAck_eq_ok {rt rt' : RoutingTable} {entry : Option ℕ} {f : Int32}
    (h : creditAck rt entry f = .ok rt') :
    ∃ k e c own o, entry = some k ∧ rt.table[k]? = some e ∧ e.checkersList = some c ∧
      rt.table[0]? = some own ∧ own.checkersList = some o ∧
      c.numLinks.toInt.toNat ≤ c.checkers.length ∧
      rt' = rt.modify 0 fun e => { e with checkersList := some { o with
        checkers := o.checkers.mapIdx fun i a =>
          if i < c.numLinks.toInt.toNat ∧ c.checkers[i]?.map AckChecker.id = some f then
            { a with ackReceived := .received, retransmit := 0 }
          else a } } := by
  obtain ⟨k, hk, h⟩ := bind_eq_ok.mp h
  obtain ⟨e, he, h⟩ := bind_eq_ok.mp h
  obtain ⟨c, hc, h⟩ := bind_eq_ok.mp h
  obtain ⟨own, hown, h⟩ := bind_eq_ok.mp h
  obtain ⟨o, ho, h⟩ := bind_eq_ok.mp h
  dsimp only at h
  split_ifs at h with hl
  cases h
  exact ⟨k, e, c, own, o, deref_eq_ok.mp hk, deref_eq_ok.mp he, deref_eq_ok.mp hc,
    deref_eq_ok.mp hown, deref_eq_ok.mp ho, not_lt.mp hl, rfl⟩

theorem evolves_creditAck {rt' : RoutingTable} {entry : Option ℕ} {f : Int32}
    (h : creditAck d.rt entry f = .ok rt') : Evolves S d rt' := by
  obtain ⟨_, _, c, own, o, _, _, _, hown, ho, _, rfl⟩ := creditAck_eq_ok h
  refine (Evolves.refl S d).modify fun e he => ?_
  rw [hown, Option.some.injEq] at he
  subst he
  refine .inr (.checkers ho rfl (List.ext_getElem? fun n => ?_))
  simp only [List.getElem?_map, List.getElem?_mapIdx, Option.map_map]
  congr 1
  funext a
  simp only [Function.comp]
  split_ifs <;> rfl

theorem acceptedLsa_type (lsa : LSA) :
    getType (acceptedLsa lsa).versionTtlType = getType lsa.versionTtlType := by
  simp [acceptedLsa]

theorem lsaCost_acceptedLsa {a : LSA} (h1 : 1 ≤ getTtl a.versionTtlType)
    (h2 : getTtl a.versionTtlType ≤ defaultTtl) : lsaCost (acceptedLsa a) = lsaCost a + 1 := by
  unfold defaultTtl at h2
  rw [lsaCost, lsaCost, acceptedLsa]
  simp only [setType_setType_ack]
  rw [getTtl_setTtl _ (by omega) (by omega)]
  omega

theorem Stores.type {lsa : LSA} {size : ℕ} {nexthop : Int32}
    (h : Stores d lsa size nexthop) : getType lsa.versionTtlType = typeLsa := by
  cases h with
  | own packet => rw [(createPacket_lsa packet).1]; rfl
  | accepted _ type => rw [acceptedLsa_type, type]

theorem updateEntry_own {fresh fresh' : Fresh} {lsa : LSA} {size k : ℕ} {rt : RoutingTable}
    (packet : createPacket fresh typeLsa d.myNodeId d.sequenceNumber d.dl d.ol = .ok (lsa, size))
    (entry : getRoutingEntry d.rt d.myNodeId = some k)
    (update : updateEntry fresh' (some k) d.rt d.dl lsa size d.myNodeId = .ok rt) :
    updateEntry fresh' (getRoutingEntry d.rt lsa.senderNodeId) d.rt d.dl lsa size d.myNodeId =
      .ok rt := by
  rw [(createPacket_lsa packet).2.1, entry]
  exact update

theorem evolves_updateEntry {fresh : Fresh} {lsa : LSA} {size k : ℕ} {nexthop : Int32}
    {rt : RoutingTable} (hs : S lsa size nexthop) (ht : getType lsa.versionTtlType = typeLsa)
    (hk : getRoutingEntry d.rt lsa.senderNodeId = some k)
    (h : updateEntry fresh (some k) d.rt d.dl lsa size nexthop = .ok rt) : Evolves S d rt := by
  rw [updateEntry_some ht] at h
  cases h
  obtain ⟨e, he, hid⟩ := getRoutingEntry_eq_some hk
  refine (Evolves.refl S d).modify fun e' he' => ?_
  rw [he, Option.some.injEq] at he'
  subst he'
  exact .inr (.store hs hid)

theorem reshapes_updateEntry {fresh : Fresh} {lsa : LSA} {size : ℕ} {nexthop : Int32}
    {rt : RoutingTable} (hs : S lsa size nexthop) (ht : getType lsa.versionTtlType = typeLsa)
    (h : updateEntry fresh (getRoutingEntry d.rt lsa.senderNodeId) d.rt d.dl lsa size nexthop =
      .ok rt) : Reshapes S d rt := by
  cases hk : getRoutingEntry d.rt lsa.senderNodeId with
  | none =>
    rw [hk, updateEntry_none ht] at h
    exact .inr ⟨_, .mk hs hk, getElem?_push h⟩
  | some k =>
    rw [hk] at h
    exact .inl (evolves_updateEntry hs ht hk h)

/-- **A timeout changes entries in place, and stores nothing but own LSAs.** -/
theorem evolves_tick {d' : Daemon} {out : List Effect} (hS : ∀ fresh lsa size,
      createPacket fresh typeLsa d.myNodeId d.sequenceNumber d.dl d.ol = .ok (lsa, size) →
      S lsa size d.myNodeId) (h : Tick d out d') : Evolves S d d'.rt := by
  cases h with
  | @own fresh lsa size k rt seq packet entry update count =>
    have hid : lsa.senderNodeId = d.myNodeId := (createPacket_lsa packet).2.1
    exact evolves_updateEntry (hS fresh lsa size packet) (Stores.own packet).type
      (by rw [hid, entry]) update
  | send ok => exact (Evolves.refl S d).modifyChecker fun _ => rfl
  | resend ok checker pending budget => exact (Evolves.refl S d).modifyChecker fun _ => rfl
  | @giveUp k i m l e c link checker pending budget =>
    refine Evolves.modifyChecker ((Evolves.refl S d).modify fun e' he' => ?_) fun _ => rfl
    rw [link.entry, Option.some.injEq] at he'
    subst he'
    obtain ⟨e', he', hid⟩ := getRoutingEntry_eq_some link.lookup
    rw [link.entry, Option.some.injEq] at he'
    subst he'
    exact .inr (.discard (.inr ⟨_, link.link, hid.symm⟩))
  | @age i e pos entry up more =>
    refine (Evolves.refl S d).modify fun e' he' => ?_
    rw [entry, Option.some.injEq] at he'
    subst he'
    exact .inr (.age up more)
  | expire pos entry last =>
    exact (Evolves.refl S d).modify fun _ _ => .inr (.discard (.inl pos))
  | clock => exact .refl S d

/-- **A packet that is handled may be stored, rewritten.** -/
theorem reshapes_handled {d' : Daemon} {fresh : Fresh} {lsa : LSA} {f : Int32} {size : ℕ}
    {out : List Effect} (hS : getType lsa.versionTtlType = typeLsa → S (acceptedLsa lsa) size f)
    (h : Handled d fresh lsa f size out d') : Reshapes S d d'.rt := by
  cases h with
  | ignored => exact .inl (.refl S d)
  | accepted type newer link update objects =>
    exact reshapes_updateEntry (hS type) (by rw [acceptedLsa_type, type]) update
  | credited type current update => exact .inl (evolves_creditAck update)

/-- **A small step changes entries in place, or appends one.** -/
theorem reshapes_micro {d' : Daemon} {out : List Effect} (h : Micro d out d') :
    Reshapes (Stores d) d d'.rt := by
  cases h with
  | tick h => exact .inl (evolves_tick (fun _ _ _ => .own) h)
  | receive recv h => exact reshapes_handled (.accepted recv) h
  | add objects => exact .inl (.refl _ d)

/-- **The tables of links and the own id never change.** -/
theorem micro_static {d' : Daemon} {out : List Effect} (h : Micro d out d') :
    d'.dl = d.dl ∧ d'.myNodeId = d.myNodeId := by
  cases h with
  | tick h => cases h <;> exact ⟨rfl, rfl⟩
  | receive recv h => cases h <;> exact ⟨rfl, rfl⟩
  | add => exact ⟨rfl, rfl⟩

theorem act_static {d' : Daemon} {ev : Event} {out : List Effect} (h : act ev d = .ok (d', out)) :
    d'.dl = d.dl ∧ d'.myNodeId = d.myNodeId := by
  refine (act_trail h).preserves (I := fun x => x.dl = d.dl ∧ x.myNodeId = d.myNodeId) ?_ ⟨rfl, rfl⟩
  rintro x _ y ⟨h1, h2⟩ hm
  obtain ⟨h3, h4⟩ := micro_static hm
  exact ⟨h3.trans h1, h4.trans h2⟩

/-- **Rule for all entries, changed in place.** -/
theorem Evolves.forall_entry {P : ℕ → RoutingEntry → Prop} {rt : RoutingTable}
    (h : Evolves S d rt) (hc : ∀ j e e', P j e → Change S d j e e' → P j e')
    (hP : ∀ j e, d.rt.table[j]? = some e → P j e) : ∀ j e, rt.table[j]? = some e → P j e := by
  have run : ∀ j e e', P j e → Relation.ReflTransGen (Change S d j) e e' → P j e' := by
    intro j e e' he hr
    induction hr with
    | refl => exact he
    | tail _ h1 ih => exact hc _ _ _ ih h1
  intro j e' he'
  have hj := h j
  rw [he'] at hj
  cases he : d.rt.table[j]? with
  | none => rw [he] at hj; cases hj
  | some e =>
    rw [he] at hj
    cases hj with | some hr => exact run j e e' (hP j e he) hr

/-- **Rule for all entries.** -/
theorem Reshapes.forall_entry {P : ℕ → RoutingEntry → Prop} {rt : RoutingTable}
    (h : Reshapes S d rt) (hc : ∀ j e e', P j e → Change S d j e e' → P j e')
    (hn : ∀ e, Appended S d e → P d.rt.numEntry e) (hP : ∀ j e, d.rt.table[j]? = some e → P j e) :
    ∀ j e, rt.table[j]? = some e → P j e := by
  rcases h with hev | ⟨e, ha, ht⟩
  · exact hev.forall_entry hc hP
  · intro j e' he'
    rw [ht, List.getElem?_append] at he'
    split_ifs at he' with hj
    · exact hP j e' he'
    · have hj' : j = d.rt.numEntry := by
        obtain ⟨hlt, -⟩ := List.getElem?_eq_some_iff.mp he'
        simp only [List.length_singleton] at hlt
        unfold RoutingTable.numEntry
        omega
      subst hj'
      rw [RoutingTable.numEntry, Nat.sub_self, List.getElem?_cons_zero, Option.some.injEq] at he'
      rw [← he']
      exact hn e ha

/-- **An entry stays, changed in place.** -/
theorem Reshapes.exists_entry {rt : RoutingTable} (h : Reshapes S d rt) {j : ℕ} {e : RoutingEntry}
    (he : d.rt.table[j]? = some e) :
    ∃ e', rt.table[j]? = some e' ∧ Relation.ReflTransGen (Change S d j) e e' := by
  rcases h with hev | ⟨a, -, ht⟩
  · have hj := hev j
    rw [he] at hj
    cases he' : rt.table[j]? with
    | none => rw [he'] at hj; cases hj
    | some e' =>
      rw [he'] at hj
      cases hj with | some hr => exact ⟨e', rfl, hr⟩
  · obtain ⟨hlt, -⟩ := List.getElem?_eq_some_iff.mp he
    exact ⟨e, by rw [ht, List.getElem?_append_left hlt, he], .refl⟩

theorem Change.id {j : ℕ} {e e' : RoutingEntry} (h : Change S d j e e') : e'.id = e.id := by
  cases h <;> rfl

theorem change_id {j : ℕ} {e e' : RoutingEntry}
    (h : Relation.ReflTransGen (Change S d j) e e') : e'.id = e.id := by
  induction h with
  | refl => rfl
  | tail _ h1 ih => rw [h1.id, ih]

theorem Evolves.ids {rt : RoutingTable} (h : Evolves S d rt) :
    rt.table.map RoutingEntry.id = d.rt.table.map RoutingEntry.id := by
  refine List.ext_getElem? fun j => ?_
  rw [List.getElem?_map, List.getElem?_map]
  have hj := h j
  generalize rt.table[j]? = o' at hj
  generalize d.rt.table[j]? = o at hj
  cases hj with
  | none => rfl
  | some hr => rw [Option.map_some, Option.map_some, change_id hr]

theorem Reshapes.ids {rt : RoutingTable} (h : Reshapes S d rt) :
    rt.table.map RoutingEntry.id = d.rt.table.map RoutingEntry.id ∨
      ∃ id, id ∉ d.rt.table.map RoutingEntry.id ∧
        rt.table.map RoutingEntry.id = d.rt.table.map RoutingEntry.id ++ [id] := by
  rcases h with hev | ⟨e, ha, ht⟩
  · exact .inl hev.ids
  · obtain ⟨hs, hu⟩ := ha
    rw [getRoutingEntry_eq_none] at hu
    refine .inr ⟨_, fun hm => ?_, by rw [ht, List.map_append]; rfl⟩
    obtain ⟨e, he, hid⟩ := List.mem_map.mp hm
    exact hu e he hid

theorem Reshapes.numEntry {rt : RoutingTable} (h : Reshapes S d rt) :
    d.rt.numEntry ≤ rt.numEntry := by
  have hlen : ∀ rt : RoutingTable, (rt.table.map RoutingEntry.id).length = rt.numEntry :=
    fun rt => List.length_map _
  rcases h.ids with h1 | ⟨id, -, h1⟩
  · rw [← hlen, ← hlen, h1]
  · rw [← hlen rt, h1, List.length_append, hlen]
    omega

end RoutingDaemon
