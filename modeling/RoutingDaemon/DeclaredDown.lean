import RoutingDaemon.Retransmission
import RoutingDaemon.SafePointers
import RoutingDaemon.TablesAsMaps

/-!
# Nodes that a timeout declares down

* `Declared`: a pass declares a node down.
* `GivesUp`, `SendsAgain`: what `retransmit_missing` does at one link; `retransmitLinks_skip`,
  `retransmitLinks_giveUp`, `retransmitLinks_resend`. `prepared_reachable`: links have entries and entries
  have checkers, whatever the configuration.
* `DueAt`, `DiscardedBefore`: whom a round gives up, and which LSAs it has discarded on the way to an entry;
  `retransmitEntries_giveUp`.
* `declared_iff`: whom a timeout declares down, `DueDown` on the state before it.
-/

namespace RoutingDaemon

/-- The pass declares this node down. -/
def Declared (out : List Effect) (id : Int32) : Prop := .giveUp id ∈ out ∨ .expire id ∈ out

theorem declared_append {out out' : List Effect} {id : Int32} :
    Declared (out ++ out') id ↔ Declared out id ∨ Declared out' id := by
  unfold Declared
  simp only [List.mem_append]
  tauto

theorem statusOf_modify {rt : RoutingTable} {k : ℕ} {f : RoutingEntry → RoutingEntry} {id : Int32}
    (hid : ∀ e, (f e).id = e.id) : statusOf (rt.modify k f) id =
      if getRoutingEntry rt id = some k then (entryOf rt id).map fun e => (f e).nodeStatus
      else statusOf rt id := by
  rw [statusOf, entryOf_modify hid]
  split_ifs
  · rw [Option.map_map]
    rfl
  · rfl

theorem statusOf_discard {rt : RoutingTable} {m : ℕ} {id : Int32} :
    statusOf (rt.modify m RoutingEntry.discard) id =
      if getRoutingEntry rt id = some m then some statusDown else statusOf rt id := by
  rw [statusOf_modify (by exact fun _ => rfl)]
  split_ifs with hm
  · obtain ⟨e, he, -⟩ := getRoutingEntry_eq_some hm
    rw [entryOf_eq_some.mpr ⟨m, hm, he⟩]
    rfl
  · rfl

/-! ### One link -/

/-- At this link `retransmit_missing`, for the LSA of entry `k`, gives the neighbour up. -/
def GivesUp (rt : RoutingTable) (k : ℕ) (forwarderId : Int32) (p : LinkEntry × ℕ) : Prop :=
  p.1.id ≠ forwarderId ∧ ∃ c, getChecker rt k p.2 = .ok c ∧ c.ackReceived = .notReceived ∧
    retransmitTime - 1 ≤ c.retransmit

/-- At this link it sends again. -/
def SendsAgain (rt : RoutingTable) (k : ℕ) (forwarderId : Int32) (p : LinkEntry × ℕ) : Prop :=
  p.1.id ≠ forwarderId ∧ (∃ c, getChecker rt k p.2 = .ok c ∧ c.ackReceived = .notReceived ∧
    c.retransmit < retransmitTime - 1) ∧
    ∃ s, statusOf rt p.1.id = some s ∧ s ≠ statusDown

section Loop

variable {dl : DirectLinks} {rt rt' : RoutingTable} {slot k m i j size : ℕ} {fw id id' : Int32}
  {p q : LinkEntry × ℕ} {ht ht' : LisoHash} {ls : List (LinkEntry × ℕ)} {out : List Effect}

theorem givesUp_congr (hc : cellAt rt' k q.2 = cellAt rt k q.2) :
    GivesUp rt' k fw q ↔ GivesUp rt k fw q := by
  simp only [GivesUp, getChecker_iff, hc]

theorem getRoutingEntry_inj (hm : getRoutingEntry rt id = some m) :
    getRoutingEntry rt id' = some m ↔ id' = id := by
  refine ⟨fun h => ?_, fun h => h ▸ hm⟩
  obtain ⟨e, he, hid⟩ := getRoutingEntry_eq_some hm
  obtain ⟨e', he', hid'⟩ := getRoutingEntry_eq_some h
  rw [he, Option.some.injEq] at he'
  rw [← hid', ← he', hid]

theorem storedLsa_modifyChecker {g : AckChecker → AckChecker} :
    storedLsa (modifyChecker rt k i g) slot = storedLsa rt slot := by
  rw [storedLsa, modifyChecker, getElem?_modify, storedLsa]
  cases rt.table[slot]? with
  | none => rfl
  | some e => simp only [Option.map_some, Option.bind_some]; split_ifs <;> rfl

theorem storedLsa_discard : storedLsa (rt.modify m RoutingEntry.discard) j = none ↔
    storedLsa rt j = none ∨ m = j := by
  rw [storedLsa, getElem?_modify, storedLsa]
  cases rt.table[j]? with
  | none => simp
  | some e =>
    rw [Option.map_some, Option.bind_some, Option.bind_some]
    split_ifs with h
    · simp [h, RoutingEntry.discard]
    · simp [h]

/-- What the loop relies on: its links have entries and checkers, each link comes once, and `slot` is the
entry of node `id`. -/
structure Walks (dl : DirectLinks) (rt : RoutingTable) (slot : ℕ) (id : Int32) (ls : List (LinkEntry × ℕ)) :
    Prop where
  linked : Linked dl rt
  own : getRoutingEntry rt id = some slot
  links : ∀ p ∈ ls, p.1 ∈ dl.links ∧ ∃ c, getChecker rt slot p.2 = .ok c
  once : (ls.map Prod.snd).Nodup

theorem Walks.tail (h : Walks dl rt slot id (p :: ls)) : Walks dl rt slot id ls :=
  ⟨h.linked, h.own, fun q hq => h.links q (List.mem_cons_of_mem _ hq), h.once.of_cons⟩

theorem Walks.head (h : Walks dl rt slot id (p :: ls)) : ∃ m e c, getRoutingEntry rt p.1.id = some m ∧
    rt.table[m]? = some e ∧ getChecker rt slot p.2 = .ok c := by
  obtain ⟨hlink, c, hc⟩ := h.links p List.mem_cons_self
  obtain ⟨m, e, hm, he⟩ := h.linked.entry hlink
  exact ⟨m, e, c, hm, he, hc⟩

section Next

variable {rt₁ : RoutingTable} {g : AckChecker → AckChecker}

theorem Walks.cell (h : Walks dl rt slot id (p :: ls)) (hcells : ∀ j, cellAt rt₁ slot j = cellAt rt slot j)
    (hq : q ∈ ls) : cellAt (modifyChecker rt₁ slot p.2 g) slot q.2 = cellAt rt slot q.2 := by
  have hne : p.2 ≠ q.2 := fun heq =>
    (List.nodup_cons.mp h.once).1 (List.mem_map.mpr ⟨q, hq, heq.symm⟩)
  rw [cellAt_modifyChecker, if_neg fun hm => hne hm.2, hcells]

theorem Walks.next (h : Walks dl rt slot id (p :: ls)) (hcells : ∀ j, cellAt rt₁ slot j = cellAt rt slot j)
    (hids : ∀ id, getRoutingEntry rt₁ id = getRoutingEntry rt id) (hl : Linked dl rt₁) :
    Walks dl (modifyChecker rt₁ slot p.2 g) slot id ls := by
  refine ⟨hl.modifyChecker slot p.2 g, ?_, fun q hq => ?_, h.tail.once⟩
  · rw [getRoutingEntry_modifyChecker, hids, h.own]
  · obtain ⟨hlink, c, hc⟩ := h.tail.links q hq
    refine ⟨hlink, c, ?_⟩
    rw [getChecker_iff, h.cell hcells hq, ← getChecker_iff, hc]

end Next

section Link

variable {l : LinkEntry} {c : AckChecker} {e : RoutingEntry}

theorem retransmitLinks_skip (hc : getChecker rt slot i = .ok c) (hm : getRoutingEntry rt l.id = some m)
    (he : rt.table[m]? = some e) (hg : ¬ GivesUp rt slot fw (l, i)) (hs : ¬ SendsAgain rt slot fw (l, i)) :
    retransmitLinks slot slot size fw ((l, i) :: ls) rt ht = retransmitLinks slot slot size fw ls rt ht := by
  simp only [retransmitLinks]
  by_cases hfw : l.id = fw
  · rw [if_pos hfw]
  rw [if_neg hfw, hc, ok_bind]
  cases ha : c.ackReceived with
  | received => rfl
  | notReceived =>
    have hb : ¬ c.retransmit ≥ retransmitTime - 1 := fun hb => hg ⟨hfw, c, hc, ha, hb⟩
    have hst : statusOf rt l.id = some e.nodeStatus := by
      rw [statusOf, entryOf_eq_some.mpr ⟨m, hm, he⟩]
      rfl
    have hdown : ¬ e.nodeStatus ≠ statusDown := fun hup =>
      hs ⟨hfw, ⟨c, hc, ha, not_le.mp hb⟩, e.nodeStatus, hst, hup⟩
    dsimp only
    rw [hm, deref_some, ok_bind, he, deref_some, ok_bind, if_neg hb, if_neg hdown]

theorem retransmitLinks_giveUp (hm : getRoutingEntry rt l.id = some m) (he : rt.table[m]? = some e)
    (hg : GivesUp rt slot fw (l, i)) :
    retransmitLinks slot slot size fw ((l, i) :: ls) rt ht = (retransmitLinks slot slot size fw ls
      (modifyChecker (rt.modify m RoutingEntry.discard) slot i fun a => { a with ackReceived := .received })
      (hashRemoveNode superFastHash ht e.id) >>= fun r => .ok (r.1, r.2.1, .giveUp e.id :: r.2.2)) := by
  obtain ⟨hfw, c, hc, ha, hb⟩ := hg
  simp only [retransmitLinks]
  rw [if_neg hfw, hc, ok_bind, ha]
  dsimp only
  rw [hm, deref_some, ok_bind, he, deref_some, ok_bind, if_pos hb]

theorem retransmitLinks_resend (hm : getRoutingEntry rt l.id = some m) (he : rt.table[m]? = some e)
    (hs : SendsAgain rt slot fw (l, i)) :
    retransmitLinks slot slot size fw ((l, i) :: ls) rt ht =
      (storedLsa rt slot).elim (.error .useAfterFree) fun lsa =>
        retransmitLinks slot slot size fw ls
          (modifyChecker rt slot i fun a => { a with retransmit := a.retransmit + 1 }) ht >>=
            fun r => .ok (r.1, r.2.1, rtSendto lsa l size :: r.2.2) := by
  obtain ⟨hfw, ⟨c, hc, ha, hb⟩, s, hst, hup⟩ := hs
  rw [statusOf, entryOf_eq_some.mpr ⟨m, hm, he⟩, Option.map_some, Option.some.injEq] at hst
  simp only [retransmitLinks]
  rw [if_neg hfw, hc, ok_bind, ha]
  dsimp only
  rw [hm, deref_some, ok_bind, he, deref_some, ok_bind, if_neg (not_le.mpr hb), if_pos (hst ▸ hup)]
  cases storedLsa rt slot <;> rfl

end Link

theorem GivesUp.not_sendsAgain (hg : GivesUp rt slot fw p) : ¬ SendsAgain rt slot fw p := by
  rintro ⟨-, ⟨c', hc', -, hlt⟩, -⟩
  obtain ⟨-, c, hc, -, hb⟩ := hg
  rw [hc, Except.ok.injEq] at hc'
  subst hc'
  omega

end Loop

/-! ### What a call relies on -/

/-- What `retransmit_missing` relies on. -/
structure Prepared (d : Daemon) : Prop where
  listed : Listed d
  countable : Countable d
  known : ∀ l ∈ d.dl.links, l.id ∈ d.rt.table.map RoutingEntry.id

theorem Prepared.linked {d : Daemon} (h : Prepared d) : Linked d.dl d.rt where
  known l hl := by
    obtain ⟨e, he, hid⟩ := List.mem_map.mp (h.known l hl)
    exact getRoutingEntry_isSome he hid
  lists e he := by
    obtain ⟨j, hj⟩ := List.mem_iff_getElem?.mp he
    obtain ⟨c, hc, -⟩ := h.listed.entry j e hj
    rw [hc]
    exact Option.some_ne_none c

theorem prepared_micro {d d' : Daemon} {out : List Effect} (h : Prepared d) (hm : Micro d out d') :
    Prepared d' := by
  refine ⟨listed_micro h.listed hm, countable_micro h.countable hm, fun l hl => ?_⟩
  rw [(micro_static hm).1] at hl
  rcases (reshapes_micro hm).ids with he | ⟨id, -, he⟩
  · rw [he]
    exact h.known l hl
  · rw [he]
    exact List.mem_append_left _ (h.known l hl)

theorem prepared_boot {f : Files} {d : Daemon} (h : boot f = .ok d) : Prepared d := by
  refine ⟨listed_boot h, countable_boot h, fun l hl => ?_⟩
  obtain ⟨hlinks, ht, -⟩ := boot_eq_ok h
  rw [hlinks] at hl
  obtain ⟨i, hi⟩ := List.mem_iff_getElem?.mp hl
  refine List.mem_iff_getElem?.mpr ⟨i, ?_⟩
  rw [ht, List.getElem?_map, List.getElem?_mapIdx, hi]
  rfl

theorem prepared_reachable {f : Files} {d : Daemon} (r : (daemonSystem f).Reachable d) : Prepared d :=
  reachable_invariant (fun _ => prepared_boot) (fun _ _ _ h hm => prepared_micro h hm) r

theorem prepared_retry {d d' : Daemon} {ms : List (Option (ℕ × ℕ) × Effect)} (h : Prepared d)
    (hr : Retry d ms d') : Prepared d' := prepared_micro h (.tick hr.onwardTick.1)

theorem Prepared.checker {d : Daemon} (h : Prepared d) {k : ℕ} {e : RoutingEntry}
    (he : d.rt.table[k]? = some e) {p : LinkEntry × ℕ} (hp : p ∈ d.dl.neighbours) :
    ∃ c, getChecker d.rt k p.2 = .ok c := by
  obtain ⟨c, hc, hids, -⟩ := h.listed.entry k e he
  have hi := congrArg (fun l => l[p.2]?) hids
  simp only [List.getElem?_map, (mem_neighbours.mp hp).2, Option.map_some] at hi
  obtain ⟨a, ha, -⟩ := Option.map_eq_some_iff.mp hi
  exact ⟨a, getChecker_eq_ok.mpr ⟨e, c, he, hc, ha⟩⟩

theorem nodup_neighbours (dl : DirectLinks) : (dl.neighbours.map Prod.snd).Nodup := by
  unfold DirectLinks.neighbours
  rw [List.map_tail, List.zipIdx_map_snd]
  exact (List.nodup_range').tail

/-! ### One call -/

/-- In table `rt'` entry `j` has the forwarder and the checkers that it has in `rt`, and its LSA unless
`gone`. -/
structure Waits (rt rt' : RoutingTable) (j : ℕ) (gone : Prop) : Prop where
  forwarder : rt'.table[j]?.map RoutingEntry.forwarderId = rt.table[j]?.map RoutingEntry.forwarderId
  cell : ∀ i, cellAt rt' j i = cellAt rt j i
  lsa : storedLsa rt' j = none ↔ storedLsa rt j = none ∨ gone

section Waits

variable {rt rt₁ rt' : RoutingTable} {k m i j : ℕ} {gone gone' : Prop}

theorem Waits.refl (h : ¬ gone) : Waits rt rt j gone := ⟨rfl, fun _ => rfl, by simp [h]⟩

theorem Waits.trans (h : Waits rt rt₁ j gone) (h' : Waits rt₁ rt' j gone') :
    Waits rt rt' j (gone ∨ gone') :=
  ⟨h'.forwarder.trans h.forwarder, fun i => (h'.cell i).trans (h.cell i), by
    rw [h'.lsa, h.lsa, or_assoc]⟩

theorem Waits.congr (h : Waits rt rt' j gone) (hg : gone ↔ gone') : Waits rt rt' j gone' := by
  rwa [← propext hg]

theorem Waits.discard : Waits rt (rt.modify m RoutingEntry.discard) j (m = j) where
  forwarder := by
    rw [getElem?_modify, Option.map_map]
    congr 1
    funext e
    by_cases hm : m = j
    · simp [hm, RoutingEntry.discard]
    · simp [hm]
  cell _ := cellAt_keep fun _ => rfl
  lsa := storedLsa_discard

theorem Waits.modifyChecker {g : AckChecker → AckChecker} (h : Waits rt rt₁ j gone) (hk : k ≠ j) :
    Waits rt (modifyChecker rt₁ k i g) j gone where
  forwarder := by
    simp only [RoutingDaemon.modifyChecker, getElem?_modify, if_neg hk, Option.map_id', h.forwarder]
  cell i' := by
    rw [cellAt_modifyChecker, if_neg fun hm => hk hm.1, h.cell]
  lsa := by rw [storedLsa_modifyChecker, h.lsa]

end Waits

/-- **One call of the loop**: whom it gives up, and what it leaves of the entries of other LSAs. -/
theorem retransmitLinks_declares {dl : DirectLinks} {rt rt' : RoutingTable} {slot size : ℕ}
    {fw id : Int32} {ht ht' : LisoHash} {ls : List (LinkEntry × ℕ)} {out : List Effect}
    (h : Walks dl rt slot id ls)
    (hr : retransmitLinks slot slot size fw ls rt ht = .ok (rt', ht', out)) :
    (∀ n, .giveUp n ∈ out ↔ ∃ p ∈ ls, GivesUp rt slot fw p ∧ p.1.id = n) ∧
      ∀ j, slot ≠ j →
        Waits rt rt' j (∃ p ∈ ls, GivesUp rt slot fw p ∧ getRoutingEntry rt p.1.id = some j) := by
  induction ls generalizing rt ht out with
  | nil =>
    cases hr
    exact ⟨fun n => by simp, fun j _ => .refl (by simp)⟩
  | cons p ls ih =>
    obtain ⟨l, i⟩ := p
    obtain ⟨m, e, c, hm, he, hc⟩ := h.head
    dsimp only at hm hc
    simp only [List.mem_cons, exists_eq_or_imp]
    by_cases hg : GivesUp rt slot fw (l, i)
    · have hcells : ∀ j, cellAt (rt.modify m RoutingEntry.discard) slot j = cellAt rt slot j :=
        fun j => cellAt_keep fun _ => rfl
      have hids : ∀ id, getRoutingEntry (rt.modify m RoutingEntry.discard) id = getRoutingEntry rt id :=
        fun _ => getRoutingEntry_modify (by exact fun _ => rfl) _
      rw [retransmitLinks_giveUp hm he hg] at hr
      obtain ⟨⟨rt₁, ht₁, out₁⟩, h1, he'⟩ := bind_eq_ok.mp hr
      cases he'
      obtain ⟨hout, hw⟩ := ih (h.next hcells hids
        (h.linked.modify (fun _ => rfl) fun _ hc => hc)) h1
      have hrest : ∀ q ∈ ls, GivesUp (modifyChecker (rt.modify m RoutingEntry.discard) slot i
          fun a => { a with ackReceived := .received }) slot fw q ↔ GivesUp rt slot fw q :=
        fun q hq => givesUp_congr (h.cell hcells hq)
      refine ⟨fun n => ?_, fun j hj => ?_⟩
      · obtain ⟨e', he', hid⟩ := getRoutingEntry_eq_some hm
        rw [he, Option.some.injEq] at he'
        subst he'
        rw [List.mem_cons, hout, Effect.giveUp.injEq, hid, eq_comm]
        simp only [hg, true_and]
        exact or_congr_right (exists_congr fun q => and_congr_right fun hq =>
          and_congr_left' (hrest q hq))
      · refine ((Waits.discard (m := m)).modifyChecker (i := i) hj).trans (hw j hj) |>.congr ?_
        simp only [hg, true_and, hm, Option.some.injEq, getRoutingEntry_modifyChecker, hids]
        exact or_congr_right (exists_congr fun q => and_congr_right fun hq =>
          and_congr_left' (hrest q hq))
    · simp only [hg, false_and, false_or]
      by_cases hs : SendsAgain rt slot fw (l, i)
      · rw [retransmitLinks_resend hm he hs] at hr
        cases hlsa : storedLsa rt slot with
        | none =>
          rw [hlsa] at hr
          cases hr
        | some lsa =>
          rw [hlsa, Option.elim_some] at hr
          obtain ⟨⟨rt₁, ht₁, out₁⟩, h1, he'⟩ := bind_eq_ok.mp hr
          cases he'
          obtain ⟨hout, hw⟩ := ih (h.next (fun _ => rfl) (fun _ => rfl) h.linked) h1
          have hrest : ∀ q ∈ ls, GivesUp (modifyChecker rt slot i
              fun a => { a with retransmit := a.retransmit + 1 }) slot fw q ↔ GivesUp rt slot fw q :=
            fun q hq => givesUp_congr (h.cell (fun _ => rfl) hq)
          refine ⟨fun n => ?_, fun j hj => ?_⟩
          · rw [List.mem_cons, hout]
            simp only [rtSendto, reduceCtorEq, false_or]
            exact exists_congr fun q => and_congr_right fun hq => and_congr_left' (hrest q hq)
          · refine (((Waits.refl not_false).modifyChecker (i := i) hj).trans (hw j hj)).congr ?_
            simp only [false_or, getRoutingEntry_modifyChecker]
            exact exists_congr fun q => and_congr_right fun hq => and_congr_left' (hrest q hq)
      · rw [retransmitLinks_skip hc hm he hg hs] at hr
        exact ih h.tail hr

/-- Entry `k` stores an LSA that a neighbour with this id has not acknowledged, and all its retransmissions
to it are used up. -/
def DueAt (d : Daemon) (k : ℕ) (id : Int32) : Prop :=
  ∃ e, d.rt.table[k]? = some e ∧ e.lsa ≠ none ∧
    ∃ p ∈ d.dl.neighbours, GivesUp d.rt k e.forwarderId p ∧ p.1.id = id

theorem DueAt.lt {d : Daemon} {k : ℕ} {id : Int32} (h : DueAt d k id) : k < d.rt.numEntry := by
  obtain ⟨e, he, -⟩ := h
  exact (List.getElem?_eq_some_iff.mp he).1

theorem retransmitMissing_declares {d : Daemon} (h : Prepared d) {k : ℕ} {e : RoutingEntry}
    (he : d.rt.table[k]? = some e) {rt' : RoutingTable} {gol' : LisoHash} {out : List Effect}
    (hr : retransmitMissing k d.dl d.rt e.lsaSize e.forwarderId d.gol = .ok (rt', gol', out)) :
    (∀ n, .giveUp n ∈ out ↔ DueAt d k n) ∧
      ∀ j, k ≠ j → Waits d.rt rt' j (∃ n, DueAt d k n ∧ getRoutingEntry d.rt n = some j) := by
  have hs : storedLsa d.rt k = e.lsa := by rw [storedLsa, he]; rfl
  unfold retransmitMissing at hr
  rw [hs] at hr
  cases hl : e.lsa with
  | none =>
    rw [hl] at hr
    cases hr
    have hno : ∀ n, ¬ DueAt d k n := by
      rintro n ⟨e', he', hl', -⟩
      rw [he, Option.some.injEq] at he'
      exact hl' (he' ▸ hl)
    exact ⟨fun n => by simp [hno n], fun j _ => .refl (by simp [hno])⟩
  | some lsa =>
    have hdue : ∀ n, DueAt d k n ↔ ∃ p ∈ d.dl.neighbours, GivesUp d.rt k e.forwarderId p ∧ p.1.id = n := by
      intro n
      simp only [DueAt, he, Option.some.injEq, exists_eq_left', hl, ne_eq, reduceCtorEq, not_false_eq_true,
        true_and]
    have hk := h.countable.found k e lsa he hl
    rw [hl] at hr
    dsimp only at hr
    rw [hk, deref_some, ok_bind] at hr
    have hw : Walks d.dl d.rt k lsa.senderNodeId d.dl.neighbours :=
      ⟨h.linked, hk, fun p hp => ⟨neighbour_mem hp, h.checker he hp⟩, nodup_neighbours d.dl⟩
    obtain ⟨hout, hw'⟩ := retransmitLinks_declares hw hr
    refine ⟨fun n => (hout n).trans (hdue n).symm, fun j hj => (hw' j hj).congr ?_⟩
    simp only [hdue]
    constructor
    · rintro ⟨p, hp, hg, hj⟩
      exact ⟨p.1.id, ⟨p, hp, hg, rfl⟩, hj⟩
    · rintro ⟨_, ⟨p, hp, hg, rfl⟩, hj⟩
      exact ⟨p, hp, hg, hj⟩

/-! ### A round -/

/-- A neighbour is due at an entry before `k`, and its own entry is `j`: a round discards the LSA of entry
`j` before it comes to entry `k`. Nobody is due any more at an entry whose LSA was discarded. -/
def DiscardedBefore (d : Daemon) : ℕ → ℕ → Prop
  | 0, _ => False
  | k + 1, j => DiscardedBefore d k j ∨
      ¬ DiscardedBefore d k k ∧ ∃ n, DueAt d k n ∧ getRoutingEntry d.rt n = some j

theorem Waits.due {d : Daemon} {rt : RoutingTable} {gol : LisoHash} {k : ℕ} {gone : Prop}
    (h : Waits d.rt rt k gone) (n : Int32) :
    DueAt { d with rt := rt, gol := gol } k n ↔ ¬ gone ∧ DueAt d k n := by
  have hg : ∀ {fw p}, GivesUp rt k fw p ↔ GivesUp d.rt k fw p := givesUp_congr (h.cell _)
  have hf := h.forwarder
  have hl := h.lsa
  unfold DueAt
  dsimp only
  simp only [hg]
  cases he : d.rt.table[k]? with
  | none =>
    rw [he, Option.map_none, Option.map_eq_none_iff] at hf
    simp [hf]
  | some e =>
    rw [he, Option.map_some] at hf
    obtain ⟨e', he', hfw⟩ := Option.map_eq_some_iff.mp hf
    simp only [storedLsa, he, he', Option.bind_some] at hl
    simp only [he', Option.some.injEq, exists_eq_left', ne_eq, hl, hfw, not_or]
    tauto

/-- **Whom the calls for the entries from `k` give up.** -/
theorem retransmitEntries_giveUp {d : Daemon} {k n : ℕ} {rt rt' : RoutingTable} {gol gol' : LisoHash}
    {out : List Effect} (hp : Prepared { d with rt := rt, gol := gol })
    (hids : ∀ id, getRoutingEntry rt id = getRoutingEntry d.rt id)
    (hw : ∀ j, k ≤ j → Waits d.rt rt j (DiscardedBefore d k j))
    (hr : retransmitEntries d.dl (List.range' k n) rt gol = .ok (rt', gol', out)) (id : Int32) :
    .giveUp id ∈ out ↔ ∃ j, k ≤ j ∧ j < k + n ∧ ¬ DiscardedBefore d j j ∧ DueAt d j id := by
  induction n generalizing k rt gol out with
  | zero =>
    cases hr
    simp only [List.not_mem_nil, false_iff, not_exists]
    omega
  | succ n ih =>
    rw [List.range'_succ] at hr
    obtain ⟨e, he, hr⟩ := bind_eq_ok.mp hr
    obtain ⟨⟨rt₁, gol₁, out₁⟩, h1, hr⟩ := bind_eq_ok.mp hr
    obtain ⟨⟨rt₂, gol₂, out₂⟩, h2, hr⟩ := bind_eq_ok.mp hr
    cases hr
    rw [deref_eq_ok] at he
    obtain ⟨hout, hw₁⟩ := retransmitMissing_declares hp he h1
    obtain ⟨ms, -, tr⟩ := retransmitMissing_trail (d := { d with rt := rt, gol := gol }) he h1
    obtain ⟨hp₁, hids₁⟩ := tr.preserves
      (I := fun x => Prepared x ∧ ∀ id, getRoutingEntry x.rt id = getRoutingEntry d.rt id)
      (fun _ _ _ hx hm => ⟨prepared_retry hx.1 hm, fun id =>
        (getRoutingEntry_congr (tick_ids hm.onwardTick.1) id).trans (hx.2 id)⟩) ⟨hp, hids⟩
    have hdue : ∀ n, DueAt { d with rt := rt, gol := gol } k n ↔ ¬ DiscardedBefore d k k ∧ DueAt d k n :=
      (hw k le_rfl).due
    rw [List.mem_append, hout, hdue, ih hp₁ hids₁ (fun j hj => ?_) h2]
    · constructor
      · rintro (⟨hg, hd⟩ | ⟨j, hj, hlt, h⟩)
        · exact ⟨k, le_rfl, by omega, hg, hd⟩
        · exact ⟨j, by omega, by omega, h⟩
      · rintro ⟨j, hj, hlt, h⟩
        rcases hj.eq_or_lt with rfl | hj
        · exact .inl h
        · exact .inr ⟨j, hj, by omega, h⟩
    · refine ((hw j (by omega)).trans (hw₁ j (by omega))).congr ?_
      rw [DiscardedBefore]
      dsimp only
      simp only [hdue, hids, and_assoc, exists_and_left]

/-! ### A flood tick -/

/-- The status word of entry `i`, whose node is `id`, is at its last count. -/
def LastCount (rt : RoutingTable) (i : ℕ) (id : Int32) : Prop :=
  ∃ e, rt.table[i]? = some e ∧ e.nodeStatus = 1 ∧ e.id = id

theorem LastCount.lt {rt : RoutingTable} {i : ℕ} {id : Int32} (h : LastCount rt i id) : i < rt.numEntry := by
  obtain ⟨e, he, -⟩ := h
  exact (List.getElem?_eq_some_iff.mp he).1

theorem lastCount_congr {rt rt' : RoutingTable} {i : ℕ} {id : Int32}
    (hids : rt'.table.map RoutingEntry.id = rt.table.map RoutingEntry.id)
    (hst : statusAt rt' i = statusAt rt i) : LastCount rt' i id ↔ LastCount rt i id := by
  have key : ∀ t : RoutingTable, LastCount t i id ↔
      statusAt t i = some 1 ∧ (t.table.map RoutingEntry.id)[i]? = some id := fun t => by
    rw [LastCount, statusAt, List.getElem?_map]
    cases t.table[i]? <;> simp
  rw [key, key, hids, hst]

theorem trail_ids {d d' : Daemon} {out : List Effect} (h : Trail Tick d out d') :
    d'.rt.table.map RoutingEntry.id = d.rt.table.map RoutingEntry.id :=
  h.preserves (I := fun x => x.rt.table.map RoutingEntry.id = d.rt.table.map RoutingEntry.id)
    (fun _ _ _ hx h1 => (tick_ids h1).trans hx) rfl

theorem tickEntry_expire {dl : DirectLinks} {i : ℕ} {rt rt' : RoutingTable} {ht ht' : LisoHash}
    {out : List Effect} (h : tickEntry dl i rt ht = .ok (rt', ht', out)) (id : Int32) :
    .expire id ∈ out ↔ LastCount rt i id := by
  obtain ⟨e, he, h⟩ := bind_eq_ok.mp h
  obtain ⟨⟨rt₁, out₁⟩, h1, h⟩ := bind_eq_ok.mp h
  have hout : .expire id ∉ out₁ := fun hx => by
    obtain ⟨lsa, l, size, hx⟩ := forwardEntry_sends h1 hx
    cases hx
  simp only [LastCount, deref_eq_ok.mp he, Option.some.injEq, exists_eq_left']
  dsimp only at h
  have hst : ∀ {s}, s - 1 = statusDown ↔ s = 1 := fun {s} => by
    unfold statusDown
    omega
  split_ifs at h with h0 hlast <;> cases h
  · have hne : e.nodeStatus ≠ 1 := by
      rw [h0]
      decide
    simp [hout, hne]
  · simp [hout, hst.mp hlast, eq_comm]
  · simp [hout, mt hst.mpr hlast]

theorem tickEntries_expire {d : Daemon} {is : List ℕ} {rt' : RoutingTable} {gol' : LisoHash}
    {out : List Effect} (hn : is.Nodup) (hi : ∀ i ∈ is, 1 ≤ i)
    (h : tickEntries d.dl is d.rt d.gol = .ok (rt', gol', out)) (id : Int32) :
    .expire id ∈ out ↔ ∃ i ∈ is, LastCount d.rt i id := by
  induction is generalizing d out with
  | nil =>
    cases h
    simp
  | cons i is ih =>
    obtain ⟨⟨rt₁, gol₁, out₁⟩, h1, h⟩ := bind_eq_ok.mp h
    obtain ⟨⟨rt₂, gol₂, out₂⟩, h2, h⟩ := bind_eq_ok.mp h
    cases h
    obtain ⟨hni, hn⟩ := List.nodup_cons.mp hn
    have hids := trail_ids ((tickEntry_trail (hi i List.mem_cons_self) h1).mono fun _ _ _ h => h.1)
    rw [List.mem_append, tickEntry_expire h1, ih (d := { d with rt := rt₁, gol := gol₁ }) hn
      (fun j hj => hi j (List.mem_cons_of_mem _ hj)) h2]
    simp only [List.mem_cons, exists_eq_or_imp]
    refine or_congr_right (exists_congr fun j => and_congr_right fun hj => lastCount_congr hids ?_)
    have hne : i ≠ j := fun he => hni (he ▸ hj)
    rw [statusAt_tickEntry h1, if_neg hne]

/-- **Whom a flood tick ages to `STATUS_DOWN`.** -/
theorem floodTick_expire {f : Files} {d d' : Daemon} {fresh : Fresh} {out : List Effect}
    (r : (daemonSystem f).Reachable d) (h : floodTick fresh d = .ok (d', out)) (id : Int32) :
    .expire id ∈ out ↔ ∃ i, 1 ≤ i ∧ LastCount d.rt i id := by
  obtain ⟨⟨rt₁, out₁⟩, h1, h⟩ := bind_eq_ok.mp h
  obtain ⟨seq, hseq, h⟩ := bind_eq_ok.mp h
  obtain ⟨⟨rt₂, gol₂, out₂⟩, h2, h⟩ := bind_eq_ok.mp h
  cases h
  have hout : .expire id ∉ out₁ := fun hx => by
    obtain ⟨lsa, l, size, hx⟩ := flood_sends h1 hx
    cases hx
  have hids := trail_ids ((flood_trail h1 hseq).mono fun _ _ _ h => h.1)
  have hlast : ∀ {i}, 1 ≤ i → (LastCount rt₁ i id ↔ LastCount d.rt i id) := fun hi =>
    lastCount_congr hids (statusAt_flood (fun k => own_index r) h1 hi)
  have hrest := tickEntries_expire (d := { d with rt := rt₁, sequenceNumber := seq }) List.nodup_range'
    (fun i hi => (List.mem_range'_1.mp hi).1) h2 id
  rw [List.mem_append, or_iff_right hout, hrest]
  dsimp only
  constructor
  · rintro ⟨i, hi, hl⟩
    have hpos := (List.mem_range'_1.mp hi).1
    exact ⟨i, hpos, (hlast hpos).mp hl⟩
  · rintro ⟨i, hi, hl⟩
    rw [← hlast hi] at hl
    have hlt := hl.lt
    exact ⟨i, List.mem_range'_1.mpr ⟨hi, by omega⟩, hl⟩

/-! ### A timeout -/

/-- Whom the next timeout declares down: at a flood tick the nodes at their last count, in a
retransmission round the neighbours that are due at an entry whose LSA is not discarded before. -/
inductive DueDown (d : Daemon) (id : Int32) : Prop
  | expire {i : ℕ} (tick : d.iterations = floodingPeriod) (pos : 1 ≤ i) (last : LastCount d.rt i id)
  | giveUp {k : ℕ} (round : d.iterations ≠ 0 ∧ d.iterations ≤ retransmitTime)
      (stored : ¬ DiscardedBefore d k k) (due : DueAt d k id)

theorem retry_noExpire {d d' : Daemon} {ms : List (Option (ℕ × ℕ) × Effect)} (h : Trail Retry d ms d')
    (id : Int32) : .expire id ∉ ms.map Prod.snd := by
  have key : ∀ x ∈ ms, x.2 ≠ .expire id := by
    refine h.forall_mem (I := fun _ => True) (P := fun x => x.2 ≠ .expire id)
      (fun _ _ _ _ _ => trivial) (fun _ _ _ _ ht x hx => ?_) trivial
    cases ht with
    | resend =>
      obtain rfl := List.mem_singleton.mp hx
      simp [rtSendto]
    | giveUp =>
      obtain rfl := List.mem_singleton.mp hx
      simp
  intro hx
  obtain ⟨x, hx, he⟩ := List.mem_map.mp hx
  exact key x hx he

/-- **A timeout declares down exactly the nodes that are due before it.** -/
theorem declared_iff {f : Files} {d d' : Daemon} {fresh : Fresh} {out : List Effect}
    (r : (daemonSystem f).Reachable d) (h : timeout fresh d = .ok (d', out)) (id : Int32) :
    Declared out id ↔ DueDown d id := by
  obtain ⟨⟨d₁, out₁⟩, h1, h⟩ := bind_eq_ok.mp h
  obtain ⟨⟨d₂, out₂⟩, h2, h⟩ := bind_eq_ok.mp h
  cases h
  unfold floodPhase at h1
  split_ifs at h1 with hit
  · -- the pass of a flood tick does not retransmit
    obtain ⟨hno, h0⟩ := floodTick_noGiveUp h1 id
    rw [retransmitPhase, if_neg fun h => h.1 h0] at h2
    cases h2
    rw [List.append_nil, Declared, or_iff_right hno, floodTick_expire r h1]
    constructor
    · rintro ⟨i, hi, hl⟩
      exact .expire hit hi hl
    · rintro (⟨-, hi, hl⟩ | ⟨⟨-, hle⟩, -, -⟩)
      · exact ⟨_, hi, hl⟩
      · rw [hit] at hle
        exact absurd hle (by decide)
  · cases h1
    obtain ⟨ms, hms, tr⟩ := retransmitPhase_trail h2
    have hno : .expire id ∉ out₂ := by
      rw [hms]
      exact retry_noExpire tr id
    rw [List.nil_append, Declared, or_iff_left hno]
    unfold retransmitPhase at h2
    split_ifs at h2 with hround
    · obtain ⟨⟨rt, gol, out⟩, h2, h3⟩ := bind_eq_ok.mp h2
      cases h3
      rw [List.range_eq_range'] at h2
      rw [retransmitEntries_giveUp (prepared_reachable r) (fun _ => rfl)
        (fun j _ => .refl (by simp [DiscardedBefore])) h2 id]
      constructor
      · rintro ⟨j, -, -, hs, hd⟩
        exact .giveUp hround hs hd
      · rintro (⟨ht, -, -⟩ | ⟨-, hs, hd⟩)
        · exact absurd ht hit
        · exact ⟨_, Nat.zero_le _, by rw [Nat.zero_add]; exact hd.lt, hs, hd⟩
    · cases h2
      simp only [List.not_mem_nil, false_iff]
      rintro (⟨ht, -, -⟩ | ⟨hr, -, -⟩)
      · exact hit ht
      · exact hround hr

end RoutingDaemon
