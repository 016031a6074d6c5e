import RoutingDaemon.Ageing
import RoutingDaemon.AnyDatagram
import RoutingDaemon.TablesAsMaps
import RoutingDaemon.Lib.Interleave

/-!
# Originators do not interfere

* `Objects`, `Tables`: the tables without the order of their entries, and without the choice between
  paths of one cost. `Objects.learn`: one name; `Tables.hear`: one datagram.
* `independent_hear`: datagrams of different originators commute.
* `tablesOf`: the tables of a daemon; `tablesOf_receive`: a datagram is heard; `receive_of_fits`: it is
  handled if the tables do not grow too large; `exec_iff`: all runs.
* `WellFormed`, `SameTables`, `originators_independent`: sequences of LSAs.
-/

namespace RoutingDaemon

/-! ### Tables without an order -/

/-- An object table: the names, the cost of their paths, and the counter. -/
structure Objects where
  cost : CString → Option (Option ℤ)
  numObjs : ℕ

/-- The cost of a name after an announcement. -/
def cheaper (old : Option (Option ℤ)) (c : ℤ) : ℤ :=
  match old with
  | some (some b) => min b c
  | _ => c

/-- Learn of a name and a cost. -/
def Objects.learn (o : Objects) (p : CString × ℤ) : Objects where
  cost := Function.update o.cost p.1 (some (some (cheaper (o.cost p.1) p.2)))
  numObjs := if o.cost p.1 = none then o.numObjs + 1 else o.numObjs

theorem cheaper_cheaper (old : Option (Option ℤ)) (b c : ℤ) :
    cheaper (some (some (cheaper old b))) c = cheaper (some (some (cheaper old c))) b := by
  rcases old with _ | _ | a
  · exact min_comm _ _
  · exact min_comm _ _
  · exact min_right_comm _ _ _

/-- Names are learned in any order. -/
instance rightCommutative_learn : RightCommutative Objects.learn where
  right_comm o p q := by
    by_cases h : p.1 = q.1
    · simp [Objects.learn, h, cheaper_cheaper _ p.2]
    · simp only [Objects.learn, Function.update_of_ne h, Function.update_of_ne (Ne.symm h),
        Objects.mk.injEq]
      exact ⟨Function.update_comm h _ _ _, by split_ifs <;> rfl⟩

theorem foldl_learn_comm (o : Objects) (l l' : List (CString × ℤ)) :
    l'.foldl Objects.learn (l.foldl Objects.learn o) =
      l.foldl Objects.learn (l'.foldl Objects.learn o) := by
  rw [← List.foldl_append, ← List.foldl_append]
  exact List.perm_append_comm.foldl_eq o

theorem numObjs_le_learn (o : Objects) (l : List (CString × ℤ)) :
    o.numObjs ≤ (l.foldl Objects.learn o).numObjs := by
  induction l generalizing o with
  | nil => exact le_rfl
  | cons p l ih =>
    refine le_trans ?_ (ih _)
    unfold Objects.learn
    dsimp only
    split_ifs
    · exact Nat.le_succ _
    · exact le_rfl

/-- An entry without the counter of its checkers, which an allocation leaves as it is. -/
def RoutingEntry.uncounted (e : RoutingEntry) : RoutingEntry :=
  { e with checkersList := e.checkersList.map fun c => { c with numLinks := 0 } }

/-- The two tables: the entries of the nodes, how many there are, and the objects. -/
structure Tables where
  entries : Int32 → Option RoutingEntry
  numEntry : ℕ
  objects : Objects

/-- An LSA from a neighbour, and the names in it. -/
structure Announcement where
  lsa : LSA
  forwarderId : Int32
  size : ℕ
  names : List CString

/-- What `lsa_handler` reads. -/
def announcement (dl : DirectLinks) (r : Received) : Option Announcement :=
  match rtRecvfrom dl r with
  | .ok (some (lsa, forwarderId, size)) =>
    match objectNames (acceptedLsa lsa) with
    | .ok names => some ⟨lsa, forwarderId, size, names⟩
    | .error _ => none
  | _ => none

/-- The node a datagram is about. -/
def originator (dl : DirectLinks) (r : Received) : Option Int32 :=
  match rtRecvfrom dl r with
  | .ok (some (lsa, _, _)) => some lsa.senderNodeId
  | _ => none

/-- The entry of an originator when an LSA of it was accepted. -/
def Announcement.entry (a : Announcement) (dl : DirectLinks) (old : Option RoutingEntry) :
    RoutingEntry :=
  (updatedEntry ⟨fun _ => 0, 0⟩ dl (acceptedLsa a.lsa) a.size a.forwarderId old).uncounted

/-- The names of an LSA with their cost. -/
def Announcement.offers (a : Announcement) : List (CString × ℤ) :=
  a.names.map fun s => (s, lsaCost (acceptedLsa a.lsa))

/-- An LSA that is not newer than the stored one. -/
def Announcement.stale (a : Announcement) (old : Option RoutingEntry) : Bool :=
  (old.bind RoutingEntry.lsa).any fun b => a.lsa.sequenceNum.toInt ≤ b.sequenceNum.toInt

/-- Accept an LSA that is newer. -/
def Tables.accept (dl : DirectLinks) (t : Tables) (a : Announcement) : Tables :=
  let s := a.lsa.senderNodeId
  if a.stale (t.entries s) then t
  else
    ⟨Function.update t.entries s (some (a.entry dl (t.entries s))),
      if t.entries s = none then t.numEntry + 1 else t.numEntry,
      a.offers.foldl Objects.learn t.objects⟩

/-- Hear a datagram. -/
def Tables.hear (dl : DirectLinks) (t : Tables) (r : Received) : Tables :=
  match announcement dl r with
  | some a => t.accept dl a
  | none => t

/-- Both tables have room for what they hold. -/
def Tables.Fits (t : Tables) : Prop := t.numEntry ≤ maxNodes ∧ t.objects.numObjs ≤ maxobjnum

section Hear

variable {dl : DirectLinks}

theorem originator_of_announcement {r : Received} {a : Announcement}
    (h : announcement dl r = some a) : originator dl r = some a.lsa.senderNodeId := by
  unfold announcement at h
  unfold originator
  split at h
  · split at h
    · cases h
      rfl
    · cases h
  · cases h

theorem accept_of_stale {t : Tables} {a : Announcement}
    (h : a.stale (t.entries a.lsa.senderNodeId) = true) : t.accept dl a = t := if_pos h

theorem accept_of_newer {t : Tables} {a : Announcement}
    (h : a.stale (t.entries a.lsa.senderNodeId) = false) : t.accept dl a =
      ⟨Function.update t.entries a.lsa.senderNodeId (some (a.entry dl (t.entries a.lsa.senderNodeId))),
        if t.entries a.lsa.senderNodeId = none then t.numEntry + 1 else t.numEntry,
        a.offers.foldl Objects.learn t.objects⟩ := if_neg (by rw [h]; exact Bool.false_ne_true)

theorem entries_accept_of_ne {t : Tables} {a : Announcement} {s : Int32}
    (h : s ≠ a.lsa.senderNodeId) : (t.accept dl a).entries s = t.entries s := by
  cases hs : a.stale (t.entries a.lsa.senderNodeId) with
  | true => rw [accept_of_stale hs]
  | false =>
    rw [accept_of_newer hs]
    exact Function.update_of_ne h _ _

/-- **LSAs of different originators commute.** -/
theorem accept_comm (t : Tables) {a b : Announcement}
    (h : a.lsa.senderNodeId ≠ b.lsa.senderNodeId) :
    (t.accept dl a).accept dl b = (t.accept dl b).accept dl a := by
  have hb : (t.accept dl b).entries a.lsa.senderNodeId = t.entries a.lsa.senderNodeId :=
    entries_accept_of_ne h
  have ha : (t.accept dl a).entries b.lsa.senderNodeId = t.entries b.lsa.senderNodeId :=
    entries_accept_of_ne (Ne.symm h)
  cases hsa : a.stale (t.entries a.lsa.senderNodeId) with
  | true => rw [accept_of_stale hsa, accept_of_stale (t := t.accept dl b) (by rw [hb, hsa])]
  | false =>
    cases hsb : b.stale (t.entries b.lsa.senderNodeId) with
    | true => rw [accept_of_stale hsb, accept_of_stale (t := t.accept dl a) (by rw [ha, hsb])]
    | false =>
      rw [accept_of_newer (t := t.accept dl a) (by rw [ha, hsb]), ha, accept_of_newer hsa,
        accept_of_newer (t := t.accept dl b) (by rw [hb, hsa]), hb, accept_of_newer hsb,
        Tables.mk.injEq]
      refine ⟨Function.update_comm h _ _ _, ?_, foldl_learn_comm _ _ _⟩
      dsimp only
      split_ifs <;> rfl

theorem independent_hear : Independent (originator dl) (Tables.hear dl) := by
  intro t r r' h
  unfold Tables.hear
  cases ha : announcement dl r with
  | none => rfl
  | some a =>
    cases hb : announcement dl r' with
    | none => rfl
    | some b =>
      rw [originator_of_announcement ha, originator_of_announcement hb, ne_eq,
        Option.some.injEq] at h
      exact accept_comm t h

theorem fits_of_accept {t : Tables} {a : Announcement} (h : (t.accept dl a).Fits) : t.Fits := by
  cases hs : a.stale (t.entries a.lsa.senderNodeId) with
  | true => rwa [accept_of_stale hs] at h
  | false =>
    rw [accept_of_newer hs] at h
    refine ⟨le_trans ?_ h.1, (numObjs_le_learn _ _).trans h.2⟩
    dsimp only
    split_ifs
    · exact Nat.le_succ _
    · exact le_rfl

theorem fits_of_hear {t : Tables} {r : Received} (h : (t.hear dl r).Fits) : t.Fits := by
  unfold Tables.hear at h
  split at h
  · exact fits_of_accept h
  · exact h

theorem fits_of_foldl_hear {rs : List Received} {t : Tables}
    (h : (rs.foldl (Tables.hear dl) t).Fits) : t.Fits := by
  induction rs generalizing t with
  | nil => exact h
  | cons r rs ih => exact fits_of_hear (ih h)

end Hear

/-! ### The tables of a daemon -/

/-- The objects of a table. -/
def objectsOf (gol : LisoHash) : Objects :=
  ⟨fun s => (view superFastHash gol s).map (Option.map Path.cost), gol.numObjs⟩

/-- The tables of a daemon. -/
def tablesOf (d : Daemon) : Tables :=
  ⟨fun id => (entryOf d.rt id).map RoutingEntry.uncounted, d.rt.numEntry, objectsOf d.gol⟩

theorem cost_announcePath (old : Option (Option Path)) (p : Path) :
    (announcePath old p).cost = cheaper (old.map (Option.map Path.cost)) p.cost := by
  rcases old with _ | _ | q
  · rfl
  · rfl
  · simp only [announcePath, cheaper, Option.map_some]
    split_ifs with hlt
    · exact (min_eq_right hlt.le).symm
    · exact (min_eq_left (not_lt.mp hlt)).symm

section Objects

variable {gol gol' : LisoHash} {n : Int32} {c : ℤ}

/-- **`hash_add` learns of a name.** -/
theorem objectsOf_hashAdd {s : CString} (hc : Consistent superFastHash gol)
    (h : hashAdd superFastHash gol s n c = .ok gol') :
    objectsOf gol' = (objectsOf gol).learn (s, c) := by
  have hv := (hashAdd_spec hc h).2
  have hn := hashAdd_numObjs hc h
  simp only [objectsOf, Objects.learn, Objects.mk.injEq]
  constructor
  · funext t
    rw [hv]
    by_cases ht : t = s
    · subst ht
      rw [ObjMap.announce_self, Function.update_self, Option.map_some, Option.map_some,
        cost_announcePath]
    · rw [ObjMap.announce_of_ne ht, Function.update_of_ne ht]
  · rw [hn]
    change _ = if (view superFastHash gol s).map (Option.map Path.cost) = none then _ else _
    cases view superFastHash gol s <;> simp

theorem objectsOf_foldlM {names : List CString} (hc : Consistent superFastHash gol)
    (h : names.foldlM (fun g s => hashAdd superFastHash g s n c) gol = .ok gol') :
    objectsOf gol' = (names.map fun s => (s, c)).foldl Objects.learn (objectsOf gol) := by
  induction names generalizing gol with
  | nil => cases h; rfl
  | cons s names ih =>
    obtain ⟨g, h1, h⟩ := bind_eq_ok.mp h
    rw [ih (hashAdd_spec hc h1).1 h, objectsOf_hashAdd hc h1]
    rfl

theorem exists_foldlM {names : List CString} (hc : Consistent superFastHash gol)
    (hs : ∀ s ∈ names, strlen s < maxobjname)
    (hr : ((names.map fun s => (s, c)).foldl Objects.learn (objectsOf gol)).numObjs ≤ maxobjnum) :
    ∃ gol', names.foldlM (fun g s => hashAdd superFastHash g s n c) gol = .ok gol' := by
  induction names generalizing gol with
  | nil => exact ⟨gol, rfl⟩
  | cons s names ih =>
    rw [List.map_cons, List.foldl_cons] at hr
    cases h : hashAdd superFastHash gol s n c with
    | error f =>
      obtain ⟨-, hv, hn⟩ := hashAdd_eq_error (s := ⟨s, hs s List.mem_cons_self⟩) hc h
      have h1 : ((objectsOf gol).learn (s, c)).numObjs = maxobjnum + 1 := by
        rw [← hn]
        exact if_pos (Option.map_eq_none_iff.mpr hv)
      have h2 := numObjs_le_learn ((objectsOf gol).learn (s, c)) (names.map fun s => (s, c))
      omega
    | ok g =>
      rw [← objectsOf_hashAdd hc h] at hr
      obtain ⟨gol', h'⟩ := ih (hashAdd_spec hc h).1 (fun t ht => hs t (List.mem_cons_of_mem _ ht)) hr
      exact ⟨gol', by rw [List.foldlM_cons, h]; exact h'⟩

end Objects

/-- A well-formed LSA of a configured neighbour: its counts and lengths fit. -/
inductive WellFormed (dl : DirectLinks) (r : Received) : Prop
  | lsa {lsa : LSA} {forwarderId : Int32} {size : ℕ} {raws : List (List UInt8)}
      (recv : rtRecvfrom dl r = .ok (some (lsa, forwarderId, size)))
      (type : getType lsa.versionTtlType = typeLsa) (counts : Payload lsa raws)
      (short : ∀ raw ∈ raws, raw.length < maxObjLen)

section Receive

variable {d d' : Daemon} {r : Received} {fresh : Fresh} {out : List Effect} {lsa : LSA} {f : Int32}
  {size : ℕ} {raws : List (List UInt8)}

theorem storeNodeObjects_accepted {σ : Type} {add : σ → CString → Int32 → ℤ → Except Fault σ}
    (recv : rtRecvfrom d.dl r = .ok (some (lsa, f, size))) (counts : Payload lsa raws)
    (short : ∀ raw ∈ raws, raw.length < maxObjLen) (ht : σ) :
    storeNodeObjects add ht (acceptedLsa lsa) = (raws.map cstr).foldlM
      (fun g s => add g s lsa.senderNodeId (lsaCost (acceptedLsa lsa))) ht := by
  have hlen := received_length recv
  rw [counts.acceptedLsa.storeNodeObjects hlen, foldlM_storeName short]
  rfl

theorem announcement_eq (recv : rtRecvfrom d.dl r = .ok (some (lsa, f, size)))
    (counts : Payload lsa raws) (short : ∀ raw ∈ raws, raw.length < maxObjLen) :
    announcement d.dl r = some ⟨lsa, f, size, raws.map cstr⟩ := by
  have hn : objectNames (acceptedLsa lsa) = .ok (raws.map cstr) := by
    rw [objectNames, storeNodeObjects_accepted recv counts short]
    rw [foldlM_collect fun s => s, List.map_id', List.nil_append]
  rw [announcement, recv]
  dsimp only
  rw [hn]

theorem uncounted_updatedEntry (fresh fresh' : Fresh) (dl : DirectLinks) (nexthop : Int32)
    (old : Option RoutingEntry) : (updatedEntry fresh dl lsa size nexthop old).uncounted =
      (updatedEntry fresh' dl lsa size nexthop (old.map RoutingEntry.uncounted)).uncounted := by
  cases old <;> rfl

theorem lsa_tablesOf (s : Int32) :
    ((tablesOf d).entries s).bind RoutingEntry.lsa = storedFor d.rt s := by
  change ((entryOf d.rt s).map RoutingEntry.uncounted).bind RoutingEntry.lsa = _
  rw [storedFor]
  cases hk : getRoutingEntry d.rt s with
  | none =>
    rw [entryOf_eq_none.mpr hk]
    rfl
  | some k =>
    rw [entryOf, hk, Option.bind_some, Option.bind_some, storedLsa]
    cases d.rt.table[k]? <;> rfl

/-- The early return is the test for a stale LSA. -/
theorem stale_tablesOf (a : Announcement) : a.stale ((tablesOf d).entries a.lsa.senderNodeId) =
    filtered d.rt (getRoutingEntry d.rt a.lsa.senderNodeId) typeLsa a.lsa.sequenceNum := by
  rw [Announcement.stale, lsa_tablesOf, Bool.eq_iff_iff, filtered_lsa]
  cases storedFor d.rt a.lsa.senderNodeId <;> simp

theorem entries_eq_none {s : Int32} :
    (tablesOf d).entries s = none ↔ getRoutingEntry d.rt s = none :=
  Option.map_eq_none_iff.trans entryOf_eq_none

/-- **`update_entry` on the tables.** -/
theorem entries_updateEntry {rt : RoutingTable} (ht : getType lsa.versionTtlType = typeLsa)
    (h : updateEntry fresh (getRoutingEntry d.rt lsa.senderNodeId) d.rt d.dl lsa size f = .ok rt)
    (fresh' : Fresh) : (fun id => (entryOf rt id).map RoutingEntry.uncounted) =
      Function.update (tablesOf d).entries lsa.senderNodeId (some (updatedEntry fresh' d.dl lsa size f
        ((tablesOf d).entries lsa.senderNodeId)).uncounted) := by
  funext id
  rw [entryOf_updateEntry ht h]
  by_cases hid : id = lsa.senderNodeId
  · subst hid
    rw [if_pos rfl, Function.update_self, Option.map_some, uncounted_updatedEntry fresh fresh']
    rfl
  · rw [if_neg hid, Function.update_of_ne hid]
    rfl

theorem numEntry_updateEntry {rt : RoutingTable} (ht : getType lsa.versionTtlType = typeLsa)
    (h : updateEntry fresh (getRoutingEntry d.rt lsa.senderNodeId) d.rt d.dl lsa size f = .ok rt) :
    rt.numEntry =
      if (tablesOf d).entries lsa.senderNodeId = none then d.rt.numEntry + 1 else d.rt.numEntry := by
  cases hk : getRoutingEntry d.rt lsa.senderNodeId with
  | none =>
    rw [hk, updateEntry_none ht] at h
    rw [if_pos (entries_eq_none.mpr hk), RoutingTable.numEntry, getElem?_push h,
      List.length_append]
    rfl
  | some k =>
    rw [hk, updateEntry_some ht] at h
    cases h
    rw [if_neg, numEntry_modify]
    rw [entries_eq_none, hk]
    exact Option.some_ne_none k

/-- **A well-formed LSA that is handled is heard.** -/
theorem tablesOf_receive (hc : Consistent superFastHash d.gol) (wf : WellFormed d.dl r)
    (h : act (.datagram r fresh) d = .ok (d', out)) : tablesOf d' = (tablesOf d).hear d.dl r := by
  obtain @⟨lsa, f, size, raws, recv, type, counts, short⟩ := wf
  obtain ⟨_, _, _, recv', hh⟩ := receive_handled h
  rw [recv] at recv'
  cases recv'
  have ha := announcement_eq recv counts short
  have hst := stale_tablesOf (d := d) ⟨lsa, f, size, raws.map cstr⟩
  rw [Tables.hear, ha]
  dsimp only at hst ⊢
  cases hh with
  | ignored why =>
    rw [accept_of_stale]
    rw [type] at why
    exact hst.trans (why.resolve_right fun h => h.1 rfl)
  | accepted _ newer link update objects =>
    rw [accept_of_newer (hst.trans newer)]
    have ht : getType (acceptedLsa lsa).versionTtlType = typeLsa := by rw [acceptedLsa_type]; exact type
    rw [storeNodeObjects_accepted recv counts short] at objects
    rw [tablesOf, Tables.mk.injEq]
    have hnum := numEntry_updateEntry ht update
    exact ⟨entries_updateEntry ht update _, hnum, objectsOf_foldlM hc objects⟩
  | credited type' => rw [type] at type'; exact absurd type' (by decide)

theorem tablesOf_fits (hc : Consistent superFastHash d.gol) : (tablesOf d).Fits :=
  ⟨d.rt.bounded, hc.room⟩

/-- **A well-formed LSA is handled if the tables do not grow too large.** -/
theorem receive_of_fits (hc : Consistent superFastHash d.gol) (wf : WellFormed d.dl r)
    (hf : ((tablesOf d).hear d.dl r).Fits) (fresh : Fresh) :
    ∃ d' out, act (.datagram r fresh) d = .ok (d', out) := by
  obtain @⟨lsa, f, size, raws, recv, type, counts, short⟩ := wf
  have ha := announcement_eq recv counts short
  have hst := stale_tablesOf (d := d) ⟨lsa, f, size, raws.map cstr⟩
  rw [Tables.hear, ha] at hf
  dsimp only at hst hf
  cases hs : filtered d.rt (getRoutingEntry d.rt lsa.senderNodeId) typeLsa lsa.sequenceNum with
  | true => exact ⟨d, [], receive_of_handled recv (.ignored (.inl (by rw [type]; exact hs)))⟩
  | false =>
    rw [accept_of_newer (hst.trans hs)] at hf
    obtain ⟨hentry, hobj⟩ := hf
    have ht : getType (acceptedLsa lsa).versionTtlType = typeLsa := by rw [acceptedLsa_type]; exact type
    have hroom : getRoutingEntry d.rt lsa.senderNodeId ≠ none ∨ d.rt.numEntry < maxNodes := by
      by_contra hno
      obtain ⟨hk, hlt⟩ := not_or.mp hno
      rw [not_not] at hk
      dsimp only at hentry
      rw [if_pos (entries_eq_none.mpr hk)] at hentry
      exact hlt hentry
    obtain ⟨rt, update⟩ : ∃ rt, updateEntry fresh (getRoutingEntry d.rt lsa.senderNodeId) d.rt d.dl
      (acceptedLsa lsa) size f = .ok rt := (updateEntry_iff ht).mpr hroom
    obtain ⟨gol, objects⟩ := exists_foldlM (n := lsa.senderNodeId) hc (strlen_map_cstr short) hobj
    rw [← storeNodeObjects_accepted recv counts short] at objects
    obtain ⟨_, buf, l, -, -, -, hl, rfl, -⟩ := rtRecvfrom_eq_ok recv
    obtain ⟨src, hsrc⟩ := exists_lookupLinkEntryNodeId
      ⟨l, List.mem_of_mem_tail (List.mem_of_find?_eq_some hl), rfl⟩
    exact ⟨_, _, receive_of_handled recv (.accepted type hs hsrc update objects)⟩

theorem consistent_receive (hc : Consistent superFastHash d.gol)
    (h : act (.datagram r fresh) d = .ok (d', out)) : Consistent superFastHash d'.gol := by
  obtain ⟨_, _, _, -, hh⟩ := receive_handled h
  cases hh with
  | accepted type newer link update objects => exact (storeNodeObjects_view hc objects).1
  | _ => exact hc

end Receive

/-! ### Sequences -/

/-- The passes of the event loop that read these datagrams. -/
def passes (ps : List (Received × Fresh)) : List Event := ps.map fun p => .datagram p.1 p.2

section Sequences

variable {d d' : Daemon} {ps : List (Received × Fresh)}

/-- **A sequence of well-formed LSAs is heard.** -/
theorem tablesOf_exec (hc : Consistent superFastHash d.gol) (wf : ∀ p ∈ ps, WellFormed d.dl p.1)
    (h : exec (passes ps) d = .ok d') : Consistent superFastHash d'.gol ∧
      tablesOf d' = (ps.map Prod.fst).foldl (Tables.hear d.dl) (tablesOf d) := by
  induction ps generalizing d with
  | nil => cases h; exact ⟨hc, rfl⟩
  | cons p ps ih =>
    obtain ⟨⟨d₁, out⟩, h1, h⟩ := bind_eq_ok.mp h
    have hdl := (act_static h1).1
    obtain ⟨hc', ht⟩ := ih (consistent_receive hc h1)
      (by rw [hdl]; exact fun q hq => wf q (List.mem_cons_of_mem _ hq)) h
    rw [hdl, tablesOf_receive hc (wf p List.mem_cons_self) h1] at ht
    exact ⟨hc', ht⟩

/-- **A sequence of well-formed LSAs is handled exactly when the tables do not grow too large.** -/
theorem exec_iff (hc : Consistent superFastHash d.gol) (wf : ∀ p ∈ ps, WellFormed d.dl p.1) :
    (∃ d', exec (passes ps) d = .ok d') ↔
      ((ps.map Prod.fst).foldl (Tables.hear d.dl) (tablesOf d)).Fits := by
  constructor
  · rintro ⟨d', h⟩
    obtain ⟨hc', ht⟩ := tablesOf_exec hc wf h
    rw [← ht]
    exact tablesOf_fits hc'
  · intro hf
    induction ps generalizing d with
    | nil => exact ⟨d, rfl⟩
    | cons p ps ih =>
      have hp := wf p List.mem_cons_self
      obtain ⟨d₁, out, h1⟩ := receive_of_fits hc hp (fits_of_foldl_hear hf) p.2
      have hdl := (act_static h1).1
      rw [List.map_cons, List.foldl_cons, ← tablesOf_receive hc hp h1, ← hdl] at hf
      obtain ⟨d', h⟩ := ih (consistent_receive hc h1)
        (by rw [hdl]; exact fun q hq => wf q (List.mem_cons_of_mem _ hq)) hf
      exact ⟨d', bind_eq_ok.mpr ⟨_, h1, h⟩⟩

/-- The same tables: the entries of the nodes, and the names with the cost of their paths. -/
structure SameTables (d d' : Daemon) : Prop where
  entries : ∀ id, (entryOf d'.rt id).map RoutingEntry.uncounted =
    (entryOf d.rt id).map RoutingEntry.uncounted
  names : ∀ s, view superFastHash d'.gol s = none ↔ view superFastHash d.gol s = none
  cost : ∀ s, (getPaths superFastHash d'.gol s).map Path.cost =
    (getPaths superFastHash d.gol s).map Path.cost

theorem sameTables_of_eq (hc : Consistent superFastHash d.gol) (hc' : Consistent superFastHash d'.gol)
    (h : tablesOf d' = tablesOf d) : SameTables d d' := by
  have ho : ∀ s, (view superFastHash d'.gol s).map (Option.map Path.cost) =
      (view superFastHash d.gol s).map (Option.map Path.cost) :=
    congrFun (congrArg Objects.cost (congrArg Tables.objects h))
  refine ⟨congrFun (congrArg Tables.entries h), fun s => ?_, fun s => ?_⟩
  · rw [← Option.map_eq_none_iff, ho, Option.map_eq_none_iff]
  · have hj : ∀ o : Option (Option Path),
        o.join.map Path.cost = (o.map (Option.map Path.cost)).join := by rintro (_ | _ | _) <;> rfl
    rw [getPaths_eq hc, getPaths_eq hc', hj, hj, ho]

end Sequences

/-- **Originators do not interfere.** If one sequence of well-formed LSAs is handled, so is any other
interleaving of the same originators, and the tables are the same. -/
theorem originators_independent (f : Files) (d : Daemon) (r : (daemonSystem f).Reachable d)
    (ps ps' : List (Received × Fresh)) (wf : ∀ p ∈ ps, WellFormed d.dl p.1)
    (hi : Interleaves (originator d.dl) (ps.map Prod.fst) (ps'.map Prod.fst)) (d₁ : Daemon)
    (h : exec (passes ps) d = .ok d₁) : ∃ d₂, exec (passes ps') d = .ok d₂ ∧ SameTables d₁ d₂ := by
  have hc := consistent_reachable r
  have wf' : ∀ p ∈ ps', WellFormed d.dl p.1 := fun p hp => by
    obtain ⟨q, hq, hqp⟩ := List.mem_map.mp (hi.mem (List.mem_map_of_mem hp))
    rw [← hqp]
    exact wf q hq
  have key := hi.foldl_eq independent_hear (tablesOf d)
  have hf := (exec_iff hc wf).mp ⟨d₁, h⟩
  rw [key] at hf
  obtain ⟨d₂, h2⟩ := (exec_iff hc wf').mpr hf
  obtain ⟨hc₁, ht₁⟩ := tablesOf_exec hc wf h
  obtain ⟨hc₂, ht₂⟩ := tablesOf_exec hc wf' h2
  exact ⟨d₂, h2, sameTables_of_eq hc₁ hc₂ (by rw [ht₁, ht₂, key])⟩

/-- An LSA of a node that offers the object `o`. -/
def offerLsa (node : Int32) : LSA := ⟨newHeader typeLsa, node, 1, 0, 1, le32 1 ++ [111]⟩

/-- It arrives from node 2. -/
def offerOf (node : Int32) : Received := .got (cstr [66]) (offerLsa node).bytes

theorem payload_offerLsa (node : Int32) : Payload (offerLsa node) [[111]] :=
  ⟨rfl, [], [], (by decide : le32 1 ++ [111] = [] ++ ([[111]].flatMap nameBytes ++ [])), rfl⟩

theorem announcement_offerOf {d : Daemon} {node f : Int32} {size : ℕ}
    (recv : rtRecvfrom d.dl (offerOf node) = .ok (some (offerLsa node, f, size))) :
    announcement d.dl (offerOf node) = some ⟨offerLsa node, f, size, [cstr [111]]⟩ :=
  announcement_eq recv (payload_offerLsa node) (by decide)

theorem wellFormed_offerOf {dl : DirectLinks} {node f : Int32} {size : ℕ}
    (recv : rtRecvfrom dl (offerOf node) = .ok (some (offerLsa node, f, size))) :
    WellFormed dl (offerOf node) :=
  .lsa recv (by decide : getType (newHeader typeLsa) = typeLsa)
    (payload_offerLsa node) (by decide)

theorem originators_independent_offers : ∃ d d₁ d₂, (daemonSystem forkFiles).Reachable d ∧
    exec (passes [(offerOf 8, zeros), (offerOf 9, zeros)]) d = .ok d₁ ∧
      exec (passes [(offerOf 9, zeros), (offerOf 8, zeros)]) d = .ok d₂ ∧ SameTables d₁ d₂ := by
  have key : (boot forkFiles >>= fun d => exec (passes [(offerOf 8, zeros), (offerOf 9, zeros)]) d >>=
      fun d₁ => .ok (d, d₁)).map (fun p =>
        decide (rtRecvfrom p.1.dl (offerOf 8) = .ok (some (offerLsa 8, 2, 25))) &&
          decide (rtRecvfrom p.1.dl (offerOf 9) = .ok (some (offerLsa 9, 2, 25)))) = .ok true := by
    decide +kernel
  obtain ⟨⟨d, d₁⟩, hd, hp⟩ := exists_of_map_eq_ok key
  simp only [Bool.and_eq_true, decide_eq_true_eq] at hp
  obtain ⟨d', h0, hd⟩ := bind_eq_ok.mp hd
  obtain ⟨d₁', h1, hd⟩ := bind_eq_ok.mp hd
  cases hd
  have by8 : originator d.dl (offerOf 8) = some 8 := by rw [originator, hp.1]; rfl
  have by9 : originator d.dl (offerOf 9) = some 9 := by rw [originator, hp.2]; rfl
  have hi : Interleaves (originator d.dl) [offerOf 8, offerOf 9] [offerOf 9, offerOf 8] := by
    intro k
    simp only [List.filter_cons, List.filter_nil, by8, by9, decide_eq_true_eq]
    split_ifs with h8 h9
    · cases h8
      cases h9
    all_goals rfl
  obtain ⟨d₂, h2, hs⟩ := originators_independent forkFiles d (.init h0)
    [(offerOf 8, zeros), (offerOf 9, zeros)] [(offerOf 9, zeros), (offerOf 8, zeros)]
    (by simpa using ⟨wellFormed_offerOf hp.1, wellFormed_offerOf hp.2⟩) hi d₁ h1
  exact ⟨d, d₁, d₂, .init h0, h1, h2, hs⟩

end RoutingDaemon
