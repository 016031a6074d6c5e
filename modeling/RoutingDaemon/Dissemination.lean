import RoutingDaemon.Spread
import RoutingDaemon.RdgetReplies
import RoutingDaemon.Recipients
import RoutingDaemon.ForwardOnce

/-!
# How advertisements reach every node

* `flood_sent`, `forward_sent`: what a flood tick sends to a neighbour that is up.
* `Relayed`, `RelayedAlong`: nodes flood in turn, each after it has handled what the one before sent it.
* `relayed_seen`: what the first of two has seen, the second sees.
* `dissemination`: the last node has seen a new LSA of the first, and has paths to its objects.
-/

namespace RoutingDaemon

/-! ### The flood tick -/

section Flood

variable {d d' : Daemon} {fresh : Fresh} {out : List Effect} {l : LinkEntry} {i : ℕ}

/-- A timeout at the end of a period is a flood and the loop over the entries. -/
theorem timeout_floods (time : d.iterations = floodingPeriod) (h : timeout fresh d = .ok (d', out)) :
    ∃ rt₁ out₁ seq rt₂ gol₂ out₂ rest,
      flood fresh typeLsa d.dl d.ol d.rt d.myNodeId d.sequenceNumber = .ok (rt₁, out₁) ∧
        nextSequence d.sequenceNumber = .ok seq ∧
          tickEntries d.dl (List.range' 1 (rt₁.numEntry - 1)) rt₁ d.gol = .ok (rt₂, gol₂, out₂) ∧
            out = out₁ ++ out₂ ++ rest := by
  obtain ⟨⟨d₁, out₁⟩, h1, h⟩ := bind_eq_ok.mp h
  obtain ⟨⟨d₂, rest⟩, -, h⟩ := bind_eq_ok.mp h
  cases h
  rw [floodPhase, if_pos time] at h1
  obtain ⟨⟨rt₁, out₁⟩, h2, h1⟩ := bind_eq_ok.mp h1
  obtain ⟨seq, hseq, h1⟩ := bind_eq_ok.mp h1
  obtain ⟨⟨rt₂, gol₂, out₂⟩, h3, h1⟩ := bind_eq_ok.mp h1
  cases h1
  exact ⟨rt₁, out₁, seq, rt₂, gol₂, out₂, rest, h2, hseq, h3, rfl⟩

theorem flood_sent (hs : Sound d) (time : d.iterations = floodingPeriod)
    (h : timeout fresh d = .ok (d', out)) (hl : (l, i) ∈ d.dl.neighbours)
    (up : statusOf d.rt l.id ≠ some statusDown) :
    ∃ lsa size, createPacket fresh typeLsa d.myNodeId d.sequenceNumber d.dl d.ol = .ok (lsa, size) ∧
      rtSendto lsa l size ∈ out := by
  obtain ⟨rt₁, out₁, seq, rt₂, gol₂, out₂, rest, hflood, -, -, rfl⟩ := timeout_floods time h
  have hown : ∀ p ∈ d.dl.neighbours, p.1.id ≠ d.myNodeId := by
    intro p hp
    obtain ⟨l₀, hl₀, hid⟩ := hs.link_zero
    rw [← hid]
    exact hs.neighbour_ne hp hl₀
  obtain ⟨lsa, size, k, e, hp, -, -, -, -, -, hout, -⟩ := flood_spec hown hflood
  refine ⟨lsa, size, hp, List.mem_append_left _ (List.mem_append_left _ ?_)⟩
  rw [hout]
  refine List.mem_map.mpr ⟨(l, i), List.mem_filter.mpr ⟨hl, ?_⟩, rfl⟩
  simpa using up

/-- A neighbour that stays up gets every new LSA of another node that it did not forward itself. -/
theorem forward_sent {f : Files} (r : (daemonSystem f).Reachable d) (hs : Sound d)
    (time : d.iterations = floodingPeriod) (h : timeout fresh d = .ok (d', out))
    (hl : (l, i) ∈ d.dl.neighbours) (up : statusOf d.rt l.id ≠ some statusDown)
    (stays : ¬ Declared out l.id) {s : Int32} {k : ℕ} {e : RoutingEntry} {a : LSA}
    (hk : getRoutingEntry d.rt s = some k) (he : d.rt.table[k]? = some e) (ha : e.lsa = some a)
    (new : e.lsaIsNew = true) (other : s ≠ d.myNodeId) (hf : l.id ≠ e.forwarderId) :
    rtSendto a l e.lsaSize ∈ out := by
  have hpos : 1 ≤ k := by
    rcases Nat.eq_zero_or_pos k with rfl | hpos
    · obtain ⟨e₀, he₀, hid₀, -⟩ := hs.own_entry
      obtain ⟨e₁, he₁, hid₁⟩ := getRoutingEntry_eq_some hk
      rw [he₀, Option.some.injEq] at he₁
      exact absurd (hid₁.symm.trans (he₁ ▸ hid₀)) other
    · exact hpos
  have hst : e.nodeStatus ≠ statusDown := fun hd => by
    rw [(hs.entry k e he).cleared hd] at ha
    cases ha
  obtain ⟨rt₁, out₁, seq, rt₂, gol₂, out₂, rest, hflood, hseq, hticks, rfl⟩ := timeout_floods time h
  -- the loop reaches entry `k` with the entry as it was
  obtain ⟨e₁, he₁, hb₁⟩ := exists_of_bareAt (flood_other r hflood hpos) he
  have hlt : k < rt₁.numEntry := (List.getElem?_eq_some_iff.mp he₁).1
  rw [range'_split hpos hlt] at hticks
  obtain ⟨rt₃, gol₃, out₃, q, hbefore, hfrom, hq⟩ := tickEntries_append hticks
  obtain ⟨e₃, he₃, hb₃⟩ := exists_of_bareAt ((tickEntries_other hbefore k).1 (by simp; omega)) he₁
  obtain ⟨-, -, -, hst', hlsa', hsize', hnew', hf'⟩ := bare_eq_iff.mp (hb₃.trans hb₁)
  obtain ⟨⟨rt₄, gol₄, out₄⟩, hentry, hfrom⟩ := bind_eq_ok.mp hfrom
  obtain ⟨⟨rt₅, gol₅, out₅⟩, -, hfrom⟩ := bind_eq_ok.mp hfrom
  cases hfrom
  obtain ⟨-, -, rfl⟩ : _ ∧ _ ∧ out₂ = out₃ ++ (out₄ ++ out₅) := by simpa using hq
  -- it passes the LSA on
  obtain ⟨e', he', hentry⟩ := bind_eq_ok.mp hentry
  rw [deref_eq_ok, he₃, Option.some.injEq] at he'
  subst he'
  obtain ⟨⟨rt₆, out₆⟩, hforward, hentry⟩ := bind_eq_ok.mp hentry
  have hmem : ∀ x ∈ out₆, x ∈ out₄ := by
    intro x hx
    dsimp only at hentry
    split_ifs at hentry <;> cases hentry
    · exact hx
    · exact List.mem_append_left _ hx
    · exact hx
  rw [forwardEntry, if_pos ⟨hnew'.trans new, by rw [hst']; exact hst⟩, hlsa', ha, deref_some, ok_bind,
    hsize', hf'] at hforward
  -- and the neighbour is still up then
  have hup : statusOf rt₃ l.id ≠ some statusDown := by
    have before := (flood_trail hflood hseq).trans
      (tickEntries_trail (fun j hj => (List.mem_range'_1.mp hj).1) hbefore)
    have frame := (timeout_frame hs.consistent (before.mono fun _ _ _ h => h.1)).1
    intro hd
    rcases frame.down l.id hd with hd | hd
    · exact up hd
    · refine stays (hd.imp ?_ ?_) <;>
      · intro hm
        simp only [List.mem_append] at hm ⊢
        tauto
  have hsent : rtSendto a l e.lsaSize ∈ out₆ := by
    rw [(floodReceivedLsa_spec hforward).1]
    refine List.mem_map.mpr ⟨(l, i), List.mem_filter.mpr ⟨hl, ?_⟩, rfl⟩
    simpa using ⟨hf, hup⟩
  have := hmem _ hsent
  simp only [List.mem_append]
  tauto

theorem new_of_stored {f : Files} (r : (daemonSystem f).Reachable d) {e : RoutingEntry}
    (he : e ∈ d.rt.table) (h : e.lsa ≠ none) : e.lsaIsNew = true := by
  have key := r.invariant (I := fun d => ∀ (j : ℕ) (e : RoutingEntry), d.rt.table[j]? = some e →
    e.lsa ≠ none → e.lsaIsNew = true) ?_ ?_
  · obtain ⟨j, hj⟩ := List.mem_iff_getElem?.mp he
    exact key j e hj h
  · intro d (hb : boot f = .ok d) j e he h
    rw [(boot_eq_ok hb).2.1] at he
    obtain ⟨i, hi, rfl⟩ := List.mem_mapIdx.mp (List.mem_of_getElem? he)
    exact absurd rfl h
  · rintro d ⟨ev, out⟩ d' hi h
    refine (act_trail h).preserves (I := fun d => ∀ (j : ℕ) (e : RoutingEntry),
      d.rt.table[j]? = some e → e.lsa ≠ none → e.lsaIsNew = true) ?_ hi
    intro d out d' hi hm
    refine (reshapes_micro hm).forall_entry (P := fun _ e => e.lsa ≠ none → e.lsaIsNew = true) ?_ ?_ hi
    · intro j e e' he hc
      cases hc with
      | checkers => exact he
      | discard => exact fun h => absurd rfl h
      | age => exact he
      | store => exact fun _ => rfl
    · intro e ha _
      obtain ⟨-, -⟩ := ha
      rfl

end Flood

/-! ### Relays -/

variable {ι : Type} {N : Net ι}

/-- Node `y` handles the datagram in this step. -/
def Handles (N : Net ι) (y : ι) (g : Datagram ι) : ι × Event × List Effect → Prop
  | (x, .datagram r _, _) => x = y ∧ r = g.received N
  | _ => False

instance [DecidableEq ι] (N : Net ι) (y : ι) (g : Datagram ι) : DecidablePred (Handles N y g)
  | (x, .datagram r _, _) => inferInstanceAs (Decidable (x = y ∧ r = g.received N))
  | (_, .timeout _, _) => inferInstanceAs (Decidable False)
  | (_, .request _ _ _, _) => inferInstanceAs (Decidable False)

section Relay

variable [DecidableEq ι] {ok : List UInt8 → Prop} {w w' : World ι} {s x y : ι}
  {ls : List (ι × Event × List Effect)}

/-- Node `x` floods while its neighbour `y` is up, and `y` handles what it was sent. -/
inductive Relayed (N : Net ι) (ok : List UInt8 → Prop) (x y : ι) (w : World ι) :
    List (ι × Event × List Effect) → World ι → Prop
  | mk {w₁ w₂ w' : World ι} {before after : List (ι × Event × List Effect)} {fresh : Fresh}
      {out : List Effect} (waits : (network N ok).Steps w before w₁)
      (floods : (network N ok).step w₁ (x, .timeout fresh, out) w₂)
      (time : (w₁.daemon x).iterations = floodingPeriod) (nbr : y ∈ N.nbrs x)
      (up : statusOf (w₁.daemon x).rt (N.self y).id ≠ some statusDown)
      (stays : ¬ Declared out (N.self y).id) (delivers : (network N ok).Steps w₂ after w')
      (handles : ∀ g ∈ sends x out, g.To N y → ∃ l ∈ after, Handles N y g l) :
      Relayed N ok x y w (before ++ (x, .timeout fresh, out) :: after) w'

/-- Along a path, each node floods after it has handled what the one before sent it. -/
inductive RelayedAlong (N : Net ι) (ok : List UInt8 → Prop) (s : ι) (w : World ι) :
    ι → List (ι × Event × List Effect) → World ι → Prop
  | one {y : ι} {ls : List (ι × Event × List Effect)} {w' : World ι} (h : Relayed N ok s y w ls w') :
      RelayedAlong N ok s w y ls w'
  | next {x y : ι} {ls ls' : List (ι × Event × List Effect)} {w' w'' : World ι}
      (h : RelayedAlong N ok s w x ls w') (h' : Relayed N ok x y w' ls' w'') :
      RelayedAlong N ok s w y (ls ++ ls') w''

theorem Relayed.steps (h : Relayed N ok x y w ls w') : (network N ok).Steps w ls w' := by
  obtain ⟨waits, floods, -, -, -, -, delivers, -⟩ := h
  rw [← List.singleton_append]
  exact waits.trans ((System.Steps.single floods).trans delivers)

theorem RelayedAlong.steps (h : RelayedAlong N ok s w y ls w') : (network N ok).Steps w ls w' := by
  induction h with
  | one h => exact h.steps
  | next _ h' ih => exact ih.trans h'.steps

omit [DecidableEq ι] in
theorem HasSeen.mono {rt : RoutingTable} {id : Int32} {c c' : ℤ} (h : HasSeen rt id c) (hc : c' ≤ c) :
    HasSeen rt id c' := by
  obtain ⟨k, e, a, hk, he, ha, hq⟩ := h
  exact ⟨k, e, a, hk, he, ha, hc.trans hq⟩

omit [DecidableEq ι] in
theorem HasSeen.up {d : Daemon} {id : Int32} {c : ℤ} (h : HasSeen d.rt id c) (hd : Sound d) :
    statusOf d.rt id ≠ some statusDown := by
  obtain ⟨k, e, a, hk, he, ha, -⟩ := h
  rw [statusOf, entryOf_eq_some.mpr ⟨k, hk, he⟩, Option.map_some, ne_eq, Option.some.injEq]
  intro hst
  rw [(hd.entry k e he).cleared hst] at ha
  cases ha

omit [DecidableEq ι] in
theorem Lawful.exists_neighbour (hl : Lawful N w) (hy : y ∈ N.nbrs x) :
    ∃ i, (N.self y, i) ∈ (w.daemon x).dl.neighbours := by
  obtain ⟨i, hi⟩ := List.mem_iff_getElem?.mp (List.mem_map_of_mem (f := N.self) hy)
  refine ⟨i + 1, mem_neighbours.mpr ⟨Nat.le_add_left 1 i, ?_⟩⟩
  rw [hl.links x, Net.files, List.getElem?_cons_succ, hi]

omit [DecidableEq ι] in
theorem sends_rtSendto {a : LSA} {size : ℕ} {out : List Effect} (h : rtSendto a (N.self y) size ∈ out)
    (hs : sizeofLsa ≤ size) : ∃ g ∈ sends x out, g.To N y ∧
      ∃ n, g.Carries { a with linksObjects := a.linksObjects.take n } :=
  ⟨⟨x, _, _, _⟩, mem_sends.mpr ⟨_, _, _, h, rfl⟩, ⟨rfl, rfl⟩, _, carries_rtSendto a hs⟩

/-- The datagram that a flood tick sends to a neighbour that is up, with an LSA of `s`. -/
theorem floods_sent (hv : N.Valid) (r : (network N ok).Reachable w) {q : ℤ} {names : List CString}
    (hi : Spread N s q names w) (hx : x = s ∨ HasSeen (w.daemon x).rt (N.self s).id q) {fresh : Fresh}
    {out : List Effect} {d : Daemon} (ha : timeout fresh (w.daemon x) = .ok (d, out))
    (time : (w.daemon x).iterations = floodingPeriod) (nbr : y ∈ N.nbrs x)
    (up : statusOf (w.daemon x).rt (N.self y).id ≠ some statusDown)
    (stays : ¬ Declared out (N.self y).id) : HasSeen (w.daemon y).rt (N.self s).id q ∨
      ∃ g ∈ sends x out, g.To N y ∧ ∃ a, g.Carries a ∧ getType a.versionTtlType = typeLsa ∧
        Recent N s q a := by
  have ho := orderly_reachable hv.toDistinct r
  have hsound := ho.lawful.sound x
  have hid := ho.lawful.myNodeId x
  obtain ⟨i, hl⟩ := ho.lawful.exists_neighbour nbr
  by_cases hxs : x = s
  · -- its own LSA
    subst hxs
    obtain ⟨lsa, size, hp, hm⟩ := flood_sent hsound time ha hl up
    obtain ⟨type, hsender, hq, -⟩ := createPacket_lsa hp
    obtain ⟨g, hg, hto, n, hc⟩ := sends_rtSendto (x := x) hm (by
      rw [(createPacket_counts hp).2.2.2]
      exact Nat.le_add_right _ _)
    refine .inr ⟨g, hg, hto, _, hc, (Stores.own hp).type, ?_, ?_⟩
    · exact hsender.trans hid
    · exact hi.counter.trans_eq (congrArg Int32.toInt hq.symm)
  · -- the LSA that it stores
    obtain ⟨k, e, a, hk, he, ha', hq⟩ := hx.resolve_left hxs
    have hmem := List.mem_of_getElem? he
    obtain ⟨hsender, type, hsize⟩ := (hsound.entry k e he).sender a ha'
    obtain ⟨e', he', hid'⟩ := getRoutingEntry_eq_some hk
    rw [he, Option.some.injEq] at he'
    have hr : Recent N s q a := ⟨by rw [hsender, he', hid'], hq⟩
    by_cases hf : (N.self y).id = e.forwarderId
    · -- `y` sent it
      have hyx : y ≠ x := by
        rintro rfl
        exact (List.nodup_cons.mp (hv.simple y)).1 nbr
      have hseen := (hi.stored x e hmem a ha' hr).2 y hyx hf
      rw [hr.1] at hseen
      exact .inl (hseen.mono hq)
    · have hne : (N.self s).id ≠ (w.daemon x).myNodeId := fun h => hxs (hv.ids (h.trans hid)).symm
      have hnew := new_of_stored (network_daemon r x) hmem (by rw [ha']; exact Option.some_ne_none a)
      obtain ⟨g, hg, hto, n, hc⟩ := sends_rtSendto (x := x) (forward_sent (network_daemon r x) hsound time ha
        hl up stays hk he ha' hnew hne hf) (by rw [hsize, length_bytes]; exact Nat.le_add_right _ _)
      exact .inr ⟨g, hg, hto, _, hc, type, hr⟩

/-- **One relay.** What `x` has seen of `s`, and what it floods itself, `y` sees. -/
theorem relayed_seen (hv : N.Valid) (r : (network N ok).Reachable w) {q : ℤ} {names : List CString}
    (hi : Spread N s q names w) (hx : x = s ∨ HasSeen (w.daemon x).rt (N.self s).id q)
    (h : Relayed N ok x y w ls w') (hup : ∀ l ∈ ls, ¬ Declared l.2.2 (N.self s).id) (hy : y ≠ s) :
    HasSeen (w'.daemon y).rt (N.self s).id q := by
  obtain @⟨w₁, w₂, _, before, after, fresh, out, waits, floods, time, nbr, up, stays, delivers, handles⟩ := h
  simp only [List.forall_mem_append, List.forall_mem_cons] at hup
  obtain ⟨hup₁, hup₂, hup₃⟩ := hup
  have r₁ := r.steps waits
  have r₂ := r₁.step floods
  have hi₁ := spread_steps hv r waits hup₁ hi
  have hx₁ : x = s ∨ HasSeen (w₁.daemon x).rt (N.self s).id q := by
    by_cases hxs : x = s
    · exact .inl hxs
    · exact .inr (seen_steps hv.toDistinct r waits hup₁ hxs (hx.resolve_left hxs))
  have hwire : ∃ d, timeout fresh (w₁.daemon x) = .ok (d, out) := by
    obtain ⟨-, d, ha, -⟩ := floods
    exact ⟨d, ha⟩
  obtain ⟨d, ha⟩ := hwire
  rcases floods_sent hv r₁ hi₁ hx₁ ha time nbr up stays with hseen | ⟨g, hg, hto, a, hc, type, hid, hq⟩
  · -- it has seen it before
    have h₂ := seen_steps hv.toDistinct r₁ (.single floods) (by simpa using hup₂) hy hseen
    exact seen_steps hv.toDistinct r₂ delivers hup₃ hy h₂
  · obtain ⟨⟨z, ev, o⟩, hl, hh⟩ := handles g hg hto
    obtain ⟨u, v, xs, ys, before, step, after, rfl⟩ := delivers.split hl
    simp only [List.forall_mem_append, List.forall_mem_cons] at hup₃
    have rv := (r₂.steps before).step step
    refine seen_steps hv.toDistinct rv after hup₃.2.2 hy ?_
    obtain ⟨-, d, ha, rfl⟩ := step
    cases ev with
    | datagram rcv fresh =>
      obtain ⟨rfl, rfl⟩ : z = y ∧ rcv = g.received N := hh
      obtain ⟨lsa, f, size, recv, hand⟩ := receive_handled ha
      obtain rfl := (received_carries recv).unique hc
      have hseen := hasSeen_after_handled hand type
      rw [hid] at hseen
      rw [after_daemon_self]
      exact hseen.mono hq
    | timeout => exact hh.elim
    | request => exact hh.elim

theorem relayedAlong_seen (hv : N.Valid) (r : (network N ok).Reachable w) (h : RelayedAlong N ok s w y ls w')
    (hup : ∀ l ∈ ls, ¬ Declared l.2.2 (N.self s).id) (hy : y ≠ s) :
    HasSeen (w'.daemon y).rt (N.self s).id (w.daemon s).sequenceNumber.toInt := by
  have hi := spread_start hv.toDistinct r s
  induction h with
  | one h => exact relayed_seen hv r hi (.inl rfl) h hup hy
  | @next x y ls ls' w₁ w₂ h h' ih =>
    rw [List.forall_mem_append] at hup
    refine relayed_seen hv (r.steps h.steps) (spread_steps hv r h.steps hup.1 hi) ?_ h' hup.2 hy
    by_cases hx : x = s
    · exact .inl hx
    · exact .inr (ih hup.1 hx)

/-- **Advertisements reach every node that is connected to their originator.** Along any path, whatever else
the network does meanwhile: if each node in turn floods and its successor handles what it was sent, and no
node declares the first one down, then the last has seen the next LSA of the first, or a later one, holds it
to be up, has a path to every object that the first had, and redirects requests for it. -/
theorem dissemination (hv : N.Valid) (r : (network N ok).Reachable w) (h : RelayedAlong N ok s w y ls w')
    (hup : ∀ l ∈ ls, ¬ Declared l.2.2 (N.self s).id) (hy : y ≠ s) :
    HasSeen (w'.daemon y).rt (N.self s).id (w.daemon s).sequenceNumber.toInt ∧
      statusOf (w'.daemon y).rt (N.self s).id ≠ some statusDown ∧
      ∀ o ∈ localNames (w.daemon s), Only w' s o →
        (∃ p, getPaths superFastHash (w'.daemon y).gol o = some p ∧ p.nodeId = (N.self s).id) ∧
          ∃ l, rdgetTarget (w'.daemon y) o = .ok (.via l) := by
  have hseen := relayedAlong_seen hv r h hup hy
  have hi := spread_steps hv r h.steps hup (spread_start hv.toDistinct r s)
  have ho := orderly_reachable hv.toDistinct (r.steps h.steps)
  refine ⟨hseen, hseen.up (ho.lawful.sound y), fun o hm only => ?_⟩
  have hc := (ho.lawful.sound y).consistent
  obtain ⟨p, hp⟩ := hi.paths y hy hseen o hm only
  have hid := only.leads ho.originated hp
  have hget : getPaths superFastHash (w'.daemon y).gol o = some p := by
    rw [getPaths_eq hc, hp, Option.join_some]
  refine ⟨⟨p, hget, hid⟩, ?_⟩
  obtain ⟨t, ht⟩ := rdgetTarget_ok (ho.lawful.sound y) o
  cases t with
  | via l => exact ⟨l, ht⟩
  | here =>
    obtain ⟨p', hp', hid'⟩ := rdgetTarget_here hc ht
    rw [hp, Option.some.injEq, Option.some.injEq] at hp'
    subst hp'
    exact absurd (hv.ids ((ho.lawful.myNodeId y).symm.trans (hid'.symm.trans hid))) hy
  | notFound =>
    rw [rdgetTarget_notFound, hget] at ht
    cases ht

end Relay

/-! ### A relay, computed -/

section Computed

variable [DecidableEq ι] (N) (ok : List UInt8 → Prop) [DecidablePred ok]

/-- Follow a schedule in which node `x` floods after the moves `before`, and `y` handles what it was sent in
the moves `after`. -/
def relay (x y : ι) (before after : List (Move ι)) (w : World ι) :
    Option (List (ι × Event × List Effect) × World ι) := do
  let (ls, w₁) ← System.follow (World.move N ok) before w
  let (l, w₂) ← w₁.move N ok (.tick x)
  let (ls', w') ← System.follow (World.move N ok) after w₂
  if (w₁.daemon x).iterations = floodingPeriod ∧ y ∈ N.nbrs x ∧
      statusOf (w₁.daemon x).rt (N.self y).id ≠ some statusDown ∧
      (.giveUp (N.self y).id ∉ l.2.2 ∧ .expire (N.self y).id ∉ l.2.2) ∧
      ∀ g ∈ sends x l.2.2, g.To N y → ∃ l ∈ ls', Handles N y g l
  then return (ls ++ l :: ls', w')
  else none

variable {N ok}

theorem relayed_relay {x y : ι} {before after : List (Move ι)} {w w' : World ι}
    {ls : List (ι × Event × List Effect)} (h : relay N ok x y before after w = some (ls, w')) :
    Relayed N ok x y w ls w' := by
  obtain ⟨⟨ls₁, w₁⟩, h1, h⟩ := Option.bind_eq_some_iff.mp h
  obtain ⟨⟨l, w₂⟩, h2, h⟩ := Option.bind_eq_some_iff.mp h
  obtain ⟨⟨ls₂, w₃⟩, h3, h⟩ := Option.bind_eq_some_iff.mp h
  dsimp only at h
  split_ifs at h with hc
  cases h
  obtain ⟨time, nbr, up, stays, handles⟩ := hc
  have hstep := step_move h2
  obtain ⟨⟨d, out⟩, -, hl⟩ := Option.bind_eq_some_iff.mp h2
  cases hl
  exact .mk (System.Steps.follow (fun _ _ _ _ => step_move) h1) hstep time nbr up (not_or.mpr stays)
    (System.Steps.follow (fun _ _ _ _ => step_move) h3) handles

end Computed

/-- Three nodes in a line; the first has object `o`. -/
def rowNet : Net (Fin 3) := { triangleNet with nbrs := ![[1], [0, 2], [1]] }

theorem rowNet_valid : rowNet.Valid where
  ids := by decide
  hosts := by decide
  simple := by decide

theorem rowNet_boots : ∀ x, (boot (rowNet.files x)).toOption.isSome = true := by decide +kernel

theorem exists_relays : ∃ w ls w' ls' w'', (network rowNet TtlOk).Reachable w ∧
    Relayed rowNet TtlOk 0 1 w ls w' ∧ Relayed rowNet TtlOk 1 2 w' ls' w'' ∧
      (∀ l ∈ ls ++ ls', ¬ Declared l.2.2 1) ∧ lit "o" ∈ localNames (w.daemon 0) ∧ Only w'' 0 (lit "o") := by
  have key : ((relay rowNet TtlOk 0 1 (.replicate 5 (.tick 0)) [.deliver 1 0]
      (rowNet.start rowNet_boots)).bind fun p =>
        (relay rowNet TtlOk 1 2 (.replicate 5 (.tick 1)) [.deliver 2 3, .deliver 2 4] p.2).map
          fun p' => decide (∀ l ∈ p.1 ++ p'.1, .giveUp 1 ∉ l.2.2 ∧ .expire 1 ∉ l.2.2) &&
            decide (lit "o" ∈ localNames ((rowNet.start rowNet_boots).daemon 0)) &&
              decide (∀ x, x ≠ 0 → lit "o" ∉ localNames (p'.2.daemon x))) = some true := by
    decide +kernel
  obtain ⟨⟨ls₁, w₁⟩, h1, key⟩ := Option.bind_eq_some_iff.mp key
  obtain ⟨⟨ls₂, w₂⟩, h2, key⟩ := Option.map_eq_some_iff.mp key
  simp only [Bool.and_eq_true, decide_eq_true_eq] at key
  obtain ⟨⟨k1, k2⟩, k3⟩ := key
  exact ⟨_, ls₁, w₁, ls₂, w₂, .init (init_start rowNet_boots), relayed_relay h1, relayed_relay h2,
    fun l hl => not_or.mpr (k1 l hl), k2, k3⟩

theorem dissemination_rowNet : ∃ w, (network rowNet TtlOk).Reachable w ∧ HasSeen (w.daemon 2).rt 1 0 ∧
    ∃ p, getPaths superFastHash (w.daemon 2).gol (lit "o") = some p ∧ p.nodeId = 1 := by
  obtain ⟨w, ls, w', ls', w'', r, h, h', hup, hm, only⟩ := exists_relays
  have along := (RelayedAlong.one h).next h'
  obtain ⟨hseen, -, hpaths⟩ := dissemination rowNet_valid r along hup (by decide)
  refine ⟨w'', r.steps along.steps, hseen.mono ?_, (hpaths _ hm only).1⟩
  exact (orderly_reachable rowNet_valid.toDistinct r).originated.numbers 0

end RoutingDaemon
