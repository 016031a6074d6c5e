import RoutingDaemon.Advertisement

/-!
# Which neighbour a datagram comes from

* `find?_iff`: the first element of a list with a property.
* `Identifies`: datagrams from a link's address are taken as that neighbour's. The source port plays no
  part: `lookup_link_entry` compares the address only.
* `identifies_iff`: this is so exactly when no earlier link has the same host or the same id.
-/

namespace RoutingDaemon

theorem find?_iff {α : Type*} {xs : List α} {p : α → Bool} {b : α} :
    xs.find? p = some b ↔
      ∃ i : ℕ, xs[i]? = some b ∧ p b = true ∧ ∀ j < i, ∀ a, xs[j]? = some a → p a = false := by
  rw [List.find?_eq_some_iff_getElem]
  constructor
  · rintro ⟨hp, i, hi, rfl, h⟩
    refine ⟨i, List.getElem?_eq_getElem hi, hp, fun j hj a ha => ?_⟩
    obtain ⟨hlt, rfl⟩ := List.getElem?_eq_some_iff.mp ha
    simpa using h j hj
  · rintro ⟨i, hb, hp, h⟩
    obtain ⟨hi, rfl⟩ := List.getElem?_eq_some_iff.mp hb
    refine ⟨hp, i, hi, rfl, fun j hj => ?_⟩
    rw [h j hj _ (List.getElem?_eq_getElem (hj.trans hi))]
    rfl

variable {dl : DirectLinks} {j : ℕ} {l : LinkEntry}

theorem lookupLinkEntry_iff {a : CString} : lookupLinkEntry dl a = some l ↔
    ∃ i : ℕ, 1 ≤ i ∧ dl.links[i]? = some l ∧ l.host.1 = a ∧
      ∀ (j : ℕ) l', 1 ≤ j → j < i → dl.links[j]? = some l' → l'.host.1 ≠ a := by
  rw [lookupLinkEntry, find?_iff]
  simp only [List.getElem?_tail, decide_eq_true_eq, decide_eq_false_iff_not]
  constructor
  · rintro ⟨i, hl, ha, h⟩
    refine ⟨i + 1, by omega, hl, ha, fun j l' h1 hj hl' => ?_⟩
    obtain ⟨j, rfl⟩ := Nat.exists_eq_add_of_le' h1
    exact h j (by omega) l' hl'
  · rintro ⟨i, h1, hl, ha, h⟩
    obtain ⟨i, rfl⟩ := Nat.exists_eq_add_of_le' h1
    exact ⟨i, hl, ha, fun j hj l' => h (j + 1) l' (by omega) (by omega)⟩

theorem lookupLinkEntryNodeId_iff {id : Int32} : lookupLinkEntryNodeId dl id = some l ↔
    ∃ i : ℕ, dl.links[i]? = some l ∧ l.id = id ∧ ∀ (j : ℕ) l', j < i → dl.links[j]? = some l' → l'.id ≠ id := by
  rw [lookupLinkEntryNodeId, find?_iff]
  simp only [decide_eq_true_eq, decide_eq_false_iff_not]
  exact exists_congr fun i => and_congr_right fun _ => and_congr_right fun _ =>
    ⟨fun h j l' hj => h j hj l', fun h j hj l' => h j l' hj⟩

/-- A datagram from the address of link `l` is taken as one of that neighbour: `rt_recvfrom` gives its
id, an answer goes to its host and port, and an ACK is credited to it. -/
structure Identifies (dl : DirectLinks) (l : LinkEntry) : Prop where
  forwarder : ∀ buf lsa, sizeofLsa ≤ buf.length → bytesToPacket (buf.take maxLsaLen) = .ok lsa →
    ∃ size, rtRecvfrom dl (.got l.host.1 buf) = .ok (some (lsa, l.id, size))
  answered : ∀ fresh buf rt ht host port bytes,
    .sendto host port bytes ∈ effects (lsaHandler fresh (.got l.host.1 buf) dl rt ht) →
      host = l.host.1 ∧ port = l.routeP
  credited : ∀ fresh buf lsa rt ht, sizeofLsa ≤ buf.length →
    bytesToPacket (buf.take maxLsaLen) = .ok lsa → getType lsa.versionTtlType = typeAck →
      filtered rt (getRoutingEntry rt lsa.senderNodeId) typeAck lsa.sequenceNum = false →
        lsaHandler fresh (.got l.host.1 buf) dl rt ht =
          afterEffects [] ((creditAck rt (getRoutingEntry rt lsa.senderNodeId) l.id).map fun rt' => (1, rt', ht, []))

theorem lsaHandler_empty {f src : LinkEntry} {a : CString} (hf : lookupLinkEntry dl a = some f)
    (hsrc : lookupLinkEntryNodeId dl f.id = some src) : ∃ fresh buf rt ht bytes,
      .sendto src.host.1 src.routeP bytes ∈ effects (lsaHandler fresh (.got a buf) dl rt ht) := by
  -- an LSA without links or objects, and empty tables
  let lsa : LSA := ⟨newHeader typeLsa, 0, 0, 0, 0, []⟩
  have hr : rtRecvfrom dl (.got a lsa.bytes) =
      .ok (some (lsa, f.id, (lsa.bytes.take maxLsaLen).length)) :=
    rtRecvfrom_got (by decide) hf (by decide)
  exact ⟨⟨fun _ => 0, 0⟩, lsa.bytes, ⟨[], by simp⟩, initHash, _,
    mem_effects_lsaHandler.mpr ⟨lsa, f.id, _, src, hr, by decide, rfl, hsrc, .inl rfl⟩⟩

theorem lsaHandler_answered {f src : LinkEntry} {a : CString} (hf : lookupLinkEntry dl a = some f)
    (hsrc : lookupLinkEntryNodeId dl f.id = some src) {fresh : Fresh} {buf bytes : List UInt8}
    {rt : RoutingTable} {ht : LisoHash} {host : CString} {port : Int32}
    (hm : .sendto host port bytes ∈ effects (lsaHandler fresh (.got a buf) dl rt ht)) :
    host = src.host.1 ∧ port = src.routeP := by
  obtain ⟨_, _, _, src', recv, -, -, hsrc', hx⟩ := mem_effects_lsaHandler.mp hm
  obtain ⟨_, _, f', hrec, -, -, hf', rfl, -⟩ := rtRecvfrom_eq_ok recv
  cases hrec
  rw [hf, Option.some.injEq] at hf'
  subst hf'
  rw [hsrc, Option.some.injEq] at hsrc'
  subst hsrc'
  simp only [rtSendto, reduceCtorEq, or_false, Effect.sendto.injEq] at hx
  exact ⟨hx.1, hx.2.1⟩

/-- A neighbour is identified when both lookups find its link. -/
theorem identifies_of_lookups (hf : lookupLinkEntry dl l.host.1 = some l)
    (hsrc : lookupLinkEntryNodeId dl l.id = some l) : Identifies dl l where
  forwarder buf lsa long hp := ⟨_, rtRecvfrom_got long hf hp⟩
  answered fresh buf rt ht host port bytes hm := lsaHandler_answered hf hsrc hm
  credited fresh buf lsa rt ht long hp htype hfil := by
    rw [lsaHandler, rtRecvfrom_got long hf hp]
    simp only [afterEffects_ok, ok_bind, deref_some, htype, hfil]
    rw [if_neg (by simp), if_neg (by decide), if_pos trivial]
    cases creditAck rt (getRoutingEntry rt lsa.senderNodeId) l.id <;> rfl

theorem Identifies.lookups (h : Identifies dl l) (hl : l ∈ dl.links) : ∃ f src,
    lookupLinkEntry dl l.host.1 = some f ∧ f.id = l.id ∧ lookupLinkEntryNodeId dl l.id = some src ∧
      src.host.1 = l.host.1 ∧ src.routeP = l.routeP := by
  obtain ⟨size, hr⟩ := h.forwarder (LSA.mk (newHeader typeLsa) 0 0 0 0 []).bytes _ (by decide)
    (by decide : _ = Except.ok (LSA.mk (newHeader typeLsa) 0 0 0 0 []))
  obtain ⟨_, _, f, hrec, -, -, hf, hid, -⟩ := rtRecvfrom_eq_ok hr
  cases hrec
  obtain ⟨src, hsrc⟩ := exists_lookupLinkEntryNodeId ⟨l, hl, hid⟩
  obtain ⟨_, _, _, _, _, hm⟩ := lsaHandler_empty hf hsrc
  obtain ⟨hhost, hport⟩ := h.answered _ _ _ _ _ _ _ hm
  exact ⟨f, src, hf, hid.symm, hid ▸ hsrc, hhost, hport⟩

/-- **A neighbour is identified exactly when no earlier neighbour is on its host and no earlier link has
its id.** -/
theorem identifies_iff (hd : (dl.links.map fun l => (l.host.1, l.routeP)).Nodup) (hj : 1 ≤ j)
    (hl : dl.links[j]? = some l) : Identifies dl l ↔
      ∀ (i : ℕ) l', i < j → dl.links[i]? = some l' → (1 ≤ i → l'.host.1 ≠ l.host.1) ∧ l'.id ≠ l.id := by
  constructor
  · intro h
    obtain ⟨f, src, hf, hid, hsrc, hhost, hport⟩ := h.lookups (List.mem_of_getElem? hl)
    obtain ⟨i, hi, -, hfirst⟩ := lookupLinkEntryNodeId_iff.mp hsrc
    -- the first link with the id has the address, so it is link `j`
    have hij : i = j := by
      obtain ⟨hlt, -⟩ := List.getElem?_eq_some_iff.mp hi
      refine (List.getElem?_inj (by simpa using hlt) hd).mp ?_
      rw [List.getElem?_map, List.getElem?_map, hi, hl, Option.map_some, Option.map_some, hhost, hport]
    subst hij
    -- what the lookup by address finds has the id, so it does not stand before it
    obtain ⟨k, hk1, hk, -, hbefore⟩ := lookupLinkEntry_iff.mp hf
    have hki : i ≤ k := by
      by_contra hlt
      exact hfirst k f (not_le.mp hlt) hk hid
    intro n l' hn hl'
    exact ⟨fun h1 => hbefore n l' h1 (by omega) hl', hfirst n l' hn hl'⟩
  · intro h
    refine identifies_of_lookups (lookupLinkEntry_iff.mpr ?_) (lookupLinkEntryNodeId_iff.mpr ?_)
    · exact ⟨j, hj, hl, rfl, fun i l' h1 hi hl' => (h i l' hi hl').1 h1⟩
    · exact ⟨j, hl, rfl, fun i l' hi hl' => (h i l' hi hl').2⟩

theorem identifies_iff_pairLinks : Identifies pairLinks (linkOn 2 66) ↔
    ∀ (i : ℕ) l', i < 1 → pairLinks.links[i]? = some l' →
      (1 ≤ i → l'.host.1 ≠ (linkOn 2 66).host.1) ∧ l'.id ≠ (linkOn 2 66).id :=
  identifies_iff (by decide) le_rfl rfl

/-- Node 1, with the neighbours 2 and 3 on one machine. -/
def sharedHost : DirectLinks :=
  ⟨[linkOn 1 65, { linkOn 2 66 with routeP := 5001 }, { linkOn 3 66 with routeP := 5002 }], by decide⟩

/-- Node 3's first LSA, which it sends itself, is taken as forwarded by node 2, and the ACK goes to
node 2. -/
theorem exists_misidentified : (sharedHost.links.map fun l => (l.host.1, l.routeP)).Nodup ∧
    ∃ l bytes, sharedHost.links[2]? = some l ∧ l.id = 3 ∧
      (rtRecvfrom sharedHost (.got l.host.1 bytes)).map (fun p => p.map fun p => p.2.1) =
        .ok (some 2) ∧
      (effects (lsaHandler zeros (.got l.host.1 bytes) sharedHost ⟨[], by simp⟩ initHash)).filterMap
        (fun x => match x with
          | .sendto host port _ => some (host, port)
          | _ => none) = [(l.host.1, 5001)] ∧ l.routeP = 5002 ∧ ¬ Identifies sharedHost l := by
  refine ⟨by decide, { linkOn 3 66 with routeP := 5002 },
    (LSA.mk (newHeader typeLsa) 3 0 0 0 []).bytes, rfl, rfl, by decide, by decide +kernel, rfl, ?_⟩
  intro h
  obtain ⟨size, hr⟩ := h.forwarder (LSA.mk (newHeader typeLsa) 3 0 0 0 []).bytes _ (by decide)
    (by decide : _ = Except.ok (LSA.mk (newHeader typeLsa) 3 0 0 0 []))
  have hid : _ = (Except.ok (some 3) : Except Fault (Option Int32)) :=
    congrArg (fun x => x.map fun p => p.map fun p => p.2.1) hr
  exact absurd hid (by decide)

end RoutingDaemon
