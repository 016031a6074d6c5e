import RoutingDaemon.Dissemination
import RoutingDaemon.ObjectRequests
import RoutingDaemon.LocalService
import RoutingDaemon.KnownObjects

/-!
# Objects are found

* `ServesOwn`: a node serves all of its objects; `servesOwn_reachable`: in every reachable state.
* `Advertised`: in a part of a run, the LSAs of a node have reached every other node.
* `objects_found`: then every request for an object that only this node has ends there, and is served.
-/

namespace RoutingDaemon

variable {ι : Type} {N : Net ι} {w w' : World ι} {s x : ι} {o : CString}

/-! ### A node serves its objects -/

/-- Every local object is served by the daemon itself. -/
def ServesOwn (d : Daemon) : Prop := ∀ o ∈ localNames d, ∃ p, ServedHere d o p

theorem servesOwn_boot {f : Files} {d : Daemon} (h : boot f = .ok d) : ServesOwn d := by
  intro o ho
  obtain ⟨e, he, hname⟩ := List.mem_map.mp ho
  have hpaths := paths_boot h
  have hknown : view superFastHash d.gol o ≠ none := by
    rw [← hname]
    exact ((registered_boot h).2 e he).2
  have hsome : view superFastHash d.gol o = some (some ⟨d.myNodeId, 0⟩) := by
    cases hv : view superFastHash d.gol o with
    | none => exact absurd hv hknown
    | some v =>
      cases v with
      | none => exact absurd hv ((agrees_iff hpaths.1).mp (agrees_boot h o))
      | some p => rw [hpaths.2 o p hv]
  have hfind : (d.ol.objects.find? fun e => e.name.1 = o).isSome := by
    rw [List.find?_isSome]
    exact ⟨e, he, by simpa using hname⟩
  obtain ⟨e', he'⟩ := Option.isSome_iff_exists.mp hfind
  exact ⟨e'.path.1, hsome, e', he', rfl⟩

theorem ServesOwn.act {d d' : Daemon} {ev : Event} {out : List Effect} (hs : Sound d) (hr : Registered d)
    (hv : ServesOwn d) (ttl : EventTtl d.dl ev) (h : act ev d = .ok (d', out)) : ServesOwn d' := by
  intro o ho
  have kept : o ∈ localNames d → ∃ p, ServedHere d' o p := by
    intro hm
    obtain ⟨p, hp⟩ := hv o hm
    exact ⟨p, hp.act hs.ownOnce hr.1 ttl h⟩
  cases ev with
  | timeout fresh =>
    refine kept ?_
    rwa [localNames, (timeout_trail h).preserves (I := fun d' => d'.ol = d.ol)
      (fun _ _ _ hi ht => (tick_objects ht).1.trans hi) rfl] at ho
  | datagram r fresh =>
    obtain ⟨lsa, f, size, -, hh⟩ := receive_handled h
    refine kept ?_
    rwa [localNames, (handled_objects hh).1] at ho
  | request c uri opened =>
    obtain ⟨-, rfl | ⟨e, ha⟩⟩ := request_added h
    · exact kept ho
    · -- the new object is served from now on
      rw [localNames, ha.ol, List.map_append, List.mem_append, List.map_singleton,
        List.mem_singleton] at ho
      rcases ho with ho | rfl
      · exact kept ho
      · exact ⟨_, servedHere_added hr ha⟩

section Networks

variable [DecidableEq ι] {ls : List (ι × Event × List Effect)}

omit [DecidableEq ι] in
theorem Possible.eventTtl {ev : Event} (h : Possible N TtlOk w x ev) : EventTtl (w.daemon x).dl ev := by
  rintro rcv fresh lsa f size rfl recv type
  obtain ⟨g, -, -, hok, rfl⟩ := h
  exact hok lsa (received_carries recv) type

theorem servesOwn_reachable (hv : N.Distinct) (r : (network N TtlOk).Reachable w) (x : ι) :
    ServesOwn (w.daemon x) := by
  have key := r.invariant (I := fun w => ((network N TtlOk).Reachable w) ∧ ∀ x, ServesOwn (w.daemon x)) ?_ ?_
  · exact key.2 x
  · exact fun w h => ⟨.init h, fun x => servesOwn_boot (h.2 x)⟩
  · rintro w ⟨y, ev, out⟩ w' ⟨r, hi⟩ h
    refine ⟨r.step h, ?_⟩
    obtain ⟨hp, d, ha, rfl⟩ := h
    refine forall_after (P := fun _ d => ServesOwn d) ?_ hi
    have hs := (orderly_reachable hv r).lawful.sound y
    exact (hi y).act hs (registered_reachable (network_daemon r y)) hp.eventTtl ha

/-! ### Requests -/

/-- In this part of a run, a chain of floods from node `s` reaches every other node. -/
def Advertised (N : Net ι) (s : ι) (w : World ι) (ls : List (ι × Event × List Effect)) (w' : World ι) :
    Prop :=
  ∀ y, y ≠ s → ∃ xs ys v, ls = xs ++ ys ∧ RelayedAlong N TtlOk s w y xs v ∧
    (network N TtlOk).Steps v ys w'

theorem Advertised.names (hv : N.Valid) (r : (network N TtlOk).Reachable w)
    (steps : (network N TtlOk).Steps w ls w') (h : Advertised N s w ls w')
    (hup : ∀ l ∈ ls, ¬ Declared l.2.2 (N.self s).id) (ho : o ∈ localNames (w.daemon s))
    (only : Only w' s o) {y : ι} (hy : y ≠ s) : Names w' o y (N.self s).id := by
  obtain ⟨xs, ys, v, rfl, along, rest⟩ := h y hy
  have hi := spread_steps hv r steps hup (spread_start hv.toDistinct r s)
  have ord := orderly_reachable hv.toDistinct (r.steps steps)
  rw [List.forall_mem_append] at hup
  have hseen := relayedAlong_seen hv r along hup.1 hy
  obtain ⟨p, hp⟩ := hi.paths y hy
    (seen_steps hv.toDistinct (r.steps along.steps) rest hup.2 hy hseen) o ho only
  refine ⟨p, ?_, only.leads ord.originated hp⟩
  rw [getPaths_eq (ord.lawful.sound y).consistent, hp, Option.join_some]

omit [DecidableEq ι] in
theorem ServedHere.names {p : CString} (hl : Lawful N w) (h : ServedHere (w.daemon s) o p) :
    Names w o s (N.self s).id := by
  refine ⟨⟨(w.daemon s).myNodeId, 0⟩, ?_, hl.myNodeId s⟩
  rw [getPaths_eq (hl.sound s).consistent, h.view, Option.join_some]

/-- **Objects are found.** If a chain of floods from node `s` reaches every other node, and nobody declares
`s` down, then a request for an object that only `s` has comes to `s` from every node, along the replies and
without a circle, and `s` serves the object. -/
theorem objects_found (hv : N.Valid) (r : (network N TtlOk).Reachable w)
    (steps : (network N TtlOk).Steps w ls w') (h : Advertised N s w ls w')
    (hup : ∀ l ∈ ls, ¬ Declared l.2.2 (N.self s).id) (ho : o ∈ localNames (w.daemon s))
    (only : Only w' s o) :
    (∀ x, Relation.ReflTransGen (Asks N w' o) x s) ∧ (∀ x, ¬ Relation.TransGen (Asks N w' o) x x) ∧
      rdgetTarget (w'.daemon s) o = .ok .here ∧ ∃ p, ServedHere (w'.daemon s) o p := by
  have r' := r.steps steps
  obtain ⟨hl, hcost⟩ := costInv_reachable hv r'
  have hm := (spread_steps hv r steps hup (spread_start hv.toDistinct r s)).objects ho
  obtain ⟨p, hp⟩ := servesOwn_reachable hv.toDistinct r' s o hm
  -- every node names `s`
  have hnames : ∀ y, Names w' o y (N.self s).id := by
    intro y
    by_cases hy : y = s
    · subst hy
      exact hp.names hl
    · exact h.names hv r steps hup ho only hy
  have hrank : ∀ a b, AsksFor N w' o (N.self s).id a b →
      costFor w' (N.self s).id b < costFor w' (N.self s).id a :=
    fun a b hab => costFor_lt hv hl hcost (asksFor_hop hl hab)
  refine ⟨fun x => ?_, fun x hx => ?_, (hp.names hl).here hl rfl, p, hp⟩
  · obtain ⟨z, hz, hend⟩ := exists_request_end hv hl hcost o (N.self s).id x
    obtain ⟨obj, hget, hid⟩ := hnames z
    have hzs : z = s := by
      rcases hend with hhere | hnot | ⟨p', hne, obj', hget', hid'⟩
      · obtain ⟨q, hq, hq'⟩ := rdgetTarget_here (hl.sound z).consistent hhere
        rw [getPaths_eq (hl.sound z).consistent, hq, Option.join_some, Option.some.injEq] at hget
        subst hget
        exact hv.ids ((hl.myNodeId z).symm.trans (hq'.symm.trans hid))
      · rw [rdgetTarget_notFound, hget] at hnot
        cases hnot
      · rw [hget, Option.some.injEq] at hget'
        subst hget'
        exact absurd (hid'.symm.trans hid) hne
    subst hzs
    exact Relation.ReflTransGen.mono (fun _ _ h => h.2) _ _ hz
  · refine acyclic_of_rank hrank x (Relation.TransGen.mono ?_ _ _ hx)
    exact fun a b hab => ⟨hnames a, hab⟩

end Networks

theorem advertised_row {w w' w'' : World (Fin 3)} {ls ls' : List (Fin 3 × Event × List Effect)}
    (h : Relayed rowNet TtlOk 0 1 w ls w') (h' : Relayed rowNet TtlOk 1 2 w' ls' w'') :
    Advertised rowNet 0 w (ls ++ ls') w'' := by
  have along := RelayedAlong.one h
  intro y hy
  match y with
  | 0 => exact absurd rfl hy
  | 1 => exact ⟨ls, ls', w', rfl, along, h'.steps⟩
  | 2 => exact ⟨ls ++ ls', [], w'', (List.append_nil _).symm, along.next h', .refl⟩

theorem objects_found_rowNet : ∃ w, (network rowNet TtlOk).Reachable w ∧
    Relation.ReflTransGen (Asks rowNet w (lit "o")) 2 0 ∧
      rdgetTarget (w.daemon 0) (lit "o") = .ok .here := by
  obtain ⟨w, ls, w', ls', w'', r, h, h', hup, ho, only⟩ := exists_relays
  have steps := h.steps.trans h'.steps
  obtain ⟨found, -, served, -⟩ := objects_found rowNet_valid r steps (advertised_row h h') hup ho only
  exact ⟨w'', r.steps steps, found 2, served⟩

end RoutingDaemon
