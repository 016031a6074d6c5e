import RoutingDaemon.SafePointers
import RoutingDaemon.LoopFree

/-!
# Following object requests

* `Names`: the provider a daemon knows for an object; `Asks`: the neighbour its reply names.
* `AsksFor`: that neighbour, where the provider is `p`; `asksFor_hop`, `hop_asksFor`: such hops are
  next hops for `p`.
* `requests_circle_through_providers`: a request only circles if it changes its provider on the way;
  `exists_circling_request`: it can.
-/

namespace RoutingDaemon

variable {ι : Type} {N : Net ι} {w : World ι} {o : CString} {p : Int32} {x y : ι}

/-- Node `x` has a path to object `o`, at node `p`. -/
def Names (w : World ι) (o : CString) (x : ι) (p : Int32) : Prop :=
  ∃ obj, getPaths superFastHash (w.daemon x).gol o = some obj ∧ obj.nodeId = p

/-- The reply of node `x` to an RDGET for `o` names its neighbour `y`. -/
def Asks (N : Net ι) (w : World ι) (o : CString) (x y : ι) : Prop :=
  rdgetTarget (w.daemon x) o = .ok (.via (N.self y))

/-- The reply names `y`, on the way to provider `p`. -/
def AsksFor (N : Net ι) (w : World ι) (o : CString) (p : Int32) (x y : ι) : Prop :=
  Names w o x p ∧ Asks N w o x y

theorem Names.entryFor (hl : Lawful N w) (h : Names w o x p) : entryFor w x p ≠ none := by
  obtain ⟨obj, hg, rfl⟩ := h
  rw [getPaths_eq (hl.sound x).consistent] at hg
  obtain ⟨e, he, hid, -⟩ := (hl.sound x).alive o obj (Option.join_eq_some_iff.mp hg)
  rw [(entryFor_eq_some hl).mpr ⟨he, hid⟩]
  exact Option.some_ne_none e

theorem Names.here (hl : Lawful N w) (h : Names w o x p) (hp : (N.self x).id = p) :
    rdgetTarget (w.daemon x) o = .ok .here := by
  obtain ⟨obj, hg, rfl⟩ := h
  unfold rdgetTarget
  rw [hg]
  dsimp only
  rw [if_pos (by rw [hl.myNodeId, hp])]

theorem asksFor_hop (hl : Lawful N w) (h : AsksFor N w o p x y) : Hop N w p x y := by
  obtain ⟨⟨obj, hg, rfl⟩, ha⟩ := h
  unfold Asks rdgetTarget at ha
  rw [hg] at ha
  dsimp only at ha
  have hown : obj.nodeId ≠ (w.daemon x).myNodeId := fun h => by
    rw [if_pos h] at ha
    cases ha
  rw [if_neg hown] at ha
  obtain ⟨k, hk, ha⟩ := bind_eq_ok.mp ha
  obtain ⟨e, he, ha⟩ := bind_eq_ok.mp ha
  obtain ⟨l, hlink, ha⟩ := bind_eq_ok.mp ha
  rw [deref_eq_ok] at hk he hlink
  cases ha
  refine ⟨e, by rw [RoutingDaemon.entryFor, hk, Option.bind_some, he], ?_, ?_⟩
  · rw [← hl.myNodeId]
    exact Ne.symm hown
  · simpa using List.find?_some hlink

theorem hop_asksFor (hv : N.Valid) (hl : Lawful N w) (hn : Names w o x p) (h : Hop N w p x y) :
    AsksFor N w o p x y := by
  refine ⟨hn, ?_⟩
  obtain ⟨obj, hg, rfl⟩ := hn
  obtain ⟨e, he, hne, hy⟩ := h
  unfold RoutingDaemon.entryFor at he
  obtain ⟨k, hk, he⟩ := Option.bind_eq_some_iff.mp he
  obtain ⟨l, hlink, hid⟩ := ((hl.sound x).entry k e he).routed
  obtain ⟨l', hl'⟩ := exists_lookupLinkEntryNodeId ⟨l, hlink, hid⟩
  -- the link found is the one of node `y`
  have hid' : l'.id = (N.self y).id := by
    rw [hy]
    simpa using List.find?_some hl'
  obtain ⟨z, rfl⟩ := hl.exists_node (List.mem_of_find?_eq_some hl')
  obtain rfl : z = y := hv.ids hid'
  unfold Asks rdgetTarget
  rw [hg]
  dsimp only
  rw [if_neg (by rw [hl.myNodeId]; exact hne.symm), hk, deref_some, ok_bind, he, deref_some, ok_bind,
    hl']
  rfl

theorem exists_request_end (hv : N.Valid) (hl : Lawful N w) (hi : CostInv N w) (o : CString)
    (p : Int32) (x : ι) : ∃ z, Relation.ReflTransGen (AsksFor N w o p) x z ∧
      (rdgetTarget (w.daemon z) o = .ok .here ∨ rdgetTarget (w.daemon z) o = .ok .notFound ∨
        ∃ p', p' ≠ p ∧ Names w o z p') := by
  refine exists_end_of_rank (P := fun _ => True) (fun x y h => costFor_lt hv hl hi (asksFor_hop hl h))
    (fun x _ => ?_) trivial
  by_cases hn : Names w o x p
  · by_cases hp : (N.self x).id = p
    · exact .inl (.inl (hn.here hl hp))
    · obtain ⟨e, he⟩ := Option.ne_none_iff_exists'.mp (hn.entryFor hl)
      obtain ⟨y, hy, -⟩ := hi.next_hop hl he hp
      exact .inr ⟨y, hop_asksFor hv hl hn ⟨e, he, hp, hy⟩, trivial⟩
  · left
    right
    cases hg : getPaths superFastHash (w.daemon x).gol o with
    | none =>
      left
      unfold rdgetTarget
      rw [hg]
    | some obj => exact .inr ⟨obj.nodeId, fun h => hn ⟨obj, hg, h⟩, obj, hg, rfl⟩

/-- **Requests only circle through several providers.** In every reachable state, a request that is
passed on along the replies revisits no daemon while they name the same provider, and ends at that
provider, at NOTFOUND or at a daemon that names another one. So if all daemons name one provider, no
request circles, and each ends at the provider or at NOTFOUND. -/
theorem requests_circle_through_providers [DecidableEq ι] (hv : N.Valid)
    (r : (network N TtlOk).Reachable w) (o : CString) (p : Int32) :
    (∀ x, ¬ Relation.TransGen (AsksFor N w o p) x x) ∧
    (∀ x, ∃ z, Relation.ReflTransGen (AsksFor N w o p) x z ∧
      (rdgetTarget (w.daemon z) o = .ok .here ∨ rdgetTarget (w.daemon z) o = .ok .notFound ∨
        ∃ p', p' ≠ p ∧ Names w o z p')) ∧
    ((∀ x p', Names w o x p' → p' = p) →
      (∀ x, ¬ Relation.TransGen (Asks N w o) x x) ∧
      ∀ x, ∃ z, Relation.ReflTransGen (Asks N w o) x z ∧
        (rdgetTarget (w.daemon z) o = .ok .here ∨ rdgetTarget (w.daemon z) o = .ok .notFound)) := by
  obtain ⟨hl, hi⟩ := costInv_reachable hv r
  have hrank : ∀ x y, AsksFor N w o p x y → costFor w p y < costFor w p x :=
    fun x y h => costFor_lt hv hl hi (asksFor_hop hl h)
  have hend := exists_request_end hv hl hi o p
  refine ⟨acyclic_of_rank hrank, hend, fun hone => ⟨fun x hx => ?_, fun x => ?_⟩⟩
  · -- every remote reply comes from a path
    have hmono : ∀ a b, Asks N w o a b → AsksFor N w o p a b := by
      intro a b hab
      cases hg : getPaths superFastHash (w.daemon a).gol o with
      | none =>
        unfold Asks rdgetTarget at hab
        rw [hg] at hab
        cases hab
      | some obj =>
        have hn : Names w o a obj.nodeId := ⟨obj, hg, rfl⟩
        rw [hone a _ hn] at hn
        exact ⟨hn, hab⟩
    exact acyclic_of_rank hrank x (Relation.TransGen.mono hmono _ _ hx)
  · obtain ⟨z, hz, h1 | h1 | ⟨p', hne, hn⟩⟩ := hend x
    · exact ⟨z, Relation.ReflTransGen.mono (fun _ _ h => h.2) _ _ hz, .inl h1⟩
    · exact ⟨z, Relation.ReflTransGen.mono (fun _ _ h => h.2) _ _ hz, .inr h1⟩
    · exact absurd (hone z p' hn) hne

/-! ### A circle -/

/-- Four nodes in a line; both ends have object `o`. -/
def lineNet : Net (Fin 4) where
  self := ![linkOn 1 65, linkOn 2 66, linkOn 3 67, linkOn 4 68]
  nbrs := ![[1], [0, 2], [1, 3], [2]]
  hostname _ := cstr [104]
  lines := ![[(lit "o", lit "/o")], [], [], [(lit "o", lit "/o")]]
  filefile _ := []

theorem lineNet_valid : lineNet.Valid where
  ids := by decide
  hosts := by decide
  simple := by decide

theorem lineNet_symmetric : lineNet.Symmetric := by unfold Net.Symmetric; decide

theorem lineNet_boots : ∀ x, (boot (lineNet.files x)).toOption.isSome = true := by decide +kernel

/-- Both ends flood, both inner nodes flood and forward, each gives both of its neighbours up, and
only then gets the forwarded LSA of the other end. -/
def circleRun : List (Move (Fin 4)) :=
  let ticks (x : Fin 4) (n : ℕ) := List.replicate n (Move.tick x)
  ticks 0 6 ++ ticks 3 6 ++ [.deliver 1 0, .deliver 2 1] ++ ticks 1 6 ++ ticks 2 6 ++
    ticks 1 4 ++ ticks 2 4 ++ [.deliver 1 9, .deliver 2 6]

theorem circleRun_asks : ∃ w, (network lineNet TtlOk).Reachable w ∧
    Asks lineNet w (lit "o") 1 2 ∧ Asks lineNet w (lit "o") 2 1 := by
  have key : (System.follow (World.move lineNet TtlOk) circleRun (lineNet.start lineNet_boots)).map (fun p =>
      decide (rdgetTarget (p.2.daemon 1) (lit "o") = .ok (.via (lineNet.self 2))) &&
      decide (rdgetTarget (p.2.daemon 2) (lit "o") = .ok (.via (lineNet.self 1)))) = some true := by
    decide +kernel
  obtain ⟨⟨ls, w⟩, hw, hp⟩ := Option.map_eq_some_iff.mp key
  rw [Bool.and_eq_true, decide_eq_true_eq, decide_eq_true_eq] at hp
  exact ⟨w, ⟨_, (System.Run.init (init_start lineNet_boots)).follow (fun _ _ _ _ => step_move) hw⟩, hp⟩

theorem exists_circling_request : ∃ N : Net (Fin 4), N.Valid ∧ N.Symmetric ∧
    ∃ w, (network N TtlOk).Reachable w ∧ ∃ o x, Relation.TransGen (Asks N w o) x x := by
  obtain ⟨w, r, h1, h2⟩ := circleRun_asks
  exact ⟨lineNet, lineNet_valid, lineNet_symmetric, w, r, lit "o", 1, .tail (.single h1) h2⟩

theorem requests_circle_through_providers_lineNet : ∃ w, (network lineNet TtlOk).Reachable w ∧
    Asks lineNet w (lit "o") 1 2 ∧ ∃ z, Relation.ReflTransGen (AsksFor lineNet w (lit "o") 4) 1 z ∧
      (rdgetTarget (w.daemon z) (lit "o") = .ok .here ∨
        rdgetTarget (w.daemon z) (lit "o") = .ok .notFound ∨
          ∃ p, p ≠ 4 ∧ Names w (lit "o") z p) := by
  obtain ⟨w, r, h, -⟩ := circleRun_asks
  exact ⟨w, r, h, (requests_circle_through_providers lineNet_valid r (lit "o") 4).2.1 1⟩

end RoutingDaemon
