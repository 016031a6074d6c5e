import RoutingDaemon.Network

/-!
# Computed runs of a network

* `Net.start`: the world in which every daemon of a network enters its event loop.
* `Move`, `World.move`: a timeout or a delivery, computed; `step_move`: it is a step.
-/

namespace RoutingDaemon

variable {ι : Type}

/-- All daemons have entered their event loops. -/
def Net.start (N : Net ι) (hb : ∀ x, (boot (N.files x)).toOption.isSome = true) : World ι :=
  ⟨fun x => (boot (N.files x)).toOption.get (hb x), []⟩

/-- The nodes of a network of three are numerals. -/
instance neZeroThree : NeZero 3 := ⟨by decide⟩

/-- One step of a schedule. -/
inductive Move (ι : Type)
  /-- `select` times out at a node -/
  | tick (x : ι)
  /-- a node reads the datagram at an index of the wire -/
  | deliver (x : ι) (k : ℕ)

instance (N : Net ι) (g : Datagram ι) (x : ι) : Decidable (g.To N x) :=
  inferInstanceAs (Decidable (_ ∧ _))

variable [DecidableEq ι] (N : Net ι) (ok : List UInt8 → Prop) [DecidablePred ok]

/-- One step of a schedule: its label, and the world after it. -/
def World.move (w : World ι) : Move ι → Option ((ι × Event × List Effect) × World ι)
  | .tick x => do
    let (d, out) ← (act (.timeout zeros) (w.daemon x)).toOption
    return ((x, .timeout zeros, out), w.after x out d)
  | .deliver x k => do
    let g ← w.wire[k]?
    if g.To N x ∧ ok g.bytes then do
      let (d, out) ← (act (.datagram (g.received N) zeros) (w.daemon x)).toOption
      return ((x, .datagram (g.received N) zeros, out), w.after x out d)
    else none

variable {N ok}

omit [DecidablePred ok] in
theorem init_start (hb : ∀ x, (boot (N.files x)).toOption.isSome = true) :
    (network N ok).init (N.start hb) :=
  ⟨rfl, fun x => toOption_eq_some.mp (Option.some_get (hb x)).symm⟩

theorem step_move {w w' : World ι} {m : Move ι} {l : ι × Event × List Effect}
    (h : w.move N ok m = some (l, w')) : (network N ok).step w l w' := by
  cases m with
  | tick x =>
    obtain ⟨⟨d, out⟩, ha, h⟩ := Option.bind_eq_some_iff.mp h
    cases h
    exact ⟨trivial, d, toOption_eq_some.mp ha, rfl⟩
  | deliver x k =>
    obtain ⟨g, hg, h⟩ := Option.bind_eq_some_iff.mp h
    split_ifs at h with hok
    obtain ⟨⟨d, out⟩, ha, h⟩ := Option.bind_eq_some_iff.mp h
    cases h
    exact ⟨⟨g, List.mem_of_getElem? hg, hok.1, hok.2, rfl⟩, d, toOption_eq_some.mp ha, rfl⟩

end RoutingDaemon
