import RoutingDaemon.Acknowledgement
import RoutingDaemon.LoopFree

/-!
# Networks without faults

* `Quiet`: all datagrams of a node were handled, and so were the ACKs to it.
* `promptNetwork`: the runs of a network in which nothing is lost, duplicated or reordered, and a
  node times out only when it is quiet. The wire holds the datagrams in flight.
* `prompt_daemon`, `lawful_prompt`: its daemons run as daemons on their own, and are sound.
* `World.promptMove`: a timeout or a delivery, computed; `step_promptMove`: it is a step.
-/

namespace RoutingDaemon

variable {ι : Type}

/-- Every datagram of node `x` was handled, and so was every ACK to it. -/
def Quiet (N : Net ι) (w : World ι) (x : ι) : Prop :=
  ∀ g ∈ w.wire, g.src ≠ x ∧ (g.To N x → ∀ a, g.Carries a → getType a.versionTtlType ≠ typeAck)

/-- Two datagrams go from the same node to the same host and port. -/
def Datagram.SameWay (g g' : Datagram ι) : Prop :=
  g.src = g'.src ∧ g.host = g'.host ∧ g.port = g'.port

section Steps

variable [DecidableEq ι]

/-- The steps of a network without faults. -/
inductive PromptStep (N : Net ι) : World ι → ι × Event × List Effect → World ι → Prop
  /-- `select` times out at a quiet node -/
  | timeout {w : World ι} {x : ι} {fresh : Fresh} {d : Daemon} {out : List Effect}
      (quiet : Quiet N w x) (h : act (.timeout fresh) (w.daemon x) = .ok (d, out)) :
      PromptStep N w (x, .timeout fresh, out) (w.after x out d)
  /-- a node reads the first datagram of its way -/
  | deliver {w : World ι} {x : ι} {k : ℕ} {g : Datagram ι} {fresh : Fresh} {d : Daemon}
      {out : List Effect} (next : w.wire[k]? = some g) (first : ∀ g' ∈ w.wire.take k, ¬ g'.SameWay g)
      (here : g.To N x) (h : act (.datagram (g.received N) fresh) (w.daemon x) = .ok (d, out)) :
      PromptStep N w (x, .datagram (g.received N) fresh, out)
        (World.after ⟨w.daemon, w.wire.eraseIdx k⟩ x out d)
  /-- a node answers a request -/
  | request {w : World ι} {x : ι} {c : TcpConnection} {uri : List UInt8} {opened : Bool} {d : Daemon}
      {out : List Effect} (h : act (.request c uri opened) (w.daemon x) = .ok (d, out)) :
      PromptStep N w (x, .request c uri opened, out) (w.after x out d)

/-- The runs of a network in which no datagram is lost, duplicated or reordered, and every datagram
and the ACK for it are handled before the next timeout of its sender. -/
def promptNetwork (N : Net ι) : System (World ι) (ι × Event × List Effect) where
  init w := w.wire = [] ∧ ∀ x, boot (N.files x) = .ok (w.daemon x)
  step := PromptStep N

variable {N : Net ι} {w w' : World ι} {l : ι × Event × List Effect}

theorem PromptStep.act (h : PromptStep N w l w') :
    ∃ d, act l.2.1 (w.daemon l.1) = .ok (d, l.2.2) ∧ w'.daemon = Function.update w.daemon l.1 d := by
  cases h with
  | timeout quiet h => exact ⟨_, h, rfl⟩
  | deliver next first here h => exact ⟨_, h, rfl⟩
  | request h => exact ⟨_, h, rfl⟩

/-- **Every daemon of such a network runs as a daemon on its own.** -/
theorem prompt_daemon (r : (promptNetwork N).Reachable w) (x : ι) :
    (daemonSystem (N.files x)).Reachable (w.daemon x) := by
  have h0 : ∀ w : World ι, (promptNetwork N).init w →
      (daemonSystem (N.files x)).init (w.daemon x) := fun w h => h.2 x
  refine r.map (f := fun w => w.daemon x) h0 fun w l w' h => ?_
  obtain ⟨d, ha, hd⟩ := PromptStep.act h
  show w'.daemon x = w.daemon x ∨ ∃ k : Event × List Effect,
    RoutingDaemon.act k.1 (w.daemon x) = .ok (w'.daemon x, k.2)
  rw [hd]
  by_cases hx : x = l.1
  · subst hx
    exact .inr ⟨l.2, by rw [Function.update_self]; exact ha⟩
  · exact .inl (Function.update_of_ne hx ..)

theorem lawful_prompt (hv : N.Valid) (r : (promptNetwork N).Reachable w) : Lawful N w where
  sound x := sound_reachable (hv.configured x) (prompt_daemon r x)
  links x := links_reachable (prompt_daemon r x)

/-! ### Schedules -/

instance {p : LSA → Prop} [DecidablePred p] (g : Datagram ι) : Decidable (∀ a, g.Carries a → p a) :=
  match h : bytesToPacket (g.bytes.take maxLsaLen) with
  | .error _ => isTrue fun _ h' => by rw [Datagram.Carries, h] at h'; cases h'
  | .ok a => decidable_of_iff (p a)
      ⟨fun hp _ h' => by rw [Datagram.Carries, h] at h'; cases h'; exact hp, fun hp => hp a h⟩

instance (N : Net ι) (w : World ι) (x : ι) : Decidable (Quiet N w x) :=
  inferInstanceAs (Decidable (∀ g ∈ w.wire, _ ∧ (_ → _)))

instance (g g' : Datagram ι) : Decidable (g.SameWay g') :=
  inferInstanceAs (Decidable (_ ∧ _ ∧ _))

variable (N) in
/-- One step of a schedule: its label, and the world after it. -/
def World.promptMove (w : World ι) : Move ι → Option ((ι × Event × List Effect) × World ι)
  | .tick x =>
    if Quiet N w x then do
      let (d, out) ← (act (.timeout zeros) (w.daemon x)).toOption
      return ((x, .timeout zeros, out), w.after x out d)
    else none
  | .deliver x k => do
    let g ← w.wire[k]?
    if g.To N x ∧ ∀ g' ∈ w.wire.take k, ¬ g'.SameWay g then do
      let (d, out) ← (act (.datagram (g.received N) zeros) (w.daemon x)).toOption
      return ((x, .datagram (g.received N) zeros, out),
        World.after ⟨w.daemon, w.wire.eraseIdx k⟩ x out d)
    else none

theorem step_promptMove {m : Move ι} (h : w.promptMove N m = some (l, w')) :
    (promptNetwork N).step w l w' := by
  cases m with
  | tick x =>
    rw [World.promptMove] at h
    split_ifs at h with hq
    obtain ⟨⟨d, out⟩, ha, h⟩ := Option.bind_eq_some_iff.mp h
    cases h
    exact .timeout hq (toOption_eq_some.mp ha)
  | deliver x k =>
    obtain ⟨g, hg, h⟩ := Option.bind_eq_some_iff.mp h
    split_ifs at h with hok
    obtain ⟨⟨d, out⟩, ha, h⟩ := Option.bind_eq_some_iff.mp h
    cases h
    exact .deliver hg hok.2 hok.1 (toOption_eq_some.mp ha)

theorem prompt_init_start (hb : ∀ x, (boot (N.files x)).toOption.isSome = true) :
    (promptNetwork N).init (N.start hb) :=
  ⟨rfl, fun x => toOption_eq_some.mp (Option.some_get (hb x)).symm⟩

end Steps

end RoutingDaemon
