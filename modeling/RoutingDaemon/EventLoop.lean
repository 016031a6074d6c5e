import RoutingDaemon.Connections

/-!
# The event loop

* `recvHandler`, `sendHandler`, where nothing is sent of an empty response; `visit`, `scan`: the loop over
  the descriptors; `pass`: one pass of `engine_event`; `loopSystem`: its runs.
* `scan_rule`, `pass_rule`: what every handler keeps, a pass keeps.
* `Watched`: only open sockets are watched; `watched_reachable`: unless a connection is reset.
* `connection_reachable`, `daemon_reachable`: a run of the loop is one of its handlers, and one of the
  daemon.
-/

namespace RoutingDaemon

/-- What the handlers find at one descriptor. -/
structure Input where
  accept : Accept
  datagram : Received
  fresh : Fresh
  recv : Recv
  uri : List UInt8
  opened : Bool
  send : Send

/-- `recv_handler` -/
def recvHandler (i : ℕ) (x : Input) (e : Engine) : Except Stop (Engine × ℤ) :=
  if i = e.udpSock then lsaEvent x.datagram x.fresh e
  else if i = e.tcpSock then newClientHandler x.accept e
  else flaskRequestHandler i x.recv x.uri x.opened e

/-- How `send` ends on a response of this length: nothing is sent of an empty one. -/
def Send.ofLength (n : ℤ) (s : Send) : Send := if s = .sent ∧ n < 1 then .failed else s

/-- `send_handler` -/
def sendHandler (i : ℕ) (x : Input) (e : Engine) : Except Stop (Engine × ℤ) :=
  flaskResponseHandler i (x.send.ofLength (e.connections i).responseIndex) e

/-- The first half of the loop's body. -/
def visitRecv (tempRfds : Finset ℕ) (i : ℕ) (x : Input) (e : Engine) : Except Stop (Engine × ℤ) :=
  if i ∈ tempRfds then recvHandler i x e else .ok (e, 1)

/-- The second half of the loop's body. -/
def visitSend (tempWfds : Finset ℕ) (i : ℕ) (x : Input) (e : Engine) : Except Stop Engine :=
  if i ∈ tempWfds then do
    let (e, ret) ← sendHandler i x e
    if ret < 1 then .ok e else .ok { e with wfds := e.wfds.erase i }
  else .ok e

/-- The body of the loop over the descriptors. -/
def visit (tempRfds tempWfds : Finset ℕ) (i : ℕ) (x : Input) (e : Engine) : Except Stop Engine := do
  let (e, ret) ← visitRecv tempRfds i x e
  if ret < 1 then .ok e else visitSend tempWfds i x e

/-- The loop over the descriptors, up to the `fdmax` of the moment. -/
def scan (tempRfds tempWfds : Finset ℕ) (x : ℕ → Input) : List ℕ → Engine → Except Stop Engine
  | [], e => .ok e
  | i :: is, e =>
    if i ≤ e.fdmax then do
      let e ← visit tempRfds tempWfds i (x i) e
      scan tempRfds tempWfds x is e
    else .ok e

/-- How `select` ends. -/
inductive Selected
  | timeout (fresh : Fresh)
  /-- the descriptors that are ready, and what the handlers will find there -/
  | ready (tempRfds tempWfds : Finset ℕ) (x : ℕ → Input)

/-- Only open sockets are watched. -/
def Watched (e : Engine) : Prop := e.rfds ∪ e.wfds ⊆ e.sockets

instance (e : Engine) : Decidable (Watched e) := by unfold Watched; infer_instance

/-- One pass of `engine_event`. `select` fails when a descriptor is closed, which ends the program. The
`fd_set`s hold the descriptors below `FD_SETSIZE`, which is `MAX_CONNECTIONS`. -/
def pass (sel : Selected) (e : Engine) : Except Stop Engine :=
  if Watched e then
    match sel with
    | .timeout fresh => do
      let (d, _) ← guarded (timeout fresh e.daemon)
      .ok { e with daemon := d }
    | .ready tempRfds tempWfds x => scan tempRfds tempWfds x (List.range maxConnections) e
  else .error .exit

/-- `select` reports watched descriptors. -/
def Reported (e : Engine) : Selected → Prop
  | .timeout _ => True
  | .ready tempRfds tempWfds _ => tempRfds ⊆ e.rfds ∧ tempWfds ⊆ e.wfds

/-- The runs of the event loop. -/
def loopSystem (f : Files) : System Engine Selected where
  init := (connectionSystem f).init
  step e sel e' := Reported e sel ∧ pass sel e = .ok e'

/-! ### Handlers and passes -/

/-- What `recv_handler` handles. -/
def recvEvent (i : ℕ) (x : Input) (e : Engine) : ConnectionEvent :=
  if i = e.udpSock then .datagram x.datagram x.fresh
  else if i = e.tcpSock then .accept x.accept
  else .read i x.recv x.uri x.opened

section Visit

variable {e e' : Engine} {i : ℕ} {ret : ℤ} {x : Input} {t : Fate}

theorem recvHandler_eq : recvHandler i x e = handle (recvEvent i x e) e := by
  unfold recvHandler recvEvent
  split_ifs <;> rfl

theorem mem_clients (hi : i ∈ e.sockets) (hudp : i ≠ e.udpSock) (htcp : i ≠ e.tcpSock) :
    i ∈ e.clients :=
  Finset.mem_of_mem_insert_of_ne (Finset.mem_of_mem_insert_of_ne hi hudp) htcp

theorem serviceable_recvEvent (hi : i ∈ e.sockets) : Serviceable e (recvEvent i x e) := by
  unfold recvEvent
  split_ifs with hudp htcp
  · trivial
  · trivial
  · exact mem_clients hi hudp htcp

theorem recvHandler_step (hi : i ∈ e.sockets) (h : recvHandler i x e = .ok (e', ret)) :
    Step e i (fate e (recvEvent i x e)) ret e' := by
  unfold recvHandler at h
  unfold recvEvent
  split_ifs at h ⊢ with hudp htcp
  · exact lsaEvent_step h
  · exact newClientHandler_step h
  · exact flaskRequestHandler_step (mem_clients hi hudp htcp) h

theorem sockets_step (h : Step e i t ret e') :
    e.sockets.erase i ⊆ e'.sockets ∧ e.clients.erase i ⊆ e'.clients := by
  have hclose : e.sockets.erase i ⊆ insert e.udpSock (insert e.tcpSock (e.clients.erase i)) := by
    intro j hj
    simp only [Engine.sockets, Finset.mem_erase, Finset.mem_insert] at hj ⊢
    tauto
  have hsub : ∀ {s t : Finset ℕ}, s ⊆ t → s.erase i ⊆ t := (Finset.erase_subset i _).trans
  cases h with
  | refused => exact ⟨hsub Finset.Subset.rfl, hsub Finset.Subset.rfl⟩
  | @admitted s room unused bound =>
    have hclients : e.clients ⊆ insert s e.clients := Finset.subset_insert _ _
    exact ⟨hsub (Finset.insert_subset_insert _ (Finset.insert_subset_insert _ hclients)),
      hsub hclients⟩
  | answered client request => exact ⟨hsub Finset.Subset.rfl, hsub Finset.Subset.rfl⟩
  | ended client => exact ⟨hclose, Finset.Subset.rfl⟩
  | reset client => exact ⟨hclose, Finset.Subset.rfl⟩
  | served client => exact ⟨hclose, Finset.Subset.rfl⟩
  | other pass => exact ⟨hsub Finset.Subset.rfl, hsub Finset.Subset.rfl⟩

theorem fate_recvEvent : fate e (recvEvent i x e) ≠ .served := by
  unfold recvEvent
  split_ifs
  · exact Fate.noConfusion
  · exact Fate.noConfusion
  · cases x.recv with
    | got data => simp only [fate]; split_ifs <;> exact Fate.noConfusion
    | reset => exact Fate.noConfusion
    | failed => exact Fate.noConfusion

theorem clients_recvHandler (hi : i ∈ e.sockets) (h : recvHandler i x e = .ok (e', ret))
    (hret : ¬ ret < 1) : e.clients ⊆ e'.clients := by
  have hs := recvHandler_step hi h
  have hserved := fate_recvEvent (e := e) (i := i) (x := x)
  generalize fate e (recvEvent i x e) = t at hs hserved
  cases hs with
  | refused => exact Finset.Subset.rfl
  | admitted room unused bound => exact Finset.subset_insert _ _
  | answered client request => exact Finset.Subset.rfl
  | ended client => exact absurd (by decide) hret
  | reset client => exact absurd (by decide) hret
  | served client => exact absurd rfl hserved
  | other pass => exact Finset.Subset.rfl

end Visit

/-- What a pass has reported is open, at the descriptors that it has still to visit. -/
def StillOpen (tempRfds tempWfds : Finset ℕ) (is : List ℕ) (e : Engine) : Prop :=
  ∀ j ∈ is, (j ∈ tempRfds → j ∈ e.sockets) ∧ (j ∈ tempWfds → j ∈ e.clients)

section Rule

variable {P : Engine → Prop} {Q : ConnectionEvent → Prop} {tempRfds tempWfds : Finset ℕ}
  {x : ℕ → Input} {e e' : Engine}

theorem Send.ofLength_sent {n : ℤ} {s : Send} (h : s.ofLength n = .sent) : 1 ≤ n := by
  unfold Send.ofLength at h
  split_ifs at h with hn
  subst h
  exact not_lt.mp fun hlt => hn ⟨rfl, hlt⟩

/-- `send_handler` has cleared the descriptor already. -/
theorem visitSend_eq_ok {i : ℕ} {x : Input} (h : visitSend tempWfds i x e = .ok e') :
    (e' = e ∧ i ∉ tempWfds) ∨ i ∈ tempWfds ∧ sendHandler i x e = .ok (e', 1) := by
  unfold visitSend at h
  split_ifs at h with hi
  · obtain ⟨⟨e₁, ret⟩, h1, h⟩ := bind_eq_ok.mp h
    have hserved : e₁ = (e.close i).unwatch i ∧ ret = 1 := by
      unfold sendHandler at h1
      generalize x.send.ofLength (e.connections i).responseIndex = s at h1
      cases s <;> cases h1 <;> exact ⟨rfl, rfl⟩
    obtain ⟨rfl, rfl⟩ := hserved
    dsimp only at h
    rw [if_neg (by decide)] at h
    cases h
    refine .inr ⟨hi, h1.trans ?_⟩
    rw [Engine.unwatch, Finset.erase_idem]
  · cases h
    exact .inl ⟨rfl, hi⟩

theorem visit_rule
    (hP : ∀ e ev e' ret, P e → Q ev → Serviceable e ev → handle ev e = .ok (e', ret) → P e')
    {i : ℕ} (hr : i ∈ tempRfds → i ∈ e.sockets) (hw : i ∈ tempWfds → i ∈ e.clients)
    (hQ : i ∈ tempRfds → Q (recvEvent i (x i) e)) (hQ' : ∀ s, Q (.send i s))
    (h : visit tempRfds tempWfds i (x i) e = .ok e') (he : P e) :
    P e' ∧ e.sockets.erase i ⊆ e'.sockets ∧ e.clients.erase i ⊆ e'.clients := by
  obtain ⟨⟨e₁, ret⟩, h1, h⟩ := bind_eq_ok.mp h
  have first : P e₁ ∧ (e.sockets.erase i ⊆ e₁.sockets ∧ e.clients.erase i ⊆ e₁.clients) ∧
      (¬ ret < 1 → e.clients ⊆ e₁.clients) := by
    unfold visitRecv at h1
    split_ifs at h1 with hi
    · refine ⟨?_, sockets_step (recvHandler_step (hr hi) h1), clients_recvHandler (hr hi) h1⟩
      rw [recvHandler_eq] at h1
      exact hP _ _ _ _ he (hQ hi) (serviceable_recvEvent (hr hi)) h1
    · cases h1
      exact ⟨he, ⟨Finset.erase_subset _ _, Finset.erase_subset _ _⟩, fun _ => Finset.Subset.rfl⟩
  obtain ⟨hp, hsub, hkept⟩ := first
  dsimp only at h
  split_ifs at h with hret
  · cases h
    exact ⟨hp, hsub⟩
  · rcases visitSend_eq_ok h with ⟨rfl, -⟩ | ⟨hi, h2⟩
    · exact ⟨hp, hsub⟩
    · have hclient : i ∈ e₁.clients := hkept hret (hw hi)
      obtain ⟨hs, hc⟩ := sockets_step (flaskResponseHandler_step hclient h2)
      refine ⟨hP _ _ _ _ hp (hQ' _) ⟨hclient, Send.ofLength_sent⟩ h2, ?_, ?_⟩
      · exact fun j hj => hs (Finset.mem_erase.mpr ⟨Finset.ne_of_mem_erase hj, hsub.1 hj⟩)
      · exact fun j hj => hc (Finset.mem_erase.mpr ⟨Finset.ne_of_mem_erase hj, hsub.2 hj⟩)

/-- **What every handler keeps, the loop over the descriptors keeps.** -/
theorem scan_rule
    (hP : ∀ e ev e' ret, P e → Q ev → Serviceable e ev → handle ev e = .ok (e', ret) → P e')
    (hQ : ∀ i ∈ tempRfds, ∀ e, P e → Q (recvEvent i (x i) e)) (hQ' : ∀ i s, Q (.send i s)) {is : List ℕ}
    (his : is.Nodup) (hpend : StillOpen tempRfds tempWfds is e)
    (h : scan tempRfds tempWfds x is e = .ok e') (he : P e) : P e' := by
  induction is generalizing e with
  | nil => cases h; exact he
  | cons i is ih =>
    unfold scan at h
    split_ifs at h with hi
    · obtain ⟨e₁, h1, h⟩ := bind_eq_ok.mp h
      obtain ⟨hr, hw⟩ := hpend i List.mem_cons_self
      obtain ⟨hp, hs, hc⟩ := visit_rule hP hr hw (fun hm => hQ i hm e he) (hQ' i) h1 he
      obtain ⟨hnot, hnodup⟩ := List.nodup_cons.mp his
      refine ih hnodup (fun j hj => ?_) h hp
      have hne : j ≠ i := fun e => hnot (e ▸ hj)
      obtain ⟨hr, hw⟩ := hpend j (List.mem_cons_of_mem _ hj)
      exact ⟨fun hm => hs (Finset.mem_erase.mpr ⟨hne, hr hm⟩),
        fun hm => hc (Finset.mem_erase.mpr ⟨hne, hw hm⟩)⟩
    · cases h
      exact he

/-- **What every handler and every timeout keeps, a pass keeps**, as long as only open sockets are
watched. -/
theorem pass_rule {sel : Selected}
    (hP : ∀ e ev e' ret, P e → Q ev → Serviceable e ev → handle ev e = .ok (e', ret) → P e')
    (hwatch : e.rfds ⊆ e.sockets) (hwatch' : e.wfds ⊆ e.clients) (hrep : Reported e sel)
    (hQ : ∀ tempRfds tempWfds x, sel = .ready tempRfds tempWfds x →
      ∀ i ∈ tempRfds, ∀ e, P e → Q (recvEvent i (x i) e))
    (hQ' : ∀ i s, Q (.send i s)) (hQt : ∀ fresh, Q (.timeout fresh))
    (h : pass sel e = .ok e') (he : P e) : P e' := by
  unfold pass at h
  split_ifs at h
  cases sel with
  | timeout fresh =>
    obtain ⟨⟨d, out⟩, ht, h⟩ := bind_eq_ok.mp h
    cases h
    have hh : handle (.timeout fresh) e = .ok ({ e with daemon := d }, 1) :=
      bind_eq_ok.mpr ⟨_, ht, rfl⟩
    exact hP _ _ _ _ he (hQt fresh) trivial hh
  | ready tempRfds tempWfds x =>
    have hpend : StillOpen tempRfds tempWfds (List.range maxConnections) e := fun j _ =>
      ⟨fun hm => hwatch (hrep.1 hm), fun hm => hwatch' (hrep.2 hm)⟩
    exact scan_rule hP (hQ _ _ _ rfl) hQ' List.nodup_range hpend h he

end Rule

/-! ### The watched descriptors -/

/-- The descriptors that are watched: for reading any open sockets, for writing clients. -/
structure Watching (e : Engine) : Prop where
  rfds : e.rfds ⊆ e.sockets
  wfds : e.wfds ⊆ e.clients

theorem clients_subset (e : Engine) : e.clients ⊆ e.sockets :=
  (Finset.subset_insert _ _).trans (Finset.subset_insert _ _)

theorem Watching.watched {e : Engine} (h : Watching e) : Watched e :=
  Finset.union_subset h.rfds (h.wfds.trans (clients_subset e))

theorem Watching.unwatch {e : Engine} (h : Watching e) (i : ℕ) : Watching ((e.close i).unwatch i) where
  rfds := by
    intro j hj
    obtain ⟨hne, hj⟩ := Finset.mem_erase.mp hj
    have hm : j ∈ e.sockets := h.rfds hj
    simp only [Engine.sockets, Finset.mem_insert] at hm
    exact Finset.mem_insert.mpr (hm.imp_right fun hm => Finset.mem_insert.mpr
      (hm.imp_right fun hm => Finset.mem_erase.mpr ⟨hne, hm⟩))
  wfds := Finset.erase_subset_erase i h.wfds

/-- **Only a reset leaves a closed descriptor watched.** -/
theorem watching_step {e e' : Engine} {i : ℕ} {t : Fate} {ret : ℤ} (h : Step e i t ret e')
    (ht : t ≠ .reset) (hw : Watching e) : Watching e' := by
  cases h with
  | refused => exact hw
  | @admitted s room unused bound =>
    have hs : insert s e.sockets ⊆ (e.register s).sockets := by
      intro j hj
      simp only [Engine.sockets, Engine.register, Finset.mem_insert] at hj ⊢
      tauto
    refine ⟨(Finset.insert_subset_insert _ hw.rfds).trans hs, ?_⟩
    have hwfds : (e.register s).wfds ⊆ insert s e.wfds := by
      simp only [Engine.register]
      split
      · exact Finset.Subset.rfl
      · exact Finset.subset_insert _ _
    exact hwfds.trans (Finset.insert_subset_insert _ hw.wfds)
  | answered client request => exact ⟨hw.rfds, Finset.insert_subset client hw.wfds⟩
  | ended client => exact hw.unwatch i
  | reset client => exact absurd rfl ht
  | served client => exact hw.unwatch i
  | other pass => exact ⟨hw.rfds, hw.wfds⟩

theorem socks_step {e e' : Engine} {i : ℕ} {t : Fate} {ret : ℤ} (h : Step e i t ret e') :
    e'.udpSock = e.udpSock ∧ e'.tcpSock = e.tcpSock := by
  cases h <;> exact ⟨rfl, rfl⟩

/-- No connection is reset in the pass. -/
def NoReset (e : Engine) : Selected → Prop
  | .timeout _ => True
  | .ready tempRfds _ x =>
    ∀ i ∈ tempRfds, i ≠ e.udpSock → i ≠ e.tcpSock → (x i).recv ≠ .reset

/-- The events that are no reset. -/
def Plain : ConnectionEvent → Prop
  | .read _ r _ _ => r ≠ .reset
  | _ => True

theorem Plain.fate_ne {e : Engine} {ev : ConnectionEvent} (h : Plain ev) : fate e ev ≠ .reset := by
  cases ev with
  | read i r uri opened =>
    cases r with
    | got data => simp only [fate]; split_ifs <;> exact Fate.noConfusion
    | reset => exact absurd rfl h
    | failed => exact Fate.noConfusion
  | _ => exact Fate.noConfusion

theorem watching_pass {e e' : Engine} {sel : Selected} (hw : Watching e) (hrep : Reported e sel)
    (hno : NoReset e sel) (h : pass sel e = .ok e') : Watching e' := by
  have hP : ∀ e₁ ev e₂ ret, Watching e₁ ∧ e₁.udpSock = e.udpSock ∧ e₁.tcpSock = e.tcpSock →
      Plain ev → Serviceable e₁ ev → handle ev e₁ = .ok (e₂, ret) →
        Watching e₂ ∧ e₂.udpSock = e.udpSock ∧ e₂.tcpSock = e.tcpSock := by
    rintro e₁ ev e₂ ret ⟨h1, h2, h3⟩ hev hs hh
    obtain ⟨i, hstep⟩ := handle_step hs hh
    obtain ⟨hu, ht⟩ := socks_step hstep
    exact ⟨watching_step hstep hev.fate_ne h1, hu.trans h2, ht.trans h3⟩
  refine (pass_rule hP hw.rfds hw.wfds hrep ?_ (fun _ _ => trivial) (fun _ => trivial) h
    ⟨hw, rfl, rfl⟩).1
  rintro tempRfds tempWfds x rfl i hi e₁ ⟨-, hu, ht⟩
  unfold recvEvent
  split_ifs with h1 h2
  · trivial
  · trivial
  · exact hno i hi (hu ▸ h1) (ht ▸ h2)

/-- **Only open sockets are watched, in every run without resets.** -/
theorem watched_reachable (f : Files) :
    ∀ e, ((loopSystem f).restrict NoReset).Reachable e → Watched e := by
  intro e r
  refine (r.invariant (I := Watching) ?_ fun e sel e' hw h => ?_).watched
  · rintro _ ⟨udpSock, tcpSock, d, -, -, -, -, rfl⟩
    exact ⟨Finset.insert_subset_insert _ (Finset.insert_subset_insert _ (Finset.empty_subset _)),
      Finset.Subset.rfl⟩
  · exact watching_pass hw h.2.1 h.1 h.2.2

/-! ### The loop, its handlers, and the daemon -/

theorem daemon_reachable {f : Files} {e : Engine} (r : (connectionSystem f).Reachable e) :
    (daemonSystem f).Reachable e.daemon := by
  refine r.map (f := Engine.daemon) ?_ ?_
  · rintro _ ⟨udpSock, tcpSock, d, -, -, -, hd, rfl⟩
    exact hd
  · rintro e ⟨ev, b⟩ e' ⟨hs, -, ret, h⟩
    obtain ⟨i, hstep⟩ := handle_step hs h
    generalize fate e ev = t at hstep
    cases hstep with
    | answered client request => exact .inr ⟨(_, _), request⟩
    | other pass => exact .inr ⟨(_, _), pass⟩
    | _ => exact .inl rfl

/-- The server sockets are no clients, and are not watched for writing. -/
def Apart (e : Engine) : Prop :=
  ∀ j, j = e.udpSock ∨ j = e.tcpSock → j ∉ e.clients ∧ j ∉ e.wfds

theorem Apart.erase {e : Engine} (h : Apart e) (i : ℕ) : Apart ((e.close i).unwatch i) :=
  fun j hj => ⟨fun hm => (h j hj).1 (Finset.mem_of_mem_erase hm),
    fun hm => (h j hj).2 (Finset.mem_of_mem_erase hm)⟩

theorem apart_step {e e' : Engine} {i : ℕ} {t : Fate} {ret : ℤ} (h : Step e i t ret e')
    (ha : Apart e) : Apart e' := by
  cases h with
  | refused => exact ha
  | @admitted s room unused bound =>
    intro j hj
    have hne : j ≠ s := by
      rintro rfl
      refine unused (Finset.mem_insert.mpr (hj.imp_right fun h => ?_))
      exact Finset.mem_insert.mpr (.inl h)
    refine ⟨fun hm => (ha j hj).1 (Finset.mem_of_mem_insert_of_ne hm hne), fun hm => ?_⟩
    simp only [Engine.register] at hm
    split at hm
    · exact (ha j hj).2 (Finset.mem_of_mem_insert_of_ne hm hne)
    · exact (ha j hj).2 hm
  | answered client request =>
    refine fun j hj => ⟨(ha j hj).1, fun hm => (ha j hj).2 ?_⟩
    exact Finset.mem_of_mem_insert_of_ne hm fun e => (ha j hj).1 (e ▸ client)
  | ended client => exact ha.erase i
  | reset client =>
    exact fun j hj => ⟨fun hm => (ha j hj).1 (Finset.mem_of_mem_erase hm), (ha j hj).2⟩
  | served client => exact ha.erase i
  | other pass => exact ha

theorem apart_reachable {f : Files} {e : Engine} (r : (connectionSystem f).Reachable e) :
    Apart e := by
  refine r.invariant (I := Apart) ?_ fun e l e' ha h => ?_
  · rintro _ ⟨udpSock, tcpSock, d, -, -, -, -, rfl⟩
    exact fun j _ => ⟨Finset.notMem_empty j, Finset.notMem_empty j⟩
  · obtain ⟨hs, -, ret, h⟩ := h
    obtain ⟨i, hstep⟩ := handle_step hs h
    exact apart_step hstep ha

/-- **A run of the loop is a run of its handlers.** -/
theorem connection_reachable {f : Files} {e : Engine} (r : (loopSystem f).Reachable e) :
    (connectionSystem f).Reachable e := by
  refine System.Reachable.invariant (S := loopSystem f) (I := (connectionSystem f).Reachable)
    (fun _ h => .init h) ?_ r
  rintro e sel e' r ⟨hrep, h⟩
  have hwatch : Watched e := by
    by_contra hn
    unfold pass at h
    rw [if_neg hn] at h
    cases h
  obtain ⟨hr, hw⟩ := Finset.union_subset_iff.mp hwatch
  have hw' : e.wfds ⊆ e.clients := fun j hj => mem_clients (hw hj)
    (fun e => (apart_reachable r j (.inl e)).2 hj) (fun e => (apart_reachable r j (.inr e)).2 hj)
  refine pass_rule (P := (connectionSystem f).Reachable) (Q := fun _ => True) ?_ hr hw' hrep
    (fun _ _ _ _ _ _ _ _ => trivial) (fun _ _ => trivial) (fun _ => trivial) h r
  intro e₁ ev e₂ ret r₁ _ hs hh
  have step : (connectionSystem f).step e₁ (ev, Closes e₁ ev) e₂ := ⟨hs, rfl, ret, hh⟩
  exact r₁.step step

/-- At every descriptor: the lowest descriptor for a new client, and a `recv` that ends like `r`. -/
def quiet (r : Recv) (_ : ℕ) : Input := ⟨lowest, .failed, zeros, r, [], true, .sent⟩

/-- A client connects, and its first `recv` ends like `r`. -/
def firstRead (r : Recv) : Except Stop (Engine × Engine × Engine) := do
  let d ← guarded (boot loneFiles)
  let e := createEngine 3 4 d
  let e₁ ← pass (.ready {4} ∅ (quiet r)) e
  let e₂ ← pass (.ready {0} ∅ (quiet r)) e₁
  return (e, e₁, e₂)

theorem firstRead_eq_ok {r : Recv} {e e₁ e₂ : Engine} (h : firstRead r = .ok (e, e₁, e₂)) :
    (loopSystem loneFiles).init e ∧ pass (.ready {4} ∅ (quiet r)) e = .ok e₁ ∧
      pass (.ready {0} ∅ (quiet r)) e₁ = .ok e₂ := by
  obtain ⟨d, hd, h⟩ := bind_eq_ok.mp h
  obtain ⟨_, h1, h⟩ := bind_eq_ok.mp h
  obtain ⟨_, h2, h⟩ := bind_eq_ok.mp h
  cases h
  rw [guarded_eq_ok] at hd
  exact ⟨init_loneFiles hd, h1, h2⟩

theorem reported_singleton {e : Engine} {i : ℕ} {x : ℕ → Input} (h : i ∈ e.rfds) :
    Reported e (.ready {i} ∅ x) :=
  ⟨Finset.singleton_subset_iff.mpr h, Finset.empty_subset _⟩

/-- A client that leaves at once. -/
theorem watched_reachable_firstRead : ∃ e, ((loopSystem loneFiles).restrict NoReset).Reachable e ∧
    Watched e ∧ e.clients = ∅ := by
  have key : (firstRead (.got [])).map (fun p => decide (4 ∈ p.1.rfds) && decide (0 ∈ p.2.1.rfds) &&
      decide (p.2.2.clients = ∅)) = .ok true := by decide +kernel
  obtain ⟨⟨e, e₁, e₂⟩, he, hp⟩ := exists_of_map_eq_ok key
  simp only [Bool.and_eq_true, decide_eq_true_eq] at hp
  obtain ⟨hinit, h1, h2⟩ := firstRead_eq_ok he
  have s₁ : ((loopSystem loneFiles).restrict NoReset).step e (.ready {4} ∅ (quiet (.got []))) e₁ :=
    ⟨fun _ _ _ _ => Recv.noConfusion, reported_singleton hp.1.1, h1⟩
  have s₂ : ((loopSystem loneFiles).restrict NoReset).step e₁ (.ready {0} ∅ (quiet (.got []))) e₂ :=
    ⟨fun _ _ _ _ => Recv.noConfusion, reported_singleton hp.1.2, h2⟩
  have r₀ : ((loopSystem loneFiles).restrict NoReset).Reachable e := .init hinit
  have r₂ := (r₀.step s₁).step s₂
  exact ⟨e₂, r₂, watched_reachable loneFiles e₂ r₂, hp.2⟩

/-- **A client that resets its connection leaves a closed descriptor watched.** -/
theorem exists_unwatched : ∃ e, (loopSystem loneFiles).Reachable e ∧ ¬ Watched e ∧
    ∀ sel, pass sel e = .error .exit := by
  have key : (firstRead .reset).map (fun p => decide (4 ∈ p.1.rfds) && decide (0 ∈ p.2.1.rfds) &&
      decide (¬ Watched p.2.2)) = .ok true := by decide +kernel
  obtain ⟨⟨e, e₁, e₂⟩, he, hp⟩ := exists_of_map_eq_ok key
  simp only [Bool.and_eq_true, decide_eq_true_eq] at hp
  obtain ⟨hinit, h1, h2⟩ := firstRead_eq_ok he
  have s₁ : (loopSystem loneFiles).step e (.ready {4} ∅ (quiet .reset)) e₁ :=
    ⟨reported_singleton hp.1.1, h1⟩
  have s₂ : (loopSystem loneFiles).step e₁ (.ready {0} ∅ (quiet .reset)) e₂ :=
    ⟨reported_singleton hp.1.2, h2⟩
  have r₂ := ((System.Reachable.init hinit).step s₁).step s₂
  exact ⟨e₂, r₂, hp.2, fun sel => if_neg hp.2⟩

end RoutingDaemon
