import RoutingDaemon.ClientRequests
import RoutingDaemon.Lib.Lockstep

/-!
# What an earlier client leaves behind

* `Alike`: connections that differ at most in `response_index`; `processBuffer_alike`,
  `buildResponse_alike`: parsing keeps them alike, and a response makes them the same.
* `Twins`: engines that show the same, with alike connections; `handle_twins`: every handler keeps them so.
* `sentTo`: what a client is sent; `SentFirst`: before anything was read from it; `sentTo_eq_iff`.
* `closed_reachable`, `indexed_reachable`: what is left on a slot.
* `new_client_sent_iff`: a new client is sent the same in two runs, unless `response_index` of an earlier one
  is used; `exists_leftover`: it is used when the last client is put off.
-/

namespace RoutingDaemon

/-! ### Alike connections -/

/-- The connections differ at most in `response_index`. -/
def Alike (c₁ c₂ : TcpConnection) : Prop := ∃ n, c₂ = { c₁ with responseIndex := n }

theorem Alike.refl (c : TcpConnection) : Alike c c := ⟨c.responseIndex, rfl⟩

theorem alike_init (c₁ c₂ : TcpConnection) : Alike (initConnection c₁) (initConnection c₂) :=
  ⟨c₂.responseIndex, rfl⟩

section Alike

variable {c₁ c₂ : TcpConnection}

theorem Alike.response (h : Alike c₁ c₂) : c₁.response = c₂.response := by
  obtain ⟨n, rfl⟩ := h
  rfl

theorem Alike.requestIndex (h : Alike c₁ c₂) : c₁.requestIndex = c₂.requestIndex := by
  obtain ⟨n, rfl⟩ := h
  rfl

theorem Alike.status (h : Alike c₁ c₂) (s : ℤ) : Alike { c₁ with status := s } { c₂ with status := s } := by
  obtain ⟨n, rfl⟩ := h
  exact ⟨n, rfl⟩

theorem receive_alike (h : Alike c₁ c₂) (data : List UInt8) :
    Lockstep Alike (c₁.receive data) (c₂.receive data) := by
  obtain ⟨n, rfl⟩ := h
  unfold TcpConnection.receive
  dsimp only
  split_ifs
  · exact .ok ⟨n, rfl⟩
  · exact .error _

theorem copyTokens_alike (h : Alike c₁ c₂) (method : List UInt8)
    (nameLength name pathLength path : Option (List UInt8)) :
    Lockstep Alike (copyTokens c₁ method nameLength name pathLength path)
      (copyTokens c₂ method nameLength name pathLength path) := by
  obtain ⟨n, rfl⟩ := h
  unfold copyTokens
  refine .bind_same _ fun methodBuf _ => ?_
  refine .bind_same _ fun nameLength _ => ?_
  refine .bind_same _ fun nameLengthBuf _ => ?_
  refine .bind_same _ fun name _ => ?_
  refine .bind_same _ fun nameBuf _ => ?_
  dsimp only
  split_ifs
  · refine .bind_same _ fun pathLength _ => ?_
    refine .bind_same _ fun pathLengthBuf _ => ?_
    refine .bind_same _ fun path _ => ?_
    refine .bind_same _ fun pathBuf _ => ?_
    exact .ok ⟨n, rfl⟩
  · exact .ok ⟨n, rfl⟩

theorem processBuffer_alike (h : Alike c₁ c₂) : Lockstep Alike (processBuffer c₁) (processBuffer c₂) := by
  obtain ⟨n, rfl⟩ := h
  unfold processBuffer
  refine .bind_same _ fun t0 _ => ?_
  cases t0.token with
  | none => exact .ok ⟨n, rfl⟩
  | some method =>
    refine .bind_same _ fun t1 _ => ?_
    refine .bind_same _ fun t2 _ => ?_
    refine .bind_same _ fun t3 _ => ?_
    refine .bind_same _ fun t4 _ => ?_
    exact copyTokens_alike ⟨n, rfl⟩ _ _ _ _ _

theorem respond_alike (h : Alike c₁ c₂) (status : ℤ) (s : List UInt8) :
    Lockstep Alike (c₁.respond status s) (c₂.respond status s) := by
  obtain ⟨n, rfl⟩ := h
  exact .bind_same _ fun b _ => .ok ⟨n, rfl⟩

theorem getLocalFilePath_alike (h : Alike c₁ c₂) (ol : LocalObjects) :
    Lockstep Alike (getLocalFilePath ol c₁) (getLocalFilePath ol c₂) := by
  obtain ⟨n, rfl⟩ := h
  unfold getLocalFilePath
  dsimp only
  cases ol.objects.find? fun o => decide (o.name.1 = cstr c₁.name) with
  | some o => exact .bind_same _ fun path _ => .ok ⟨n, rfl⟩
  | none => exact .ok ⟨n, rfl⟩

theorem rdget_alike (h : Alike c₁ c₂) (uri : List UInt8) (d : Daemon) :
    Lockstep Alike (rdget uri d c₁) (rdget uri d c₂) := by
  obtain ⟨n, rfl⟩ := h
  unfold rdget
  refine .bind_same _ fun t _ => ?_
  cases t with
  | notFound => exact respond_alike ⟨n, rfl⟩ 404 _
  | here =>
    refine (getLocalFilePath_alike ⟨n, rfl⟩ d.ol).bind ?_
    rintro c _ ⟨k, rfl⟩
    dsimp only
    split_ifs
    · exact (respond_alike ⟨k, rfl⟩ 500 _).bind fun _ _ h => respond_alike h 200 _
    · exact .bind_same _ fun u _ => respond_alike ⟨k, rfl⟩ 200 _
  | via l => exact .bind_same _ fun u _ => respond_alike ⟨n, rfl⟩ 200 _

/-- The same daemon, and alike connections. -/
def AlikeAfter (p q : Daemon × TcpConnection) : Prop := p.1 = q.1 ∧ Alike p.2 q.2

theorem addfile_alike (h : Alike c₁ c₂) (opened : Bool) (d : Daemon) :
    Lockstep AlikeAfter (addfile opened d c₁) (addfile opened d c₂) := by
  obtain ⟨n, rfl⟩ := h
  unfold addfile
  dsimp only
  cases containsObject superFastHash d.gol (cstr c₁.name) with
  | some p => exact (respond_alike ⟨n, rfl⟩ 500 _).bind fun _ _ h => .ok ⟨rfl, h⟩
  | none =>
    refine .bind_same _ fun gol _ => .bind_same _ fun name _ => .bind_same _ fun path _ =>
      .bind_same _ fun ol _ => ?_
    split_ifs
    · exact (respond_alike ⟨n, rfl⟩ 200 _).bind fun _ _ h => .ok ⟨rfl, h⟩
    · exact .error _

theorem dispatch_alike (h : Alike c₁ c₂) (uri : List UInt8) (opened : Bool) (d : Daemon) :
    Lockstep AlikeAfter (dispatch uri opened d c₁) (dispatch uri opened d c₂) := by
  obtain ⟨n, rfl⟩ := h
  unfold dispatch
  dsimp only
  split_ifs
  · exact (respond_alike ⟨n, rfl⟩ _ _).bind fun _ _ h => .ok ⟨rfl, h⟩
  · exact (rdget_alike ⟨n, rfl⟩ uri d).bind fun _ _ h => .ok ⟨rfl, h⟩
  · exact addfile_alike ⟨n, rfl⟩ opened d
  · exact .ok ⟨rfl, n, rfl⟩

/-- **A response does not depend on what `response_index` was.** -/
theorem buildResponse_alike (h : Alike c₁ c₂) (uri : List UInt8) (opened : Bool) (d : Daemon) :
    buildResponse uri opened d c₁ = buildResponse uri opened d c₂ := by
  refine lockstep_eq.mp ((dispatch_alike h uri opened d).bind ?_)
  rintro ⟨d₁, c₁'⟩ ⟨d₂, c₂'⟩ ⟨rfl, n, rfl⟩
  exact .ok rfl

end Alike

/-! ### Two engines -/

/-- The engines show the same, and their connections are alike on `A`. -/
structure Twins (A : Set ℕ) (e₁ e₂ : Engine) : Prop where
  udpSock : e₁.udpSock = e₂.udpSock
  tcpSock : e₁.tcpSock = e₂.tcpSock
  clients : e₁.clients = e₂.clients
  nfds : e₁.nfds = e₂.nfds
  daemon : e₁.daemon = e₂.daemon
  alike : ∀ j ∈ A, Alike (e₁.connections j) (e₂.connections j)

/-- The client socket that an event is about. -/
def ConnectionEvent.slot : ConnectionEvent → Option ℕ
  | .read i _ _ _ => some i
  | .send i _ => some i
  | _ => none

/-- Such events are about connections in `A`. -/
def OnSlots (A : Set ℕ) (ev : ConnectionEvent) : Prop := ∀ i ∈ ev.slot, i ∈ A

/-- Both handlers return the same, and leave such engines. -/
def TwinsAfter (A : Set ℕ) (p q : Engine × ℤ) : Prop := p.2 = q.2 ∧ Twins A p.1 q.1

/-- As long as it is open, connection `i` is the same as well. -/
def SameAfter (A : Set ℕ) (i : ℕ) (p q : Engine × ℤ) : Prop :=
  TwinsAfter A p q ∧ (i ∈ p.1.clients → p.1.connections i = q.1.connections i)

section Twins

variable {A : Set ℕ} {e₁ e₂ : Engine} {i : ℕ}

theorem Twins.setConnection (h : Twins A e₁ e₂) {c₁ c₂ : TcpConnection} (hc : Alike c₁ c₂) :
    Twins A (e₁.setConnection i c₁) (e₂.setConnection i c₂) := by
  refine ⟨h.udpSock, h.tcpSock, h.clients, h.nfds, h.daemon, fun j hj => ?_⟩
  show Alike (Function.update e₁.connections i c₁ j) (Function.update e₂.connections i c₂ j)
  by_cases hji : j = i
  · rw [hji, Function.update_self, Function.update_self]
    exact hc
  · rw [Function.update_of_ne hji, Function.update_of_ne hji]
    exact h.alike j hj

theorem Twins.close (h : Twins A e₁ e₂) : Twins A (e₁.close i) (e₂.close i) := by
  have hset := h.setConnection (i := i) (alike_init (e₁.connections i) (e₂.connections i))
  exact ⟨h.udpSock, h.tcpSock, congrArg (·.erase i) h.clients, h.nfds, h.daemon, hset.alike⟩

theorem Twins.unwatch (h : Twins A e₁ e₂) : Twins A (e₁.unwatch i) (e₂.unwatch i) :=
  ⟨h.udpSock, h.tcpSock, h.clients, h.nfds, h.daemon, h.alike⟩

theorem Twins.isLast (h : Twins A e₁ e₂) : e₁.isLast = e₂.isLast := by
  rw [Engine.isLast, Engine.isLast, h.nfds]

theorem Twins.sockets (h : Twins A e₁ e₂) : e₁.sockets = e₂.sockets := by
  rw [Engine.sockets, Engine.sockets, h.udpSock, h.tcpSock, h.clients]

/-- An accepted connection is like any other one, whatever was there. -/
theorem Twins.register (h : Twins A e₁ e₂) (s : ℕ) :
    Twins (insert s A) (e₁.register s) (e₂.register s) := by
  have hinit := alike_init (e₁.connections s) (e₂.connections s)
  refine ⟨h.udpSock, h.tcpSock, congrArg (insert s) h.clients, congrArg (· + 1) h.nfds, h.daemon,
    fun j hj => ?_⟩
  show Alike (Function.update e₁.connections s _ j) (Function.update e₂.connections s _ j)
  rw [h.isLast]
  by_cases hjs : j = s
  · rw [hjs, Function.update_self, Function.update_self]
    split_ifs
    · exact hinit.status 503
    · exact hinit
  · rw [Function.update_of_ne hjs, Function.update_of_ne hjs]
    exact h.alike j (Set.mem_of_mem_insert_of_ne hj hjs)

theorem Twins.mono {B : Set ℕ} (h : Twins A e₁ e₂) (hB : B ⊆ A) : Twins B e₁ e₂ :=
  ⟨h.udpSock, h.tcpSock, h.clients, h.nfds, h.daemon, fun j hj => h.alike j (hB hj)⟩

theorem newClientHandler_twins (h : Twins A e₁ e₂) (a : Accept) :
    Lockstep (TwinsAfter A) (newClientHandler a e₁) (newClientHandler a e₂) := by
  unfold newClientHandler
  rw [h.nfds, h.sockets]
  split_ifs
  · cases a.answer e₂.sockets with
    | none => exact .ok ⟨rfl, h⟩
    | some s =>
      dsimp only
      split_ifs
      · exact .error _
      · exact .ok ⟨rfl, (h.register s).mono (Set.subset_insert s A)⟩
  · exact .ok ⟨rfl, h⟩

theorem answer_twins (h : Twins A e₁ e₂) {c₁ c₂ : TcpConnection} (hc : Alike c₁ c₂) (uri : List UInt8)
    (opened : Bool) : Lockstep (SameAfter A i) (e₁.answer i uri opened c₁) (e₂.answer i uri opened c₂) := by
  unfold Engine.answer
  rw [h.daemon, buildResponse_alike hc]
  refine .bind_same _ fun p _ => .ok ⟨⟨rfl, ?_⟩, fun _ => ?_⟩
  · exact ⟨h.udpSock, h.tcpSock, h.clients, h.nfds, rfl, (h.setConnection (.refl p.2)).alike⟩
  · exact (setConnection_self e₁ i p.2).trans (setConnection_self e₂ i p.2).symm

theorem flaskRequestHandler_twins (h : Twins A e₁ e₂) (hi : i ∈ A) (r : Recv) (uri : List UInt8)
    (opened : Bool) : Lockstep (SameAfter A i) (flaskRequestHandler i r uri opened e₁)
      (flaskRequestHandler i r uri opened e₂) := by
  have hc := h.alike i hi
  have hclosed : ∀ {P : Prop}, i ∈ (e₁.close i).clients → P := fun hm =>
    absurd hm (Finset.notMem_erase i _)
  cases r with
  | got data =>
    simp only [flaskRequestHandler, hc.requestIndex]
    split_ifs
    · exact .ok ⟨⟨rfl, h.close.unwatch⟩, hclosed⟩
    · exact ((receive_alike hc _).mapError _).bind fun _ _ h₁ =>
        ((processBuffer_alike h₁).mapError _).bind fun _ _ h₂ => answer_twins h h₂ uri opened
  | reset => exact .ok ⟨⟨rfl, h.close⟩, hclosed⟩
  | failed => exact answer_twins h (hc.status 500) uri opened

/-- **The same event has the same effect on both.** -/
theorem handle_twins (h : Twins A e₁ e₂) {ev : ConnectionEvent} (hev : OnSlots A ev) :
    Lockstep (TwinsAfter A) (handle ev e₁) (handle ev e₂) := by
  cases ev with
  | accept a => exact newClientHandler_twins h a
  | read i r uri opened =>
    exact (flaskRequestHandler_twins h (hev i rfl) r uri opened).mono fun _ _ _ _ hs => hs.1
  | send i s =>
    cases s with
    | sent => exact .ok ⟨rfl, h.close.unwatch⟩
    | broken => exact .ok ⟨rfl, h.close.unwatch⟩
    | failed => exact .error _
  | datagram r fresh =>
    simp only [handle, lsaEvent, h.daemon]
    exact .bind_same _ fun p _ => .ok ⟨rfl, h.udpSock, h.tcpSock, h.clients, h.nfds, rfl, h.alike⟩
  | timeout fresh =>
    simp only [handle, h.daemon]
    exact .bind_same _ fun p _ => .ok ⟨rfl, h.udpSock, h.tcpSock, h.clients, h.nfds, rfl, h.alike⟩

end Twins

/-! ### One slot -/

section Slot

variable {e e' : Engine} {i s : ℕ} {ret : ℤ}

theorem setConnection_of_ne (hs : s ≠ i) (c : TcpConnection) :
    (e.setConnection i c).connections s = e.connections s := Function.update_of_ne hs _ _

/-- An event leaves the client on `s` alone. -/
def LeavesAlone (s : ℕ) (e e' : Engine) : Prop :=
  e'.connections s = e.connections s ∧ s ∈ e'.clients

theorem leavesAlone_close (hs : s ∈ e.clients) (hi : s ≠ i) : LeavesAlone s e (e.close i) :=
  ⟨setConnection_of_ne hi _, Finset.mem_erase.mpr ⟨hi, hs⟩⟩

theorem newClientHandler_other (hs : s ∈ e.clients) {a : Accept}
    (h : newClientHandler a e = .ok (e', ret)) : LeavesAlone s e e' := by
  unfold newClientHandler at h
  split_ifs at h
  · split at h
    · cases h
      exact ⟨rfl, hs⟩
    · rename_i t ha
      split_ifs at h
      cases h
      have hst : s ≠ t := by
        rintro rfl
        exact a.unused _ _ ha (Finset.mem_insert_of_mem (Finset.mem_insert_of_mem hs))
      exact ⟨setConnection_of_ne hst _, Finset.mem_insert_of_mem hs⟩
  · cases h
    exact ⟨rfl, hs⟩

theorem answer_other (hs : s ∈ e.clients) (hi : s ≠ i) {uri : List UInt8} {opened : Bool}
    {c : TcpConnection} (h : e.answer i uri opened c = .ok (e', ret)) : LeavesAlone s e e' := by
  obtain ⟨p, -, h⟩ := bind_eq_ok.mp h
  cases h
  exact ⟨setConnection_of_ne hi _, hs⟩

theorem flaskRequestHandler_other (hs : s ∈ e.clients) (hi : s ≠ i) {r : Recv} {uri : List UInt8}
    {opened : Bool} (h : flaskRequestHandler i r uri opened e = .ok (e', ret)) : LeavesAlone s e e' := by
  cases r with
  | got data =>
    simp only [flaskRequestHandler] at h
    split_ifs at h
    · cases h
      exact leavesAlone_close hs hi
    · obtain ⟨c₁, -, h⟩ := bind_eq_ok.mp h
      obtain ⟨c₂, -, h⟩ := bind_eq_ok.mp h
      exact answer_other hs hi h
  | reset =>
    cases h
    exact leavesAlone_close hs hi
  | failed => exact answer_other hs hi h

/-- **An event that is not about an open client leaves it alone.** -/
theorem handle_other {ev : ConnectionEvent} (hev : ev.slot ≠ some s) (hs : s ∈ e.clients)
    (h : handle ev e = .ok (e', ret)) : LeavesAlone s e e' := by
  cases ev with
  | accept a => exact newClientHandler_other hs h
  | read i r uri opened => exact flaskRequestHandler_other hs (fun hi => hev (hi ▸ rfl)) h
  | send i x =>
    have hi : s ≠ i := fun hi => hev (hi ▸ rfl)
    cases x with
    | failed => cases h
    | sent => cases h; exact leavesAlone_close hs hi
    | broken => cases h; exact leavesAlone_close hs hi
  | datagram r fresh =>
    obtain ⟨p, -, h⟩ := bind_eq_ok.mp h
    cases h
    exact ⟨rfl, hs⟩
  | timeout fresh =>
    obtain ⟨p, -, h⟩ := bind_eq_ok.mp h
    cases h
    exact ⟨rfl, hs⟩

end Slot

/-! ### What a client is sent -/

/-- `flask_response_handler` sends to the client on `s`. -/
def ConnectionEvent.sendsTo (s : ℕ) : ConnectionEvent → Bool
  | .send i _ => i = s
  | _ => false

/-- What the client on `s` is sent while these events are handled, until its socket is closed: what is
handed to `send`, if anything. -/
def sentTo (s : ℕ) : List ConnectionEvent → Engine → Except Stop (Option (List UInt8))
  | [], _ => .ok none
  | ev :: evs, e =>
    if ev.sendsTo s then .ok (some (e.connections s).sent)
    else do
      let (e, _) ← handle ev e
      if s ∈ e.clients then sentTo s evs e else .ok none

/-- The client on `s` is sent to before anything was read from its socket. -/
inductive SentFirst (s : ℕ) : List ConnectionEvent → Engine → Prop
  | send (x : Send) (evs : List ConnectionEvent) (e : Engine) : SentFirst s (.send s x :: evs) e
  | other {ev : ConnectionEvent} {evs : List ConnectionEvent} {e e' : Engine} {ret : ℤ}
      (slot : ev.slot ≠ some s) (handled : handle ev e = .ok (e', ret)) (later : SentFirst s evs e') :
      SentFirst s (ev :: evs) e

section Sent

variable {A : Set ℕ} {s : ℕ} {e₁ e₂ : Engine} {ev : ConnectionEvent} {evs : List ConnectionEvent}

theorem slot_of_sendsTo (h : ev.sendsTo s = true) : ∃ x, ev = .send s x := by
  cases ev with
  | send i x =>
    obtain rfl : i = s := of_decide_eq_true h
    exact ⟨x, rfl⟩
  | _ => cases h

theorem sentTo_send (s : ℕ) (x : Send) (evs : List ConnectionEvent) (e : Engine) :
    sentTo s (.send s x :: evs) e = .ok (some (e.connections s).sent) :=
  if_pos (decide_eq_true rfl)

theorem read_or_other (h : ev.sendsTo s ≠ true) :
    (∃ r uri opened, ev = .read s r uri opened) ∨ ev.slot ≠ some s := by
  cases ev with
  | read i r uri opened =>
    by_cases hi : i = s
    · exact .inl ⟨r, uri, opened, by rw [hi]⟩
    · exact .inr fun h => hi (Option.some.inj h)
  | send i x => exact .inr fun hi => h (decide_eq_true (Option.some.inj hi))
  | _ => exact .inr fun h => by cases h

theorem sentTo_cons (hsend : ev.sendsTo s ≠ true)
    (hstep : Lockstep (SameAfter A s) (handle ev e₁) (handle ev e₂))
    (hlater : ∀ e₁' e₂' : Engine, Twins A e₁' e₂' → s ∈ e₁'.clients →
      e₁'.connections s = e₂'.connections s → sentTo s evs e₁' = sentTo s evs e₂') :
    sentTo s (ev :: evs) e₁ = sentTo s (ev :: evs) e₂ := by
  rw [sentTo, sentTo, if_neg hsend, if_neg hsend]
  refine lockstep_eq.mp (hstep.bind ?_)
  rintro ⟨e₁', ret⟩ ⟨e₂', ret'⟩ ⟨⟨-, ht⟩, hsame⟩
  dsimp only at ht hsame ⊢
  rw [lockstep_eq, ← ht.clients]
  split_ifs with hs
  · exact hlater e₁' e₂' ht hs (hsame hs)
  · rfl

/-- **From the same connection, the same is sent.** -/
theorem sentTo_eq (hs : s ∈ A) (hevs : ∀ ev ∈ evs, OnSlots A ev) (h : Twins A e₁ e₂)
    (hclient : s ∈ e₁.clients) (hsame : e₁.connections s = e₂.connections s) :
    sentTo s evs e₁ = sentTo s evs e₂ := by
  induction evs generalizing e₁ e₂ with
  | nil => rfl
  | cons ev evs ih =>
    have hev := hevs ev List.mem_cons_self
    have hlater := fun ev hm => hevs ev (List.mem_cons_of_mem _ hm)
    by_cases hsend : ev.sendsTo s = true
    · obtain ⟨x, rfl⟩ := slot_of_sendsTo hsend
      rw [sentTo_send, sentTo_send, hsame]
    · refine sentTo_cons hsend ?_ fun e₁' e₂' => ih hlater
      rcases read_or_other hsend with ⟨r, uri, opened, rfl⟩ | hslot
      · exact flaskRequestHandler_twins h hs r uri opened
      · refine (handle_twins h hev).mono fun p q hp hq ht => ⟨ht, fun _ => ?_⟩
        have hclient₂ : s ∈ e₂.clients := h.clients ▸ hclient
        rw [(handle_other hslot hclient hp).1, (handle_other hslot hclient₂ hq).1, hsame]

end Sent

/-! ### What is left on a slot -/

/-- The response has its size, and `response_index` is inside it. -/
structure Indexed (c : TcpConnection) : Prop where
  ok : ConnectionOk c
  nonneg : 0 ≤ c.responseIndex
  le : c.responseIndex ≤ maxBuf

theorem kept_indexed : Kept Indexed where
  init c h := ⟨connectionOk_init c, h.nonneg, h.le⟩
  status c n h := ⟨kept_connectionOk.status c n h.ok, h.nonneg, h.le⟩
  read c c₁ c₂ data h hne hdata h1 h2 := by
    have hindex : c₂.responseIndex = c.responseIndex :=
      (processBuffer_kept h2).2.1.trans (receive_kept h1).2.1
    exact ⟨kept_connectionOk.read c c₁ c₂ data h.ok hne hdata h1 h2, by rw [hindex]; exact h.nonneg,
      by rw [hindex]; exact h.le⟩
  build c c' d d' uri opened h hb := by
    have hc' := h.ok.buildResponse hb
    have hindex : c'.responseIndex = strlen (cstr c'.response) := by
      obtain ⟨p, -, hb⟩ := bind_eq_ok.mp hb
      cases hb
      rfl
    have hlen := strlen_cstr_le c'.response
    rw [hc'.response] at hlen
    refine ⟨hc', ?_, ?_⟩
    · rw [hindex]
      exact Int.natCast_nonneg _
    · rw [hindex]
      exact Int.ofNat_le.mpr hlen

theorem indexed_reachable {f : Files} {e : Engine} (r : (connectionSystem f).Reachable e) (i : ℕ) :
    Indexed (e.connections i) :=
  kept_indexed.reachable ⟨connectionOk_init blankConnection, le_rfl, by decide⟩ r i

theorem closed_reachable {f : Files} {e : Engine} (r : (connectionSystem f).Reachable e) :
    ∀ j, j ∉ e.clients → ∃ c, e.connections j = initConnection c := by
  refine r.invariant (I := fun e => ∀ j, j ∉ e.clients → ∃ c, e.connections j = initConnection c) ?_ ?_
  · rintro _ ⟨udpSock, tcpSock, d, -, -, -, -, rfl⟩ j -
    exact ⟨blankConnection, rfl⟩
  · rintro e l e' he ⟨hp, -, ret, h⟩ j hj
    have hclose : ∀ i, j ∉ (e.close i).clients → ∃ c, (e.close i).connections j = initConnection c := by
      intro i hj
      by_cases hji : j = i
      · exact ⟨e.connections i, by rw [hji]; exact setConnection_self e i _⟩
      · obtain ⟨c, hc⟩ := he j fun hm => hj (Finset.mem_erase.mpr ⟨hji, hm⟩)
        exact ⟨c, (setConnection_of_ne hji _).trans hc⟩
    obtain ⟨i, hstep⟩ := handle_step hp h
    generalize fate e l.1 = t at hstep
    cases hstep with
    | refused => exact he j hj
    | @admitted s room unused bound =>
      have hjs : j ≠ s := fun h => hj (h ▸ Finset.mem_insert_self _ _)
      obtain ⟨c, hc⟩ := he j fun hm => hj (Finset.mem_insert_of_mem hm)
      exact ⟨c, (setConnection_of_ne hjs _).trans hc⟩
    | answered client request =>
      have hji : j ≠ i := fun h => hj (h ▸ client)
      obtain ⟨c, hc⟩ := he j hj
      exact ⟨c, (setConnection_of_ne hji _).trans hc⟩
    | ended client => exact hclose i hj
    | reset client => exact hclose i hj
    | served client => exact hclose i hj
    | other pass => exact he j hj

theorem response_register (e : Engine) (s : ℕ) : ((e.register s).connections s).response = blankBuf := by
  rw [connections_register]
  split_ifs <;> rfl

/-- What was left on a slot tells zeroed responses apart. -/
theorem sent_eq_iff {c₁ c₂ : TcpConnection} (h₁ : Indexed c₁) (h₂ : Indexed c₂)
    (hb₁ : c₁.response = blankBuf) (hb₂ : c₂.response = blankBuf) :
    c₁.sent = c₂.sent ↔ c₁.responseIndex = c₂.responseIndex := by
  have hn₁ := h₁.nonneg
  have hn₂ := h₂.nonneg
  have hl₁ := h₁.le
  have hl₂ := h₂.le
  constructor
  · intro h
    have hlen := congrArg List.length h
    rw [TcpConnection.sent, TcpConnection.sent, List.length_take, List.length_take, hb₁, hb₂, blankBuf,
      List.length_replicate] at hlen
    omega
  · intro h
    rw [TcpConnection.sent, TcpConnection.sent, hb₁, hb₂, h]

/-! ### Two runs -/

section Sent

variable {A : Set ℕ} {s : ℕ} {e₁ e₂ : Engine} {evs : List ConnectionEvent}

theorem sentFirst_cons {ev : ConnectionEvent} (hslot : ev.slot ≠ some s) {p : Engine × ℤ}
    (h : handle ev e₁ = .ok p) : SentFirst s (ev :: evs) e₁ ↔ SentFirst s evs p.1 := by
  constructor
  · rintro (x | ⟨_, handled, later⟩)
    · exact absurd rfl hslot
    · cases h.symm.trans handled
      exact later
  · exact .other hslot h

/-- **From a zeroed response, the same is sent, unless what was left on the slot is sent first.** -/
theorem sentTo_eq_iff (hs : s ∈ A) (hevs : ∀ ev ∈ evs, OnSlots A ev) (h : Twins A e₁ e₂)
    (hclient : s ∈ e₁.clients) (h₁ : Indexed (e₁.connections s)) (h₂ : Indexed (e₂.connections s))
    (hblank : (e₁.connections s).response = blankBuf) : sentTo s evs e₁ = sentTo s evs e₂ ↔
      (SentFirst s evs e₁ → (e₁.connections s).responseIndex = (e₂.connections s).responseIndex) := by
  induction evs generalizing e₁ e₂ with
  | nil => exact iff_of_true rfl fun hf => by cases hf
  | cons ev evs ih =>
    have hev := hevs ev List.mem_cons_self
    have hlater := fun ev hm => hevs ev (List.mem_cons_of_mem _ hm)
    have halike := h.alike s hs
    by_cases hsend : ev.sendsTo s = true
    · obtain ⟨x, rfl⟩ := slot_of_sendsTo hsend
      have hfirst : SentFirst s (.send s x :: evs) e₁ := .send x evs e₁
      rw [sentTo_send, sentTo_send, Except.ok.injEq, Option.some.injEq,
        sent_eq_iff h₁ h₂ hblank (halike.response ▸ hblank)]
      exact ⟨fun h _ => h, fun h => h hfirst⟩
    rcases read_or_other hsend with ⟨r, uri, opened, rfl⟩ | hslot
    · -- whatever is sent later is a response to this client
      refine iff_of_true ?_ fun hf => ?_
      · exact sentTo_cons hsend (flaskRequestHandler_twins h hs r uri opened) fun _ _ =>
          sentTo_eq hs hlater
      · cases hf with
        | other slot => exact absurd rfl slot
    · have hstep := handle_twins h hev
      have hclient₂ : s ∈ e₂.clients := h.clients ▸ hclient
      rw [sentTo, sentTo, if_neg hsend, if_neg hsend]
      cases hx : handle ev e₁ with
      | error x =>
        rw [hstep.of_eq_error hx]
        refine iff_of_true rfl fun hf => ?_
        cases hf with
        | send x => exact absurd rfl hslot
        | other _ handled => cases hx.symm.trans handled
      | ok p =>
        obtain ⟨q, hq, -, ht⟩ := hstep.of_eq_ok hx
        obtain ⟨hc₁, hm₁⟩ := handle_other hslot hclient hx
        obtain ⟨hc₂, hm₂⟩ := handle_other hslot hclient₂ hq
        rw [hq, ok_bind, ok_bind, sentFirst_cons hslot hx]
        simp only [if_pos hm₁, if_pos hm₂]
        rw [ih hlater ht hm₁ (hc₁ ▸ h₁) (hc₂ ▸ h₂) (hc₁ ▸ hblank), hc₁, hc₂]

end Sent

/-- The engines show the same: the daemon's tables, the open descriptors and the counter. -/
structure SameView (e₁ e₂ : Engine) : Prop where
  udpSock : e₁.udpSock = e₂.udpSock
  tcpSock : e₁.tcpSock = e₂.tcpSock
  clients : e₁.clients = e₂.clients
  nfds : e₁.nfds = e₂.nfds
  daemon : e₁.daemon = e₂.daemon

/-- The event is not about a client that was already there and had other requests or responses. -/
def Shared (e₁ e₂ : Engine) (ev : ConnectionEvent) : Prop :=
  ∀ i ∈ ev.slot, i ∈ e₁.clients → Alike (e₁.connections i) (e₂.connections i)

/-- Reachable engines that show the same are alike on every slot that is not in use. -/
theorem SameView.twins {f₁ f₂ : Files} {e₁ e₂ : Engine} (r₁ : (connectionSystem f₁).Reachable e₁)
    (r₂ : (connectionSystem f₂).Reachable e₂) (h : SameView e₁ e₂) :
    Twins {j | j ∈ e₁.clients → Alike (e₁.connections j) (e₂.connections j)} e₁ e₂ := by
  refine ⟨h.udpSock, h.tcpSock, h.clients, h.nfds, h.daemon, fun j hj => ?_⟩
  by_cases hclient : j ∈ e₁.clients
  · exact hj hclient
  · obtain ⟨c₁, h₁⟩ := closed_reachable r₁ j hclient
    obtain ⟨c₂, h₂⟩ := closed_reachable r₂ j (h.clients ▸ hclient)
    rw [h₁, h₂]
    exact alike_init c₁ c₂

theorem accepted_eq {e e' : Engine} {a : Accept} {s : ℕ} (ha : a.answer e.sockets = some s)
    (h : newClientHandler a e = .ok (e', 1)) : e' = e.register s := by
  unfold newClientHandler at h
  rw [ha] at h
  dsimp only at h
  split_ifs at h
  · cases h
    rfl
  · cases h

/-- **A new client is sent the same in both runs, exactly if it is not sent to before its first request is
answered, or the earlier clients on its slot left the same `response_index`.** -/
theorem new_client_sent_iff {f₁ f₂ : Files} {e₁ e₂ : Engine} (r₁ : (connectionSystem f₁).Reachable e₁)
    (r₂ : (connectionSystem f₂).Reachable e₂) (hview : SameView e₁ e₂) {a : Accept} {s : ℕ}
    (ha : a.answer e₁.sockets = some s) {e₁' : Engine} (h₁ : newClientHandler a e₁ = .ok (e₁', 1))
    (evs : List ConnectionEvent) (hevs : ∀ ev ∈ evs, Shared e₁ e₂ ev) :
    ∃ e₂', newClientHandler a e₂ = .ok (e₂', 1) ∧ (sentTo s evs e₁' = sentTo s evs e₂' ↔
      (SentFirst s evs e₁' → (e₁.connections s).responseIndex = (e₂.connections s).responseIndex)) := by
  have htwins := hview.twins r₁ r₂
  have hs : s ∉ e₁.clients := fun hm =>
    a.unused _ _ ha (Finset.mem_insert_of_mem (Finset.mem_insert_of_mem hm))
  have ha₂ : a.answer e₂.sockets = some s := htwins.sockets ▸ ha
  obtain ⟨⟨e₂', ret⟩, h₂, hret, -⟩ := (newClientHandler_twins htwins a).of_eq_ok h₁
  obtain rfl : 1 = ret := hret
  obtain rfl := accepted_eq ha h₁
  obtain rfl := accepted_eq ha₂ h₂
  refine ⟨_, h₂, ?_⟩
  have r₁' := reachable_handle (.accept a) r₁ trivial h₁
  have r₂' := reachable_handle (.accept a) r₂ trivial h₂
  rw [← index_register e₁ s, ← index_register e₂ s]
  exact sentTo_eq_iff (Set.mem_insert s _) (fun ev hev i hi => Set.mem_insert_of_mem _ (hevs ev hev i hi))
    (htwins.register s) (Finset.mem_insert_self _ _) (indexed_reachable r₁' s) (indexed_reachable r₂' s)
    (response_register e₁ s)

/-! ### A client that is put off -/

theorem exists_served : ∃ d k e, boot loneFiles = .ok d ∧ 0 < k ∧
    (connectionSystem loneFiles).Reachable e ∧ Idle d 6 k e := by
  have key : (firstRequest (ascii " ")).map (fun p => decide (p.2.status = 500)) = .ok true := by
    decide +kernel
  obtain ⟨⟨d, c⟩, h, hk⟩ := exists_of_map_eq_ok key
  have hst : c.status ≠ 200 := by
    rw [of_decide_eq_true hk]
    decide
  obtain ⟨d', hd, hfirst⟩ := bind_eq_ok.mp h
  obtain rfl : d' = d := by
    obtain ⟨_, -, hfirst⟩ := bind_eq_ok.mp hfirst
    obtain ⟨_, -, hfirst⟩ := bind_eq_ok.mp hfirst
    cases hfirst
    rfl
  obtain ⟨r, hp⟩ := firstRequest_eq_ok (by decide) (by decide) h
  obtain ⟨e₁, ret, hread, hdaemon, hsent⟩ := hp.refused (hp.connectionOk (connectionsOk_reachable r)) hst
    (show blankBuf.length = bufSize from List.length_replicate ..) true
  obtain ⟨rfl, d₁, c₁, -, rfl⟩ := hp.handler_iff.mp hread
  have r₁ := reachable_handle (.read 0 (.got (ascii " ")) blankBuf true) r (Finset.mem_insert_self _ _) hread
  rw [setConnection_self] at hsent
  have hpos : 0 < c₁.responseIndex := by
    by_contra hk
    rw [TcpConnection.sent, Int.toNat_eq_zero.mpr (not_lt.mp hk), List.take_zero] at hsent
    exact absurd hsent (by decide)
  have hindex₁ : 1 ≤ ((((createEngine 3 4 d').register 0).setConnection 0 c₁).connections 0).responseIndex := by
    rw [setConnection_self]
    exact hpos
  have r₂ := reachable_handle (.send 0 .sent) r₁ ⟨Finset.mem_insert_self _ _, fun _ => hindex₁⟩ rfl
  have hclosed : (((((createEngine 3 4 d').register 0).setConnection 0 c₁).close 0).connections 0) =
      initConnection c₁ := by
    rw [Engine.close, setConnection_self, setConnection_self]
  have hindex := congrArg TcpConnection.responseIndex hclosed
  exact ⟨d', c₁.responseIndex, _, hd, hpos, r₂, ⟨rfl, rfl, rfl, hdaemon, rfl, hindex⟩⟩

theorem Idle.sameView {d : Daemon} {n k k' : ℤ} {e₁ e₂ : Engine} (h₁ : Idle d n k e₁) (h₂ : Idle d n k' e₂) :
    SameView e₁ e₂ where
  udpSock := h₁.udpSock.trans h₂.udpSock.symm
  tcpSock := h₁.tcpSock.trans h₂.tcpSock.symm
  clients := h₁.clients.trans h₂.clients.symm
  nfds := h₁.nfds.trans h₂.nfds.symm
  daemon := h₁.daemon.trans h₂.daemon.symm

theorem exists_two_runs (m : ℕ) (hm : (6 : ℤ) + m ≤ maxConnections) : ∃ d k e₁ e₂, 0 < k ∧
    (connectionSystem loneFiles).Reachable e₁ ∧ (connectionSystem loneFiles).Reachable e₂ ∧
    Idle d (6 + m) 0 e₁ ∧ Idle d (6 + m) k e₂ := by
  obtain ⟨d, k, e, hd, hk, r, h⟩ := exists_served
  obtain ⟨e₂, r₂, h₂⟩ := Idle.leave_all r h m hm
  obtain ⟨e, r, h⟩ := Idle.leave (.init (init_loneFiles hd)) (idle_init d) (by decide)
  obtain ⟨e₁, r₁, h₁⟩ := Idle.leave_all r h m hm
  exact ⟨d, k, e₁, e₂, hk, r₁, r₂, h₁, h₂⟩

/-- A request that is read first is answered with the same bytes, whatever was left on the slot. -/
theorem new_client_sent_iff_rdget : ∃ e₁ e₂ e₁' e₂',
    (e₁.connections 0).responseIndex ≠ (e₂.connections 0).responseIndex ∧
    newClientHandler lowest e₁ = .ok (e₁', 1) ∧ newClientHandler lowest e₂ = .ok (e₂', 1) ∧
    sentTo 0 [.read 0 (.got (ascii "RDGET 1 a")) blankBuf true, .send 0 .sent] e₁' =
      sentTo 0 [.read 0 (.got (ascii "RDGET 1 a")) blankBuf true, .send 0 .sent] e₂' := by
  obtain ⟨d, k, e₁, e₂, hk, r₁, r₂, h₁, h₂⟩ := exists_two_runs 0 (by decide)
  have hanswer : lowest.answer e₁.sockets = some 0 := by rw [h₁.sockets, lowest_answer]
  have haccept := h₁.accept (by decide)
  obtain ⟨e₂', haccept', hiff⟩ := new_client_sent_iff r₁ r₂ (h₁.sameView h₂) hanswer haccept
    [.read 0 (.got (ascii "RDGET 1 a")) blankBuf true, .send 0 .sent] fun ev _ i _ hclient => by
      rw [h₁.clients] at hclient
      cases hclient
  refine ⟨e₁, e₂, _, e₂', ?_, haccept, haccept', hiff.mpr fun hf => ?_⟩
  · rw [h₁.index, h₂.index]
    exact hk.ne
  · cases hf with
    | other slot => exact absurd rfl slot

/-- **The last client for whom there is room is sent as many bytes as an earlier one.** -/
theorem exists_leftover : ∃ e₁ e₂ e₁' e₂' n, (connectionSystem loneFiles).Reachable e₁ ∧
    (connectionSystem loneFiles).Reachable e₂ ∧ SameView e₁ e₂ ∧ lowest.answer e₁.sockets = some 0 ∧
    newClientHandler lowest e₁ = .ok (e₁', 1) ∧ newClientHandler lowest e₂ = .ok (e₂', 1) ∧
    0 ∈ e₁'.wfds ∧ 0 ∈ e₂'.wfds ∧ (e₁'.connections 0).status = 503 ∧ 0 < n ∧
    sentTo 0 [.send 0 .sent] e₁' = .ok (some []) ∧
    sentTo 0 [.send 0 .sent] e₂' = .ok (some (List.replicate n 0)) := by
  obtain ⟨d, k, e₁, e₂, hk, r₁, r₂, h₁, h₂⟩ := exists_two_runs 1016 (by decide)
  have hlast : ∀ {k e}, Idle d (6 + (1016 : ℕ)) k e → e.isLast = true := fun h => by
    rw [Engine.isLast, h.nfds]
    decide
  have hwfds : ∀ {k e}, Idle d (6 + (1016 : ℕ)) k e → 0 ∈ (e.register 0).wfds := fun {k e} h => by
    show 0 ∈ if e.isLast then insert 0 e.wfds else e.wfds
    rw [if_pos (hlast h)]
    exact Finset.mem_insert_self _ _
  have hsent : ∀ {k e}, (connectionSystem loneFiles).Reachable e → Idle d (6 + (1016 : ℕ)) k e →
      sentTo 0 [.send 0 .sent] (e.register 0) = .ok (some (List.replicate k.toNat 0)) := by
    intro k e r h
    have hle := (indexed_reachable r 0).le
    rw [h.index] at hle
    rw [sentTo_send, TcpConnection.sent, index_register, h.index, response_register, blankBuf,
      List.take_replicate, min_eq_left (Int.toNat_le.mpr hle)]
  refine ⟨e₁, e₂, _, _, k.toNat, r₁, r₂, h₁.sameView h₂, by rw [h₁.sockets, lowest_answer],
    h₁.accept (by decide), h₂.accept (by decide), hwfds h₁, hwfds h₂, ?_, Int.pos_iff_toNat_pos.mp hk,
    hsent r₁ h₁, hsent r₂ h₂⟩
  rw [connections_register, if_pos (hlast h₁)]

end RoutingDaemon
