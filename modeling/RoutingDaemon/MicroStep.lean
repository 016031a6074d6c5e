import RoutingDaemon.AddFile

/-!
# Small steps of a daemon

The loops of the engine, unrolled. `Tick` lists the changes that a pass can make after a timeout,
one entry (or one neighbour) at a time, and `Micro` all changes; `timeout_trail` and `act_trail` show
that every pass of the event loop is a trail of them, emitting the same effects. An invariant of all
runs is then proved by one case per constructor. `OnwardTick` adds where a packet may go, and `Retry`
lists the changes of a retransmission round, with the entry and the link of every packet.
-/

namespace RoutingDaemon

/-- Link `i` has the entry at index `m`. -/
structure LinkAt (d : Daemon) (l : LinkEntry) (i m : ℕ) (e : RoutingEntry) : Prop where
  link : (l, i) ∈ d.dl.neighbours
  lookup : getRoutingEntry d.rt l.id = some m
  entry : d.rt.table[m]? = some e

/-- The LSA stored in entry `slot` can go to link `i`, which is not down; its ACK is noted in
entry `k`. -/
structure Sendable (d : Daemon) (slot k i : ℕ) (l : LinkEntry) (s : RoutingEntry) (lsa : LSA) :
    Prop where
  entry : d.rt.table[slot]? = some s
  stored : s.lsa = some lsa
  checkers : getRoutingEntry d.rt lsa.senderNodeId = some k
  alive : ∃ m e, LinkAt d l i m e ∧ e.nodeStatus ≠ statusDown

/-- The small steps of a pass that times out. -/
inductive Tick : Daemon → List Effect → Daemon → Prop
  /-- `flood` stores a new own LSA -/
  | own {d : Daemon} {fresh : Fresh} {lsa : LSA} {size k : ℕ} {rt : RoutingTable} {seq : Int32}
      (packet : createPacket fresh typeLsa d.myNodeId d.sequenceNumber d.dl d.ol = .ok (lsa, size))
      (entry : getRoutingEntry d.rt d.myNodeId = some k)
      (update : updateEntry fresh (some k) d.rt d.dl lsa size d.myNodeId = .ok rt)
      (count : nextSequence d.sequenceNumber = .ok seq) :
      Tick d [] { d with rt := rt, sequenceNumber := seq }
  /-- `flood` or `flood_received_lsa` sends to one link -/
  | send {d : Daemon} {slot k i : ℕ} {l : LinkEntry} {s : RoutingEntry} {lsa : LSA}
      (ok : Sendable d slot k i l s lsa) :
      Tick d [rtSendto lsa l s.lsaSize] { d with rt := modifyChecker d.rt k i AckChecker.expect }
  /-- `retransmit_missing` sends again -/
  | resend {d : Daemon} {slot k i : ℕ} {l : LinkEntry} {s : RoutingEntry} {lsa : LSA}
      {c : AckChecker} (ok : Sendable d slot k i l s lsa) (checker : getChecker d.rt k i = .ok c)
      (pending : c.ackReceived = .notReceived) (budget : c.retransmit < retransmitTime - 1) :
      Tick d [rtSendto lsa l s.lsaSize]
        { d with rt := modifyChecker d.rt k i fun a => { a with retransmit := a.retransmit + 1 } }
  /-- `retransmit_missing` gives a neighbour up -/
  | giveUp {d : Daemon} {k i m : ℕ} {l : LinkEntry} {e : RoutingEntry} {c : AckChecker}
      (link : LinkAt d l i m e) (checker : getChecker d.rt k i = .ok c)
      (pending : c.ackReceived = .notReceived) (budget : retransmitTime - 1 ≤ c.retransmit) :
      Tick d [.giveUp e.id]
        { d with
          rt := modifyChecker (d.rt.modify m RoutingEntry.discard) k i
            fun a => { a with ackReceived := .received }
          gol := hashRemoveNode superFastHash d.gol e.id }
  /-- the flood tick counts a status down -/
  | age {d : Daemon} {i : ℕ} {e : RoutingEntry} (pos : 1 ≤ i) (entry : d.rt.table[i]? = some e)
      (up : e.nodeStatus ≠ statusDown) (more : e.nodeStatus - 1 ≠ statusDown) :
      Tick d [] { d with rt := d.rt.modify i fun e' => { e' with nodeStatus := e.nodeStatus - 1 } }
  /-- the flood tick counts a status down to `STATUS_DOWN` -/
  | expire {d : Daemon} {i : ℕ} {e : RoutingEntry} (pos : 1 ≤ i) (entry : d.rt.table[i]? = some e)
      (last : e.nodeStatus - 1 = statusDown) :
      Tick d [.expire e.id]
        { d with
          rt := d.rt.modify i RoutingEntry.discard
          gol := hashRemoveNode superFastHash d.gol e.id }
  /-- the pass counter moves on -/
  | clock {d : Daemon} {n : ℤ} : Tick d [] { d with iterations := n }

/-- What is sent is a stored LSA, to a link that is not down and from which it was not stored; an LSA
stored by `flood` goes to every link. -/
def Onward (d : Daemon) (out : List Effect) : Prop :=
  ∀ host port bytes, .sendto host port bytes ∈ out → ∃ slot k i l s lsa,
    Sendable d slot k i l s lsa ∧ .sendto host port bytes = rtSendto lsa l s.lsaSize ∧
      (l.id = s.forwarderId → s.forwarderId = d.myNodeId)

/-- A small step, with the recipients of what it sends. -/
def OnwardTick (d : Daemon) (out : List Effect) (d' : Daemon) : Prop := Tick d out d' ∧ Onward d out

/-- The small steps of `retransmit_missing`. A packet is marked with the index of the entry that stores
it and that of the link. -/
inductive Retry (d : Daemon) : List (Option (ℕ × ℕ) × Effect) → Daemon → Prop
  /-- it sends again -/
  | resend {slot k i : ℕ} {l : LinkEntry} {s : RoutingEntry} {lsa : LSA} {c : AckChecker}
      (ok : Sendable d slot k i l s lsa) (other : l.id ≠ s.forwarderId)
      (checker : getChecker d.rt k i = .ok c) (pending : c.ackReceived = .notReceived)
      (budget : c.retransmit < retransmitTime - 1) :
      Retry d [(some (slot, i), rtSendto lsa l s.lsaSize)]
        { d with rt := modifyChecker d.rt k i fun a => { a with retransmit := a.retransmit + 1 } }
  /-- it gives a neighbour up -/
  | giveUp {k i m : ℕ} {l : LinkEntry} {e : RoutingEntry} {c : AckChecker} (link : LinkAt d l i m e)
      (checker : getChecker d.rt k i = .ok c) (pending : c.ackReceived = .notReceived)
      (budget : retransmitTime - 1 ≤ c.retransmit) :
      Retry d [(none, .giveUp e.id)]
        { d with
          rt := modifyChecker (d.rt.modify m RoutingEntry.discard) k i
            fun a => { a with ackReceived := .received }
          gol := hashRemoveNode superFastHash d.gol e.id }

/-- What `lsa_handler` does with a packet from neighbour `f`. -/
inductive Handled (d : Daemon) (fresh : Fresh) (lsa : LSA) (f : Int32) (size : ℕ) :
    List Effect → Daemon → Prop
  /-- it returns early, or the type is neither LSA nor ACK -/
  | ignored (why : filtered d.rt (getRoutingEntry d.rt lsa.senderNodeId) (getType lsa.versionTtlType)
      lsa.sequenceNum = true ∨ getType lsa.versionTtlType ≠ typeLsa ∧
        getType lsa.versionTtlType ≠ typeAck) : Handled d fresh lsa f size [] d
  /-- it accepts an LSA -/
  | accepted {src : LinkEntry} {rt : RoutingTable} {gol : LisoHash}
      (type : getType lsa.versionTtlType = typeLsa)
      (newer : filtered d.rt (getRoutingEntry d.rt lsa.senderNodeId) typeLsa lsa.sequenceNum = false)
      (link : lookupLinkEntryNodeId d.dl f = some src)
      (update : updateEntry fresh (getRoutingEntry d.rt lsa.senderNodeId) d.rt d.dl (acceptedLsa lsa)
        size f = .ok rt)
      (objects : storeNodeObjects (hashAdd superFastHash) d.gol (acceptedLsa lsa) = .ok gol) :
      Handled d fresh lsa f size
        [rtSendto { lsa with versionTtlType := setType lsa.versionTtlType typeAck } src size,
          .accept lsa.senderNodeId lsa.sequenceNum]
        { d with rt := rt, gol := gol }
  /-- it credits an ACK -/
  | credited {rt : RoutingTable} (type : getType lsa.versionTtlType = typeAck)
      (current : filtered d.rt (getRoutingEntry d.rt lsa.senderNodeId) typeAck lsa.sequenceNum = false)
      (update : creditAck d.rt (getRoutingEntry d.rt lsa.senderNodeId) f = .ok rt) :
      Handled d fresh lsa f size [] { d with rt := rt }

/-- The small steps of a daemon. -/
inductive Micro : Daemon → List Effect → Daemon → Prop
  /-- a pass that times out -/
  | tick {d d' : Daemon} {out : List Effect} (h : Tick d out d') : Micro d out d'
  /-- a pass that reads a datagram -/
  | receive {d d' : Daemon} {fresh : Fresh} {r : Received} {lsa : LSA} {f : Int32} {size : ℕ}
      {out : List Effect} (recv : rtRecvfrom d.dl r = .ok (some (lsa, f, size)))
      (h : Handled d fresh lsa f size out d') : Micro d out d'
  /-- an ADDFILE adds an object -/
  | add {d : Daemon} {name : CString} {gol : LisoHash} {ol : LocalObjects} {file : List UInt8}
      (objects : hashAdd superFastHash d.gol name d.myNodeId 0 = .ok gol) :
      Micro d [] { d with gol := gol, ol := ol, filefile := file }

/-! ### Loops over links -/

theorem getChecker_eq_ok {rt : RoutingTable} {k i : ℕ} {a : AckChecker} :
    getChecker rt k i = .ok a ↔
      ∃ e c, rt.table[k]? = some e ∧ e.checkersList = some c ∧ c.checkers[i]? = some a := by
  simp only [getChecker, bind_eq_ok, deref_eq_ok]
  constructor
  · rintro ⟨e, he, c, hc, h⟩
    refine ⟨e, c, he, hc, ?_⟩
    cases hi : c.checkers[i]? <;> simp_all
  · rintro ⟨e, c, he, hc, h⟩
    exact ⟨e, he, c, hc, by rw [h]⟩

theorem linkStatus_eq_ok {rt : RoutingTable} {id : Int32} {s : ℤ} :
    linkStatus rt id = .ok s ↔
      ∃ m e, getRoutingEntry rt id = some m ∧ rt.table[m]? = some e ∧ e.nodeStatus = s := by
  simp only [linkStatus, bind_eq_ok, deref_eq_ok, pure_eq_ok, Except.ok.injEq]
  constructor
  · rintro ⟨m, hm, e, he, rfl⟩; exact ⟨m, e, hm, he, rfl⟩
  · rintro ⟨m, e, hm, he, rfl⟩; exact ⟨m, hm, e, he, rfl⟩

@[simp] theorem getRoutingEntry_modifyChecker {rt : RoutingTable} {k i : ℕ}
    {g : AckChecker → AckChecker} (id : Int32) :
    getRoutingEntry (modifyChecker rt k i g) id = getRoutingEntry rt id :=
  getRoutingEntry_modify (f := RoutingEntry.modifyChecker i g) (fun _ => rfl) id

theorem Onward.single {d : Daemon} {slot k i : ℕ} {l : LinkEntry} {s : RoutingEntry} {lsa : LSA}
    (ok : Sendable d slot k i l s lsa) (hf : l.id = s.forwarderId → s.forwarderId = d.myNodeId) :
    Onward d [rtSendto lsa l s.lsaSize] := by
  intro host port bytes hm
  exact ⟨slot, k, i, l, s, lsa, ok, List.mem_singleton.mp hm, hf⟩

theorem Onward.of_silent {d : Daemon} {out : List Effect}
    (h : ∀ host port bytes, .sendto host port bytes ∉ out) : Onward d out :=
  fun host port bytes hm => absurd hm (h host port bytes)

theorem Retry.onwardTick {d d' : Daemon} {ms : List (Option (ℕ × ℕ) × Effect)}
    (h : Retry d ms d') : OnwardTick d (ms.map Prod.snd) d' := by
  cases h with
  | resend ok other checker pending budget =>
    exact ⟨.resend ok checker pending budget, .single ok fun e => absurd e other⟩
  | giveUp link checker pending budget =>
    exact ⟨.giveUp link checker pending budget, .of_silent (by simp)⟩

/-- The send loop passes a link over, or sends to it. -/
theorem floodLinks_cons {k : ℕ} {lsa : LSA} {size : ℕ} {skip : Int32 → Bool} {p : LinkEntry × ℕ}
    {ls : List (LinkEntry × ℕ)} {rt rt' : RoutingTable} {out : List Effect}
    (h : floodLinks k lsa size skip (p :: ls) rt = .ok (rt', out)) :
    ((skip p.1.id = true ∨ linkStatus rt p.1.id = .ok statusDown) ∧
      floodLinks k lsa size skip ls rt = .ok (rt', out)) ∨
    ∃ s c out₁, skip p.1.id = false ∧ linkStatus rt p.1.id = .ok s ∧ s ≠ statusDown ∧
      getChecker rt k p.2 = .ok c ∧
      floodLinks k lsa size skip ls (modifyChecker rt k p.2 AckChecker.expect) = .ok (rt', out₁) ∧
      out = rtSendto lsa p.1 size :: out₁ := by
  obtain ⟨l, i⟩ := p
  simp only [floodLinks] at h
  split_ifs at h with hskip
  · exact .inl ⟨.inl hskip, h⟩
  obtain ⟨s, hs, h⟩ := bind_eq_ok.mp h
  split_ifs at h with hdown
  · exact .inl ⟨.inr (hdown ▸ hs), h⟩
  obtain ⟨c, hc, h⟩ := bind_eq_ok.mp h
  obtain ⟨⟨rt₁, out₁⟩, h1, h⟩ := bind_eq_ok.mp h
  cases h
  exact .inr ⟨s, c, out₁, Bool.eq_false_of_not_eq_true hskip, hs, hdown, hc, h1, rfl⟩

theorem floodLinks_bare {k : ℕ} {lsa : LSA} {size : ℕ} {skip : Int32 → Bool}
    {ls : List (LinkEntry × ℕ)} {rt rt' : RoutingTable} {out : List Effect}
    (h : floodLinks k lsa size skip ls rt = .ok (rt', out)) :
    rt'.table.map RoutingEntry.bare = rt.table.map RoutingEntry.bare := by
  induction ls generalizing rt out with
  | nil =>
    cases h
    rfl
  | cons p ls ih =>
    rcases floodLinks_cons h with ⟨-, h⟩ | ⟨_, _, _, -, -, -, -, h1, -⟩
    · exact ih h
    · rw [ih h1, map_bare_modifyChecker]

theorem floodLinks_trail {d : Daemon} {slot k : ℕ} {lsa : LSA} {size : ℕ} {skip : Int32 → Bool}
    {ls : List (LinkEntry × ℕ)} {rt rt' : RoutingTable} {out : List Effect}
    (hls : ∀ p ∈ ls, p ∈ d.dl.neighbours) (hk : getRoutingEntry rt lsa.senderNodeId = some k)
    (hs : ∃ s, rt.table[slot]? = some s ∧ s.lsa = some lsa ∧ s.lsaSize = size ∧
      ∀ p ∈ ls, skip p.1.id = false → p.1.id = s.forwarderId → s.forwarderId = d.myNodeId)
    (h : floodLinks k lsa size skip ls rt = .ok (rt', out)) :
    Trail OnwardTick { d with rt := rt } out { d with rt := rt' } := by
  induction ls generalizing rt out with
  | nil =>
    simp only [floodLinks, Except.ok.injEq, Prod.mk.injEq] at h
    obtain ⟨rfl, rfl⟩ := h
    exact .refl _
  | cons p ls ih =>
    have hls' : ∀ p ∈ ls, p ∈ d.dl.neighbours := fun p hp => hls p (List.mem_cons_of_mem _ hp)
    obtain ⟨s, hs0, hs1, rfl, hf⟩ := hs
    have hf' : ∀ p ∈ ls, skip p.1.id = false → p.1.id = s.forwarderId →
        s.forwarderId = d.myNodeId := fun p hp => hf p (List.mem_cons_of_mem _ hp)
    rcases floodLinks_cons h with ⟨-, h⟩ | ⟨st, c, out₁, hskip, hst, hup, -, h1, rfl⟩
    · exact ih hls' hk ⟨s, hs0, hs1, rfl, hf'⟩ h
    · obtain ⟨m, e, hm, he, rfl⟩ := linkStatus_eq_ok.mp hst
      have ok : Sendable { d with rt := rt } slot k p.2 p.1 s lsa :=
        ⟨hs0, hs1, hk, m, e, ⟨hls _ List.mem_cons_self, hm, he⟩, hup⟩
      have step : OnwardTick { d with rt := rt } [rtSendto lsa p.1 s.lsaSize]
          { d with rt := modifyChecker rt k p.2 AckChecker.expect } :=
        ⟨.send ok, .single ok (hf _ List.mem_cons_self hskip)⟩
      refine (Trail.single step).trans (ih hls' (by simpa using hk) ?_ h1)
      obtain ⟨s', hs', hb⟩ := getElem?_of_bare (map_bare_modifyChecker p.2 AckChecker.expect) hs0
      obtain ⟨_, _, _, _, hl, hz, _, hfw⟩ := bare_eq_iff.mp hb
      exact ⟨s', hs', hl.trans hs1, hz, by rw [hfw]; exact hf'⟩

theorem floodReceivedLsa_trail {d : Daemon} {slot : ℕ} {s : RoutingEntry} {lsa : LSA}
    {rt' : RoutingTable} {out : List Effect} (hs : d.rt.table[slot]? = some s)
    (hl : s.lsa = some lsa)
    (h : floodReceivedLsa lsa d.dl d.rt s.lsaSize s.forwarderId = .ok (rt', out)) :
    Trail OnwardTick d out { d with rt := rt' } := by
  obtain ⟨k, hk, h⟩ := bind_eq_ok.mp h
  refine floodLinks_trail (fun _ hp => hp) (deref_eq_ok.mp hk) ⟨s, hs, hl, rfl, ?_⟩ h
  intro p _ hskip hf
  rw [hf, beq_self_eq_true] at hskip
  cases hskip

/-! ### The flood tick -/

theorem forwardEntry_bare {dl : DirectLinks} {rt rt' : RoutingTable} {entry : RoutingEntry}
    {out : List Effect} (h : forwardEntry dl rt entry = .ok (rt', out)) :
    rt'.table.map RoutingEntry.bare = rt.table.map RoutingEntry.bare := by
  unfold forwardEntry at h
  split_ifs at h
  · obtain ⟨lsa, -, h⟩ := bind_eq_ok.mp h
    obtain ⟨k, -, h⟩ := bind_eq_ok.mp h
    exact floodLinks_bare h
  · cases h
    rfl

theorem tickEntry_trail {d : Daemon} {i : ℕ} {rt' : RoutingTable} {gol' : LisoHash}
    {out : List Effect} (hi : 1 ≤ i) (h : tickEntry d.dl i d.rt d.gol = .ok (rt', gol', out)) :
    Trail OnwardTick d out { d with rt := rt', gol := gol' } := by
  obtain ⟨e, he, h⟩ := bind_eq_ok.mp h
  rw [deref_eq_ok] at he
  obtain ⟨⟨rt₁, out₁⟩, h1, h⟩ := bind_eq_ok.mp h
  have hb := forwardEntry_bare h1
  have tr : Trail OnwardTick d out₁ { d with rt := rt₁ } := by
    unfold forwardEntry at h1
    split_ifs at h1
    · obtain ⟨lsa, hl, h1⟩ := bind_eq_ok.mp h1
      exact floodReceivedLsa_trail he (deref_eq_ok.mp hl) h1
    · cases h1
      exact .refl _
  obtain ⟨e', he', hbe⟩ := getElem?_of_bare hb he
  obtain ⟨hid, _, _, hst, _⟩ := bare_eq_iff.mp hbe
  dsimp only at h
  split_ifs at h with h0 hlast
  · simp only [Except.ok.injEq, Prod.mk.injEq] at h
    obtain ⟨rfl, rfl, rfl⟩ := h
    exact tr
  · simp only [Except.ok.injEq, Prod.mk.injEq] at h
    obtain ⟨rfl, rfl, rfl⟩ := h
    rw [← hid]
    exact tr.tail ⟨.expire (d := { d with rt := rt₁ }) hi he' (by rw [hst]; exact hlast),
      .of_silent (by simp)⟩
  · simp only [Except.ok.injEq, Prod.mk.injEq] at h
    obtain ⟨rfl, rfl, rfl⟩ := h
    have step := Tick.age (d := { d with rt := rt₁ }) hi he' (by rw [hst]; exact h0)
      (by rw [hst]; exact hlast)
    rw [hst] at step
    simpa using tr.tail ⟨step, .of_silent (by simp)⟩

theorem tickEntries_trail {d : Daemon} {is : List ℕ} {rt' : RoutingTable} {gol' : LisoHash}
    {out : List Effect} (hi : ∀ i ∈ is, 1 ≤ i)
    (h : tickEntries d.dl is d.rt d.gol = .ok (rt', gol', out)) :
    Trail OnwardTick d out { d with rt := rt', gol := gol' } := by
  induction is generalizing d out with
  | nil =>
    simp only [tickEntries, Except.ok.injEq, Prod.mk.injEq] at h
    obtain ⟨rfl, rfl, rfl⟩ := h
    exact .refl _
  | cons i is ih =>
    obtain ⟨⟨rt₁, gol₁, out₁⟩, h1, h⟩ := bind_eq_ok.mp h
    obtain ⟨⟨rt₂, gol₂, out₂⟩, h2, h⟩ := bind_eq_ok.mp h
    simp only [Except.ok.injEq, Prod.mk.injEq] at h
    obtain ⟨rfl, rfl, rfl⟩ := h
    have t1 := tickEntry_trail (hi i List.mem_cons_self) h1
    exact t1.trans (ih (d := { d with rt := rt₁, gol := gol₁ })
      (fun j hj => hi j (List.mem_cons_of_mem _ hj)) h2)

theorem flood_trail {d : Daemon} {fresh : Fresh} {rt : RoutingTable} {seq : Int32}
    {out : List Effect}
    (h : flood fresh typeLsa d.dl d.ol d.rt d.myNodeId d.sequenceNumber = .ok (rt, out))
    (hseq : nextSequence d.sequenceNumber = .ok seq) :
    Trail OnwardTick d out { d with rt := rt, sequenceNumber := seq } := by
  obtain ⟨⟨lsa, size⟩, hp, h⟩ := bind_eq_ok.mp h
  obtain ⟨rt₀, hu, h⟩ := bind_eq_ok.mp h
  obtain ⟨k, hk, h⟩ := bind_eq_ok.mp h
  rw [deref_eq_ok] at hk
  rw [hk] at hu
  have own : OnwardTick d [] _ := ⟨.own hp hk hu hseq, .of_silent (by simp)⟩
  obtain ⟨hw, hid, _, _⟩ := createPacket_lsa hp
  rw [updateEntry_some (by rw [hw]; rfl), Except.ok.injEq] at hu
  obtain ⟨e, he, _⟩ := getRoutingEntry_eq_some hk
  have hk' : getRoutingEntry rt₀ lsa.senderNodeId = some k := by
    rw [hid, ← hu, ← hk]
    exact getRoutingEntry_modify (by exact fun _ => rfl) _
  have hs : ∃ s, rt₀.table[k]? = some s ∧ s.lsa = some lsa ∧ s.lsaSize = size ∧
      ∀ p ∈ d.dl.neighbours, (fun _ : Int32 => false) p.1.id = false → p.1.id = s.forwarderId →
        s.forwarderId = d.myNodeId := by
    rw [← hu, getElem?_modify, he, Option.map_some, if_pos rfl]
    exact ⟨_, rfl, rfl, rfl, fun _ _ _ _ => rfl⟩
  have send := floodLinks_trail (d := { d with sequenceNumber := seq }) (fun _ hp => hp) hk' hs h
  simpa using (Trail.single own).trans send

theorem floodTick_trail {d d' : Daemon} {fresh : Fresh} {out : List Effect}
    (h : floodTick fresh d = .ok (d', out)) : Trail OnwardTick d out d' := by
  obtain ⟨⟨rt₁, out₁⟩, h1, h⟩ := bind_eq_ok.mp h
  obtain ⟨seq, hseq, h⟩ := bind_eq_ok.mp h
  obtain ⟨⟨rt₂, gol₂, out₂⟩, h2, h⟩ := bind_eq_ok.mp h
  cases h
  have rest := tickEntries_trail (d := { d with rt := rt₁, sequenceNumber := seq })
    (fun i hi => (List.mem_range'_1.mp hi).1) h2
  simpa using ((flood_trail h1 hseq).trans rest).tail ⟨.clock (n := 0), .of_silent (by simp)⟩

/-! ### The effects of a flood tick -/

theorem floodLinks_sends {k size : ℕ} {lsa : LSA} {skip : Int32 → Bool}
    {ls : List (LinkEntry × ℕ)} {rt rt' : RoutingTable} {out : List Effect}
    (h : floodLinks k lsa size skip ls rt = .ok (rt', out)) {x : Effect} (hx : x ∈ out) :
    ∃ l, x = rtSendto lsa l size := by
  induction ls generalizing rt out with
  | nil =>
    cases h
    cases hx
  | cons p ls ih =>
    rcases floodLinks_cons h with ⟨-, h⟩ | ⟨_, _, _, -, -, -, -, h1, rfl⟩
    · exact ih h hx
    · rcases List.mem_cons.mp hx with rfl | hx
      · exact ⟨p.1, rfl⟩
      · exact ih h1 hx

theorem flood_sends {fresh : Fresh} {dl : DirectLinks} {ol : LocalObjects} {rt rt' : RoutingTable}
    {id seq : Int32} {out : List Effect} (h : flood fresh typeLsa dl ol rt id seq = .ok (rt', out))
    {x : Effect} (hx : x ∈ out) : ∃ lsa l size, x = rtSendto lsa l size := by
  obtain ⟨_, -, h⟩ := bind_eq_ok.mp h
  obtain ⟨_, -, h⟩ := bind_eq_ok.mp h
  obtain ⟨_, -, h⟩ := bind_eq_ok.mp h
  obtain ⟨l, hl⟩ := floodLinks_sends h hx
  exact ⟨_, l, _, hl⟩

theorem forwardEntry_sends {dl : DirectLinks} {rt rt' : RoutingTable} {entry : RoutingEntry}
    {out : List Effect} (h : forwardEntry dl rt entry = .ok (rt', out)) {x : Effect} (hx : x ∈ out) :
    ∃ lsa l size, x = rtSendto lsa l size := by
  unfold forwardEntry at h
  split_ifs at h
  · obtain ⟨lsa, -, h⟩ := bind_eq_ok.mp h
    obtain ⟨k, -, h⟩ := bind_eq_ok.mp h
    obtain ⟨l, hl⟩ := floodLinks_sends h hx
    exact ⟨_, l, _, hl⟩
  · cases h
    cases hx

theorem tickEntry_noGiveUp {dl : DirectLinks} {i : ℕ} {rt rt' : RoutingTable} {ht ht' : LisoHash}
    {out : List Effect} (h : tickEntry dl i rt ht = .ok (rt', ht', out)) (n : Int32) : .giveUp n ∉ out := by
  obtain ⟨e, -, h⟩ := bind_eq_ok.mp h
  obtain ⟨⟨rt₁, out₁⟩, h1, h⟩ := bind_eq_ok.mp h
  have hout : .giveUp n ∉ out₁ := fun hx => by
    obtain ⟨lsa, l, size, hx⟩ := forwardEntry_sends h1 hx
    cases hx
  dsimp only at h
  split_ifs at h <;> cases h
  · exact hout
  · simpa using hout
  · exact hout

theorem tickEntries_noGiveUp {dl : DirectLinks} {is : List ℕ} {rt rt' : RoutingTable}
    {ht ht' : LisoHash} {out : List Effect} (h : tickEntries dl is rt ht = .ok (rt', ht', out))
    (n : Int32) : .giveUp n ∉ out := by
  induction is generalizing rt ht out with
  | nil =>
    cases h
    exact List.not_mem_nil
  | cons i is ih =>
    obtain ⟨⟨rt₁, ht₁, out₁⟩, h1, h⟩ := bind_eq_ok.mp h
    obtain ⟨⟨rt₂, ht₂, out₂⟩, h2, h⟩ := bind_eq_ok.mp h
    cases h
    rw [List.mem_append, not_or]
    exact ⟨tickEntry_noGiveUp h1 n, ih h2⟩

theorem floodTick_noGiveUp {d d' : Daemon} {fresh : Fresh} {out : List Effect}
    (h : floodTick fresh d = .ok (d', out)) (n : Int32) : .giveUp n ∉ out ∧ d'.iterations = 0 := by
  obtain ⟨⟨rt₁, out₁⟩, h1, h⟩ := bind_eq_ok.mp h
  obtain ⟨seq, -, h⟩ := bind_eq_ok.mp h
  obtain ⟨⟨rt₂, gol₂, out₂⟩, h2, h⟩ := bind_eq_ok.mp h
  cases h
  rw [List.mem_append, not_or]
  refine ⟨⟨fun hx => ?_, tickEntries_noGiveUp h2 n⟩, rfl⟩
  obtain ⟨lsa, l, size, hx⟩ := flood_sends h1 hx
  cases hx

/-! ### Retransmission -/

/-- The packet of entry `slot` is `lsa` or was discarded; entry `k` has its checkers. -/
structure Held (rt : RoutingTable) (slot k lsaSize : ℕ) (lsa : LSA) : Prop where
  stored : ∀ l, storedLsa rt slot = some l → l = lsa
  checkers : getRoutingEntry rt lsa.senderNodeId = some k
  size : ∃ s, rt.table[slot]? = some s ∧ s.lsaSize = lsaSize

theorem Held.modify {rt : RoutingTable} {slot k lsaSize : ℕ} {lsa : LSA}
    (h : Held rt slot k lsaSize lsa) {m : ℕ} {f : RoutingEntry → RoutingEntry}
    (hid : ∀ e, (f e).id = e.id) (hz : ∀ e, (f e).lsaSize = e.lsaSize)
    (hl : ∀ e l, (f e).lsa = some l → e.lsa = some l) : Held (rt.modify m f) slot k lsaSize lsa := by
  obtain ⟨s, hs, hsz⟩ := h.size
  have hs' : (rt.modify m f).table[slot]? = some (if m = slot then f s else s) := by
    rw [getElem?_modify, hs]; rfl
  refine ⟨fun l hl' => h.stored l ?_, ?_, _, hs', ?_⟩
  · rw [storedLsa, hs'] at hl'
    rw [storedLsa, hs]
    simp only [Option.bind_some] at hl' ⊢
    split_ifs at hl'
    · exact hl s l hl'
    · exact hl'
  · rw [getRoutingEntry_modify hid]; exact h.checkers
  · split_ifs
    · rw [hz, hsz]
    · exact hsz

theorem Held.modifyChecker {rt : RoutingTable} {slot k lsaSize : ℕ} {lsa : LSA}
    (h : Held rt slot k lsaSize lsa) (m i : ℕ) (g : AckChecker → AckChecker) :
    Held (modifyChecker rt m i g) slot k lsaSize lsa :=
  h.modify (fun _ => rfl) (fun _ => rfl) fun _ _ hl => hl

theorem Held.discard {rt : RoutingTable} {slot k lsaSize : ℕ} {lsa : LSA}
    (h : Held rt slot k lsaSize lsa) (m : ℕ) :
    Held (rt.modify m RoutingEntry.discard) slot k lsaSize lsa :=
  h.modify (fun _ => rfl) (fun _ => rfl) fun _ _ hl => by cases hl

/-- The retransmission loop passes a link over, or gives its neighbour up, or sends again. -/
theorem retransmitLinks_cons {slot k lsaSize i : ℕ} {forwarderId : Int32} {l : LinkEntry}
    {ls : List (LinkEntry × ℕ)} {rt rt' : RoutingTable} {ht ht' : LisoHash} {out : List Effect}
    (h : retransmitLinks slot k lsaSize forwarderId ((l, i) :: ls) rt ht = .ok (rt', ht', out)) :
    retransmitLinks slot k lsaSize forwarderId ls rt ht = .ok (rt', ht', out) ∨
    ∃ m e c out₁, l.id ≠ forwarderId ∧ getRoutingEntry rt l.id = some m ∧ rt.table[m]? = some e ∧
      getChecker rt k i = .ok c ∧ c.ackReceived = .notReceived ∧
      (retransmitTime - 1 ≤ c.retransmit ∧
        retransmitLinks slot k lsaSize forwarderId ls
          (modifyChecker (rt.modify m RoutingEntry.discard) k i fun a => { a with ackReceived := .received })
          (hashRemoveNode superFastHash ht e.id) = .ok (rt', ht', out₁) ∧ out = .giveUp e.id :: out₁ ∨
      c.retransmit < retransmitTime - 1 ∧ e.nodeStatus ≠ statusDown ∧ ∃ lsa, storedLsa rt slot = some lsa ∧
        retransmitLinks slot k lsaSize forwarderId ls
          (modifyChecker rt k i fun a => { a with retransmit := a.retransmit + 1 }) ht =
            .ok (rt', ht', out₁) ∧ out = rtSendto lsa l lsaSize :: out₁) := by
  simp only [retransmitLinks] at h
  split_ifs at h with hf
  · exact .inl h
  obtain ⟨c, hc, h⟩ := bind_eq_ok.mp h
  cases ha : c.ackReceived with
  | received =>
    rw [ha] at h
    exact .inl h
  | notReceived =>
    rw [ha] at h
    obtain ⟨m, hm, h⟩ := bind_eq_ok.mp h
    obtain ⟨e, he, h⟩ := bind_eq_ok.mp h
    rw [deref_eq_ok] at hm he
    split_ifs at h with hr hst
    · obtain ⟨⟨rt₁, ht₁, out₁⟩, h1, h⟩ := bind_eq_ok.mp h
      cases h
      exact .inr ⟨m, e, c, out₁, hf, hm, he, hc, ha, .inl ⟨hr, h1, rfl⟩⟩
    · cases hlsa : storedLsa rt slot with
      | none =>
        rw [hlsa] at h
        cases h
      | some lsa =>
        rw [hlsa] at h
        obtain ⟨⟨rt₁, ht₁, out₁⟩, h1, h⟩ := bind_eq_ok.mp h
        cases h
        exact .inr ⟨m, e, c, out₁, hf, hm, he, hc, ha, .inr ⟨not_le.mp hr, hst, lsa, rfl, h1, rfl⟩⟩
    · exact .inl h

theorem retransmitLinks_trail {d : Daemon} {slot k lsaSize : ℕ} {forwarderId : Int32} {lsa : LSA}
    {ls : List (LinkEntry × ℕ)} {rt' : RoutingTable} {gol' : LisoHash} {out : List Effect}
    (hls : ∀ p ∈ ls, p ∈ d.dl.neighbours) (hh : Held d.rt slot k lsaSize lsa)
    (hfw : (d.rt.table.map RoutingEntry.forwarderId)[slot]? = some forwarderId)
    (h : retransmitLinks slot k lsaSize forwarderId ls d.rt d.gol = .ok (rt', gol', out)) :
    ∃ ms, out = ms.map Prod.snd ∧ Trail Retry d ms { d with rt := rt', gol := gol' } := by
  induction ls generalizing d out with
  | nil =>
    simp only [retransmitLinks, Except.ok.injEq, Prod.mk.injEq] at h
    obtain ⟨rfl, rfl, rfl⟩ := h
    exact ⟨[], rfl, .refl _⟩
  | cons p ls ih =>
    obtain ⟨l, i⟩ := p
    have hl0 : (l, i) ∈ d.dl.neighbours := hls _ List.mem_cons_self
    have hls' : ∀ p ∈ ls, p ∈ d.dl.neighbours := fun p hp => hls p (List.mem_cons_of_mem _ hp)
    -- the forwarder ids stay
    have hfw' : ∀ rt₁ : RoutingTable, rt₁.table.map RoutingEntry.forwarderId =
        d.rt.table.map RoutingEntry.forwarderId → ∀ g, ((modifyChecker rt₁ k i g).table.map
          RoutingEntry.forwarderId)[slot]? = some forwarderId := fun rt₁ hrt g => by
      rw [modifyChecker, map_modify (by exact fun _ => rfl), hrt, hfw]
    rcases retransmitLinks_cons h with h | ⟨m, e, c, out₁, hf, hm, he, hc, ha, hcase⟩
    · exact ih hls' hh hfw h
    have hlink : LinkAt d l i m e := ⟨hl0, hm, he⟩
    rcases hcase with ⟨hr, h1, rfl⟩ | ⟨hr, hst, lsa', hlsa, h1, rfl⟩
    · have step := Retry.giveUp hlink hc ha hr
      obtain ⟨ms, rfl, tr⟩ := ih
        (d := { d with
          rt := modifyChecker (d.rt.modify m RoutingEntry.discard) k i
            fun a => { a with ackReceived := .received }
          gol := hashRemoveNode superFastHash d.gol e.id })
        hls' ((hh.discard m).modifyChecker k i _)
        (hfw' (d.rt.modify m RoutingEntry.discard) (map_modify fun _ => rfl) _) h1
      exact ⟨_, by simp, (Trail.single step).trans tr⟩
    · obtain rfl := hh.stored lsa' hlsa
      obtain ⟨s, hs, rfl⟩ := hh.size
      have hsl : s.lsa = some lsa' := by rw [storedLsa, hs] at hlsa; exact hlsa
      have ok : Sendable d slot k i l s lsa' := ⟨hs, hsl, hh.checkers, m, e, hlink, hst⟩
      have hne : l.id ≠ s.forwarderId := by
        rw [List.getElem?_map, hs, Option.map_some, Option.some.injEq] at hfw
        rwa [hfw]
      have step := Retry.resend ok hne hc ha hr
      obtain ⟨ms, rfl, tr⟩ := ih
        (d := { d with
          rt := modifyChecker d.rt k i fun a => { a with retransmit := a.retransmit + 1 } })
        hls' (hh.modifyChecker k i _) (hfw' d.rt rfl _) h1
      exact ⟨_, by simp, (Trail.single step).trans tr⟩

theorem retransmitMissing_trail {d : Daemon} {slot : ℕ} {s : RoutingEntry}
    {rt' : RoutingTable} {gol' : LisoHash} {out : List Effect} (hs : d.rt.table[slot]? = some s)
    (h : retransmitMissing slot d.dl d.rt s.lsaSize s.forwarderId d.gol = .ok (rt', gol', out)) :
    ∃ ms, out = ms.map Prod.snd ∧ Trail Retry d ms { d with rt := rt', gol := gol' } := by
  unfold retransmitMissing at h
  split at h
  · simp only [Except.ok.injEq, Prod.mk.injEq] at h
    obtain ⟨rfl, rfl, rfl⟩ := h
    exact ⟨[], rfl, .refl _⟩
  · rename_i lsa hlsa
    obtain ⟨k, hk, h⟩ := bind_eq_ok.mp h
    rw [deref_eq_ok] at hk
    refine retransmitLinks_trail (fun _ hp => hp) ⟨fun l hl => ?_, hk, s, hs, rfl⟩
      (by rw [List.getElem?_map, hs]; rfl) h
    exact Option.some.inj (hl.symm.trans hlsa)

theorem retransmitEntries_trail {d : Daemon} {is : List ℕ} {rt' : RoutingTable} {gol' : LisoHash}
    {out : List Effect} (h : retransmitEntries d.dl is d.rt d.gol = .ok (rt', gol', out)) :
    ∃ ms, out = ms.map Prod.snd ∧ Trail Retry d ms { d with rt := rt', gol := gol' } := by
  induction is generalizing d out with
  | nil =>
    simp only [retransmitEntries, Except.ok.injEq, Prod.mk.injEq] at h
    obtain ⟨rfl, rfl, rfl⟩ := h
    exact ⟨[], rfl, .refl _⟩
  | cons i is ih =>
    obtain ⟨s, hs, h⟩ := bind_eq_ok.mp h
    obtain ⟨⟨rt₁, gol₁, out₁⟩, h1, h⟩ := bind_eq_ok.mp h
    obtain ⟨⟨rt₂, gol₂, out₂⟩, h2, h⟩ := bind_eq_ok.mp h
    simp only [Except.ok.injEq, Prod.mk.injEq] at h
    obtain ⟨rfl, rfl, rfl⟩ := h
    obtain ⟨ms₁, rfl, t1⟩ := retransmitMissing_trail (deref_eq_ok.mp hs) h1
    obtain ⟨ms₂, rfl, t2⟩ := ih (d := { d with rt := rt₁, gol := gol₁ }) h2
    exact ⟨_, by simp, t1.trans t2⟩

/-! ### Passes of the event loop -/

theorem floodPhase_trail {d d' : Daemon} {fresh : Fresh} {out : List Effect}
    (h : floodPhase fresh d = .ok (d', out)) : Trail OnwardTick d out d' := by
  unfold floodPhase at h
  split_ifs at h
  · exact floodTick_trail h
  · cases h
    exact .refl _

theorem retransmitPhase_trail {d d' : Daemon} {out : List Effect}
    (h : retransmitPhase d = .ok (d', out)) :
    ∃ ms, out = ms.map Prod.snd ∧ Trail Retry d ms d' := by
  unfold retransmitPhase at h
  split_ifs at h
  · obtain ⟨⟨rt, gol, out⟩, h1, h⟩ := bind_eq_ok.mp h
    cases h
    exact retransmitEntries_trail h1
  · cases h
    exact ⟨[], rfl, .refl _⟩

/-- **A pass that times out is a trail of small steps**, with known recipients. -/
theorem timeout_onward {d d' : Daemon} {fresh : Fresh} {out : List Effect}
    (h : timeout fresh d = .ok (d', out)) : Trail OnwardTick d out d' := by
  obtain ⟨⟨d₁, out₁⟩, h1, h⟩ := bind_eq_ok.mp h
  obtain ⟨⟨d₂, out₂⟩, h2, h⟩ := bind_eq_ok.mp h
  cases h
  obtain ⟨ms, rfl, round⟩ := retransmitPhase_trail h2
  have round' : Trail OnwardTick d₁ (ms.map Prod.snd) d₂ := round.map fun _ _ _ h => h.onwardTick
  simpa using ((floodPhase_trail h1).trans round').tail ⟨.clock, .of_silent (by simp)⟩

theorem timeout_trail {d d' : Daemon} {fresh : Fresh} {out : List Effect}
    (h : timeout fresh d = .ok (d', out)) : Trail Tick d out d' :=
  (timeout_onward h).mono fun _ _ _ h => h.1

/-- **A pass that reads a datagram handles one packet.** -/
theorem receive_handled {d d' : Daemon} {fresh : Fresh} {r : Received} {out : List Effect}
    (h : receive fresh r d = .ok (d', out)) :
    ∃ lsa f size, rtRecvfrom d.dl r = .ok (some (lsa, f, size)) ∧
      Handled d fresh lsa f size out d' := by
  obtain ⟨⟨ret, rt, gol, out₁⟩, h1, h⟩ := bind_eq_ok.mp h
  cases h
  rw [mapError_eq_ok] at h1
  obtain ⟨p, hp, h2⟩ := bind_eq_ok.mp h1
  obtain ⟨⟨lsa, f, size⟩, hq, h1⟩ := bind_eq_ok.mp h2
  rw [afterEffects_eq_ok, deref_eq_ok.mp (afterEffects_eq_ok.mp hq)] at hp
  refine ⟨lsa, f, size, hp, ?_⟩
  dsimp only at h1
  split_ifs at h1 with hfil hlsa hack
  · cases h1
    exact .ignored (.inl hfil)
  · obtain ⟨src, hsrc, h1⟩ := bind_eq_ok.mp h1
    obtain ⟨rt₁, hu, h1⟩ := bind_eq_ok.mp h1
    obtain ⟨gol₁, ho, h1⟩ := bind_eq_ok.mp h1
    cases h1
    rw [hlsa, Bool.not_eq_true] at hfil
    rw [afterEffects_eq_ok] at hsrc hu ho
    exact .accepted hlsa hfil (deref_eq_ok.mp hsrc) hu ho
  · obtain ⟨rt₁, hu, h1⟩ := bind_eq_ok.mp h1
    cases h1
    rw [hack, Bool.not_eq_true] at hfil
    exact .credited hack hfil (afterEffects_eq_ok.mp hu)
  · cases h1
    exact .ignored (.inr ⟨hlsa, hack⟩)

theorem receive_of_handled {d d' : Daemon} {fresh : Fresh} {r : Received} {lsa : LSA} {f : Int32}
    {size : ℕ} {out : List Effect} (recv : rtRecvfrom d.dl r = .ok (some (lsa, f, size)))
    (h : Handled d fresh lsa f size out d') : receive fresh r d = .ok (d', out) := by
  rw [receive, lsaHandler, recv]
  simp only [afterEffects_ok, ok_bind, deref_some]
  cases h with
  | ignored why =>
    rcases why with h1 | ⟨h1, h2⟩
    · rw [if_pos h1]; rfl
    · rw [if_neg h1, if_neg h2]; split_ifs <;> rfl
  | accepted type newer link update objects =>
    rw [type, if_neg (by rw [newer]; simp), if_pos rfl, link, deref_some, afterEffects_ok, ok_bind, update,
      afterEffects_ok, ok_bind, objects, afterEffects_ok, ok_bind]
    rfl
  | credited type current update =>
    rw [type, if_neg (by rw [current]; simp), if_neg (by decide), if_pos rfl, update, afterEffects_ok, ok_bind]
    rfl

/-- **A request changes nothing but the objects, and those by an ADDFILE.** -/
theorem request_cases {d d' : Daemon} {uri : List UInt8} {opened : Bool} {c : TcpConnection}
    {out : List Effect} (h : act (.request c uri opened) d = .ok (d', out)) : out = [] ∧
      (d' = d ∨ ∃ name gol ol file, hashAdd superFastHash d.gol name d.myNodeId 0 = .ok gol ∧
        d' = { d with gol := gol, ol := ol, filefile := file }) := by
  obtain ⟨hout, h⟩ := request_added h
  refine ⟨hout, h.imp_right ?_⟩
  rintro ⟨o, ha⟩
  exact ⟨_, _, _, _, ha.gol, ha.rest⟩

/-- **Every pass of the event loop is a trail of small steps.** -/
theorem act_trail {d d' : Daemon} {ev : Event} {out : List Effect}
    (h : act ev d = .ok (d', out)) : Trail Micro d out d' := by
  cases ev with
  | timeout fresh => exact (timeout_trail h).mono fun _ _ _ => .tick
  | datagram r fresh =>
    obtain ⟨_, _, _, recv, hh⟩ := receive_handled h
    exact .single (.receive recv hh)
  | request c uri opened =>
    obtain ⟨rfl, rfl | ⟨_, _, _, _, hg, rfl⟩⟩ := request_cases h
    · exact .refl _
    · exact .single (.add hg)

/-- **Invariant rule for daemons.** What holds after `boot` and is kept by the small steps holds in
every reachable state. -/
theorem reachable_invariant {f : Files} {I : Daemon → Prop} (h0 : ∀ d, boot f = .ok d → I d)
    (hs : ∀ d out d', I d → Micro d out d' → I d') {d : Daemon}
    (r : (daemonSystem f).Reachable d) : I d :=
  r.invariant h0 fun d l d' hi (h : act l.1 d = .ok (d', l.2)) => (act_trail h).preserves hs hi

end RoutingDaemon
