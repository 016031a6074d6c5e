import RoutingDaemon.EventLoop
import RoutingDaemon.ReplyTexts

/-!
# What is left for `flask_response_handler` to send

* `ConnectionOk`: the buffers keep their sizes, and a response is empty or well formed;
  `connectionsOk_reachable`.
* `Parses`: what is received is parsed; `Answerable`: it can be answered.
* `wellFormedReply_iff`: a parsed request gets a well-formed reply exactly if it is answerable. A
  method that is neither RDGET nor ADDFILE gets none.
-/

namespace RoutingDaemon

/-! ### Connections -/

/-- The reply begins with a status word. -/
def IsReply (reply : List UInt8) : Prop :=
  ∃ w ∈ [ascii "OK ", ascii "NOTFOUND ", ascii "ERROR "], w <+: reply

theorem IsReply.ne_nil {s : List UInt8} (h : IsReply s) : s ≠ [] := by
  obtain ⟨w, hw, r, rfl⟩ := h
  have hne : ∀ w ∈ [ascii "OK ", ascii "NOTFOUND ", ascii "ERROR "], w ≠ [] := by decide
  simp [hne w hw]

theorem isReply_error {s : List UInt8} (h : ascii "ERROR " <+: s) : IsReply s :=
  ⟨_, List.mem_cons_of_mem _ (List.mem_cons_of_mem _ List.mem_cons_self), h⟩

theorem isReply_okUri (u : List UInt8) : IsReply (okUri u) :=
  ⟨ascii "OK ", List.mem_cons_self, decimal u.length ++ (ascii " " ++ (u ++ ascii " ")), by simp [okUri]⟩

theorem isReply_rdgetReply (o : Option (List UInt8)) : IsReply (rdgetReply o) := by
  cases o with
  | none => exact ⟨_, List.mem_cons_of_mem _ List.mem_cons_self, by decide⟩
  | some u => exact isReply_okUri u

/-- The buffers have their sizes, and the response is empty or well formed. -/
structure ConnectionOk (c : TcpConnection) : Prop where
  response : c.response.length = maxBuf
  path : c.path.length = maxBuf
  reply : cstr c.response = lit "" ∨ IsReply (cstr c.response).1

theorem cstr_blankBuf_eq : cstr blankBuf = lit "" := Subtype.ext (cstr_blankBuf.trans rfl)

theorem connectionOk_init (c : TcpConnection) : ConnectionOk (initConnection c) :=
  ⟨List.length_replicate, List.length_replicate, .inl cstr_blankBuf_eq⟩

theorem ConnectionOk.path_lt {c : TcpConnection} (h : ConnectionOk c) :
    strlen (cstr c.path) < maxPathLen := by
  have hle := strlen_cstr_le c.path
  rw [h.path] at hle
  exact lt_of_le_of_lt hle (by decide)

section Keep

variable {c c' : TcpConnection} {d d' : Daemon} {uri s : List UInt8} {opened : Bool} {status : ℤ}

theorem ConnectionOk.congr (h : ConnectionOk c) (hr : c'.response = c.response)
    (hp : c'.path.length = c.path.length) : ConnectionOk c' :=
  ⟨by rw [hr]; exact h.response, hp.trans h.path, by rw [hr]; exact h.reply⟩

theorem strncpy_length {buf b : List UInt8} {n : ℤ} (h : strncpy buf s n = .ok b) :
    b.length = buf.length := by
  unfold strncpy at h
  split_ifs at h with hn
  cases h
  simp only [List.length_append, List.length_take, List.length_drop, List.length_replicate]
  omega

theorem receive_kept (h : c.receive s = .ok c') :
    c'.response = c.response ∧ c'.responseIndex = c.responseIndex ∧ c'.path.length = c.path.length := by
  unfold TcpConnection.receive at h
  split_ifs at h
  cases h
  exact ⟨rfl, rfl, rfl⟩

theorem copyTokens_kept {method : List UInt8} {nameLength name pathLength path : Option (List UInt8)}
    (h : copyTokens c method nameLength name pathLength path = .ok c') :
    c'.response = c.response ∧ c'.responseIndex = c.responseIndex ∧ c'.path.length = c.path.length := by
  obtain ⟨_, -, h⟩ := bind_eq_ok.mp h
  obtain ⟨_, -, h⟩ := bind_eq_ok.mp h
  obtain ⟨_, -, h⟩ := bind_eq_ok.mp h
  obtain ⟨_, -, h⟩ := bind_eq_ok.mp h
  obtain ⟨_, -, h⟩ := bind_eq_ok.mp h
  split_ifs at h
  · obtain ⟨_, -, h⟩ := bind_eq_ok.mp h
    obtain ⟨_, -, h⟩ := bind_eq_ok.mp h
    obtain ⟨_, -, h⟩ := bind_eq_ok.mp h
    obtain ⟨_, hp, h⟩ := bind_eq_ok.mp h
    cases h
    exact ⟨rfl, rfl, strncpy_length hp⟩
  · cases h
    exact ⟨rfl, rfl, rfl⟩

theorem processBuffer_kept (h : processBuffer c = .ok c') :
    c'.response = c.response ∧ c'.responseIndex = c.responseIndex ∧ c'.path.length = c.path.length := by
  rcases processBuffer_eq_ok h with ⟨t0, -, -, rfl⟩ | ⟨t0, t1, t2, t3, t4, method, -, -, hc⟩
  · exact ⟨rfl, rfl, rfl⟩
  · obtain ⟨hr, hn, hp⟩ := copyTokens_kept hc
    exact ⟨hr, hn, hp⟩

theorem ConnectionOk.respond (hc : ConnectionOk c) (hs : IsReply s) (h0 : 0 ∉ s)
    (h : c.respond status s = .ok c') : ConnectionOk c' := by
  obtain ⟨-, hlen, hpath, htext⟩ := respond_eq_ok h
  exact ⟨hlen.trans hc.response, by rw [hpath, hc.path], .inr (by rw [htext h0]; exact hs)⟩

theorem ConnectionOk.respondUri (hc : ConnectionOk c) (h : c.respondUri uri = .ok c') :
    ConnectionOk c' := by
  rw [respondUri_eq rfl] at h
  exact hc.respond (isReply_okUri _) (okUri_zero (cstr uri).2) h

theorem ConnectionOk.rdget (hc : ConnectionOk c) (h : rdget uri d c = .ok c') : ConnectionOk c' := by
  obtain ⟨t, -, h⟩ := bind_eq_ok.mp h
  cases t with
  | notFound => exact hc.respond (isReply_rdgetReply none) (by decide) h
  | via l =>
    obtain ⟨u, -, h⟩ := bind_eq_ok.mp h
    exact hc.respondUri h
  | here =>
    obtain ⟨c₁, h1, h⟩ := bind_eq_ok.mp h
    have hc₁ : ConnectionOk c₁ := by
      rcases getLocalFilePath_spec d.ol hc.path with ⟨-, b, hb, -, hlen⟩ | ⟨-, hb⟩
      · rw [hb] at h1
        cases h1
        exact hc.congr rfl (hlen.trans hc.path.symm)
      · rw [hb] at h1
        cases h1
    split_ifs at h
    · obtain ⟨c₂, h2, h⟩ := bind_eq_ok.mp h
      exact (hc₁.respond (isReply_error (by decide)) (by decide) h2).respondUri h
    · obtain ⟨u, -, h⟩ := bind_eq_ok.mp h
      exact hc₁.respondUri h

/-- **`build_response` leaves a response that is empty or well formed.** -/
theorem ConnectionOk.buildResponse (hc : ConnectionOk c)
    (h : buildResponse uri opened d c = .ok (d', c')) : ConnectionOk c' := by
  obtain ⟨⟨d₁, c₁⟩, h1, h⟩ := bind_eq_ok.mp h
  cases h
  refine ConnectionOk.congr (c := c₁) ?_ rfl rfl
  unfold dispatch at h1
  split_ifs at h1
  · obtain ⟨c₂, h2, h1⟩ := bind_eq_ok.mp h1
    cases h1
    exact hc.respond (isReply_error (by decide)) (by decide) h2
  · obtain ⟨c₂, h2, h1⟩ := bind_eq_ok.mp h1
    cases h1
    exact hc.rdget h2
  · rcases addfile_eq_ok h1 with ⟨-, -, h2⟩ | ⟨-, h2⟩
    · exact hc.respond (isReply_error (by decide)) (by decide) h2
    · exact hc.respond ⟨_, List.mem_cons_self, by decide⟩ (by decide) h2
  · cases h1
    exact hc

end Keep

/-- All connections. -/
def ConnectionsOk (e : Engine) : Prop := ∀ i, ConnectionOk (e.connections i)

theorem kept_connectionOk : Kept ConnectionOk where
  init c _ := connectionOk_init c
  status _ _ h := h.congr rfl rfl
  read c c₁ c₂ data h _ _ h1 h2 := by
    obtain ⟨hr₁, -, hp₁⟩ := receive_kept h1
    obtain ⟨hr₂, -, hp₂⟩ := processBuffer_kept h2
    exact (h.congr hr₁ hp₁).congr hr₂ hp₂
  build _ _ _ _ _ _ h hb := h.buildResponse hb

/-- **No connection ever holds anything but a well-formed response.** -/
theorem connectionsOk_reachable {f : Files} {e : Engine} (r : (connectionSystem f).Reachable e) :
    ConnectionsOk e := by
  have hblank : ConnectionOk blankConnection :=
    ⟨List.length_replicate, List.length_replicate, .inl cstr_blankBuf_eq⟩
  exact kept_connectionOk.reachable hblank r

/-! ### Well-formed replies -/

/-- `process_buffer` parses what is received on connection `i`. -/
structure Parses (e : Engine) (i : ℕ) (data : List UInt8) (c : TcpConnection) : Prop where
  nonempty : data.take (bufSize - (e.connections i).requestIndex).toNat ≠ []
  parsed : ∃ c₁, (e.connections i).receive
    (data.take (bufSize - (e.connections i).requestIndex).toNat) = .ok c₁ ∧ processBuffer c₁ = .ok c

theorem Parses.handler_eq {e : Engine} {i : ℕ} {data uri : List UInt8} {opened : Bool}
    {c : TcpConnection} (h : Parses e i data c) :
    flaskRequestHandler i (.got data) uri opened e = e.answer i uri opened c := by
  obtain ⟨c₁, h1, h2⟩ := h.parsed
  simp only [flaskRequestHandler, if_neg h.nonempty, h1, guarded, Except.mapError, ok_bind, h2]

theorem Parses.connectionOk {e : Engine} {i : ℕ} {data : List UInt8} {c : TcpConnection}
    (h : Parses e i data c) (he : ConnectionsOk e) : ConnectionOk c := by
  obtain ⟨c₁, h1, h2⟩ := h.parsed
  obtain ⟨hr₁, -, hp₁⟩ := receive_kept h1
  obtain ⟨hr₂, -, hp₂⟩ := processBuffer_kept h2
  exact ((he i).congr hr₁ hp₁).congr hr₂ hp₂

theorem Parses.handler_iff {e e' : Engine} {i : ℕ} {data uri : List UInt8} {opened : Bool}
    {c : TcpConnection} {ret : ℤ} (h : Parses e i data c) :
    flaskRequestHandler i (.got data) uri opened e = .ok (e', ret) ↔ ret = 1 ∧ ∃ d' c',
      buildResponse uri opened e.daemon c = .ok (d', c') ∧
        e' = { e.setConnection i c' with daemon := d', wfds := insert i e.wfds } := by
  rw [h.handler_eq, Engine.answer, bind_eq_ok]
  constructor
  · rintro ⟨⟨d', c'⟩, hb, h⟩
    cases h
    exact ⟨rfl, d', c', guarded_eq_ok.mp hb, rfl⟩
  · rintro ⟨rfl, d', c', hb, rfl⟩
    exact ⟨(d', c'), guarded_eq_ok.mpr hb, rfl⟩

@[simp] theorem setConnection_self (e : Engine) (i : ℕ) (c : TcpConnection) :
    (e.setConnection i c).connections i = c := Function.update_self _ _ _

/-- What `flask_response_handler` is left with. -/
structure WellFormedReply (c : TcpConnection) : Prop where
  index : 1 ≤ c.responseIndex
  start : IsReply c.sent

/-- A parsed request can be answered. -/
structure Answerable (uri : List UInt8) (opened : Bool) (d : Daemon) (c : TcpConnection) : Prop where
  method : c.status = 200 → cstr c.method ≠ lit "RDGET" → cstr c.method ≠ lit "ADDFILE" →
    cstr c.response ≠ lit ""
  rdget : c.status = 200 → cstr c.method = lit "RDGET" → ∃ t, rdgetTarget d (cstr c.name) = .ok t ∧
    (rdgetReply (printedUri uri d (cstr c.name) t)).length < maxBuf
  addfile : c.status = 200 → cstr c.method = lit "ADDFILE" →
    containsObject superFastHash d.gol (cstr c.name) = none →
      Addable opened d (cstr c.name) (cstr c.path)

/-- **Which texts are well formed.** -/
theorem exists_isReply_iff {uri : List UInt8} {opened : Bool} {d : Daemon} {c : TcpConnection}
    (hc : ConnectionOk c) :
    (∃ s, Replies uri opened d c s ∧ IsReply s) ↔ Answerable uri opened d c := by
  constructor
  · rintro ⟨s, h, hs⟩
    have hne : lit "RDGET" ≠ lit "ADDFILE" := by decide
    cases h with
    | failed status =>
      exact ⟨fun h => absurd h status, fun h => absurd h status, fun h => absurd h status⟩
    | rdget status method target fits =>
      exact ⟨fun _ h => absurd method h, fun _ _ => ⟨_, target, fits⟩,
        fun _ h => absurd (method.symm.trans h) hne⟩
    | listed status method known =>
      exact ⟨fun _ _ h => absurd method h, fun _ h => absurd (h.symm.trans method) hne,
        fun _ _ h => absurd h known⟩
    | added status method addable =>
      exact ⟨fun _ _ h => absurd method h, fun _ h => absurd (h.symm.trans method) hne,
        fun _ _ _ => addable⟩
    | other status rdget addfile =>
      refine ⟨fun _ _ _ h => hs.ne_nil ?_, fun _ h => absurd h rdget, fun _ h => absurd h addfile⟩
      rw [h]
      rfl
  · intro h
    by_cases hst : c.status = 200
    · by_cases hget : cstr c.method = lit "RDGET"
      · obtain ⟨t, ht, hfit⟩ := h.rdget hst hget
        exact ⟨_, .rdget hst hget ht hfit, isReply_rdgetReply _⟩
      by_cases hadd : cstr c.method = lit "ADDFILE"
      · by_cases hn : containsObject superFastHash d.gol (cstr c.name) = none
        · exact ⟨_, .added hst hadd (h.addfile hst hadd hn), _, List.mem_cons_self, by decide⟩
        · exact ⟨_, .listed hst hadd hn, isReply_error (by decide)⟩
      · exact ⟨_, .other hst hget hadd, hc.reply.resolve_left (h.method hst hget hadd)⟩
    · exact ⟨_, .failed hst, isReply_error (by decide)⟩

/-- **A parsed request is answered with a well-formed reply exactly if it is answerable.** -/
theorem wellFormedReply_iff {f : Files} {e : Engine} (r : (connectionSystem f).Reachable e) {i : ℕ}
    {data uri : List UInt8} {opened : Bool} {c : TcpConnection} (hp : Parses e i data c)
    (hu : uri.length = bufSize) :
    (∃ e' ret, flaskRequestHandler i (.got data) uri opened e = .ok (e', ret) ∧
      WellFormedReply (e'.connections i)) ↔ Answerable uri opened e.daemon c := by
  have hc := hp.connectionOk (connectionsOk_reachable r)
  rw [← exists_isReply_iff hc]
  constructor
  · rintro ⟨e', ret, h, hw⟩
    obtain ⟨-, d', c', hb, rfl⟩ := hp.handler_iff.mp h
    have hstart := hw.start
    simp only [setConnection_self] at hstart
    exact ⟨_, (buildResponse_replies hc.path hc.response hu hb).1, hstart⟩
  · rintro ⟨s, hs, hw⟩
    obtain ⟨d', c', hb, rfl⟩ := exists_buildResponse_of_replies hc.path hc.response hu hs
    refine ⟨_, 1, hp.handler_iff.mpr ⟨rfl, d', c', hb, rfl⟩, ?_, by simpa using hw⟩
    simp only [setConnection_self]
    have hne := hw.ne_nil
    by_contra hlt
    exact hne (by rw [TcpConnection.sent, Int.toNat_eq_zero.mpr (by omega), List.take_zero])

/-- A node without neighbours, its first client, and what this client sends. -/
def firstRequest (data : List UInt8) : Except Fault (Daemon × TcpConnection) := do
  let d ← boot loneFiles
  let c₁ ← (((createEngine 3 4 d).register 0).connections 0).receive data
  let c ← processBuffer c₁
  return (d, c)

theorem firstRequest_eq_ok {data : List UInt8} {d : Daemon} {c : TcpConnection} (hne : data ≠ [])
    (hlen : data.length ≤ bufSize) (h : firstRequest data = .ok (d, c)) :
    (connectionSystem loneFiles).Reachable ((createEngine 3 4 d).register 0) ∧
      Parses ((createEngine 3 4 d).register 0) 0 data c := by
  obtain ⟨d', hd, h⟩ := bind_eq_ok.mp h
  obtain ⟨c₁, h1, h⟩ := bind_eq_ok.mp h
  obtain ⟨c₂, h2, h⟩ := bind_eq_ok.mp h
  cases h
  have htake : data.take (bufSize - (((createEngine 3 4 d).register 0).connections 0).requestIndex).toNat
      = data := List.take_of_length_le (by exact hlen)
  exact ⟨reachable_first hd, by rw [htake]; exact hne, c₁, by rw [htake]; exact h1, h2⟩

theorem firstRequest_rdget : ∃ d c, firstRequest (ascii "RDGET 1 a") = .ok (d, c) ∧ c.status = 200 ∧
    cstr c.method = lit "RDGET" ∧ rdgetTarget d (cstr c.name) = .ok .notFound := by
  have key : (firstRequest (ascii "RDGET 1 a")).map (fun p => decide (p.2.status = 200) &&
      decide (cstr p.2.method = lit "RDGET") &&
      decide ((rdgetTarget p.1 (cstr p.2.name)).toOption = some .notFound)) = .ok true := by
    decide +kernel
  obtain ⟨⟨d, c⟩, h, hk⟩ := exists_of_map_eq_ok key
  simp only [Bool.and_eq_true, decide_eq_true_eq] at hk
  obtain ⟨⟨hst, hm⟩, ht⟩ := hk
  exact ⟨d, c, h, hst, hm, toOption_eq_some.mp ht⟩

/-- `RDGET 1 a` is answered. -/
theorem wellFormedReply_iff_rdget : ∃ e c, Parses e 0 (ascii "RDGET 1 a") c ∧ ∃ e' ret,
    flaskRequestHandler 0 (.got (ascii "RDGET 1 a")) blankBuf true e = .ok (e', ret) ∧
      WellFormedReply (e'.connections 0) := by
  obtain ⟨d, c, h, -, hm, ht⟩ := firstRequest_rdget
  obtain ⟨r, hp⟩ := firstRequest_eq_ok (by decide) (by decide) h
  refine ⟨_, c, hp, (wellFormedReply_iff r hp (List.length_replicate ..)).mpr ⟨?_, ?_, ?_⟩⟩
  · exact fun _ h => absurd hm h
  · exact fun _ _ => ⟨.notFound, ht, show (ascii "NOTFOUND 0 ").length < maxBuf by decide⟩
  · intro _ h
    rw [hm] at h
    exact absurd h (by decide)

/-- **A request with another method gets an empty reply**: `flask_response_handler` sends nothing, and ends
the daemon unless `errno` still holds `EPIPE` or `ECONNRESET`. -/
theorem exists_empty_reply : ∃ e c e' ret, (connectionSystem loneFiles).Reachable e ∧ 0 ∈ e.clients ∧
    Parses e 0 (ascii "GET 1 a") c ∧
    flaskRequestHandler 0 (.got (ascii "GET 1 a")) blankBuf true e = .ok (e', ret) ∧
    (e'.connections 0).responseIndex = 0 ∧ ¬ WellFormedReply (e'.connections 0) ∧
    0 ∈ e'.wfds ∧ Serviceable e' (.send 0 .failed) ∧
    ∀ s, Serviceable e' (.send 0 s) → s = .broken ∨ handle (.send 0 s) e' = .error .exit := by
  have key : (firstRequest (ascii "GET 1 a")).map (fun p => decide (p.2.status = 200) &&
      decide (cstr p.2.method = lit "GET") && decide (cstr p.2.response = lit "")) = .ok true := by
    decide +kernel
  obtain ⟨⟨d, c⟩, h, hk⟩ := exists_of_map_eq_ok key
  simp only [Bool.and_eq_true, decide_eq_true_eq] at hk
  obtain ⟨⟨hst, hm⟩, hr⟩ := hk
  obtain ⟨r, hp⟩ := firstRequest_eq_ok (by decide) (by decide) h
  have hd : dispatch blankBuf true d c = .ok (d, c) := by
    rw [dispatch, if_neg (by simp [hst]), hm, if_neg (by decide), if_neg (by decide)]
  refine ⟨_, c, _, 1, r, Finset.mem_insert_self _ _, hp,
    hp.handler_iff.mpr ⟨rfl, d, _, buildResponse_of_dispatch hd, rfl⟩, ?_, fun hw => ?_,
    Finset.mem_insert_self _ _, ⟨Finset.mem_insert_self _ _, Send.noConfusion⟩, fun s hs => ?_⟩
  · simp only [setConnection_self, hr]
    rfl
  · have hi := hw.index
    simp only [setConnection_self, hr] at hi
    exact absurd hi (by decide)
  · cases s with
    | sent =>
      have hi := hs.2 rfl
      simp only [setConnection_self, hr] at hi
      exact absurd hi (by decide)
    | broken => exact .inl rfl
    | failed => exact .inr rfl

end RoutingDaemon
