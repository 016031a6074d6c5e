import RoutingDaemon.AddFile
import RoutingDaemon.Connections

/-!
# Requests that arrive in pieces

* `Piece`, `readAll`: the successful `recv`s of one connection; `Outcome`: what comes of them.
* `count_tokenized`: the spaces that `strtok` used up.
* `first_piece`: a piece that is parsed holds every space; `word_piece`: one without is not parsed.
* `cut_iff`: no request survives every cut, and one without spaces in its texts survives none.
-/

namespace RoutingDaemon

/-! ### Pieces -/

/-- One successful `recv`, with what `build_response` finds. -/
structure Piece where
  data : List UInt8
  uri : List UInt8
  opened : Bool

/-- The pieces that arrive on connection `i`, read one after the other. -/
def readAll (i : ℕ) : List Piece → Engine → Except Stop Engine
  | [], e => .ok e
  | p :: ps, e => do
    let (e, _) ← flaskRequestHandler i (.got p.data) p.uri p.opened e
    readAll i ps e

/-- A way of cutting a message. -/
structure Cut (msg : List UInt8) (ps : List Piece) : Prop where
  nonempty : ∀ p ∈ ps, p.data ≠ []
  flatten : (ps.map Piece.data).flatten = msg

/-- The response that is sent on connection `i`, the two object tables, and the files file. -/
structure Outcome where
  response : List UInt8
  gol : LisoHash
  ol : LocalObjects
  filefile : List UInt8

/-- What the engine shows. -/
def outcome (i : ℕ) (e : Engine) : Outcome where
  response := (e.connections i).response.take (e.connections i).responseIndex.toNat
  gol := e.daemon.gol
  ol := e.daemon.ol
  filefile := e.daemon.filefile

/-- The pieces are read with the same outcome as one that is the whole message. -/
def SameOutcome (i : ℕ) (e : Engine) (msg : List UInt8) (ps : List Piece) : Prop :=
  ∃ whole a b, whole.data = msg ∧ readAll i ps e = .ok a ∧ readAll i [whole] e = .ok b ∧
    outcome i a = outcome i b

/-! ### What a response leaves alone -/

section Response

variable {c c' : TcpConnection} {d d' : Daemon} {uri : List UInt8} {opened : Bool}

theorem SameRequest.trans {c'' : TcpConnection} (h : SameRequest c c') (h' : SameRequest c' c'') :
    SameRequest c c'' := ⟨h'.1.trans h.1, h'.2.trans h.2⟩

theorem getLocalFilePath_request {ol : LocalObjects} (h : getLocalFilePath ol c = .ok c') :
    SameRequest c c' := by
  unfold getLocalFilePath at h
  split at h
  · obtain ⟨b, -, h⟩ := bind_eq_ok.mp h
    cases h
    exact ⟨rfl, rfl⟩
  · cases h
    exact ⟨rfl, rfl⟩

theorem buildResponse_request (h : buildResponse uri opened d c = .ok (d', c')) :
    SameRequest c c' :=
  buildResponse_rule (P := SameRequest c) (fun _ _ _ _ hc => hc)
    (fun _ _ hc h => hc.trans (getLocalFilePath_request h)) ⟨rfl, rfl⟩ h

end Response

/-! ### Spaces -/

section Spaces

variable {mem : List UInt8} {t0 t1 t2 t3 t4 : TokenCall UInt8}

/-- **Three words use up two spaces, and five words four.** -/
theorem count_tokenized (h : Tokens mem t0 t1 t2 t3 t4) (h0 : t0.token ≠ none)
    (h1 : t1.token ≠ none) (h2 : t2.token ≠ none) :
    (tokenized t0 t1 t2 t3 t4).count 32 + 2 ≤ mem.count 32 ∧
      (t3.token ≠ none → t4.token ≠ none →
        (tokenized t0 t1 t2 t3 t4).count 32 + 4 ≤ mem.count 32) := by
  have e0 := count_strtok space_ne_zero h.call0 h0 h.call1 h1
  have e1 := count_strtok space_ne_zero h.call1 h1 h.call2 h2
  have l2 := count_strtok_le space_ne_zero h.call2
  have l3 := count_strtok_le space_ne_zero h.call3
  have l4 := count_strtok_le space_ne_zero h.call4
  have ht : (tokenized t0 t1 t2 t3 t4).count 32 = t0.passed.count 32 + (t1.passed.count 32 +
      (t2.passed.count 32 + (t3.passed.count 32 + (t4.passed.count 32 + t4.rest.count 32)))) := by
    simp only [tokenized, List.count_append]
  refine ⟨by omega, fun h3 h4 => ?_⟩
  have e2 := count_strtok space_ne_zero h.call2 h2 h.call3 h3
  have e3 := count_strtok space_ne_zero h.call3 h3 h.call4 h4
  omega

end Spaces

theorem token_ne_none {mem : List UInt8} {t : TokenCall UInt8} (h : strtok 32 0 mem = some t)
    (hb : ∀ b ∈ mem.head?, b ≠ 32 ∧ b ≠ 0) : t.token ≠ none := by
  rw [strtok_eq_some_iff space_ne_zero] at h
  cases h with
  | none k rest =>
    cases k with
    | zero => exact absurd rfl (hb 0 rfl).2
    | succ k => exact absurd rfl (hb 32 rfl).1
  | last k hw rest => exact Option.some_ne_none _
  | word k hw rest => exact Option.some_ne_none _

theorem count_scanned (c : TcpConnection) : c.scanned.count 32 = c.request.count 32 := by
  rw [TcpConnection.scanned, List.count_append]
  split_ifs <;> simp

/-- A string that begins with a word is parsed only if it holds three words, or five for an
ADDFILE. -/
theorem processBuffer_count {c c' : TcpConnection} (h : processBuffer c = .ok c') (hne : c.request ≠ [])
    (hb : ∀ b ∈ c.request.head?, b ≠ 32 ∧ b ≠ 0) : c'.requestIndex = c.requestIndex ∧
      c'.request.count 32 + 2 ≤ c.request.count 32 ∧ (∀ rest,
        c.request = ascii "ADDFILE" ++ 32 :: rest → c'.request.count 32 + 4 ≤ c.request.count 32) := by
  rcases processBuffer_eq_ok h with ⟨t0, ht, hn, -⟩ | ⟨t0, t1, t2, t3, t4, m, ht, hm, hc⟩
  · refine absurd hn (token_ne_none ht ?_)
    rwa [TcpConnection.scanned, List.head?_append_of_ne_nil _ hne]
  · obtain ⟨nl, n, h1, h2, -, -, hsame, hpath⟩ := copyTokens_eq_ok hc
    obtain ⟨htwo, hfour⟩ := count_tokenized ht (by simp [hm]) (by simp [h1]) (by simp [h2])
    rw [count_scanned] at htwo hfour
    have htake : c'.request.count 32 ≤ (tokenized t0 t1 t2 t3 t4).count 32 := by
      rw [hsame.1]
      exact (List.take_sublist _ _).count_le 32
    refine ⟨hsame.2, by omega, fun rest hreq => ?_⟩
    have hmeth : m = ascii "ADDFILE" := by
      have h0 := ht.call0
      rw [TcpConnection.scanned, hreq, List.append_assoc, List.cons_append,
        strtok_word space_ne_zero isWord_addfile] at h0
      cases h0
      exact (Option.some.inj hm).symm
    obtain ⟨pl, p, h3, h4, -⟩ := hpath hmeth
    have := hfour (by simp [h3]) (by simp [h4])
    omega

/-- **A string of one word is no request.** -/
theorem processBuffer_ne_ok {c c' : TcpConnection} (hs : 32 ∉ c.request) (hne : c.request ≠ [])
    (h0 : ∀ b ∈ c.request.head?, b ≠ 0) : processBuffer c ≠ .ok c' := by
  intro h
  have hcount : c.request.count 32 = 0 := List.count_eq_zero.mpr hs
  have hb : ∀ b ∈ c.request.head?, b ≠ 32 ∧ b ≠ 0 := fun b hm =>
    ⟨fun e => hs (e ▸ List.mem_of_mem_head? hm), h0 b hm⟩
  have := (processBuffer_count h hne hb).2.1
  omega

/-! ### Two pieces -/

theorem flaskRequestHandler_got {e e' : Engine} {i : ℕ} {data uri : List UInt8} {opened : Bool}
    {ret : ℤ} (h : flaskRequestHandler i (.got data) uri opened e = .ok (e', ret)) (hne : data ≠ [])
    (hfit : data.length + (e.connections i).requestIndex ≤ bufSize) :
    ∃ c₁ c₂, (e.connections i).receive data = .ok c₁ ∧ processBuffer c₁ = .ok c₂ ∧
      SameRequest c₂ (e'.connections i) := by
  have htake : data.take (bufSize - (e.connections i).requestIndex).toNat = data :=
    List.take_of_length_le (by omega)
  simp only [flaskRequestHandler, htake, if_neg hne] at h
  obtain ⟨c₁, h1, h⟩ := bind_eq_ok.mp h
  obtain ⟨c₂, h2, h⟩ := bind_eq_ok.mp h
  obtain ⟨⟨d, c₃⟩, h3, h⟩ := bind_eq_ok.mp h
  rw [guarded_eq_ok] at h1 h2 h3
  cases h
  refine ⟨c₁, c₂, h1, h2, ?_⟩
  have hset : Function.update e.connections i c₃ i = c₃ := Function.update_self _ _ _
  show SameRequest c₂ (Function.update e.connections i c₃ i)
  rw [hset]
  exact buildResponse_request h3

theorem flaskRequestHandler_init {e e' : Engine} {i : ℕ} {c : TcpConnection}
    {data uri : List UInt8} {opened : Bool} {ret : ℤ} (hc : e.connections i = initConnection c)
    (hlen : data.length < maxBuf) (hne : data ≠ [])
    (h : flaskRequestHandler i (.got data) uri opened e = .ok (e', ret)) :
    ∃ c', processBuffer { initConnection c with
        request := data ++ 0 :: List.replicate (maxBuf - data.length - 1) 0
        requestIndex := data.length
        status := 200 } = .ok c' ∧ SameRequest c' (e'.connections i) := by
  have hfit : data.length + (e.connections i).requestIndex ≤ bufSize := by
    have hidx : (initConnection c).requestIndex = 0 := rfl
    rw [hc, hidx, bufSize_eq]
    omega
  obtain ⟨c₁, c₂, h1, h2, hsame⟩ := flaskRequestHandler_got h hne hfit
  rw [hc, receive_init hlen] at h1
  cases h1
  exact ⟨c₂, h2, hsame⟩

/-- The method of a request. -/
def Request.method : Request → List UInt8
  | rdget _ => ascii "RDGET"
  | addfile _ _ => ascii "ADDFILE"

/-- What follows the method and a space. -/
def Request.body : Request → List UInt8
  | rdget objname => field objname
  | addfile obj final => field obj ++ 32 :: field final

section Messages

variable {r : Request}

theorem encode_eq (r : Request) : r.encode = r.method ++ 32 :: r.body := by
  cases r <;> simp [Request.encode, Request.method, Request.body, ascii]

theorem isWord_method (r : Request) : IsWord 32 0 r.method := by
  cases r with
  | rdget objname => exact isWord_rdget
  | addfile obj final => exact isWord_addfile

theorem count_field {s : List UInt8} (h : 32 ∉ s) : (field s).count 32 = 1 := by
  have hd : (decimal s.length).count 32 = 0 := List.count_eq_zero.mpr (isWord_decimal _).sep
  have hs : s.count 32 = 0 := List.count_eq_zero.mpr h
  rw [field, List.count_append, List.count_append, hd, hs]
  rfl

theorem count_encode (hs : r.SpaceFree) :
    r.encode.count 32 = if r.method = ascii "ADDFILE" then 4 else 2 := by
  have hm : r.method.count 32 = 0 := List.count_eq_zero.mpr (isWord_method r).sep
  rw [encode_eq, List.count_append, hm]
  cases r with
  | rdget objname =>
    have hne : (Request.rdget objname).method ≠ ascii "ADDFILE" :=
      show ascii "RDGET" ≠ ascii "ADDFILE" by decide
    rw [if_neg hne]
    have := count_field (hs objname List.mem_cons_self)
    simp [Request.body, this]
  | addfile obj final =>
    have heq : (Request.addfile obj final).method = ascii "ADDFILE" := rfl
    rw [if_pos heq]
    have h1 := count_field (hs obj List.mem_cons_self)
    have h2 := count_field (hs final (List.mem_cons_of_mem _ List.mem_cons_self))
    simp [Request.body, h1, h2]

theorem zero_notMem_encode (h : ∀ s ∈ r.texts, 0 ∉ s) : 0 ∉ r.encode := by
  have hf : ∀ s : List UInt8, 0 ∉ s → 0 ∉ field s := fun s hs => by
    simp [field, zero_notMem_decimal, ascii, hs]
  rw [encode_eq]
  have hbody : 0 ∉ r.body := by
    cases r with
    | rdget objname => exact hf objname (h objname List.mem_cons_self)
    | addfile obj final =>
      have h1 := hf obj (h obj List.mem_cons_self)
      have h2 := hf final (h final (List.mem_cons_of_mem _ List.mem_cons_self))
      simp [Request.body, h1, h2]
  simp [(isWord_method r).nul, hbody]

theorem head_piece {data rest : List UInt8} (h : data ++ rest = r.encode) (hne : data ≠ []) :
    ∀ b ∈ data.head?, b ≠ 32 ∧ b ≠ 0 := by
  intro b hb
  have hmem : b ∈ r.method := by
    have hhead : (data ++ rest).head? = some b := by rw [List.head?_append_of_ne_nil _ hne]; exact hb
    rw [h, encode_eq, List.head?_append_of_ne_nil _ (isWord_method r).ne_nil] at hhead
    exact List.mem_of_mem_head? hhead
  exact ⟨fun e => (isWord_method r).sep (e ▸ hmem), fun e => (isWord_method r).nul (e ▸ hmem)⟩

theorem exists_method_append {data rest : List UInt8} (h : data ++ rest = r.encode) (hs : 32 ∈ data) :
    ∃ q, data = r.method ++ 32 :: q := by
  rw [encode_eq] at h
  rcases List.append_eq_append_iff.mp h with ⟨as, hm, -⟩ | ⟨bs, hd, hb⟩
  · exact absurd (hm ▸ List.mem_append_left as hs) (isWord_method r).sep
  · cases bs with
    | nil =>
      rw [hd, List.append_nil] at hs
      exact absurd hs (isWord_method r).sep
    | cons b bs =>
      rw [List.cons_append, List.cons.injEq] at hb
      exact ⟨bs, by rw [hd, ← hb.1]⟩

/-- **A piece that is parsed holds every space of the message.** -/
theorem first_piece (hs : r.SpaceFree) (hfit : r.encode.length < maxBuf) {e e' : Engine} {i : ℕ}
    {c : TcpConnection} (hc : e.connections i = initConnection c) {data rest uri : List UInt8}
    {opened : Bool} {ret : ℤ} (hr : data ++ rest = r.encode) (hne : data ≠ [])
    (h : flaskRequestHandler i (.got data) uri opened e = .ok (e', ret)) :
    32 ∉ (e'.connections i).request ∧ (e'.connections i).requestIndex = data.length ∧
      32 ∉ rest := by
  have hlen : data.length < maxBuf := by
    refine lt_of_le_of_lt ?_ hfit
    rw [← hr, List.length_append]
    exact Nat.le_add_right _ _
  obtain ⟨c₂, h2, hsame⟩ := flaskRequestHandler_init hc hlen hne h
  have hz : (0 :: List.replicate (maxBuf - data.length - 1) (0 : UInt8)).count 32 = 0 := by
    rw [← List.replicate_succ]
    exact List.count_eq_zero.mpr (space_notMem_replicate _)
  have hhead : ∀ b ∈ (data ++ 0 :: List.replicate (maxBuf - data.length - 1) 0).head?,
      b ≠ 32 ∧ b ≠ 0 := by
    rw [List.head?_append_of_ne_nil _ hne]
    exact head_piece hr hne
  obtain ⟨hidx, htwo, hfour⟩ := processBuffer_count h2 (by simp) hhead
  simp only [List.count_append, hz, add_zero] at htwo hfour
  have htotal : data.count 32 + rest.count 32 = r.encode.count 32 := by
    rw [← hr, List.count_append]
  obtain ⟨q, hq⟩ := exists_method_append hr (List.count_pos_iff.mp (by omega))
  have hused : c₂.request.count 32 + r.encode.count 32 ≤ data.count 32 := by
    rw [count_encode hs]
    split_ifs with hm
    · exact hfour (q ++ 0 :: List.replicate (maxBuf - data.length - 1) 0) (by rw [hq, hm]; simp)
    · exact htwo
  refine ⟨?_, ?_, List.count_eq_zero.mp (by omega)⟩
  · rw [hsame.1]
    exact List.count_eq_zero.mp (by omega)
  · rw [hsame.2, hidx]

end Messages

/-- **A piece without spaces is never parsed**, if no space is left in the request. -/
theorem word_piece {e e' : Engine} {i : ℕ} {data uri : List UInt8} {opened : Bool} {ret : ℤ}
    (hreq : 32 ∉ (e.connections i).request) (hdata : 32 ∉ data) (h0 : 0 ∉ data) (hne : data ≠ [])
    (hfit : data.length + (e.connections i).requestIndex ≤ bufSize) :
    flaskRequestHandler i (.got data) uri opened e ≠ .ok (e', ret) := by
  intro h
  obtain ⟨c₁, c₂, h1, h2, -⟩ := flaskRequestHandler_got h hne hfit
  unfold TcpConnection.receive at h1
  split_ifs at h1
  cases h1
  refine processBuffer_ne_ok ?_ (List.append_ne_nil_of_left_ne_nil hne _) ?_ h2
  · exact fun hm => (List.mem_append.mp hm).elim hdata fun hm => hreq (List.mem_of_mem_drop hm)
  · intro b hb
    rw [List.head?_append_of_ne_nil _ hne] at hb
    exact fun e => h0 (e ▸ List.mem_of_mem_head? hb)

/-! ### Cuts -/

/-- The message has one outcome however it is cut. -/
def SplitsWell (i : ℕ) (e : Engine) (msg : List UInt8) : Prop :=
  ∀ ps, Cut msg ps → SameOutcome i e msg ps

section Cuts

variable {r : Request} {e : Engine} {i : ℕ} {c : TcpConnection}

theorem readAll_pair_ne_ok (hs : r.SpaceFree) (h0 : ∀ s ∈ r.texts, 0 ∉ s)
    (hfit : r.encode.length < maxBuf) (hc : e.connections i = initConnection c) {p q : Piece}
    {ps : List Piece} (hcut : Cut r.encode (p :: q :: ps)) (a : Engine) :
    readAll i (p :: q :: ps) e ≠ .ok a := by
  intro h
  obtain ⟨⟨e₁, ret⟩, h1, h⟩ := bind_eq_ok.mp h
  obtain ⟨⟨e₂, ret'⟩, h2, -⟩ := bind_eq_ok.mp h
  have hflat : p.data ++ (q.data ++ (ps.map Piece.data).flatten) = r.encode := by
    rw [← hcut.flatten]; simp
  obtain ⟨hreq, hidx, hrest⟩ := first_piece hs hfit hc hflat (hcut.nonempty p List.mem_cons_self) h1
  have hq : ∀ b ∈ q.data, b ∈ r.encode := fun b hb => by
    rw [← hflat]; exact List.mem_append_right _ (List.mem_append_left _ hb)
  refine word_piece hreq (fun hm => hrest (List.mem_append_left _ hm))
    (fun hm => zero_notMem_encode h0 (hq 0 hm))
    (hcut.nonempty q (List.mem_cons_of_mem _ List.mem_cons_self)) ?_ h2
  rw [← hflat, List.length_append, List.length_append] at hfit
  rw [hidx, bufSize_eq]
  omega

/-- A message is not read if its first byte comes alone. -/
theorem readAll_head_ne_ok (hc : e.connections i = initConnection c) {p : Piece} {ps : List Piece}
    {b : UInt8} (hp : p.data = [b]) (hb : b ≠ 32 ∧ b ≠ 0) (a : Engine) :
    readAll i (p :: ps) e ≠ .ok a := by
  intro h
  obtain ⟨⟨e₁, ret⟩, h1, -⟩ := bind_eq_ok.mp h
  have hreq : 32 ∉ (e.connections i).request := by
    rw [hc]
    exact space_notMem_replicate maxBuf
  have hidx : (e.connections i).requestIndex = 0 := by rw [hc]; rfl
  refine word_piece hreq ?_ ?_ ?_ ?_ h1
  · rw [hp]; exact fun hm => hb.1 (List.mem_singleton.mp hm).symm
  · rw [hp]; exact fun hm => hb.2 (List.mem_singleton.mp hm).symm
  · rw [hp]; exact List.cons_ne_nil _ _
  · rw [hp, hidx, List.length_singleton]; decide

theorem exists_cut (r : Request) : ∃ b p q, p.data = [b] ∧ (b ≠ 32 ∧ b ≠ 0) ∧ Cut r.encode [p, q] := by
  obtain ⟨b, m, hm⟩ := List.exists_cons_of_ne_nil (isWord_method r).ne_nil
  have hb : b ∈ r.method := by rw [hm]; exact List.mem_cons_self
  refine ⟨b, ⟨[b], [], true⟩, ⟨m ++ 32 :: r.body, [], true⟩, rfl, ?_, ?_, ?_⟩
  · exact ⟨fun e => (isWord_method r).sep (e ▸ hb), fun e => (isWord_method r).nul (e ▸ hb)⟩
  · simp
  · rw [encode_eq, hm]; simp

theorem exists_error_of_ne_ok {x : Except Stop Engine} (h : ∀ a, x ≠ .ok a) : ∃ s, x = .error s := by
  cases x with
  | error s => exact ⟨s, rfl⟩
  | ok a => exact absurd rfl (h a)

/-- **No message survives every cut, and one without spaces in its texts survives none**, whatever comes of
it in one piece. -/
theorem cut_iff (i : ℕ) (e : Engine) (c : TcpConnection) (hc : e.connections i = initConnection c)
    (r : Request) (hfit : r.encode.length ≤ maxBuf - 1) :
    ¬ SplitsWell i e r.encode ∧ (∃ ps s, Cut r.encode ps ∧ readAll i ps e = .error s) ∧
      (r.SpaceFree → (∀ s ∈ r.texts, 0 ∉ s) → ∀ ps, Cut r.encode ps →
        (SameOutcome i e r.encode ps ↔ ∃ p, ps = [p] ∧ ∃ a, readAll i [p] e = .ok a) ∧
          (1 < ps.length → ∃ s, readAll i ps e = .error s)) := by
  obtain ⟨b, p, q, hp, hb, hcut⟩ := exists_cut r
  refine ⟨fun h => ?_, ⟨[p, q], ?_⟩, fun hs h0 ps hcut => ⟨⟨?_, ?_⟩, fun hlen => ?_⟩⟩
  · obtain ⟨whole, a, a', -, ha, -⟩ := h _ hcut
    exact readAll_head_ne_ok hc hp hb a ha
  · have hfail : ∀ a, readAll i [p, q] e ≠ .ok a := readAll_head_ne_ok hc hp hb
    obtain ⟨s, hs⟩ := exists_error_of_ne_ok hfail
    exact ⟨s, hcut, hs⟩
  · rintro ⟨whole, a, a', hw, ha, -⟩
    rcases ps with _ | ⟨p, _ | ⟨q, ps⟩⟩
    · have hnil : r.encode = [] := hcut.flatten.symm
      rw [encode_eq] at hnil
      simp at hnil
    · exact ⟨p, rfl, a, ha⟩
    · exact absurd ha (readAll_pair_ne_ok hs h0 (lt_of_le_of_lt hfit (by decide)) hc hcut a)
  · rintro ⟨p, rfl, a, ha⟩
    exact ⟨p, a, a, by simpa using hcut.flatten, ha, ha, rfl⟩
  · rcases ps with _ | ⟨p, _ | ⟨q, ps⟩⟩
    · exact absurd hlen (by simp)
    · exact absurd hlen (by simp)
    · exact exists_error_of_ne_ok
        (readAll_pair_ne_ok hs h0 (lt_of_le_of_lt hfit (by decide)) hc hcut)

end Cuts

/-- `RDGET 1 a`, in one piece. -/
def wholeRead : Piece := ⟨(Request.rdget [97]).encode, blankBuf, true⟩

/-- `RDGET 1 ` and then `a`. -/
def lateName : List Piece := [⟨ascii "RDGET 1 ", blankBuf, true⟩, ⟨ascii "a", blankBuf, true⟩]

/-- In one piece the request is answered, in two the daemon faults. -/
theorem cut_iff_wholeRead : ∃ e, SameOutcome 7 e (Request.rdget [97]).encode [wholeRead] ∧
    ¬ SplitsWell 7 e (Request.rdget [97]).encode ∧ ¬ SameOutcome 7 e (Request.rdget [97]).encode lateName ∧
    ∃ s, readAll 7 lateName e = .error s := by
  have key : ((guarded (boot loneFiles)) >>= fun d =>
      (readAll 7 [wholeRead] (createEngine 3 4 d)).map fun a => (d, a)).map (fun _ => true) =
        .ok true := by decide +kernel
  obtain ⟨⟨d, a⟩, h, -⟩ := exists_of_map_eq_ok key
  obtain ⟨d', -, h⟩ := bind_eq_ok.mp h
  obtain ⟨hsplit, -, hsame⟩ :=
    cut_iff 7 (createEngine 3 4 d') blankConnection rfl (.rdget [97]) (by decide)
  have hcut := hsame (by simp [Request.SpaceFree, Request.texts]) (by simp [Request.texts])
  have hlate : Cut (Request.rdget [97]).encode lateName := ⟨by simp [lateName, ascii], by decide +kernel⟩
  refine ⟨createEngine 3 4 d', (hcut [wholeRead] ?_).1.mpr ⟨wholeRead, rfl, ?_⟩, hsplit, ?_,
    (hcut lateName hlate).2 (by decide)⟩
  · exact ⟨by simp [wholeRead, encode_eq], by simp [wholeRead]⟩
  · cases ha : readAll 7 [wholeRead] (createEngine 3 4 d') with
    | error s => rw [ha] at h; cases h
    | ok b => exact ⟨b, rfl⟩
  · rw [(hcut lateName hlate).1]
    rintro ⟨p, hp, -⟩
    cases hp

/-- `RDGET 2 a`, and then `b`. -/
def halves : List Piece :=
  [⟨ascii "RDGET 2 a", blankBuf, true⟩, ⟨ascii "b", blankBuf, true⟩]

/-- **A request whose name comes in two pieces.** -/
theorem exists_bad_cut : ∃ e, e.connections 7 = initConnection blankConnection ∧
    Cut (Request.rdget (ascii "ab")).encode halves ∧
    ¬ SameOutcome 7 e (Request.rdget (ascii "ab")).encode halves := by
  obtain ⟨d, hd⟩ := exists_boot_loneFiles
  have hcut : Cut (Request.rdget (ascii "ab")).encode halves :=
    ⟨by simp [halves, ascii], by decide +kernel⟩
  refine ⟨createEngine 3 4 d, rfl, hcut, ?_⟩
  rintro ⟨whole, a, b, -, ha, -⟩
  refine readAll_pair_ne_ok (c := blankConnection) ?_ ?_ ?_ rfl hcut a ha
  · simp [Request.SpaceFree, Request.texts, ascii]
  · simp [Request.texts, ascii]
  · decide +kernel

end RoutingDaemon
