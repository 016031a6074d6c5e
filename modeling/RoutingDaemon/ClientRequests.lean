import RoutingDaemon.AllOrNothing
import RoutingDaemon.RdgetReplies

/-!
# Any client request

* `Sized`: the buffers of a connection, whose request is ended; `sized_reachable`: they stay so.
* `Complete`: the words that `process_buffer` survives; `exists_processBuffer_iff`,
  `processBuffer_fields`.
* `Servable`: those that `build_response` survives; `servable_of_built`, `built_of_servable`.
* `client_survived_iff`: a request is survived exactly if it holds no word, or has all its fields and
  fits; `exists_crashing_request`: one word does not.
-/

namespace RoutingDaemon

/-! ### The buffers of a connection -/

/-- The buffers have their sizes, `request_index` is not negative, and a request that is not ended by a NUL
fills its buffer. -/
structure Sized (c : TcpConnection) : Prop where
  request : c.request.length = maxBuf
  method : c.method.length = maxBuf
  nameLength : c.nameLength.length = maxBuf
  name : c.name.length = maxBuf
  pathLength : c.pathLength.length = maxBuf
  path : c.path.length = maxBuf
  index : 0 ≤ c.requestIndex
  ended : c.requestIndex = maxBuf ∨ c.request[maxBuf - 1]? = some 0

theorem sized_init (c : TcpConnection) : Sized (initConnection c) where
  request := List.length_replicate
  method := List.length_replicate
  nameLength := List.length_replicate
  name := List.length_replicate
  pathLength := List.length_replicate
  path := List.length_replicate
  index := le_rfl
  ended := .inr (List.getElem?_replicate_of_lt (by decide))

section Scan

variable {c : TcpConnection} {mem : List UInt8} {t0 t1 t2 t3 t4 : TokenCall UInt8}

/-- **Every scan of a request ends**, in its buffer or right behind it. -/
theorem Sized.zero_mem_scanned (hs : Sized c) : 0 ∈ c.scanned := by
  rcases hs.ended with h | h
  · exact List.mem_append_right _ (by rw [h, if_pos (by decide)]; exact List.mem_singleton_self 0)
  · exact List.mem_append_left _ (List.mem_of_getElem? h)

theorem Sized.length_scanned (hs : Sized c) : c.scanned.length ≤ maxBuf + 1 := by
  rw [TcpConnection.scanned, List.length_append, hs.request]
  split_ifs <;> simp

theorem length_tokenized (h : Tokens mem t0 t1 t2 t3 t4) :
    (tokenized t0 t1 t2 t3 t4).length = mem.length := by
  have h0 := length_strtok space_ne_zero h.call0
  have h1 := length_strtok space_ne_zero h.call1
  have h2 := length_strtok space_ne_zero h.call2
  have h3 := length_strtok space_ne_zero h.call3
  have h4 := length_strtok space_ne_zero h.call4
  simp only [tokenized, List.length_append]
  omega

theorem getElem?_append_zero {p r r' : List UInt8} (h : ∀ k : ℕ, r[k]? = some 0 → r'[k]? = some 0) (k : ℕ)
    (hk : (p ++ r)[k]? = some 0) : (p ++ r')[k]? = some 0 := by
  rw [List.getElem?_append] at hk ⊢
  split_ifs at hk ⊢ with hlt
  · exact hk
  · exact h _ hk

theorem getElem?_tokenized (h : Tokens mem t0 t1 t2 t3 t4) (k : ℕ) (hk : mem[k]? = some 0) :
    (tokenized t0 t1 t2 t3 t4)[k]? = some 0 := by
  have h0 := fun k => getElem?_strtok (i := k) space_ne_zero h.call0
  have h1 := fun k => getElem?_strtok (i := k) space_ne_zero h.call1
  have h2 := fun k => getElem?_strtok (i := k) space_ne_zero h.call2
  have h3 := fun k => getElem?_strtok (i := k) space_ne_zero h.call3
  have h4 := fun k => getElem?_strtok (i := k) space_ne_zero h.call4
  have g3 := fun k hk => getElem?_append_zero h4 k (h3 k hk)
  have g2 := fun k hk => getElem?_append_zero g3 k (h2 k hk)
  have g1 := fun k hk => getElem?_append_zero g2 k (h1 k hk)
  exact getElem?_append_zero g1 k (h0 k hk)

theorem Sized.written (hs : Sized c) {mem : List UInt8} (hlen : c.request.length ≤ mem.length)
    (hzero : ∀ k : ℕ, c.scanned[k]? = some 0 → mem[k]? = some 0) :
    Sized { c with request := mem.take c.request.length } where
  request := by rw [List.length_take_of_le hlen, hs.request]
  method := hs.method
  nameLength := hs.nameLength
  name := hs.name
  pathLength := hs.pathLength
  path := hs.path
  index := hs.index
  ended := by
    refine hs.ended.imp_right fun h => ?_
    obtain ⟨hlt, -⟩ := List.getElem?_eq_some_iff.mp h
    show (mem.take c.request.length)[maxBuf - 1]? = some 0
    rw [List.getElem?_take_of_lt hlt]
    exact hzero _ (by rw [TcpConnection.scanned, List.getElem?_append_left hlt]; exact h)

theorem Sized.tokenized (hs : Sized c) (ht : Tokens c.scanned t0 t1 t2 t3 t4) :
    Sized { c with request := (tokenized t0 t1 t2 t3 t4).take c.request.length } := by
  refine hs.written ?_ (getElem?_tokenized ht)
  rw [length_tokenized ht, TcpConnection.scanned, List.length_append]
  exact Nat.le_add_right _ _

end Scan

section Copies

variable {c c' : TcpConnection} {method : List UInt8} {nameLength name pathLength path : Option (List UInt8)}

theorem copyTokens_status (h : copyTokens c method nameLength name pathLength path = .ok c') :
    c'.status = c.status := by
  obtain ⟨_, -, h⟩ := bind_eq_ok.mp h
  obtain ⟨_, -, h⟩ := bind_eq_ok.mp h
  obtain ⟨_, -, h⟩ := bind_eq_ok.mp h
  obtain ⟨_, -, h⟩ := bind_eq_ok.mp h
  obtain ⟨_, -, h⟩ := bind_eq_ok.mp h
  split_ifs at h
  · obtain ⟨_, -, h⟩ := bind_eq_ok.mp h
    obtain ⟨_, -, h⟩ := bind_eq_ok.mp h
    obtain ⟨_, -, h⟩ := bind_eq_ok.mp h
    obtain ⟨_, -, h⟩ := bind_eq_ok.mp h
    cases h
    rfl
  · cases h
    rfl

theorem copyTokens_sized (hs : Sized c)
    (h : copyTokens c method nameLength name pathLength path = .ok c') : Sized c' := by
  obtain ⟨_, hm, h⟩ := bind_eq_ok.mp h
  obtain ⟨_, -, h⟩ := bind_eq_ok.mp h
  obtain ⟨_, hnl, h⟩ := bind_eq_ok.mp h
  obtain ⟨_, -, h⟩ := bind_eq_ok.mp h
  obtain ⟨_, hn, h⟩ := bind_eq_ok.mp h
  have hm' := (store_length hm).2.trans hs.method
  have hnl' := (store_length hnl).2.trans hs.nameLength
  have hn' := (strncpy_length hn).trans hs.name
  split_ifs at h
  · obtain ⟨_, -, h⟩ := bind_eq_ok.mp h
    obtain ⟨_, hpl, h⟩ := bind_eq_ok.mp h
    obtain ⟨_, -, h⟩ := bind_eq_ok.mp h
    obtain ⟨_, hp, h⟩ := bind_eq_ok.mp h
    cases h
    exact ⟨hs.request, hm', hnl', hn', (store_length hpl).2.trans hs.pathLength,
      (strncpy_length hp).trans hs.path, hs.index, hs.ended⟩
  · cases h
    exact ⟨hs.request, hm', hnl', hn', hs.pathLength, hs.path, hs.index, hs.ended⟩

theorem processBuffer_sized (hs : Sized c) (h : processBuffer c = .ok c') : Sized c' := by
  rcases processBuffer_eq_ok h with ⟨t0, ht, -, rfl⟩ | ⟨t0, t1, t2, t3, t4, m, ht, -, hc⟩
  · have hw : Sized { c with request := (t0.passed ++ t0.rest).take c.request.length } := by
      refine hs.written ?_ fun k hk => getElem?_strtok space_ne_zero ht hk
      rw [List.length_append, length_strtok space_ne_zero ht, TcpConnection.scanned, List.length_append]
      exact Nat.le_add_right _ _
    exact { hw with }
  · exact copyTokens_sized (hs.tokenized ht) hc

theorem receive_sized {data : List UInt8} (hs : Sized c) (hne : data ≠ [])
    (hlen : data.length ≤ (bufSize - c.requestIndex).toNat) (h : c.receive data = .ok c') : Sized c' := by
  unfold TcpConnection.receive at h
  split_ifs at h with hfit
  cases h
  rw [hs.request] at hfit
  have hpos := List.length_pos_iff.mpr hne
  have hlast : data.length = maxBuf ∨ c.request[maxBuf - 1]? = some 0 ∧ data.length ≤ maxBuf - 1 := by
    have hidx := hs.index
    rw [bufSize_eq] at hlen
    rcases hs.ended with h | h
    · omega
    · by_cases hfull : data.length = maxBuf
      · exact .inl hfull
      · exact .inr ⟨h, by omega⟩
  refine { hs with request := ?_, index := Int.natCast_nonneg _, ended := ?_ }
  · rw [List.length_append, List.length_drop, hs.request]
    omega
  · refine hlast.imp (congrArg Int.ofNat) fun ⟨h, hle⟩ => ?_
    show (data ++ c.request.drop data.length)[maxBuf - 1]? = some 0
    rw [List.getElem?_append_right hle, List.getElem?_drop, Nat.add_sub_cancel' hle]
    exact h

theorem getLocalFilePath_sized {ol : LocalObjects} (hs : Sized c) (h : getLocalFilePath ol c = .ok c') :
    Sized c' := by
  rcases getLocalFilePath_spec ol hs.path with ⟨-, b, hb, -, hlen⟩ | ⟨-, hb⟩
  · rw [hb] at h
    cases h
    exact { hs with path := hlen }
  · rw [hb] at h
    cases h

end Copies

theorem kept_sized : Kept Sized where
  init c _ := sized_init c
  status _ _ h := { h with }
  read _ _ _ _ h hne hlen h1 h2 := processBuffer_sized (receive_sized h hne hlen h1) h2
  build _ _ _ _ _ _ h hb :=
    buildResponse_rule (fun _ _ _ _ hc => { hc with }) (fun _ _ hc h => getLocalFilePath_sized hc h) h hb

/-- **Every buffer of every connection keeps its size**, and every request is ended. -/
theorem sized_reachable {f : Files} {e : Engine} (r : (connectionSystem f).Reachable e) (i : ℕ) :
    Sized (e.connections i) :=
  kept_sized.reachable (sized_init blankConnection) r i

/-! ### Fields -/

/-- `strncpy` of so many bytes stays inside a buffer. -/
def FitsBuf (n : ℤ) : Prop := 0 ≤ n ∧ n ≤ maxBuf

/-- What `strncpy` leaves in a buffer. -/
def overwritten (buf s : List UInt8) (n : ℤ) : List UInt8 :=
  (s ++ List.replicate n.toNat 0).take n.toNat ++ buf.drop n.toNat

/-- The words of the string in memory, between spaces. -/
def requestWords (mem : List UInt8) : List (List UInt8) := words 32 (cstr mem).1

/-- The words that `process_buffer` uses are there, and its two lengths fit. -/
structure Complete (ws : List (List UInt8)) (m nl n : List UInt8) : Prop where
  method : ws[0]? = some m
  nameLength : ws[1]? = some nl
  name : ws[2]? = some n
  nameFits : FitsBuf (atoi nl).toInt
  path : m = ascii "ADDFILE" → ∃ pl p, ws[3]? = some pl ∧ ws[4]? = some p ∧ FitsBuf (atoi pl).toInt

theorem strncpy_of_fits {buf s : List UInt8} {n : ℤ} (hb : buf.length = maxBuf) (h : FitsBuf n) :
    strncpy buf s n = .ok (overwritten buf s n) := if_pos ⟨h.1, by rw [hb]; exact h.2⟩

theorem strncpy_eq_ok {buf s b : List UInt8} {n : ℤ} (hb : buf.length = maxBuf)
    (h : strncpy buf s n = .ok b) : FitsBuf n ∧ b = overwritten buf s n := by
  unfold strncpy at h
  split_ifs at h with hn
  cases h
  exact ⟨⟨hn.1, by rw [← hb]; exact hn.2⟩, rfl⟩

section Unique

variable {ws : List (List UInt8)} {m nl n m' nl' n' : List UInt8}

theorem Complete.unique (h : Complete ws m nl n) (h' : Complete ws m' nl' n') :
    m = m' ∧ nl = nl' ∧ n = n' :=
  ⟨Option.some.inj (h.method.symm.trans h'.method),
    Option.some.inj (h.nameLength.symm.trans h'.nameLength), Option.some.inj (h.name.symm.trans h'.name)⟩

theorem Complete.ne_nil (h : Complete ws m nl n) : ws ≠ [] := by
  rintro rfl
  cases h.method

end Unique

section Parsing

variable {c c' : TcpConnection}

theorem exists_copyTokens (hs : Sized c) {method nl name : List UInt8} {pl p : Option (List UInt8)}
    (hm : method.length < maxBuf) (hnl : nl.length < maxBuf) (hn : FitsBuf (atoi nl).toInt)
    (hp : method = ascii "ADDFILE" → ∃ pl' p', pl = some pl' ∧ p = some p' ∧ pl'.length < maxBuf ∧
      FitsBuf (atoi pl').toInt) : ∃ c', copyTokens c method (some nl) (some name) pl p = .ok c' := by
  obtain ⟨m, hm', -⟩ := store_of_lt (hm.trans_eq hs.method.symm)
  obtain ⟨l, hl', -⟩ := store_of_lt (hnl.trans_eq hs.nameLength.symm)
  unfold copyTokens
  simp only [hm', hl', deref_some, ok_bind, strncpy_of_fits hs.name hn]
  split_ifs with hmeth
  · obtain ⟨pl', p', rfl, rfl, hlen, hfit⟩ := hp hmeth
    obtain ⟨q, hq, -⟩ := store_of_lt (hlen.trans_eq hs.pathLength.symm)
    simp only [hq, deref_some, ok_bind, strncpy_of_fits hs.path hfit]
    exact ⟨_, rfl⟩
  · exact ⟨_, rfl⟩

theorem Sized.exists_tokens (hs : Sized c) : ∃ t0 t1 t2 t3 t4, Tokens c.scanned t0 t1 t2 t3 t4 ∧
    let ws := requestWords c.request
    t0.token = ws[0]? ∧ t1.token = ws[1]? ∧ t2.token = ws[2]? ∧ t3.token = ws[3]? ∧ t4.token = ws[4]? := by
  rw [requestWords, ← cstr_scanned]
  exact RoutingDaemon.exists_tokens hs.zero_mem_scanned

theorem Tokens.unique {mem : List UInt8} {t0 t1 t2 t3 t4 s0 s1 s2 s3 s4 : TokenCall UInt8}
    (h : Tokens mem t0 t1 t2 t3 t4) (h' : Tokens mem s0 s1 s2 s3 s4) :
    t0 = s0 ∧ t1 = s1 ∧ t2 = s2 ∧ t3 = s3 ∧ t4 = s4 := by
  cases h.call0.symm.trans h'.call0
  cases h.call1.symm.trans h'.call1
  cases h.call2.symm.trans h'.call2
  cases h.call3.symm.trans h'.call3
  cases h.call4.symm.trans h'.call4
  exact ⟨rfl, rfl, rfl, rfl, rfl⟩

/-- **What `process_buffer` leaves**: status 500 if there is no word, and otherwise the fields. -/
theorem processBuffer_fields (hs : Sized c) (h : processBuffer c = .ok c') :
    (requestWords c.request = [] ∧ c'.status = 500) ∨ ∃ m nl n, Complete (requestWords c.request) m nl n ∧
      c'.status = c.status ∧ (cstr c'.method).1 = m ∧ c'.name = overwritten c.name n (atoi nl).toInt := by
  obtain ⟨s0, s1, s2, s3, s4, hs', w0, w1, w2, w3, w4⟩ := hs.exists_tokens
  rcases processBuffer_eq_ok h with ⟨t0, ht, hn, rfl⟩ | ⟨t0, t1, t2, t3, t4, m, ht, hm, hc⟩
  · cases ht.symm.trans hs'.call0
    rw [hn] at w0
    exact .inl ⟨List.eq_nil_of_length_eq_zero (by simpa using w0.symm), rfl⟩
  · obtain ⟨rfl, rfl, rfl, rfl, rfl⟩ := ht.unique hs'
    have hw := hs.tokenized ht
    have hst := copyTokens_status hc
    obtain ⟨nl, n, hnl, hn, hmeth, hname, -, hpath⟩ := copyTokens_eq_ok hc
    obtain ⟨hfit, hover⟩ := strncpy_eq_ok hw.name hname
    refine .inr ⟨m, nl, n, ⟨w0.symm.trans hm, w1.symm.trans hnl, w2.symm.trans hn, hfit, fun hadd => ?_⟩,
      hst, cstr_store hmeth (isWord_token space_ne_zero ht.call0 hm).nul, hover⟩
    obtain ⟨pl, p, hpl, hp, hcopy⟩ := hpath hadd
    exact ⟨pl, p, w3.symm.trans hpl, w4.symm.trans hp, (strncpy_eq_ok hw.path hcopy).1⟩

/-- **`process_buffer` returns** exactly if there is no word, or the request has its fields. -/
theorem exists_processBuffer_iff (hs : Sized c) : (∃ c', processBuffer c = .ok c') ↔
    requestWords c.request = [] ∨ ∃ m nl n, Complete (requestWords c.request) m nl n := by
  constructor
  · rintro ⟨c', h⟩
    refine (processBuffer_fields hs h).imp And.left ?_
    rintro ⟨m, nl, n, hc, -⟩
    exact ⟨m, nl, n, hc⟩
  · obtain ⟨t0, t1, t2, t3, t4, ht, w0, w1, w2, w3, w4⟩ := hs.exists_tokens
    rintro (h | ⟨m, nl, n, hm, hnl, hn, hfit, hpath⟩)
    · rw [h] at w0
      rw [processBuffer, strtokSpace_eq_ok.mpr ht.call0, ok_bind, w0]
      exact ⟨_, rfl⟩
    · rw [hm] at w0
      rw [hnl] at w1
      rw [hn] at w2
      -- a word is shorter than the memory it was cut out of
      have hlen := hs.length_scanned
      have h0 := length_strtok space_ne_zero ht.call0
      have h1 := length_strtok space_ne_zero ht.call1
      have h2 := length_strtok space_ne_zero ht.call2
      have l0 := length_token_le space_ne_zero ht.call0 w0
      have l1 := length_token space_ne_zero ht.call1 w1
      have p0 := List.length_pos_iff.mpr (isWord_token space_ne_zero ht.call0 w0).ne_nil
      have p1 := List.length_pos_iff.mpr (isWord_token space_ne_zero ht.call1 w1).ne_nil
      have hcopy : ∃ c', copyTokens { c with
          request := (tokenized t0 t1 t2 t3 t4).take c.request.length } m (some nl) (some n)
          t3.token t4.token = .ok c' := by
        refine exists_copyTokens (hs.tokenized ht) (by omega) (by omega) hfit fun hadd => ?_
        obtain ⟨pl, p, hpl, hp, hfit'⟩ := hpath hadd
        rw [hpl] at w3
        have l3 := length_token space_ne_zero ht.call3 w3
        exact ⟨pl, p, w3, w4.trans hp, by omega, hfit'⟩
      obtain ⟨c', hc⟩ := hcopy
      refine ⟨c', ?_⟩
      simp only [processBuffer, strtokSpace_eq_ok.mpr ht.call0, strtokSpace_eq_ok.mpr ht.call1,
        strtokSpace_eq_ok.mpr ht.call2, strtokSpace_eq_ok.mpr ht.call3, strtokSpace_eq_ok.mpr ht.call4,
        ok_bind, w0, w1, w2]
      exact hc

end Parsing

/-! ### Responses -/

/-- `build_response` returns, or stops at the NULL of an `fopen` that failed. -/
def Built (uri : List UInt8) (opened : Bool) (d : Daemon) (c : TcpConnection) : Prop :=
  (∃ x, buildResponse uri opened d c = .ok x) ∨
    opened = false ∧ buildResponse uri opened d c = .error .badPointer

/-- A method and a name for which the copies of `build_response` fit. -/
structure Servable (d : Daemon) (method : List UInt8) (name : CString) : Prop where
  rdget : method = ascii "RDGET" → ¬ PathMissing d name ∧ UriFits d name
  addfile : method = ascii "ADDFILE" → containsObject superFastHash d.gol name = none →
    strlen name < maxObjLen ∧ RoomToAdd true d

section Build

variable {d : Daemon} {c : TcpConnection}

theorem method_eq_lit {s : CString} {m : String} (h : 0 ∉ ascii m) : s.1 = ascii m ↔ s = lit m := by
  have hlit : (lit m).1 = ascii m := congrArg Subtype.val (cstr_eq_self (s := ⟨ascii m, h⟩))
  rw [← hlit]
  exact Subtype.ext_iff.symm

theorem not_pathMissing {t : Target} (ht : rdgetTarget d (cstr c.name) = .ok t)
    (h : (rdgetReply (printedUri (List.replicate bufSize 1) d (cstr c.name) t)).length < maxBuf) :
    ¬ PathMissing d (cstr c.name) := by
  rintro ⟨hhere, hempty⟩
  cases ht.symm.trans hhere
  rw [printedUri_stale _ hempty] at h
  have hfull : (cstr (List.replicate bufSize 1)).1 = List.replicate bufSize 1 := by decide +kernel
  have hlt := length_lt_okUri (cstr (List.replicate bufSize 1)).1
  rw [hfull, List.length_replicate] at hlt
  rw [rdgetReply, hfull] at h
  exact absurd (hlt.trans h) (lt_irrefl _)

theorem servable_of_built (hc : ConnectionOk c) (hs : c.status = 200)
    (h : ∀ uri : List UInt8, uri.length = bufSize → ∃ x, buildResponse uri true d c = .ok x) :
    Servable d (cstr c.method).1 (cstr c.name) := by
  have hne : lit "RDGET" ≠ lit "ADDFILE" := by decide
  obtain ⟨⟨d', c'⟩, hb⟩ := h (List.replicate bufSize 1) List.length_replicate
  have hr := (buildResponse_replies hc.path hc.response List.length_replicate hb).1
  refine ⟨fun hm => ?_, fun hm hnew => ?_⟩
  · rw [method_eq_lit (by decide)] at hm
    generalize c'.sent = s at hr
    cases hr with
    | failed status => exact absurd hs status
    | rdget status method target fits =>
      have hpath := not_pathMissing target fits
      refine ⟨hpath, fun t u ht hu => ?_⟩
      cases target.symm.trans ht
      rw [printedUri_eq fun h0 hempty => hpath ⟨h0 ▸ target, hempty⟩, hu] at fits
      exact fits
    | listed status method => exact absurd (hm.symm.trans method) hne
    | added status method => exact absurd (hm.symm.trans method) hne
    | other status rdget => exact absurd hm rdget
  · rw [method_eq_lit (by decide)] at hm
    generalize c'.sent = s at hr
    cases hr with
    | failed status => exact absurd hs status
    | rdget status method => exact absurd (method.symm.trans hm) hne
    | listed status method known => exact absurd hnew known
    | added status method addable =>
      exact ⟨addable.name, (addable_iff hnew addable.name addable.path).mp addable⟩
    | other status rdget addfile => exact absurd hm addfile

/-- **A servable request is answered**, whatever `uri` held. -/
theorem built_of_servable (hc : ConnectionOk c) (hs : c.status = 200)
    (ht : ∃ t, rdgetTarget d (cstr c.name) = .ok t) (h : Servable d (cstr c.method).1 (cstr c.name))
    {uri : List UInt8} (hu : uri.length = bufSize) (opened : Bool) : Built uri opened d c := by
  have returns : ∀ {s : List UInt8}, Replies uri opened d c s → Built uri opened d c := by
    intro s hr
    obtain ⟨d', c', hb, -⟩ := exists_buildResponse_of_replies hc.path hc.response hu hr
    exact .inl ⟨_, hb⟩
  by_cases hget : cstr c.method = lit "RDGET"
  · obtain ⟨t, ht⟩ := ht
    obtain ⟨hpath, hfit⟩ := h.rdget ((method_eq_lit (by decide)).mpr hget)
    refine returns (.rdget hs hget ht ?_)
    rw [printedUri_eq fun h0 hempty => hpath ⟨h0 ▸ ht, hempty⟩]
    cases hu : targetUri d (cstr c.name) t with
    | none => exact show (ascii "NOTFOUND 0 ").length < maxBuf by decide
    | some u => exact hfit t u ht hu
  by_cases hadd : cstr c.method = lit "ADDFILE"
  · by_cases hnew : containsObject superFastHash d.gol (cstr c.name) = none
    · obtain ⟨hname, hroom⟩ := h.addfile ((method_eq_lit (by decide)).mpr hadd) hnew
      have haddable := (addable_iff hnew hname hc.path_lt).mpr hroom
      cases opened with
      | true => exact returns (.added hs hadd haddable)
      | false =>
        refine .inr ⟨rfl, ?_⟩
        rw [buildResponse, dispatch_addfile hs hadd, addfile_unopened haddable]
        rfl
    · exact returns (.listed hs hadd hnew)
  · exact returns (.other hs hget hadd)

end Build

/-! ### Requests on a connection -/

/-- The bytes that `recv` yields. -/
def received (e : Engine) (i : ℕ) (data : List UInt8) : List UInt8 :=
  data.take (bufSize - (e.connections i).requestIndex).toNat

/-- What `process_buffer` reads: the received bytes over the previous contents of the request. -/
def requestMemory (e : Engine) (i : ℕ) (data : List UInt8) : List UInt8 :=
  received e i data ++ (e.connections i).request.drop (received e i data).length

/-- The words of the request. -/
def requestFields (e : Engine) (i : ℕ) (data : List UInt8) : List (List UInt8) :=
  requestWords (requestMemory e i data)

/-- The request has its fields, and every text fits where it is copied to. -/
def Fitting (e : Engine) (i : ℕ) (data : List UInt8) : Prop :=
  ∃ m nl n, Complete (requestFields e i data) m nl n ∧
    Servable e.daemon m (cstr (overwritten (e.connections i).name n (atoi nl).toInt))

/-- A request that lacks a field or does not fit: it has fewer fields than its method needs, a length field
that is negative or larger than the buffer, or a new name that is longer than the tables hold. -/
inductive Unfit (e : Engine) (i : ℕ) (data : List UInt8) : Prop
  | fields (few : (requestFields e i data).length < 3)
  | path (method : (requestFields e i data)[0]? = some (ascii "ADDFILE"))
      (few : (requestFields e i data).length < 5)
  | nameLength {nl : List UInt8} (field : (requestFields e i data)[1]? = some nl)
      (big : (atoi nl).toInt < 0 ∨ maxBuf < (atoi nl).toInt)
  | pathLength {pl : List UInt8} (method : (requestFields e i data)[0]? = some (ascii "ADDFILE"))
      (field : (requestFields e i data)[3]? = some pl)
      (big : (atoi pl).toInt < 0 ∨ maxBuf < (atoi pl).toInt)
  | name {c : TcpConnection} (parses : Parses e i data c) (status : c.status = 200)
      (method : cstr c.method = lit "ADDFILE")
      (new : containsObject superFastHash e.daemon.gol (cstr c.name) = none)
      (long : maxObjLen ≤ strlen (cstr c.name))

/-- The request on connection `i` is survived. -/
structure RequestSurvived (e : Engine) (i : ℕ) (data : List UInt8) : Prop where
  /-- `process_buffer` uses no missing token, and its copies fit -/
  parsed : ∃ c, Parses e i data c
  /-- the copies of `build_response` fit -/
  built : ∀ c uri opened, Parses e i data c → uri.length = bufSize → Built uri opened e.daemon c
  /-- what lacks a field or does not fit is answered with an error and changes no table -/
  refused : Unfit e i data → ∀ uri opened, uri.length = bufSize → ∃ e' ret,
    flaskRequestHandler i (.got data) uri opened e = .ok (e', ret) ∧ e'.daemon = e.daemon ∧
      ascii "ERROR " <+: (e'.connections i).sent

section Engine

variable {e : Engine} {i : ℕ} {data : List UInt8} {c : TcpConnection}

theorem receive_eq (hs : Sized (e.connections i)) :
    (e.connections i).receive (received e i data) = .ok { e.connections i with
      request := requestMemory e i data
      requestIndex := (received e i data).length
      status := 200 } := by
  refine if_pos ?_
  have hlen := List.length_take_le (bufSize - (e.connections i).requestIndex).toNat data
  have hidx := hs.index
  rw [hs.request, received]
  unfold bufSize at *
  unfold maxBuf
  omega

theorem parses_iff (hs : Sized (e.connections i)) (hne : received e i data ≠ []) :
    Parses e i data c ↔ processBuffer { e.connections i with
      request := requestMemory e i data
      requestIndex := (received e i data).length
      status := 200 } = .ok c := by
  constructor
  · rintro ⟨-, c₁, h1, h2⟩
    cases (receive_eq hs).symm.trans h1
    exact h2
  · exact fun h => ⟨hne, _, receive_eq hs, h⟩

theorem sized_received (hs : Sized (e.connections i)) (hne : received e i data ≠ []) :
    Sized { e.connections i with
      request := requestMemory e i data
      requestIndex := (received e i data).length
      status := 200 } :=
  receive_sized hs hne (List.length_take_le _ _) (receive_eq hs)

theorem handler_unparsed {uri : List UInt8} {opened : Bool} {f : Fault}
    (hne : received e i data ≠ []) (h1 : (e.connections i).receive (received e i data) = .ok c)
    (h2 : processBuffer c = .error f) :
    flaskRequestHandler i (.got data) uri opened e = .error (.fault f) := by
  unfold received at hne h1
  simp only [flaskRequestHandler, if_neg hne, h1, guarded, Except.mapError, ok_bind, h2, error_bind]

theorem Parses.refused (hp : Parses e i data c) (hc : ConnectionOk c) (hs : c.status ≠ 200)
    {uri : List UInt8} (hu : uri.length = bufSize) (opened : Bool) : ∃ e' ret,
      flaskRequestHandler i (.got data) uri opened e = .ok (e', ret) ∧ e'.daemon = e.daemon ∧
        ascii "ERROR " <+: (e'.connections i).sent := by
  have hr : Replies uri opened e.daemon c (ascii "ERROR 21 Internal Server Error ") := .failed hs
  obtain ⟨d', c', hb, hsent⟩ := exists_buildResponse_of_replies hc.path hc.response hu hr
  have hd : d' = e.daemon := by
    obtain ⟨⟨d₁, c₁⟩, h1, h⟩ := bind_eq_ok.mp hb
    cases h
    rw [dispatch, if_pos hs] at h1
    obtain ⟨_, -, h1⟩ := bind_eq_ok.mp h1
    cases h1
    rfl
  refine ⟨_, 1, hp.handler_iff.mpr ⟨rfl, d', c', hb, rfl⟩, hd, ?_⟩
  simp only [setConnection_self, hsent]
  decide

theorem Fitting.not_unfit {f : Files} (r : (connectionSystem f).Reachable e)
    (hne : received e i data ≠ []) (h : Fitting e i data) : ¬ Unfit e i data := by
  have hs := sized_reachable r i
  obtain ⟨m, nl, n, hc, hserv⟩ := h
  have hlen : ∀ {k : ℕ} {w : List UInt8}, (requestFields e i data)[k]? = some w →
      k < (requestFields e i data).length := fun h => (List.getElem?_eq_some_iff.mp h).1
  intro hu
  cases hu with
  | fields few => exact absurd (hlen hc.name) (by omega)
  | path method few =>
    obtain ⟨-, _, -, hp, -⟩ := hc.path (Option.some.inj (hc.method.symm.trans method))
    exact absurd (hlen hp) (by omega)
  | nameLength field big =>
    cases hc.nameLength.symm.trans field
    have := hc.nameFits
    unfold FitsBuf at this
    omega
  | pathLength method field big =>
    obtain ⟨_, -, hpl, -, hfit⟩ := hc.path (Option.some.inj (hc.method.symm.trans method))
    cases hpl.symm.trans field
    unfold FitsBuf at hfit
    omega
  | name parses status method new long =>
    rcases processBuffer_fields (sized_received hs hne) ((parses_iff hs hne).mp parses) with
      ⟨hnil, -⟩ | ⟨m', nl', n', hc', -, hm, hname⟩
    · exact hc.ne_nil hnil
    · obtain ⟨rfl, rfl, rfl⟩ := hc.unique hc'
      rw [← hm, ← hname] at hserv
      exact absurd (hserv.addfile ((method_eq_lit (by decide)).mpr method) new).1 (by omega)

end Engine

/-- **A client request is survived exactly if it holds no word at all, or has all its fields and fits.** -/
theorem client_survived_iff {f : Files} {e : Engine} (r : (connectionSystem f).Reachable e) {i : ℕ}
    {data : List UInt8} (hne : received e i data ≠ []) :
    RequestSurvived e i data ↔ requestFields e i data = [] ∨ Fitting e i data := by
  have hs := sized_reachable r i
  have ht := (located_reachable (daemon_reachable r)).rdgetTarget_ok
  have hok : ∀ {c}, Parses e i data c → ConnectionOk c := fun hp =>
    hp.connectionOk (connectionsOk_reachable r)
  have hfields : ∀ {c}, Parses e i data c → (requestFields e i data = [] ∧ c.status = 500) ∨
      ∃ m nl n, Complete (requestFields e i data) m nl n ∧ c.status = 200 ∧ (cstr c.method).1 = m ∧
        c.name = overwritten (e.connections i).name n (atoi nl).toInt := fun hp =>
    processBuffer_fields (sized_received hs hne) ((parses_iff hs hne).mp hp)
  constructor
  · intro h
    obtain ⟨c, hp⟩ := h.parsed
    rcases hfields hp with ⟨hblank, -⟩ | ⟨m, nl, n, hcomplete, hst, hm, hname⟩
    · exact .inl hblank
    · refine .inr ⟨m, nl, n, hcomplete, ?_⟩
      rw [← hname, ← hm]
      refine servable_of_built (hok hp) hst fun uri hu => ?_
      exact (h.built c uri true hp hu).resolve_right fun h => by cases h.1
  · intro h
    have hparse : ∃ c, Parses e i data c := by
      obtain ⟨c, hc⟩ := (exists_processBuffer_iff (sized_received hs hne)).mpr
        (h.imp_right fun ⟨m, nl, n, hc, _⟩ => ⟨m, nl, n, hc⟩)
      exact ⟨c, (parses_iff hs hne).mpr hc⟩
    refine ⟨hparse, fun c uri opened hp hu => ?_, fun hunfit uri opened hu => ?_⟩
    · rcases hfields hp with ⟨-, hst⟩ | ⟨m, nl, n, hcomplete, hst, hm, hname⟩
      · have hr : Replies uri opened e.daemon c (ascii "ERROR 21 Internal Server Error ") :=
          .failed (by rw [hst]; decide)
        obtain ⟨d', c', hb, -⟩ := exists_buildResponse_of_replies (hok hp).path (hok hp).response hu hr
        exact .inl ⟨_, hb⟩
      · obtain ⟨m', nl', n', hcomplete', hserv⟩ := h.resolve_left hcomplete.ne_nil
        obtain ⟨rfl, rfl, rfl⟩ := hcomplete.unique hcomplete'
        rw [← hm, ← hname] at hserv
        exact built_of_servable (hok hp) hst (ht (cstr c.name)) hserv hu opened
    · obtain ⟨c, hp⟩ := hparse
      rcases hfields hp with ⟨-, hst⟩ | ⟨m, nl, n, hcomplete, -⟩
      · exact hp.refused (hok hp) (by rw [hst]; decide) hu opened
      · exact absurd hunfit ((h.resolve_left hcomplete.ne_nil).not_unfit r hne)

/-- `RDGET 1 a` is survived. -/
theorem client_survived_iff_rdget : ∃ e, RequestSurvived e 0 (ascii "RDGET 1 a") := by
  obtain ⟨d, c, h, hst, hm, ht⟩ := firstRequest_rdget
  obtain ⟨r, hp⟩ := firstRequest_eq_ok (by decide) (by decide) h
  have hs := sized_reachable r 0
  refine ⟨_, (client_survived_iff r hp.nonempty).mpr (.inr ?_)⟩
  rcases processBuffer_fields (sized_received hs hp.nonempty) ((parses_iff hs hp.nonempty).mp hp) with
    ⟨-, h500⟩ | ⟨m, nl, n, hcomplete, -, hmeth, hname⟩
  · rw [hst] at h500
    cases h500
  · refine ⟨m, nl, n, hcomplete, fun _ => ⟨?_, ?_⟩, fun hadd => ?_⟩
    · rintro ⟨hhere, -⟩
      rw [← hname] at hhere
      cases ht.symm.trans hhere
    · intro t u ht' hu
      rw [← hname] at ht'
      cases ht.symm.trans ht'
      cases hu
    · rw [← hmeth, hm] at hadd
      exact absurd hadd (by decide)

/-- **A request without a name crashes the daemon.** -/
theorem exists_crashing_request : ∃ e, (connectionSystem loneFiles).Reachable e ∧ 0 ∈ e.clients ∧
    received e 0 (ascii "RDGET") = ascii "RDGET" ∧ ¬ RequestSurvived e 0 (ascii "RDGET") ∧
    ∀ uri opened, flaskRequestHandler 0 (.got (ascii "RDGET")) uri opened e =
      .error (.fault .badPointer) := by
  obtain ⟨d, hd⟩ := exists_boot_loneFiles
  have key : ((initConnection blankConnection).receive (ascii "RDGET") >>= processBuffer).map
      (fun _ => ()) = .error .badPointer := by decide +kernel
  have herr := error_of_map key
  obtain ⟨c₁, h1⟩ : ∃ c₁, (initConnection blankConnection).receive (ascii "RDGET") = .ok c₁ :=
    ⟨_, receive_init (by decide)⟩
  rw [h1, ok_bind] at herr
  have r := reachable_first hd
  have hconn : ((createEngine 3 4 d).register 0).connections 0 = initConnection blankConnection := rfl
  have htake : received ((createEngine 3 4 d).register 0) 0 (ascii "RDGET") = ascii "RDGET" := by
    rw [received, hconn]
    decide
  have hne : received ((createEngine 3 4 d).register 0) 0 (ascii "RDGET") ≠ [] := by
    rw [htake]
    decide
  have hreceive : (((createEngine 3 4 d).register 0).connections 0).receive
      (received ((createEngine 3 4 d).register 0) 0 (ascii "RDGET")) = .ok c₁ := by
    rw [htake, hconn, h1]
  refine ⟨_, r, Finset.mem_insert_self _ _, htake, fun h => ?_, fun uri opened => ?_⟩
  · obtain ⟨c, -, c₂, h2, h3⟩ := h.parsed
    cases hreceive.symm.trans h2
    cases herr.symm.trans h3
  · exact handler_unparsed hne hreceive herr

end RoutingDaemon
