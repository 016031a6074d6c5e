import RoutingDaemon.FlaskEngine
import RoutingDaemon.Lib.Strtok

/-!
# Parsing requests

* `atoi`: the `long` of `strtol`, cast to an `int`.
* `processBuffer`: the tokens of a request, copied to the buffers of the connection;
  `processBuffer_eq_ok`: what it does. The scan may run on into the zeros of `request_index`, so it always
  finds an end: `exists_tokens`.
* `Request`, `Request.encode`: the messages of the web server.
* `decodes_iff`: a request is parsed back exactly when its texts hold no space.
-/

namespace RoutingDaemon

/-! ### `process_buffer` -/

/-- `strtok` with the delimiter `" "`. -/
def strtokSpace (mem : List UInt8) : Except Fault (TokenCall UInt8) :=
  match strtok 32 0 mem with
  | some t => .ok t
  | none => .error .overRead

/-- `isspace` -/
def isSpace (b : UInt8) : Bool := b = 32 || (9 ≤ b.toNat && b.toNat ≤ 13)

/-- `strtol` in base 10: what does not fit a `long` becomes the nearest one. -/
def strtol (s : List UInt8) : ℤ :=
  let s := s.dropWhile isSpace
  let n : ℤ :=
    if s.head? = some 45 then -(readNat s.tail)
    else if s.head? = some 43 then readNat s.tail
    else readNat s
  max (-2 ^ 63) (min n (2 ^ 63 - 1))

/-- `atoi`: the `long` of `strtol`, cast to an `int`. -/
def atoi (s : List UInt8) : Int32 := .ofInt (strtol s)

/-- `strncpy`: `n` bytes are written, the string cut off or padded with zeros. A negative `n` is a
huge `size_t`. -/
def strncpy (buf s : List UInt8) (n : ℤ) : Except Fault (List UInt8) :=
  if 0 ≤ n ∧ n ≤ buf.length then
    .ok ((s ++ List.replicate n.toNat 0).take n.toNat ++ buf.drop n.toNat)
  else .error .overflow

/-- The copies at the end of `process_buffer`. -/
def copyTokens (c : TcpConnection) (method : List UInt8)
    (nameLength name pathLength path : Option (List UInt8)) : Except Fault TcpConnection := do
  let methodBuf ← store c.method method
  let nameLength ← deref nameLength
  let nameLengthBuf ← store c.nameLength nameLength
  let name ← deref name
  let nameBuf ← strncpy c.name name (atoi nameLength).toInt
  let c := { c with method := methodBuf, nameLength := nameLengthBuf, name := nameBuf }
  if method = ascii "ADDFILE" then do
    let pathLength ← deref pathLength
    let pathLengthBuf ← store c.pathLength pathLength
    let path ← deref path
    let pathBuf ← strncpy c.path path (atoi pathLength).toInt
    .ok { c with pathLength := pathLengthBuf, path := pathBuf }
  else .ok c

/-- What `strtok` scans. `request_index` lies directly behind the request: its first byte, if it is zero,
ends a request that fills the array. -/
def TcpConnection.scanned (c : TcpConnection) : List UInt8 :=
  c.request ++ if c.requestIndex % 256 = 0 then [0] else []

/-- `process_buffer`. Its `FD_SET` is repeated by its caller. -/
def processBuffer (c : TcpConnection) : Except Fault TcpConnection := do
  let t0 ← strtokSpace c.scanned
  match t0.token with
  | none => .ok { c with request := (t0.passed ++ t0.rest).take c.request.length, status := 500 }
  | some method => do
    let t1 ← strtokSpace t0.rest
    let t2 ← strtokSpace t1.rest
    let t3 ← strtokSpace t2.rest
    let t4 ← strtokSpace t3.rest
    let request := t0.passed ++ (t1.passed ++ (t2.passed ++ (t3.passed ++ (t4.passed ++ t4.rest))))
    copyTokens { c with request := request.take c.request.length } method t1.token t2.token t3.token t4.token

/-- What was received is copied to the start of the request. -/
def TcpConnection.receive (c : TcpConnection) (data : List UInt8) : Except Fault TcpConnection :=
  if data.length ≤ c.request.length then
    .ok { c with
      request := data ++ c.request.drop data.length
      requestIndex := data.length
      status := 200 }
  else .error .overflow

theorem strtokSpace_eq_ok {mem : List UInt8} {t : TokenCall UInt8} :
    strtokSpace mem = .ok t ↔ strtok 32 0 mem = some t := by
  unfold strtokSpace
  cases strtok 32 0 mem <;> simp

theorem space_ne_zero : (32 : UInt8) ≠ 0 := by decide

section Tokens

variable {word : List UInt8} (hw : IsWord 32 0 word) (rest : List UInt8)

include hw in
theorem strtokSpace_word :
    strtokSpace (word ++ 32 :: rest) = .ok ⟨word ++ [0], rest, some word⟩ :=
  strtokSpace_eq_ok.mpr (strtok_word space_ne_zero hw rest)

include hw in
theorem strtokSpace_last :
    strtokSpace (word ++ 0 :: rest) = .ok ⟨word, 0 :: rest, some word⟩ :=
  strtokSpace_eq_ok.mpr (strtok_last space_ne_zero hw rest)

theorem strtokSpace_nul : strtokSpace (0 :: rest) = .ok ⟨[], 0 :: rest, none⟩ :=
  strtokSpace_eq_ok.mpr (strtok_nul space_ne_zero rest)

end Tokens

theorem atoi_decimal {n : ℕ} (hn : n < 2 ^ 31) : (atoi (decimal n)).toInt = n := by
  rw [decimal_natCast]
  have hd := isDigit_printNat n
  have hread : readNat (printNat n) = n := by
    simpa using readNat_printNat n [] (by simp)
  cases hp : printNat n with
  | nil => exact absurd hp (printNat_ne_nil n)
  | cons b bs =>
    rw [hp] at hd hread
    have hb := hd b List.mem_cons_self
    have hspace : isSpace b = false := by
      simp only [isDigit, Bool.and_eq_true, decide_eq_true_eq] at hb
      have h32 : b ≠ 32 := fun e => by rw [e] at hb; exact absurd hb.1 (by decide)
      simp [isSpace, h32]
      omega
    have h1 : b ≠ 45 := ne_of_isDigit hb (by decide)
    have h2 : b ≠ 43 := ne_of_isDigit hb (by decide)
    have hlong : strtol (b :: bs) = n := by
      simp [strtol, hspace, h1, h2, hread]
      omega
    rw [atoi, hlong, Int32.toInt_ofInt_of_le (by omega) (by omega)]

example : atoi (ascii "4294967297") = 1 := by decide

theorem cstr_blankBuf : (cstr blankBuf).1 = [] := by
  rw [blankBuf, show maxBuf = 1023 + 1 from rfl, List.replicate_succ]
  rfl

theorem space_notMem_replicate (n : ℕ) : (32 : UInt8) ∉ List.replicate n 0 :=
  fun h => space_ne_zero (List.eq_of_mem_replicate h)

theorem drop_blankBuf {n : ℕ} (h : n < maxBuf) :
    blankBuf.drop n = 0 :: List.replicate (maxBuf - n - 1) 0 := by
  rw [blankBuf, List.drop_replicate, ← List.replicate_succ]
  congr 1
  omega

theorem strncpy_blankBuf {s : List UInt8} (h : s.length < maxBuf) (h0 : 0 ∉ s) :
    ∃ b, strncpy blankBuf s s.length = .ok b ∧ (cstr b).1 = s := by
  refine ⟨_, if_pos ⟨by omega, by simp [blankBuf]; omega⟩, ?_⟩
  rw [Int.toNat_natCast, List.take_left, drop_blankBuf h]
  exact congrArg Subtype.val (cstr_append (s := ⟨s, h0⟩) _)

theorem strcpy_blankBuf {s : List UInt8} (h : s.length < maxBuf) (h0 : 0 ∉ s) :
    ∃ b, store blankBuf s = .ok b ∧ (cstr b).1 = s := by
  have hlt : s.length < blankBuf.length := by simpa [blankBuf] using h
  obtain ⟨b, hb, -⟩ := store_of_lt hlt
  exact ⟨b, hb, cstr_store hb h0⟩

theorem notMem_strncpy {buf s b : List UInt8} {n : ℤ} {x : UInt8} (h : strncpy buf s n = .ok b)
    (hs : x ∉ s) (hbuf : x ∉ buf) (h0 : x ≠ 0) : x ∉ b := by
  unfold strncpy at h
  split_ifs at h
  cases h
  intro hm
  rcases List.mem_append.mp hm with hm | hm
  · rcases List.mem_append.mp (List.mem_of_mem_take hm) with hm | hm
    · exact hs hm
    · exact h0 (List.eq_of_mem_replicate hm)
  · exact hbuf (List.mem_of_mem_drop hm)

theorem notMem_cstr {b : List UInt8} {x : UInt8} (h : x ∉ b) : x ∉ (cstr b).1 :=
  fun hm => h ((List.takeWhile_prefix _).subset hm)

/-- What `process_buffer` does with a string of at least one word: five calls of `strtok`. -/
structure Tokens (mem : List UInt8) (t0 t1 t2 t3 t4 : TokenCall UInt8) : Prop where
  call0 : strtok 32 0 mem = some t0
  call1 : strtok 32 0 t0.rest = some t1
  call2 : strtok 32 0 t1.rest = some t2
  call3 : strtok 32 0 t2.rest = some t3
  call4 : strtok 32 0 t3.rest = some t4

/-- The request after the five calls. -/
def tokenized (t0 t1 t2 t3 t4 : TokenCall UInt8) : List UInt8 :=
  t0.passed ++ (t1.passed ++ (t2.passed ++ (t3.passed ++ (t4.passed ++ t4.rest))))

/-- `process_buffer` finds no token, or copies the tokens it finds. -/
theorem processBuffer_eq_ok {c c' : TcpConnection} (h : processBuffer c = .ok c') :
    (∃ t0, strtok 32 0 c.scanned = some t0 ∧ t0.token = none ∧
        c' = { c with request := (t0.passed ++ t0.rest).take c.request.length, status := 500 }) ∨
      ∃ t0 t1 t2 t3 t4 method, Tokens c.scanned t0 t1 t2 t3 t4 ∧ t0.token = some method ∧
        copyTokens { c with request := (tokenized t0 t1 t2 t3 t4).take c.request.length } method t1.token
          t2.token t3.token t4.token = .ok c' := by
  obtain ⟨t0, h0, h⟩ := bind_eq_ok.mp h
  rw [strtokSpace_eq_ok] at h0
  split at h
  · rename_i ht
    cases h
    exact .inl ⟨t0, h0, ht, rfl⟩
  · rename_i method ht
    obtain ⟨t1, h1, h⟩ := bind_eq_ok.mp h
    obtain ⟨t2, h2, h⟩ := bind_eq_ok.mp h
    obtain ⟨t3, h3, h⟩ := bind_eq_ok.mp h
    obtain ⟨t4, h4, h⟩ := bind_eq_ok.mp h
    rw [strtokSpace_eq_ok] at h1 h2 h3 h4
    exact .inr ⟨t0, t1, t2, t3, t4, method, ⟨h0, h1, h2, h3, h4⟩, ht, h⟩

/-- The byte behind the request is no part of its string. -/
theorem cstr_scanned (c : TcpConnection) : cstr c.scanned = cstr c.request := by
  have hend : (if c.requestIndex % 256 = 0 then [(0 : UInt8)] else []).takeWhile (· ≠ 0) = [] := by
    split_ifs <;> rfl
  refine Subtype.ext ?_
  show (c.request ++ _).takeWhile (· ≠ 0) = c.request.takeWhile (· ≠ 0)
  rw [List.takeWhile_append, hend]
  split_ifs with h
  · rw [List.append_nil, (List.takeWhile_prefix _).eq_of_length h]
  · rfl

/-- **The tokens are the words of the string**, if the memory holds its end. -/
theorem exists_tokens {mem : List UInt8} (h : 0 ∈ mem) : ∃ t0 t1 t2 t3 t4, Tokens mem t0 t1 t2 t3 t4 ∧
    let ws := words 32 (cstr mem).1
    t0.token = ws[0]? ∧ t1.token = ws[1]? ∧ t2.token = ws[2]? ∧ t3.token = ws[3]? ∧ t4.token = ws[4]? := by
  obtain ⟨s, rest, rfl, hs⟩ := List.eq_append_cons_of_mem h
  have hcstr : (cstr (s ++ 0 :: rest)).1 = s := congrArg Subtype.val (cstr_append (s := ⟨s, hs⟩) _)
  obtain ⟨t0, s1, h0, r0, hs1, e0, w0⟩ := strtok_words space_ne_zero hs rest
  obtain ⟨t1, s2, h1, r1, hs2, e1, w1⟩ := strtok_words space_ne_zero hs1 rest
  obtain ⟨t2, s3, h2, r2, hs3, e2, w2⟩ := strtok_words space_ne_zero hs2 rest
  obtain ⟨t3, s4, h3, r3, hs4, e3, w3⟩ := strtok_words space_ne_zero hs3 rest
  obtain ⟨t4, -, h4, -, -, e4, -⟩ := strtok_words space_ne_zero hs4 rest
  refine ⟨t0, t1, t2, t3, t4, ⟨h0, r0 ▸ h1, r1 ▸ h2, r2 ▸ h3, r3 ▸ h4⟩, ?_⟩
  rw [hcstr, e0, e1, e2, e3, e4, w3, w2, w1, w0]
  simp [List.head?_eq_getElem?]

/-- The received bytes are the same. -/
def SameRequest (c c' : TcpConnection) : Prop :=
  c'.request = c.request ∧ c'.requestIndex = c.requestIndex

theorem copyTokens_eq_ok {c c' : TcpConnection} {method : List UInt8}
    {nameLength name pathLength path : Option (List UInt8)}
    (h : copyTokens c method nameLength name pathLength path = .ok c') :
    ∃ nl n, nameLength = some nl ∧ name = some n ∧ store c.method method = .ok c'.method ∧
      strncpy c.name n (atoi nl).toInt = .ok c'.name ∧ SameRequest c c' ∧
      (method = ascii "ADDFILE" → ∃ pl p, pathLength = some pl ∧ path = some p ∧
        strncpy c.path p (atoi pl).toInt = .ok c'.path) := by
  obtain ⟨m, hm, h⟩ := bind_eq_ok.mp h
  obtain ⟨nl, hnl, h⟩ := bind_eq_ok.mp h
  obtain ⟨nlBuf, hnlBuf, h⟩ := bind_eq_ok.mp h
  obtain ⟨n, hn, h⟩ := bind_eq_ok.mp h
  obtain ⟨nBuf, hnBuf, h⟩ := bind_eq_ok.mp h
  rw [deref_eq_ok] at hnl hn
  split_ifs at h with hmeth
  · obtain ⟨pl, hpl, h⟩ := bind_eq_ok.mp h
    obtain ⟨plBuf, hplBuf, h⟩ := bind_eq_ok.mp h
    obtain ⟨p, hp, h⟩ := bind_eq_ok.mp h
    obtain ⟨pBuf, hpBuf, h⟩ := bind_eq_ok.mp h
    rw [deref_eq_ok] at hpl hp
    cases h
    exact ⟨nl, n, hnl, hn, hm, hnBuf, ⟨rfl, rfl⟩, fun _ => ⟨pl, p, hpl, hp, hpBuf⟩⟩
  · cases h
    exact ⟨nl, n, hnl, hn, hm, hnBuf, ⟨rfl, rfl⟩, fun e => absurd e hmeth⟩

/-! ### The messages of the web server -/

/-- `RDGET` from `rd_getrd`, `ADDFILE` from `rd_addfile`. -/
inductive Request
  | rdget (objname : List UInt8)
  | addfile (obj final : List UInt8)

/-- The length of a text, and the text. -/
def field (s : List UInt8) : List UInt8 := decimal s.length ++ ascii " " ++ s

/-- `msg` -/
def Request.encode : Request → List UInt8
  | rdget objname => ascii "RDGET " ++ field objname
  | addfile obj final => ascii "ADDFILE " ++ field obj ++ ascii " " ++ field final

/-- The texts of a request. -/
def Request.texts : Request → List (List UInt8)
  | rdget objname => [objname]
  | addfile obj final => [obj, final]

/-- The texts are nonempty and NUL-free, and the message fits the buffer. -/
structure Request.Sendable (r : Request) : Prop where
  texts : ∀ s ∈ r.texts, s ≠ [] ∧ 0 ∉ s
  fits : r.encode.length ≤ maxBuf - 1

/-- The buffers of the connection hold the request. -/
def Decodes (c : TcpConnection) : Request → Prop
  | .rdget objname => (cstr c.method).1 = ascii "RDGET" ∧ (cstr c.name).1 = objname
  | .addfile obj final =>
    (cstr c.method).1 = ascii "ADDFILE" ∧ (cstr c.name).1 = obj ∧ (cstr c.path).1 = final

/-! ### Parsing undoes encoding -/

/-- No text of the request holds a space. -/
def Request.SpaceFree (r : Request) : Prop := ∀ s ∈ r.texts, 32 ∉ s

theorem isWord_ascii {w : List UInt8} (h : decide (w ≠ [] ∧ 32 ∉ w ∧ 0 ∉ w) = true) :
    IsWord 32 0 w := by
  obtain ⟨h1, h2, h3⟩ := of_decide_eq_true h
  exact ⟨h1, h2, h3⟩

theorem isWord_rdget : IsWord 32 0 (ascii "RDGET") := isWord_ascii (by decide)

theorem isWord_addfile : IsWord 32 0 (ascii "ADDFILE") := isWord_ascii (by decide)

theorem isWord_decimal (n : ℕ) : IsWord 32 0 (decimal n) := by
  refine ⟨?_, space_notMem_decimal n, zero_notMem_decimal n⟩
  rw [decimal_natCast]
  exact printNat_ne_nil n

theorem isWord_text {s : List UInt8} (h : s ≠ [] ∧ 0 ∉ s) (hs : 32 ∉ s) : IsWord 32 0 s :=
  ⟨h.1, hs, h.2⟩

theorem receive_init {c : TcpConnection} {data : List UInt8} (h : data.length < maxBuf) :
    (initConnection c).receive data = .ok { initConnection c with
      request := data ++ 0 :: List.replicate (maxBuf - data.length - 1) 0
      requestIndex := data.length
      status := 200 } := by
  have hlen : (initConnection c).request.length = maxBuf := List.length_replicate
  rw [TcpConnection.receive, hlen, if_pos h.le]
  congr 2
  rw [← drop_blankBuf h]
  rfl

theorem field_copied {s : List UInt8} (h : (field s).length < maxBuf) (h0 : 0 ∉ s) :
    ∃ l b, store blankBuf (decimal s.length) = .ok l ∧
      strncpy blankBuf s (atoi (decimal s.length)).toInt = .ok b ∧ (cstr b).1 = s := by
  rw [field, List.length_append, List.length_append] at h
  obtain ⟨l, hl, -⟩ := strcpy_blankBuf (s := decimal s.length) (by omega) (zero_notMem_decimal _)
  obtain ⟨b, hb, hs⟩ := strncpy_blankBuf (s := s) (by omega) h0
  exact ⟨l, b, hl, by rw [atoi_decimal (by unfold maxBuf at h; omega), hb], hs⟩

theorem method_copied {s : List UInt8} (h : decide (s.length < maxBuf ∧ 0 ∉ s) = true) :
    ∃ b, store blankBuf s = .ok b ∧ (cstr b).1 = s :=
  have ⟨h1, h2⟩ := of_decide_eq_true h
  strcpy_blankBuf h1 h2

theorem exists_scanned {c : TcpConnection} {s z : List UInt8} (h : c.request = s ++ 0 :: z) :
    ∃ z', c.scanned = s ++ 0 :: z' := by
  rw [TcpConnection.scanned, h, List.append_assoc]
  exact ⟨_, rfl⟩

/-- The buffers that `process_buffer` writes are blank. -/
structure BlankBuffers (c : TcpConnection) : Prop where
  method : c.method = blankBuf
  nameLength : c.nameLength = blankBuf
  name : c.name = blankBuf
  pathLength : c.pathLength = blankBuf
  path : c.path = blankBuf

section Fresh

variable {c : TcpConnection} {z : List UInt8}

theorem processBuffer_rdget {objname : List UInt8} (hb : BlankBuffers c)
    (hreq : c.request = (Request.rdget objname).encode ++ 0 :: z)
    (h : (Request.rdget objname).encode.length < maxBuf) (hw : IsWord 32 0 objname) :
    ∃ c', processBuffer c = .ok c' ∧ Decodes c' (.rdget objname) := by
  obtain ⟨z', hz⟩ := exists_scanned hreq
  have hmsg : (Request.rdget objname).encode ++ 0 :: z' =
      ascii "RDGET" ++ 32 :: (decimal objname.length ++ 32 :: (objname ++ 0 :: z')) := by
    simp [Request.encode, field, ascii]
  obtain ⟨m, hm, hm'⟩ := method_copied (s := ascii "RDGET") (by decide)
  obtain ⟨l, n, hl, hn, hn'⟩ := field_copied (s := objname)
    (lt_of_le_of_lt (by simp [Request.encode]) h) hw.nul
  have hne : ¬ ascii "RDGET" = ascii "ADDFILE" := by decide
  simp only [processBuffer, hz, hmsg, strtokSpace_word isWord_rdget, strtokSpace_word (isWord_decimal _),
    strtokSpace_last hw, strtokSpace_nul, ok_bind, copyTokens, hb.method, hb.nameLength, hb.name,
    deref_some, hm, hl, hn, if_neg hne]
  exact ⟨_, rfl, hm', hn'⟩

theorem processBuffer_addfile {obj final : List UInt8} (hb : BlankBuffers c)
    (hreq : c.request = (Request.addfile obj final).encode ++ 0 :: z)
    (h : (Request.addfile obj final).encode.length < maxBuf) (hw : IsWord 32 0 obj)
    (hw' : IsWord 32 0 final) :
    ∃ c', processBuffer c = .ok c' ∧ Decodes c' (.addfile obj final) := by
  obtain ⟨z', hz⟩ := exists_scanned hreq
  have hmsg : (Request.addfile obj final).encode ++ 0 :: z' =
      ascii "ADDFILE" ++ 32 :: (decimal obj.length ++ 32 :: (obj ++ 32 ::
        (decimal final.length ++ 32 :: (final ++ 0 :: z')))) := by
    simp [Request.encode, field, ascii]
  obtain ⟨m, hm, hm'⟩ := method_copied (s := ascii "ADDFILE") (by decide)
  obtain ⟨l, n, hl, hn, hn'⟩ := field_copied (s := obj)
    (lt_of_le_of_lt (by simp [Request.encode]; omega) h) hw.nul
  obtain ⟨l', p, hl', hp, hp'⟩ := field_copied (s := final)
    (lt_of_le_of_lt (by simp [Request.encode]; omega) h) hw'.nul
  simp only [processBuffer, hz, hmsg, strtokSpace_word isWord_addfile,
    strtokSpace_word (isWord_decimal _), strtokSpace_word hw, strtokSpace_last hw', ok_bind,
    copyTokens, hb.method, hb.nameLength, hb.name, hb.pathLength, hb.path, deref_some, hm, hl, hn, hl',
    hp, if_true]
  exact ⟨_, rfl, hm', hn', hp'⟩

end Fresh

/-- **A request without spaces is parsed back.** -/
theorem decodes_of_spaceFree (c : TcpConnection) {r : Request} (h : r.Sendable) (hs : r.SpaceFree) :
    ∃ c', ((initConnection c).receive r.encode >>= processBuffer) = .ok c' ∧ Decodes c' r := by
  have hfit : r.encode.length < maxBuf := lt_of_le_of_lt h.fits (by decide)
  have hword : ∀ s ∈ r.texts, IsWord 32 0 s := fun s hm => isWord_text (h.texts s hm) (hs s hm)
  rw [receive_init hfit, ok_bind]
  have hblank : BlankBuffers (initConnection c) := ⟨rfl, rfl, rfl, rfl, rfl⟩
  cases r with
  | rdget objname =>
    exact processBuffer_rdget { hblank with } rfl hfit (hword objname List.mem_cons_self)
  | addfile obj final =>
    exact processBuffer_addfile { hblank with } rfl hfit (hword obj List.mem_cons_self)
      (hword final (List.mem_cons_of_mem _ List.mem_cons_self))

theorem spaceFree_of_decodes {c c' : TcpConnection} {r : Request} (h : r.Sendable)
    (hp : ((initConnection c).receive r.encode >>= processBuffer) = .ok c') (hd : Decodes c' r) :
    r.SpaceFree := by
  have hfit : r.encode.length < maxBuf := lt_of_le_of_lt h.fits (by decide)
  rw [receive_init hfit, ok_bind] at hp
  have hblank : (32 : UInt8) ∉ blankBuf := space_notMem_replicate maxBuf
  rcases processBuffer_eq_ok hp with ⟨t0, -, -, rfl⟩ | ⟨t0, t1, t2, t3, t4, m, ht, hm, hc⟩
  · cases r with
    | rdget name => exact absurd (cstr_blankBuf.symm.trans hd.1) (by decide)
    | addfile obj final => exact absurd (cstr_blankBuf.symm.trans hd.1) (by decide)
  · obtain ⟨nl, n, hnl, hn, hmeth, hname, -, hpath⟩ := copyTokens_eq_ok hc
    have hname' := notMem_strncpy hname (isWord_token space_ne_zero ht.call2 hn).sep hblank space_ne_zero
    intro s hs
    cases r with
    | rdget name =>
      simp only [Request.texts, List.mem_singleton] at hs
      rw [hs, ← hd.2]
      exact notMem_cstr hname'
    | addfile obj final =>
      simp only [Request.texts, List.mem_cons, List.not_mem_nil, or_false] at hs
      rcases hs with rfl | rfl
      · rw [← hd.2.1]
        exact notMem_cstr hname'
      · have hm' : m = ascii "ADDFILE" :=
          (cstr_store hmeth (isWord_token space_ne_zero ht.call0 hm).nul).symm.trans hd.1
        obtain ⟨pl, p, -, hp', hcopy⟩ := hpath hm'
        rw [← hd.2.2]
        exact notMem_cstr (notMem_strncpy hcopy
          (isWord_token space_ne_zero ht.call4 hp').sep hblank space_ne_zero)

/-- **Parsing undoes encoding exactly when the texts hold no space.** -/
theorem decodes_iff (c : TcpConnection) (r : Request) (h : r.Sendable) :
    (∃ c', ((initConnection c).receive r.encode >>= processBuffer) = .ok c' ∧ Decodes c' r) ↔
      r.SpaceFree :=
  ⟨fun ⟨_, hp, hd⟩ => spaceFree_of_decodes h hp hd, decodes_of_spaceFree c h⟩

/-- `RDGET 1 a` -/
theorem decodes_iff_rdget : ∃ c',
    ((initConnection blankConnection).receive (Request.rdget [97]).encode >>= processBuffer) = .ok c' ∧
      Decodes c' (.rdget [97]) :=
  (decodes_iff blankConnection (.rdget [97]) ⟨by simp [Request.texts], by decide⟩).mpr
    (by simp [Request.SpaceFree, Request.texts])

/-- **A name with a space is not parsed back.** -/
theorem exists_not_decodes : ∃ c r, Request.Sendable r ∧
    ¬ ∃ c', ((initConnection c).receive r.encode >>= processBuffer) = .ok c' ∧ Decodes c' r := by
  have h : (Request.rdget (ascii "a b")).Sendable := ⟨by simp [Request.texts, ascii], by decide⟩
  refine ⟨blankConnection, .rdget (ascii "a b"), h, ?_⟩
  rintro ⟨c', hp, hd⟩
  exact absurd (spaceFree_of_decodes h hp hd (ascii "a b") List.mem_cons_self) (by decide)

end RoutingDaemon
