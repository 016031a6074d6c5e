import RoutingDaemon.EngineActions
import RoutingDaemon.Lib.Decimal

/-!
# Answering the web server

* `TcpConnection`: the buffers of a connection; a buffer is its memory, `cstr` the string in it;
  `initConnection`.
* `rdgetTarget`: the lookups of the RDGET branch; `rdget`, `addfile`: the two requests.
* `buildResponse`.
-/

namespace RoutingDaemon

/-- The state of a connection. -/
structure TcpConnection where
  request : List UInt8
  requestIndex : ℤ
  response : List UInt8
  responseIndex : ℤ
  method : List UInt8
  nameLength : List UInt8
  name : List UInt8
  pathLength : List UInt8
  path : List UInt8
  status : ℤ
  deriving DecidableEq

/-- A buffer that `memset` filled with zeros. -/
def blankBuf : List UInt8 := List.replicate maxBuf 0

/-- `init_connection`; it leaves `response_index` alone. -/
def initConnection (c : TcpConnection) : TcpConnection :=
  { c with
    request := blankBuf
    requestIndex := 0
    response := blankBuf
    method := blankBuf
    nameLength := blankBuf
    name := blankBuf
    pathLength := blankBuf
    path := blankBuf
    status := 0 }

/-- A connection in static memory. -/
def blankConnection : TcpConnection :=
  ⟨blankBuf, 0, blankBuf, 0, blankBuf, blankBuf, blankBuf, blankBuf, blankBuf, 0⟩

/-- The bytes of an ASCII text. -/
def ascii (s : String) : List UInt8 := s.toList.map fun c => .ofNat c.toNat

/-- A C string literal. -/
def lit (s : String) : CString := cstr (ascii s)

/-- `%d` -/
def decimal (n : ℤ) : List UInt8 := ascii (toString n)

theorem decimal_natCast (n : ℕ) : decimal n = printNat n := by
  rw [decimal, ascii, printNat, Int.toString_eq_repr, Int.repr_eq_if]
  simp

theorem decimal_of_neg {n : ℤ} (h : ¬ 0 ≤ n) : decimal n = 45 :: printNat (-n).toNat := by
  rw [decimal, ascii, printNat, Int.toString_eq_repr, Int.repr_eq_if, if_neg h]
  simp

theorem notMem_decimal {b : UInt8} (hb : isDigit b = false) (hminus : b ≠ 45) (n : ℤ) :
    b ∉ decimal n := by
  have hdigits : ∀ m, b ∉ printNat m := fun m h => ne_of_isDigit (isDigit_printNat m b h) hb rfl
  by_cases hn : 0 ≤ n
  · obtain ⟨m, rfl⟩ := Int.eq_ofNat_of_zero_le hn
    rw [decimal_natCast]
    exact hdigits m
  · rw [decimal_of_neg hn, List.mem_cons, not_or]
    exact ⟨hminus, hdigits _⟩

theorem zero_notMem_decimal (n : ℤ) : 0 ∉ decimal n := notMem_decimal (by decide) (by decide) n

theorem space_notMem_decimal (n : ℤ) : 32 ∉ decimal n := notMem_decimal (by decide) (by decide) n

/-- `sprintf` or `strcpy` of `s` into the buffer `buf`. -/
def store (buf s : List UInt8) : Except Fault (List UInt8) :=
  if s.length < buf.length then .ok (s ++ 0 :: buf.drop (s.length + 1)) else .error .overflow

theorem store_of_lt {buf s : List UInt8} (h : s.length < buf.length) :
    ∃ b, store buf s = .ok b ∧ b.length = buf.length := by
  refine ⟨_, if_pos h, ?_⟩
  simp only [List.length_append, List.length_cons, List.length_drop]
  omega

theorem cstr_store {buf s b : List UInt8} (h : store buf s = .ok b) (h0 : 0 ∉ s) :
    (cstr b).1 = s := by
  unfold store at h
  split_ifs at h
  cases h
  exact congrArg Subtype.val (cstr_append (s := ⟨s, h0⟩) _)

/-- Where an RDGET finds its object. -/
inductive Target
  | notFound
  | here
  | via (l : LinkEntry)
  deriving DecidableEq

/-- The lookups of the RDGET branch: the provider, its routing entry, and the link of its next hop. -/
def rdgetTarget (d : Daemon) (name : CString) : Except Fault Target :=
  match getPaths superFastHash d.gol name with
  | none => .ok .notFound
  | some obj =>
    if obj.nodeId = d.myNodeId then .ok .here
    else do
      let k ← deref (getRoutingEntry d.rt obj.nodeId)
      let rEntry ← deref d.rt.table[k]?
      let lEntry ← deref (lookupLinkEntryNodeId d.dl rEntry.nexthop)
      .ok (.via lEntry)

/-- `get_local_file_path` -/
def getLocalFilePath (ol : LocalObjects) (c : TcpConnection) : Except Fault TcpConnection :=
  match ol.objects.find? fun o => o.name.1 = cstr c.name with
  | some o => do
    let path ← store c.path o.path.1.1
    .ok { c with path := path }
  | none => .ok { c with path := 0 :: c.path.tail }

/-- Set the status and the response. -/
def TcpConnection.respond (c : TcpConnection) (status : ℤ) (s : List UInt8) :
    Except Fault TcpConnection := do
  let response ← store c.response s
  .ok { c with status := status, response := response }

/-- The tail of the found branch: `OK`, the length of `uri` and `uri`. -/
def TcpConnection.respondUri (c : TcpConnection) (uri : List UInt8) : Except Fault TcpConnection :=
  c.respond 200 (ascii "OK " ++ decimal (strlen (cstr uri)) ++ ascii " " ++ (cstr uri).1 ++ ascii " ")

/-- The RDGET branch. `uri` is what the local array holds before it is written. -/
def rdget (uri : List UInt8) (d : Daemon) (c : TcpConnection) : Except Fault TcpConnection := do
  let target ← rdgetTarget d (cstr c.name)
  match target with
  | .notFound => c.respond 404 (ascii "NOTFOUND 0 ")
  | .here => do
    let c ← getLocalFilePath d.ol c
    if strlen (cstr c.path) = 0 then do
      let c ← c.respond 500 (ascii "ERROR found object's host, but could not retrieve  path ")
      c.respondUri uri
    else do
      let uri ← store uri (d.myUri.1 ++ (cstr c.path).1)
      c.respondUri uri
  | .via l => do
    let uri ← store uri (ascii "http://" ++ l.host.1.1 ++ ascii ":" ++ decimal l.serverP.toInt ++
      ascii "/static/f/" ++ (cstr c.name).1)
    c.respondUri uri

/-- The ADDFILE branch. `opened` tells whether `fopen` succeeded; `fprintf` uses its result
unchecked. -/
def addfile (opened : Bool) (d : Daemon) (c : TcpConnection) :
    Except Fault (Daemon × TcpConnection) :=
  match containsObject superFastHash d.gol (cstr c.name) with
  | some _ => do
    let c ← c.respond 500 (ascii "ERROR 19 File already exists ")
    .ok (d, c)
  | none => do
    let gol ← hashAdd superFastHash d.gol (cstr c.name) d.myNodeId 0
    let name ← strcpy maxObjLen (cstr c.name)
    let path ← strcpy maxPathLen (cstr c.path)
    let ol ← d.ol.push ⟨name, path⟩
    if opened then do
      let line := (cstr c.name).1 ++ ascii " " ++ (cstr c.path).1 ++ ascii "\n"
      let c ← c.respond 200 (ascii "OK 0 ")
      .ok ({ d with gol := gol, ol := ol, filefile := d.filefile ++ line }, c)
    else .error .badPointer

/-- The branches of `build_response`. -/
def dispatch (uri : List UInt8) (opened : Bool) (d : Daemon) (c : TcpConnection) :
    Except Fault (Daemon × TcpConnection) :=
  if c.status ≠ 200 then do
    let c ← c.respond c.status (ascii "ERROR 21 Internal Server Error ")
    .ok (d, c)
  else if cstr c.method = lit "RDGET" then do
    let c ← rdget uri d c
    .ok (d, c)
  else if cstr c.method = lit "ADDFILE" then addfile opened d c
  else .ok (d, c)

/-- `build_response` -/
def buildResponse (uri : List UInt8) (opened : Bool) (d : Daemon) (c : TcpConnection) :
    Except Fault (Daemon × TcpConnection) := do
  let (d, c) ← dispatch uri opened d c
  .ok (d, { c with responseIndex := strlen (cstr c.response) })

end RoutingDaemon
