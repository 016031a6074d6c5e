import RoutingDaemon.Lookup
import RoutingDaemon.ClientRequests

/-!
# Fetching objects

* `rdResponse`: what a daemon replies on a fresh connection; `handler_iff_rdResponse`: so does its handler.
* `rdAddfile`, `rdGetrdResp`: the two requests of a web server; `fetch`: web servers ask each other. How a
  URL is opened is a parameter; `Opens` says what is relied on.
* `rdAddfile_added`, `rdResponse_found`: what the two replies mean.
* `fetch_eq`: where all nodes name one provider, every web server comes to its file.
* `upload_fetched`: what is uploaded at one node is fetched at every node.
-/

namespace RoutingDaemon

/-! ### Requests of the web server -/

/-- What the memory of a daemon holds when a request arrives: a connection, and the array `uri`. -/
structure Scratch where
  connection : TcpConnection
  uri : List UInt8

/-- The reply to a message on a connection that was just accepted, and the daemon after it. -/
def rdResponse (m : Scratch) (opened : Bool) (d : Daemon) (msg : List UInt8) :
    Except Fault (Daemon × List UInt8) := do
  let c ← (initConnection m.connection).receive msg
  let c ← processBuffer c
  let (d, c) ← buildResponse m.uri opened d c
  .ok (d, c.sent)

/-- `rd_addfile`, once the file is stored as `final`: whether it redirects. -/
def rdAddfile (m : Scratch) (opened : Bool) (d : Daemon) (obj final : List UInt8) :
    Except Fault (Daemon × Bool) := do
  let (d, rdresponse) ← rdResponse m opened d (Request.addfile obj final).encode
  .ok (d, (responsewords rdresponse).head? = some (ascii "OK"))

/-- Where a URL leads: to `rd_getrd` on a node, or to a file below its web server. -/
inductive Page (ι : Type)
  | getrd (x : ι) (obj : List UInt8)
  | file (x : ι) (path : List UInt8)
  deriving DecidableEq

/-- What a web server sends: the file at a path of a node, a template, or the page for an exception. -/
inductive Body (ι : Type)
  | file (x : ι) (path : List UInt8)
  | notFound
  | serverError
  | exception
  deriving DecidableEq

/-- A response of a web server. -/
structure Resp (ι : Type) where
  status : ℕ
  body : Body ι
  deriving DecidableEq

variable {ι : Type}

/-- `rd_getrd`, from the reply of the daemon. `urlopen` says where a URL leads, if it can be opened, and
`serve` what the web servers answer, if they do. -/
def rdGetrdResp (urlopen : List UInt8 → Option (Page ι)) (serve : ι → List UInt8 → Option (Resp ι)) :
    Except Fault (Daemon × List UInt8) → Option (Resp ι)
  | .error _ => some ⟨500, .exception⟩
  | .ok (_, rdresponse) =>
    match rdGetrd rdresponse with
    | none => some ⟨500, .exception⟩
    | some words =>
      if words.status = ascii "OK" then
        match urlopen words.url with
        | none => some ⟨500, .serverError⟩
        | some (.file y path) => some ⟨200, .file y path⟩
        -- an error page is opened like any other
        | some (.getrd y obj) => (serve y obj).map fun r => ⟨200, r.body⟩
      else if words.status = ascii "NOTFOUND" then some ⟨404, .notFound⟩
      else some ⟨500, .serverError⟩

/-- What the web server of a node answers for an object, if at most `n` web servers wait for each other;
`none` if more would. `m` is what the memory of the daemons holds; no file is opened for an RDGET. -/
def fetch (urlopen : List UInt8 → Option (Page ι)) (m : ℕ → Scratch) (w : World ι) :
    ℕ → ι → List UInt8 → Option (Resp ι)
  | 0, _, _ => none
  | n + 1, x, objname => rdGetrdResp urlopen (fetch urlopen m w n)
      (rdResponse (m n) true (w.daemon x) (Request.rdget objname).encode)

/-! ### The replies -/

section Replies

variable {d d' : Daemon} {m : Scratch} {opened : Bool} {r : Request} {reply : List UInt8} {o : CString}

/-- **The handler of a fresh connection gives this reply.** -/
theorem handler_iff_rdResponse {e : Engine} {i : ℕ} {msg : List UInt8}
    (hi : e.connections i = initConnection m.connection) (hne : msg ≠ []) (hlen : msg.length ≤ bufSize) :
    (∃ e', flaskRequestHandler i (.got msg) m.uri opened e = .ok (e', 1) ∧ e'.daemon = d' ∧
      (e'.connections i).sent = reply) ↔ rdResponse m opened e.daemon msg = .ok (d', reply) := by
  have htake : msg.take (bufSize - (e.connections i).requestIndex).toNat = msg := by
    rw [hi]
    exact List.take_of_length_le (by simpa [initConnection] using hlen)
  constructor
  · rintro ⟨e', h, rfl, rfl⟩
    simp only [flaskRequestHandler, htake, if_neg hne] at h
    obtain ⟨c₁, h1, h⟩ := bind_eq_ok.mp h
    obtain ⟨c₂, h2, h⟩ := bind_eq_ok.mp h
    obtain ⟨⟨d₁, c₃⟩, h3, h⟩ := bind_eq_ok.mp h
    rw [guarded_eq_ok] at h1 h2 h3
    cases h
    rw [rdResponse, ← hi, h1, ok_bind, h2, ok_bind, h3, ok_bind]
    simp
  · intro h
    obtain ⟨c₁, h1, h⟩ := bind_eq_ok.mp h
    obtain ⟨c₂, h2, h⟩ := bind_eq_ok.mp h
    obtain ⟨⟨d₁, c₃⟩, h3, h⟩ := bind_eq_ok.mp h
    cases h
    have hp : Parses e i msg c₂ := ⟨by rwa [htake], c₁, by rwa [htake, hi], h2⟩
    exact ⟨_, hp.handler_iff.mpr ⟨rfl, _, _, h3, rfl⟩, rfl, by simp⟩

theorem exists_parsed (c : TcpConnection) (h : r.Sendable) (hs : r.SpaceFree) :
    ∃ c₁ c', (initConnection c).receive r.encode = .ok c₁ ∧ processBuffer c₁ = .ok c' ∧ Decodes c' r ∧
      c'.status = 200 ∧ ConnectionOk c' := by
  obtain ⟨c', h1, hd⟩ := decodes_of_spaceFree c h hs
  obtain ⟨c₁, hrecv, hp⟩ := bind_eq_ok.mp h1
  obtain ⟨hr₁, -, hp₁⟩ := receive_kept hrecv
  obtain ⟨hr₂, -, hp₂⟩ := processBuffer_kept hp
  refine ⟨c₁, c', hrecv, hp, hd, ?_, ((connectionOk_init c).congr hr₁ hp₁).congr hr₂ hp₂⟩
  have hc₁ : c₁.status = 200 ∧ c₁.method = blankBuf := by
    rw [receive_init (lt_of_le_of_lt h.fits (by decide))] at hrecv
    cases hrecv
    exact ⟨rfl, rfl⟩
  rcases processBuffer_eq_ok hp with ⟨t0, -, -, rfl⟩ | ⟨t0, t1, t2, t3, t4, method, -, -, hc⟩
  · -- without a word the method would be blank
    have hblank : (cstr c₁.method).1 = [] := by rw [hc₁.2, cstr_blankBuf]
    cases r with
    | rdget name => exact absurd (hblank.symm.trans hd.1) (by decide)
    | addfile obj final => exact absurd (hblank.symm.trans hd.1) (by decide)
  · have hst := copyTokens_status hc
    exact hst.trans hc₁.1

theorem rdResponse_iff (m : Scratch) (h : r.Sendable) (hs : r.SpaceFree) :
    ∃ c, Decodes c r ∧ c.status = 200 ∧ ConnectionOk c ∧ ∀ opened d d' reply,
      rdResponse m opened d r.encode = .ok (d', reply) ↔
        ∃ c', buildResponse m.uri opened d c = .ok (d', c') ∧ c'.sent = reply := by
  obtain ⟨c₁, c, h1, h2, hd, hst, hc⟩ := exists_parsed m.connection h hs
  refine ⟨c, hd, hst, hc, fun opened d d' reply => ?_⟩
  rw [rdResponse, h1, ok_bind, h2, ok_bind, bind_eq_ok]
  constructor
  · rintro ⟨⟨d₁, c'⟩, hb, h⟩
    cases h
    exact ⟨c', hb, rfl⟩
  · rintro ⟨c', hb, rfl⟩
    exact ⟨(d', c'), hb, rfl⟩

/-- **An upload that redirects has added the object.** -/
theorem rdAddfile_added {obj final : List UInt8} (h : (Request.addfile obj final).Sendable)
    (hs : (Request.addfile obj final).SpaceFree) (hu : m.uri.length = bufSize)
    (redirects : rdAddfile m opened d obj final = .ok (d', true)) :
    (∃ c uri, act (.request c uri opened) d = .ok (d', [])) ∧
      ∃ o, Added d o d' ∧ o.name.1.1 = obj ∧ o.path.1.1 = final := by
  obtain ⟨⟨d₁, reply⟩, hreply, hok⟩ := bind_eq_ok.mp redirects
  obtain ⟨rfl, hword⟩ : d₁ = d' ∧ (responsewords reply).head? = some (ascii "OK") := by simpa using hok
  obtain ⟨c, ⟨hm, hname, hpath⟩, hst, hc, hiff⟩ := rdResponse_iff m h hs
  obtain ⟨c', hb, hsent⟩ := (hiff _ _ _ _).mp hreply
  rw [method_eq_lit (by decide)] at hm
  refine ⟨⟨c, m.uri, by rw [act, hb]; rfl⟩, ?_⟩
  have hr := (buildResponse_replies hc.path hc.response hu hb).1
  rw [hsent] at hr
  cases hr with
  | failed status => exact absurd hst status
  | rdget status method => exact absurd (hm.symm.trans method) (by decide)
  | listed status method known => exact absurd hword (by decide)
  | other status rdget addfile => exact absurd hm addfile
  | added status method addable =>
    obtain ⟨⟨d₂, c₂⟩, h2, hb⟩ := bind_eq_ok.mp hb
    cases hb
    rw [dispatch_addfile hst hm] at h2
    rcases addfile_eq_ok h2 with ⟨-, ⟨p, hp⟩, -⟩ | ⟨⟨o, ho, hn, hp⟩, -⟩
    · rw [addable.new] at hp
      cases hp
    · exact ⟨o, ho, by rw [hn, hname], by rw [hp, hpath]⟩

/-- **An RDGET whose URI fits is answered with it**, and changes nothing. -/
theorem rdResponse_found (h : (Request.rdget o.1).Sendable) (hs : 32 ∉ o.1) (hu : m.uri.length = bufSize)
    {t : Target} (ht : rdgetTarget d o = .ok t) (hpath : t = .here → localPath d.ol o ≠ lit "")
    {u : List UInt8} (hurl : targetUri d o t = some u) (fits : (okUri u).length < maxBuf) :
    rdResponse m opened d (Request.rdget o.1).encode = .ok (d, okUri u) := by
  obtain ⟨c, ⟨hm, hname⟩, hst, hc, hiff⟩ :=
    rdResponse_iff m h (by simpa [Request.SpaceFree, Request.texts] using hs)
  rw [method_eq_lit (by decide)] at hm
  obtain rfl : cstr c.name = o := Subtype.ext hname
  have hprinted : printedUri m.uri d (cstr c.name) t = some u := by rw [printedUri_eq hpath, hurl]
  have hreply : Replies m.uri opened d c (rdgetReply (printedUri m.uri d (cstr c.name) t)) :=
    .rdget hst hm ht (by rw [hprinted]; exact fits)
  rw [hprinted] at hreply
  obtain ⟨d', c', hb, hsent⟩ := exists_buildResponse_of_replies hc.path hc.response hu hreply
  refine (hiff _ _ _ _).mpr ⟨c', ?_, hsent⟩
  rw [hb]
  rw [buildResponse_rdget hst hm] at hb
  obtain ⟨c₁, -, hb⟩ := exists_of_map_eq_ok hb
  cases hb
  rfl

end Replies

/-! ### URLs -/

variable {N : Net ι} {w w' : World ι} {s x : ι} {o : CString} {p : CString}

/-- The URL of the web server of a node, at the address that its configuration gives. -/
def webUri (N : Net ι) (x : ι) : List UInt8 :=
  ascii "http://" ++ (N.self x).host.1.1 ++ ascii ":" ++ decimal (N.self x).serverP.toInt

/-- The same, under the name of the host: `my_uri`. -/
def hostUri (N : Net ι) (x : ι) : List UInt8 :=
  ascii "http://" ++ (N.hostname x).1 ++ ascii ":" ++ decimal (N.self x).serverP.toInt

/-- What opening a URL relies on: the addresses of the web servers, and their routes, for the name of an
object and for the path of its file at node `s`. -/
structure Opens (N : Net ι) (urlopen : List UInt8 → Option (Page ι)) (s : ι) (obj final : List UInt8) :
    Prop where
  page : ∀ y, urlopen (webUri N y ++ ascii "/static/f/" ++ obj) = some (.getrd y obj)
  file : urlopen (hostUri N s ++ final) = some (.file s final)

theorem act_myUri {d d' : Daemon} {ev : Event} {out : List Effect} (h : act ev d = .ok (d', out)) :
    d'.myUri = d.myUri := by
  cases ev with
  | timeout fresh =>
    exact (timeout_trail h).preserves (I := fun d' => d'.myUri = d.myUri)
      (fun _ _ _ hi ht => (tick_objects ht).2.1.trans hi) rfl
  | datagram r fresh =>
    obtain ⟨_, _, _, -, hh⟩ := receive_handled h
    exact (handled_objects hh).2.1
  | request c uri opened =>
    obtain ⟨-, rfl | ⟨e, ha⟩⟩ := request_added h
    · rfl
    · rw [ha.rest]

/-- **`my_uri` never changes.** -/
theorem myUri_reachable [DecidableEq ι] {ok : List UInt8 → Prop} (r : (network N ok).Reachable w) (x : ι) :
    (w.daemon x).myUri.1 = hostUri N x := by
  refine (network_daemon r x).invariant (I := fun d => d.myUri.1 = hostUri N x) (fun d h => ?_) ?_
  · obtain ⟨⟨dl, rt, uri⟩, h1, h⟩ := bind_eq_ok.mp h
    obtain ⟨⟨ol, gol⟩, -, h⟩ := bind_eq_ok.mp h
    cases h
    unfold loadNodeConf at h1
    split_ifs at h1
    cases h1
    have h0 : 0 ∉ hostUri N x := by
      have h1 : 0 ∉ ascii "http://" := by decide
      have h2 : 0 ∉ ascii ":" := by decide
      simp only [hostUri, List.mem_append, not_or]
      exact ⟨⟨⟨h1, (N.hostname x).2⟩, h2⟩, zero_notMem_decimal _⟩
    exact congrArg Subtype.val (cstr_eq_self (s := ⟨_, h0⟩))
  · rintro d ⟨ev, out⟩ d' hi h
    rw [act_myUri h]
    exact hi

/-! ### Fetching -/

/-- The addresses hold no space. -/
structure Net.Plain (N : Net ι) : Prop where
  hosts : ∀ y, 32 ∉ (N.self y).host.1.1
  hostnames : ∀ y, 32 ∉ (N.hostname y).1

theorem Net.Plain.webUri (h : N.Plain) (y : ι) : 32 ∉ webUri N y := by
  have h1 : 32 ∉ ascii "http://" := by decide
  have h2 : 32 ∉ ascii ":" := by decide
  simp only [RoutingDaemon.webUri, List.mem_append, not_or]
  exact ⟨⟨⟨h1, h.hosts y⟩, h2⟩, space_notMem_decimal _⟩

theorem Net.Plain.hostUri (h : N.Plain) (y : ι) : 32 ∉ hostUri N y := by
  have h1 : 32 ∉ ascii "http://" := by decide
  have h2 : 32 ∉ ascii ":" := by decide
  simp only [RoutingDaemon.hostUri, List.mem_append, not_or]
  exact ⟨⟨⟨h1, h.hostnames y⟩, h2⟩, space_notMem_decimal _⟩

section Page

variable {urlopen : List UInt8 → Option (Page ι)} {serve : ι → List UInt8 → Option (Resp ι)} {d : Daemon}
  {u path : List UInt8}

theorem rdGetrdResp_file (hu : 32 ∉ u) (page : urlopen u = some (.file x path)) :
    rdGetrdResp urlopen serve (.ok (d, okUri u)) = some ⟨200, .file x path⟩ := by
  unfold rdGetrdResp
  dsimp only
  rw [rdGetrd_okUri hu]
  dsimp only
  rw [if_pos rfl, page]

theorem rdGetrdResp_page (hu : 32 ∉ u) (page : urlopen u = some (.getrd x path)) :
    rdGetrdResp urlopen serve (.ok (d, okUri u)) = (serve x path).map fun r => ⟨200, r.body⟩ := by
  unfold rdGetrdResp
  dsimp only
  rw [rdGetrd_okUri hu]
  dsimp only
  rw [if_pos rfl, page]

end Page

section Network

variable [DecidableEq ι] {ls : List (ι × Event × List Effect)} {urlopen : List UInt8 → Option (Page ι)}
  {m : ℕ → Scratch}

/-- **Every web server comes to the file**, if all nodes name the node that serves it. -/
theorem fetch_eq (hv : N.Valid) (plain : N.Plain) (r : (network N TtlOk).Reachable w)
    (names : ∀ y, Names w o y (N.self s).id) (served : ServedHere (w.daemon s) o p)
    (obj : (Request.rdget o.1).Sendable) (hobj : 32 ∉ o.1) (hp : p ≠ lit "") (hpath : 32 ∉ p.1)
    (opens : Opens N urlopen s o.1 p.1) (fits : ∀ y, UriFits (w.daemon y) o)
    (hu : ∀ n, (m n).uri.length = bufSize) {n : ℕ} (hn : costFor w (N.self s).id x < n) :
    fetch urlopen m w n x o.1 = some ⟨200, .file s p.1⟩ := by
  obtain ⟨hl, hcost⟩ := costInv_reachable hv r
  induction n generalizing x with
  | zero => exact absurd hn (Nat.not_lt_zero _)
  | succ n ih =>
    obtain ⟨t, ht⟩ := rdgetTarget_ok (hl.sound x) o
    obtain ⟨obj', hget, hid⟩ := names x
    cases t with
    | notFound =>
      rw [rdgetTarget_notFound, hget] at ht
      cases ht
    | here =>
      -- this is the provider
      obtain ⟨q, hq, hown⟩ := rdgetTarget_here (hl.sound x).consistent ht
      rw [getPaths_eq (hl.sound x).consistent, hq, Option.join_some, Option.some.injEq] at hget
      subst hget
      obtain rfl : x = s := hv.ids ((hl.myNodeId x).symm.trans (hown.symm.trans hid))
      obtain ⟨e, he, rfl⟩ := served.first
      have hlocal : localPath (w.daemon x).ol o = e.path.1 := by rw [localPath, he]; rfl
      have htarget : targetUri (w.daemon x) o .here = some (hostUri N x ++ e.path.1.1) := by
        rw [targetUri_here (by rw [hlocal]; exact hp), hlocal, myUri_reachable r]
      have hspace : 32 ∉ hostUri N x ++ e.path.1.1 :=
        List.mem_append.not.mpr (not_or.mpr ⟨plain.hostUri x, hpath⟩)
      rw [fetch, rdResponse_found obj hobj (hu n) ht (fun _ => by rw [hlocal]; exact hp) htarget
        (fits x _ _ ht htarget)]
      exact rdGetrdResp_file hspace opens.file
    | via l =>
      -- the next node is asked
      obtain ⟨_, _, -, hlink⟩ := (rdgetTarget_via (hl.sound x).consistent).mp ht
      obtain ⟨y, rfl⟩ := hl.exists_node (List.mem_of_find?_eq_some hlink)
      have hlt := costFor_lt hv hl hcost (asksFor_hop hl ⟨names x, ht⟩)
      have hspace : 32 ∉ webUri N y ++ ascii "/static/f/" ++ o.1 := by
        have h1 : 32 ∉ ascii "/static/f/" := by decide
        simp only [List.mem_append, not_or]
        exact ⟨⟨plain.webUri y, h1⟩, hobj⟩
      have htarget : targetUri (w.daemon x) o (.via (N.self y)) =
          some (webUri N y ++ ascii "/static/f/" ++ o.1) := rfl
      rw [fetch, rdResponse_found obj hobj (hu n) ht nofun htarget (fits x _ _ ht htarget),
        rdGetrdResp_page hspace (opens.page y), ih (by omega), Option.map_some]

theorem servedHere_steps (hv : N.Distinct) (r : (network N TtlOk).Reachable w)
    (steps : (network N TtlOk).Steps w ls w') (h : ServedHere (w.daemon s) o p) :
    ServedHere (w'.daemon s) o p := by
  refine (steps.invariant (I := fun w => (network N TtlOk).Reachable w ∧ ServedHere (w.daemon s) o p)
    (P := fun _ => True) ?_ (fun _ _ => trivial) ⟨r, h⟩).2
  rintro w ⟨y, ev, out⟩ w' ⟨r, h⟩ - step
  refine ⟨r.step step, ?_⟩
  obtain ⟨hp, d, ha, rfl⟩ := step
  by_cases hs : s = y
  · subst hs
    rw [after_daemon_self]
    have hs := (orderly_reachable hv r).lawful.sound s
    exact h.act hs.ownOnce hs.consistent hp.eventTtl ha
  · rwa [after_daemon_of_ne hs]

/-- **What is uploaded at one node is fetched at every node.** If the upload redirects, a chain of floods
from the node then reaches every other one, nobody declares the node down and no other node has an object of
that name, then the web server of every node answers with the uploaded file, and no web server accepts
another upload under the name. -/
theorem upload_fetched (hv : N.Valid) (plain : N.Plain) (r : (network N TtlOk).Reachable w)
    {obj final : CString} (req : (Request.addfile obj.1 final.1).Sendable)
    (space : (Request.addfile obj.1 final.1).SpaceFree) {m₀ : Scratch} (hm : m₀.uri.length = bufSize)
    {opened : Bool} {d : Daemon} (uploaded : rdAddfile m₀ opened (w.daemon s) obj.1 final.1 = .ok (d, true))
    (steps : (network N TtlOk).Steps (w.after s [] d) ls w') (h : Advertised N s (w.after s [] d) ls w')
    (hup : ∀ l ∈ ls, ¬ Declared l.2.2 (N.self s).id) (only : Only w' s obj)
    (opens : Opens N urlopen s obj.1 final.1) (fits : ∀ y, UriFits (w'.daemon y) obj)
    (hu : ∀ n, (m n).uri.length = bufSize) :
    (∀ x n, costFor w' (N.self s).id x < n →
      fetch urlopen m w' n x obj.1 = some ⟨200, .file s final.1⟩) ∧
    ∀ x m' opened' final' d', m'.uri.length = bufSize → (Request.addfile obj.1 final').Sendable →
      (Request.addfile obj.1 final').SpaceFree →
        rdAddfile m' opened' (w'.daemon x) obj.1 final' ≠ .ok (d', true) := by
  obtain ⟨⟨c, uri, hact⟩, e, hadd, hname, hpath⟩ := rdAddfile_added req space hm uploaded
  have hstep : (network N TtlOk).step w (s, .request c uri opened, []) (w.after s [] d) :=
    ⟨trivial, d, hact, rfl⟩
  have r₁ := r.step hstep
  have r' := r₁.steps steps
  -- the object is served, and advertised
  have hserved : ServedHere ((w.after s [] d).daemon s) obj final := by
    rw [after_daemon_self, ← Subtype.ext hname, ← Subtype.ext hpath]
    exact servedHere_added (registered_reachable (network_daemon r s)) hadd
  have hlocal : obj ∈ localNames ((w.after s [] d).daemon s) := by
    rw [after_daemon_self, localNames, hadd.ol, List.map_append, List.mem_append, ← Subtype.ext hname]
    exact .inr (List.mem_singleton_self _)
  have hserved' := servedHere_steps hv.toDistinct r₁ steps hserved
  have hl := (orderly_reachable hv.toDistinct r').lawful
  have hnames : ∀ y, Names w' obj y (N.self s).id := by
    intro y
    by_cases hy : y = s
    · subst hy
      exact hserved'.names hl
    · exact h.names hv r₁ steps hup hlocal only hy
  have hword : obj.1 ≠ [] ∧ 0 ∉ obj.1 := req.texts _ List.mem_cons_self
  have hfinal : final ≠ lit "" := by
    rintro rfl
    exact (req.texts _ (List.mem_cons_of_mem _ (List.mem_singleton_self _))).1 rfl
  constructor
  · intro x n hn
    refine fetch_eq hv plain r' hnames hserved' ⟨?_, ?_⟩ (space _ List.mem_cons_self) hfinal
      (space _ (List.mem_cons_of_mem _ (List.mem_singleton_self _))) opens fits hu hn
    · intro t ht
      rw [Request.texts, List.mem_singleton] at ht
      rw [ht]
      exact hword
    · have hfit := req.fits
      simp only [Request.encode, List.length_append] at hfit ⊢
      have h1 : (ascii "RDGET ").length = 6 := by decide
      have h2 : (ascii "ADDFILE ").length = 8 := by decide
      omega
  · intro x m' opened' final' d' hm' req' space' again
    obtain ⟨-, e', hadd', hname', -⟩ := rdAddfile_added req' space' hm' again
    obtain ⟨p, hp, -⟩ := hnames x
    have hc := (hl.sound x).consistent
    have hnew := hadd'.new
    rw [Subtype.ext hname'] at hnew
    rw [getPaths_eq hc] at hp
    have hview := containsObject_map hc obj
    rw [hnew] at hview
    rw [← hview] at hp
    cases hp

end Network

/-! ### An upload -/

/-- The URLs of the web servers of `rowNet` for the object `n`, and that of its file at the first node. -/
def rowOpen (url : List UInt8) : Option (Page (Fin 3)) :=
  if url = hostUri rowNet 0 ++ ascii "/static/x" then some (.file 0 (ascii "/static/x"))
  else (List.finRange 3).findSome? fun y =>
    if url = webUri rowNet y ++ ascii "/static/f/" ++ ascii "n" then some (.getrd y (ascii "n")) else none

theorem opens_rowOpen : Opens rowNet rowOpen 0 (lit "n").1 (lit "/static/x").1 where
  page := by decide +kernel
  file := by decide +kernel

theorem rowNet_plain : rowNet.Plain where
  hosts := by decide
  hostnames := by decide

/-- Memory of zeros. -/
def blankScratch : Scratch := ⟨blankConnection, blankBuf⟩

/-- The first node adds `n`; then it floods, node 2 hears it and floods, and node 3 hears that. -/
def uploadRun (w : World (Fin 3)) : Option ((Daemon × Bool) × List (Fin 3 × Event × List Effect) ×
    World (Fin 3) × List (Fin 3 × Event × List Effect) × World (Fin 3)) := do
  let (d, redirects) ← (rdAddfile blankScratch true (w.daemon 0) (lit "n").1 (lit "/static/x").1).toOption
  let (ls, w₁) ← relay rowNet TtlOk 0 1 (.replicate 5 (.tick 0)) [.deliver 1 0] (w.after 0 [] d)
  let (ls', w₂) ← relay rowNet TtlOk 1 2 (.replicate 5 (.tick 1)) [.deliver 2 3, .deliver 2 4] w₁
  return ((d, redirects), ls, w₁, ls', w₂)

theorem uriFits_of_all {d : Daemon} {o : CString}
    (h : ((rdgetTarget d o).toOption.bind (targetUri d o)).all fun u => (okUri u).length < maxBuf) :
    UriFits d o := by
  intro t u ht hu
  rw [ht] at h
  simpa [Except.toOption, hu] using h

theorem upload_fetched_rowNet : ∃ w, (network rowNet TtlOk).Reachable w ∧
    ∃ n, fetch rowOpen (fun _ => blankScratch) w n 2 (lit "n").1 =
      some ⟨200, .file 0 (lit "/static/x").1⟩ := by
  have key : (uploadRun (rowNet.start rowNet_boots)).map (fun ((_, redirects), ls, _, ls', w) =>
      redirects && decide (∀ l ∈ ls ++ ls', .giveUp 1 ∉ l.2.2 ∧ .expire 1 ∉ l.2.2) &&
        decide (∀ x, x ≠ 0 → lit "n" ∉ localNames (w.daemon x)) &&
          decide (∀ x, ((rdgetTarget (w.daemon x) (lit "n")).toOption.bind
            (targetUri (w.daemon x) (lit "n"))).all fun u => (okUri u).length < maxBuf)) = some true := by
    decide +kernel
  have r : (network rowNet TtlOk).Reachable (rowNet.start rowNet_boots) := .init (init_start rowNet_boots)
  generalize rowNet.start rowNet_boots = w at key r
  obtain ⟨⟨⟨d, redirects⟩, ls, w₁, ls', w₂⟩, hrun, key⟩ := Option.map_eq_some_iff.mp key
  simp only [Bool.and_eq_true, decide_eq_true_eq] at key
  obtain ⟨⟨⟨rfl, k1⟩, k2⟩, k3⟩ := key
  simp only [uploadRun, Option.bind_eq_bind, Option.bind_eq_some_iff, Prod.exists] at hrun
  obtain ⟨d', redirects, hup, ls₁, v₁, h1, ls₂, v₂, h2, hrun⟩ := hrun
  cases hrun
  have all := advertised_row (relayed_relay h1) (relayed_relay h2)
  have steps := (relayed_relay h1).steps.trans (relayed_relay h2).steps
  have req : (Request.addfile (lit "n").1 (lit "/static/x").1).Sendable := ⟨by decide, by decide⟩
  have space : (Request.addfile (lit "n").1 (lit "/static/x").1).SpaceFree := by
    unfold Request.SpaceFree Request.texts
    decide
  have hm : blankScratch.uri.length = bufSize := List.length_replicate
  have uploaded := toOption_eq_some.mp hup
  obtain ⟨⟨c, uri, hact⟩, -⟩ := rdAddfile_added req space hm uploaded
  have hstep : (network rowNet TtlOk).step w (0, .request c uri true, []) (w.after 0 [] d) :=
    ⟨trivial, d, hact, rfl⟩
  have r₁ := (r.step hstep).steps steps
  obtain ⟨found, -⟩ := upload_fetched rowNet_valid rowNet_plain r req space hm uploaded steps all
    (fun l hl => not_or.mpr (k1 l hl)) k2 opens_rowOpen (fun y => uriFits_of_all (k3 y)) fun _ => hm
  exact ⟨w₂, r₁, _, found 2 _ (Nat.lt_succ_self _)⟩

end RoutingDaemon
