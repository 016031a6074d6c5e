import RoutingDaemon.Replies

/-!
# The texts that `build_response` leaves

* `Leaves`: a computation that prints a text into the response, if it fits.
* `printedUri`, `rdgetReply`: the text of an RDGET; `rdget_text`.
* `Replies`: the texts of all requests; `buildResponse_replies`, `exists_buildResponse_of_replies`:
  `build_response` leaves these, and each.
-/

namespace RoutingDaemon

/-! ### Texts in a buffer -/

section Store

variable {c c' : TcpConnection} {status : ℤ} {buf s b : List UInt8}

theorem store_length (h : store buf s = .ok b) : s.length < buf.length ∧ b.length = buf.length := by
  by_cases hlt : s.length < buf.length
  · obtain ⟨b', hb', hlen⟩ := store_of_lt hlt
    rw [hb'] at h
    cases h
    exact ⟨hlt, hlen⟩
  · rw [store, if_neg hlt] at h
    cases h

theorem store_of_not_lt (h : ¬ s.length < buf.length) : store buf s = .error .overflow := if_neg h

theorem respond_eq_ok (h : c.respond status s = .ok c') : s.length < c.response.length ∧
    c'.response.length = c.response.length ∧ c'.path = c.path ∧ (0 ∉ s → (cstr c'.response).1 = s) := by
  obtain ⟨b, hb, h⟩ := bind_eq_ok.mp h
  cases h
  obtain ⟨hlt, hlen⟩ := store_length hb
  exact ⟨hlt, hlen, rfl, cstr_store hb⟩

theorem exists_respond (status : ℤ) (h : s.length < c.response.length) : ∃ c', c.respond status s = .ok c' := by
  obtain ⟨b, hb, -⟩ := store_of_lt h
  exact ⟨_, bind_eq_ok.mpr ⟨b, hb, rfl⟩⟩

theorem respond_of_not_lt (h : ¬ s.length < c.response.length) :
    c.respond status s = .error .overflow := by
  rw [TcpConnection.respond, store_of_not_lt h]
  rfl

end Store

/-- A computation that ends with printing `s` into the response, if it fits. -/
structure Leaves (x : Except Fault TcpConnection) (s : List UInt8) : Prop where
  fits : (∃ c, x = .ok c) ↔ s.length < maxBuf
  response : ∀ c, x = .ok c → c.response.length = maxBuf
  path : ∀ c, x = .ok c → c.path.length = maxBuf
  text : ∀ c, x = .ok c → (cstr c.response).1 = s

theorem leaves_respond {c : TcpConnection} (status : ℤ) {s : List UInt8}
    (hr : c.response.length = maxBuf) (hp : c.path.length = maxBuf) (h0 : 0 ∉ s) :
    Leaves (c.respond status s) s where
  fits := by
    rw [← hr]
    exact ⟨fun ⟨_, h⟩ => (respond_eq_ok h).1, exists_respond status⟩
  response _ h := (respond_eq_ok h).2.1.trans hr
  path _ h := by rw [(respond_eq_ok h).2.2.1, hp]
  text _ h := (respond_eq_ok h).2.2.2 h0

/-! ### RDGET -/

/-- The string that `get_local_file_path` leaves. -/
def localPath (ol : LocalObjects) (name : CString) : CString :=
  ((ol.objects.find? fun o => o.name.1 = name).map fun o => o.path.1).getD (lit "")

/-- What is printed as a URI: the text that the call assembled, or what the array held before if it
found no local path. -/
def printedUri (uri : List UInt8) (d : Daemon) (name : CString) : Target → Option (List UInt8)
  | .notFound => none
  | .here => some (if localPath d.ol name = lit "" then (cstr uri).1
      else d.myUri.1 ++ (localPath d.ol name).1)
  | .via l => some (ascii "http://" ++ l.host.1.1 ++ ascii ":" ++ decimal l.serverP.toInt ++
      ascii "/static/f/" ++ name.1)

/-- The reply to an RDGET. -/
def rdgetReply : Option (List UInt8) → List UInt8
  | none => ascii "NOTFOUND 0 "
  | some u => okUri u

section Rdget

variable {d : Daemon} {c c' : TcpConnection} {uri u : List UInt8} {t : Target}

theorem length_lt_okUri (u : List UInt8) : u.length < (okUri u).length := by
  simp only [okUri, List.length_append]
  have : (ascii "OK ").length = 3 := by decide
  omega

theorem cstr_cons_zero (b : List UInt8) : cstr (0 :: b) = lit "" := by
  rw [lit]
  exact Subtype.ext rfl

/-- What `get_local_file_path` does. -/
theorem getLocalFilePath_spec (ol : LocalObjects) (hp : c.path.length = maxBuf) :
    (strlen (localPath ol (cstr c.name)) < maxBuf ∧ ∃ b, getLocalFilePath ol c = .ok { c with path := b } ∧
        cstr b = localPath ol (cstr c.name) ∧ b.length = maxBuf) ∨
      (maxBuf ≤ strlen (localPath ol (cstr c.name)) ∧ getLocalFilePath ol c = .error .overflow) := by
  unfold getLocalFilePath localPath
  cases ho : ol.objects.find? fun o => o.name.1 = cstr c.name with
  | none =>
    have hpos : 0 < c.path.length := by rw [hp]; decide
    refine .inl ⟨by decide, _, rfl, cstr_cons_zero _, ?_⟩
    rw [List.length_cons, List.length_tail, hp]
    rfl
  | some o =>
    simp only [Option.map_some, Option.getD_some]
    by_cases hlt : strlen o.path.1 < maxBuf
    · obtain ⟨b, hb, hlen⟩ := store_of_lt
        (show o.path.1.1.length < c.path.length by rw [hp]; exact hlt)
      refine .inl ⟨hlt, b, by rw [hb]; rfl, ?_, hlen.trans hp⟩
      exact Subtype.ext (cstr_store hb o.path.1.2)
    · refine .inr ⟨not_lt.mp hlt, ?_⟩
      rw [store_of_not_lt (by rw [hp]; exact hlt)]
      rfl

theorem storeUri_eq (hu : uri.length = bufSize) (hr : c.response.length = maxBuf) (h0 : 0 ∉ u) :
    (store uri u >>= fun v => c.respondUri v) = c.respond 200 (okUri u) := by
  by_cases hlt : u.length < bufSize
  · obtain ⟨v, hv, -⟩ := store_of_lt (show u.length < uri.length by rw [hu]; exact hlt)
    rw [hv, ok_bind, respondUri_eq (cstr_store hv h0)]
  · have := length_lt_okUri u
    rw [store_of_not_lt (by rw [hu]; exact hlt), respond_of_not_lt]
    · rfl
    · rw [hr, ← bufSize_eq]
      omega

theorem zero_notMem_printedUri (h : printedUri uri d (cstr c.name) t = some u) : 0 ∉ u := by
  cases t with
  | notFound => cases h
  | here =>
    obtain rfl := Option.some.inj h
    split_ifs
    · exact (cstr uri).2
    · exact List.mem_append.not.mpr (not_or.mpr ⟨d.myUri.2, (localPath d.ol (cstr c.name)).2⟩)
  | via l =>
    exact notMem_viaUri (d := d) h l.host.1.2 (cstr c.name).2 (zero_notMem_decimal _) (.inl rfl)

theorem printedUri_stale (uri : List UInt8) (h : localPath d.ol (cstr c.name) = lit "") :
    printedUri uri d (cstr c.name) .here = some (cstr uri).1 := by
  simp [printedUri, h]

theorem printedUri_here (uri : List UInt8) (h : localPath d.ol (cstr c.name) ≠ lit "") :
    printedUri uri d (cstr c.name) .here = some (d.myUri.1 ++ (localPath d.ol (cstr c.name)).1) := by
  simp [printedUri, h]

/-- **What an RDGET leaves**, whatever `uri` held. -/
theorem rdget_text (hp : c.path.length = maxBuf) (hr : c.response.length = maxBuf)
    (hu : uri.length = bufSize) (ht : rdgetTarget d (cstr c.name) = .ok t) :
    Leaves (rdget uri d c) (rdgetReply (printedUri uri d (cstr c.name) t)) := by
  rw [rdget, ht, ok_bind]
  cases t with
  | notFound => exact leaves_respond 404 hr hp (show 0 ∉ ascii "NOTFOUND 0 " by decide)
  | via l =>
    have h0 := zero_notMem_printedUri (show printedUri uri d (cstr c.name) (.via l) = some _ from rfl)
    dsimp only
    rw [storeUri_eq hu hr h0]
    exact leaves_respond 200 hr hp (okUri_zero h0)
  | here =>
    dsimp only
    rcases getLocalFilePath_spec d.ol hp with ⟨-, b, hb, hpath, hlen⟩ | ⟨hlong, hb⟩
    · rw [hb, ok_bind]
      simp only [hpath]
      by_cases hempty : localPath d.ol (cstr c.name) = lit ""
      · -- the ERROR is overwritten
        have h0 := zero_notMem_printedUri (printedUri_stale uri hempty)
        obtain ⟨c₁, h1⟩ := exists_respond 500
          (show (ascii "ERROR found object's host, but could not retrieve  path ").length <
            { c with path := b }.response.length by rw [hr]; decide)
        obtain ⟨-, hlen₁, hpath₁, -⟩ := respond_eq_ok h1
        rw [hempty, if_pos (by decide), h1, ok_bind, respondUri_eq rfl, printedUri_stale uri hempty]
        exact leaves_respond 200 (hlen₁.trans hr) (by rw [hpath₁]; exact hlen) (okUri_zero h0)
      · have h0 := zero_notMem_printedUri (printedUri_here uri hempty)
        have hne : strlen (localPath d.ol (cstr c.name)) ≠ 0 := fun h =>
          hempty (Subtype.ext ((List.length_eq_zero_iff.mp h).trans rfl))
        rw [if_neg hne, storeUri_eq (c := { c with path := b }) hu hr h0, printedUri_here uri hempty]
        exact leaves_respond 200 hr hlen (okUri_zero h0)
    · -- a path that does not fit makes a reply that does not fit
      have hempty : localPath d.ol (cstr c.name) ≠ lit "" := fun h => by
        rw [h] at hlong
        exact absurd hlong (by decide)
      have h0 := zero_notMem_printedUri (printedUri_here uri hempty)
      have h1 := length_lt_okUri (d.myUri.1 ++ (localPath d.ol (cstr c.name)).1)
      rw [List.length_append] at h1
      have hfull : c.respond 200 (okUri (d.myUri.1 ++ (localPath d.ol (cstr c.name)).1)) =
          .error .overflow := by
        refine respond_of_not_lt ?_
        unfold strlen at hlong
        rw [hr]
        omega
      have hl := leaves_respond 200 hr hp (okUri_zero h0)
      rw [hfull] at hl
      rw [hb, printedUri_here uri hempty]
      exact hl

end Rdget

/-! ### Every request -/

/-- An ADDFILE of a new object goes through. -/
structure Addable (opened : Bool) (d : Daemon) (name path : CString) : Prop where
  new : containsObject superFastHash d.gol name = none
  gol : ∃ gol, hashAdd superFastHash d.gol name d.myNodeId 0 = .ok gol
  name : strlen name < maxObjLen
  path : strlen path < maxPathLen
  room : d.ol.numObjects < maxObjNum
  opened : opened = true

/-- The texts that `build_response` leaves. -/
inductive Replies (uri : List UInt8) (opened : Bool) (d : Daemon) (c : TcpConnection) :
    List UInt8 → Prop
  | failed (status : c.status ≠ 200) :
      Replies uri opened d c (ascii "ERROR 21 Internal Server Error ")
  | rdget {t : Target} (status : c.status = 200) (method : cstr c.method = lit "RDGET")
      (target : rdgetTarget d (cstr c.name) = .ok t)
      (fits : (rdgetReply (printedUri uri d (cstr c.name) t)).length < maxBuf) :
      Replies uri opened d c (rdgetReply (printedUri uri d (cstr c.name) t))
  | listed (status : c.status = 200) (method : cstr c.method = lit "ADDFILE")
      (known : containsObject superFastHash d.gol (cstr c.name) ≠ none) :
      Replies uri opened d c (ascii "ERROR 19 File already exists ")
  | added (status : c.status = 200) (method : cstr c.method = lit "ADDFILE")
      (addable : Addable opened d (cstr c.name) (cstr c.path)) :
      Replies uri opened d c (ascii "OK 0 ")
  /-- nothing is printed -/
  | other (status : c.status = 200) (rdget : cstr c.method ≠ lit "RDGET")
      (addfile : cstr c.method ≠ lit "ADDFILE") : Replies uri opened d c (cstr c.response).1

section Build

variable {d d' : Daemon} {c c' : TcpConnection} {uri s : List UInt8} {opened : Bool}

theorem dispatch_addfile (hs : c.status = 200) (hm : cstr c.method = lit "ADDFILE") :
    dispatch uri opened d c = addfile opened d c := by
  have hne : lit "ADDFILE" ≠ lit "RDGET" := by decide
  rw [dispatch, if_neg (by simp [hs]), hm, if_neg hne, if_pos rfl]

theorem addfile_steps (h : Addable true d (cstr c.name) (cstr c.path)) (opened : Bool) :
    ∃ d', addfile opened d c = if opened then (c.respond 200 (ascii "OK 0 ")).map fun c' => (d', c')
      else .error .badPointer := by
  obtain ⟨gol, hg⟩ := h.gol
  have hpush : d.ol.push ⟨⟨cstr c.name, h.name⟩, ⟨cstr c.path, h.path⟩⟩ =
      .ok ⟨d.ol.objects ++ [⟨⟨cstr c.name, h.name⟩, ⟨cstr c.path, h.path⟩⟩], _⟩ := dif_pos h.room
  have hname : strcpy maxObjLen (cstr c.name) = .ok ⟨cstr c.name, h.name⟩ := dif_pos h.name
  have hpath : strcpy maxPathLen (cstr c.path) = .ok ⟨cstr c.path, h.path⟩ := dif_pos h.path
  simp only [addfile, h.new, hg, hname, hpath, hpush, ok_bind]
  exact ⟨_, by cases c.respond 200 (ascii "OK 0 ") <;> rfl⟩

theorem addfile_new (h : Addable opened d (cstr c.name) (cstr c.path)) :
    ∃ d', addfile opened d c = (c.respond 200 (ascii "OK 0 ")).map fun c' => (d', c') := by
  obtain rfl := h.opened
  exact addfile_steps h true

theorem addable_of_addfile {r : Daemon × TcpConnection}
    (hn : containsObject superFastHash d.gol (cstr c.name) = none) (h : addfile opened d c = .ok r) :
    Addable opened d (cstr c.name) (cstr c.path) := by
  rw [addfile, hn] at h
  obtain ⟨gol, hg, h⟩ := bind_eq_ok.mp h
  obtain ⟨name, hname, h⟩ := bind_eq_ok.mp h
  obtain ⟨path, hpath, h⟩ := bind_eq_ok.mp h
  obtain ⟨ol, hol, h⟩ := bind_eq_ok.mp h
  rw [strcpy_eq_ok] at hname hpath
  split_ifs at h with ho
  refine ⟨hn, ⟨gol, hg⟩, hname ▸ name.2, hpath ▸ path.2, ?_, ho⟩
  unfold LocalObjects.push at hol
  split_ifs at hol with hroom
  exact hroom

theorem buildResponse_of_dispatch (h : dispatch uri opened d c = .ok (d', c')) :
    buildResponse uri opened d c =
      .ok (d', { c' with responseIndex := strlen (cstr c'.response) }) := by
  rw [buildResponse, h]
  rfl

/-- **What `build_response` leaves**, and when it returns. -/
theorem buildResponse_replies (hp : c.path.length = maxBuf) (hr : c.response.length = maxBuf)
    (hu : uri.length = bufSize) (h : buildResponse uri opened d c = .ok (d', c')) :
    Replies uri opened d c c'.sent ∧ c'.response.length = maxBuf ∧ c'.path.length = maxBuf := by
  rw [sent_buildResponse h]
  obtain ⟨⟨d₁, c₁⟩, h1, h⟩ := bind_eq_ok.mp h
  cases h
  unfold dispatch at h1
  split_ifs at h1 with hst hget hadd
  · obtain ⟨c₂, h2, h1⟩ := bind_eq_ok.mp h1
    cases h1
    have hl := leaves_respond c.status hr hp
      (show 0 ∉ ascii "ERROR 21 Internal Server Error " by decide)
    exact ⟨(hl.text _ h2).symm ▸ .failed hst, hl.response c₁ h2, hl.path c₁ h2⟩
  · obtain ⟨c₂, h2, h1⟩ := bind_eq_ok.mp h1
    cases h1
    obtain ⟨t, ht, -⟩ := bind_eq_ok.mp h2
    have hl := rdget_text hp hr hu ht
    refine ⟨(hl.text _ h2).symm ▸ ?_, hl.response c₁ h2, hl.path c₁ h2⟩
    exact .rdget (not_not.mp hst) hget ht (hl.fits.mp ⟨_, h2⟩)
  · rcases addfile_eq_ok h1 with ⟨-, ⟨p, hk⟩, h2⟩ | ⟨⟨o, ho, hname, -⟩, h2⟩
    · have hl := leaves_respond 500 hr hp
        (show 0 ∉ ascii "ERROR 19 File already exists " by decide)
      refine ⟨(hl.text _ h2).symm ▸ ?_, hl.response c₁ h2, hl.path c₁ h2⟩
      exact .listed (not_not.mp hst) hadd (by rw [hk]; exact Option.some_ne_none p)
    · have hl := leaves_respond 200 hr hp (show 0 ∉ ascii "OK 0 " by decide)
      refine ⟨(hl.text _ h2).symm ▸ ?_, hl.response c₁ h2, hl.path c₁ h2⟩
      exact .added (not_not.mp hst) hadd (addable_of_addfile (hname ▸ ho.new) h1)
  · cases h1
    exact ⟨.other (not_not.mp hst) hget hadd, hr, hp⟩

theorem exists_buildResponse_of_replies (hp : c.path.length = maxBuf)
    (hr : c.response.length = maxBuf) (hu : uri.length = bufSize) (h : Replies uri opened d c s) :
    ∃ d' c', buildResponse uri opened d c = .ok (d', c') ∧ c'.sent = s := by
  -- a text that is printed is the one sent
  have key : ∀ {x : Except Fault TcpConnection} {t : List UInt8} (d₁ : Daemon), Leaves x t →
      t.length < maxBuf → dispatch uri opened d c = x.map (fun c' => (d₁, c')) →
      ∃ d' c', buildResponse uri opened d c = .ok (d', c') ∧ c'.sent = t := by
    intro x t d₁ hl hfit hx
    obtain ⟨c₁, rfl⟩ := hl.fits.mpr hfit
    have hb := buildResponse_of_dispatch hx
    exact ⟨_, _, hb, (sent_buildResponse hb).trans (hl.text c₁ rfl)⟩
  cases h with
  | failed status =>
    refine key d (leaves_respond c.status hr hp (by decide)) (by decide) ?_
    rw [dispatch, if_pos status]
    rfl
  | rdget status method target fits =>
    refine key d (rdget_text hp hr hu target) fits ?_
    rw [dispatch, if_neg (by simp [status]), if_pos method]
    rfl
  | listed status method known =>
    obtain ⟨p, hk⟩ := Option.ne_none_iff_exists'.mp known
    refine key d (leaves_respond 500 hr hp (by decide)) (by decide) ?_
    rw [dispatch_addfile status method, addfile, hk]
    rfl
  | added status method addable =>
    obtain ⟨d₁, h1⟩ := addfile_new addable
    refine key d₁ (leaves_respond 200 hr hp (by decide)) (by decide) ?_
    rw [dispatch_addfile status method, h1]
  | other status rdget addfile =>
    have hd : dispatch uri opened d c = .ok (d, c) := by
      rw [dispatch, if_neg (by simp [status]), if_neg rdget, if_neg addfile]
    have hb := buildResponse_of_dispatch hd
    exact ⟨_, _, hb, sent_buildResponse hb⟩

end Build

end RoutingDaemon
