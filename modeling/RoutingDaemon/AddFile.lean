import RoutingDaemon.FileLoader

/-!
# What requests do to the objects

* `fileLine`: the line that an ADDFILE appends to the files file.
* `Added`: what an ADDFILE changes; `addfile_eq_ok`, `dispatch_added`, `request_added`: a request
  changes nothing, or that.
* `buildResponse_rule`: what `build_response` keeps of a connection.
-/

namespace RoutingDaemon

/-- The line that is written for an object. -/
def fileLine (o : ObjectEntry) : List UInt8 := o.name.1.1 ++ ascii " " ++ o.path.1.1 ++ ascii "\n"

/-- An ADDFILE added the object `o`. -/
structure Added (d : Daemon) (o : ObjectEntry) (d' : Daemon) : Prop where
  new : containsObject superFastHash d.gol o.name.1 = none
  gol : hashAdd superFastHash d.gol o.name.1 d.myNodeId 0 = .ok d'.gol
  ol : d'.ol.objects = d.ol.objects ++ [o]
  rest : d' = { d with gol := d'.gol, ol := d'.ol, filefile := d.filefile ++ fileLine o }

theorem addfile_eq_ok {d d' : Daemon} {opened : Bool} {c c' : TcpConnection}
    (h : addfile opened d c = .ok (d', c')) :
    (d' = d ∧ (∃ p, containsObject superFastHash d.gol (cstr c.name) = some p) ∧
        c.respond 500 (ascii "ERROR 19 File already exists ") = .ok c') ∨
      (∃ o, Added d o d' ∧ o.name.1 = cstr c.name ∧ o.path.1 = cstr c.path) ∧
        c.respond 200 (ascii "OK 0 ") = .ok c' := by
  unfold addfile at h
  split at h
  · rename_i p hp
    obtain ⟨c₁, hc, h⟩ := bind_eq_ok.mp h
    cases h
    exact .inl ⟨rfl, ⟨p, hp⟩, hc⟩
  · rename_i hn
    obtain ⟨gol, hg, h⟩ := bind_eq_ok.mp h
    obtain ⟨name, hname, h⟩ := bind_eq_ok.mp h
    obtain ⟨path, hpath, h⟩ := bind_eq_ok.mp h
    obtain ⟨ol, hol, h⟩ := bind_eq_ok.mp h
    rw [strcpy_eq_ok] at hname hpath
    split_ifs at h
    obtain ⟨c₁, hc, h⟩ := bind_eq_ok.mp h
    cases h
    refine .inr ⟨⟨⟨name, path⟩, ⟨?_, ?_, push_objects hol, ?_⟩, hname, hpath⟩, hc⟩
    · rw [hname]; exact hn
    · rw [hname]; exact hg
    · rw [fileLine, hname, hpath]

/-- **A request changes nothing, or adds the object it names.** -/
theorem dispatch_added {d d' : Daemon} {uri : List UInt8} {opened : Bool} {c c' : TcpConnection}
    (h : dispatch uri opened d c = .ok (d', c')) : d' = d ∨
      ∃ o, Added d o d' ∧ o.name.1 = cstr c.name ∧ o.path.1 = cstr c.path := by
  unfold dispatch at h
  split_ifs at h
  · obtain ⟨_, -, h⟩ := bind_eq_ok.mp h
    cases h
    exact .inl rfl
  · obtain ⟨_, -, h⟩ := bind_eq_ok.mp h
    cases h
    exact .inl rfl
  · rcases addfile_eq_ok h with ⟨he, -⟩ | ⟨ha, -⟩
    · exact .inl he
    · exact .inr ha
  · cases h
    exact .inl rfl

theorem request_added {d d' : Daemon} {uri : List UInt8} {opened : Bool} {c : TcpConnection}
    {out : List Effect} (h : act (.request c uri opened) d = .ok (d', out)) :
    out = [] ∧ (d' = d ∨ ∃ o, Added d o d') := by
  obtain ⟨⟨d₁, c₁⟩, h1, h⟩ := bind_eq_ok.mp h
  cases h
  obtain ⟨⟨d₂, c₂⟩, h2, h1⟩ := bind_eq_ok.mp h1
  cases h1
  exact ⟨rfl, (dispatch_added h2).imp_right fun ⟨o, ho, _⟩ => ⟨o, ho⟩⟩

/-! ### The connection -/

section Connection

variable {P : TcpConnection → Prop} {d d' : Daemon} {uri : List UInt8} {opened : Bool}
  {c c' : TcpConnection}

theorem respond_rule (hkeep : ∀ c status response n, P c →
      P { c with status := status, response := response, responseIndex := n })
    {status : ℤ} {s : List UInt8} (hc : P c) (h : c.respond status s = .ok c') : P c' := by
  obtain ⟨b, -, h⟩ := bind_eq_ok.mp h
  cases h
  exact hkeep c status b c.responseIndex hc

/-- **What a response and a local path keep, `build_response` keeps.** -/
theorem buildResponse_rule (hkeep : ∀ c status response n, P c →
      P { c with status := status, response := response, responseIndex := n })
    (hpath : ∀ c c', P c → getLocalFilePath d.ol c = .ok c' → P c') (hc : P c)
    (h : buildResponse uri opened d c = .ok (d', c')) : P c' := by
  obtain ⟨⟨d₁, c₁⟩, h1, h⟩ := bind_eq_ok.mp h
  cases h
  refine hkeep c₁ c₁.status c₁.response _ ?_
  unfold dispatch at h1
  split_ifs at h1
  · obtain ⟨_, h2, h1⟩ := bind_eq_ok.mp h1
    cases h1
    exact respond_rule hkeep hc h2
  · obtain ⟨_, h2, h1⟩ := bind_eq_ok.mp h1
    cases h1
    obtain ⟨t, -, h2⟩ := bind_eq_ok.mp h2
    cases t with
    | notFound => exact respond_rule hkeep hc h2
    | here =>
      obtain ⟨c₂, h3, h2⟩ := bind_eq_ok.mp h2
      have hc₂ : P c₂ := hpath _ _ hc h3
      split_ifs at h2
      · obtain ⟨c₃, h4, h2⟩ := bind_eq_ok.mp h2
        exact respond_rule hkeep (respond_rule hkeep hc₂ h4) h2
      · obtain ⟨u, -, h2⟩ := bind_eq_ok.mp h2
        exact respond_rule hkeep hc₂ h2
    | via l =>
      obtain ⟨u, -, h2⟩ := bind_eq_ok.mp h2
      exact respond_rule hkeep hc h2
  · rcases addfile_eq_ok h1 with ⟨-, -, h2⟩ | ⟨-, h2⟩ <;> exact respond_rule hkeep hc h2
  · cases h1
    exact hc

end Connection

end RoutingDaemon
