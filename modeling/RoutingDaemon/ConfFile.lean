import RoutingDaemon.FilesFile

/-!
# The configuration file

* `Access`, `Loader`: the arrays of `load_node_conf`, and which of their elements it accessed.
* `loadConf`: `load_node_conf` on the bytes of a file.
* `ConfLine`, `confFile`: well-formed files; `readLines_confFile`, `tokenLoop_line`: they are read line by
  line and field by field.
* `confLine_line`: what a line writes; `Loading.run`, `allocLoop_allocated`, `exists_loadConf`: what the
  loops leave.
* `conf_not_loaded`: every line writes `tokens[5]`, and three fields of an entry at the wrong index.
* `loadConf_loadNodeConf`: from zeroed memory, the tables are those of `loadNodeConf`.
-/

namespace RoutingDaemon

/-! ### `load_node_conf` -/

/-- The arrays of `load_node_conf`: the local `tokens`, `links` and `table`. -/
inductive ConfArray
  | tokens
  | links
  | table
  deriving DecidableEq

/-- The declared sizes. -/
def ConfArray.size : ConfArray → ℕ
  | tokens => 5
  | links => maxNodes
  | table => maxNodes

/-- An element of one of the arrays. -/
structure Access where
  array : ConfArray
  index : ℕ
  deriving DecidableEq

/-- The element exists. -/
def Access.Inside (a : Access) : Prop := a.index < a.array.size

instance (a : Access) : Decidable a.Inside := inferInstanceAs (Decidable (_ < _))

/-- The two tables in memory, with their counters, and the elements accessed so far. What is written past
the end of an array is recorded here, and taken to hit nothing else. -/
structure Loader where
  links : ℕ → LinkEntry
  table : ℕ → RoutingEntry
  numLinks : ℕ
  numEntry : ℕ
  touched : List Access

namespace Loader

/-- Write `links[j]`. -/
def setLink (s : Loader) (j : ℕ) (l : LinkEntry) : Loader :=
  { s with links := Function.update s.links j l, touched := ⟨.links, j⟩ :: s.touched }

/-- Write fields of `table[k]`. -/
def modifyEntry (s : Loader) (k : ℕ) (f : RoutingEntry → RoutingEntry) : Loader :=
  { s with table := Function.update s.table k (f (s.table k)), touched := ⟨.table, k⟩ :: s.touched }

/-- Read `links[j]`. -/
def readLink (s : Loader) (j : ℕ) : Loader := { s with touched := ⟨.links, j⟩ :: s.touched }

end Loader

/-- `while (i < 5)`: the token index, the tokens and the elements of `tokens` that were written. -/
def tokenLoop (i : ℕ) (rest : List UInt8) (tokens : ℕ → Option (List UInt8)) (touched : List Access) :
    Except Fault (ℕ × (ℕ → Option (List UInt8)) × List Access) :=
  if i < 5 then do
    let t ← strtokSpace rest
    tokenLoop (i + 1) t.rest (Function.update tokens (i + 1) t.token) (⟨.tokens, i + 1⟩ :: touched)
  else .ok (i, tokens, touched)
termination_by 5 - i

/-- The assignments to `links[j]`, `table[j]` and `table[i]`, where `i` is the token index. -/
def storeLine (link : LinkEntry) (i j : ℕ) (s : Loader) : Loader :=
  let s := s.setLink j link
  let s := { s with numLinks := s.numLinks + 1 }
  let k : ℤ := if j = 0 then 0 else 1
  let s := s.modifyEntry j fun e =>
    { e with id := link.id, nexthop := link.id, cost := k, nodeStatus := 3, lsa := none }
  let s := s.readLink 0
  let s := s.modifyEntry i fun e =>
    { e with lsaIsNew := false, lsaSize := 0, forwarderId := (s.links 0).id }
  let s := s.modifyEntry j fun e => { e with checkersList := none }
  { s with numEntry := s.numEntry + 1 }

/-- The body of the loop over the lines, for line `j`. -/
def confLine (line : List UInt8) (j : ℕ) (s : Loader) : Except Fault Loader := do
  let t ← strtokSpace (line ++ [0])
  let (i, tokens, touched) ← tokenLoop 0 t.rest (Function.update (fun _ => none) 0 t.token)
    (⟨.tokens, 0⟩ :: s.touched)
  let id ← deref (tokens 0)
  let host ← deref (tokens 1)
  let routeP ← deref (tokens 2)
  let localP ← deref (tokens 3)
  let serverP ← deref (tokens 4)
  let hostBuf ← strcpy maxBuf (cstr host)
  let link : LinkEntry := ⟨atoi id, hostBuf, atoi localP, atoi routeP, atoi serverP⟩
  .ok (storeLine link i j { s with touched := touched })

/-- The loop over the lines. -/
def confLines : List (List UInt8) → ℕ → Loader → Except Fault Loader
  | [], _, s => .ok s
  | line :: lines, j, s => do
    let s ← confLine line j s
    confLines lines (j + 1) s

/-- The inner loop over the checkers: `links[i]` for every `i` below `num_links`. -/
def fillCheckers (s : Loader) : List AckChecker :=
  (List.range s.numLinks).map fun i => ⟨(s.links i).id, .received, 0⟩

/-- The loop that allocates a list of checkers for each of these entries. It reads every link. -/
def allocLoop : List ℕ → Loader → Loader
  | [], s => s
  | j :: js, s =>
    let s := (List.range s.numLinks).foldl Loader.readLink s
    allocLoop js (s.modifyEntry j fun e =>
      { e with checkersList := some ⟨.ofNat s.numLinks, fillCheckers s⟩ })

/-- `load_node_conf`, on the bytes of a file that can be opened: the tables and `my_uri`, with what it
accessed. -/
def loadConf (file : List UInt8) (hostname : CString) (s : Loader) : Except Fault (Loader × CString) := do
  let s ← confLines (readLines file.length file) 0
    { s with numLinks := 0, numEntry := 0, touched := [] }
  let s := (allocLoop (List.range s.numEntry) s).readLink 0
  .ok (s, cstr (ascii "http://" ++ hostname.1 ++ ascii ":" ++ decimal (s.links 0).serverP.toInt))

/-! ### Well-formed lines -/

/-- A field, with the spaces before it. -/
structure ConfField where
  spaces : ℕ
  text : List UInt8
  word : IsWord 32 0 text
  newline : 10 ∉ text

/-- The bytes of a field. -/
def ConfField.bytes (f : ConfField) : List UInt8 := List.replicate f.spaces 32 ++ f.text

/-- A line up to its newline: five fields, with spaces between them and possibly around them, that fit
the buffer. -/
structure ConfLine where
  id : ConfField
  host : ConfField
  routeP : ConfField
  localP : ConfField
  serverP : ConfField
  spaces : ℕ
  fits : (id.bytes ++ 32 :: (host.bytes ++ 32 :: (routeP.bytes ++ 32 :: (localP.bytes ++ 32 ::
    (serverP.bytes ++ List.replicate spaces 32))))).length < maxLine - 1

/-- The bytes of a line. -/
def ConfLine.bytes (l : ConfLine) : List UInt8 :=
  l.id.bytes ++ 32 :: (l.host.bytes ++ 32 :: (l.routeP.bytes ++ 32 :: (l.localP.bytes ++ 32 ::
    (l.serverP.bytes ++ List.replicate l.spaces 32))))

/-- A file of such lines. The last one may lack its newline. -/
def confFile (lines : List ConfLine) (newline : Bool) : List UInt8 :=
  let file := lines.flatMap fun l => l.bytes ++ [10]
  if newline then file else file.dropLast

/-- `fgets` reads the line as this. -/
def ConfLine.ReadAs (l : ConfLine) (line : List UInt8) : Prop := line = l.bytes ++ [10] ∨ line = l.bytes

theorem ConfLine.host_lt (l : ConfLine) : strlen (cstr l.host.text) < maxBuf := by
  refine lt_of_le_of_lt (strlen_cstr_le l.host.text) ?_
  have h := l.fits
  simp only [ConfField.bytes, List.length_append, List.length_cons, List.length_replicate] at h
  unfold maxLine at h
  unfold maxBuf
  omega

/-- The link that a line describes. -/
def ConfLine.link (l : ConfLine) : LinkEntry :=
  ⟨atoi l.id.text, ⟨cstr l.host.text, l.host_lt⟩, atoi l.localP.text, atoi l.routeP.text,
    atoi l.serverP.text⟩

/-- The id of the first line. -/
def firstId (lines : List ConfLine) : Int32 := (lines.head?.map fun l => l.link.id).getD 0

/-- The server port of the first line. -/
def firstPort (lines : List ConfLine) : Int32 := (lines.head?.map fun l => l.link.serverP).getD 0

section Bytes

theorem ConfField.newline_notMem (f : ConfField) : 10 ∉ f.bytes := by
  intro h
  rcases List.mem_append.mp h with h | h
  · exact absurd (List.eq_of_mem_replicate h) (by decide)
  · exact f.newline h

theorem ConfLine.newline_notMem (l : ConfLine) : 10 ∉ l.bytes := by
  have hspaces : (10 : UInt8) ∉ List.replicate l.spaces 32 := fun h =>
    absurd (List.eq_of_mem_replicate h) (by decide)
  simp [ConfLine.bytes, ConfField.newline_notMem, hspaces]

theorem ConfLine.bytes_ne_nil (l : ConfLine) : l.bytes ≠ [] := by
  simp [ConfLine.bytes]

theorem length_le_flatMap (lines : List ConfLine) :
    lines.length ≤ (lines.flatMap fun l => l.bytes ++ [10]).length := by
  have hpos : ∀ n ∈ lines.map fun l => (l.bytes ++ [10]).length, 1 ≤ n := by
    intro n hn
    obtain ⟨l, -, rfl⟩ := List.mem_map.mp hn
    simp
  rw [List.length_flatMap]
  have := List.length_le_sum_of_one_le _ hpos
  rwa [List.length_map] at this

theorem readLines_confLines (lines : List ConfLine) (tail : List UInt8) (n : ℕ) (hn : lines.length ≤ n) :
    readLines n (lines.flatMap (fun l => l.bytes ++ [10]) ++ tail) =
      lines.map (fun l => l.bytes ++ [10]) ++ readLines (n - lines.length) tail := by
  have hnewline : ∀ b ∈ lines.map ConfLine.bytes, 10 ∉ b := by
    intro b hb
    obtain ⟨l, -, rfl⟩ := List.mem_map.mp hb
    exact l.newline_notMem
  have hfits : ∀ b ∈ lines.map ConfLine.bytes, b.length < maxLine - 1 := by
    intro b hb
    obtain ⟨l, -, rfl⟩ := List.mem_map.mp hb
    exact l.fits
  have hread := readLines_append hnewline hfits tail n (by rwa [List.length_map])
  rwa [List.flatMap_map, List.map_map, List.length_map] at hread

/-- **Every line of a file is read.** -/
theorem readLines_confFile (lines : List ConfLine) (newline : Bool) : List.Forall₂ ConfLine.ReadAs lines
    (readLines (confFile lines newline).length (confFile lines newline)) := by
  have hread : ∀ ls : List ConfLine, List.Forall₂ ConfLine.ReadAs ls (ls.map fun l => l.bytes ++ [10]) :=
    fun ls => List.forall₂_map_right_iff.mpr (List.forall₂_same.mpr fun l _ => .inl rfl)
  cases newline with
  | true =>
    have hfile : confFile lines true = lines.flatMap (fun l => l.bytes ++ [10]) ++ [] := by
      simp [confFile]
    have hnil : ∀ n, readLines n [] = [] := fun n => by cases n <;> rfl
    rw [hfile, readLines_confLines lines [] _ (by simp), hnil,
      List.append_nil]
    exact hread lines
  | false =>
    rcases List.eq_nil_or_concat' lines with rfl | ⟨init, l, rfl⟩
    · exact .nil
    · have hfile : confFile (init ++ [l]) false = init.flatMap (fun l => l.bytes ++ [10]) ++ l.bytes := by
        simp [confFile, ← List.append_assoc]
      have hlen := length_le_flatMap init
      have hpos := List.length_pos_iff.mpr l.bytes_ne_nil
      rw [hfile, readLines_confLines init l.bytes _ (by rw [List.length_append]; omega),
        readLines_last l.bytes_ne_nil l.newline_notMem l.fits (by rw [List.length_append]; omega)]
      exact List.rel_append (hread init) (.cons (.inr rfl) .nil)

theorem strtokSpace_field (f : ConfField) (rest : List UInt8) :
    strtokSpace (f.bytes ++ 32 :: rest) = .ok ⟨f.bytes ++ [0], rest, some f.text⟩ := by
  rw [strtokSpace_eq_ok, strtok_eq_some_iff space_ne_zero, ConfField.bytes, List.append_assoc]
  exact .word f.spaces f.word rest

theorem strtokSpace_end (f : ConfField) (k : ℕ) {e : List UInt8} (he : e = [10] ∨ e = []) :
    ∃ t, strtokSpace (f.bytes ++ (List.replicate k 32 ++ (e ++ [0]))) = .ok t ∧
      (t.token = some f.text ∨ t.token = some (f.text ++ [10])) ∧ ∃ t', strtokSpace t.rest = .ok t' := by
  have hword : IsWord 32 0 [(10 : UInt8)] := ⟨by simp, by decide, by decide⟩
  have hlast : IsWord 32 0 (f.text ++ [10]) :=
    ⟨by simp, by simp [f.word.sep], by simp [f.word.nul]⟩
  simp only [strtokSpace_eq_ok, strtok_eq_some_iff space_ne_zero, ConfField.bytes, List.append_assoc]
  cases k with
  | zero =>
    rcases he with rfl | rfl
    · -- the newline belongs to the last token
      refine ⟨⟨List.replicate f.spaces 32 ++ (f.text ++ [10]), [0], some (f.text ++ [10])⟩, ?_, .inr rfl,
        _, .none 0 []⟩
      have h := Tokenized.last f.spaces hlast []
      rwa [List.append_assoc] at h
    · exact ⟨_, .last f.spaces f.word [], .inl rfl, _, .none 0 []⟩
  | succ k =>
    rw [show List.replicate (k + 1) 32 ++ (e ++ [0]) = 32 :: (List.replicate k (32 : UInt8) ++ (e ++ [0]))
      from rfl]
    refine ⟨⟨List.replicate f.spaces 32 ++ f.text ++ [0], List.replicate k 32 ++ (e ++ [0]), some f.text⟩,
      .word f.spaces f.word _, .inl rfl, ?_⟩
    rcases he with rfl | rfl
    · exact ⟨_, .last k hword []⟩
    · exact ⟨_, .none k []⟩

theorem atoi_newline (w : List UInt8) : atoi (w ++ [10]) = atoi w := by
  have hread : ∀ v : List UInt8, readNat (v ++ [10]) = readNat v := by
    intro v
    have hdigit : isDigit 10 = false := by decide
    rw [readNat, readNat, List.takeWhile_append]
    split_ifs with hv
    · rw [List.takeWhile_cons_of_neg (by simp [hdigit]), List.append_nil,
        (List.takeWhile_prefix isDigit).eq_of_length hv]
    · rfl
  unfold atoi strtol
  have hspace : isSpace 10 = true := by decide
  rw [List.dropWhile_append]
  cases hw : w.dropWhile isSpace with
  | nil => simp [hspace]
  | cons b v =>
    have hcons := hread (b :: v)
    simp only [List.cons_append] at hcons
    simp [hread, hcons]

end Bytes

/-! ### One line -/

/-- What the first loop makes of the entry of line `j`, at index `j`. -/
def RoutingEntry.configured (e : RoutingEntry) (j : ℕ) (id : Int32) : RoutingEntry :=
  { e with
    id := id
    nexthop := id
    cost := if j = 0 then 0 else 1
    nodeStatus := 3
    lsa := none
    checkersList := none }

/-- What it makes of the entry at the token index. -/
def RoutingEntry.marked (e : RoutingEntry) (forwarderId : Int32) : RoutingEntry :=
  { e with lsaIsNew := false, lsaSize := 0, forwarderId := forwarderId }

/-- Line `j` was loaded: the token index was 5. -/
structure LineLoaded (link : LinkEntry) (j : ℕ) (s s' : Loader) : Prop where
  links : s'.links = Function.update s.links j link
  table : ∀ k, s'.table k =
    let e := if k = j then (s.table k).configured j link.id else s.table k
    if k = 5 then e.marked (s'.links 0).id else e
  numLinks : s'.numLinks = s.numLinks + 1
  numEntry : s'.numEntry = s.numEntry + 1
  touched : ∀ a, a ∈ s'.touched ↔ a ∈ s.touched ∨ (a.array = .tokens ∧ a.index ≤ 5) ∨
    a = ⟨.links, 0⟩ ∨ a = ⟨.links, j⟩ ∨ a = ⟨.table, 5⟩ ∨ a = ⟨.table, j⟩

section Loader

variable (s : Loader) (j k : ℕ)

@[simp] theorem Loader.table_setLink (l : LinkEntry) : (s.setLink j l).table = s.table := rfl

@[simp] theorem Loader.table_readLink : (s.readLink j).table = s.table := rfl

@[simp] theorem Loader.links_readLink : (s.readLink j).links = s.links := rfl

@[simp] theorem Loader.links_modifyEntry (f : RoutingEntry → RoutingEntry) :
    (s.modifyEntry j f).links = s.links := rfl

theorem Loader.table_modifyEntry (f : RoutingEntry → RoutingEntry) :
    (s.modifyEntry j f).table k = if k = j then f (s.table k) else s.table k := by
  show Function.update s.table j (f (s.table j)) k = _
  rw [Function.update_apply]
  split_ifs with hk
  · rw [hk]
  · rfl

theorem touched_storeLine (link : LinkEntry) (i : ℕ) : (storeLine link i j s).touched =
    ⟨.table, j⟩ :: ⟨.table, i⟩ :: ⟨.links, 0⟩ :: ⟨.table, j⟩ :: ⟨.links, j⟩ :: s.touched := rfl

theorem table_storeLine (link : LinkEntry) : (storeLine link 5 j s).table k =
    let e := if k = j then (s.table k).configured j link.id else s.table k
    if k = 5 then e.marked ((storeLine link 5 j s).links 0).id else e := by
  simp only [storeLine, Loader.table_modifyEntry, Loader.table_setLink, Loader.table_readLink,
    Loader.links_modifyEntry, Loader.links_readLink]
  by_cases hj : k = j <;> by_cases h5 : k = 5
  · simp only [if_pos hj, if_pos h5]
    rfl
  · simp only [if_pos hj, if_neg h5]
    rfl
  · simp only [if_neg hj, if_pos h5]
    rfl
  · simp only [if_neg hj, if_neg h5]

end Loader

theorem tokenLoop_lt {i : ℕ} (hi : i < 5) {rest : List UInt8} {t : TokenCall UInt8}
    (h : strtokSpace rest = .ok t) (tokens : ℕ → Option (List UInt8)) (touched : List Access) :
    tokenLoop i rest tokens touched = tokenLoop (i + 1) t.rest
      (Function.update tokens (i + 1) t.token) (⟨.tokens, i + 1⟩ :: touched) := by
  rw [tokenLoop, if_pos hi, h, ok_bind]

theorem tokenLoop_five (rest : List UInt8) (tokens : ℕ → Option (List UInt8)) (touched : List Access) :
    tokenLoop 5 rest tokens touched = .ok (5, tokens, touched) := by
  rw [tokenLoop, if_neg (by decide)]

/-- The tokens of a line: the loop ends with `tokens[5]`. -/
theorem tokenLoop_line {l : ConfLine} {line : List UInt8} (hline : l.ReadAs line) (touched : List Access) :
    ∃ t tokens serverP, strtokSpace (line ++ [0]) = .ok t ∧
      tokenLoop 0 t.rest (Function.update (fun _ => none) 0 t.token) (⟨.tokens, 0⟩ :: touched) =
        .ok (5, tokens, [⟨.tokens, 5⟩, ⟨.tokens, 4⟩, ⟨.tokens, 3⟩, ⟨.tokens, 2⟩, ⟨.tokens, 1⟩,
          ⟨.tokens, 0⟩] ++ touched) ∧
      tokens 0 = some l.id.text ∧ tokens 1 = some l.host.text ∧ tokens 2 = some l.routeP.text ∧
      tokens 3 = some l.localP.text ∧ tokens 4 = some serverP ∧ atoi serverP = atoi l.serverP.text := by
  obtain ⟨e, he, rfl⟩ : ∃ e, (e = [10] ∨ e = []) ∧ line = l.bytes ++ e := by
    rcases hline with h | h
    · exact ⟨_, .inl rfl, h⟩
    · exact ⟨_, .inr rfl, by rw [List.append_nil, h]⟩
  have hbytes : l.bytes ++ e ++ [0] = l.id.bytes ++ 32 :: (l.host.bytes ++ 32 :: (l.routeP.bytes ++
      32 :: (l.localP.bytes ++ 32 :: (l.serverP.bytes ++ (List.replicate l.spaces 32 ++ (e ++ [0])))))) := by
    simp [ConfLine.bytes]
  obtain ⟨t4, h4, htok, t5, h5⟩ := strtokSpace_end l.serverP l.spaces he
  obtain ⟨w, hw, hint⟩ : ∃ w, t4.token = some w ∧ atoi w = atoi l.serverP.text := by
    rcases htok with htok | htok
    · exact ⟨_, htok, rfl⟩
    · exact ⟨_, htok, atoi_newline _⟩
  rw [hbytes]
  have h1 := strtokSpace_field l.host (l.routeP.bytes ++ 32 :: (l.localP.bytes ++ 32 ::
    (l.serverP.bytes ++ (List.replicate l.spaces 32 ++ (e ++ [0])))))
  have h2 := strtokSpace_field l.routeP (l.localP.bytes ++ 32 ::
    (l.serverP.bytes ++ (List.replicate l.spaces 32 ++ (e ++ [0]))))
  have h3 := strtokSpace_field l.localP (l.serverP.bytes ++ (List.replicate l.spaces 32 ++ (e ++ [0])))
  have hloop := (tokenLoop_lt (i := 0) (by decide) h1 (Function.update (fun _ => none) 0 (some l.id.text))
    (⟨.tokens, 0⟩ :: touched)).trans <| (tokenLoop_lt (by decide) h2 _ _).trans <|
    (tokenLoop_lt (by decide) h3 _ _).trans <| (tokenLoop_lt (by decide) h4 _ _).trans <|
    (tokenLoop_lt (by decide) h5 _ _).trans <| tokenLoop_five _ _ _
  exact ⟨_, _, w, strtokSpace_field l.id _, hloop, rfl, rfl, rfl, rfl, hw, hint⟩

theorem mem_tokens {a : Access} : a ∈ [(⟨.tokens, 5⟩ : Access), ⟨.tokens, 4⟩, ⟨.tokens, 3⟩,
    ⟨.tokens, 2⟩, ⟨.tokens, 1⟩, ⟨.tokens, 0⟩] ↔ a.array = .tokens ∧ a.index ≤ 5 := by
  obtain ⟨x, n⟩ := a
  simp only [List.mem_cons, Access.mk.injEq, List.not_mem_nil, or_false]
  constructor
  · rintro (⟨rfl, rfl⟩ | ⟨rfl, rfl⟩ | ⟨rfl, rfl⟩ | ⟨rfl, rfl⟩ | ⟨rfl, rfl⟩ | ⟨rfl, rfl⟩) <;> simp
  · rintro ⟨rfl, hn⟩
    simp only [true_and]
    omega

/-- **A well-formed line is loaded.** -/
theorem confLine_line {l : ConfLine} {line : List UInt8} (hline : l.ReadAs line) (j : ℕ) (s : Loader) :
    ∃ s', confLine line j s = .ok s' ∧ LineLoaded l.link j s s' := by
  obtain ⟨t, tokens, w, h0, hloop, t0, t1, t2, t3, t4, hint⟩ := tokenLoop_line hline s.touched
  have hhost : strcpy maxBuf (cstr l.host.text) = .ok ⟨cstr l.host.text, l.host_lt⟩ := dif_pos l.host_lt
  simp only [confLine, h0, ok_bind, hloop, t0, t1, t2, t3, t4, deref_some, hhost, hint]
  refine ⟨_, rfl, rfl, fun k => table_storeLine _ j k l.link, rfl, rfl, fun a => ?_⟩
  rw [touched_storeLine, ← mem_tokens]
  simp only [List.mem_cons, List.mem_append]
  tauto

/-! ### The loops -/

/-- What is known after the lines before index `j` were loaded into the memory `m`. -/
structure Loading (lines : List ConfLine) (j : ℕ) (m s : Loader) : Prop where
  numLinks : s.numLinks = j
  numEntry : s.numEntry = j
  links : ∀ k, s.links k = if k < j then (lines[k]?.map ConfLine.link).getD (m.links k) else m.links k
  table : ∀ k, s.table k =
    let e := if k < j then (m.table k).configured k (s.links k).id else m.table k
    if k = 5 ∧ 0 < j then e.marked (firstId lines) else e
  inside : ∀ a ∈ s.touched, a.Inside ∨ a = ⟨.tokens, 5⟩
  outside : 0 < j → ⟨.tokens, 5⟩ ∈ s.touched

theorem loading_zero (lines : List ConfLine) (m : Loader) :
    Loading lines 0 m { m with numLinks := 0, numEntry := 0, touched := [] } where
  numLinks := rfl
  numEntry := rfl
  links _ := rfl
  table _ := by simp
  inside a ha := by cases ha
  outside h := absurd h (lt_irrefl 0)

section Line

variable {lines : List ConfLine} {j : ℕ} {m s s' : Loader} {l : ConfLine}

theorem Loading.links_line (h : Loading lines j m s) (hl : lines[j]? = some l)
    (hs : LineLoaded l.link j s s') (k : ℕ) : s'.links k =
      if k < j + 1 then (lines[k]?.map ConfLine.link).getD (m.links k) else m.links k := by
  rw [hs.links, Function.update_apply, h.links]
  rcases lt_trichotomy k j with hk | rfl | hk
  · rw [if_neg hk.ne, if_pos hk, if_pos (hk.trans (Nat.lt_succ_self j))]
  · rw [if_pos rfl, if_pos (Nat.lt_succ_self k), hl]
    rfl
  · rw [if_neg hk.ne', if_neg (by omega), if_neg (by omega)]

theorem Loading.first_line (h : Loading lines j m s) (hl : lines[j]? = some l)
    (hs : LineLoaded l.link j s s') : (s'.links 0).id = firstId lines := by
  rw [h.links_line hl hs, if_pos (Nat.succ_pos j), firstId, List.head?_eq_getElem?]
  cases h0 : lines[0]? with
  | some l₀ => rfl
  | none =>
    rw [List.getElem?_eq_none_iff] at h0
    obtain ⟨hlt, -⟩ := List.getElem?_eq_some_iff.mp hl
    omega

theorem Loading.table_line (h : Loading lines j m s) (hl : lines[j]? = some l)
    (hs : LineLoaded l.link j s s') (k : ℕ) : s'.table k =
      let e := if k < j + 1 then (m.table k).configured k (s'.links k).id else m.table k
      if k = 5 ∧ 0 < j + 1 then e.marked (firstId lines) else e := by
  have hkeep : k ≠ j → s'.links k = s.links k := fun hk => by
    rw [hs.links, Function.update_of_ne hk]
  have h0 : 0 < j + 1 := Nat.succ_pos j
  rcases lt_trichotomy k j with hk | rfl | hk
  · simp only [hs.table, h.table, h.first_line hl hs, hkeep hk.ne, if_neg hk.ne, if_pos hk,
      if_pos (hk.trans (Nat.lt_succ_self j)), (Nat.zero_le k).trans_lt hk, h0, and_true]
    split_ifs <;> rfl
  · have hlink : s'.links k = l.link := by rw [hs.links, Function.update_self]
    simp only [hs.table, h.table, h.first_line hl hs, hlink, if_true, lt_irrefl, if_false,
      if_pos (Nat.lt_succ_self k), h0, and_true]
    split_ifs <;> first | rfl | omega
  · simp only [hs.table, h.table, h.first_line hl hs, if_neg hk.ne', if_neg hk.not_gt,
      if_neg (show ¬k < j + 1 by omega), h0, and_true]
    split_ifs <;> first | rfl | omega

/-- **One more line.** -/
theorem Loading.line (h : Loading lines j m s) (hl : lines[j]? = some l) (hj : j < maxNodes)
    (hs : LineLoaded l.link j s s') : Loading lines (j + 1) m s' where
  numLinks := by rw [hs.numLinks, h.numLinks]
  numEntry := by rw [hs.numEntry, h.numEntry]
  links := h.links_line hl hs
  table := h.table_line hl hs
  outside _ := (hs.touched _).mpr (.inr (.inl ⟨rfl, le_rfl⟩))
  inside a ha := by
    rcases (hs.touched a).mp ha with ha | ⟨harray, hindex⟩ | rfl | rfl | rfl | rfl
    · exact h.inside a ha
    · obtain ⟨x, n⟩ := a
      obtain rfl : x = .tokens := harray
      rcases Nat.lt_or_eq_of_le hindex with hn | hn
      · exact .inl hn
      · exact .inr (by rw [show n = 5 from hn])
    · exact .inl (by decide)
    · exact .inl hj
    · exact .inl (by decide)
    · exact .inl hj

end Line

/-- **The lines are loaded one after the other.** -/
theorem Loading.run {lines : List ConfLine} (hlen : lines.length ≤ maxNodes) {m : Loader}
    {rest : List ConfLine} {bytes : List (List UInt8)} (hr : List.Forall₂ ConfLine.ReadAs rest bytes) :
    ∀ {j : ℕ} {s : Loader}, lines.drop j = rest → Loading lines j m s →
      ∃ s', confLines bytes j s = .ok s' ∧ Loading lines (j + rest.length) m s' := by
  induction hr with
  | nil => exact fun _ h => ⟨_, rfl, h⟩
  | @cons l line rest bytes hline _ ih =>
    intro j s hdrop h
    have hl : lines[j]? = some l := by rw [← List.head?_drop, hdrop, List.head?_cons]
    have hj : j < lines.length := (List.getElem?_eq_some_iff.mp hl).1
    have hrest : lines.drop (j + 1) = rest := by rw [← List.tail_drop, hdrop, List.tail_cons]
    obtain ⟨s₁, h₁, hloaded⟩ := confLine_line hline j s
    obtain ⟨s', h', hs'⟩ := ih hrest (h.line hl (hj.trans_le hlen) hloaded)
    refine ⟨s', ?_, ?_⟩
    · rw [confLines, h₁, ok_bind, h']
    · rwa [List.length_cons, Nat.add_comm rest.length, ← Nat.add_assoc]

theorem foldl_readLink (js : List ℕ) (s : Loader) : js.foldl Loader.readLink s =
    { s with touched := (js.map fun i => ⟨.links, i⟩).reverse ++ s.touched } := by
  induction js generalizing s with
  | nil => rfl
  | cons j js ih => simp [ih, Loader.readLink]

/-- The entry of a list of checkers. -/
def RoutingEntry.allocated (e : RoutingEntry) (s : Loader) : RoutingEntry :=
  { e with checkersList := some ⟨.ofNat s.numLinks, fillCheckers s⟩ }

/-- These entries got their lists of checkers. -/
structure Allocated (js : List ℕ) (s s' : Loader) : Prop where
  links : s'.links = s.links
  numLinks : s'.numLinks = s.numLinks
  numEntry : s'.numEntry = s.numEntry
  table : ∀ k, s'.table k = if k ∈ js then (s.table k).allocated s else s.table k
  touched : ∀ a, a ∈ s'.touched → a ∈ s.touched ∨ (∃ i < s.numLinks, a = ⟨.links, i⟩) ∨
    ∃ j ∈ js, a = ⟨.table, j⟩
  kept : ∀ a ∈ s.touched, a ∈ s'.touched

theorem allocLoop_cons (j : ℕ) (js : List ℕ) (s : Loader) : allocLoop (j :: js) s =
    allocLoop js (Loader.modifyEntry
      { s with touched := ((List.range s.numLinks).map fun i => ⟨.links, i⟩).reverse ++ s.touched } j
      fun e => e.allocated s) := by
  rw [allocLoop, foldl_readLink]
  rfl

/-- **What the second loop does.** -/
theorem allocLoop_allocated (js : List ℕ) (s : Loader) : Allocated js s (allocLoop js s) := by
  induction js generalizing s with
  | nil => exact ⟨rfl, rfl, rfl, fun _ => rfl, fun _ h => .inl h, fun _ h => h⟩
  | cons j js ih =>
    rw [allocLoop_cons]
    set s₁ := Loader.modifyEntry
      { s with touched := ((List.range s.numLinks).map fun i => ⟨.links, i⟩).reverse ++ s.touched } j
      (fun e => e.allocated s) with hs₁
    have h := ih s₁
    have htouched : ∀ a, a ∈ s₁.touched ↔
        a = ⟨.table, j⟩ ∨ (∃ i < s.numLinks, a = ⟨.links, i⟩) ∨ a ∈ s.touched := by
      intro a
      simp [hs₁, Loader.modifyEntry, eq_comm]
    refine ⟨h.links, h.numLinks, h.numEntry, fun k => ?_, fun a ha => ?_, fun a ha =>
      h.kept a ((htouched a).mpr (.inr (.inr ha)))⟩
    · have htable : s₁.table k = if k = j then (s.table k).allocated s else s.table k :=
        Loader.table_modifyEntry _ j k _
      have halloc : ∀ e : RoutingEntry, e.allocated s₁ = e.allocated s := fun _ => rfl
      rw [h.table, htable, halloc]
      by_cases hkj : k = j <;> by_cases hkjs : k ∈ js
      · rw [if_pos hkjs, if_pos hkj, if_pos (List.mem_cons_of_mem _ hkjs)]
        rfl
      · rw [if_neg hkjs, if_pos hkj, if_pos (by simp [hkj])]
      · rw [if_pos hkjs, if_neg hkj, if_pos (List.mem_cons_of_mem _ hkjs)]
      · rw [if_neg hkjs, if_neg hkj, if_neg (by simp [hkj, hkjs])]
    · rcases h.touched a ha with h | h | ⟨j', hj', h⟩
      · rcases (htouched a).mp h with h | h | h
        · exact .inr (.inr ⟨j, List.mem_cons_self, h⟩)
        · exact .inr (.inl h)
        · exact .inl h
      · exact .inr (.inl h)
      · exact .inr (.inr ⟨j', List.mem_cons_of_mem _ hj', h⟩)

/-! ### The whole file -/

/-- Cleared checkers, one for each line. -/
def confCheckers (lines : List ConfLine) : List AckChecker := lines.map fun l => ⟨l.link.id, .received, 0⟩

/-- What is known after the lines were loaded into the memory `m`. -/
structure Loaded (lines : List ConfLine) (m s : Loader) : Prop where
  numLinks : s.numLinks = lines.length
  numEntry : s.numEntry = lines.length
  links : ∀ k, s.links k = (lines[k]?.map ConfLine.link).getD (m.links k)
  entry : ∀ (k : ℕ) (l : ConfLine), lines[k]? = some l → s.table k =
    let e := (m.table k).configured k l.link.id
    let e := if k = 5 then e.marked (firstId lines) else e
    { e with checkersList := some ⟨.ofNat lines.length, confCheckers lines⟩ }
  rest : ∀ k, lines.length ≤ k → s.table k =
    if k = 5 then (m.table k).marked (firstId lines) else m.table k
  touched : ∀ a ∈ s.touched, a.Inside ∨ a = ⟨.tokens, 5⟩
  tokens : ⟨.tokens, 5⟩ ∈ s.touched

section Loaded

variable {lines : List ConfLine} {m s : Loader} (h : Loading lines lines.length m s)

include h

theorem Loading.links_eq (k : ℕ) : s.links k = (lines[k]?.map ConfLine.link).getD (m.links k) := by
  rw [h.links]
  split_ifs with hk
  · rfl
  · rw [List.getElem?_eq_none (not_lt.mp hk)]
    rfl

theorem Loading.fillCheckers_eq : fillCheckers s = confCheckers lines := by
  apply List.ext_getElem
  · simp [fillCheckers, confCheckers, h.numLinks]
  · intro i _ hi
    have hi : i < lines.length := by rwa [confCheckers, List.length_map] at hi
    simp [fillCheckers, confCheckers, h.links_eq, List.getElem?_eq_getElem hi]

/-- **What the second loop leaves**, after all lines. -/
theorem Loading.loaded (hpos : 1 ≤ lines.length) (hlen : lines.length ≤ maxNodes) :
    Loaded lines m ((allocLoop (List.range lines.length) s).readLink 0) := by
  have ha := allocLoop_allocated (List.range lines.length) s
  have htable : ∀ k, (allocLoop (List.range lines.length) s).table k =
      if k < lines.length then (s.table k).allocated s else s.table k := by
    intro k
    simp only [ha.table, List.mem_range]
  have hmark : ∀ k, k = 5 ∧ 0 < lines.length ↔ k = 5 := fun k => and_iff_left hpos
  refine ⟨ha.numLinks.trans h.numLinks, ha.numEntry.trans h.numEntry,
    fun k => (congrFun ha.links k).trans (h.links_eq k), fun k l hl => ?_, fun k hk => ?_, fun a hm => ?_,
    .tail _ (ha.kept _ (h.outside hpos))⟩
  · have hk : k < lines.length := (List.getElem?_eq_some_iff.mp hl).1
    have hlink : s.links k = l.link := by rw [h.links_eq, hl]; rfl
    simp only [Loader.table_readLink, htable, if_pos hk, h.table, hlink, hmark]
    rw [RoutingEntry.allocated, h.fillCheckers_eq, h.numLinks]
  · simp only [Loader.table_readLink, htable, if_neg (not_lt.mpr hk), h.table, hmark]
  · have hlinks : ∀ i < lines.length, (⟨.links, i⟩ : Access).Inside := fun i hi => hi.trans_le hlen
    rcases List.mem_cons.mp hm with rfl | hm
    · exact .inl (hlinks 0 hpos)
    · rcases ha.touched a hm with hm | ⟨i, hi, rfl⟩ | ⟨i, hi, rfl⟩
      · exact h.inside a hm
      · exact .inl (hlinks i (h.numLinks ▸ hi))
      · exact .inl ((List.mem_range.mp hi).trans_le hlen)

end Loaded

theorem Loaded.port {lines : List ConfLine} {m s : Loader} (h : Loaded lines m s) (hpos : 1 ≤ lines.length) :
    (s.links 0).serverP = firstPort lines := by
  rw [h.links, firstPort, List.head?_eq_getElem?]
  cases h0 : lines[0]? with
  | some l => rfl
  | none => exact absurd (List.getElem?_eq_none_iff.mp h0) (by omega)

/-- **A file is loaded.** -/
theorem exists_loadConf (lines : List ConfLine) (newline : Bool) (hostname : CString) (m : Loader)
    (hpos : 1 ≤ lines.length) (hlen : lines.length ≤ maxNodes) :
    ∃ s, Loaded lines m s ∧ loadConf (confFile lines newline) hostname m =
      .ok (s, cstr (ascii "http://" ++ hostname.1 ++ ascii ":" ++ decimal (firstPort lines).toInt)) := by
  obtain ⟨s, h, hs⟩ := Loading.run hlen (readLines_confFile lines newline) (j := 0) rfl
    (loading_zero lines m)
  rw [Nat.zero_add] at hs
  have hl := hs.loaded hpos hlen
  refine ⟨_, hl, ?_⟩
  rw [loadConf, h, ok_bind, hs.numEntry, ← hl.port hpos]

/-- Entry `j` is initialised from line `j`. -/
structure EntryLoaded (lines : List ConfLine) (j : ℕ) (l : ConfLine) (e : RoutingEntry) : Prop where
  id : e.id = l.link.id
  nexthop : e.nexthop = l.link.id
  cost : e.cost = if j = 0 then 0 else 1
  lsa : e.lsa = none
  lsaIsNew : e.lsaIsNew = false
  lsaSize : e.lsaSize = 0
  forwarderId : e.forwarderId = firstId lines
  checkersList : e.checkersList = some ⟨.ofNat lines.length, confCheckers lines⟩

/-- The tables hold the lines, and nothing else changed. -/
structure TablesLoaded (lines : List ConfLine) (m s : Loader) : Prop where
  numLinks : s.numLinks = lines.length
  numEntry : s.numEntry = lines.length
  links : ∀ (j : ℕ) (l : ConfLine), lines[j]? = some l → s.links j = l.link
  entries : ∀ (j : ℕ) (l : ConfLine), lines[j]? = some l → EntryLoaded lines j l (s.table j)
  rest : ∀ k, lines.length ≤ k → s.links k = m.links k ∧ s.table k = m.table k

/-- `load_node_conf` loads the file: it stays inside its arrays, and the tables hold the lines. -/
def ConfLoaded (lines : List ConfLine) (newline : Bool) (hostname : CString) (m : Loader) : Prop :=
  ∃ r, loadConf (confFile lines newline) hostname m = .ok r ∧ (∀ a ∈ r.1.touched, a.Inside) ∧
    TablesLoaded lines m r.1

/-- The memory of entry `k` already holds what is written at the token index. -/
def Preset (lines : List ConfLine) (m : Loader) (k : ℕ) : Prop :=
  (m.table k).marked (firstId lines) = m.table k

theorem marked_eq_iff {e : RoutingEntry} {id : Int32} :
    e.marked id = e ↔ e.lsaIsNew = false ∧ e.lsaSize = 0 ∧ e.forwarderId = id := by
  constructor
  · intro h
    rw [← h]
    exact ⟨rfl, rfl, rfl⟩
  · rintro ⟨h1, h2, h3⟩
    rw [RoutingEntry.marked, ← h1, ← h2, ← h3]

/-- **The entries are initialised exactly if the memory was**, where the token index is not the line's. -/
theorem Loaded.tablesLoaded_iff {lines : List ConfLine} {m s : Loader} (h : Loaded lines m s) :
    TablesLoaded lines m s ↔
      ∀ k, (k < lines.length ∧ k ≠ 5) ∨ (lines.length ≤ k ∧ k = 5) → Preset lines m k := by
  constructor
  · rintro ht k (⟨hk, h5⟩ | ⟨hk, h5⟩)
    · have hl : lines[k]? = some lines[k] := List.getElem?_eq_getElem hk
      have he := ht.entries k _ hl
      rw [h.entry k _ hl] at he
      simp only [if_neg h5] at he
      exact marked_eq_iff.mpr ⟨he.lsaIsNew, he.lsaSize, he.forwarderId⟩
    · have hrest := (ht.rest k hk).2
      rwa [h.rest k hk, if_pos h5] at hrest
  · intro hpre
    refine ⟨h.numLinks, h.numEntry, fun j l hl => ?_, fun j l hl => ?_, fun k hk => ⟨?_, ?_⟩⟩
    · rw [h.links, hl]
      rfl
    · have hj : j < lines.length := (List.getElem?_eq_some_iff.mp hl).1
      rw [h.entry j l hl]
      by_cases h5 : j = 5
      · simp only [if_pos h5]
        exact ⟨rfl, rfl, rfl, rfl, rfl, rfl, rfl, rfl⟩
      · simp only [if_neg h5]
        obtain ⟨h1, h2, h3⟩ := marked_eq_iff.mp (hpre j (.inl ⟨hj, h5⟩))
        exact ⟨rfl, rfl, rfl, rfl, h1, h2, h3, rfl⟩
    · rw [h.links, List.getElem?_eq_none hk]
      rfl
    · rw [h.rest k hk]
      split_ifs with h5
      · exact hpre k (.inr ⟨hk, h5⟩)
      · rfl

/-- **No file is loaded**: every line writes past the end of `tokens`, and the entries are initialised only
if the memory was. -/
theorem conf_not_loaded (lines : List ConfLine) (newline : Bool) (hostname : CString) (m : Loader)
    (hpos : 1 ≤ lines.length) (hlen : lines.length ≤ maxNodes) :
    ¬ConfLoaded lines newline hostname m ∧
      ∃ r, loadConf (confFile lines newline) hostname m = .ok r ∧
        (∀ a, a ∈ r.1.touched ∧ ¬a.Inside ↔ a = ⟨.tokens, 5⟩) ∧
        (TablesLoaded lines m r.1 ↔
          ∀ k, (k < lines.length ∧ k ≠ 5) ∨ (lines.length ≤ k ∧ k = 5) → Preset lines m k) := by
  obtain ⟨s, hs, hload⟩ := exists_loadConf lines newline hostname m hpos hlen
  have houtside : ¬(⟨.tokens, 5⟩ : Access).Inside := by decide
  refine ⟨?_, _, hload, fun a => ⟨fun ⟨ha, hn⟩ => (hs.touched a ha).resolve_left hn, ?_⟩,
    hs.tablesLoaded_iff⟩
  · rintro ⟨r, hr, hinside, -⟩
    obtain rfl := Except.ok.inj (hload.symm.trans hr)
    exact houtside (hinside _ hs.tokens)
  · rintro rfl
    exact ⟨hs.tokens, houtside⟩

/-- A field of one byte. -/
def ConfField.ofByte (b : UInt8) (h : b ≠ 32 ∧ b ≠ 0 ∧ b ≠ 10) : ConfField where
  spaces := 0
  text := [b]
  word := ⟨by simp, by simp [h.1.symm], by simp [h.2.1.symm]⟩
  newline := by simp [h.2.2.symm]

/-- The line `1 h 2 3 4`. -/
def shortLine : ConfLine where
  id := .ofByte 49 (by decide)
  host := .ofByte 104 (by decide)
  routeP := .ofByte 50 (by decide)
  localP := .ofByte 51 (by decide)
  serverP := .ofByte 52 (by decide)
  spaces := 0
  fits := by decide

/-- Zeroed memory. -/
def blankLoader : Loader where
  links _ := ⟨0, ⟨cstr [], by decide⟩, 0, 0, 0⟩
  table _ := ⟨0, 0, 0, 0, none, 0, false, 0, none⟩
  numLinks := 0
  numEntry := 0
  touched := []

theorem conf_not_loaded_shortLine : ¬ConfLoaded [shortLine] true (lit "h") blankLoader :=
  (conf_not_loaded [shortLine] true (lit "h") blankLoader (by decide) (by decide)).1

/-- One line: `tokens[5]` is written, and the daemon's own entry does not get its `forwarder_id`. -/
theorem exists_unloaded_file : ¬ConfLoaded [shortLine] true (lit "h") blankLoader ∧
    ∃ s uri, loadConf (ascii "1 h 2 3 4\n") (lit "h") blankLoader = .ok (s, uri) ∧
      ⟨.tokens, 5⟩ ∈ s.touched ∧ (s.links 0).id = 1 ∧ (s.table 0).forwarderId = 0 := by
  obtain ⟨s, hs, hload⟩ := exists_loadConf [shortLine] true (lit "h") blankLoader (by decide) (by decide)
  have hfile : confFile [shortLine] true = ascii "1 h 2 3 4\n" := by decide
  refine ⟨?_, s, _, hfile ▸ hload, hs.tokens, ?_, ?_⟩
  · rintro ⟨r, hr, hinside, -⟩
    obtain rfl := Except.ok.inj (hload.symm.trans hr)
    exact absurd (hinside _ hs.tokens) (by decide)
  · rw [hs.links]
    decide
  · rw [hs.entry 0 shortLine rfl]
    rfl

theorem Loaded.table_eq {lines : List ConfLine} {s : Loader} (h : Loaded lines blankLoader s)
    {dl : DirectLinks} (hdl : dl.links = lines.map ConfLine.link) {k : ℕ} {l : ConfLine}
    (hl : lines[k]? = some l) : s.table k = loadedEntry dl k l.link := by
  have hnum : dl.numLinks = lines.length := by rw [DirectLinks.numLinks, hdl, List.length_map]
  have hcheckers : clearedCheckers dl = confCheckers lines := by
    rw [clearedCheckers, confCheckers, hdl, List.map_map]
    rfl
  have hid : (dl.links.head?.map LinkEntry.id).getD 0 = firstId lines := by
    rw [hdl, List.head?_map, Option.map_map]
    rfl
  rw [h.entry k l hl, loadedEntry, hnum, hcheckers, hid]
  by_cases h5 : k = 5
  · simp only [if_pos h5]
    rfl
  · simp only [if_neg h5]
    rfl

/-- **From zeroed memory, a file gives the tables and the uri of its lines.** -/
theorem loadConf_loadNodeConf (lines : List ConfLine) (newline : Bool) (hostname : CString)
    (hpos : 1 ≤ lines.length) (hlen : lines.length ≤ maxNodes) :
    ∃ s uri dl rt, loadConf (confFile lines newline) hostname blankLoader = .ok (s, uri) ∧
      loadNodeConf (lines.map ConfLine.link) hostname = .ok (dl, rt, uri) ∧
      dl.links = (List.range s.numLinks).map s.links ∧ rt.table = (List.range s.numEntry).map s.table := by
  obtain ⟨s, hs, hload⟩ := exists_loadConf lines newline hostname blankLoader hpos hlen
  have hrows : (lines.map ConfLine.link).length ≤ maxNodes := by rwa [List.length_map]
  have hport : firstPort lines = ((lines.map ConfLine.link).head?.map LinkEntry.serverP).getD 0 := by
    rw [firstPort, List.head?_map, Option.map_map]
    rfl
  obtain ⟨dl, rt, hdl, hrt, hrows'⟩ : ∃ dl rt, dl.links = lines.map ConfLine.link ∧
      rt.table = (lines.map ConfLine.link).mapIdx (loadedEntry dl) ∧
      loadNodeConf (lines.map ConfLine.link) hostname = .ok (dl, rt,
        cstr (ascii "http://" ++ hostname.1 ++ ascii ":" ++ decimal (firstPort lines).toInt)) := by
    rw [loadNodeConf, dif_pos hrows, hport]
    exact ⟨_, _, rfl, rfl, rfl⟩
  refine ⟨s, _, dl, rt, hload, hrows', ?_, ?_⟩
  · rw [hdl, hs.numLinks]
    apply List.ext_getElem
    · simp
    · intro k hk _
      have hk : k < lines.length := by simpa using hk
      simp [hs.links, List.getElem?_eq_getElem hk]
  · rw [hrt, hs.numEntry]
    apply List.ext_getElem
    · simp
    · intro k hk _
      have hk : k < lines.length := by simpa using hk
      simp [hs.table_eq hdl (List.getElem?_eq_getElem hk)]

end RoutingDaemon
