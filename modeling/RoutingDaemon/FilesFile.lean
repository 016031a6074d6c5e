import RoutingDaemon.AckWait
import RoutingDaemon.LocalService
import RoutingDaemon.ObjectHistory
import RoutingDaemon.RequestParsing

/-!
# The files file

* `fgets`, `readLines`: the lines of a file; `readLines_flatMap`: those that were written.
* `lineTokens`: the fields of a line; `lineTokens_fileLine`: the path is read with its newline.
* `loadFile`: `load_node_file` on the bytes of a file; `loadLines_eq_ok`: it loads their fields.
* `Saved`: the files file holds the lines of the local objects; `saved_reachable`.
* `loadFile_saved`: what is loaded; `restored_iff`: the local objects are restored exactly if there
  are none.
-/

namespace RoutingDaemon

/-! ### Reading lines -/

/-- `MAX_LINE` -/
def maxLine : ℕ := 1024

/-- The line that `fgets` reads: up to a newline, and at most `MAX_LINE - 1` bytes. -/
def fgets (file : List UInt8) : List UInt8 :=
  let buf := file.take (maxLine - 1)
  buf.takeWhile (· != 10) ++ (buf.dropWhile (· != 10)).take 1

/-- The loop over the lines, for a file of at most the given length. -/
def readLines : ℕ → List UInt8 → List (List UInt8)
  | 0, _ => []
  | n + 1, file =>
    if file = [] then [] else fgets file :: readLines n (file.drop (fgets file).length)

/-- The first two tokens of a line. -/
def lineTokens (line : List UInt8) : Except Fault (CString × CString) := do
  let t0 ← strtokSpace (line ++ [0])
  let t1 ← strtokSpace t0.rest
  let name ← deref t0.token
  let path ← deref t1.token
  .ok (cstr name, cstr path)

/-- The body of the loop of `load_node_file`, for every line. -/
def loadLines (myNodeId : Int32) :
    List (List UInt8) → LocalObjects → LisoHash → Except Fault (LocalObjects × LisoHash)
  | [], ol, gol => .ok (ol, gol)
  | line :: lines, ol, gol => do
    let tokens ← lineTokens line
    let (ol, gol) ← loadNodeFile myNodeId [tokens] ol gol
    loadLines myNodeId lines ol gol

/-- `load_node_file` -/
def loadFile (myNodeId : Int32) (file : List UInt8) (ol : LocalObjects) (gol : LisoHash) :
    Except Fault (LocalObjects × LisoHash) :=
  loadLines myNodeId (readLines file.length file) ol gol

theorem fgets_append {body rest : List UInt8} (h : 10 ∉ body) (hlen : body.length < maxLine - 1) :
    fgets (body ++ 10 :: rest) = body ++ [10] := by
  have hp : ∀ b ∈ body, (b != 10) = true := fun b hb => by
    simpa using fun e : b = 10 => h (e ▸ hb)
  have htake : (body ++ 10 :: rest).take (maxLine - 1) =
      body ++ 10 :: rest.take (maxLine - 1 - body.length - 1) := by
    rw [List.take_append, List.take_of_length_le hlen.le]
    congr 1
    obtain ⟨k, hk⟩ : ∃ k, maxLine - 1 - body.length = k + 1 := ⟨_, (Nat.succ_pred (by omega)).symm⟩
    rw [hk, List.take_succ_cons]
    rfl
  simp only [fgets, htake]
  rw [List.takeWhile_append_of_pos hp, List.dropWhile_append_of_pos hp]
  simp

/-- **The lines that were written are read**, before more. -/
theorem readLines_append {bodies : List (List UInt8)} (h : ∀ b ∈ bodies, 10 ∉ b)
    (hlen : ∀ b ∈ bodies, b.length < maxLine - 1) (tail : List UInt8) (n : ℕ) (hn : bodies.length ≤ n) :
    readLines n (bodies.flatMap (fun b => b ++ [10]) ++ tail) =
      bodies.map (fun b => b ++ [10]) ++ readLines (n - bodies.length) tail := by
  induction bodies generalizing n with
  | nil => rfl
  | cons b bodies ih =>
    obtain ⟨n, rfl⟩ : ∃ k, n = k + 1 := ⟨n - 1, by simp at hn; omega⟩
    have hfile : (b :: bodies).flatMap (fun b => b ++ [10]) ++ tail =
        b ++ 10 :: (bodies.flatMap (fun b => b ++ [10]) ++ tail) := by simp
    have hb : fgets (b ++ 10 :: (bodies.flatMap (fun b => b ++ [10]) ++ tail)) = b ++ [10] :=
      fgets_append (h b List.mem_cons_self) (hlen b List.mem_cons_self)
    have hdrop : (b ++ 10 :: (bodies.flatMap (fun b => b ++ [10]) ++ tail)).drop (b ++ [10]).length =
        bodies.flatMap (fun b => b ++ [10]) ++ tail := by
      rw [show b ++ 10 :: (bodies.flatMap (fun b => b ++ [10]) ++ tail) =
        (b ++ [10]) ++ (bodies.flatMap (fun b => b ++ [10]) ++ tail) by simp, List.drop_left]
    rw [hfile, readLines, if_neg (by simp), hb, hdrop,
      ih (fun b hm => h b (List.mem_cons_of_mem _ hm)) (fun b hm => hlen b (List.mem_cons_of_mem _ hm))
        n (by simpa using hn), List.length_cons, Nat.add_sub_add_right]
    rfl

theorem readLines_flatMap {bodies : List (List UInt8)} (h : ∀ b ∈ bodies, 10 ∉ b)
    (hlen : ∀ b ∈ bodies, b.length < maxLine - 1) (n : ℕ) (hn : bodies.length ≤ n) :
    readLines n (bodies.flatMap fun b => b ++ [10]) = bodies.map fun b => b ++ [10] := by
  have hnil : readLines (n - bodies.length) [] = [] := by cases n - bodies.length <;> rfl
  have hread := readLines_append h hlen [] n hn
  rwa [List.append_nil, hnil, List.append_nil] at hread

theorem readLines_last {body : List UInt8} (hne : body ≠ []) (h : 10 ∉ body)
    (hlen : body.length < maxLine - 1) {n : ℕ} (hn : 1 ≤ n) : readLines n body = [body] := by
  obtain ⟨n, rfl⟩ : ∃ k, n = k + 1 := ⟨n - 1, by omega⟩
  have hp : ∀ b ∈ body, (b != 10) = true := fun b hb => by
    simpa using fun e : b = 10 => h (e ▸ hb)
  have hb : fgets body = body := by
    simp only [fgets, List.take_of_length_le hlen.le, List.takeWhile_eq_self_iff.mpr hp,
      List.dropWhile_eq_nil_iff.mpr hp, List.take_nil, List.append_nil]
  have hnil : readLines n [] = [] := by cases n <;> rfl
  rw [readLines, if_neg hne, hb, List.drop_length, hnil]

/-! ### Fields -/

/-- A string with a newline after it. -/
def newlined (s : CString) : CString :=
  ⟨s.1 ++ [10], fun h => (List.mem_append.mp h).elim s.2 (by simp)⟩

/-- The name and the path of an object. -/
def ObjectEntry.fields (o : ObjectEntry) : CString × CString := (o.name.1, o.path.1)

/-- The fields that are read from its line. -/
def ObjectEntry.lineFields (o : ObjectEntry) : CString × CString := (o.name.1, newlined o.path.1)

/-- A name or path without spaces and newlines. -/
structure Plaintext (s : CString) : Prop where
  ne_nil : s.1 ≠ []
  space : 32 ∉ s.1
  newline : 10 ∉ s.1

/-- An object whose line can be read. -/
structure Storable (o : ObjectEntry) : Prop where
  name : Plaintext o.name.1
  path : Plaintext o.path.1
  fits : (fileLine o).length < maxLine

instance (s : CString) : Decidable (Plaintext s) :=
  decidable_of_iff (s.1 ≠ [] ∧ 32 ∉ s.1 ∧ 10 ∉ s.1)
    ⟨fun h => ⟨h.1, h.2.1, h.2.2⟩, fun h => ⟨h.ne_nil, h.space, h.newline⟩⟩

instance (o : ObjectEntry) : Decidable (Storable o) :=
  decidable_of_iff (Plaintext o.name.1 ∧ Plaintext o.path.1 ∧ (fileLine o).length < maxLine)
    ⟨fun h => ⟨h.1, h.2.1, h.2.2⟩, fun h => ⟨h.name, h.path, h.fits⟩⟩

theorem fileLine_eq (o : ObjectEntry) :
    fileLine o = (o.name.1.1 ++ 32 :: o.path.1.1) ++ [10] := by
  simp [fileLine, ascii]

theorem Storable.strlen_newlined {o : ObjectEntry} (h : Storable o) :
    strlen (newlined o.path.1) < maxPathLen := by
  have := h.fits
  rw [fileLine_eq] at this
  simp only [List.length_append, List.length_cons, maxLine] at this
  simp only [strlen, newlined, List.length_append, List.length_cons, maxPathLen]
  omega

/-- **The path is read with the newline of its line.** -/
theorem lineTokens_fileLine {o : ObjectEntry} (h : Storable o) :
    lineTokens (fileLine o) = .ok o.lineFields := by
  have hname : IsWord 32 0 o.name.1.1 := ⟨h.name.ne_nil, h.name.space, o.name.1.2⟩
  have hpath : IsWord 32 0 (newlined o.path.1).1 := by
    refine ⟨by simp [newlined], fun hm => ?_, (newlined o.path.1).2⟩
    exact (List.mem_append.mp hm).elim h.path.space (by simp)
  have hline : fileLine o ++ [0] = o.name.1.1 ++ 32 :: ((newlined o.path.1).1 ++ 0 :: []) := by
    simp [fileLine_eq, newlined]
  simp only [lineTokens, hline, strtokSpace_word hname, strtokSpace_last hpath, ok_bind, deref_some,
    cstr_eq_self, ObjectEntry.lineFields]

theorem readLines_objects {os : List ObjectEntry} (h : ∀ o ∈ os, Storable o) :
    readLines (os.flatMap fileLine).length (os.flatMap fileLine) = os.map fileLine := by
  have hlines : os.flatMap fileLine =
      (os.map fun o => o.name.1.1 ++ 32 :: o.path.1.1).flatMap fun b => b ++ [10] := by
    rw [List.flatMap_map]
    exact List.flatMap_congr fun o _ => fileLine_eq o
  have hlen : os.length ≤ (os.flatMap fileLine).length := by
    have hpos : ∀ n ∈ os.map fun o => (fileLine o).length, 1 ≤ n := by
      intro n hn
      obtain ⟨o, -, rfl⟩ := List.mem_map.mp hn
      rw [fileLine_eq, List.length_append, List.length_singleton]
      exact Nat.le_add_left _ _
    rw [List.length_flatMap]
    have := List.length_le_sum_of_one_le _ hpos
    rwa [List.length_map] at this
  have hfits : ∀ b ∈ os.map (fun o => o.name.1.1 ++ 32 :: o.path.1.1),
      10 ∉ b ∧ b.length < maxLine - 1 := by
    intro b hb
    obtain ⟨o, ho, rfl⟩ := List.mem_map.mp hb
    have hlt := (h o ho).fits
    rw [fileLine_eq, List.length_append, List.length_singleton] at hlt
    refine ⟨fun hm => ?_, by omega⟩
    rcases List.mem_append.mp hm with hm | hm
    · exact (h o ho).name.newline hm
    · exact (h o ho).path.newline (List.mem_of_ne_of_mem (by decide) hm)
  rw [hlines] at hlen ⊢
  rw [readLines_flatMap (fun b hb => (hfits b hb).1) (fun b hb => (hfits b hb).2) _
    (by rwa [List.length_map]), List.map_map]
  exact List.map_congr_left fun o _ => (fileLine_eq o).symm

theorem loadNodeFile_cons (id : Int32) (p : CString × CString) (ps : List (CString × CString))
    (ol : LocalObjects) (gol : LisoHash) : loadNodeFile id (p :: ps) ol gol =
      (loadNodeFile id [p] ol gol >>= fun r => loadNodeFile id ps r.1 r.2) := by
  simp only [loadNodeFile, bind_assoc, ok_bind]

/-- **Loading a file is loading the fields of its lines.** -/
theorem loadLines_eq_ok {id : Int32} {lines : List (List UInt8)} {ol : LocalObjects} {gol : LisoHash}
    {p : LocalObjects × LisoHash} : loadLines id lines ol gol = .ok p ↔
      ∃ ps, lines.mapM lineTokens = .ok ps ∧ loadNodeFile id ps ol gol = .ok p := by
  induction lines generalizing ol gol with
  | nil => simp [loadLines, loadNodeFile]
  | cons line lines ih =>
    rw [List.mapM_cons]
    constructor
    · intro h
      obtain ⟨t, ht, h⟩ := bind_eq_ok.mp h
      obtain ⟨⟨ol₁, gol₁⟩, h1, h⟩ := bind_eq_ok.mp h
      obtain ⟨ps, hps, hload⟩ := ih.mp h
      refine ⟨t :: ps, bind_eq_ok.mpr ⟨t, ht, bind_eq_ok.mpr ⟨ps, hps, rfl⟩⟩, ?_⟩
      rw [loadNodeFile_cons]
      exact bind_eq_ok.mpr ⟨_, h1, hload⟩
    · rintro ⟨qs, hqs, hload⟩
      obtain ⟨t, ht, hqs⟩ := bind_eq_ok.mp hqs
      obtain ⟨ps, hps, hqs⟩ := bind_eq_ok.mp hqs
      cases hqs
      rw [loadNodeFile_cons] at hload
      obtain ⟨⟨ol₁, gol₁⟩, h1, hload⟩ := bind_eq_ok.mp hload
      exact bind_eq_ok.mpr ⟨t, ht, bind_eq_ok.mpr ⟨_, h1, ih.mpr ⟨ps, hps, hload⟩⟩⟩

theorem loadLines_eq {id : Int32} {os : List ObjectEntry} (h : ∀ o ∈ os, Storable o)
    (ol : LocalObjects) (gol : LisoHash) : loadLines id (os.map fileLine) ol gol =
      loadNodeFile id (os.map ObjectEntry.lineFields) ol gol := by
  induction os generalizing ol gol with
  | nil => rfl
  | cons o os ih =>
    have htokens := lineTokens_fileLine (h o List.mem_cons_self)
    rw [List.map_cons, List.map_cons, loadNodeFile_cons, loadLines, htokens, ok_bind]
    congr 1
    funext r
    exact ih (fun o ho => h o (List.mem_cons_of_mem _ ho)) r.1 r.2

/-! ### Loading -/

theorem exists_hashAdd_new {gol : LisoHash} {s : CString} (id : Int32)
    (hc : Consistent superFastHash gol) (hs : strlen s < maxObjLen)
    (hnew : view superFastHash gol s = none) (hroom : gol.numObjs < maxobjnum) :
    ∃ gol', hashAdd superFastHash gol s id 0 = .ok gol' ∧ Consistent superFastHash gol' ∧
      gol'.numObjs = gol.numObjs + 1 ∧ ∀ t, view superFastHash gol' t =
        if t = s then some (some ⟨id, 0⟩) else view superFastHash gol t := by
  cases hadd : hashAdd superFastHash gol s id 0 with
  | error f =>
    have hfull := (hashAdd_eq_error (s := ⟨s, hs⟩) hc hadd).2.2
    omega
  | ok gol' =>
    obtain ⟨hc', hv⟩ := hashAdd_spec hc hadd
    have hnum := hashAdd_numObjs hc hadd
    rw [hnew, Option.isSome_none, if_neg (by simp)] at hnum
    refine ⟨gol', rfl, hc', hnum, fun t => ?_⟩
    rw [hv, ObjMap.announce, hnew, Function.update_apply]
    rfl

theorem loadNodeFile_new {id : Int32} {ps : List (CString × CString)} {ol : LocalObjects}
    {gol : LisoHash} (hc : Consistent superFastHash gol) (hn : (ps.map Prod.fst).Nodup)
    (hnew : ∀ p ∈ ps, view superFastHash gol p.1 = none) (hname : ∀ p ∈ ps, strlen p.1 < maxObjLen)
    (hpath : ∀ p ∈ ps, strlen p.2 < maxPathLen) (hroom : gol.numObjs + ps.length ≤ maxobjnum)
    (hol : ol.objects.length + ps.length ≤ maxObjNum) :
    ∃ ol' gol', loadNodeFile id ps ol gol = .ok (ol', gol') ∧
      ol'.objects.map ObjectEntry.fields = ol.objects.map ObjectEntry.fields ++ ps ∧
      Consistent superFastHash gol' ∧
      ∀ s, view superFastHash gol' s =
        if s ∈ ps.map Prod.fst then some (some ⟨id, 0⟩) else view superFastHash gol s := by
  induction ps generalizing ol gol with
  | nil => exact ⟨ol, gol, rfl, by simp, hc, fun s => by simp⟩
  | cons p ps ih =>
    obtain ⟨s, q⟩ := p
    have hs : strlen s < maxObjLen := hname (s, q) List.mem_cons_self
    have hq : strlen q < maxPathLen := hpath (s, q) List.mem_cons_self
    have hlen : ol.objects.length < maxObjNum := by rw [List.length_cons] at hol; omega
    obtain ⟨ol₁, hpush⟩ : ∃ ol₁, ol.push ⟨⟨s, hs⟩, ⟨q, hq⟩⟩ = .ok ol₁ := ⟨_, dif_pos hlen⟩
    have hnum : gol.numObjs < maxobjnum := by rw [List.length_cons] at hroom; omega
    obtain ⟨gol₁, hadd, hc₁, hnum₁, hview⟩ :=
      exists_hashAdd_new id hc hs (hnew (s, q) List.mem_cons_self) hnum
    rw [List.map_cons, List.nodup_cons] at hn
    have hnew₁ : ∀ p ∈ ps, view superFastHash gol₁ p.1 = none := fun p hp => by
      have hne : p.1 ≠ s := fun e => hn.1 (List.mem_map.mpr ⟨p, hp, e⟩)
      rw [hview, if_neg hne]
      exact hnew p (List.mem_cons_of_mem _ hp)
    have hobjects := push_objects hpush
    obtain ⟨ol', gol', hload, hol', hc', hv'⟩ := ih hc₁ hn.2 hnew₁
      (fun p hp => hname p (List.mem_cons_of_mem _ hp))
      (fun p hp => hpath p (List.mem_cons_of_mem _ hp))
      (by rw [List.length_cons] at hroom; omega)
      (by rw [hobjects, List.length_append]; rw [List.length_cons] at hol; simpa using by omega)
    refine ⟨ol', gol', ?_, ?_, hc', fun t => ?_⟩
    · exact loadNodeFile_cons_eq_ok.mpr ⟨_, ol₁, gol₁, rfl, rfl, hpush, hadd, hload⟩
    · rw [hol', hobjects]
      simp [ObjectEntry.fields]
    · rw [hv', hview, List.map_cons]
      by_cases ht : t = s
      · simp [ht]
      · simp only [List.mem_cons, ht, false_or, if_false]

/-! ### What was saved -/

/-- The files file holds the lines of the local objects, whose names are distinct. -/
structure Saved (d : Daemon) : Prop where
  filefile : d.filefile = d.ol.objects.flatMap fileLine
  names : (d.ol.objects.map fun o => o.name.1).Nodup

theorem Saved.keep {d d' : Daemon} (h : Saved d) (hol : d'.ol = d.ol)
    (hfile : d'.filefile = d.filefile) : Saved d' :=
  ⟨by rw [hfile, hol]; exact h.filefile, by rw [hol]; exact h.names⟩

theorem saved_added {d d' : Daemon} {o : ObjectEntry} (hr : Registered d) (h : Saved d)
    (ha : Added d o d') : Saved d' := by
  have hfile : d'.filefile = d.filefile ++ fileLine o := by rw [ha.rest]
  refine ⟨?_, ?_⟩
  · rw [hfile, ha.ol, h.filefile]
    simp
  · have hview : view superFastHash d.gol o.name.1 = none := by
      rw [← containsObject_map hr.1, ha.new]
      rfl
    rw [ha.ol, List.map_append, List.nodup_append]
    refine ⟨h.names, List.nodup_singleton _, ?_⟩
    intro s hs t ht e
    obtain ⟨o', ho', rfl⟩ := List.mem_map.mp hs
    obtain rfl : t = o.name.1 := by simpa using ht
    have := (hr.2 o' ho').2
    rw [e] at this
    exact this hview

theorem saved_act {d d' : Daemon} {ev : Event} {out : List Effect} (hr : Registered d)
    (hs : Saved d) (h : act ev d = .ok (d', out)) : Saved d' := by
  cases ev with
  | timeout fresh =>
    refine (timeout_trail h).preserves (I := Saved) (fun d _ d' hs ht => ?_) hs
    cases ht <;> exact hs.keep rfl rfl
  | datagram r fresh =>
    obtain ⟨_, _, _, -, hh⟩ := receive_handled h
    cases hh <;> exact hs.keep rfl rfl
  | request c uri opened =>
    obtain ⟨-, rfl | ⟨o, ha⟩⟩ := request_added h
    · exact hs
    · exact saved_added hr hs ha

theorem boot_filefile {f : Files} {d : Daemon} (h : boot f = .ok d) : d.filefile = f.filefile := by
  obtain ⟨_, -, h⟩ := bind_eq_ok.mp h
  obtain ⟨_, -, h⟩ := bind_eq_ok.mp h
  cases h
  rfl

/-- **The files file holds the lines of the local objects**, if it was empty at the start. -/
theorem saved_reachable {f : Files} (hlines : f.lines = []) (hfile : f.filefile = []) {d : Daemon}
    (r : (daemonSystem f).Reachable d) : Saved d := by
  refine (r.invariant (I := fun d => Registered d ∧ Saved d) ?_ ?_).2
  · intro d hd
    have hload := (boot_eq_ok hd).2.2.2.2.2
    rw [hlines, loadNodeFile, Except.ok.injEq, Prod.mk.injEq] at hload
    refine ⟨registered_boot hd, ?_, ?_⟩
    · rw [boot_filefile hd, hfile, ← hload.1]
      rfl
    · rw [← hload.1]
      exact List.nodup_nil
  · rintro d ⟨ev, out⟩ d' ⟨hr, hs⟩ h
    exact ⟨registered_act hr h, saved_act hr hs h⟩

/-! ### Loading what was saved -/

theorem length_le_numObjs {gol : LisoHash} (hc : Consistent superFastHash gol) {names : List CString}
    (hn : names.Nodup) (hk : ∀ s ∈ names, view superFastHash gol s ≠ none) :
    names.length ≤ gol.numObjs := by
  have hsub : names ⊆ (List.range gol.numObjs).map fun i => (gol.objNames i).1 := by
    intro s hs
    have hpair : (pairOf superFastHash gol s).isSome := by
      have := hk s hs
      rw [view] at this
      cases hp : pairOf superFastHash gol s with
      | none => rw [hp] at this; exact absurd rfl this
      | some q => rfl
    obtain ⟨i, hi, he⟩ := (hc.names s).mpr hpair
    exact List.mem_map.mpr ⟨i, List.mem_range.mpr hi, he⟩
  simpa using (hn.subperm hsub).length_le

theorem loadFile_saved {f : Files} (hlines : f.lines = []) (hfile : f.filefile = []) {d : Daemon}
    (r : (daemonSystem f).Reachable d) (h : ∀ o ∈ d.ol.objects, Storable o) :
    ∃ ol gol, loadFile d.myNodeId d.filefile LocalObjects.empty initHash = .ok (ol, gol) ∧
      ol.objects.map ObjectEntry.fields = d.ol.objects.map ObjectEntry.lineFields ∧
      ∀ o ∈ d.ol.objects, getPaths superFastHash gol o.name.1 = some ⟨d.myNodeId, 0⟩ := by
  have hs := saved_reachable hlines hfile r
  have hr := registered_reachable r
  have hfst : (d.ol.objects.map ObjectEntry.lineFields).map Prod.fst =
      d.ol.objects.map fun o => o.name.1 := by rw [List.map_map]; rfl
  have hroom : d.ol.objects.length ≤ maxobjnum := by
    have hk : ∀ s ∈ d.ol.objects.map fun o => o.name.1, view superFastHash d.gol s ≠ none := by
      intro s hm
      obtain ⟨o, ho, rfl⟩ := List.mem_map.mp hm
      exact (hr.2 o ho).2
    have := (length_le_numObjs hr.1 hs.names hk).trans hr.1.room
    rwa [List.length_map] at this
  have hname : ∀ p ∈ d.ol.objects.map ObjectEntry.lineFields, strlen p.1 < maxObjLen := by
    intro p hp
    obtain ⟨o, -, rfl⟩ := List.mem_map.mp hp
    exact o.name.2
  have hpath : ∀ p ∈ d.ol.objects.map ObjectEntry.lineFields, strlen p.2 < maxPathLen := by
    intro p hp
    obtain ⟨o, ho, rfl⟩ := List.mem_map.mp hp
    exact (h o ho).strlen_newlined
  obtain ⟨ol, gol, hload, hol, hc, hv⟩ := @loadNodeFile_new d.myNodeId _ LocalObjects.empty _
    consistent_initHash (hfst ▸ hs.names) (fun _ _ => by rw [view_initHash]; rfl) hname hpath
    (by rw [List.length_map]; simpa [initHash] using hroom)
    (by rw [List.length_map]; simpa [LocalObjects.empty] using d.ol.bounded)
  refine ⟨ol, gol, ?_, hol, fun o ho => ?_⟩
  · rw [loadFile, hs.filefile, readLines_objects h, loadLines_eq h, hload]
  · rw [getPaths_eq hc, hv, hfst, if_pos (List.mem_map_of_mem ho)]
    rfl

/-- A restart restores the local objects, and serves them from this node. -/
def Restored (d : Daemon) : Prop :=
  ∃ ol gol, loadFile d.myNodeId d.filefile LocalObjects.empty initHash = .ok (ol, gol) ∧
    ol.objects.map ObjectEntry.fields = d.ol.objects.map ObjectEntry.fields ∧
    ∀ o ∈ d.ol.objects, getPaths superFastHash gol o.name.1 = some ⟨d.myNodeId, 0⟩

theorem newlined_ne (s : CString) : newlined s ≠ s := fun h => by
  have := congrArg strlen h
  simp [strlen, newlined] at this

/-- **The local objects are restored exactly if there are none**: every path gets a newline. -/
theorem restored_iff (f : Files) (hlines : f.lines = []) (hfile : f.filefile = []) :
    ∀ d, (daemonSystem f).Reachable d → (∀ o ∈ d.ol.objects, Storable o) →
      (Restored d ↔ d.ol.objects = []) ∧
      ∃ ol gol, loadFile d.myNodeId d.filefile LocalObjects.empty initHash = .ok (ol, gol) ∧
        ol.objects.map ObjectEntry.fields = d.ol.objects.map ObjectEntry.lineFields ∧
        ∀ o ∈ d.ol.objects, getPaths superFastHash gol o.name.1 = some ⟨d.myNodeId, 0⟩ := by
  intro d r h
  obtain ⟨ol, gol, hload, hol, hpaths⟩ := loadFile_saved hlines hfile r h
  refine ⟨⟨?_, fun hnil => ⟨ol, gol, hload, ?_, hpaths⟩⟩, ol, gol, hload, hol, hpaths⟩
  · rintro ⟨ol', gol', hload', hol', -⟩
    rw [hload, Except.ok.injEq, Prod.mk.injEq] at hload'
    rw [← hload'.1, hol] at hol'
    cases ho : d.ol.objects with
    | nil => rfl
    | cons o os =>
      rw [ho, List.map_cons, List.map_cons, List.cons.injEq] at hol'
      exact absurd (congrArg Prod.snd hol'.1) (newlined_ne o.path.1)
  · rw [hol, hnil]
    rfl

/-- `ADDFILE` of `n` at `/p`, and a restart. -/
def addAndReload : Except Fault (Daemon × Daemon × LocalObjects) := do
  let d ← boot forkFiles
  let (d', _) ← act (.request (parsed "ADDFILE" "/p") blankBuf true) d
  let (ol, _) ← loadFile d'.myNodeId d'.filefile LocalObjects.empty initHash
  return (d, d', ol)

theorem addAndReload_eq_ok {d d' : Daemon} {ol : LocalObjects}
    (h : addAndReload = .ok (d, d', ol)) : (daemonSystem forkFiles).Reachable d' ∧
      ∃ gol, loadFile d'.myNodeId d'.filefile LocalObjects.empty initHash = .ok (ol, gol) := by
  obtain ⟨d₀, h0, h⟩ := bind_eq_ok.mp h
  obtain ⟨⟨d₁, out⟩, h1, h⟩ := bind_eq_ok.mp h
  obtain ⟨⟨ol₁, gol⟩, h2, h⟩ := bind_eq_ok.mp h
  cases h
  have step : (daemonSystem forkFiles).step d (.request (parsed "ADDFILE" "/p") blankBuf true, out) d' :=
    h1
  have r₀ : (daemonSystem forkFiles).Reachable d := .init h0
  exact ⟨r₀.step step, gol, h2⟩

theorem exists_addAndReload : ∃ d d' ol, addAndReload = .ok (d, d', ol) ∧
    (∀ o ∈ d'.ol.objects, Storable o) ∧
      ol.objects.map ObjectEntry.fields ≠ d'.ol.objects.map ObjectEntry.fields := by
  have key : addAndReload.map (fun p => decide (∀ o ∈ p.2.1.ol.objects, Storable o) &&
      decide (p.2.2.objects.map ObjectEntry.fields ≠ p.2.1.ol.objects.map ObjectEntry.fields)) =
        .ok true := by decide +kernel
  obtain ⟨⟨d, d', ol⟩, h, hp⟩ := exists_of_map_eq_ok key
  rw [Bool.and_eq_true, decide_eq_true_iff, decide_eq_true_iff] at hp
  exact ⟨d, d', ol, h, hp.1, hp.2⟩

theorem restored_iff_addAndReload : ∃ d, (daemonSystem forkFiles).Reachable d ∧
    d.ol.objects ≠ [] ∧ ∃ ol gol,
      loadFile d.myNodeId d.filefile LocalObjects.empty initHash = .ok (ol, gol) ∧
        ol.objects.map ObjectEntry.fields = d.ol.objects.map ObjectEntry.lineFields := by
  obtain ⟨d, d', ol, h, hstore, hne⟩ := exists_addAndReload
  obtain ⟨r, gol, hload⟩ := addAndReload_eq_ok h
  obtain ⟨-, ol', gol', hload', hol, -⟩ := restored_iff forkFiles rfl rfl d' r hstore
  refine ⟨d', r, fun hnil => hne ?_, ol', gol', hload', hol⟩
  rw [hload, Except.ok.injEq, Prod.mk.injEq] at hload'
  rw [hload'.1, hol, hnil]
  rfl

/-- **A path comes back with a newline.** -/
theorem exists_not_restored : ∃ d, (daemonSystem forkFiles).Reachable d ∧
    (∀ o ∈ d.ol.objects, Storable o) ∧ ¬ Restored d := by
  obtain ⟨d, d', ol, h, hstore, hne⟩ := exists_addAndReload
  obtain ⟨r, gol, hload⟩ := addAndReload_eq_ok h
  refine ⟨d', r, hstore, fun ⟨ol', gol', hload', hol, _⟩ => hne ?_⟩
  rw [hload, Except.ok.injEq, Prod.mk.injEq] at hload'
  rw [hload'.1, hol]

end RoutingDaemon
