import RoutingDaemon.LsaBlocks
import RoutingDaemon.Lib.Lockstep

/-!
# The ledger of the blocks

* `Sim`: a computation in memory goes as one on values, and misuses no memory in another way;
  `SimEffects`: the same, for `lsa_handler`.
* `RoutingTable.lsaAt`: the pointer of an entry; `read_modify`, `read_congr`: what a table reads as.
* `Ledger`: every allocated block is that of one entry, or nothing points to it any more.
* `Ledger.modify`, `Ledger.release`: what changes of entries keep; `alloc_eq`, `setHeader_eq`: a new block.
-/

namespace RoutingDaemon.Blocks

/-! ### Simulation -/

/-- The computation in memory fails as the one on values does, or both return, with related results. -/
def Sim {α β : Type} (R : α → β → Prop) (x : Except Crash α) (y : Except Fault β) : Prop :=
  Lockstep R x (lift y)

@[simp] theorem lift_ok {α : Type} (a : α) : lift (.ok a) = .ok a := rfl

theorem lift_eq_ok {α : Type} {x : Except Fault α} {a : α} : lift x = .ok a ↔ x = .ok a := by
  cases x <;> simp [lift, Except.mapError]

section Sim

variable {α β γ δ : Type} {R : α → β → Prop} {S : γ → δ → Prop} {x : Except Crash α} {y : Except Fault β}

theorem sim_ok {a : α} {b : β} (h : R a b) : Sim R (.ok a) (.ok b) := .ok h

theorem sim_error (f : Fault) : Sim R (.error (.fault f)) (.error f) := .error _

/-- If the computation on values returns, so does the one in memory. -/
theorem Sim.exists_ok (h : Sim R x y) {b : β} (hy : y = .ok b) : ∃ a, x = .ok a ∧ R a b := by
  subst hy
  cases h with
  | ok h => exact ⟨_, rfl, h⟩

theorem Sim.bind {f : α → Except Crash γ} {g : β → Except Fault δ} (h : Sim R x y)
    (hfg : ∀ a b, R a b → Sim S (f a) (g b)) : Sim S (x >>= f) (y >>= g) :=
  Lockstep.bind_mapError h hfg

theorem Sim.lift_bind (z : Except Fault α) {f : α → Except Crash γ} {g : α → Except Fault δ}
    (hfg : ∀ a, z = .ok a → Sim S (f a) (g a)) : Sim S (Blocks.lift z >>= f) (z >>= g) := by
  cases z with
  | ok a => exact hfg a rfl
  | error e => exact .error _

theorem Sim.ite {c d : Prop} [Decidable c] [Decidable d] (hcd : c ↔ d) {x' : Except Crash α}
    {y' : Except Fault β} (hpos : c → Sim R x y) (hneg : ¬ c → Sim R x' y') :
    Sim R (if c then x else x') (if d then y else y') := by
  by_cases hc : c
  · rw [if_pos hc, if_pos (hcd.mp hc)]
    exact hpos hc
  · rw [if_neg hc, if_neg fun hd => hc (hcd.mpr hd)]
    exact hneg hc

theorem Sim.mono {R' : α → β → Prop} (h : Sim R x y) (hR : ∀ a b, R a b → R' a b) : Sim R' x y :=
  Lockstep.mono h fun a b _ _ => hR a b

/-- The same, and with the same effects before a fault. -/
def SimEffects (R : α → β → Prop) (x : Except (Crash × List Effect) α) (y : Except (Fault × List Effect) β) :
    Prop := Lockstep R x (y.mapError fun p => (.fault p.1, p.2))

theorem Sim.bind_after {out : List Effect} {f : α → Except (Crash × List Effect) γ}
    {g : β → Except (Fault × List Effect) δ} (h : Sim R x y) (hfg : ∀ a b, R a b → SimEffects S (f a) (g b)) :
    SimEffects S (afterEffects out x >>= f) (afterEffects out y >>= g) := by
  refine Lockstep.bind_mapError ?_ hfg
  cases y <;> exact h.mapError fun e => (e, out)

theorem SimEffects.lift_bind {out : List Effect} (z : Except Fault α)
    {f : α → Except (Crash × List Effect) γ} {g : α → Except (Fault × List Effect) δ}
    (hfg : ∀ a, z = .ok a → SimEffects S (f a) (g a)) :
    SimEffects S (afterEffects out (Blocks.lift z) >>= f) (afterEffects out z >>= g) := by
  cases z with
  | ok a => exact hfg a rfl
  | error e => exact .error _

theorem SimEffects.fault {x : Except (Crash × List Effect) α} {y : Except (Fault × List Effect) β}
    (h : SimEffects R x y) : Sim R (x.mapError Prod.fst) (y.mapError Prod.fst) := by
  cases y <;> exact Lockstep.mapError h Prod.fst

end Sim

/-! ### Reading -/

section Read

variable {t t' : RoutingTable} {k : ℕ} {e : RoutingEntry}

/-- The pointer of the entry at index `j`. -/
def RoutingTable.lsaAt (t : RoutingTable) (j : ℕ) : Ptr := t.table[j]?.bind RoutingEntry.lsa

theorem lsaAt_of_entry (h : t.table[k]? = some e) : t.lsaAt k = e.lsa := by
  rw [RoutingTable.lsaAt, h, Option.bind_some]

@[simp] theorem read_getElem? (j : ℕ) :
    t.read.table[j]? = t.table[j]?.map (RoutingEntry.read t.lsas) := List.getElem?_map ..

@[simp] theorem read_checkersList (m : Memory LSA) : (e.read m).checkersList = e.checkersList := rfl

@[simp] theorem length_read : t.read.table.length = t.table.length := List.length_map _

theorem read_modify {f : RoutingEntry → RoutingEntry} {g : RoutingDaemon.RoutingEntry →
    RoutingDaemon.RoutingEntry} (h : ∀ e, (f e).read t.lsas = g (e.read t.lsas)) :
    (t.modify k f).read = t.read.modify k g := by
  have key : (t.table.modify k f).map (RoutingEntry.read t.lsas) =
      (t.table.map (RoutingEntry.read t.lsas)).modify k g := by
    refine List.ext_getElem? fun j => ?_
    rw [List.getElem?_map, List.getElem?_modify, List.getElem?_modify, List.getElem?_map, Option.map_eq_map,
      Option.map_eq_map, Option.map_map, Option.map_map]
    congr 1
    funext e
    simp only [Function.comp]
    split_ifs
    · exact h e
    · rfl
  simp only [RoutingTable.read, RoutingTable.modify, RoutingDaemon.RoutingTable.modify, key]

theorem getRoutingEntry_read (id : Int32) :
    RoutingDaemon.getRoutingEntry t.read id = getRoutingEntry t id := List.findIdx?_map

theorem getChecker_read (k i : ℕ) : RoutingDaemon.getChecker t.read k i = getChecker t k i := by
  rw [RoutingDaemon.getChecker, getChecker, read_getElem?]
  cases t.table[k]? <;> rfl

theorem modifyChecker_read (k i : ℕ) (f : AckChecker → AckChecker) :
    (modifyChecker t k i f).read = RoutingDaemon.modifyChecker t.read k i f := read_modify fun _ => rfl

theorem linkStatus_read (id : Int32) : RoutingDaemon.linkStatus t.read id = linkStatus t id := by
  rw [RoutingDaemon.linkStatus, linkStatus, getRoutingEntry_read]
  cases getRoutingEntry t id with
  | none => rfl
  | some k =>
    rw [deref_some, ok_bind, ok_bind, read_getElem?]
    cases t.table[k]? <;> rfl

theorem lt_of_getRoutingEntry {id : Int32} (h : getRoutingEntry t id = some k) : k < t.table.length :=
  (List.findIdx?_eq_some_iff_getElem.mp h).1

end Read

/-! ### The ledger -/

/-- Every block is that of one entry, or one of `L`, which nothing points to. -/
structure Ledger (t : RoutingTable) (L : Finset ℕ) : Prop where
  leaked : L ⊆ t.lsas.live
  live : ∀ j a, t.lsaAt j = some a → a ∈ t.lsas.live
  held : ∀ j a, t.lsaAt j = some a → a ∉ L
  own : ∀ i j a, t.lsaAt i = some a → t.lsaAt j = some a → i = j
  accounted : ∀ a ∈ t.lsas.live, a ∈ L ∨ ∃ j, t.lsaAt j = some a

section Ledger

variable {t t' : RoutingTable} {L L' : Finset ℕ} {k : ℕ} {e : RoutingEntry} {a : ℕ} {packet : LSA}
  {f : RoutingEntry → RoutingEntry}

theorem load_eq_ok {p : Ptr} : t.load p = .ok packet ↔
    ∃ a ∈ t.lsas.live, p = some a ∧ t.lsas.cell a = packet := by
  cases p with
  | none => simp [RoutingTable.load, access, Memory.load, Except.mapError]
  | some a =>
    by_cases ha : a ∈ t.lsas.live <;> simp [RoutingTable.load, access, Memory.load, Except.mapError, ha]

theorem load_dangling (h : a ∉ t.lsas.live) : t.load (some a) = .error (.fault .useAfterFree) := by
  simp [RoutingTable.load, access, Memory.load, Except.mapError, h, Crash.ofMem]

theorem Ledger.congr (h : Ledger t L) (hat : ∀ j, t'.lsaAt j = t.lsaAt j)
    (hlive : t'.lsas.live = t.lsas.live) : Ledger t' L where
  leaked := hlive ▸ h.leaked
  live j a hj := by rw [hlive]; exact h.live j a (hat j ▸ hj)
  held j a hj := h.held j a (hat j ▸ hj)
  own i j a hi hj := h.own i j a (hat i ▸ hi) (hat j ▸ hj)
  accounted a ha := by
    simp only [hat]
    exact h.accounted a (hlive ▸ ha)

theorem lsaAt_modify (j : ℕ) : (t.modify k f).lsaAt j =
    (t.table[j]?.map fun e => if k = j then f e else e).bind RoutingEntry.lsa := by
  rw [RoutingTable.lsaAt, RoutingTable.modify, List.getElem?_modify, Option.map_eq_map]

theorem lsaAt_modify_of (hf : ∀ e, (f e).lsa = e.lsa) (j : ℕ) : (t.modify k f).lsaAt j = t.lsaAt j := by
  rw [lsaAt_modify, RoutingTable.lsaAt]
  cases t.table[j]? with
  | none => rfl
  | some e =>
    rw [Option.map_some, Option.bind_some, Option.bind_some]
    split_ifs
    · exact hf e
    · rfl

theorem Ledger.modify (h : Ledger t L) (hf : ∀ e, (f e).lsa = e.lsa) : Ledger (t.modify k f) L :=
  h.congr (lsaAt_modify_of hf) rfl

theorem lsaAt_of_table (hk : t.table[k]? = some e) (htable : t'.table = (t.modify k f).table) (j : ℕ) :
    t'.lsaAt j = if j = k then (f e).lsa else t.lsaAt j := by
  rw [RoutingTable.lsaAt, htable, ← RoutingTable.lsaAt, lsaAt_modify]
  by_cases hj : j = k
  · subst hj
    simp [hk]
  · simp [hj, Ne.symm hj, RoutingTable.lsaAt]

theorem release_eq (h : Ledger t L) (hk : t.table[k]? = some e) (f : RoutingEntry → RoutingEntry) :
    ∃ t', t.release k f = .ok t' ∧ t'.table = (t.modify k f).table ∧ t'.lsas.cell = t.lsas.cell ∧
      ∀ b, b ∈ t'.lsas.live ↔ b ∈ t.lsas.live ∧ e.lsa ≠ some b := by
  rw [RoutingTable.release, hk]
  cases hp : e.lsa with
  | none =>
    refine ⟨{ t.modify k f with lsas := t.lsas }, ?_, rfl, rfl, by simp⟩
    simp [lift, access, hp, Memory.free, Except.mapError]
  | some a =>
    have hlive := h.live k a (by rw [lsaAt_of_entry hk, hp])
    refine ⟨{ t.modify k f with lsas := { t.lsas with live := t.lsas.live.erase a } }, ?_, rfl, rfl,
      fun b => ?_⟩
    · simp [lift, access, hp, Memory.free, Except.mapError, hlive]
    · rw [Finset.mem_erase, ne_eq, ne_eq, Option.some.injEq, and_comm, eq_comm]

/-- **The ledger after a block is freed.** The entry may then point to a block that was leaked. -/
theorem Ledger.release (h : Ledger t L) (hk : t.table[k]? = some e) (htable : t'.table = (t.modify k f).table)
    (hlive : ∀ b, b ∈ t'.lsas.live ↔ b ∈ t.lsas.live ∧ e.lsa ≠ some b)
    (hnew : ∀ a, (f e).lsa = some a → a ∈ L) (hL : ∀ b, b ∈ L' ↔ b ∈ L ∧ (f e).lsa ≠ some b) :
    Ledger t' L' := by
  have hself : t.lsaAt k = e.lsa := lsaAt_of_entry hk
  have hat := lsaAt_of_table hk htable
  refine ⟨fun b hb => ?_, fun j a hj => ?_, fun j a hj => ?_, fun i j a hi hj => ?_, fun a ha => ?_⟩
  · rw [hlive]
    have hb := ((hL b).mp hb).1
    exact ⟨h.leaked hb, fun he => h.held k b (hself.trans he) hb⟩
  · rw [hat] at hj
    rw [hlive]
    split_ifs at hj with hjk
    · exact ⟨h.leaked (hnew a hj), fun he => h.held k a (hself.trans he) (hnew a hj)⟩
    · exact ⟨h.live j a hj, fun he => hjk (h.own j k a hj (hself.trans he))⟩
  · rw [hat] at hj
    rw [hL]
    rintro ⟨ha, hne⟩
    split_ifs at hj with hjk
    · exact hne hj
    · exact h.held j a hj ha
  · rw [hat] at hi hj
    split_ifs at hi hj with hik hjk hjk
    · exact hik.trans hjk.symm
    · exact absurd (hnew a hi) (h.held j a hj)
    · exact absurd (hnew a hj) (h.held i a hi)
    · exact h.own i j a hi hj
  · obtain ⟨ha, hne⟩ := (hlive a).mp ha
    simp only [hat]
    rcases h.accounted a ha with hL' | ⟨j, hj⟩
    · by_cases hself' : (f e).lsa = some a
      · exact .inr ⟨k, by rw [if_pos rfl, hself']⟩
      · exact .inl ((hL a).mpr ⟨hL', hself'⟩)
    · have hjk : j ≠ k := by
        rintro rfl
        exact hne (hself.symm.trans hj)
      exact .inr ⟨j, by rw [if_neg hjk, hj]⟩

/-- A table whose entries point to blocks with the same contents reads the same. -/
theorem read_congr (htable : t'.table = t.table)
    (hcell : ∀ j b, t.lsaAt j = some b → t'.lsas.cell b = t.lsas.cell b) : t'.read = t.read := by
  have key : t'.table.map (RoutingEntry.read t'.lsas) = t.table.map (RoutingEntry.read t.lsas) := by
    rw [htable]
    refine List.map_congr_left fun e he => ?_
    obtain ⟨j, hj⟩ := List.mem_iff_getElem?.mp he
    have hmap : e.lsa.map t'.lsas.cell = e.lsa.map t.lsas.cell := by
      cases hp : e.lsa with
      | none => rfl
      | some b => rw [Option.map_some, Option.map_some, hcell j b (by rw [lsaAt_of_entry hj, hp])]
    rw [RoutingEntry.read, RoutingEntry.read, hmap]
  simp only [RoutingTable.read, key]

/-- A block holds the packet, and nothing points to it. The table reads as that one. -/
structure Loose (L : Finset ℕ) (a : ℕ) (packet : LSA) (t : RoutingTable) (rt : RoutingDaemon.RoutingTable) :
    Prop where
  read : t.read = rt
  new : a ∉ L
  ledger : Ledger t (insert a L)
  load : t.load (some a) = .ok packet

theorem alloc_eq (A : Allocator) (h : Ledger t L) (packet : LSA) :
    ∃ a t', t.alloc A packet = .ok (some a, t') ∧ Loose L a packet t' t.read := by
  have hfresh := A.fresh t.lsas.mallocs t.lsas.live
  generalize hn : A.pick t.lsas.mallocs t.lsas.live = a at hfresh
  have hat : ∀ j b, t.lsaAt j = some b → b ≠ a := by
    rintro j b hj rfl
    exact hfresh (h.live j b hj)
  refine ⟨a, { t with lsas := ⟨Function.update t.lsas.cell a packet, insert a t.lsas.live,
    t.lsas.mallocs + 1⟩ }, ?_, ?_, fun ha => hfresh (h.leaked ha), ?_, ?_⟩
  · simp [RoutingTable.alloc, Memory.malloc, Memory.store, access, Except.mapError, hn]
  · exact read_congr rfl fun j b hj => Function.update_of_ne (hat j b hj) _ _
  · refine ⟨Finset.insert_subset_insert _ h.leaked, fun j b hj => ?_, fun j b hj => ?_, h.own, fun b hb => ?_⟩
    · exact Finset.mem_insert_of_mem (h.live j b hj)
    · rw [Finset.mem_insert, not_or]
      exact ⟨hat j b hj, h.held j b hj⟩
    · rcases Finset.mem_insert.mp hb with rfl | hb
      · exact .inl (Finset.mem_insert_self _ _)
      · exact (h.accounted b hb).imp_left Finset.mem_insert_of_mem
  · exact load_eq_ok.mpr ⟨a, Finset.mem_insert_self _ _, rfl, Function.update_self ..⟩

theorem setHeader_eq {rt : RoutingDaemon.RoutingTable} (h : Loose L a packet t rt)
    (f : BitVec 32 → BitVec 32) : ∃ t', t.setHeader (some a) f = .ok t' ∧
      Loose L a { packet with versionTtlType := f packet.versionTtlType } t' rt := by
  obtain ⟨b, hb, hab, hcell⟩ := load_eq_ok.mp h.load
  cases hab
  subst hcell
  let changed : LSA := { t.lsas.cell a with versionTtlType := f (t.lsas.cell a).versionTtlType }
  refine ⟨{ t with lsas := { t.lsas with cell := Function.update t.lsas.cell a changed } }, ?_, ?_, h.new,
    h.ledger.congr (fun _ => rfl) rfl, ?_⟩
  · rw [RoutingTable.setHeader, Memory.store_live hb]
    rfl
  · rw [← h.read]
    refine read_congr rfl fun j b hj => Function.update_of_ne ?_ _ _
    rintro rfl
    exact h.ledger.held j b hj (Finset.mem_insert_self b L)
  · exact load_eq_ok.mpr ⟨a, hb, rfl, Function.update_self ..⟩

end Ledger

end RoutingDaemon.Blocks
