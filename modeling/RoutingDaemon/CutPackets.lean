import RoutingDaemon.Advertisement
import RoutingDaemon.TablesAsMaps

/-!
# The names in a packet that was cut

`rt_recvfrom` keeps the first bytes of a packet. What is read of them is what would be read of the
whole packet (`objectNames_append`).

* `Unspaced`: the names that can be read of a packet hold no space, also if its header word was
  changed or the packet was cut; `unspaced_createPacket`.
-/

namespace RoutingDaemon

/-! ### Reading the first bytes -/

section Cut

variable {lsa : LSA} {rest : List UInt8}

theorem bytes_append (lsa : LSA) (rest : List UInt8) :
    ({ lsa with linksObjects := lsa.linksObjects ++ rest } : LSA).bytes = lsa.bytes ++ rest := by
  simp [LSA.bytes]

theorem readInt_append {i v : ℤ} (h : readInt lsa i = .ok v) :
    readInt { lsa with linksObjects := lsa.linksObjects ++ rest } i = .ok v := by
  unfold readInt at h ⊢
  split_ifs at h ⊢ with hi
  rw [bytes_append, List.drop_append]
  cases hw : ofLe32 (lsa.bytes.drop (sizeofLsa + i).toNat) with
  | none => rw [hw] at h; cases h
  | some w =>
    rw [hw] at h
    rw [ofLe32_append hw]
    exact h

theorem cstr_append_of_mem {b : List UInt8} (h : 0 ∈ b) (rest : List UInt8) :
    cstr (b ++ rest) = cstr b := by
  refine Subtype.ext ?_
  change (b ++ rest).takeWhile _ = b.takeWhile _
  rw [List.takeWhile_append, if_neg]
  intro hl
  have hall := List.takeWhile_eq_self_iff.mp ((List.takeWhile_prefix _).eq_of_length hl) 0 h
  simp at hall

theorem readName_append {i len : ℤ} {s : CString} (h : readName lsa i len = .ok s) :
    readName { lsa with linksObjects := lsa.linksObjects ++ rest } i len = .ok s := by
  unfold readName at h ⊢
  rw [bytes_append, List.drop_append, List.take_append]
  split_ifs at h ⊢ with hlen
  generalize (lsa.bytes.drop (sizeofLsa + i).toNat) = b at h ⊢
  dsimp only at h ⊢
  split_ifs at h with hsrc
  rw [← h]
  by_cases h0 : 0 ∈ b.take len.toNat
  · rw [if_neg (fun hs => hs.2 (List.mem_append_left _ h0)), cstr_append_of_mem h0]
  · -- the name is as long as it says
    have hle : len.toNat ≤ b.length := by
      by_contra hlt
      refine hsrc ⟨?_, h0⟩
      rw [List.length_take]
      omega
    rw [Nat.sub_eq_zero_of_le hle, List.take_zero, List.append_nil, if_neg]
    rintro ⟨hs, -⟩
    exact hsrc ⟨hs, h0⟩

theorem storeLoop_append {σ : Type} {add : σ → CString → Int32 → ℤ → Except Fault σ} {n : ℕ} {i : ℤ}
    {ht ht' : σ} (h : storeLoop add lsa n i ht = .ok ht') :
    storeLoop add { lsa with linksObjects := lsa.linksObjects ++ rest } n i ht = .ok ht' := by
  induction n generalizing i ht with
  | zero => exact h
  | succ n ih =>
    obtain ⟨len, hlen, h⟩ := bind_eq_ok.mp h
    obtain ⟨name, hname, h⟩ := bind_eq_ok.mp h
    obtain ⟨ht₁, h1, h⟩ := bind_eq_ok.mp h
    exact bind_eq_ok.mpr ⟨len, readInt_append hlen, bind_eq_ok.mpr ⟨name, readName_append hname,
      bind_eq_ok.mpr ⟨ht₁, h1, ih h⟩⟩⟩

/-- **The names of a packet that was cut** are those of the packet. -/
theorem objectNames_append {names : List CString} (h : objectNames lsa = .ok names)
    (rest : List UInt8) :
    objectNames { lsa with linksObjects := lsa.linksObjects ++ rest } = .ok names :=
  storeLoop_append h

end Cut

/-! ### Names without spaces -/

/-- The packet may be completed so that, whatever its header word, its names hold no space. -/
def Unspaced (a : LSA) : Prop := ∃ rest, ∀ w names,
  objectNames { a with versionTtlType := w, linksObjects := a.linksObjects ++ rest } = .ok names →
    ∀ s ∈ names, 32 ∉ s.1

section Unspaced

variable {a : LSA}

theorem Unspaced.names (h : Unspaced a) {names : List CString} (hn : objectNames a = .ok names) :
    ∀ s ∈ names, 32 ∉ s.1 := by
  obtain ⟨rest, h⟩ := h
  exact h _ _ (objectNames_append hn rest)

theorem Unspaced.header (h : Unspaced a) (w : BitVec 32) : Unspaced { a with versionTtlType := w } :=
  h

theorem Unspaced.accepted (h : Unspaced a) : Unspaced (acceptedLsa a) := h.header _

theorem Unspaced.cut (h : Unspaced a) (n : ℕ) :
    Unspaced { a with linksObjects := a.linksObjects.take n } := by
  obtain ⟨rest, h⟩ := h
  refine ⟨a.linksObjects.drop n ++ rest, fun w names => ?_⟩
  dsimp only
  rw [← List.append_assoc, List.take_append_drop]
  exact h w names

/-- **The names of a packet that is created are those of the local objects.** -/
theorem unspaced_createPacket {fresh : Fresh} {nodeId sequenceNum : Int32} {dl : DirectLinks}
    {ol : LocalObjects} {size : ℕ}
    (h : createPacket fresh typeLsa nodeId sequenceNum dl ol = .ok (a, size))
    (h1 : 1 ≤ dl.numLinks) (ho : ∀ o ∈ ol.objects, 32 ∉ o.name.1.1) : Unspaced a := by
  obtain ⟨-, -, ⟨rest, hp⟩, -⟩ := createPacket_counts h
  refine ⟨[], fun w names hn s hs => ?_⟩
  rw [List.append_nil, hp, objectNames, storeNodeObjects_createPacket _ h h1,
    foldlM_collect fun o : ObjectEntry => o.name.1] at hn
  cases hn
  obtain ⟨o, hm, rfl⟩ := List.mem_map.mp hs
  exact ho o hm

end Unspaced

end RoutingDaemon
