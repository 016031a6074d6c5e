import Mathlib.Data.List.TakeWhile
import Mathlib.Tactic

/-!
# Decimal digits, as bytes

* `printNat`: a number in decimal digits; `isDigit_printNat`, `printNat_ne_nil`.
* `readNat`: the number whose digits stand at the head of some bytes; `readNat_printNat`: it reads
  back what was printed, up to the first byte that is no digit.
-/

namespace RoutingDaemon

/-- A number, in decimal. -/
def printNat (n : ℕ) : List UInt8 := (Nat.toDigits 10 n).map fun c => .ofNat c.toNat

/-- `isdigit` -/
def isDigit (b : UInt8) : Bool := 48 ≤ b.toNat && b.toNat ≤ 57

/-- The digits of a number, read one after the other. -/
def digitsValue (bs : List UInt8) : ℕ := bs.foldl (fun n b => 10 * n + (b.toNat - 48)) 0

/-- The number at the head of some bytes. -/
def readNat (bs : List UInt8) : ℕ := digitsValue (bs.takeWhile isDigit)

theorem toNat_digitByte {c : Char} (h : c.isDigit = true) :
    (UInt8.ofNat c.toNat).toNat = c.toNat ∧ 48 ≤ c.toNat ∧ c.toNat ≤ 57 := by
  simp only [Char.isDigit, Bool.and_eq_true, decide_eq_true_eq] at h
  have h1 : 48 ≤ c.toNat := h.1
  have h2 : c.toNat ≤ 57 := h.2
  exact ⟨UInt8.toNat_ofNat_of_lt' (by simp [UInt8.size]; omega), h1, h2⟩

theorem isDigit_printNat (n : ℕ) : ∀ b ∈ printNat n, isDigit b = true := by
  intro b hb
  obtain ⟨c, hc, rfl⟩ := List.mem_map.mp hb
  obtain ⟨he, h1, h2⟩ := toNat_digitByte (Nat.isDigit_of_mem_toDigits (by decide) (by decide) hc)
  simp [isDigit, he, h1, h2]

theorem ne_of_isDigit {b c : UInt8} (h : isDigit b = true) (hc : isDigit c = false) : b ≠ c := by
  rintro rfl
  rw [h] at hc
  cases hc

theorem printNat_ne_nil (n : ℕ) : printNat n ≠ [] := by
  simp [printNat, Nat.toDigits_ne_nil]

/-- **Digits that were printed have the printed value.** -/
theorem digitsValue_printNat (n : ℕ) : digitsValue (printNat n) = n := by
  have key : ∀ (cs : List Char) (i : ℕ), (∀ c ∈ cs, c.isDigit = true) →
      (cs.map fun c => UInt8.ofNat c.toNat).foldl (fun n b => 10 * n + (b.toNat - 48)) i =
        Nat.ofDigitChars 10 cs i := by
    intro cs
    induction cs with
    | nil => intros; rfl
    | cons c cs ih =>
      intro i h
      rw [List.map_cons, List.foldl_cons, Nat.ofDigitChars_cons,
        ih _ fun c hc => h c (List.mem_cons_of_mem _ hc), (toNat_digitByte (h c List.mem_cons_self)).1]
      rfl
  rw [digitsValue, printNat,
    key _ _ fun c hc => Nat.isDigit_of_mem_toDigits (by decide) (by decide) hc]
  exact Nat.ofDigitChars_ten_toDigits

/-- **Reading undoes printing**, if no digit follows. -/
theorem readNat_printNat (n : ℕ) (rest : List UInt8) (h : ∀ b ∈ rest.head?, isDigit b = false) :
    readNat (printNat n ++ rest) = n := by
  have hrest : rest.takeWhile isDigit = [] := by
    cases rest with
    | nil => rfl
    | cons b rest => rw [List.takeWhile_cons_of_neg (by rw [h b rfl]; simp)]
  rw [readNat, List.takeWhile_append_of_pos (isDigit_printNat n), hrest, List.append_nil,
    digitsValue_printNat]

end RoutingDaemon
