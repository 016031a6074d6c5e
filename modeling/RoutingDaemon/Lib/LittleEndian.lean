import Mathlib.Tactic

/-!
# 32-bit words in little-endian memory

* `le32`: the four bytes of a word; `ofLe32`: the word read from the head of a byte list.
* `ofLe32_le32`: reading undoes writing, whatever follows.
-/

namespace RoutingDaemon

/-- The four bytes of a word, least significant first. -/
def le32 (w : BitVec 32) : List UInt8 :=
  [.ofBitVec (w.extractLsb' 0 8), .ofBitVec (w.extractLsb' 8 8),
    .ofBitVec (w.extractLsb' 16 8), .ofBitVec (w.extractLsb' 24 8)]

/-- The word at the head of a byte list, if four bytes are there. -/
def ofLe32 : List UInt8 → Option (BitVec 32)
  | a :: b :: c :: d :: _ => some (d.toBitVec ++ c.toBitVec ++ b.toBitVec ++ a.toBitVec)
  | _ => none

@[simp] theorem length_le32 (w : BitVec 32) : (le32 w).length = 4 := rfl

@[simp] theorem ofLe32_le32 (w : BitVec 32) (bs : List UInt8) :
    ofLe32 (le32 w ++ bs) = some w := by
  simp only [le32, ofLe32, List.cons_append, Option.some.injEq]
  ext i hi
  simp
  grind

theorem ofLe32_append {bs : List UInt8} {w : BitVec 32} (h : ofLe32 bs = some w) (rest : List UInt8) :
    ofLe32 (bs ++ rest) = some w := by
  match bs with
  | a :: b :: c :: d :: bs => exact h

@[simp] theorem drop_le32 (w : BitVec 32) (bs : List UInt8) {n : ℕ} (h : 4 ≤ n) :
    (le32 w ++ bs).drop n = bs.drop (n - 4) := by
  simp [List.drop_append, h]

end RoutingDaemon
