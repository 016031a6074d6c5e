import Mathlib.Data.Finset.Card
import Mathlib.Data.List.Nodup
import Mathlib.Tactic

/-!
# Allocated memory and chains of cells

Cells of one type, some of them allocated. A pointer is an address or NULL; an access through NULL or to
a cell that is not allocated fails.

* `Memory`, `Allocator`: `malloc` takes any address that is not in use, also one that was freed.
* `Memory.load`, `Memory.store`, `Memory.malloc`, `Memory.free`.
* `Seg`: the cells from one pointer to another, with `Seg.append`, `Seg.split`, `Seg.frame`, `Seg.nodup`,
  `Seg.bypass`.
* `seek`, `seekPrev`: walks along a chain, with `Seg.seek_eq`, `Seg.seekPrev_eq`.
-/

namespace RoutingDaemon

/-- A pointer. -/
abbrev Ptr := Option ℕ

/-- How memory is misused. -/
inductive MemFault
  /-- NULL is dereferenced -/
  | null
  /-- a cell that is not allocated is read or written -/
  | dangling
  /-- a cell that is not allocated is freed -/
  | badFree
  /-- a write past the end of an array -/
  | bounds
  /-- a loop along a chain never ends -/
  | endless
  deriving DecidableEq, Repr

/-- The cells of one type: their contents, which are allocated, and how often that was done. -/
structure Memory (α : Type) where
  cell : ℕ → α
  live : Finset ℕ
  mallocs : ℕ

/-- An allocator: the address of the `n`-th allocation, which is not in use. -/
structure Allocator where
  pick : ℕ → Finset ℕ → ℕ
  fresh : ∀ n s, pick n s ∉ s

namespace Memory

variable {α : Type} (m : Memory α)

/-- `*p` -/
def load : Ptr → Except MemFault α
  | none => .error .null
  | some a => if a ∈ m.live then .ok (m.cell a) else .error .dangling

/-- `*p = f(*p)` -/
def store (f : α → α) : Ptr → Except MemFault (Memory α)
  | none => .error .null
  | some a =>
    if a ∈ m.live then .ok { m with cell := Function.update m.cell a (f (m.cell a)) }
    else .error .dangling

/-- `malloc`, with its return value. The cell keeps what it holds. -/
def malloc (A : Allocator) : Ptr × Memory α :=
  (some (A.pick m.mallocs m.live),
    { m with live := insert (A.pick m.mallocs m.live) m.live, mallocs := m.mallocs + 1 })

/-- `free` -/
def free : Ptr → Except MemFault (Memory α)
  | none => .ok m
  | some a => if a ∈ m.live then .ok { m with live := m.live.erase a } else .error .badFree

variable {m} {a : ℕ}

theorem load_live (h : a ∈ m.live) : m.load (some a) = .ok (m.cell a) := if_pos h

theorem store_live (h : a ∈ m.live) (f : α → α) :
    m.store f (some a) = .ok { m with cell := Function.update m.cell a (f (m.cell a)) } := if_pos h

theorem free_live (h : a ∈ m.live) : m.free (some a) = .ok { m with live := m.live.erase a } := if_pos h

end Memory

/-! ### Chains -/

section Chains

variable {α : Type} {next : α → Ptr} {m m' : Memory α} {p q : Ptr} {a b : ℕ} {as bs : List ℕ}

/-- The cells at `as`, linked by `next`, lead from `p` to `q`. -/
inductive Seg (next : α → Ptr) (m : Memory α) : Ptr → List ℕ → Ptr → Prop
  | nil {p : Ptr} : Seg next m p [] p
  | cons {a : ℕ} {as : List ℕ} {q : Ptr} (live : a ∈ m.live) (rest : Seg next m (next (m.cell a)) as q) :
      Seg next m (some a) (a :: as) q

theorem seg_nil : Seg next m p [] q ↔ p = q := by
  constructor
  · rintro ⟨⟩
    rfl
  · rintro rfl
    exact .nil

theorem seg_cons : Seg next m p (a :: as) q ↔
    p = some a ∧ a ∈ m.live ∧ Seg next m (next (m.cell a)) as q := by
  constructor
  · rintro ⟨⟩
    exact ⟨rfl, ‹_›, ‹_›⟩
  · rintro ⟨rfl, live, rest⟩
    exact .cons live rest

theorem Seg.eq_nil (h : Seg next m none as q) : as = [] := by
  cases h
  rfl

theorem Seg.append {r : Ptr} (h : Seg next m p as q) (h' : Seg next m q bs r) :
    Seg next m p (as ++ bs) r := by
  induction h with
  | nil => exact h'
  | cons live _ ih => exact .cons live (ih h')

theorem Seg.split {r : Ptr} (h : Seg next m p (as ++ bs) r) :
    ∃ q, Seg next m p as q ∧ Seg next m q bs r := by
  induction as generalizing p with
  | nil => exact ⟨p, .nil, h⟩
  | cons a as ih =>
    obtain ⟨rfl, live, rest⟩ := seg_cons.mp h
    obtain ⟨q, h1, h2⟩ := ih rest
    exact ⟨q, .cons live h1, h2⟩

theorem Seg.live (h : Seg next m p as q) : ∀ a ∈ as, a ∈ m.live := by
  induction h with
  | nil => simp
  | cons live _ ih => exact List.forall_mem_cons.mpr ⟨live, ih⟩

theorem Seg.frame (h : Seg next m p as q) (hlive : ∀ a ∈ as, a ∈ m'.live)
    (hcell : ∀ a ∈ as, next (m'.cell a) = next (m.cell a)) : Seg next m' p as q := by
  induction h with
  | nil => exact .nil
  | @cons a as q live rest ih =>
    rw [List.forall_mem_cons] at hlive hcell
    refine .cons hlive.1 ?_
    rw [hcell.1]
    exact ih hlive.2 hcell.2

theorem Seg.unique (h : Seg next m p as none) (h' : Seg next m p bs none) : as = bs := by
  induction as generalizing p bs with
  | nil =>
    rw [seg_nil] at h
    subst h
    cases h'
    rfl
  | cons a as ih =>
    obtain ⟨rfl, -, rest⟩ := seg_cons.mp h
    cases h' with
    | cons _ rest' => rw [ih rest rest']

/-- **A chain to NULL visits no cell twice.** -/
theorem Seg.nodup (h : Seg next m p as none) : as.Nodup := by
  induction as generalizing p with
  | nil => exact List.nodup_nil
  | cons a as ih =>
    obtain ⟨rfl, -, rest⟩ := seg_cons.mp h
    refine List.nodup_cons.mpr ⟨fun ha => ?_, ih rest⟩
    -- the chain from the second visit on is the whole chain
    obtain ⟨xs, ys, rfl⟩ := List.append_of_mem ha
    obtain ⟨q, -, hq⟩ := rest.split
    obtain ⟨rfl, -, -⟩ := seg_cons.mp hq
    have := congrArg List.length (h.unique hq)
    simp only [List.length_cons, List.length_append] at this
    omega

theorem Seg.length_le (h : Seg next m p as none) : as.length ≤ m.live.card := by
  rw [← List.toFinset_card_of_nodup h.nodup]
  refine Finset.card_le_card fun a ha => ?_
  exact h.live a (List.mem_toFinset.mp ha)

/-- A cell is taken out of a chain by a write to the one before it. -/
theorem Seg.bypass (h : Seg next m p (as ++ b :: a :: bs) none)
    (hlive : ∀ c ∈ as ++ b :: bs, c ∈ m'.live) (hb : next (m'.cell b) = next (m.cell a))
    (hcell : ∀ c ∈ as ++ bs, next (m'.cell c) = next (m.cell c)) :
    Seg next m' p (as ++ b :: bs) none := by
  simp only [List.forall_mem_append, List.forall_mem_cons] at hlive hcell
  obtain ⟨q, h1, h2⟩ := h.split
  obtain ⟨rfl, -, h2⟩ := seg_cons.mp h2
  obtain ⟨-, -, h2⟩ := seg_cons.mp h2
  refine (h1.frame hlive.1 hcell.1).append (.cons hlive.2.1 ?_)
  rw [hb]
  exact h2.frame hlive.2.2 hcell.2

end Chains

/-! ### Walks -/

section Walks

variable {α : Type} (next : α → Ptr) (p : α → Bool) (m : Memory α)

/-- `while (curr != NULL) { if (p) break; curr = curr->next; }`, for at most that many rounds. -/
def seek : ℕ → Ptr → Except MemFault Ptr
  | _, none => .ok none
  | 0, some _ => .error .endless
  | n + 1, some a => do
    let c ← m.load (some a)
    if p c then .ok (some a) else seek n (next c)

/-- The same walk with a second pointer one cell behind. -/
def seekPrev : ℕ → Ptr → Ptr → Except MemFault (Ptr × Ptr)
  | _, prev, none => .ok (prev, none)
  | 0, _, some _ => .error .endless
  | n + 1, prev, some a => do
    let c ← m.load (some a)
    if p c then .ok (prev, some a) else seekPrev n (some a) (next c)

/-- More rounds than there are allocated cells: a walk that is not done by then goes round in a circle. -/
def rounds : ℕ := m.live.card + 1

variable {next p m} {as : List ℕ} {q : Ptr} {n : ℕ}

theorem Seg.seek_eq (h : Seg next m q as none) (hn : as.length ≤ n) :
    seek next p m n q = .ok (as.find? fun a => p (m.cell a)) := by
  induction as generalizing q n with
  | nil =>
    rw [seg_nil.mp h, seek, List.find?_nil]
  | cons a as ih =>
    obtain ⟨rfl, live, rest⟩ := seg_cons.mp h
    obtain ⟨n, rfl⟩ := Nat.exists_eq_succ_of_ne_zero (Nat.ne_zero_of_lt hn)
    rw [seek, Memory.load_live live, List.find?_cons]
    change (if p (m.cell a) then _ else _) = _
    cases hp : p (m.cell a) with
    | true => rfl
    | false => exact ih rest (Nat.le_of_succ_le_succ hn)

theorem Seg.seekPrev_eq {prev : Ptr} (h : Seg next m q as none) (hn : as.length ≤ n) :
    seekPrev next p m n prev q =
      .ok ((as.takeWhile fun a => !p (m.cell a)).getLast?.or prev, as.find? fun a => p (m.cell a)) := by
  induction as generalizing q n prev with
  | nil =>
    rw [seg_nil.mp h, seekPrev]
    rfl
  | cons a as ih =>
    obtain ⟨rfl, live, rest⟩ := seg_cons.mp h
    obtain ⟨n, rfl⟩ := Nat.exists_eq_succ_of_ne_zero (Nat.ne_zero_of_lt hn)
    rw [seekPrev, Memory.load_live live, List.find?_cons, List.takeWhile_cons]
    change (if p (m.cell a) then _ else _) = _
    cases hp : p (m.cell a) with
    | true => rfl
    | false =>
      refine (ih rest (Nat.le_of_succ_le_succ hn)).trans ?_
      rw [if_pos (by rfl), List.getLast?_cons]
      cases (as.takeWhile fun a => !p (m.cell a)).getLast? <;> rfl

theorem Seg.length_le_rounds (h : Seg next m q as none) : as.length ≤ rounds m :=
  h.length_le.trans (Nat.le_succ _)

end Walks

end RoutingDaemon
