import Mathlib.Data.List.TakeWhile
import Mathlib.Tactic

/-!
# Constants, C strings and faults

* The constants of `constants.h` that the model uses.
* `Fault`: the ways in which the C program leaves defined behaviour; a fallible function returns
  `Except Fault`, and a faulting daemon has no next state.
* `CString`, `CharBuf`: the value of a NUL-terminated string, and of one that fits `char [n]`.
* `bind_eq_ok`: peeling a successful computation apart.
-/

namespace RoutingDaemon

universe u

/-! ### Constants -/

/-- `FLOODING_PERIOD` -/
def floodingPeriod : ℤ := 10

/-- `RETRANSMIT_TIME` -/
def retransmitTime : ℤ := 4

/-- `DEFAULT_TTL` -/
def defaultTtl : ℤ := 0x20

/-- `STATUS_DOWN` -/
def statusDown : ℤ := 0

/-- `MAX_NODES` -/
def maxNodes : ℕ := 150

/-- `MAX_BUF` -/
def maxBuf : ℕ := 1024

/-- `MAX_OBJ_LEN` -/
def maxObjLen : ℕ := 64

/-- `MAX_PATH_LEN` -/
def maxPathLen : ℕ := 2048

/-- `MAX_OBJ_NUM` -/
def maxObjNum : ℕ := 10000

/-- `MAX_LSA_LEN` -/
def maxLsaLen : ℕ := 1024

/-- `HASHSIZE` -/
def hashsize : ℕ := 9377

/-- `MAXOBJNUM` -/
def maxobjnum : ℕ := 9377

/-- `MAXOBJNAME` -/
def maxobjname : ℕ := 64

/-! ### Faults -/

/-- How a C function can leave defined behaviour. -/
inductive Fault
  /-- a NULL or indeterminate pointer is dereferenced -/
  | badPointer
  /-- a read outside the object or the received packet -/
  | overRead
  /-- a write past the end of an array -/
  | overflow
  /-- a read of freed memory -/
  | useAfterFree
  /-- `sequence_number++` past `INT_MAX` -/
  | signedOverflow
  deriving DecidableEq, Repr

/-- The dereference of a possibly NULL pointer. -/
def deref {α : Type*} : Option α → Except Fault α
  | some a => .ok a
  | none => .error .badPointer

@[simp] theorem deref_some {α : Type*} (a : α) : deref (some a) = .ok a := rfl

@[simp] theorem deref_none {α : Type*} : deref (none : Option α) = .error .badPointer := rfl

theorem deref_eq_ok {α : Type*} {o : Option α} {a : α} : deref o = .ok a ↔ o = some a := by
  cases o <;> simp

theorem deref_eq_error {α : Type*} {o : Option α} {f : Fault} :
    deref o = .error f ↔ o = none ∧ f = .badPointer := by
  cases o <;> simp [eq_comm]

theorem bind_eq_ok {ε : Type*} {α β : Type u} {x : Except ε α} {f : α → Except ε β} {b : β} :
    (x >>= f) = .ok b ↔ ∃ a, x = .ok a ∧ f a = .ok b := by
  cases x with
  | error e => simp [bind, Except.bind]
  | ok a => simp [bind, Except.bind]

theorem bind_eq_error {ε : Type*} {α β : Type u} {x : Except ε α} {f : α → Except ε β} {e : ε} :
    (x >>= f) = .error e ↔ x = .error e ∨ ∃ a, x = .ok a ∧ f a = .error e := by
  cases x with
  | error e' => simp [bind, Except.bind]
  | ok a => simp [bind, Except.bind]

theorem exists_of_map_eq_ok {ε α β : Type} {x : Except ε α} {p : α → β} {b : β}
    (h : x.map p = .ok b) : ∃ a, x = .ok a ∧ p a = b := by
  cases x with
  | error e => cases h
  | ok a => exact ⟨a, rfl, by simpa [Except.map] using h⟩

theorem error_of_map {α β : Type} {x : Except Fault α} {f : α → β} {e : Fault}
    (h : x.map f = .error e) : x = .error e := by
  cases x with
  | error e' => exact congrArg Except.error (Except.error.inj h)
  | ok a => cases h

theorem toOption_eq_some {α : Type} {x : Except Fault α} {a : α} :
    x.toOption = some a ↔ x = .ok a := by
  cases x <;> simp [Except.toOption]

@[simp] theorem ok_bind {ε : Type*} {α β : Type u} (a : α) (f : α → Except ε β) :
    ((Except.ok a : Except ε α) >>= f) = f a := rfl

@[simp] theorem error_bind {ε : Type*} {α β : Type u} (e : ε) (f : α → Except ε β) :
    ((Except.error e : Except ε α) >>= f) = .error e := rfl

@[simp] theorem pure_eq_ok {ε α : Type*} (a : α) : (pure a : Except ε α) = .ok a := rfl

theorem mapError_eq_ok {ε ε' α : Type*} {x : Except ε α} {f : ε → ε'} {a : α} :
    x.mapError f = .ok a ↔ x = .ok a := by
  cases x <;> simp [Except.mapError]

/-- A statement that comes after `out`: a fault is reported with what was done before it. -/
def afterEffects {ε α ω : Type*} (out : ω) (x : Except ε α) : Except (ε × ω) α := x.mapError fun e => (e, out)

@[simp] theorem afterEffects_ok {ε α ω : Type*} (out : ω) (a : α) :
    afterEffects out (.ok a : Except ε α) = .ok a := rfl

@[simp] theorem afterEffects_error {ε α ω : Type*} (out : ω) (e : ε) :
    afterEffects out (.error e : Except ε α) = .error (e, out) := rfl

theorem afterEffects_eq_ok {ε α ω : Type*} {out : ω} {x : Except ε α} {a : α} :
    afterEffects out x = .ok a ↔ x = .ok a := mapError_eq_ok

theorem afterEffects_eq_error {ε α ω : Type*} {out out' : ω} {x : Except ε α} {e : ε} :
    afterEffects out x = .error (e, out') ↔ x = .error e ∧ out = out' := by
  cases x <;> simp

/-! ### Strings -/

/-- The value of a C string: the bytes before the terminating NUL. -/
abbrev CString := {s : List UInt8 // 0 ∉ s}

/-- The string at the start of some memory. -/
def cstr (b : List UInt8) : CString :=
  ⟨b.takeWhile (· ≠ 0), fun h => by simpa using List.mem_takeWhile_imp h⟩

/-- `strlen` -/
def strlen (s : CString) : ℕ := s.1.length

theorem strlen_cstr_le (b : List UInt8) : strlen (cstr b) ≤ b.length :=
  (List.takeWhile_prefix _).length_le

/-- The string held by a `char [n]`. -/
abbrev CharBuf (n : ℕ) := {s : CString // strlen s < n}

/-- `strcpy` into a `char [n]`. -/
def strcpy (n : ℕ) (s : CString) : Except Fault (CharBuf n) :=
  if h : strlen s < n then .ok ⟨s, h⟩ else .error .overflow

theorem cstr_eq_self {s : CString} : cstr s.1 = s := by
  refine Subtype.ext (List.takeWhile_eq_self_iff.mpr fun a ha => ?_)
  have : a ≠ 0 := fun e => s.2 (e ▸ ha)
  simpa using this

theorem cstr_append {s : CString} (rest : List UInt8) : cstr (s.1 ++ 0 :: rest) = s := by
  refine Subtype.ext ?_
  have hp : ∀ a ∈ s.1, decide (a ≠ 0) = true := fun a ha => by
    simpa using fun e : a = 0 => s.2 (e ▸ ha)
  simp only [cstr, List.takeWhile_append_of_pos hp]
  simp

theorem strcpy_eq_ok {n : ℕ} {s : CString} {b : CharBuf n} : strcpy n s = .ok b ↔ b.1 = s := by
  unfold strcpy
  split_ifs with h
  · rw [Except.ok.injEq]
    exact ⟨fun e => by rw [← e], fun e => Subtype.ext e.symm⟩
  · refine iff_of_false (by simp) fun e => h (e ▸ b.2)

theorem strcpy_self {n : ℕ} (b : CharBuf n) : strcpy n b.1 = .ok b := strcpy_eq_ok.mpr rfl

end RoutingDaemon
