/-
Bytes in memory, and the fields of packed headers.

A header is written field by field in the byte order of the machine, lowest byte first.
`store16` and `store32` are the bytes of a field, `load16` and `load32` read one back.
Protocols want the other order, so fields are turned around before they are stored and
after they are loaded; turning twice changes nothing.

`Holds m a bytes` says that memory `m` holds the bytes from address `a` on.  It says
nothing about what lies behind them.
-/
import Mathlib

namespace Bytes

abbrev Byte := BitVec 8

/-- Memory from some address on. -/
abbrev Mem := Nat → Byte

/-! ### Fields -/

def store16 (x : BitVec 16) : List Byte := [x.extractLsb' 0 8, x.extractLsb' 8 8]

def store32 (x : BitVec 32) : List Byte :=
  [x.extractLsb' 0 8, x.extractLsb' 8 8, x.extractLsb' 16 8, x.extractLsb' 24 8]

def store64 (x : BitVec 64) : List Byte :=
  store32 (x.extractLsb' 0 32) ++ store32 (x.extractLsb' 32 32)

def load16 (m : Mem) (a : Nat) : BitVec 16 := m (a + 1) ++ m a

def load32 (m : Mem) (a : Nat) : BitVec 32 := m (a + 3) ++ (m (a + 2) ++ (m (a + 1) ++ m a))

def load64 (m : Mem) (a : Nat) : BitVec 64 := load32 m (a + 4) ++ load32 m a

/-- `(x >> 8) | (x << 8)`, cut to 16 bits. -/
def swap16 (x : BitVec 16) : BitVec 16 := (x >>> 8) ||| (x <<< 8)

/-- The four bytes of a 32-bit field in the other order. -/
def swap32 (x : BitVec 32) : BitVec 32 :=
  (x >>> 24) ||| ((x >>> 8) &&& 0xFF00#32) ||| ((x <<< 8) &&& 0xFF0000#32) ||| (x <<< 24)

@[simp] theorem length_store16 (x : BitVec 16) : (store16 x).length = 2 := rfl

@[simp] theorem length_store32 (x : BitVec 32) : (store32 x).length = 4 := rfl

theorem toNat_swap16 (x : BitVec 16) :
    (swap16 x).toNat = x.toNat % 256 * 256 + x.toNat / 256 := by
  have hlow : x.toNat >>> 8 < 2 ^ 8 := by
    have := x.isLt
    rw [Nat.shiftRight_eq_div_pow]
    omega
  have hhigh : x.toNat <<< 8 % 2 ^ 16 = (x.toNat % 256) <<< 8 := by
    rw [Nat.shiftLeft_eq, Nat.shiftLeft_eq]
    omega
  unfold swap16
  rw [BitVec.toNat_or, BitVec.toNat_ushiftRight, BitVec.toNat_shiftLeft, hhigh, Nat.or_comm,
    ← Nat.shiftLeft_add_eq_or_of_lt hlow, Nat.shiftLeft_eq, Nat.shiftRight_eq_div_pow]

@[simp] theorem swap16_swap16 (x : BitVec 16) : swap16 (swap16 x) = x := by
  apply BitVec.eq_of_toNat_eq
  have := x.isLt
  rw [toNat_swap16, toNat_swap16]
  omega

@[simp] theorem swap32_swap32 (x : BitVec 32) : swap32 (swap32 x) = x := by
  apply BitVec.eq_of_getLsbD_eq
  intro i hi
  unfold swap32
  interval_cases i <;> simp

theorem append_extract16 (x : BitVec 16) : x.extractLsb' 8 8 ++ x.extractLsb' 0 8 = x := by
  apply BitVec.eq_of_getLsbD_eq
  intro i hi
  rw [BitVec.getLsbD_append]
  interval_cases i <;> simp

theorem append_extract32 (x : BitVec 32) :
    x.extractLsb' 24 8 ++ (x.extractLsb' 16 8 ++ (x.extractLsb' 8 8 ++ x.extractLsb' 0 8)) = x := by
  apply BitVec.eq_of_getLsbD_eq
  intro i hi
  simp only [BitVec.getLsbD_append]
  interval_cases i <;> simp

/-- `(x >> 8) | (x << 8)` without the cut, where the low byte of the result is left over above. -/
theorem shiftRight_or_shiftLeft {t : Nat} (ht : t < 2 ^ 16) :
    (t >>> 8) ||| (t <<< 8) = t * 256 + t / 256 := by
  have hlow : t >>> 8 < 2 ^ 8 := by
    rw [Nat.shiftRight_eq_div_pow]
    omega
  rw [Nat.or_comm, ← Nat.shiftLeft_add_eq_or_of_lt hlow, Nat.shiftLeft_eq,
    Nat.shiftRight_eq_div_pow]

theorem toNat_load16 (m : Mem) (a : Nat) :
    (load16 m a).toNat = (m (a + 1)).toNat * 256 + (m a).toNat := by
  unfold load16
  rw [BitVec.toNat_append, ← Nat.shiftLeft_add_eq_or_of_lt (m a).isLt, Nat.shiftLeft_eq]

theorem toNat_swap16_load16 (m : Mem) (a : Nat) :
    (swap16 (load16 m a)).toNat = (m a).toNat * 256 + (m (a + 1)).toNat := by
  have hlo := (m a).isLt
  have hhi := (m (a + 1)).isLt
  rw [toNat_swap16, toNat_load16]
  omega

/-! ### Memory -/

/-- Memory holds these bytes from address `a` on. -/
def Holds (m : Mem) (a : Nat) (bytes : List Byte) : Prop :=
  ∀ i (hi : i < bytes.length), m (a + i) = bytes[i]

/-- The bytes of memory from `a` on. -/
def slice (m : Mem) (a n : Nat) : List Byte := (List.range n).map fun i => m (a + i)

/-- The bytes, and whatever lies behind them. -/
def onto (bytes : List Byte) (behind : Mem) : Mem := fun i => bytes.getD i (behind i)

@[simp] theorem length_slice (m : Mem) (a n : Nat) : (slice m a n).length = n := by simp [slice]

theorem slice_eq_iff {m : Mem} {a : Nat} {bytes : List Byte} :
    slice m a bytes.length = bytes ↔ Holds m a bytes := by
  constructor
  · intro heq i hi
    have := List.getElem_of_eq heq (by simpa using hi)
    simpa [slice] using this
  · intro hholds
    apply List.ext_getElem (by simp)
    intro i _ hi
    simpa [slice] using hholds i hi

theorem slice_congr {m m' : Mem} {a n : Nat} (heq : ∀ i, a ≤ i → i < a + n → m i = m' i) :
    slice m a n = slice m' a n := by
  apply List.map_congr_left
  intro i hi
  have := List.mem_range.mp hi
  exact heq (a + i) (by omega) (by omega)

theorem holds_onto (bytes : List Byte) (behind : Mem) : Holds (onto bytes behind) 0 bytes := by
  intro i hi
  simp [onto, hi]

theorem onto_behind {bytes : List Byte} {behind : Mem} {i : Nat} (hi : bytes.length ≤ i) :
    onto bytes behind i = behind i := by
  simp [onto, hi]

namespace Holds

variable {m : Mem} {a : Nat}

theorem left {l r : List Byte} (h : Holds m a (l ++ r)) : Holds m a l := by
  intro i hi
  rw [h i (by simp; omega), List.getElem_append_left hi]

theorem right {l r : List Byte} (h : Holds m a (l ++ r)) : Holds m (a + l.length) r := by
  intro i hi
  have := h (l.length + i) (by simp; omega)
  rw [Nat.add_assoc, this, List.getElem_append_right (by omega)]
  simp

theorem head {b : Byte} {rest : List Byte} (h : Holds m a (b :: rest)) : m a = b :=
  h 0 (by simp)

theorem tail {b : Byte} {rest : List Byte} (h : Holds m a (b :: rest)) : Holds m (a + 1) rest := by
  intro i hi
  have := h (i + 1) (by simpa using hi)
  rw [show a + 1 + i = a + (i + 1) by omega, this]
  simp

theorem load16_eq {x : BitVec 16} (h : Holds m a (store16 x)) : load16 m a = x := by
  unfold load16
  rw [h.head, h.tail.head, append_extract16]

theorem load32_eq {x : BitVec 32} (h : Holds m a (store32 x)) : load32 m a = x := by
  unfold load32
  rw [h.head, h.tail.head, h.tail.tail.head, h.tail.tail.tail.head, append_extract32]

end Holds

end Bytes
