/-
Words and copies in memory.

A word that is stored somewhere is read back there, and nothing else changes.  A program that
keeps its records in the same memory as its users' data needs the second half as much as the
first, so both are stated for numbers: `word` reads one, `setWord` stores one.
-/
import BrightS.Lib.Bytes

namespace Bytes

variable {m m' : Mem} {a i n : Nat}

/-! ### Storing -/

/-- The bytes stored from address `a` on. -/
def storeAt (m : Mem) (a : Nat) (bytes : List Byte) : Mem :=
  fun i => if a ≤ i then bytes.getD (i - a) (m i) else m i

theorem storeAt_outside {bytes : List Byte} (h : i < a ∨ a + bytes.length ≤ i) :
    storeAt m a bytes i = m i := by
  unfold storeAt
  split_ifs with hle
  · rw [List.getD_eq_default _ _ (by omega)]
  · rfl

theorem holds_storeAt (m : Mem) (a : Nat) (bytes : List Byte) :
    Holds (storeAt m a bytes) a bytes := by
  intro i hi
  unfold storeAt
  rw [if_pos (Nat.le_add_right a i), Nat.add_sub_cancel_left, List.getD_eq_getElem _ _ hi]

/-! ### Words -/

theorem append_extract64 (x : BitVec 64) : x.extractLsb' 32 32 ++ x.extractLsb' 0 32 = x := by
  apply BitVec.eq_of_toNat_eq
  rw [BitVec.toNat_append, BitVec.extractLsb'_toNat, BitVec.extractLsb'_toNat,
    ← Nat.shiftLeft_add_eq_or_of_lt (Nat.mod_lt _ (by decide))]
  have := x.isLt
  rw [Nat.shiftLeft_eq, Nat.shiftRight_eq_div_pow, Nat.shiftRight_eq_div_pow]
  omega

theorem Holds.load64_eq {x : BitVec 64} (h : Holds m a (store64 x)) : load64 m a = x := by
  unfold store64 at h
  have hhigh := h.right.load32_eq
  rw [length_store32] at hhigh
  unfold load64
  rw [h.left.load32_eq, hhigh, append_extract64]

@[simp] theorem length_store64 (x : BitVec 64) : (store64 x).length = 8 := rfl

theorem load64_congr (h : ∀ i, a ≤ i → i < a + 8 → m i = m' i) : load64 m a = load64 m' a := by
  unfold load64 load32
  rw [h a (by omega) (by omega), h (a + 1) (by omega) (by omega), h (a + 2) (by omega) (by omega),
    h (a + 3) (by omega) (by omega), h (a + 4) (by omega) (by omega),
    h (a + 4 + 1) (by omega) (by omega), h (a + 4 + 2) (by omega) (by omega),
    h (a + 4 + 3) (by omega) (by omega)]

theorem append_inj {v w : Nat} {x x' : BitVec v} {y y' : BitVec w} (h : x ++ y = x' ++ y') :
    x = x' ∧ y = y' := by
  have hhigh := congrArg (fun z => BitVec.extractLsb' w v z) h
  have hlow := congrArg (fun z => BitVec.extractLsb' 0 w z) h
  rw [BitVec.extractLsb'_append_eq_left, BitVec.extractLsb'_append_eq_left] at hhigh
  rw [BitVec.extractLsb'_append_eq_right, BitVec.extractLsb'_append_eq_right] at hlow
  exact ⟨hhigh, hlow⟩

theorem load32_inj {b : Nat} (h : load32 m a = load32 m' b) (hi : i < 4) :
    m (a + i) = m' (b + i) := by
  unfold load32 at h
  obtain ⟨h3, h⟩ := append_inj h
  obtain ⟨h2, h⟩ := append_inj h
  obtain ⟨h1, h0⟩ := append_inj h
  interval_cases i
  · exact h0
  · exact h1
  · exact h2
  · exact h3

/-- Words are the same only if their bytes are. -/
theorem load64_inj {b : Nat} (h : load64 m a = load64 m' b) (hi : i < 8) :
    m (a + i) = m' (b + i) := by
  unfold load64 at h
  obtain ⟨hhigh, hlow⟩ := append_inj h
  by_cases hi4 : i < 4
  · exact load32_inj hlow hi4
  · obtain ⟨k, rfl⟩ := Nat.exists_eq_add_of_le (Nat.not_lt.mp hi4)
    rw [← Nat.add_assoc, ← Nat.add_assoc]
    exact load32_inj hhigh (by omega)

/-- The word at an address, and a word stored there. -/
def word (m : Mem) (a : Nat) : Nat := (load64 m a).toNat

def setWord (m : Mem) (a n : Nat) : Mem := storeAt m a (store64 (BitVec.ofNat 64 n))

theorem word_setWord (m : Mem) (a : Nat) (h : n < 2 ^ 64) : word (setWord m a n) a = n := by
  unfold word setWord
  rw [(holds_storeAt m a _).load64_eq, BitVec.toNat_ofNat, Nat.mod_eq_of_lt h]

theorem setWord_outside (h : i < a ∨ a + 8 ≤ i) : setWord m a n i = m i :=
  storeAt_outside (by rw [length_store64]; exact h)

theorem word_congr (h : ∀ i, a ≤ i → i < a + 8 → m i = m' i) : word m a = word m' a :=
  congrArg BitVec.toNat (load64_congr h)

theorem word_setWord_of_ne {b : Nat} (h : b + 8 ≤ a ∨ a + 8 ≤ b) :
    word (setWord m a n) b = word m b :=
  word_congr fun _ _ _ => setWord_outside (by omega)

/-! ### Copies -/

/-- Byte by byte, forward. -/
def copyBytes (m : Mem) (dst src : Nat) : Nat → Mem
  | 0 => m
  | n + 1 =>
      let m := copyBytes m dst src n
      Function.update m (dst + n) (m (src + n))

theorem copyBytes_outside {dst src : Nat} :
    ∀ {n}, i < dst ∨ dst + n ≤ i → copyBytes m dst src n i = m i := by
  intro n
  induction n with
  | zero => exact fun _ => rfl
  | succ n ih =>
      intro h
      exact (Function.update_of_ne (by omega) ..).trans (ih (by omega))

/-- The copy of bytes that it does not overwrite itself. -/
theorem copyBytes_copied {dst src : Nat} :
    ∀ {n}, src + n ≤ dst ∨ dst + n ≤ src → i < n →
      copyBytes m dst src n (dst + i) = m (src + i) := by
  intro n
  induction n with
  | zero => exact fun _ hi => absurd hi (Nat.not_lt_zero i)
  | succ n ih =>
      intro hapart hi
      rw [copyBytes]
      by_cases hlast : i = n
      · rw [hlast, Function.update_self]
        exact copyBytes_outside (by omega)
      · rw [Function.update_of_ne (by omega)]
        exact ih (by omega) (by omega)

/-- Bytes of another memory, one by one. -/
def copyFrom (m : Mem) (dst : Nat) (other : Mem) (src : Nat) : Nat → Mem
  | 0 => m
  | n + 1 => Function.update (copyFrom m dst other src n) (dst + n) (other (src + n))

theorem copyFrom_apply {other : Mem} {dst src n : Nat} :
    copyFrom m dst other src n i =
      if dst ≤ i ∧ i < dst + n then other (src + (i - dst)) else m i := by
  induction n with
  | zero => rw [copyFrom, if_neg (by omega)]
  | succ n ih =>
      rw [copyFrom]
      by_cases hlast : i = dst + n
      · rw [hlast, Function.update_self, if_pos (by omega), Nat.add_sub_cancel_left]
      · rw [Function.update_of_ne hlast, ih]
        by_cases hin : dst ≤ i ∧ i < dst + n
        · rw [if_pos hin, if_pos (by omega)]
        · rw [if_neg hin, if_neg (by omega)]

end Bytes
