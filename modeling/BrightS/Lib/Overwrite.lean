/-
Memory with some of its bytes overwritten.

A copy or a fill that works in wide steps writes some bytes twice and must write every byte once.
What such steps have in common is the set of offsets they have written so far, and that each was
given the byte it is to have (`overwrite`): the order does not matter, a wide store adds its
offsets (`storeAt_overwrite`), and the work is done when the set is everything
(`overwrite_whole_iff`).
-/
import BrightS.Lib.Memory

namespace Bytes

variable {m : Mem} {base n k : Nat} {S : Set Nat} {f : Nat → Byte}

open Classical in
/-- Memory with the bytes at the offsets in `S` behind `base` overwritten. -/
noncomputable def overwrite (m : Mem) (base : Nat) (S : Set Nat) (f : Nat → Byte) : Mem :=
  fun a => if base ≤ a ∧ a - base ∈ S then f (a - base) else m a

theorem overwrite_of_mem (hk : k ∈ S) : overwrite m base S f (base + k) = f k := by
  unfold overwrite
  rw [Nat.add_sub_cancel_left, if_pos ⟨Nat.le_add_right base k, hk⟩]

theorem overwrite_of_notMem (hk : k ∉ S) : overwrite m base S f (base + k) = m (base + k) := by
  unfold overwrite
  rw [Nat.add_sub_cancel_left, if_neg fun h => hk h.2]

/-- Offsets below `n` only. -/
theorem overwrite_outside (hS : ∀ k ∈ S, k < n) {a : Nat} (ha : a < base ∨ base + n ≤ a) :
    overwrite m base S f a = m a := by
  refine if_neg fun h => ?_
  have := hS _ h.2
  omega

@[simp] theorem overwrite_empty : overwrite m base ∅ f = m := by
  funext a
  exact if_neg fun h => h.2

theorem union_Ico {a b c : Nat} (hab : a ≤ b) (hbc : b ≤ c) :
    S ∪ Set.Ico a b ∪ Set.Ico b c = S ∪ Set.Ico a c := by
  rw [Set.union_assoc, Set.Ico_union_Ico_eq_Ico hab hbc]

theorem union_Ico_lt {a b : Nat} (hS : ∀ i ∈ S, i < n) (hb : b ≤ n) :
    ∀ i ∈ S ∪ Set.Ico a b, i < n := by
  rintro i (hi | hi)
  · exact hS i hi
  · exact lt_of_lt_of_le hi.2 hb

/-- A store of the right bytes adds their offsets. -/
theorem storeAt_overwrite {bytes : List Byte}
    (hbytes : ∀ i (hi : i < bytes.length), bytes[i] = f (k + i)) :
    storeAt (overwrite m base S f) (base + k) bytes =
      overwrite m base (S ∪ Set.Ico k (k + bytes.length)) f := by
  funext a
  by_cases hin : base + k ≤ a ∧ a < base + k + bytes.length
  · obtain ⟨i, rfl⟩ := Nat.exists_eq_add_of_le hin.1
    have hi : i < bytes.length := by omega
    have hmem : k + i ∈ S ∪ Set.Ico k (k + bytes.length) := .inr ⟨by omega, by omega⟩
    rw [holds_storeAt _ _ _ i hi, hbytes i hi, Nat.add_assoc, overwrite_of_mem hmem]
  · rw [storeAt_outside (by omega)]
    unfold overwrite
    have hnot : ¬ (base ≤ a ∧ a - base ∈ Set.Ico k (k + bytes.length)) := by
      rintro ⟨hle, hlo, hhi⟩
      omega
    by_cases ha : base ≤ a ∧ a - base ∈ S
    · rw [if_pos ha, if_pos ⟨ha.1, .inl ha.2⟩]
    · rw [if_neg ha, if_neg]
      rintro ⟨hle, hS | hIco⟩
      · exact ha ⟨hle, hS⟩
      · exact hnot ⟨hle, hIco⟩

/-! ### The result -/

/-- The first `n` bytes behind `base` are those of `f`, and all others what they were. -/
def Overwrites (m : Mem) (base n : Nat) (f : Nat → Byte) (m' : Mem) : Prop :=
  (∀ k, k < n → m' (base + k) = f k) ∧ ∀ a, a < base ∨ base + n ≤ a → m' a = m a

/-- What was left out is right only if it was right before. -/
theorem overwrite_whole_iff (hS : ∀ k ∈ S, k < n) :
    Overwrites m base n f (overwrite m base S f) ↔ ∀ k, k < n → k ∉ S → m (base + k) = f k := by
  constructor
  · intro h k hk hnot
    rw [← h.1 k hk, overwrite_of_notMem hnot]
  · intro h
    refine ⟨fun k hk => ?_, fun a ha => overwrite_outside hS ha⟩
    by_cases hmem : k ∈ S
    · exact overwrite_of_mem hmem
    · rw [overwrite_of_notMem hmem]
      exact h k hk hmem

theorem overwrites_of_all (hS : ∀ k, k ∈ S ↔ k < n) :
    Overwrites m base n f (overwrite m base S f) :=
  (overwrite_whole_iff fun k hk => (hS k).mp hk).mpr fun k hk hnot => absurd ((hS k).mpr hk) hnot

/-- There is only one such memory. -/
theorem Overwrites.unique {m₁ m₂ : Mem} (h₁ : Overwrites m base n f m₁)
    (h₂ : Overwrites m base n f m₂) : m₁ = m₂ := by
  funext a
  by_cases ha : a < base ∨ base + n ≤ a
  · rw [h₁.2 a ha, h₂.2 a ha]
  · obtain ⟨k, rfl⟩ := Nat.exists_eq_add_of_le (show base ≤ a by omega)
    rw [h₁.1 k (by omega), h₂.1 k (by omega)]

/-! ### Wide moves -/

/-- A move of `w` bytes: all are read before any is stored. -/
def moveBytes (w : Nat) (m : Mem) (dst src : Nat) : Mem := storeAt m dst (slice m src w)

theorem getElem_slice {a i : Nat} (hi : i < (slice m a n).length) :
    (slice m a n)[i] = m (a + i) := by simp [slice]

/-- A move within a copy to a place apart adds its offsets. -/
theorem moveBytes_overwrite {dst src : Nat} (hS : ∀ k ∈ S, k < n)
    (hapart : src + n ≤ dst ∨ dst + n ≤ src) {w : Nat} (hk : k + w ≤ n) :
    moveBytes w (overwrite m dst S fun i => m (src + i)) (dst + k) (src + k) =
      overwrite m dst (S ∪ Set.Ico k (k + w)) fun i => m (src + i) := by
  have hread : ∀ i (hi : i < (slice (overwrite m dst S fun i => m (src + i)) (src + k) w).length),
      (slice (overwrite m dst S fun i => m (src + i)) (src + k) w)[i] = m (src + (k + i)) := by
    intro i hi
    rw [getElem_slice]
    rw [length_slice] at hi
    rw [overwrite_outside hS (by omega), Nat.add_assoc]
  unfold moveBytes
  rw [storeAt_overwrite hread, length_slice]

/-! ### Loops -/

/-- A loop of moves of `w` bytes. -/
theorem moves_overwrite {dst src : Nat} (hapart : src + n ≤ dst ∨ dst + n ≤ src)
    (hS : ∀ k ∈ S, k < n) {w : Nat} : ∀ {count : Nat}, k + w * count ≤ n →
      (List.range count).foldl (fun m i => moveBytes w m (dst + k + w * i) (src + k + w * i))
          (overwrite m dst S fun i => m (src + i)) =
        overwrite m dst (S ∪ Set.Ico k (k + w * count)) fun i => m (src + i) := by
  intro count
  induction count with
  | zero =>
      intro _
      simp
  | succ count ih =>
      intro hk
      rw [Nat.mul_succ] at hk ⊢
      rw [List.range_succ, List.foldl_append, ih (by omega), List.foldl_cons, List.foldl_nil,
        Nat.add_assoc, Nat.add_assoc,
        moveBytes_overwrite (union_Ico_lt hS (by omega)) hapart (by omega),
        union_Ico (by omega) (by omega), Nat.add_assoc]

/-- A loop of stores of `w` bytes that are all the same. -/
theorem stores_overwrite {byte : Byte} {w : Nat} (count : Nat) :
    (List.range count).foldl (fun m i => storeAt m (base + k + w * i) (List.replicate w byte))
        (overwrite m base S fun _ => byte) =
      overwrite m base (S ∪ Set.Ico k (k + w * count)) fun _ => byte := by
  induction count with
  | zero => simp
  | succ count ih =>
      rw [List.range_succ, List.foldl_append, ih, List.foldl_cons, List.foldl_nil, Nat.add_assoc,
        storeAt_overwrite fun i hi => List.getElem_replicate hi, List.length_replicate,
        union_Ico (by omega) (by omega), Nat.add_assoc, Nat.mul_succ]

end Bytes
