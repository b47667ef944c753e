/-
What the memory functions of the kernel do.

All of them work in wide steps, so the proofs follow the set of offsets written so far.  The one
of `memset` is always complete.  The tail of `memcpy` leaves bytes out for some lengths
(`copySkips`); `memcmp` finds the first difference because words differ only if a byte does.
-/
import BrightS.Kernel.Runtime

namespace BrightS

open Bytes

theorem unaligned_lt (d : Nat) : unaligned d < 8 := Nat.mod_lt _ (by decide)

/-! ### Copying -/

section Copy

variable {m : Mem} {dst src n k : Nat} {S : Set Nat}

/-- The copy with the bytes at the offsets in `S` done. -/
noncomputable abbrev copied (m : Mem) (dst src : Nat) (S : Set Nat) : Mem :=
  overwrite m dst S fun i => m (src + i)

theorem copyWords_copied (hapart : src + n ≤ dst ∨ dst + n ≤ src) (hS : ∀ i ∈ S, i < n) {words : Nat}
    (hk : k + 8 * words ≤ n) :
    copyWords words (copied m dst src S) (dst + k) (src + k) =
      copied m dst src (S ∪ Set.Ico k (k + 8 * words)) :=
  moves_overwrite hapart hS hk

theorem copyLoop_copied (hapart : src + n ≤ dst ∨ dst + n ≤ src) {words : Nat} [NeZero words]
    (len : Nat) : ∀ {k : Nat} {S : Set Nat}, (∀ i ∈ S, i < n) → k + len ≤ n →
      copyLoop words ⟨copied m dst src S, dst + k, src + k, len⟩ =
        ⟨copied m dst src (S ∪ Set.Ico k (k + (len - len % (8 * words)))),
          dst + (k + (len - len % (8 * words))), src + (k + (len - len % (8 * words))),
          len % (8 * words)⟩ := by
  have hwords := NeZero.pos words
  induction len using Nat.strong_induction_on with
  | _ len ih =>
      intro k S hS hk
      rw [copyLoop]
      dsimp only
      by_cases hlen : 8 * words ≤ len
      · have hmod : (len - 8 * words) % (8 * words) = len % (8 * words) :=
          (Nat.mod_eq_sub_mod hlen).symm
        have hle := Nat.mod_le (len - 8 * words) (8 * words)
        rw [if_pos hlen, copyWords_copied hapart hS (by omega), Nat.add_assoc, Nat.add_assoc,
          ih _ (by omega) (union_Ico_lt hS (by omega)) (by omega), hmod,
          union_Ico (by omega) (by omega)]
        have hend : k + 8 * words + (len - 8 * words - len % (8 * words)) =
            k + (len - len % (8 * words)) := by omega
        rw [hend]
      · rw [if_neg hlen, Nat.mod_eq_of_lt (by omega), Nat.sub_self]
        simp

/-- The offsets that the tail writes, when `len` bytes are left from offset `k` on. -/
def tailOffsets (k len : Nat) : Set Nat :=
  if 8 ≤ len then Set.Ico k (k + 8) ∪ Set.Ico (k + len - 8) (k + len)
  else if 4 ≤ len then Set.Ico k (k + 1) ∪ Set.Ico (k + len - 4) (k + len)
  else if 0 < len then Set.Ico k (k + 1) ∪ Set.Ico (k + len - 1) (k + len)
  else ∅

/-- Two moves within a copy, the second one up to its end. -/
theorem moveBytes_twice (hapart : src + n ≤ dst ∨ dst + n ≤ src) (hS : ∀ i ∈ S, i < n)
    {len v w : Nat} (hk : k + len ≤ n) (hv : v ≤ len) (hw : w ≤ len) :
    moveBytes w (moveBytes v (copied m dst src S) (dst + k) (src + k)) (dst + k + len - w)
        (src + k + len - w) =
      copied m dst src (S ∪ (Set.Ico k (k + v) ∪ Set.Ico (k + len - w) (k + len))) := by
  have hd : dst + k + len - w = dst + (k + len - w) := by omega
  have hs : src + k + len - w = src + (k + len - w) := by omega
  have hend : k + len - w + w = k + len := by omega
  rw [moveBytes_overwrite hS hapart (by omega), hd, hs,
    moveBytes_overwrite (union_Ico_lt hS (by omega)) hapart (by omega), hend, Set.union_assoc]

theorem copyTail_copied (hapart : src + n ≤ dst ∨ dst + n ≤ src) (hS : ∀ i ∈ S, i < n) {len : Nat}
    (hk : k + len ≤ n) :
    copyTail ⟨copied m dst src S, dst + k, src + k, len⟩ =
      copied m dst src (S ∪ tailOffsets k len) := by
  unfold copyTail tailOffsets
  dsimp only
  by_cases h8 : 8 ≤ len
  · rw [if_pos h8, if_pos h8, moveBytes_twice hapart hS hk h8 h8]
  rw [if_neg h8, if_neg h8]
  by_cases h0 : 0 < len
  · rw [if_pos h0, if_pos h0]
    by_cases h4 : 4 ≤ len
    · rw [if_pos h4, if_pos h4, moveBytes_twice hapart hS hk h0 h4]
    · rw [if_neg h4, if_neg h4, moveBytes_twice hapart hS hk h0 h0]
  · rw [if_neg h0, if_neg h0, if_neg (show ¬ 4 ≤ len by omega), Set.union_empty]

/-- The offsets that a copy to this address leaves out. -/
def copySkips (dst n k : Nat) : Prop :=
  16 < n ∧ n < 256 ∧
    ((n - unaligned dst) % 16 = 3 ∧ k + 2 = n ∨
      (n - unaligned dst) % 16 = 6 ∧ k + 5 = n ∨
      (n - unaligned dst) % 16 = 7 ∧ (k + 6 = n ∨ k + 5 = n))

instance (dst n k : Nat) : Decidable (copySkips dst n k) := inferInstanceAs (Decidable (_ ∧ _))

/-- Short copies are two moves that overlap. -/
theorem memcpy_short (m : Mem) (hapart : src + n ≤ dst ∨ dst + n ≤ src) (hn : n ≤ 16) :
    ∃ S : Set Nat, memcpy m dst src n = copied m dst src S ∧ ∀ k, k ∈ S ↔ k < n := by
  have htwice : ∀ {v w : Nat}, v ≤ n → w ≤ n →
      moveBytes w (moveBytes v m dst src) (dst + n - w) (src + n - w) =
        copied m dst src (Set.Ico 0 v ∪ Set.Ico (n - w) n) := by
    intro v w hv hw
    have h : moveBytes w (moveBytes v (copied m dst src ∅) (dst + 0) (src + 0)) (dst + 0 + n - w)
        (src + 0 + n - w) =
        copied m dst src (∅ ∪ (Set.Ico 0 (0 + v) ∪ Set.Ico (0 + n - w) (0 + n))) :=
      moveBytes_twice hapart (by simp) (by omega) hv hw
    simpa using h
  have honce : ∀ {w : Nat}, w ≤ n → moveBytes w m dst src = copied m dst src (Set.Ico 0 w) := by
    intro w hw
    have h : moveBytes w (copied m dst src ∅) (dst + 0) (src + 0) =
        copied m dst src (∅ ∪ Set.Ico 0 (0 + w)) := moveBytes_overwrite (by simp) hapart (by omega)
    simpa using h
  unfold memcpy
  rw [if_pos hn]
  by_cases h8 : 8 ≤ n
  · rw [if_pos h8, htwice h8 h8]
    refine ⟨_, rfl, fun k => ?_⟩
    simp only [Set.mem_union, Set.mem_Ico]
    omega
  rw [if_neg h8]
  by_cases h4 : 4 ≤ n
  · rw [if_pos h4, htwice h4 h4]
    refine ⟨_, rfl, fun k => ?_⟩
    simp only [Set.mem_union, Set.mem_Ico]
    omega
  rw [if_neg h4]
  by_cases h2 : 2 ≤ n
  · rw [if_pos h2]
    dsimp only
    by_cases h3 : 2 < n
    · rw [if_pos h3, htwice h2 (by omega)]
      refine ⟨_, rfl, fun k => ?_⟩
      simp only [Set.mem_union, Set.mem_Ico]
      omega
    · rw [if_neg h3, honce h2]
      refine ⟨_, rfl, fun k => ?_⟩
      simp only [Set.mem_Ico]
      omega
  rw [if_neg h2]
  by_cases h1 : n = 1
  · rw [if_pos h1, honce h1.ge]
    refine ⟨_, rfl, fun k => ?_⟩
    simp only [Set.mem_Ico]
    omega
  · rw [if_neg h1]
    exact ⟨∅, overwrite_empty.symm, fun k => iff_of_false (by simp) (by omega)⟩

/-- The offsets of the piece in front of the first aligned address. -/
def headOffsets (u : Nat) : Set Nat := if 0 < u then Set.Ico 0 8 else ∅

theorem mem_headOffsets {u k : Nat} : k ∈ headOffsets u ↔ 0 < u ∧ k < 8 := by
  unfold headOffsets
  by_cases h0 : 0 < u
  · rw [if_pos h0, Set.mem_Ico, and_iff_right h0]
    omega
  · rw [if_neg h0]
    exact iff_of_false (by simp) fun h => h0 h.1

theorem copyHead_copied (hapart : src + n ≤ dst ∨ dst + n ≤ src) (hn : 8 ≤ n) (u : Nat) :
    (if 0 < u then CopyState.mk (moveBytes 8 m dst src) (dst + u) (src + u) (n - u)
      else ⟨m, dst, src, n⟩) =
      ⟨copied m dst src (headOffsets u), dst + u, src + u, n - u⟩ := by
  unfold headOffsets
  by_cases h0 : 0 < u
  · have h : moveBytes 8 (copied m dst src ∅) (dst + 0) (src + 0) =
        copied m dst src (∅ ∪ Set.Ico 0 (0 + 8)) :=
      moveBytes_overwrite (by simp) hapart (by omega)
    rw [if_pos h0, if_pos h0]
    congr 1
    simpa using h
  · obtain rfl : u = 0 := by omega
    rw [if_neg h0, if_neg h0]
    congr 1
    exact overwrite_empty.symm

/-- Where the loops over eight words and over two words end. -/
theorem loops_end {u n : Nat} (hu : u ≤ n) :
    (n - u) % (8 * 8) % (8 * 2) = (n - u) % 16 ∧
      u + (n - u - (n - u) % (8 * 8)) + ((n - u) % (8 * 8) - (n - u) % 16) =
        n - (n - u) % 16 := by
  have hmod : (n - u) % (8 * 8) % (8 * 2) = (n - u) % 16 := Nat.mod_mod_of_dvd _ (by decide)
  have hle := Nat.mod_le ((n - u) % (8 * 8)) (8 * 2)
  have hle' := Nat.mod_le (n - u) (8 * 8)
  exact ⟨hmod, by omega⟩

/-- Copies of middle length write what the alignment, the loops and the tail write. -/
theorem memcpy_middle (m : Mem) (hapart : src + n ≤ dst ∨ dst + n ≤ src) (hlo : 16 < n)
    (hhi : n < 256) :
    ∃ S : Set Nat, memcpy m dst src n = copied m dst src S ∧
      ∀ k, k ∈ S ↔ k < n ∧ ¬ copySkips dst n k := by
  have hu := unaligned_lt dst
  obtain ⟨u, hudef⟩ : ∃ u, u = unaligned dst := ⟨_, rfl⟩
  have hS : ∀ i ∈ headOffsets u, i < n := fun i hi => by
    have := (mem_headOffsets.mp hi).2
    omega
  obtain ⟨hmod, hend⟩ := loops_end (show u ≤ n by omega)
  have hle := Nat.mod_le ((n - u) % (8 * 8)) (8 * 2)
  have hle' := Nat.mod_le (n - u) (8 * 8)
  refine ⟨headOffsets u ∪ Set.Ico u (n - (n - u) % 16) ∪
    tailOffsets (n - (n - u) % 16) ((n - u) % 16), ?_, ?_⟩
  · unfold memcpy
    dsimp only
    rw [if_neg (by omega), if_neg (by omega), ← hudef, copyHead_copied hapart (by omega),
      copyLoop_copied hapart _ hS (by omega),
      copyLoop_copied hapart _ (union_Ico_lt hS (by omega)) (by omega), hmod,
      union_Ico (by omega) (by omega), hend,
      copyTail_copied hapart (union_Ico_lt hS (by omega)) (by omega)]
  · intro k
    have hr := Nat.mod_lt (n - u) (show 0 < 16 by decide)
    unfold copySkips
    rw [← hudef]
    generalize (n - u) % 16 = r at *
    have hSmem : k ∈ headOffsets u ↔ 0 < u ∧ k < 8 := mem_headOffsets
    unfold tailOffsets
    by_cases h8 : 8 ≤ r
    · rw [if_pos h8]
      simp only [Set.mem_union, Set.mem_Ico, hSmem]
      omega
    rw [if_neg h8]
    by_cases h4 : 4 ≤ r
    · rw [if_pos h4]
      simp only [Set.mem_union, Set.mem_Ico, hSmem]
      omega
    rw [if_neg h4]
    by_cases h0 : 0 < r
    · rw [if_pos h0]
      simp only [Set.mem_union, Set.mem_Ico, hSmem]
      omega
    · rw [if_neg h0]
      simp only [Set.mem_union, Set.mem_Ico, hSmem, Set.mem_empty_iff_false, or_false]
      omega

/--
**What `memcpy` copies.**  A copy to a place apart is exact, with nothing else changed, exactly if
the bytes that its tail leaves out were the same before.
-/
theorem memcpy_exact_iff (m : Mem) {dst src n : Nat} (hapart : src + n ≤ dst ∨ dst + n ≤ src) :
    Overwrites m dst n (fun k => m (src + k)) (memcpy m dst src n) ↔
      ∀ k, copySkips dst n k → m (dst + k) = m (src + k) := by
  by_cases hlong : 256 ≤ n
  · have hcopy : memcpy m dst src n = copyBytes m dst src n := by
      unfold memcpy
      rw [if_neg (by omega), if_pos hlong]
    rw [hcopy]
    refine iff_of_true ⟨fun k hk => copyBytes_copied hapart hk, fun a ha => copyBytes_outside ha⟩ ?_
    intro k hskip
    exact absurd hskip.2.1 (by omega)
  by_cases hshort : n ≤ 16
  · obtain ⟨S, hS, hall⟩ := memcpy_short m hapart hshort
    rw [hS]
    refine iff_of_true (overwrites_of_all hall) fun k hskip => ?_
    exact absurd hskip.1 (by omega)
  · obtain ⟨S, hS, hmem⟩ := memcpy_middle m hapart (by omega) (by omega)
    rw [hS, overwrite_whole_iff fun k hk => ((hmem k).mp hk).1]
    constructor
    · intro h k hskip
      have hk : k < n := by
        have := hskip.2.2
        have := hskip.1
        omega
      exact h k hk fun hin => ((hmem k).mp hin).2 hskip
    · intro h k hk hnot
      by_contra hdiff
      exact hnot ((hmem k).mpr ⟨hk, fun hskip => hdiff (h k hskip)⟩)

end Copy

/-- A page of ones, and zeros behind it. -/
def onesThenZeros : Mem := fun a => if a < 4096 then 1 else 0

theorem memcpy_exact_words :
    Overwrites onesThenZeros 4096 40 (fun k => onesThenZeros (0 + k))
      (memcpy onesThenZeros 4096 0 40) :=
  (memcpy_exact_iff onesThenZeros (.inl (by decide))).mpr fun k hskip =>
    absurd hskip.2.2 (by
      have hr : (40 - unaligned 4096) % 16 = 8 := by decide
      rw [hr]
      simp)

/-- 19 bytes to an aligned address: the last but one is not copied. -/
theorem memcpy_skips_byte :
    ¬ Overwrites onesThenZeros 4096 19 (fun k => onesThenZeros (0 + k))
      (memcpy onesThenZeros 4096 0 19) := by
  have hapart : 0 + 19 ≤ 4096 ∨ 4096 + 19 ≤ 0 := .inl (by decide)
  obtain ⟨S, hS, hmem⟩ := memcpy_middle onesThenZeros hapart (by decide) (by decide)
  have hskip : copySkips 4096 19 17 := by decide
  have hold : memcpy onesThenZeros 4096 0 19 (4096 + 17) = 0 := by
    rw [hS]
    exact overwrite_of_notMem fun hin => ((hmem 17).mp hin).2 hskip
  intro h
  have hnew := h.1 17 (by decide)
  rw [hold] at hnew
  exact absurd hnew (by decide)

/-! ### Filling -/

section Fill

variable {m : Mem} {dst n k : Nat} {S : Set Nat} {byte : Byte}

/-- The fill with the bytes at the offsets in `S` done. -/
noncomputable abbrev filled (m : Mem) (dst : Nat) (byte : Byte) (S : Set Nat) : Mem :=
  overwrite m dst S fun _ => byte

theorem store64_bytePattern (byte : Byte) : store64 (bytePattern byte) = List.replicate 8 byte := by
  revert byte
  decide +kernel

theorem storeWord_filled :
    storeAt (filled m dst byte S) (dst + k) (store64 (bytePattern byte)) =
      filled m dst byte (S ∪ Set.Ico k (k + 8)) := by
  rw [store64_bytePattern, storeAt_overwrite fun i hi => List.getElem_replicate hi,
    List.length_replicate]

theorem fillWords_filled (words : Nat) :
    fillWords words (bytePattern byte) (filled m dst byte S) (dst + k) =
      filled m dst byte (S ∪ Set.Ico k (k + 8 * words)) := by
  unfold fillWords
  rw [store64_bytePattern]
  exact stores_overwrite words

theorem fillBytes_filled (len : Nat) :
    fillBytes byte (filled m dst byte S) (dst + k) len =
      filled m dst byte (S ∪ Set.Ico k (k + len)) := by
  have h : (List.range len).foldl
      (fun m i => storeAt m (dst + k + 1 * i) (List.replicate 1 byte)) (filled m dst byte S) =
        filled m dst byte (S ∪ Set.Ico k (k + 1 * len)) := stores_overwrite len
  simp only [Nat.one_mul] at h
  exact h

theorem fillLoop_filled {words : Nat} [NeZero words] (len : Nat) :
    ∀ {k : Nat} {S : Set Nat},
      fillLoop words (bytePattern byte) ⟨filled m dst byte S, dst + k, len⟩ =
        ⟨filled m dst byte (S ∪ Set.Ico k (k + (len - len % (8 * words)))),
          dst + (k + (len - len % (8 * words))), len % (8 * words)⟩ := by
  have hwords := NeZero.pos words
  induction len using Nat.strong_induction_on with
  | _ len ih =>
      intro k S
      rw [fillLoop]
      dsimp only
      by_cases hlen : 8 * words ≤ len
      · have hmod : (len - 8 * words) % (8 * words) = len % (8 * words) :=
          (Nat.mod_eq_sub_mod hlen).symm
        have hle := Nat.mod_le (len - 8 * words) (8 * words)
        rw [if_pos hlen, fillWords_filled, Nat.add_assoc, ih _ (by omega), hmod,
          union_Ico (by omega) (by omega)]
        have hend : k + 8 * words + (len - 8 * words - len % (8 * words)) =
            k + (len - len % (8 * words)) := by omega
        rw [hend]
      · rw [if_neg hlen, Nat.mod_eq_of_lt (by omega), Nat.sub_self]
        simp

theorem fillHead_filled (u : Nat) :
    (if 0 < u then FillState.mk (storeAt m dst (store64 (bytePattern byte))) (dst + u) (n - u)
      else ⟨m, dst, n⟩) = ⟨filled m dst byte (headOffsets u), dst + u, n - u⟩ := by
  unfold headOffsets
  by_cases h0 : 0 < u
  · have h : storeAt (filled m dst byte ∅) (dst + 0) (store64 (bytePattern byte)) =
        filled m dst byte (∅ ∪ Set.Ico 0 (0 + 8)) := storeWord_filled
    rw [if_pos h0, if_pos h0]
    congr 1
    simpa using h
  · obtain rfl : u = 0 := by omega
    rw [if_neg h0, if_neg h0]
    congr 1
    exact overwrite_empty.symm

/-- What `memset` writes is what it should, whatever the alignment is. -/
theorem memset_overwrites (m : Mem) (dst : Nat) (c : BitVec 32) (n : Nat) :
    Overwrites m dst n (fun _ => c.setWidth 8) (memset m dst c n) := by
  obtain ⟨byte, hbyte⟩ : ∃ byte : Byte, byte = c.setWidth 8 := ⟨_, rfl⟩
  unfold memset
  dsimp only
  rw [← hbyte]
  by_cases hshort : n < 8
  · rw [if_pos hshort]
    have h : fillBytes byte (filled m dst byte ∅) (dst + 0) n =
        filled m dst byte (∅ ∪ Set.Ico 0 (0 + n)) := fillBytes_filled n
    have hempty : filled m dst byte ∅ = m := overwrite_empty
    rw [hempty, Nat.add_zero] at h
    rw [h]
    refine overwrites_of_all fun k => ?_
    simp
  rw [if_neg hshort]
  have hu := unaligned_lt dst
  obtain ⟨u, hudef⟩ : ∃ u, u = unaligned dst := ⟨_, rfl⟩
  obtain ⟨hmod, hend⟩ := loops_end (show u ≤ n by omega)
  have hle := Nat.mod_le ((n - u) % (8 * 8)) (8 * 2)
  have hle' := Nat.mod_le (n - u) (8 * 8)
  have hSmem : ∀ k, k ∈ headOffsets u ↔ 0 < u ∧ k < 8 := fun _ => mem_headOffsets
  rw [← hudef, fillHead_filled, fillLoop_filled, fillLoop_filled, hmod,
    union_Ico (by omega) (by omega), hend]
  generalize (n - u) % 16 = r at *
  by_cases h8 : 8 ≤ r
  · rw [if_pos h8]
    dsimp only
    rw [storeWord_filled, Nat.add_assoc, fillBytes_filled]
    refine overwrites_of_all fun k => ?_
    simp only [Set.mem_union, Set.mem_Ico, hSmem]
    omega
  · rw [if_neg h8]
    dsimp only
    rw [fillBytes_filled]
    refine overwrites_of_all fun k => ?_
    simp only [Set.mem_union, Set.mem_Ico, hSmem]
    omega

end Fill

/-! ### Comparing -/

section Compare

variable {m : Mem}

def differsAt (m : Mem) (a b i : Nat) : Bool := decide (m (a + i) ≠ m (b + i))

/-- The difference of the first bytes that differ, zero if none of the first `n` do. -/
def byteDifference (m : Mem) (a b n : Nat) : Int :=
  match (List.range n).find? (differsAt m a b) with
  | none => 0
  | some i => (m (a + i)).toNat - (m (b + i)).toNat

theorem compareBytes_none {n : Nat} : ∀ {a b : Nat}, (∀ i, i < n → m (a + i) = m (b + i)) →
    compareBytes m a b n = none := by
  induction n with
  | zero => exact fun _ => rfl
  | succ n ih =>
      intro a b hsame
      have hfirst : m a = m b := hsame 0 (Nat.succ_pos n)
      rw [compareBytes, if_neg (not_not.mpr hfirst)]
      refine ih fun i hi => ?_
      rw [Nat.add_assoc, Nat.add_assoc, Nat.add_comm 1]
      exact hsame (i + 1) (Nat.succ_lt_succ hi)

/-- The bytes behind come into play only if those in front are the same. -/
theorem compareBytes_add (k : Nat) : ∀ {a b : Nat} (n : Nat),
    compareBytes m a b (k + n) = (compareBytes m a b k).or (compareBytes m (a + k) (b + k) n) := by
  induction k with
  | zero =>
      intro a b n
      rw [Nat.zero_add]
      rfl
  | succ k ih =>
      intro a b n
      rw [Nat.succ_add, compareBytes, compareBytes]
      by_cases hdiff : m a ≠ m b
      · rw [if_pos hdiff, if_pos hdiff]
        rfl
      · rw [if_neg hdiff, if_neg hdiff, ih, Nat.add_assoc, Nat.add_assoc, Nat.add_comm 1]

theorem compareBytes_eq (n : Nat) : ∀ {a b : Nat},
    (compareBytes m a b n).getD 0 = byteDifference m a b n := by
  induction n with
  | zero => exact rfl
  | succ n ih =>
      intro a b
      unfold byteDifference
      rw [compareBytes, List.range_succ_eq_map]
      by_cases hdiff : m a ≠ m b
      · have hfound : differsAt m a b 0 = true := decide_eq_true hdiff
        rw [if_pos hdiff, List.find?_cons_of_pos hfound]
        rfl
      · have hnot : ¬ differsAt m a b 0 = true := fun h => hdiff (of_decide_eq_true h)
        have hshift : differsAt m a b ∘ Nat.succ = differsAt m (a + 1) (b + 1) := by
          funext i
          unfold differsAt
          rw [Nat.add_assoc, Nat.add_assoc, Nat.add_comm 1]
          rfl
        rw [if_neg hdiff, ih, List.find?_cons_of_neg hnot, List.find?_map, hshift]
        unfold byteDifference
        cases (List.range n).find? (differsAt m (a + 1) (b + 1)) with
        | none => rfl
        | some i => simp only [Option.map_some, Nat.succ_eq_add_one, Nat.add_assoc, Nat.add_comm 1]

theorem memcmp_eq (n : Nat) : ∀ {a b : Nat}, memcmp m a b n = kutilMemcmp m a b n := by
  induction n using Nat.strong_induction_on with
  | _ n ih =>
      intro a b
      rw [memcmp]
      by_cases hn : 8 ≤ n
      · rw [if_pos hn, ih (n - 8) (by omega)]
        have hwords : compareWords m a b = compareBytes m a b 8 := by
          unfold compareWords
          by_cases hdiff : load64 m a ≠ load64 m b
          · rw [if_pos hdiff]
          · rw [if_neg hdiff]
            exact (compareBytes_none fun i hi => load64_inj (not_not.mp hdiff) hi).symm
        obtain ⟨k, rfl⟩ := Nat.exists_eq_add_of_le hn
        unfold kutilMemcmp
        rw [hwords, compareBytes_add, Nat.add_sub_cancel_left]
        cases compareBytes m a b 8 with
        | none => rfl
        | some r => rfl
      · rw [if_neg hn]
        rfl

end Compare

/--
**`memset` and `memcmp` are their bytewise definitions.**  A fill writes the low byte of the value
to all bytes of the buffer and to no other, at every alignment; a comparison has the sign of the
first difference, and the very value that the bytewise loop has.
-/
theorem memset_memcmp_bytewise :
    (∀ (m : Mem) (dst : Nat) (c : BitVec 32) (n : Nat),
      Overwrites m dst n (fun _ => c.setWidth 8) (memset m dst c n)) ∧
    ∀ (m : Mem) (a b n : Nat), (memcmp m a b n).sign = (byteDifference m a b n).sign ∧
      memcmp m a b n = kutilMemcmp m a b n := by
  refine ⟨memset_overwrites, fun m a b n => ⟨?_, memcmp_eq n⟩⟩
  rw [memcmp_eq, kutilMemcmp, compareBytes_eq]

end BrightS
