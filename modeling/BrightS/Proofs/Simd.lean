/-
When the routines with vector instructions do what they are for.

All of them take the rest from a length that the vector loop has already reduced, so the rest is
looked for at the start of the data.  Without vectors the rest of a short length is everything,
and that of a longer one leaves out the start.
-/
import BrightS.Kernel.Simd
import BrightS.Proofs.Runtime

namespace BrightS

open Bytes Crc

/-! ### What the routines are for -/

def CopiesExactly (copy : Mem → Nat → Nat → Nat → Mem) (n : Nat) : Prop :=
  ∀ m dst src, src + n ≤ dst ∨ dst + n ≤ src →
    Overwrites m dst n (fun k => m (src + k)) (copy m dst src n)

def FillsExactly (fill : Mem → Nat → BitVec 32 → Nat → Mem) (n : Nat) : Prop :=
  ∀ m dst c, Overwrites m dst n (fun _ => c.setWidth 8) (fill m dst c n)

def ComparesBytes (compare : Mem → Nat → Nat → Nat → Int) (n : Nat) : Prop :=
  ∀ m a b, (compare m a b n).sign = (byteDifference m a b n).sign

def AddsNumbers (add : (Nat → BitVec 32) → (Nat → BitVec 32) → (Nat → BitVec 32) → Nat →
    Nat → BitVec 32) (n : Nat) : Prop :=
  ∀ dst a b, add dst a b n = fun j => if j < n then a j + b j else dst j

def crc32 (data : List Byte) : Remainder := crcBytes crcPoly 0xFFFFFFFF data ^^^ 0xFFFFFFFF

/-- The functions for the rest, as they are documented. -/
structure KernelMem.Standard (kernel : KernelMem) : Prop where
  copies : ∀ n, CopiesExactly kernel.memcpy n
  fills : ∀ m dst byte n, Overwrites m dst n (fun _ => byte) (kernel.memset m dst byte n)
  compares : ∀ n, ComparesBytes kernel.memcmp n

variable (build : SimdBuild) (caps : SimdCaps)

abbrev SimdBuild.usesAvx : Bool := build.avx && caps.hasAvx

abbrev SimdBuild.usesSse2 : Bool := build.sse2 && caps.hasSse2

abbrev SimdBuild.usesAvx2 : Bool := build.avx2 && caps.hasAvx2

abbrev SimdBuild.usesSse41 : Bool := build.sse41 && caps.hasSse41

/-- The length of the vectors that a routine on `n` bytes begins with. -/
def byteVectors (n : Nat) : Option Nat :=
  if build.usesAvx caps = true ∧ 32 ≤ n then some 32
  else if build.usesSse2 caps = true ∧ 16 ≤ n then some 16
  else none

/-- Nothing is left for the rest, or the rest is everything. -/
def NoTail (short : Nat) (vectors : Option Nat) (n : Nat) : Prop :=
  match vectors with
  | some w => n % w = 0
  | none => n < short

variable {build caps} {kernel : KernelMem} {n : Nat}

/-! ### Copying -/

section Copy

variable {m : Mem} {dst src : Nat}

/-- A copy that leaves a byte as it was is not exact. -/
theorem not_copiesExactly {copy : Mem → Nat → Nat → Nat → Mem} {k : Nat} (hk : k < n)
    (hkeeps : ∀ m dst src, src + n ≤ dst ∨ dst + n ≤ src →
      copy m dst src n (dst + k) = m (dst + k)) : ¬ CopiesExactly copy n := by
  intro h
  have hapart : 0 + n ≤ n ∨ n + n ≤ 0 := .inl (by omega)
  have hnew := (h (fun a => if a < n then 1 else 0) n 0 hapart).1 k hk
  rw [hkeeps _ _ _ hapart, if_neg (by omega)] at hnew
  dsimp only at hnew
  rw [if_pos (by omega)] at hnew
  exact absurd hnew (by decide)

theorem kernel_copied (hkernel : kernel.Standard) (hapart : src + n ≤ dst ∨ dst + n ≤ src)
    {S : Set Nat} (hS : ∀ i ∈ S, i < n) {k len : Nat} (hk : k + len ≤ n) :
    kernel.memcpy (copied m dst src S) (dst + k) (src + k) len =
      copied m dst src (S ∪ Set.Ico k (k + len)) := by
  have hmove : Overwrites (copied m dst src S) (dst + k) len
      (fun i => copied m dst src S (src + k + i)) (moveBytes len (copied m dst src S) (dst + k)
        (src + k)) := by
    refine ⟨fun i hi => ?_, fun a ha => storeAt_outside ?_⟩
    · unfold moveBytes
      rw [holds_storeAt _ _ _ i (by rw [length_slice]; exact hi), getElem_slice]
    · rw [length_slice]
      exact ha
  have hkernel := hkernel.copies len (copied m dst src S) (dst + k) (src + k) (by omega)
  rw [hkernel.unique hmove]
  exact moveBytes_overwrite hS hapart hk

theorem Ico_union_Ico_of_le {a b : Nat} (hb : b ≤ a) :
    Set.Ico 0 a ∪ Set.Ico 0 b = Set.Ico 0 a :=
  Set.union_eq_left.mpr (Set.Ico_subset_Ico_right hb)

theorem copyVectors_first (hapart : src + n ≤ dst ∨ dst + n ≤ src) {w blocks : Nat}
    (hlen : w * blocks ≤ n) :
    copyVectors w blocks m dst src = copied m dst src (Set.Ico 0 (w * blocks)) := by
  have h : copyVectors w blocks (copied m dst src ∅) (dst + 0) (src + 0) =
      copied m dst src (∅ ∪ Set.Ico 0 (0 + w * blocks)) :=
    moves_overwrite hapart (by simp) (by omega)
  have hempty : copied m dst src ∅ = m := overwrite_empty
  rw [hempty] at h
  simpa using h

/-- Bytes copied before are copied once more. -/
theorem copyVectors_again (hapart : src + n ≤ dst ∨ dst + n ≤ src) {done w blocks : Nat}
    (hdone : done ≤ n) (hlen : w * blocks ≤ done) :
    copyVectors w blocks (copied m dst src (Set.Ico 0 done)) dst src =
      copied m dst src (Set.Ico 0 done) := by
  have h : copyVectors w blocks (copied m dst src (Set.Ico 0 done)) (dst + 0) (src + 0) =
      copied m dst src (Set.Ico 0 done ∪ Set.Ico 0 (0 + w * blocks)) :=
    moves_overwrite hapart (fun _ hi => lt_of_lt_of_le hi.2 hdone) (by omega)
  rw [Nat.zero_add, Ico_union_Ico_of_le hlen] at h
  exact h

theorem kernel_again (hkernel : kernel.Standard) (hapart : src + n ≤ dst ∨ dst + n ≤ src)
    {done len : Nat} (hdone : done ≤ n) (hlen : len ≤ done) :
    kernel.memcpy (copied m dst src (Set.Ico 0 done)) dst src len =
      copied m dst src (Set.Ico 0 done) := by
  have h := kernel_copied (k := 0) (m := m) hkernel hapart
    (fun i (hi : i ∈ Set.Ico 0 done) => lt_of_lt_of_le hi.2 hdone) (by omega : 0 + len ≤ n)
  rw [Nat.zero_add, Ico_union_Ico_of_le hlen] at h
  exact h

/-- The rest of a reduced length is copied from the start of the data. -/
theorem copyRest_again (hkernel : kernel.Standard) (hapart : src + n ≤ dst ∨ dst + n ≤ src)
    {done len : Nat} (hdone : done ≤ n) (hlen : len ≤ done) (hshort : len < 32) :
    (if 0 < len then
      kernel.memcpy (copied m dst src (Set.Ico 0 done)) (dst + (len - len % 32))
        (src + (len - len % 32)) len
      else copied m dst src (Set.Ico 0 done)) = copied m dst src (Set.Ico 0 done) := by
  rw [Nat.mod_eq_of_lt hshort, Nat.sub_self]
  split_ifs
  · exact kernel_again hkernel hapart hdone hlen
  · rfl

/-- With vectors, their bytes are copied and no others. -/
theorem simdMemcpy_vectors (hkernel : kernel.Standard) (hapart : src + n ≤ dst ∨ dst + n ≤ src)
    {w : Nat} (hw : byteVectors build caps n = some w) :
    simdMemcpy build caps kernel m dst src n = copied m dst src (Set.Ico 0 (w * (n / w))) := by
  unfold byteVectors at hw
  unfold simdMemcpy
  by_cases havx : build.usesAvx caps = true ∧ 32 ≤ n
  · rw [if_pos havx] at hw ⊢
    obtain rfl := Option.some.inj hw
    have hlen := Nat.div_add_mod n 32
    have hmod := Nat.mod_lt n (show 0 < 32 by decide)
    dsimp only
    have hfirst : copyVectors 32 (n / 32) m dst src =
        copied m dst src (Set.Ico 0 (32 * (n / 32))) := copyVectors_first hapart (by omega)
    rw [hfirst]
    by_cases hsse : build.usesSse2 caps = true ∧ 16 ≤ n % 32
    · rw [if_pos hsse]
      dsimp only
      rw [copyVectors_again hapart (by omega) (by omega)]
      exact copyRest_again hkernel hapart (by omega) (by omega) (by omega)
    · rw [if_neg hsse]
      exact copyRest_again hkernel hapart (by omega) (by omega) hmod
  · rw [if_neg havx] at hw ⊢
    dsimp only
    by_cases hsse : build.usesSse2 caps = true ∧ 16 ≤ n
    · rw [if_pos hsse] at hw ⊢
      obtain rfl := Option.some.inj hw
      have hlen := Nat.div_add_mod n 16
      dsimp only
      rw [copyVectors_first hapart (by omega)]
      exact copyRest_again hkernel hapart (by omega) (by omega) (by omega)
    · rw [if_neg hsse] at hw
      exact absurd hw (by simp)

/-- Without vectors, all is left to the kernel. -/
theorem simdMemcpy_rest (hnone : byteVectors build caps n = none) :
    simdMemcpy build caps kernel m dst src n =
      if 0 < n then kernel.memcpy m (dst + (n - n % 32)) (src + (n - n % 32)) n else m := by
  unfold byteVectors at hnone
  unfold simdMemcpy
  by_cases havx : build.usesAvx caps = true ∧ 32 ≤ n
  · rw [if_pos havx] at hnone
    exact absurd hnone (by simp)
  rw [if_neg havx] at hnone ⊢
  dsimp only
  by_cases hsse : build.usesSse2 caps = true ∧ 16 ≤ n
  · rw [if_pos hsse] at hnone
    exact absurd hnone (by simp)
  rw [if_neg hsse]

theorem simdMemcpy_iff (hkernel : kernel.Standard) :
    CopiesExactly (simdMemcpy build caps kernel) n ↔ NoTail 32 (byteVectors build caps n) n := by
  cases hvectors : byteVectors build caps n with
  | some w =>
      have hlen := Nat.div_add_mod n w
      constructor
      · intro h
        by_contra htail
        have htail : n % w ≠ 0 := htail
        refine not_copiesExactly (k := n - 1) (by omega) (fun m dst src hapart => ?_) h
        rw [simdMemcpy_vectors hkernel hapart hvectors]
        refine overwrite_of_notMem fun hin => ?_
        have := hin.2
        omega
      · intro htail m dst src hapart
        have htail : n % w = 0 := htail
        rw [simdMemcpy_vectors hkernel hapart hvectors]
        refine overwrites_of_all fun k => ?_
        rw [Set.mem_Ico]
        omega
  | none =>
      constructor
      · intro h
        by_contra hlong
        have hlong : ¬ n < 32 := hlong
        refine not_copiesExactly (k := 0) (by omega) (fun m dst src hapart => ?_) h
        rw [simdMemcpy_rest hvectors, if_pos (by omega)]
        exact (hkernel.copies n m _ _ (by omega)).2 _ (.inl (by omega))
      · intro hshort m dst src hapart
        have hshort : n < 32 := hshort
        rw [simdMemcpy_rest hvectors, Nat.mod_eq_of_lt hshort, Nat.sub_self]
        split_ifs with h0
        · exact hkernel.copies n m dst src hapart
        · obtain rfl : n = 0 := by omega
          exact ⟨fun k hk => absurd hk (Nat.not_lt_zero k), fun _ _ => rfl⟩

end Copy

/-! ### Filling -/

section Fill

variable {m : Mem} {dst : Nat} {byte : Byte} {S : Set Nat}

theorem not_fillsExactly {fill : Mem → Nat → BitVec 32 → Nat → Mem} {k : Nat} (hk : k < n)
    (hkeeps : ∀ m dst c, fill m dst c n (dst + k) = m (dst + k)) : ¬ FillsExactly fill n := by
  intro h
  have hnew := (h (fun _ => 0) 0 1).1 k hk
  rw [hkeeps] at hnew
  have hbyte : (0 : Byte) = BitVec.setWidth 8 (1 : BitVec 32) := hnew
  exact absurd hbyte (by decide)

theorem kernel_filled (hkernel : kernel.Standard) {k len : Nat} :
    kernel.memset (filled m dst byte S) (dst + k) byte len =
      filled m dst byte (S ∪ Set.Ico k (k + len)) := by
  have hstore : Overwrites (filled m dst byte S) (dst + k) len (fun _ => byte)
      (storeAt (filled m dst byte S) (dst + k) (List.replicate len byte)) := by
    refine ⟨fun i hi => ?_, fun a ha => storeAt_outside ?_⟩
    · rw [holds_storeAt _ _ _ i (by rw [List.length_replicate]; exact hi), List.getElem_replicate]
    · rw [List.length_replicate]
      exact ha
  rw [(hkernel.fills _ _ _ _).unique hstore,
    storeAt_overwrite fun i hi => List.getElem_replicate hi, List.length_replicate]

/-- The rest of a reduced length begins at its last multiple of four. -/
theorem fillRest_filled (hkernel : kernel.Standard) (len : Nat) :
    (if 0 < len then kernel.memset (filled m dst byte S) (dst + (len - len % 4)) byte len
      else filled m dst byte S) =
      filled m dst byte (S ∪ Set.Ico (len - len % 4) (len - len % 4 + len)) := by
  by_cases h0 : 0 < len
  · rw [if_pos h0, kernel_filled hkernel]
  · obtain rfl : len = 0 := by omega
    simp

theorem fillVectors_filled {w blocks : Nat} :
    fillVectors w blocks byte (filled m dst byte S) dst =
      filled m dst byte (S ∪ Set.Ico 0 (w * blocks)) := by
  have h : fillVectors w blocks byte (filled m dst byte S) (dst + 0) =
      filled m dst byte (S ∪ Set.Ico 0 (0 + w * blocks)) := stores_overwrite blocks
  rw [Nat.zero_add] at h
  exact h

theorem fillVectors_first {w blocks : Nat} :
    fillVectors w blocks byte m dst = filled m dst byte (Set.Ico 0 (w * blocks)) := by
  have h : fillVectors w blocks byte (filled m dst byte ∅) dst =
      filled m dst byte (∅ ∪ Set.Ico 0 (w * blocks)) := fillVectors_filled
  have hempty : filled m dst byte ∅ = m := overwrite_empty
  rw [hempty, Set.empty_union] at h
  exact h

/-- With vectors, their bytes are filled; the rest never reaches the end. -/
theorem simdMemset_vectors (hkernel : kernel.Standard) (c : BitVec 32) {w : Nat}
    (hw : byteVectors build caps n = some w) :
    ∃ S : Set Nat, simdMemset build caps kernel m dst c n = filled m dst (c.setWidth 8) S ∧
      (∀ k ∈ S, k < n) ∧ (∀ k, k < w * (n / w) → k ∈ S) ∧ (n % w ≠ 0 → n - 1 ∉ S) := by
  unfold byteVectors at hw
  unfold simdMemset
  dsimp only
  by_cases havx : build.usesAvx caps = true ∧ 32 ≤ n
  · rw [if_pos havx] at hw ⊢
    obtain rfl := Option.some.inj hw
    have hlen := Nat.div_add_mod n 32
    have hmod := Nat.mod_lt n (show 0 < 32 by decide)
    dsimp only
    rw [fillVectors_first]
    by_cases hsse : build.usesSse2 caps = true ∧ 16 ≤ n % 32
    · rw [if_pos hsse]
      dsimp only
      rw [fillVectors_filled, fillRest_filled hkernel]
      refine ⟨_, rfl, fun k hk => ?_, fun k hk => ?_, fun hr hin => ?_⟩
      · simp only [Set.mem_union, Set.mem_Ico] at hk
        omega
      · simp only [Set.mem_union, Set.mem_Ico]
        omega
      · simp only [Set.mem_union, Set.mem_Ico] at hin
        omega
    · rw [if_neg hsse]
      dsimp only
      rw [fillRest_filled hkernel]
      refine ⟨_, rfl, fun k hk => ?_, fun k hk => ?_, fun hr hin => ?_⟩
      · simp only [Set.mem_union, Set.mem_Ico] at hk
        omega
      · simp only [Set.mem_union, Set.mem_Ico]
        omega
      · simp only [Set.mem_union, Set.mem_Ico] at hin
        omega
  · rw [if_neg havx] at hw ⊢
    dsimp only
    by_cases hsse : build.usesSse2 caps = true ∧ 16 ≤ n
    · rw [if_pos hsse] at hw ⊢
      obtain rfl := Option.some.inj hw
      have hlen := Nat.div_add_mod n 16
      dsimp only
      rw [fillVectors_first, fillRest_filled hkernel]
      refine ⟨_, rfl, fun k hk => ?_, fun k hk => ?_, fun hr hin => ?_⟩
      · simp only [Set.mem_union, Set.mem_Ico] at hk
        omega
      · simp only [Set.mem_union, Set.mem_Ico]
        omega
      · simp only [Set.mem_union, Set.mem_Ico] at hin
        omega
    · rw [if_neg hsse] at hw
      exact absurd hw (by simp)

theorem simdMemset_rest (hnone : byteVectors build caps n = none) (c : BitVec 32) :
    simdMemset build caps kernel m dst c n =
      if 0 < n then kernel.memset m (dst + (n - n % 4)) (c.setWidth 8) n else m := by
  unfold byteVectors at hnone
  unfold simdMemset
  dsimp only
  by_cases havx : build.usesAvx caps = true ∧ 32 ≤ n
  · rw [if_pos havx] at hnone
    exact absurd hnone (by simp)
  rw [if_neg havx] at hnone ⊢
  dsimp only
  by_cases hsse : build.usesSse2 caps = true ∧ 16 ≤ n
  · rw [if_pos hsse] at hnone
    exact absurd hnone (by simp)
  rw [if_neg hsse]

theorem simdMemset_iff (hkernel : kernel.Standard) :
    FillsExactly (simdMemset build caps kernel) n ↔ NoTail 4 (byteVectors build caps n) n := by
  cases hvectors : byteVectors build caps n with
  | some w =>
      have hlen := Nat.div_add_mod n w
      constructor
      · intro h
        by_contra htail
        have htail : n % w ≠ 0 := htail
        refine not_fillsExactly (k := n - 1) (by omega) (fun m dst c => ?_) h
        obtain ⟨S, hS, -, -, hlast⟩ := simdMemset_vectors (m := m) hkernel c hvectors
        rw [hS]
        exact overwrite_of_notMem (hlast htail)
      · intro htail m dst c
        have htail : n % w = 0 := htail
        obtain ⟨S, hS, hlt, hall, -⟩ := simdMemset_vectors hkernel c hvectors
        rw [hS]
        exact overwrites_of_all fun k => ⟨hlt k, fun hk => hall k (by omega)⟩
  | none =>
      constructor
      · intro h
        by_contra hlong
        have hlong : ¬ n < 4 := hlong
        refine not_fillsExactly (k := 0) (by omega) (fun m dst c => ?_) h
        rw [simdMemset_rest hvectors, if_pos (by omega)]
        exact (hkernel.fills _ _ _ _).2 _ (.inl (by omega))
      · intro hshort m dst c
        have hshort : n < 4 := hshort
        rw [simdMemset_rest hvectors, Nat.mod_eq_of_lt hshort, Nat.sub_self]
        split_ifs with h0
        · exact hkernel.fills m dst _ n
        · obtain rfl : n = 0 := by omega
          exact ⟨fun k hk => absurd hk (Nat.not_lt_zero k), fun _ _ => rfl⟩

end Fill

/-! ### Comparing -/

section Compare

variable {m : Mem} {a b : Nat}

theorem byteDifference_same (hsame : ∀ i, i < n → m (a + i) = m (b + i)) :
    byteDifference m a b n = 0 := by
  rw [← compareBytes_eq, compareBytes_none hsame]
  rfl

theorem compareVectors_eq (blocks : Nat) : ∀ {a b : Nat},
    compareVectors m a b blocks = compareBytes m a b (32 * blocks) := by
  induction blocks with
  | zero => exact rfl
  | succ blocks ih =>
      intro a b
      rw [compareVectors, ih, Nat.mul_succ, Nat.add_comm (32 * blocks), compareBytes_add]

/-- With vectors, the rest that is compared is the start of the data once more. -/
theorem simdMemcmp_iff (hkernel : kernel.Standard) :
    ComparesBytes (simdMemcmp build caps kernel) n ↔
      (build.usesAvx caps = true ∧ 32 ≤ n → n % 32 = 0) := by
  by_cases havx : build.usesAvx caps = true ∧ 32 ≤ n
  · have hvectors : ∀ m a b, simdMemcmp build caps kernel m a b n =
        (compareBytes m a b (32 * (n / 32))).getD (kernel.memcmp m a b (n % 32)) := by
      intro m a b
      unfold simdMemcmp
      rw [if_pos havx, compareVectors_eq]
    have hlen := Nat.div_add_mod n 32
    constructor
    · intro h _
      by_contra htail
      -- Data that differ in the last byte.
      obtain ⟨m, hm⟩ : ∃ m : Mem, m = fun a => if a = n - 1 then 1 else 0 := ⟨_, rfl⟩
      have hsame : ∀ i, i < n - 1 → m (0 + i) = m (n + i) := by
        intro i hi
        rw [hm]
        dsimp only
        rw [if_neg (by omega), if_neg (by omega)]
      have hfull : byteDifference m 0 n n = 1 := by
        have hn : n = n - 1 + 1 := by omega
        have hlast : m (0 + (n - 1)) = 1 ∧ m (n + (n - 1)) = 0 := by
          rw [hm]
          dsimp only
          rw [if_pos (by omega), if_neg (by omega)]
          exact ⟨rfl, rfl⟩
        rw [← compareBytes_eq]
        conv => lhs; arg 1; arg 4; rw [hn]
        rw [compareBytes_add, compareBytes_none hsame, Option.none_or, compareBytes, hlast.1,
          hlast.2, if_pos (by decide)]
        rfl
      have hnew := h m 0 n
      rw [hvectors, compareBytes_none fun i hi => hsame i (by omega), Option.getD_none,
        hkernel.compares, byteDifference_same fun i hi => hsame i (by omega), hfull] at hnew
      exact absurd hnew (by decide)
    · intro htail m a b
      have hr := htail havx
      have hwhole : 32 * (n / 32) = n := by omega
      rw [hvectors, hr, hwhole]
      cases hfirst : compareBytes m a b n with
      | some r => rw [← compareBytes_eq, hfirst]; rfl
      | none =>
          rw [← compareBytes_eq, hfirst, Option.getD_none, hkernel.compares]
          rfl
  · refine iff_of_true (fun m a b => ?_) fun h => absurd h havx
    unfold simdMemcmp
    rw [if_neg havx]
    exact hkernel.compares n m a b

end Compare

/-! ### Addition -/

section Add

variable {dst a b : Nat → BitVec 32}

theorem addVectors_apply (blocks j : Nat) :
    addVectors blocks dst a b j = if j < 8 * blocks then a j + b j else dst j := by
  induction blocks with
  | zero => rfl
  | succ blocks ih =>
      unfold addVectors at ih ⊢
      rw [List.range_succ, List.foldl_append, List.foldl_cons, List.foldl_nil, ih]
      by_cases hin : 8 * blocks ≤ j ∧ j < 8 * blocks + 8
      · rw [if_pos hin, if_pos (by omega)]
      · rw [if_neg hin]
        exact if_congr (by omega) rfl rfl

theorem addRest_apply (len j : Nat) :
    addRest dst a b len j = if len - len % 4 ≤ j ∧ j < len then a j + b j else dst j := by
  have hloop : ∀ start count, (List.range' start count).foldl
      (fun dst i => Function.update dst i (a i + b i)) dst j =
        if start ≤ j ∧ j < start + count then a j + b j else dst j := by
    intro start count
    induction count with
    | zero => exact (if_neg (by omega)).symm
    | succ count ih =>
        rw [List.range'_concat, List.foldl_append, List.foldl_cons, List.foldl_nil, Nat.one_mul]
        by_cases hj : j = start + count
        · subst hj
          rw [Function.update_self, if_pos (by omega)]
        · rw [Function.update_of_ne hj, ih]
          exact if_congr (by omega) rfl rfl
  unfold addRest
  rw [hloop]
  have := Nat.mod_le len 4
  exact if_congr (by omega) rfl rfl

/-- A number that is not added. -/
theorem not_addsNumbers {k : Nat} (hk : k < n)
    (hkeeps : ∀ dst a b, simdVecAddI32 build caps dst a b n k = dst k) :
    ¬ AddsNumbers (simdVecAddI32 build caps) n := by
  intro h
  have hnew := congrFun (h (fun _ => 0) (fun _ => 1) fun _ => 0) k
  rw [hkeeps, if_pos hk] at hnew
  exact absurd hnew (by decide)

theorem simdVecAddI32_iff :
    AddsNumbers (simdVecAddI32 build caps) n ↔
      NoTail 4 (if build.usesAvx2 caps = true ∧ 8 ≤ n then some 8 else none) n := by
  by_cases havx : build.usesAvx2 caps = true ∧ 8 ≤ n
  · have hvectors : ∀ dst a b j, simdVecAddI32 build caps dst a b n j =
        if j < 8 * (n / 8) then a j + b j else dst j := by
      intro dst a b j
      unfold simdVecAddI32
      rw [if_pos havx, addRest_apply, addVectors_apply]
      by_cases hin : n % 8 - n % 8 % 4 ≤ j ∧ j < n % 8
      · rw [if_pos hin, if_pos (by omega)]
      · rw [if_neg hin]
    have hlen := Nat.div_add_mod n 8
    rw [if_pos havx]
    constructor
    · intro h
      by_contra htail
      have htail : n % 8 ≠ 0 := htail
      refine not_addsNumbers (k := n - 1) (by omega) (fun dst a b => ?_) h
      rw [hvectors, if_neg (by omega)]
    · intro htail dst a b
      have htail : n % 8 = 0 := htail
      funext j
      rw [hvectors]
      exact if_congr (by omega) rfl rfl
  · have hrest : ∀ dst a b, simdVecAddI32 build caps dst a b n = addRest dst a b n :=
      fun dst a b => if_neg havx
    rw [if_neg havx]
    constructor
    · intro h
      by_contra hlong
      have hlong : ¬ n < 4 := hlong
      refine not_addsNumbers (k := 0) (by omega) (fun dst a b => ?_) h
      rw [hrest, addRest_apply, if_neg (by omega)]
    · intro hshort dst a b
      have hshort : n < 4 := hshort
      funext j
      rw [hrest, addRest_apply]
      exact if_congr (by omega) rfl rfl

end Add

/-! ### Checksum -/

section Checksum

theorem crc32_inj_at {before behind : List Byte} {b b' : Byte}
    (h : crc32 (before ++ b :: behind) = crc32 (before ++ b' :: behind)) : b = b' :=
  crcBytes_injective_at (by decide) 0xFFFFFFFF ((BitVec.xor_left_inj _).mp h)

/-- A byte that is not looked at. -/
theorem not_checksum {before behind : List Byte}
    (hblind : simdCrc32 build caps (before ++ 0 :: behind) =
      simdCrc32 build caps (before ++ 1 :: behind)) :
    ¬ ∀ data : List Byte, data.length = (before ++ (0 : Byte) :: behind).length →
      simdCrc32 build caps data = crc32 data := by
  intro h
  rw [h _ rfl, h _ (by simp)] at hblind
  exact absurd (crc32_inj_at hblind) (by decide)

/-- The last byte of data, with its top bit flipped, makes all the difference: the polynomial. -/
theorem crcBytes_flip (poly crc : Remainder) (data : List Byte) :
    crcBytes poly crc (data ++ [0x80]) =
      crcBytes poly crc (data ++ [0]) ^^^ crcByte poly 0 0x80 := by
  unfold crcBytes
  rw [List.foldl_append, List.foldl_append, List.foldl_cons, List.foldl_cons, List.foldl_nil,
    List.foldl_nil, ← crcByte_xor]
  rfl

theorem simdCrc32_iff :
    (∀ data : List Byte, data.length = n → simdCrc32 build caps data = crc32 data) ↔
      ¬ (build.usesSse41 caps = true ∧ 16 ≤ n) ∧ n < 4 := by
  by_cases hsse : build.usesSse41 caps = true ∧ 16 ≤ n
  · have hvectors : ∀ data : List Byte, data.length = n → simdCrc32 build caps data =
        crcBytes crcPoly (crcBytes crc32cPoly 0xFFFFFFFF (data.take (8 * (n / 8))))
          ((data.take (n % 8)).drop (n % 8 - n % 8 % 4)) ^^^ 0xFFFFFFFF := by
      rintro data rfl
      unfold simdCrc32
      dsimp only
      rw [if_pos hsse]
    refine iff_of_false (fun h => ?_) fun h => h.1 hsse
    have hlen := Nat.div_add_mod n 8
    by_cases htail : n % 8 = 0
    · -- All bytes are looked at, with the other polynomial.
      have hall : ∀ b : Byte, crcBytes crc32cPoly 0xFFFFFFFF (List.replicate (n - 1) 0 ++ [b]) =
          crcBytes crcPoly 0xFFFFFFFF (List.replicate (n - 1) 0 ++ [b]) := by
        intro b
        have hlength : (List.replicate (n - 1) 0 ++ [b]).length = n := by
          simp
          omega
        have hsame := h _ hlength
        rw [hvectors _ hlength, htail, List.take_of_length_le (by omega)] at hsame
        exact (BitVec.xor_left_inj _).mp hsame
      have hflip := hall 0x80
      rw [crcBytes_flip, crcBytes_flip, hall 0, BitVec.xor_right_inj] at hflip
      exact absurd hflip (by decide)
    · have hshow : (List.replicate (n - 1) 0 ++ [(0 : Byte)]).length = n := by
        simp
        omega
      refine not_checksum ?_ fun data hlength => h data (hlength.trans hshow)
      rw [hvectors _ hshow, hvectors _ (by simpa using hshow),
        List.take_append_of_le_length (by simp; omega),
        List.take_append_of_le_length (by simp; omega),
        List.take_append_of_le_length (by simp; omega),
        List.take_append_of_le_length (by simp; omega)]
  · have hrest : ∀ data : List Byte, data.length = n → simdCrc32 build caps data =
        crcBytes crcPoly 0xFFFFFFFF (data.drop (n - n % 4)) ^^^ 0xFFFFFFFF := by
      rintro data rfl
      unfold simdCrc32
      dsimp only
      rw [if_neg hsse, List.take_length]
    constructor
    · intro h
      refine ⟨hsse, ?_⟩
      by_contra hlong
      have hshow : (([] : List Byte) ++ (0 : Byte) :: List.replicate (n - 1) 0).length = n := by
        simp
        omega
      have hdrop : n - n % 4 = n - n % 4 - 1 + 1 := by omega
      refine not_checksum ?_ fun data hlength => h data (hlength.trans hshow)
      rw [hrest _ hshow, hrest _ (by simpa using hshow), hdrop]
      rfl
    · rintro ⟨-, hshort⟩ data hlength
      rw [hrest data hlength, Nat.mod_eq_of_lt hshort, Nat.sub_self, List.drop_zero]
      rfl

end Checksum

/--
**When the vector routines equal their scalar definitions.**  For every choice of instructions:
copies, fills and additions exactly if nothing is left behind the vectors, or if there are none
and the rest is everything; comparisons exactly if nothing is left behind the vectors; and
checksums exactly for less than four bytes.
-/
theorem simd_scalar_iff (hkernel : kernel.Standard) (n : Nat) :
    (CopiesExactly (simdMemcpy build caps kernel) n ↔
      NoTail 32 (byteVectors build caps n) n) ∧
    (FillsExactly (simdMemset build caps kernel) n ↔
      NoTail 4 (byteVectors build caps n) n) ∧
    (ComparesBytes (simdMemcmp build caps kernel) n ↔
      (build.usesAvx caps = true ∧ 32 ≤ n → n % 32 = 0)) ∧
    (AddsNumbers (simdVecAddI32 build caps) n ↔
      NoTail 4 (if build.usesAvx2 caps = true ∧ 8 ≤ n then some 8 else none) n) ∧
    ((∀ data : List Byte, data.length = n → simdCrc32 build caps data = crc32 data) ↔
      ¬ (build.usesSse41 caps = true ∧ 16 ≤ n) ∧ n < 4) :=
  ⟨simdMemcpy_iff hkernel, simdMemset_iff hkernel, simdMemcmp_iff hkernel, simdVecAddI32_iff,
    simdCrc32_iff⟩

def allVectors : SimdBuild := { sse2 := true, sse41 := true, avx := true, avx2 := true }

def allCaps : SimdCaps := { hasSse2 := true, hasSse41 := true, hasAvx := true, hasAvx2 := true }

def noCaps : SimdCaps := { hasSse2 := false, hasSse41 := false, hasAvx := false, hasAvx2 := false }

/-- The functions for the rest, byte by byte. -/
def bytewiseKernel : KernelMem where
  memcpy := copyBytes
  memset := fun m d byte n => fillBytes byte m d n
  memcmp := kutilMemcmp

theorem bytewiseKernel_standard : bytewiseKernel.Standard where
  copies := fun _ _ _ _ hapart =>
    ⟨fun _ hk => copyBytes_copied hapart hk, fun _ ha => copyBytes_outside ha⟩
  fills := by
    intro m dst byte n
    have h : fillBytes byte (filled m dst byte ∅) (dst + 0) n =
        filled m dst byte (∅ ∪ Set.Ico 0 (0 + n)) := fillBytes_filled n
    have hempty : filled m dst byte ∅ = m := overwrite_empty
    rw [hempty, Nat.add_zero] at h
    show Overwrites m dst n (fun _ => byte) (fillBytes byte m dst n)
    rw [h]
    exact overwrites_of_all fun k => by simp
  compares := by
    intro n m a b
    show (kutilMemcmp m a b n).sign = _
    rw [kutilMemcmp, compareBytes_eq]

/-- Two vectors of 32 bytes: all is well but the checksum. -/
theorem simd_scalar_two_vectors :
    CopiesExactly (simdMemcpy allVectors allCaps bytewiseKernel) 64 ∧
    FillsExactly (simdMemset allVectors allCaps bytewiseKernel) 64 ∧
    ComparesBytes (simdMemcmp allVectors allCaps bytewiseKernel) 64 ∧
    AddsNumbers (simdVecAddI32 allVectors allCaps) 64 ∧
    ¬ ∀ data : List Byte, data.length = 64 → simdCrc32 allVectors allCaps data = crc32 data := by
  obtain ⟨hcopy, hfill, hcompare, hadd, hcrc⟩ := simd_scalar_iff bytewiseKernel_standard 64
  exact ⟨hcopy.mpr (by decide : 64 % 32 = 0), hfill.mpr (by decide : 64 % 32 = 0),
    hcompare.mpr fun _ => by decide, hadd.mpr (by decide : 64 % 8 = 0),
    fun h => absurd (hcrc.mp h).2 (by decide)⟩

/-- Four numbers without vectors: none of them is added. -/
theorem simd_skips_number : ¬ AddsNumbers (simdVecAddI32 allVectors noCaps) 4 := by
  intro h
  have hfirst := congrFun (h (fun _ => 0) (fun _ => 1) fun _ => 2) 0
  exact absurd hfirst (by decide)

end BrightS
