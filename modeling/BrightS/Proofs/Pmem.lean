/-
The physical page allocator never hands a page out twice.

A page is free when its bit is clear.  After boot the free pages are whole pages
of the firmware's regions above the first megabyte: the loops that build the
bitmap clear no other bit.  From there an allocation takes a range of free pages
and sets their bits, and a release clears the bits of a range that was live, so
the bookkeeping is an instance of `Ranges.Sound` over the page numbers.

Addresses enter at the two ends only.  The base is page aligned and everything
lies below `2^53`, so `base + i * 4096` never wraps and page numbers and page
addresses determine each other.
-/
import BrightS.Lib.Ranges
import BrightS.Lib.Runs
import BrightS.Kernel.Pmem

namespace BrightS

open Ranges Runs Words

/-! ### Bits of the bitmap -/

theorem bitmapTest_bitmapSet (pm : Pmem) (i j : Nat) :
    bitmapTest (bitmapSet pm i) j = (decide (j = i) || bitmapTest pm j) := by
  unfold bitmapTest bitmapSet
  by_cases hw : j / 64 = i / 64
  · dsimp only
    rw [hw, Function.update_self, bitTest_bitSet _ (by omega)]
    have hiff : (j % 64 = i % 64) ↔ (j = i) := by omega
    simp [hiff]
  · have hne : j ≠ i := fun h => hw (by rw [h])
    dsimp only
    rw [Function.update_of_ne hw]
    simp [hne]

theorem bitmapTest_bitmapClear (pm : Pmem) (i j : Nat) :
    bitmapTest (bitmapClear pm i) j = (!decide (j = i) && bitmapTest pm j) := by
  unfold bitmapTest bitmapClear
  by_cases hw : j / 64 = i / 64
  · dsimp only
    rw [hw, Function.update_self, bitTest_bitClear _ (by omega)]
    have hiff : (j % 64 = i % 64) ↔ (j = i) := by omega
    simp [hiff]
  · have hne : j ≠ i := fun h => hw (by rw [h])
    dsimp only
    rw [Function.update_of_ne hw]
    simp [hne]

/-- The allocator may hand page `i` out. -/
def PageFree (pm : Pmem) (i : Nat) : Prop := i < pmemMaxPages ∧ bitmapTest pm i = false

theorem clear_bitTest_not {pm : Pmem} {i : Nat} (hclear : bitmapTest pm i = false) :
    bitTest (~~~(pm.bitmap (i / 64))) (i % 64) = true := by
  rw [bitTest_not _ (Nat.mod_lt _ (by decide)), show bitTest (pm.bitmap (i / 64)) (i % 64) = false
    from hclear]
  rfl

theorem clear_ne_allOnes {pm : Pmem} {i : Nat} (hclear : bitmapTest pm i = false) :
    (pm.bitmap (i / 64) != BitVec.allOnes 64) = true := by
  rw [bne_iff_ne]
  intro hfull
  have hbit := clear_bitTest_not hclear
  rw [hfull, BitVec.not_allOnes, bitTest_zero] at hbit
  exact Bool.noConfusion hbit

/-! ### One allocation -/

/-- `pm'` is `pm` with the free pages of `r` taken. -/
structure Took (pm pm' : Pmem) (r : Range) : Prop where
  base : pm'.base = pm.base
  totalPages : pm'.totalPages = pm.totalPages
  free : ∀ i, r.Has i → PageFree pm i
  rest : ∀ i, PageFree pm' i ↔ PageFree pm i ∧ ¬ r.Has i

/-- `pm'` is `pm` with the pages of `r` given back. -/
structure GaveBack (pm pm' : Pmem) (r : Range) : Prop where
  base : pm'.base = pm.base
  totalPages : pm'.totalPages = pm.totalPages
  rest : ∀ i, PageFree pm' i ↔ PageFree pm i ∨ r.Has i

/-- The page found in the first word that is not full is the lowest free page. -/
theorem firstClear_isLeast {pm : Pmem} {w : Nat}
    (hf : ((List.range (pmemMaxPages / 64)).find? fun i => pm.bitmap i != BitVec.allOnes 64) = some w) :
    IsLeast {i | PageFree pm i} (w * 64 + lowestBit (~~~(pm.bitmap w))) := by
  have hmax : pmemMaxPages = 2097152 := rfl
  obtain ⟨hfound, hw, hbefore⟩ := List.find?_range_eq_some.mp hf
  have hw := List.mem_range.mp hw
  have hne := not_ne_zero hfound
  have hlt : lowestBit (~~~(pm.bitmap w)) < 64 := lowestBit_lt hne
  constructor
  · refine ⟨by omega, ?_⟩
    have hbit := bitTest_lowestBit hne
    rw [bitTest_not _ hlt] at hbit
    rw [bitmapTest, show (w * 64 + lowestBit (~~~(pm.bitmap w))) / 64 = w by omega,
      show (w * 64 + lowestBit (~~~(pm.bitmap w))) % 64 = lowestBit (~~~(pm.bitmap w)) by omega]
    simpa using hbit
  · intro j hj
    have hbit := clear_bitTest_not hj.2
    have hle : w ≤ j / 64 := by
      by_contra hgt
      have hfull := hbefore (j / 64) (by omega)
      rw [clear_ne_allOnes hj.2] at hfull
      exact Bool.noConfusion hfull
    by_cases heq : w = j / 64
    · have hlow : lowestBit (~~~(pm.bitmap w)) ≤ j % 64 := by
        by_contra hgt
        have hzero := bitTest_of_lt_lowestBit (Nat.lt_of_not_le hgt)
        rw [heq, hbit] at hzero
        exact Bool.noConfusion hzero
      omega
    · omega

theorem firstClear_none {pm : Pmem}
    (hf : ((List.range (pmemMaxPages / 64)).find? fun i => pm.bitmap i != BitVec.allOnes 64) = none)
    (i : Nat) : ¬ PageFree pm i := by
  rintro ⟨hi, hclear⟩
  have hmax : pmemMaxPages = 2097152 := rfl
  exact List.find?_eq_none.mp hf (i / 64) (List.mem_range.mpr (by omega)) (clear_ne_allOnes hclear)

/-- The lowest free page is handed out, unless its number is too large. -/
theorem pmemAllocPage_lowest {pm : Pmem} {idx : Nat} (h : IsLeast {i | PageFree pm i} idx) :
    pmemAllocPage pm =
      if pm.totalPages ≤ idx then (pm, 0)
      else ({ bitmapSet pm idx with freePages := sub64 pm.freePages 1 },
        (pm.base + idx * pageSize) % 2 ^ 64) := by
  unfold pmemAllocPage
  cases hf : (List.range (pmemMaxPages / 64)).find? fun i => pm.bitmap i != BitVec.allOnes 64 with
  | none => exact absurd h.1 (firstClear_none hf idx)
  | some w => rw [h.unique (firstClear_isLeast hf)]

theorem pmemAllocPage_full {pm : Pmem} (h : ∀ i, ¬ PageFree pm i) : pmemAllocPage pm = (pm, 0) := by
  unfold pmemAllocPage
  cases hf : (List.range (pmemMaxPages / 64)).find? fun i => pm.bitmap i != BitVec.allOnes 64 with
  | none => rfl
  | some w => exact absurd (firstClear_isLeast hf).1 (h _)

/-- Some page is the lowest free one, or none is free. -/
theorem lowest_or_full (pm : Pmem) :
    (∃ idx, IsLeast {i | PageFree pm i} idx) ∨ ∀ i, ¬ PageFree pm i := by
  by_cases hfree : ∃ i, PageFree pm i
  · exact .inl ((OrderBot.bddBelow _).exists_isLeast_of_nonempty hfree)
  · exact .inr (not_exists.mp hfree)

theorem pmemAllocPage_spec (pm : Pmem) :
    pmemAllocPage pm = (pm, 0) ∨
      ∃ idx, Took pm (pmemAllocPage pm).1 { start := idx, len := 1 } ∧
        (pmemAllocPage pm).2 = (pm.base + idx * pageSize) % 2 ^ 64 := by
  rcases lowest_or_full pm with ⟨idx, hidx⟩ | hfull
  · rw [pmemAllocPage_lowest hidx]
    split
    · exact .inl rfl
    · refine .inr ⟨idx, ⟨rfl, rfl, ?_, ?_⟩, rfl⟩
      · rintro i ⟨hlo, hhi⟩
        obtain rfl : i = idx := by
          dsimp only at hlo hhi
          omega
        exact hidx.1
      · intro i
        have hbit := bitmapTest_bitmapSet pm idx i
        rw [PageFree, PageFree, Range.Has]
        rw [bitmapTest] at hbit ⊢
        rw [hbit, Bool.or_eq_false_iff, decide_eq_false_iff_not]
        dsimp only
        constructor
        · rintro ⟨h1, h2, h3⟩
          exact ⟨⟨h1, h3⟩, by omega⟩
        · rintro ⟨⟨h1, h3⟩, h2⟩
          exact ⟨h1, by omega, h3⟩
  · exact .inl (pmemAllocPage_full hfull)

/-! ### The first run -/

/-- Pages `t, …, t + count - 1` are pages of the bitmap, all of them clear. -/
def ClearRun (pm : Pmem) (count t : Nat) : Prop :=
  t + count ≤ pmemMaxPages ∧ ∀ j, t ≤ j → j < t + count → bitmapTest pm j = false

/-- The loop of the search before page `i`: the last `found` pages were clear and start at
`startIdx`, the page before them was not, and no run has ended so far. -/
structure Searched (pm : Pmem) (count i found startIdx : Nat) : Prop where
  less : found < count
  start : 0 < found → startIdx + found = i
  clear : ∀ j, 0 < found → startIdx ≤ j → j < i → bitmapTest pm j = false
  stop : ∀ t, t + found < i → ∃ j, t ≤ j ∧ j < i ∧ bitmapTest pm j = true
  none : ∀ t, t + count ≤ i → ¬ ClearRun pm count t

section Search

variable {pm : Pmem} {count i found startIdx : Nat}

theorem Searched.first (hcount : 0 < count) : Searched pm count 0 0 0 :=
  ⟨hcount, fun h => absurd h (lt_irrefl _), fun _ h => absurd h (lt_irrefl _),
    fun _ h => absurd h (Nat.not_lt_zero _), fun _ h => absurd h (by omega)⟩

/-- A page in use ends the run. -/
theorem Searched.used (h : Searched pm count i found startIdx) (hset : bitmapTest pm i = true) :
    Searched pm count (i + 1) 0 startIdx := by
  have hless := h.less
  refine ⟨by omega, fun h0 => absurd h0 (lt_irrefl _), fun _ h0 => absurd h0 (lt_irrefl _),
    fun t ht => ⟨i, by omega, by omega, hset⟩, fun t ht hrun => ?_⟩
  by_cases hle : t + count ≤ i
  · exact h.none t hle hrun
  · have hclear := hrun.2 i (by omega) (by omega)
    rw [hset] at hclear
    exact Bool.noConfusion hclear

/-- A clear page extends the run, or starts one. -/
theorem Searched.run_clear (h : Searched pm count i found startIdx)
    (hclear : bitmapTest pm i = false) {startIdx' : Nat}
    (hstart : startIdx' = if found = 0 then i else startIdx) :
    startIdx' + (found + 1) = i + 1 ∧ ∀ j, startIdx' ≤ j → j < i + 1 → bitmapTest pm j = false := by
  by_cases hz : found = 0
  · rw [if_pos hz] at hstart
    refine ⟨by omega, fun j hlo hhi => ?_⟩
    obtain rfl : j = i := by omega
    exact hclear
  · rw [if_neg hz] at hstart
    have hrun := h.start (by omega)
    refine ⟨by omega, fun j hlo hhi => ?_⟩
    by_cases hji : j = i
    · rw [hji]
      exact hclear
    · exact h.clear j (by omega) (by omega) (by omega)

/-- Another run that ends by page `i` meets the page before the last ones. -/
theorem Searched.no_run (h : Searched pm count i found startIdx) {t : Nat} (hle : t + count ≤ i + 1)
    (ht : t + found < i) : ¬ ClearRun pm count t := by
  intro hrun
  by_cases hend : t + count ≤ i
  · exact h.none t hend hrun
  · obtain ⟨j, hlo, hhi, hset⟩ := h.stop t ht
    rw [hrun.2 j hlo (by omega)] at hset
    exact Bool.noConfusion hset

theorem Searched.clearPage (h : Searched pm count i found startIdx)
    (hclear : bitmapTest pm i = false) (hmore : found + 1 ≠ count) {startIdx' : Nat}
    (hstart : startIdx' = if found = 0 then i else startIdx) :
    Searched pm count (i + 1) (found + 1) startIdx' := by
  have hless := h.less
  obtain ⟨hrun, hpages⟩ := h.run_clear hclear hstart
  refine ⟨by omega, fun _ => hrun, fun j _ hlo hhi => hpages j hlo hhi, fun t ht => ?_,
    fun t ht => h.no_run ht (by omega)⟩
  obtain ⟨j, hlo, hhi, hset⟩ := h.stop t (by omega)
  exact ⟨j, hlo, by omega, hset⟩

/-- The run that is complete is the lowest one. -/
theorem Searched.complete (h : Searched pm count i found startIdx) (hi : i < pmemMaxPages)
    (hclear : bitmapTest pm i = false) (hdone : found + 1 = count) {startIdx' : Nat}
    (hstart : startIdx' = if found = 0 then i else startIdx) :
    IsLeast {t | ClearRun pm count t} startIdx' := by
  obtain ⟨hrun, hpages⟩ := h.run_clear hclear hstart
  refine ⟨⟨by omega, fun j hlo hhi => hpages j hlo (by omega)⟩, fun t ht => ?_⟩
  by_contra hlt
  exact h.no_run (by omega) (by omega) ht

end Search

/-- **First fit**: the search returns the lowest run of clear pages, or there is none. -/
theorem findRun_first {pm : Pmem} {count : Nat} : ∀ {n i found startIdx : Nat},
    Searched pm count i found startIdx → i + n = pmemMaxPages →
    (∃ start, findRun pm count n i found startIdx = some start ∧
      IsLeast {t | ClearRun pm count t} start) ∨
      (findRun pm count n i found startIdx = none ∧ ∀ t, ¬ ClearRun pm count t) := by
  intro n
  induction n with
  | zero =>
      intro i found startIdx h hi
      exact .inr ⟨rfl, fun t hrun => h.none t (by have := hrun.1; omega) hrun⟩
  | succ n ih =>
      intro i found startIdx h hi
      rw [findRun]
      by_cases hclear : bitmapTest pm i = false
      · rw [if_pos hclear]
        dsimp only
        by_cases hdone : found + 1 = count
        · rw [if_pos hdone]
          exact .inl ⟨_, rfl, h.complete (by omega) hclear hdone rfl⟩
        · rw [if_neg hdone]
          exact ih (h.clearPage hclear hdone rfl) (by omega)
      · rw [if_neg hclear]
        exact ih (h.used (Bool.eq_true_of_not_eq_false hclear)) (by omega)

theorem findRun_some {pm : Pmem} {count start : Nat} (hcount : 0 < count)
    (h : findRun pm count pmemMaxPages 0 0 0 = some start) :
    IsLeast {t | ClearRun pm count t} start := by
  have hsearch : Searched pm count 0 0 0 := Searched.first hcount
  rcases findRun_first hsearch (Nat.zero_add _) with
    ⟨start', hsome, hleast⟩ | ⟨hnone, -⟩
  · rw [hsome, Option.some.injEq] at h
    rwa [← h]
  · rw [hnone] at h
    exact absurd h (by simp)

theorem bitmapSetRun_spec (pm : Pmem) (start n : Nat) :
    (bitmapSetRun pm start n).base = pm.base ∧
      (bitmapSetRun pm start n).totalPages = pm.totalPages ∧
      ∀ j, bitmapTest (bitmapSetRun pm start n) j =
        (decide (start ≤ j ∧ j < start + n) || bitmapTest pm j) := by
  induction n with
  | zero =>
      refine ⟨rfl, rfl, fun j => ?_⟩
      have : ¬ (start ≤ j ∧ j < start + 0) := by omega
      rw [decide_eq_false this, Bool.false_or, bitmapSetRun]
  | succ n ih =>
      obtain ⟨hb, ht, hbits⟩ := ih
      refine ⟨hb, ht, fun j => ?_⟩
      rw [bitmapSetRun, bitmapTest_bitmapSet, hbits]
      by_cases hj : j = start + n
      · simp [hj]
      · have hiff : (start ≤ j ∧ j < start + n) ↔ (start ≤ j ∧ j < start + (n + 1)) := by omega
        simp only [hj, decide_false, Bool.false_or, hiff]

theorem pmemAllocPages_spec (pm : Pmem) (count : Nat) :
    pmemAllocPages pm count = (pm, 0) ∨
      ∃ start, Took pm (pmemAllocPages pm count).1 { start := start, len := count } ∧
        (pmemAllocPages pm count).2 = (pm.base + start * pageSize) % 2 ^ 64 := by
  unfold pmemAllocPages
  by_cases h0 : count = 0
  · rw [if_pos h0]
    exact Or.inl rfl
  · rw [if_neg h0]
    by_cases h1 : count = 1
    · rw [if_pos h1, h1]
      exact pmemAllocPage_spec pm
    · rw [if_neg h1]
      cases hf : findRun pm count pmemMaxPages 0 0 0 with
      | none => exact Or.inl rfl
      | some start =>
          obtain ⟨hle, hfree⟩ := findRun_some (Nat.pos_of_ne_zero h0) hf |>.1
          obtain ⟨hb, ht, hbits⟩ := bitmapSetRun_spec pm start count
          refine Or.inr ⟨start, ⟨hb, ht, ?_, ?_⟩, rfl⟩
          · rintro i ⟨hlo, hhi⟩
            dsimp only at hlo hhi
            exact ⟨by omega, hfree i hlo hhi⟩
          · intro i
            show i < pmemMaxPages ∧ bitmapTest (bitmapSetRun pm start count) i = false ↔ _
            rw [hbits, Bool.or_eq_false_iff, PageFree, Range.Has, decide_eq_false_iff_not]
            tauto

/-! ### One release -/

theorem pmemReleaseIdx_spec (pm : Pmem) (idx : Nat) (hidx : idx < pmemMaxPages) :
    (pmemReleaseIdx pm idx).base = pm.base ∧ (pmemReleaseIdx pm idx).totalPages = pm.totalPages ∧
      ∀ j, bitmapTest (pmemReleaseIdx pm idx) j = (!decide (j = idx) && bitmapTest pm j) := by
  unfold pmemReleaseIdx
  by_cases ht : bitmapTest pm idx = true
  · rw [if_pos ⟨hidx, ht⟩]
    exact ⟨rfl, rfl, fun j => bitmapTest_bitmapClear pm idx j⟩
  · rw [if_neg (fun h => ht h.2)]
    refine ⟨rfl, rfl, fun j => ?_⟩
    by_cases hj : j = idx
    · subst hj
      simpa using ht
    · simp [hj]

theorem pmemReleaseRun_spec (pm : Pmem) (start n : Nat) (hle : start + n ≤ pmemMaxPages) :
    (pmemReleaseRun pm start n).base = pm.base ∧
      (pmemReleaseRun pm start n).totalPages = pm.totalPages ∧
      ∀ j, bitmapTest (pmemReleaseRun pm start n) j =
        (!decide (start ≤ j ∧ j < start + n) && bitmapTest pm j) := by
  induction n with
  | zero =>
      refine ⟨rfl, rfl, fun j => ?_⟩
      have : ¬ (start ≤ j ∧ j < start + 0) := by omega
      rw [decide_eq_false this, Bool.not_false, Bool.true_and, pmemReleaseRun]
  | succ n ih =>
      obtain ⟨hb, ht, hbits⟩ := ih (by omega)
      obtain ⟨hb', ht', hbits'⟩ :=
        pmemReleaseIdx_spec (pmemReleaseRun pm start n) (start + n) (by omega)
      refine ⟨hb'.trans hb, ht'.trans ht, fun j => ?_⟩
      rw [pmemReleaseRun, hbits', hbits]
      by_cases hj : j = start + n
      · simp [hj]
      · have hiff : (start ≤ j ∧ j < start + n) ↔ (start ≤ j ∧ j < start + (n + 1)) := by omega
        simp only [hj, decide_false, Bool.not_false, Bool.true_and, hiff]

/-- The page number of a page's address. -/
theorem pageIdx_addr (pm : Pmem) (idx : Nat) (hlt : pm.base + idx * pageSize < 2 ^ 64) :
    pageIdx pm (pm.base + idx * pageSize) = idx := by
  have hps : pageSize = 4096 := rfl
  unfold pageIdx sub64
  rw [show pm.base + idx * pageSize + (2 ^ 64 - pm.base) = idx * pageSize + 2 ^ 64 by omega,
    Nat.add_mod_right, Nat.mod_eq_of_lt (by omega), hps]
  omega

theorem pmemFreePages_spec (pm : Pmem) (start : Nat) {n : Nat} (hbase : 0 < pm.base) (hn : 0 < n)
    (hlt : pm.base + start * pageSize < 2 ^ 64) (hle : start + n ≤ pmemMaxPages) :
    GaveBack pm (pmemFreePages pm (pm.base + start * pageSize) n) { start := start, len := n } := by
  obtain ⟨hb, ht, hbits⟩ := pmemReleaseRun_spec pm start n hle
  unfold pmemFreePages
  rw [if_neg (by omega), if_neg (by omega), pageIdx_addr pm start hlt]
  refine ⟨hb, ht, fun i => ?_⟩
  rw [PageFree, PageFree, hbits, Range.Has, Bool.and_eq_false_iff]
  simp only [Bool.not_eq_false', decide_eq_true_eq]
  constructor
  · rintro ⟨h1, h2 | h2⟩
    · exact Or.inr h2
    · exact Or.inl ⟨h1, h2⟩
  · rintro (⟨h1, h2⟩ | h2)
    · exact ⟨h1, Or.inr h2⟩
    · exact ⟨by omega, Or.inl h2⟩

/-- Freeing one page is freeing a run of one. -/
theorem pmemFreePage_eq (pm : Pmem) (addr : Nat) :
    pmemFreePage pm addr = pmemFreePages pm addr 1 := by
  unfold pmemFreePage pmemFreePages
  by_cases h0 : addr = 0
  · simp [h0]
  · rw [if_neg h0, if_neg (show ¬ (addr = 0 ∨ 1 = 0) by omega)]
    by_cases hb : addr < pm.base
    · rw [if_pos hb, if_pos hb]
    · rw [if_neg hb, if_neg hb]
      rw [pmemReleaseRun, pmemReleaseRun, Nat.add_zero, pmemReleaseIdx]
      by_cases hi : pageIdx pm addr < pmemMaxPages
      · rw [if_neg (show ¬ pmemMaxPages ≤ pageIdx pm addr by omega)]
        by_cases ht : bitmapTest pm (pageIdx pm addr) = true
        · rw [if_pos ht, if_pos ⟨hi, ht⟩]
          rfl
        · rw [if_neg ht, if_neg (fun h => ht h.2)]
      · rw [if_pos (show pmemMaxPages ≤ pageIdx pm addr by omega), if_neg (fun h => hi h.1)]

/-! ### Pages by address -/

/-- The page at `a` may be handed out. -/
def AddrFree (pm : Pmem) (a : Nat) : Prop := ∃ i, PageFree pm i ∧ a = pm.base + i * pageSize

/-- Free pages are aligned, not null, and lie below `2^52`. -/
structure PmemSane (pm : Pmem) : Prop where
  aligned : pm.base % 4096 = 0
  pos : 0 < pm.base
  below : ∀ i, PageFree pm i → pm.base + i * pageSize + pageSize ≤ 2 ^ 52

section Addresses

variable {pm : Pmem}

/-- The page that was handed out was free, and is the one that is not free any more. -/
theorem pmemAllocPage_addr (h : PmemSane pm) :
    pmemAllocPage pm = (pm, 0) ∨
      (AddrFree pm (pmemAllocPage pm).2 ∧ (pmemAllocPage pm).2 ≠ 0 ∧
        (pmemAllocPage pm).2 % 4096 = 0 ∧ (pmemAllocPage pm).2 + 4096 ≤ 2 ^ 52 ∧
        PmemSane (pmemAllocPage pm).1 ∧
        ∀ x, AddrFree (pmemAllocPage pm).1 x ↔ AddrFree pm x ∧ x ≠ (pmemAllocPage pm).2) := by
  have hps : pageSize = 4096 := rfl
  have haligned := h.aligned
  have hpos := h.pos
  rcases pmemAllocPage_spec pm with hnone | ⟨idx, ht, haddr⟩
  · exact Or.inl hnone
  · have hidx := ht.free idx ⟨le_refl _, by dsimp only; omega⟩
    have hbelow := h.below idx hidx
    rw [Nat.mod_eq_of_lt (by omega)] at haddr
    have haddr' := haddr
    rw [hps] at haddr' hbelow
    have hrest : ∀ i, PageFree (pmemAllocPage pm).1 i ↔ PageFree pm i ∧ i ≠ idx := by
      intro i
      rw [ht.rest i, Range.Has]
      dsimp only
      exact and_congr_right fun _ => by omega
    refine Or.inr ⟨⟨idx, hidx, haddr⟩, by omega, by omega, by omega, ⟨?_, ?_, ?_⟩, fun x => ?_⟩
    · rw [ht.base, haligned]
    · rw [ht.base]
      exact hpos
    · intro i hi
      rw [ht.base]
      exact h.below i ((hrest i).mp hi).1
    · constructor
      · rintro ⟨i, hi, rfl⟩
        obtain ⟨hfree, hne⟩ := (hrest i).mp hi
        rw [ht.base]
        exact ⟨⟨i, hfree, rfl⟩, by rw [haddr, hps]; omega⟩
      · rintro ⟨⟨i, hi, rfl⟩, hne⟩
        refine ⟨i, (hrest i).mpr ⟨hi, ?_⟩, by rw [ht.base]⟩
        rintro rfl
        exact hne haddr.symm

/-- Giving a page back makes at most that page free. -/
theorem pmemFreePage_addr (h : PmemSane pm) {a : Nat} (halign : a % 4096 = 0)
    (hlt : a + 4096 ≤ 2 ^ 52) :
    PmemSane (pmemFreePage pm a) ∧
      ∀ x, AddrFree (pmemFreePage pm a) x → AddrFree pm x ∨ x = a := by
  have hps : pageSize = 4096 := rfl
  have haligned := h.aligned
  have hpos := h.pos
  have hsame : PmemSane pm ∧ ∀ x, AddrFree pm x → AddrFree pm x ∨ x = a :=
    ⟨h, fun x hx => Or.inl hx⟩
  by_cases hbase : a < pm.base
  · rw [pmemFreePage, if_pos hbase, ite_self]
    exact hsame
  · have ha : a = pm.base + (a - pm.base) / 4096 * pageSize := by
      rw [hps]
      omega
    have hidx : pageIdx pm a = (a - pm.base) / 4096 := by
      have := pageIdx_addr pm ((a - pm.base) / 4096) (by omega)
      rwa [← ha] at this
    by_cases hmax : pmemMaxPages ≤ (a - pm.base) / 4096
    · rw [pmemFreePage, if_neg (by omega), if_neg hbase]
      dsimp only
      rw [hidx, if_pos hmax]
      exact hsame
    · have hgave := pmemFreePages_spec pm ((a - pm.base) / 4096) (n := 1) hpos
        Nat.one_pos (by omega) (by omega)
      rw [← ha, ← pmemFreePage_eq] at hgave
      have hcases : ∀ i, PageFree (pmemFreePage pm a) i →
          PageFree pm i ∨ i = (a - pm.base) / 4096 := by
        intro i hi
        refine ((hgave.rest i).mp hi).imp_right fun hin => ?_
        rw [Range.Has] at hin
        dsimp only at hin
        omega
      refine ⟨⟨by rw [hgave.base]; exact haligned, by rw [hgave.base]; exact hpos, ?_⟩, ?_⟩
      · intro i hi
        rw [hgave.base]
        rcases hcases i hi with hi | rfl
        · exact h.below i hi
        · omega
      · rintro x ⟨i, hi, rfl⟩
        rw [hgave.base]
        rcases hcases i hi with hi | rfl
        · exact Or.inl ⟨i, hi, rfl⟩
        · exact Or.inr ha.symm

end Addresses

/-! ### The bitmap after boot -/

theorem alignUpPage_eq {x : Nat} (hx : x ≤ 2 ^ 52) :
    alignUpPage x = (x + 4095) / 4096 * 4096 := by
  have := and_lnot64_mask (x := x + 4095) (k := 12) (by omega) (by omega)
  unfold alignUpPage
  rw [show pageSize = 4096 from rfl, Nat.mod_eq_of_lt (by omega)]
  simpa using this

theorem alignDownPage_eq {x : Nat} (hx : x ≤ 2 ^ 52) : alignDownPage x = x / 4096 * 4096 := by
  have := and_lnot64_mask (x := x) (k := 12) (by omega) (by omega)
  unfold alignDownPage
  rw [show pageSize = 4096 from rfl]
  simpa using this

theorem regionBase_eq {r : MemRegion} (hr : r.base + r.size ≤ 2 ^ 52) :
    regionBase r = (r.base + 4095) / 4096 * 4096 := alignUpPage_eq (by omega)

theorem regionEnd_eq {r : MemRegion} (hr : r.base + r.size ≤ 2 ^ 52) :
    regionEnd r = (r.base + r.size) / 4096 * 4096 := by
  unfold regionEnd
  rw [Nat.mod_eq_of_lt (by omega)]
  exact alignDownPage_eq hr

theorem alignUpPage_page (x : Nat) : alignUpPage x % 4096 = 0 ∧ alignUpPage x < 2 ^ 64 := by
  have hround := and_lnot64_mask (k := 12) (Nat.mod_lt (x + 4095) (by decide : 0 < 2 ^ 64))
    (by decide)
  have heq : alignUpPage x = (x + 4095) % 2 ^ 64 / 2 ^ 12 * 2 ^ 12 := hround
  omega

theorem regionEnd_page (r : MemRegion) : regionEnd r % 4096 = 0 ∧ regionEnd r < 2 ^ 64 := by
  have hround := and_lnot64_mask (k := 12) (Nat.mod_lt (r.base + r.size) (by decide : 0 < 2 ^ 64))
    (by decide)
  have heq : regionEnd r = (r.base + r.size) % 2 ^ 64 / 2 ^ 12 * 2 ^ 12 := hround
  omega

/-- A region as `vmBootstrap` keeps it. -/
structure KeptOk (r : MemRegion) : Prop where
  aboveLow : 0x100000 ≤ r.base
  fits : r.base + r.size ≤ 2 ^ 52

/-- No base found yet, or the lowest page of the regions seen so far. -/
def BaseOk (base : Nat) : Prop :=
  base = 2 ^ 64 - 1 ∨ (base % 4096 = 0 ∧ 0x100000 ≤ base ∧ base < 2 ^ 52)

/-- The base that is found is the lowest of those offered. -/
theorem measureAll_lowest (regions : List MemRegion) : ∀ pm : Pmem,
    ((regions.foldl pmemMeasure pm).base = pm.base ∨
      ∃ r ∈ regions, regionBase r < regionEnd r ∧
        (regions.foldl pmemMeasure pm).base = regionBase r) ∧
      (regions.foldl pmemMeasure pm).base ≤ pm.base ∧
      ∀ r ∈ regions, regionBase r < regionEnd r →
        (regions.foldl pmemMeasure pm).base ≤ regionBase r := by
  induction regions with
  | nil => exact fun pm => ⟨.inl rfl, le_refl _, by simp⟩
  | cons r rest ih =>
      intro pm
      have hone : ((pmemMeasure pm r).base = pm.base ∨
          regionBase r < regionEnd r ∧ (pmemMeasure pm r).base = regionBase r) ∧
          (pmemMeasure pm r).base ≤ pm.base ∧
          (regionBase r < regionEnd r → (pmemMeasure pm r).base ≤ regionBase r) := by
        unfold pmemMeasure
        by_cases hempty : regionEnd r ≤ regionBase r
        · rw [if_pos hempty]
          exact ⟨.inl rfl, le_refl _, fun h => by omega⟩
        · rw [if_neg hempty]
          dsimp only
          by_cases hlt : regionBase r < pm.base
          · rw [if_pos hlt]
            exact ⟨.inr ⟨by omega, rfl⟩, by omega, fun _ => le_refl _⟩
          · rw [if_neg hlt]
            exact ⟨.inl rfl, le_refl _, fun _ => by omega⟩
      obtain ⟨hor, hle, hr⟩ := hone
      obtain ⟨hor', hle', hrest⟩ := ih (pmemMeasure pm r)
      rw [List.foldl_cons]
      refine ⟨?_, hle'.trans hle, fun s hs hne => ?_⟩
      · rcases hor' with heq | ⟨s, hs, hne, heq⟩
        · rcases hor with hsame | ⟨hne, hnew⟩
          · exact .inl (heq.trans hsame)
          · exact .inr ⟨r, List.mem_cons_self .., hne, heq.trans hnew⟩
        · exact .inr ⟨s, List.mem_cons_of_mem _ hs, hne, heq⟩
      · rcases List.mem_cons.mp hs with rfl | hs
        · exact hle'.trans (hr hne)
        · exact hrest s hs hne

theorem measureAll_base {regions : List MemRegion} (hok : ∀ r ∈ regions, KeptOk r) (pm : Pmem)
    (hb : BaseOk pm.base) : BaseOk (regions.foldl pmemMeasure pm).base := by
  rcases (measureAll_lowest regions pm).1 with heq | ⟨r, hr, hne, heq⟩
  · rw [heq]
    exact hb
  · have hlo := regionBase_eq (hok r hr).fits
    have hhi := regionEnd_eq (hok r hr).fits
    obtain ⟨habove, hfits⟩ := hok r hr
    rw [heq]
    exact .inr (by omega)

/-- Marking addresses free leaves the base alone and frees their pages. -/
theorem markAll_free (addrs : List Nat) : ∀ pm : Pmem,
    (addrs.foldl pmemMarkFree pm).base = pm.base ∧
      ∀ i, PageFree (addrs.foldl pmemMarkFree pm) i ↔
        PageFree pm i ∨ (i < pmemMaxPages ∧ ∃ addr ∈ addrs, pageIdx pm addr = i) := by
  induction addrs with
  | nil => exact fun pm => ⟨rfl, fun i => by simp⟩
  | cons addr rest ih =>
      intro pm
      have hbase : (pmemMarkFree pm addr).base = pm.base := by
        unfold pmemMarkFree
        split <;> rfl
      have hone : ∀ i, PageFree (pmemMarkFree pm addr) i ↔
          PageFree pm i ∨ (i < pmemMaxPages ∧ pageIdx pm addr = i) := by
        intro i
        unfold pmemMarkFree
        by_cases hlt : pageIdx pm addr < pmemMaxPages
        · have hbit := bitmapTest_bitmapClear pm (pageIdx pm addr) i
          rw [if_pos hlt, PageFree, PageFree]
          rw [bitmapTest] at hbit ⊢
          rw [hbit]
          by_cases hidx : i = pageIdx pm addr
          · simp [hidx, hlt]
          · simp [hidx, Ne.symm hidx]
        · rw [if_neg hlt]
          refine (or_iff_left ?_).symm
          rintro ⟨hi, rfl⟩
          exact hlt hi
      obtain ⟨hb, hfree⟩ := ih (pmemMarkFree pm addr)
      have hidx : ∀ a, pageIdx (pmemMarkFree pm addr) a = pageIdx pm a := fun a => by
        rw [pageIdx, pageIdx, hbase]
      refine ⟨hb.trans hbase, fun i => ?_⟩
      rw [List.foldl_cons, hfree, hone, or_assoc, ← and_or_left]
      simp only [hidx, List.exists_mem_cons_iff]

theorem mem_pageAddrs {lo hi addr : Nat} (h : addr ∈ pageAddrs lo hi) :
    ∃ k, addr = lo + k * 4096 ∧ addr < hi := by
  obtain ⟨k, hk, rfl⟩ := List.mem_map.mp h
  have hk := List.mem_range.mp hk
  have hps : pageSize = 4096 := rfl
  rw [hps] at hk ⊢
  exact ⟨k, rfl, by omega⟩

/-- The whole page at `addr` lies in one of the regions, above the first megabyte. -/
def PageUsable (regions : List MemRegion) (addr : Nat) : Prop :=
  0x100000 ≤ addr ∧ ∃ r ∈ regions, r.base ≤ addr ∧ addr + pageSize ≤ r.base + r.size

/-- The pages a region contributes are its own, above the first megabyte. -/
theorem pmemMarkRegion_free {pm : Pmem} {r : MemRegion} (hr : KeptOk r)
    (halign : pm.base % 4096 = 0) (hle : regionBase r < regionEnd r → pm.base ≤ regionBase r) :
    (pmemMarkRegion pm r).base = pm.base ∧
      ∀ i, PageFree (pmemMarkRegion pm r) i →
        PageFree pm i ∨ PageUsable [r] (pm.base + i * pageSize) := by
  unfold pmemMarkRegion
  by_cases hempty : regionEnd r ≤ regionBase r
  · rw [if_pos hempty]
    exact ⟨rfl, fun i hi => Or.inl hi⟩
  · rw [if_neg hempty]
    obtain ⟨hb, hfree⟩ := markAll_free (pageAddrs (regionBase r) (regionEnd r)) pm
    refine ⟨hb, fun i hi => ?_⟩
    rcases (hfree i).mp hi with hi | ⟨-, addr, haddr, rfl⟩
    · exact Or.inl hi
    · obtain ⟨k, hk, hlt⟩ := mem_pageAddrs haddr
      have hbase := hle (by omega)
      have hlo := regionBase_eq hr.fits
      have hhi := regionEnd_eq hr.fits
      have habove := hr.aboveLow
      have hfits := hr.fits
      -- `addr` is a page address at or above the base, so its page number leads back to it.
      have haddr' : pm.base + pageIdx pm addr * pageSize = addr := by
        have hidx := pageIdx_addr pm ((addr - pm.base) / 4096)
          (by rw [show pageSize = 4096 from rfl]; omega)
        rw [show pageSize = 4096 from rfl] at hidx ⊢
        rw [show pm.base + (addr - pm.base) / 4096 * 4096 = addr by omega] at hidx
        rw [hidx]
        omega
      rw [haddr']
      refine Or.inr ⟨by omega, r, List.mem_singleton.mpr rfl, by omega, ?_⟩
      rw [show pageSize = 4096 from rfl]
      omega

theorem markRegions_free {kept : List MemRegion} (hok : ∀ r ∈ kept, KeptOk r) :
    ∀ pm : Pmem, pm.base % 4096 = 0 →
      (∀ r ∈ kept, regionBase r < regionEnd r → pm.base ≤ regionBase r) →
      (kept.foldl pmemMarkRegion pm).base = pm.base ∧
        ∀ i, PageFree (kept.foldl pmemMarkRegion pm) i →
          PageFree pm i ∨ PageUsable kept (pm.base + i * pageSize) := by
  induction kept with
  | nil => exact fun pm _ _ => ⟨rfl, fun i hi => Or.inl hi⟩
  | cons r rest ih =>
      intro pm halign hle
      obtain ⟨hb, hfree⟩ := pmemMarkRegion_free (hok r (List.mem_cons_self ..)) halign
        (hle r (List.mem_cons_self ..))
      obtain ⟨hb', hfree'⟩ := ih (fun r h => hok r (List.mem_cons_of_mem _ h))
        (pmemMarkRegion pm r) (by rw [hb]; exact halign)
        (fun s hs => by rw [hb]; exact hle s (List.mem_cons_of_mem _ hs))
      refine ⟨hb'.trans hb, fun i hi => ?_⟩
      rcases hfree' i hi with hi | ⟨hlow, s, hs, hin⟩
      · rcases hfree i hi with hi | ⟨hlow, s, hs, hin⟩
        · exact Or.inl hi
        · rw [List.mem_singleton.mp hs] at hin
          exact Or.inr ⟨hlow, r, List.mem_cons_self .., hin⟩
      · rw [hb] at hlow hin
        exact Or.inr ⟨hlow, s, List.mem_cons_of_mem _ hs, hin⟩

/-- Reserving addresses takes their pages away, and no others. -/
theorem reserveAll_free (addrs : List Nat) : ∀ pm : Pmem,
    (addrs.foldl pmemReserve pm).base = pm.base ∧
      ∀ i, PageFree (addrs.foldl pmemReserve pm) i ↔
        PageFree pm i ∧ ∀ addr ∈ addrs, pm.base ≤ addr → pageIdx pm addr ≠ i := by
  induction addrs with
  | nil => exact fun pm => ⟨rfl, fun i => by simp⟩
  | cons addr rest ih =>
      intro pm
      obtain ⟨hb, hfree⟩ := ih (pmemReserve pm addr)
      have hbase : (pmemReserve pm addr).base = pm.base := by
        unfold pmemReserve
        split
        · split <;> rfl
        · rfl
      have hone : ∀ i, PageFree (pmemReserve pm addr) i ↔
          PageFree pm i ∧ (pm.base ≤ addr → pageIdx pm addr ≠ i) := by
        intro i
        unfold pmemReserve
        by_cases hle : pm.base ≤ addr
        · rw [if_pos hle]
          split
          · have hbit := bitmapTest_bitmapSet pm (pageIdx pm addr) i
            rw [PageFree, PageFree]
            rw [bitmapTest] at hbit ⊢
            rw [hbit, Bool.or_eq_false_iff, decide_eq_false_iff_not]
            constructor
            · rintro ⟨hi, hne, hclear⟩
              exact ⟨⟨hi, hclear⟩, fun _ heq => hne heq.symm⟩
            · rintro ⟨⟨hi, hclear⟩, hne⟩
              exact ⟨hi, fun heq => hne hle heq.symm, hclear⟩
          · rename_i hused
            refine (and_iff_left_of_imp fun hi _ heq => hused ?_).symm
            rw [heq]
            exact hi
        · rw [if_neg hle]
          exact (and_iff_left_of_imp fun _ hbase => absurd hbase hle).symm
      have hidx : ∀ a, pageIdx (pmemReserve pm addr) a = pageIdx pm a := fun a => by
        rw [pageIdx, pageIdx, hbase]
      refine ⟨hb.trans hbase, fun i => ?_⟩
      rw [List.foldl_cons, hfree, hone, hbase, and_assoc]
      simp only [hidx, List.forall_mem_cons]

theorem pmemFill_used (pm : Pmem) (i : Nat) : ¬ PageFree (pmemFill pm) i := by
  rintro ⟨hi, hbit⟩
  have hmax : pmemMaxPages = 2097152 := rfl
  rw [bitmapTest, pmemFill] at hbit
  dsimp only at hbit
  rw [if_pos (by omega), bitTest_eq_getLsbD, BitVec.getLsbD_allOnes,
    decide_eq_true (by omega : i % 64 < 64)] at hbit
  exact Bool.noConfusion hbit

/-- Boot finds a base, and frees only whole pages of the regions above the first megabyte. -/
structure Booted (regions : List MemRegion) (pm : Pmem) : Prop where
  aligned : pm.base % 4096 = 0
  aboveLow : 0x100000 ≤ pm.base
  below : pm.base < 2 ^ 52
  usable : ∀ i, PageFree pm i → PageUsable regions (pm.base + i * pageSize)

theorem pmemInit_booted (pm : Pmem) {kept : List MemRegion} (hok : ∀ r ∈ kept, KeptOk r)
    (hpage : ∃ r ∈ kept, regionBase r < regionEnd r) : Booted kept (pmemInit pm kept) := by
  unfold pmemInit
  dsimp only
  have hbase := measureAll_base hok
    { pm with totalPages := 0, freePages := 0, base := 2 ^ 64 - 1 } (Or.inl rfl)
  obtain ⟨-, -, hlowest⟩ := measureAll_lowest kept
    { pm with totalPages := 0, freePages := 0, base := 2 ^ 64 - 1 }
  generalize kept.foldl pmemMeasure
    { pm with totalPages := 0, freePages := 0, base := 2 ^ 64 - 1 } = pm₁ at hbase hlowest
  obtain ⟨r, hr, hne⟩ := hpage
  have hfound : pm₁.base ≠ 2 ^ 64 - 1 := by
    have := hlowest r hr hne
    have hlo := regionBase_eq (hok r hr).fits
    have hfits := (hok r hr).fits
    omega
  rw [if_neg hfound]
  obtain ⟨haligned, habove, hbelow⟩ := hbase.resolve_left hfound
  generalize hfill : pmemFill { pm₁ with
    totalPages := if pmemMaxPages < pm₁.totalPages then pmemMaxPages else pm₁.totalPages } = pm₂
  have hbase₂ : pm₂.base = pm₁.base := by rw [← hfill]; rfl
  obtain ⟨hb, hfree⟩ := markRegions_free hok pm₂ (by rw [hbase₂]; exact haligned)
    (by rw [hbase₂]; exact hlowest)
  obtain ⟨hb', hfree'⟩ := reserveAll_free
    (pageAddrs 0 (min 0x100000 (((kept.foldl pmemMarkRegion pm₂).base +
      (kept.foldl pmemMarkRegion pm₂).totalPages * pageSize) % 2 ^ 64)))
    (kept.foldl pmemMarkRegion pm₂)
  have hb₃ := hb'.trans (hb.trans hbase₂)
  refine ⟨by rw [hb₃]; exact haligned, by rw [hb₃]; exact habove, by rw [hb₃]; exact hbelow, ?_⟩
  intro i hi
  rw [hb'.trans hb]
  -- Before the regions are marked every bit is set.
  refine (hfree i ((hfree' i).mp hi).1).resolve_left ?_
  rw [← hfill]
  exact pmemFill_used _ i

theorem clampRegion_some {r s : MemRegion} (hr : r.base + r.size ≤ 2 ^ 52)
    (h : clampRegion r = some s) :
    KeptOk s ∧ r.base ≤ s.base ∧ s.base + s.size ≤ r.base + r.size := by
  unfold clampRegion at h
  dsimp only at h
  rw [Nat.mod_eq_of_lt (by omega)] at h
  by_cases hlow : r.base + r.size ≤ 0x100000
  · simp [hlow] at h
  · rw [if_neg hlow] at h
    by_cases hempty : r.base + r.size ≤ (if r.base < 0x100000 then 0x100000 else r.base)
    · simp [hempty] at h
    · rw [if_neg hempty, Option.some.injEq] at h
      subst h
      by_cases hbase : r.base < 0x100000
      · simp only [if_pos hbase]
        exact ⟨⟨by simp, by dsimp only; omega⟩, by omega, by omega⟩
      · simp only [if_neg hbase]
        exact ⟨⟨by dsimp only; omega, by dsimp only; omega⟩, by omega, by omega⟩

/-- A region with a whole page above the first megabyte survives the clamping. -/
theorem clampRegion_page {r : MemRegion} {a : Nat} (hr : r.base + r.size ≤ 2 ^ 52)
    (halign : a % pageSize = 0) (hlow : 0x100000 ≤ a) (hlo : r.base ≤ a)
    (hhi : a + pageSize ≤ r.base + r.size) :
    ∃ s, clampRegion r = some s ∧ regionBase s < regionEnd s := by
  have hps : pageSize = 4096 := rfl
  rw [hps] at halign hhi
  unfold clampRegion
  dsimp only
  rw [Nat.mod_eq_of_lt (by omega), if_neg (by omega)]
  by_cases hbase : r.base < 0x100000
  · rw [if_pos hbase, if_neg (by omega)]
    refine ⟨_, rfl, ?_⟩
    rw [regionBase_eq (by dsimp only; omega), regionEnd_eq (by dsimp only; omega)]
    dsimp only
    omega
  · rw [if_neg hbase, if_neg (by omega)]
    refine ⟨_, rfl, ?_⟩
    rw [regionBase_eq (by dsimp only; omega), regionEnd_eq (by dsimp only; omega)]
    dsimp only
    omega

/-- The loop that fills the region table keeps the first `maxMemRegions` clamped regions. -/
theorem keepRegions_eq (regions : List MemRegion) : ∀ kept : List MemRegion,
    kept.length ≤ maxMemRegions →
      regions.foldl vmKeepRegion kept =
        (kept ++ regions.filterMap clampRegion).take maxMemRegions := by
  induction regions with
  | nil =>
      intro kept hle
      simp [List.take_of_length_le hle]
  | cons r rest ih =>
      intro kept hle
      rw [List.foldl_cons]
      by_cases hlt : kept.length < maxMemRegions
      · cases hc : clampRegion r with
        | none =>
            rw [vmKeepRegion, if_pos hlt, hc, ih kept hle, List.filterMap_cons_none hc]
        | some s =>
            rw [vmKeepRegion, if_pos hlt, hc,
              ih (kept ++ [s]) (by rw [List.length_append, List.length_singleton]; omega),
              List.filterMap_cons_some hc, List.append_assoc, List.singleton_append]
      · have heq : kept.length = maxMemRegions := by omega
        rw [vmKeepRegion, if_neg hlt, ih kept hle, ← heq, List.take_left' rfl,
          List.take_left' rfl]

theorem vmBootstrap_eq (regions : List MemRegion) :
    vmBootstrap regions = (regions.filterMap clampRegion).take maxMemRegions := by
  have := keepRegions_eq regions [] (by simp)
  simpa [vmBootstrap] using this

/-- The regions lie below `2^52`, and one of those the table has room for has a whole page above
the first megabyte. -/
structure Usable (regions : List MemRegion) : Prop where
  below : ∀ r ∈ regions, r.base + r.size ≤ 2 ^ 52
  page : ∃ r ∈ regions.take maxMemRegions, ∃ a, a % pageSize = 0 ∧ 0x100000 ≤ a ∧
    r.base ≤ a ∧ a + pageSize ≤ r.base + r.size

theorem vmInit_booted (pm : Pmem) {regions : List MemRegion} (hu : Usable regions) :
    Booted regions (vmInit pm (vmBootstrap regions)) := by
  have hsource : ∀ s ∈ vmBootstrap regions, ∃ r ∈ regions, clampRegion r = some s := by
    intro s hs
    rw [vmBootstrap_eq] at hs
    exact List.mem_filterMap.mp (List.mem_of_mem_take hs)
  have hok : ∀ s ∈ vmBootstrap regions, KeptOk s := by
    intro s hs
    obtain ⟨r, hr, hc⟩ := hsource s hs
    exact (clampRegion_some (hu.below r hr) hc).1
  have hpage : ∃ s ∈ vmBootstrap regions, regionBase s < regionEnd s := by
    obtain ⟨r, hr, a, halign, hlow, hlo, hhi⟩ := hu.page
    obtain ⟨s, hc, hlt⟩ :=
      clampRegion_page (hu.below r (List.mem_of_mem_take hr)) halign hlow hlo hhi
    refine ⟨s, ?_, hlt⟩
    -- The first regions clamp to at most as many, so none of theirs is cut off.
    have hmem : s ∈ (regions.take maxMemRegions).filterMap clampRegion :=
      List.mem_filterMap.mpr ⟨r, hr, hc⟩
    have hlen : ((regions.take maxMemRegions).filterMap clampRegion).length ≤ maxMemRegions :=
      (List.length_filterMap_le ..).trans (List.length_take_le ..)
    have hpre : (regions.take maxMemRegions).filterMap clampRegion <+:
        regions.filterMap clampRegion := (List.take_prefix ..).filterMap clampRegion
    rw [vmBootstrap_eq]
    exact (List.prefix_take_iff.mpr ⟨hpre, hlen⟩).subset hmem
  have hkept : (vmBootstrap regions).length ≠ 0 := by
    obtain ⟨s, hs, -⟩ := hpage
    exact List.length_pos_of_mem hs |>.ne'
  have hboot := pmemInit_booted pm hok hpage
  unfold vmInit
  rw [if_neg hkept]
  refine ⟨hboot.aligned, hboot.aboveLow, hboot.below, fun i hi => ?_⟩
  obtain ⟨hlow, s, hs, hlo, hhi⟩ := hboot.usable i hi
  obtain ⟨r, hr, hc⟩ := hsource s hs
  obtain ⟨-, hlo', hhi'⟩ := clampRegion_some (hu.below r hr) hc
  exact ⟨hlow, r, hr, hlo'.trans hlo, hhi.trans hhi'⟩

/-! ### Runs -/

/-- The allocator and the ranges it has handed out and not got back: first address and number
of pages. -/
structure PmemRun where
  pm : Pmem
  live : List (Nat × Nat)

inductive PmemCall where
  | allocPage
  | allocPages (count : UInt32)
  | freePage (addr : Nat)
  | freePages (addr : Nat) (count : UInt32)

/-- The caller keeps what it was given; a null pointer is nothing. -/
def PmemRun.keep (s : PmemRun) (res : Pmem × Nat) (count : Nat) : PmemRun :=
  { pm := res.1, live := if res.2 = 0 then s.live else (res.2, count) :: s.live }

/-- Only live allocations are freed, each with the number of pages it was made with. -/
def PmemRun.step (s : PmemRun) (c : PmemCall) (s' : PmemRun) : Prop :=
  match c with
  | .allocPage => s' = s.keep (pmemAllocPage s.pm) 1
  | .allocPages count => s' = s.keep (pmemAllocPages s.pm count.toNat) count.toNat
  | .freePage addr => (addr, 1) ∈ s.live ∧
      s' = { pm := pmemFreePage s.pm addr, live := s.live.erase (addr, 1) }
  | .freePages addr count => (addr, count.toNat) ∈ s.live ∧
      s' = { pm := pmemFreePages s.pm addr count.toNat,
             live := s.live.erase (addr, count.toNat) }

def PmemRun.init (pm : Pmem) (regions : List MemRegion) : PmemRun :=
  { pm := vmInit pm (vmBootstrap regions), live := [] }

/-- The addresses of a range of pages. -/
def rangeAddr (base : Nat) (r : Range) : Nat × Nat := (base + r.start * pageSize, r.len)

theorem rangeAddr_injective (base : Nat) : Function.Injective (rangeAddr base) := by
  rintro ⟨a, n⟩ ⟨b, m⟩ h
  simp only [rangeAddr, Prod.mk.injEq, show pageSize = 4096 from rfl] at h
  rw [Range.mk.injEq]
  omega

/-- The live addresses are those of sound ranges, none of them empty. -/
structure PmemOk (base : Nat) (regions : List MemRegion) (s : PmemRun) (ranges : List Range) :
    Prop where
  baseEq : s.pm.base = base
  liveEq : s.live = ranges.map (rangeAddr base)
  pos : ∀ r ∈ ranges, 0 < r.len
  inBitmap : ∀ r ∈ ranges, r.start + r.len ≤ pmemMaxPages
  sound : Sound (fun i => PageUsable regions (base + i * pageSize)) (PageFree s.pm) ranges

section Step

variable {base : Nat} {regions : List MemRegion} {s : PmemRun} {ranges : List Range}

/-- A page the regions can hold has an address that does not wrap. -/
theorem PageUsable.lt (hbelow : ∀ r ∈ regions, r.base + r.size ≤ 2 ^ 52) {a : Nat}
    (h : PageUsable regions a) : a + pageSize ≤ 2 ^ 52 := by
  obtain ⟨-, r, hr, -, hhi⟩ := h
  exact hhi.trans (hbelow r hr)

theorem Booted.sane {pm : Pmem} (h : Booted regions pm)
    (hbelow : ∀ r ∈ regions, r.base + r.size ≤ 2 ^ 52) : PmemSane pm :=
  ⟨h.aligned, by have := h.aboveLow; omega, fun i hi => (h.usable i hi).lt hbelow⟩

theorem PmemOk.take (hok : PmemOk base regions s ranges)
    (hbelow : ∀ r ∈ regions, r.base + r.size ≤ 2 ^ 52) {res : Pmem × Nat} {start len : Nat}
    (hlen : 0 < len) (ht : Took s.pm res.1 { start := start, len := len })
    (haddr : res.2 = (s.pm.base + start * pageSize) % 2 ^ 64) :
    ∃ ranges', PmemOk base regions (s.keep res len) ranges' := by
  have hfree := ht.free start ⟨le_refl _, by dsimp only; omega⟩
  have hlast := ht.free (start + (len - 1)) ⟨by dsimp only; omega, by dsimp only; omega⟩
  have husable := hok.sound.freeUsable start hfree
  have hlt := husable.lt hbelow
  rw [hok.baseEq, Nat.mod_eq_of_lt (by omega)] at haddr
  have hne : res.2 ≠ 0 := by
    have := husable.1
    omega
  refine ⟨{ start := start, len := len } :: ranges, ht.base.trans hok.baseEq, ?_, ?_, ?_, ?_⟩
  · rw [PmemRun.keep, if_neg hne, List.map_cons, hok.liveEq, rangeAddr, haddr]
  · exact List.forall_mem_cons.mpr ⟨hlen, hok.pos⟩
  · refine List.forall_mem_cons.mpr ⟨?_, hok.inBitmap⟩
    have := hlast.1
    dsimp only
    omega
  · exact hok.sound.take ht.free ht.rest

theorem PmemOk.give (hok : PmemOk base regions s ranges) (hbase : 0 < base)
    (hbelow : ∀ r ∈ regions, r.base + r.size ≤ 2 ^ 52) {addr len : Nat}
    (hmem : (addr, len) ∈ s.live) :
    ∃ ranges', PmemOk base regions
      { pm := pmemFreePages s.pm addr len, live := s.live.erase (addr, len) } ranges' := by
  rw [hok.liveEq] at hmem
  obtain ⟨r, hr, heq⟩ := List.mem_map.mp hmem
  obtain ⟨rfl, rfl⟩ := Prod.mk.inj heq
  have hpos := hok.pos r hr
  have hlt := (hok.sound.liveUsable r hr r.start ⟨le_refl _, by omega⟩).lt hbelow
  have hgave := pmemFreePages_spec s.pm r.start
    (by rw [hok.baseEq]; exact hbase) hpos (by rw [hok.baseEq]; omega) (hok.inBitmap r hr)
  rw [hok.baseEq] at hgave
  refine ⟨ranges.erase r, hgave.base.trans hok.baseEq, ?_, ?_, ?_, ?_⟩
  · show s.live.erase (rangeAddr base r) = _
    rw [hok.liveEq, List.map_erase (rangeAddr_injective base)]
  · exact fun q hq => hok.pos q (List.mem_of_mem_erase hq)
  · exact fun q hq => hok.inBitmap q (List.mem_of_mem_erase hq)
  · exact hok.sound.give hr hgave.rest

end Step

/-- The invariant of a run: some list of ranges explains the live addresses. -/
def PmemInv (base : Nat) (regions : List MemRegion) (s : PmemRun) : Prop :=
  ∃ ranges, PmemOk base regions s ranges

theorem pmemInv_init (pm : Pmem) {regions : List MemRegion} (hu : Usable regions) :
    PmemInv (PmemRun.init pm regions).pm.base regions (PmemRun.init pm regions) :=
  ⟨[], rfl, rfl, by simp, by simp, Sound.empty (vmInit_booted pm hu).usable⟩

theorem pmemInv_step {base : Nat} {regions : List MemRegion} (hbase : 0 < base)
    (hbelow : ∀ r ∈ regions, r.base + r.size ≤ 2 ^ 52) (s : PmemRun) (c : PmemCall) (s' : PmemRun)
    (hinv : PmemInv base regions s) (hstep : s.step c s') : PmemInv base regions s' := by
  obtain ⟨ranges, hok⟩ := hinv
  have hnothing : ∀ count, PmemInv base regions (s.keep (s.pm, 0) count) := by
    intro count
    rw [PmemRun.keep, if_pos rfl]
    exact ⟨ranges, hok⟩
  cases c with
  | allocPage =>
      rw [show s' = _ from hstep]
      rcases pmemAllocPage_spec s.pm with hnone | ⟨idx, ht, haddr⟩
      · rw [hnone]
        exact hnothing 1
      · exact hok.take hbelow Nat.one_pos ht haddr
  | allocPages count =>
      rw [show s' = _ from hstep]
      rcases pmemAllocPages_spec s.pm count.toNat with hnone | ⟨start, ht, haddr⟩
      · rw [hnone]
        exact hnothing count.toNat
      · by_cases hz : count.toNat = 0
        · have : pmemAllocPages s.pm count.toNat = (s.pm, 0) := by rw [pmemAllocPages, if_pos hz]
          rw [this]
          exact hnothing count.toNat
        · exact hok.take hbelow (Nat.pos_of_ne_zero hz) ht haddr
  | freePage addr =>
      obtain ⟨hmem, rfl⟩ := hstep
      rw [pmemFreePage_eq]
      exact hok.give hbase hbelow hmem
  | freePages addr count =>
      obtain ⟨hmem, rfl⟩ := hstep
      exact hok.give hbase hbelow hmem

/-- The addresses of the two allocations do not meet. -/
def AddrsApart (a b : Nat × Nat) : Prop :=
  a.1 + a.2 * pageSize ≤ b.1 ∨ b.1 + b.2 * pageSize ≤ a.1

theorem rangeAddr_apart {base : Nat} {r q : Range} (hr : 0 < r.len) (hq : 0 < q.len)
    (h : r.Apart q) : AddrsApart (rangeAddr base r) (rangeAddr base q) := by
  have hps : pageSize = 4096 := rfl
  by_cases hle : r.start ≤ q.start
  · have := h q.start
    simp only [Range.Has] at this
    refine Or.inl ?_
    simp only [rangeAddr, hps]
    omega
  · have := h r.start
    simp only [Range.Has] at this
    refine Or.inr ?_
    simp only [rangeAddr, hps]
    omega

/--
**Pages are handed out once and from the right place.**  Whatever the memory map and whatever
the run, every page of a live allocation is a whole page of one input region above the first
megabyte, and no two live allocations share an address.
-/
theorem pmem_pages_owned_once (pm : Pmem) {regions : List MemRegion} (hu : Usable regions)
    {calls : List PmemCall} {s : PmemRun}
    (hrun : Executes PmemRun.step (PmemRun.init pm regions) calls s) :
    (∀ a ∈ s.live, ∀ k, k < a.2 → PageUsable regions (a.1 + k * pageSize)) ∧
      s.live.Pairwise AddrsApart := by
  have hboot := vmInit_booted pm hu
  have hpos : 0 < (PmemRun.init pm regions).pm.base := by
    have := hboot.aboveLow
    show 0 < (vmInit pm (vmBootstrap regions)).base
    omega
  obtain ⟨ranges, hok⟩ := hrun.invariant (pmemInv_step hpos hu.below) (pmemInv_init pm hu)
  constructor
  · intro a ha k hk
    rw [hok.liveEq] at ha
    obtain ⟨r, hr, rfl⟩ := List.mem_map.mp ha
    have := hok.sound.liveUsable r hr (r.start + k) ⟨by omega, by exact Nat.add_lt_add_left hk _⟩
    rw [rangeAddr]
    dsimp only
    rw [Nat.add_assoc, ← Nat.add_mul]
    exact this
  · rw [hok.liveEq, List.pairwise_map]
    refine hok.sound.apart.imp_of_mem fun {r q} hr hq h => ?_
    exact rangeAddr_apart (hok.pos r hr) (hok.pos q hq) h

/-- One small region, over a bitmap that was never written. -/
def bootPmem : Pmem := { bitmap := fun _ => 0#64, base := 0, totalPages := 0, freePages := 0 }

def bootRegions : List MemRegion := [{ base := 0x100000, size := 0x10000 }]

/-- One page and then three, of which the one is given back. -/
theorem pmem_pages_owned_once_alloc_free :
    ∃ s, Executes PmemRun.step (PmemRun.init bootPmem bootRegions)
        [.allocPage, .allocPages 3, .freePage 0x100000] s ∧
      s.live = [(0x101000, 3)] ∧
      (∀ a ∈ s.live, ∀ k, k < a.2 → PageUsable bootRegions (a.1 + k * pageSize)) ∧
      s.live.Pairwise AddrsApart := by
  have hu : Usable bootRegions :=
    ⟨by decide, { base := 0x100000, size := 0x10000 }, by decide, 0x100000, by decide⟩
  have hone : (pmemAllocPage (PmemRun.init bootPmem bootRegions).pm).2 = 0x100000 := by
    decide +kernel
  have hthree : (pmemAllocPages (pmemAllocPage (PmemRun.init bootPmem bootRegions).pm).1 3).2 =
      0x101000 := by decide +kernel
  let s₁ : PmemRun := { pm := (pmemAllocPage (PmemRun.init bootPmem bootRegions).pm).1,
                        live := [(0x100000, 1)] }
  let s₂ : PmemRun := { pm := (pmemAllocPages s₁.pm 3).1,
                        live := [(0x101000, 3), (0x100000, 1)] }
  let s₃ : PmemRun := { pm := pmemFreePage s₂.pm 0x100000, live := [(0x101000, 3)] }
  have hstep₁ : (PmemRun.init bootPmem bootRegions).step .allocPage s₁ := by
    show s₁ = PmemRun.keep _ _ _
    rw [PmemRun.keep, hone]
    rfl
  have hstep₂ : s₁.step (.allocPages 3) s₂ := by
    show s₂ = PmemRun.keep _ _ _
    rw [PmemRun.keep, show (3 : UInt32).toNat = 3 from rfl, hthree]
    rfl
  have hstep₃ : s₂.step (.freePage 0x100000) s₃ := ⟨by simp [s₂], by simp [s₂, s₃]⟩
  have hrun := Executes.cons hstep₁ (.cons hstep₂ (.cons hstep₃ (.nil _)))
  exact ⟨s₃, hrun, rfl, pmem_pages_owned_once bootPmem hu hrun⟩

end BrightS
