/-
The pages that mapping takes.

The allocator hands out the lowest free page, and fails only when none is left.  A walk
that creates tables takes at most one page per level, so four free pages are enough for
a mapping to succeed.

What one allocation, one step of a walk and one mapping can do is said here once
(`allocPtPage_cases`, `walkEnsure_cases`, `pagingMap_cases`), and from it what all of them
preserve (`pagingMap_invariant`).
-/
import BrightS.Kernel.Paging
import BrightS.Proofs.Pmem

namespace BrightS

open Ranges Words

/-! ### The lowest free page -/

/-- The allocator finds a page that is not above a free one, or the free one is none of the pages
it may hand out. -/
theorem pmemAllocPage_first {pm : Pmem} {j : Nat} (hj : PageFree pm j) :
    (pmemAllocPage pm = (pm, 0) ∧ pm.totalPages ≤ j) ∨
      ∃ idx, idx ≤ j ∧ (pmemAllocPage pm).2 = (pm.base + idx * pageSize) % 2 ^ 64 := by
  rcases lowest_or_full pm with ⟨idx, hidx⟩ | hfull
  · have hle : idx ≤ j := hidx.2 hj
    rw [pmemAllocPage_lowest hidx]
    split
    · exact .inl ⟨rfl, by omega⟩
    · exact .inr ⟨idx, hle, rfl⟩
  · exact absurd hj (hfull j)

theorem pmemAllocPage_le {pm : Pmem} {x : Nat} (hx : AddrFree pm x) :
    (pmemAllocPage pm).2 ≤ x := by
  obtain ⟨j, hj, rfl⟩ := hx
  rcases pmemAllocPage_first hj with ⟨hnone, -⟩ | ⟨idx, hle, haddr⟩
  · rw [hnone]
    exact Nat.zero_le _
  · rw [haddr]
    exact (Nat.mod_le _ _).trans (Nat.add_le_add_left (Nat.mul_le_mul_right _ hle) _)

/-! ### Counting free pages -/

def freePageCount (pm : Pmem) : Nat :=
  ((Finset.range pm.totalPages).filter fun i => i < pmemMaxPages ∧ bitmapTest pm i = false).card

/-- An allocation finds nothing free, or takes one of the free pages. -/
theorem pmemAllocPage_counts (pm : Pmem) :
    (freePageCount pm = 0 ∧ pmemAllocPage pm = (pm, 0)) ∨
      (freePageCount (pmemAllocPage pm).1 + 1 = freePageCount pm ∧
        (pmemAllocPage pm).1.freePages = sub64 pm.freePages 1) := by
  have hnone : (∀ i < pm.totalPages, ¬ PageFree pm i) → freePageCount pm = 0 := by
    intro hfull
    rw [freePageCount, Finset.card_eq_zero, Finset.filter_eq_empty_iff]
    exact fun i hi hfree => hfull i (Finset.mem_range.mp hi) hfree
  rcases lowest_or_full pm with ⟨idx, hidx⟩ | hfull
  · rw [pmemAllocPage_lowest hidx]
    split
    · rename_i hle
      exact .inl ⟨hnone fun i hi hfree => absurd (hidx.2 hfree) (by omega), rfl⟩
    · rename_i hlt
      refine .inr ⟨?_, rfl⟩
      have hmem : idx ∈ (Finset.range pm.totalPages).filter fun i =>
          i < pmemMaxPages ∧ bitmapTest pm i = false :=
        Finset.mem_filter.mpr ⟨Finset.mem_range.mpr (not_le.mp hlt), hidx.1⟩
      refine Eq.trans ?_ (Finset.card_erase_add_one hmem)
      congr 1
      refine congrArg Finset.card (Finset.ext fun i => ?_)
      have hbit := bitmapTest_bitmapSet pm idx i
      rw [bitmapTest] at hbit
      rw [Finset.mem_erase, Finset.mem_filter, Finset.mem_filter, bitmapTest]
      dsimp only
      rw [hbit, Bool.or_eq_false_iff, decide_eq_false_iff_not]
      constructor
      · rintro ⟨hr, h1, h2, h3⟩
        exact ⟨fun heq => h2 heq, hr, h1, h3⟩
      · rintro ⟨hne', hr, h1, h3⟩
        exact ⟨hr, h1, fun heq => hne' heq, h3⟩
  · exact .inl ⟨hnone fun i _ => hfull i, pmemAllocPage_full hfull⟩

/-- `pm'` is `pm` without at most `n` of its free pages. -/
structure Taken (n : Nat) (pm pm' : Pmem) : Prop where
  base : pm'.base = pm.base
  totalPages : pm'.totalPages = pm.totalPages
  free : ∀ i, PageFree pm' i → PageFree pm i
  count : freePageCount pm ≤ freePageCount pm' + n

namespace Taken

variable {n m : Nat} {pm pm' pm'' : Pmem}

theorem refl (n : Nat) (pm : Pmem) : Taken n pm pm :=
  ⟨rfl, rfl, fun _ h => h, Nat.le_add_right _ _⟩

theorem trans (h : Taken n pm pm') (h' : Taken m pm' pm'') : Taken (n + m) pm pm'' := by
  refine ⟨h'.base.trans h.base, h'.totalPages.trans h.totalPages, fun i hi => h.free i (h'.free i hi),
    ?_⟩
  have h₁ := h.count
  have h₂ := h'.count
  omega

theorem weaken (h : Taken n pm pm') (hle : n ≤ m) : Taken m pm pm' :=
  ⟨h.base, h.totalPages, h.free, h.count.trans (Nat.add_le_add_left hle _)⟩

theorem sane (h : Taken n pm pm') (hs : PmemSane pm) : PmemSane pm' := by
  refine ⟨?_, ?_, fun i hi => ?_⟩
  · rw [h.base]
    exact hs.aligned
  · rw [h.base]
    exact hs.pos
  · rw [h.base]
    exact hs.below i (h.free i hi)

theorem addrFree (h : Taken n pm pm') {x : Nat} (hx : AddrFree pm' x) : AddrFree pm x := by
  obtain ⟨i, hi, rfl⟩ := hx
  exact ⟨i, h.free i hi, by rw [h.base]⟩

end Taken

theorem pmemAllocPage_taken (pm : Pmem) : Taken 1 pm (pmemAllocPage pm).1 := by
  rcases pmemAllocPage_spec pm with hnone | ⟨idx, ht, -⟩
  · rw [hnone]
    exact .refl 1 pm
  · have hrest : ∀ i, PageFree (pmemAllocPage pm).1 i ↔ PageFree pm i ∧ i ≠ idx := by
      intro i
      rw [ht.rest i, Range.Has]
      dsimp only
      exact and_congr_right fun _ => by omega
    refine ⟨ht.base, ht.totalPages, fun i hi => ((hrest i).mp hi).1, ?_⟩
    unfold freePageCount
    rw [ht.totalPages]
    refine (Finset.card_le_card fun i hi => ?_).trans (Finset.card_insert_le idx _)
    obtain ⟨hrange, hfree⟩ := Finset.mem_filter.mp hi
    by_cases hidx : i = idx
    · rw [hidx]
      exact Finset.mem_insert_self ..
    · exact Finset.mem_insert_of_mem (Finset.mem_filter.mpr ⟨hrange, (hrest i).mpr ⟨hfree, hidx⟩⟩)

theorem pmemAllocPage_ok {pm : Pmem} (h : PmemSane pm) (hfree : 0 < freePageCount pm) :
    (pmemAllocPage pm).2 ≠ 0 := by
  obtain ⟨j, hj⟩ := Finset.card_pos.mp hfree
  obtain ⟨hrange, hj⟩ := Finset.mem_filter.mp hj
  have hpos := h.pos
  have hbelow := h.below j hj
  rcases pmemAllocPage_first hj with ⟨-, htotal⟩ | ⟨idx, hle, haddr⟩
  · have := Finset.mem_range.mp hrange
    omega
  · have hmul := Nat.mul_le_mul_right pageSize hle
    rw [haddr, Nat.mod_eq_of_lt (by omega)]
    omega

/-! ### Walks

The allocator is one step here: what it answers has a name, and no proof below looks into it.
-/

theorem allocPtPage_cases (s : Paging) :
    ∃ res, pmemAllocPage s.pm = res ∧
      ((res.2 = 0 ∧ allocPtPage s = ({ s with pm := res.1, allocFailed := true }, 0)) ∨
        (res.2 ≠ 0 ∧ allocPtPage s =
          ({ s with pm := res.1, mem := Function.update s.mem res.2 fun _ => 0 }, res.2))) := by
  refine ⟨pmemAllocPage s.pm, rfl, ?_⟩
  unfold allocPtPage
  generalize pmemAllocPage s.pm = res
  by_cases hnone : res.2 = 0
  · exact .inl ⟨hnone, if_pos hnone⟩
  · exact .inr ⟨hnone, if_neg hnone⟩

/-- A missing entry is the only one that costs a page. -/
theorem walkEnsure_cases (s : Paging) (table : Nat) (i : PtIndex) (create : Bool) :
    (∃ ok, walkEnsure s table i create = (s, ok) ∧ (create = true → ok = true)) ∨
      ∃ res, allocPtPage s = res ∧
        ((res.2 = 0 ∧ walkEnsure s table i create = (res.1, false)) ∨
          (res.2 ≠ 0 ∧ ∃ e, walkEnsure s table i create = (writePte res.1 table i e, true))) := by
  by_cases hp : ptePresent (readPte s table i)
  · exact .inl ⟨true, if_pos hp, fun _ => rfl⟩
  · cases create with
    | false => exact .inl ⟨false, by rw [walkEnsure, if_neg hp, if_pos rfl], fun h => h⟩
    | true =>
        refine .inr ⟨allocPtPage s, rfl, ?_⟩
        unfold walkEnsure
        rw [if_neg hp, if_neg (by simp)]
        generalize allocPtPage s = res
        by_cases hnone : res.2 = 0
        · exact .inl ⟨hnone, if_pos hnone⟩
        · exact .inr ⟨hnone, _, if_neg hnone⟩

theorem pagingCreateAddressSpace_cases (s : Paging) :
    ∃ res, allocPtPage s = res ∧
      ((res.2 = 0 ∧ pagingCreateAddressSpace s = (res.1, 0)) ∨
        (res.2 ≠ 0 ∧ pagingCreateAddressSpace s = (copyKernelHalf res.1 res.2, res.2))) := by
  refine ⟨allocPtPage s, rfl, ?_⟩
  unfold pagingCreateAddressSpace
  generalize allocPtPage s = res
  by_cases hnone : res.2 = 0
  · exact .inl ⟨hnone, if_pos hnone⟩
  · exact .inr ⟨hnone, if_neg hnone⟩

theorem walkPageTable_loaded {s : Paging} (h0 : s.pml4Table ≠ 0) (virt : Nat) (create : Bool) :
    walkPageTable s virt create = walkFrom virt create false ptLevelPml4 s s.pml4Table := by
  rw [walkPageTable, walkPageTableEx, if_neg h0]

/-- A mapping is a walk, and a write to the entry that the walk finds. -/
theorem pagingMap_cases {s : Paging} (h0 : s.pml4Table ≠ 0) (virt phys flags : Nat) :
    ∃ res, walkFrom (virt &&& lnot64 0xFFF) true false ptLevelPml4 s s.pml4Table = res ∧
      ((res.2 = none ∧ pagingMap s virt phys flags = (res.1, -1)) ∨
        ∃ t i e, res.2 = some (t, i) ∧
          pagingMap s virt phys flags = (writePte res.1 t i e, 0)) := by
  refine ⟨_, rfl, ?_⟩
  unfold pagingMap
  rw [if_neg h0]
  dsimp only
  rw [walkPageTable_loaded h0]
  generalize walkFrom (virt &&& lnot64 0xFFF) true false ptLevelPml4 s s.pml4Table = res
  obtain ⟨s', - | ⟨t, i⟩⟩ := res
  · exact .inl ⟨rfl, rfl⟩
  · exact .inr ⟨t, i, _, rfl, rfl⟩

section Invariant

variable {P : Paging → Prop}

theorem walkEnsure_invariant (halloc : ∀ s res, allocPtPage s = res → P s → P res.1)
    (hwrite : ∀ s t i e, P s → P (writePte s t i e)) {s : Paging} (h : P s) (table : Nat)
    (i : PtIndex) (create : Bool) : P (walkEnsure s table i create).1 := by
  obtain ⟨ok, heq, -⟩ | ⟨res, hres, ⟨-, heq⟩ | ⟨-, e, heq⟩⟩ :=
    walkEnsure_cases s table i create
  · rw [heq]
    exact h
  · rw [heq]
    exact halloc s res hres h
  · rw [heq]
    exact hwrite _ _ _ _ (halloc s res hres h)

/-- What a new table and a written entry preserve holds after a walk. -/
theorem walkFrom_invariant (halloc : ∀ s res, allocPtPage s = res → P s → P res.1)
    (hwrite : ∀ s t i e, P s → P (writePte s t i e)) (virt : Nat) (create stopAtPd : Bool)
    (level : Nat) : ∀ {s : Paging}, P s → ∀ table,
      P (walkFrom virt create stopAtPd level s table).1 := by
  induction level with
  | zero =>
      intro s h table
      have hstep := walkEnsure_invariant halloc hwrite h table (ptIndex virt 0) create
      unfold walkFrom
      dsimp only
      split_ifs <;> exact hstep
  | succ level ih =>
      intro s h table
      have hstep := walkEnsure_invariant halloc hwrite h table (ptIndex virt (level + 1)) create
      unfold walkFrom
      dsimp only
      split_ifs
      · exact hstep
      · exact hstep
      · exact hstep
      · exact ih hstep _

theorem pagingMap_invariant (halloc : ∀ s res, allocPtPage s = res → P s → P res.1)
    (hwrite : ∀ s t i e, P s → P (writePte s t i e)) {s : Paging} (h : P s)
    (virt phys flags : Nat) : P (pagingMap s virt phys flags).1 := by
  by_cases h0 : s.pml4Table = 0
  · rw [pagingMap, if_pos h0]
    exact h
  · have hwalk := walkFrom_invariant halloc hwrite (virt &&& lnot64 0xFFF) true false ptLevelPml4
      h s.pml4Table
    obtain ⟨res, hres, hcases⟩ := pagingMap_cases h0 virt phys flags
    rw [hres] at hwalk
    obtain ⟨-, heq⟩ | ⟨t, i, e, -, heq⟩ := hcases
    · rw [heq]
      exact hwalk
    · rw [heq]
      exact hwrite _ _ _ _ hwalk

end Invariant

theorem allocPtPage_pml4 (s : Paging) : (allocPtPage s).1.pml4Table = s.pml4Table := by
  obtain ⟨res, -, ⟨-, heq⟩ | ⟨-, heq⟩⟩ := allocPtPage_cases s <;> rw [heq]

theorem pagingMap_pml4 (s : Paging) (virt phys flags : Nat) :
    (pagingMap s virt phys flags).1.pml4Table = s.pml4Table :=
  pagingMap_invariant (P := fun (mid : Paging) => mid.pml4Table = s.pml4Table)
    (fun mid _ hres hmid => hres ▸ (allocPtPage_pml4 mid).trans hmid)
    (fun _ _ _ _ hmid => hmid) rfl virt phys flags

/-! ### Pages taken -/

theorem allocPtPage_taken (s : Paging) : Taken 1 s.pm (allocPtPage s).1.pm := by
  have h := pmemAllocPage_taken s.pm
  obtain ⟨res, hres, hcases⟩ := allocPtPage_cases s
  rw [hres] at h
  obtain ⟨-, heq⟩ | ⟨-, heq⟩ := hcases
  · rw [heq]
    exact h
  · rw [heq]
    exact h

theorem allocPtPage_ok {s : Paging} (h : PmemSane s.pm) (hfree : 0 < freePageCount s.pm) :
    (allocPtPage s).2 ≠ 0 := by
  have hok := pmemAllocPage_ok h hfree
  obtain ⟨res, hres, ⟨hnone, -⟩ | ⟨hsome, heq⟩⟩ := allocPtPage_cases s
  · rw [hres] at hok
    exact absurd hnone hok
  · rw [heq]
    exact hsome

theorem walkEnsure_taken (s : Paging) (table : Nat) (i : PtIndex) (create : Bool) :
    Taken 1 s.pm (walkEnsure s table i create).1.pm := by
  have h := allocPtPage_taken s
  obtain ⟨ok, heq, -⟩ | ⟨res, hres, ⟨-, heq⟩ | ⟨-, e, heq⟩⟩ :=
    walkEnsure_cases s table i create
  · rw [heq]
    exact .refl 1 s.pm
  · rw [hres] at h
    rw [heq]
    exact h
  · rw [hres] at h
    rw [heq]
    exact h

theorem walkEnsure_ok {s : Paging} (h : PmemSane s.pm) (hfree : 0 < freePageCount s.pm)
    (table : Nat) (i : PtIndex) : (walkEnsure s table i true).2 = true := by
  have hpage := allocPtPage_ok h hfree
  obtain ⟨ok, heq, hok⟩ | ⟨res, hres, ⟨hnone, -⟩ | ⟨-, e, heq⟩⟩ := walkEnsure_cases s table i true
  · rw [heq]
    exact hok rfl
  · rw [hres] at hpage
    exact absurd hnone hpage
  · rw [heq]

theorem walkFrom_taken (virt : Nat) (create stopAtPd : Bool) (level : Nat) :
    ∀ (s : Paging) (table : Nat),
      Taken (level + 1) s.pm (walkFrom virt create stopAtPd level s table).1.pm := by
  induction level with
  | zero =>
      intro s table
      have h := walkEnsure_taken s table (ptIndex virt 0) create
      unfold walkFrom
      dsimp only
      split_ifs <;> exact h
  | succ level ih =>
      intro s table
      have h := walkEnsure_taken s table (ptIndex virt (level + 1)) create
      unfold walkFrom
      dsimp only
      split_ifs
      · exact h.weaken (by omega)
      · exact h.weaken (by omega)
      · exact h.weaken (by omega)
      · rw [Nat.add_comm (level + 1) 1]
        exact h.trans (ih _ _)

theorem walkFrom_ok (virt : Nat) (stopAtPd : Bool) (level : Nat) :
    ∀ {s : Paging} (table : Nat), PmemSane s.pm → level < freePageCount s.pm →
      (walkFrom virt true stopAtPd level s table).2.isSome := by
  induction level with
  | zero =>
      intro s table h hfree
      have hok := walkEnsure_ok h hfree table (ptIndex virt 0)
      unfold walkFrom
      dsimp only
      rw [if_neg (by rw [hok]; simp)]
      split_ifs <;> rfl
  | succ level ih =>
      intro s table h hfree
      have hok := walkEnsure_ok h (by omega) table (ptIndex virt (level + 1))
      have htaken := walkEnsure_taken s table (ptIndex virt (level + 1)) true
      have hcount := htaken.count
      unfold walkFrom
      dsimp only
      rw [if_neg (by rw [hok]; simp)]
      split_ifs
      · rfl
      · rfl
      · exact ih _ (htaken.sane h) (by omega)

/-- A mapping takes at most a page per level. -/
theorem pagingMap_taken (s : Paging) (virt phys flags : Nat) :
    Taken 4 s.pm (pagingMap s virt phys flags).1.pm := by
  by_cases h0 : s.pml4Table = 0
  · rw [pagingMap, if_pos h0]
    exact .refl 4 s.pm
  · have h := walkFrom_taken (virt &&& lnot64 0xFFF) true false ptLevelPml4 s s.pml4Table
    obtain ⟨res, hres, hcases⟩ := pagingMap_cases h0 virt phys flags
    rw [hres] at h
    obtain ⟨-, heq⟩ | ⟨t, i, e, -, heq⟩ := hcases
    · rw [heq]
      exact h
    · rw [heq]
      exact h

theorem pagingMap_ok {s : Paging} (h0 : s.pml4Table ≠ 0) (h : PmemSane s.pm)
    (hfree : 4 ≤ freePageCount s.pm) (virt phys flags : Nat) :
    (pagingMap s virt phys flags).2 = 0 := by
  have hsome : (walkFrom (virt &&& lnot64 0xFFF) true false ptLevelPml4 s s.pml4Table).2.isSome :=
    walkFrom_ok _ _ _ _ h hfree
  obtain ⟨res, hres, ⟨hnone, -⟩ | ⟨t, i, e, -, heq⟩⟩ := pagingMap_cases h0 virt phys flags
  · rw [hres, hnone] at hsome
    exact absurd hsome (by simp)
  · rw [heq]

end BrightS
