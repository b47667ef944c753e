/-
What the page allocator finds.

A single page is the lowest clear bit of the bitmap, a run is the first that fits.  Two things
stand between a clear bit and its caller.  The bitmap is indexed by the distance from the lowest
page while the limit is the number of usable pages, so over a map with holes clear bits lie
above the limit and only single pages are refused.  And a page at address 0 is a null pointer.
-/
import BrightS.Proofs.PmemCount

namespace BrightS

open Runs Words

/-! ### Single pages -/

/-- The lowest free page, if there is one, is below the limit and not at address 0. -/
def Servable (pm : Pmem) : Prop :=
  ∀ i, IsLeast {i | PageFree pm i} i →
    i < pm.totalPages ∧ (pm.base + i * pageSize) % 2 ^ 64 ≠ 0

theorem clearBits_eq_zero {pm : Pmem} : clearBits pm = 0 ↔ ∀ i, ¬ PageFree pm i := by
  rw [clearBits, Finset.card_eq_zero, Finset.eq_empty_iff_forall_notMem]
  exact forall_congr' fun i => not_congr mem_clearPages

/-- A page is had exactly if the lowest free page can be handed out. -/
theorem pmemAllocPage_ne_zero {pm : Pmem} {i : Nat} (hi : IsLeast {i | PageFree pm i} i) :
    (pmemAllocPage pm).2 ≠ 0 ↔
      i < pm.totalPages ∧ (pm.base + i * pageSize) % 2 ^ 64 ≠ 0 := by
  rw [pmemAllocPage_lowest hi]
  by_cases hle : pm.totalPages ≤ i
  · rw [if_pos hle]
    simp [hle]
  · rw [if_neg hle]
    simp [Nat.not_le.mp hle]

theorem servable_iff (pm : Pmem) :
    ((pmemAllocPage pm).2 = 0 → clearBits pm = 0) ↔ Servable pm := by
  rcases lowest_or_full pm with ⟨i, hi⟩ | hfull
  · have hclear : clearBits pm ≠ 0 := fun hzero => clearBits_eq_zero.mp hzero i hi.1
    have hne := pmemAllocPage_ne_zero hi
    constructor
    · intro h j hj
      rw [hj.unique hi]
      exact hne.mp fun hnull => hclear (h hnull)
    · intro h hnull
      exact absurd hnull (hne.mpr (h i hi))
  · exact ⟨fun _ j hj => absurd hj.1 (hfull j), fun _ _ => clearBits_eq_zero.mpr hfull⟩

/-! ### Runs -/

/-- Any page operation with any arguments. -/
def PmemCall.step (pm : Pmem) (c : PmemCall) (pm' : Pmem) : Prop :=
  match c with
  | .allocPage => pm' = (pmemAllocPage pm).1
  | .allocPages count => pm' = (pmemAllocPages pm count.toNat).1
  | .freePage addr => pm' = pmemFreePage pm addr
  | .freePages addr count => pm' = pmemFreePages pm addr count.toNat

theorem counted_step (pm : Pmem) (c : PmemCall) (pm' : Pmem) (h : Counted pm)
    (hstep : c.step pm pm') : Counted pm' := by
  cases c with
  | allocPage =>
      rw [show pm' = _ from hstep]
      exact h.allocPage
  | allocPages count =>
      rw [show pm' = _ from hstep]
      exact h.allocPages count.toNat
  | freePage addr =>
      rw [show pm' = _ from hstep, pmemFreePage_eq]
      exact h.freePages addr 1
  | freePages addr count =>
      rw [show pm' = _ from hstep]
      exact h.freePages addr count.toNat

/-- Regions of physical memory that share no address, one of them with a whole page. -/
structure MemoryMap (regions : List MemRegion) : Prop where
  fits : ∀ r ∈ regions, r.base + r.size ≤ 2 ^ 52
  disjoint : RegionsDisjoint regions
  page : ∃ r ∈ regions, regionBase r < regionEnd r

/--
**When a page is refused.**  After any calls on any memory map, a null pointer means that no bit
is clear exactly if the lowest clear bit, if any, is below the number of usable pages and does not
stand for address 0.  The same decides whether a page is had while the counter is not zero.
-/
theorem pmem_alloc_page_complete_iff {pm s : Pmem} {regions : List MemRegion}
    {calls : List PmemCall}
    (hrun : Executes PmemCall.step (pmemInit pm regions) calls s) :
    (((pmemAllocPage s).2 = 0 → clearBits s = 0) ↔ Servable s) ∧
      (MemoryMap regions → ((0 < s.freePages → (pmemAllocPage s).2 ≠ 0) ↔ Servable s)) := by
  refine ⟨servable_iff s, fun hmap => ?_⟩
  have hcounted : Counted s :=
    hrun.invariant counted_step (pmemInit_counted pm hmap.fits hmap.disjoint hmap.page).counted
  rw [← servable_iff s, hcounted]
  constructor
  · intro h hnull
    by_contra hclear
    exact h (Nat.pos_of_ne_zero hclear) hnull
  · intro h hpos hnull
    exact absurd (h hnull) (Nat.pos_iff_ne_zero.mp hpos)

/-- One region without holes. -/
theorem pmem_alloc_page_complete_whole :
    ∃ s, Executes PmemCall.step (pmemInit bootPmem bootRegions)
        [.allocPage] s ∧
      ((pmemAllocPage s).2 = 0 → clearBits s = 0) := by
  have hrun : Executes PmemCall.step (pmemInit bootPmem bootRegions)
      [.allocPage] _ := .cons rfl (.nil _)
  refine ⟨_, hrun, (pmem_alloc_page_complete_iff hrun).1.mpr fun i hi => ?_⟩
  have hfree : PageFree (pmemAllocPage (pmemInit bootPmem bootRegions)).1 1 :=
    ⟨by decide, by decide +kernel⟩
  have hle : i ≤ 1 := hi.2 hfree
  have hused : ¬ PageFree (pmemAllocPage (pmemInit bootPmem bootRegions)).1 0 := by
    rintro ⟨-, hclear⟩
    exact absurd hclear (by decide +kernel)
  have hne : i ≠ 0 := by
    rintro rfl
    exact hused hi.1
  obtain rfl : i = 1 := by omega
  decide +kernel

/-- Two pages with a hole between them: when the first is taken, the second is not had. -/
def holedRegions : List MemRegion := [⟨0x100000, 0x1000⟩, ⟨0x200000, 0x1000⟩]

theorem pmem_alloc_page_refused : ¬ ∀ (pm s : Pmem) (calls : List PmemCall),
    Executes PmemCall.step (pmemInit pm holedRegions) calls s →
      (pmemAllocPage s).2 = 0 → clearBits s = 0 := by
  intro hall
  have hzero := hall bootPmem _ [.allocPage] (.cons rfl (.nil _)) (by decide +kernel)
  exact clearBits_eq_zero.mp hzero 256 ⟨by decide, by decide +kernel⟩

/-! ### Runs of pages -/

/--
**Several pages are had first fit.**  The first run of clear bits that is long enough is handed
out, its bits are set and no others, and the counter goes down by its length; a null pointer
means that there is no such run, or that the first one begins at address 0.
-/
theorem pmem_alloc_pages_first_fit (pm : Pmem) {count : Nat} (hcount : 2 ≤ count) :
    ((pmemAllocPages pm count).2 = 0 ↔
      (∀ t, ¬ ClearRun pm count t) ∨
        ∃ t, IsLeast {t | ClearRun pm count t} t ∧ (pm.base + t * pageSize) % 2 ^ 64 = 0) ∧
    ((∀ t, ¬ ClearRun pm count t) → pmemAllocPages pm count = (pm, 0)) ∧
    ∀ t, IsLeast {t | ClearRun pm count t} t →
      (pmemAllocPages pm count).2 = (pm.base + t * pageSize) % 2 ^ 64 ∧
      (∀ j, bitmapTest (pmemAllocPages pm count).1 j =
        (decide (t ≤ j ∧ j < t + count) || bitmapTest pm j)) ∧
      (pmemAllocPages pm count).1.freePages = sub64 pm.freePages count := by
  have hcall : pmemAllocPages pm count =
      (findRun pm count pmemMaxPages 0 0 0).elim (pm, 0) fun startIdx =>
        ({ bitmapSetRun pm startIdx count with freePages := sub64 pm.freePages count },
          (pm.base + startIdx * pageSize) % 2 ^ 64) := by
    rw [pmemAllocPages, if_neg (by omega), if_neg (by omega)]
    cases findRun pm count pmemMaxPages 0 0 0 with
    | none => rfl
    | some startIdx => rfl
  have hsearch : Searched pm count 0 0 0 := Searched.first (by omega)
  rcases findRun_first hsearch (Nat.zero_add pmemMaxPages) with
    ⟨start, hsome, hleast⟩ | ⟨hnone, hno⟩
  · rw [hsome] at hcall
    rw [hcall]
    refine ⟨?_, fun hno => absurd hleast.1 (hno start), fun t ht => ?_⟩
    · constructor
      · exact fun hnull => .inr ⟨start, hleast, hnull⟩
      · rintro (hno | ⟨t, ht, hnull⟩)
        · exact absurd hleast.1 (hno start)
        · rw [ht.unique hleast] at hnull
          exact hnull
    · obtain rfl := ht.unique hleast
      exact ⟨rfl, (bitmapSetRun_spec pm t count).2.2, rfl⟩
  · rw [hnone] at hcall
    rw [hcall]
    exact ⟨iff_of_true rfl (.inl hno), fun _ => rfl, fun t ht => absurd ht.1 (hno t)⟩

/-- Pages 0, 1 and 3 are in use. -/
def usedPmem : Pmem :=
  { bootPmem with bitmap := fun i => if i = 0 then 0b1011#64 else 0#64, base := 0x100000 }

/-- Page 2 alone is too short, so two pages are found behind page 3. -/
theorem pmem_alloc_pages_first_fit_two :
    (pmemAllocPages usedPmem 2).2 = 0x104000 ∧
      bitmapTest (pmemAllocPages usedPmem 2).1 2 = false ∧
      bitmapTest (pmemAllocPages usedPmem 2).1 5 = true := by
  have hused : ∀ t < 4, bitmapTest usedPmem t = true ∨ bitmapTest usedPmem (t + 1) = true := by
    decide
  have hfirst : IsLeast {t | ClearRun usedPmem 2 t} 4 := by
    constructor
    · refine ⟨by decide, fun j hlo hhi => ?_⟩
      obtain rfl | rfl : j = 4 ∨ j = 5 := by omega
      · decide
      · decide
    · rintro t ⟨-, hclear⟩
      by_contra hlt
      rcases hused t (Nat.not_le.mp hlt) with hbit | hbit
      · exact absurd (hbit.symm.trans (hclear t (le_refl t) (by omega))) (by decide)
      · exact absurd (hbit.symm.trans (hclear (t + 1) (by omega) (by omega))) (by decide)
  obtain ⟨haddr, hbits, -⟩ := (pmem_alloc_pages_first_fit usedPmem (le_refl 2)).2.2 4 hfirst
  exact ⟨haddr, (hbits 2).trans (by decide), (hbits 5).trans (by decide)⟩

/-- Two clear pages at address 0 are handed out as a null pointer. -/
theorem pmem_alloc_pages_at_zero : ¬ ∀ (pm : Pmem) (count : Nat), 2 ≤ count →
    ((pmemAllocPages pm count).2 = 0 ↔ ∀ t, ¬ ClearRun pm count t) := by
  intro hall
  have hnull : (pmemAllocPages bootPmem 2).2 = 0 := by decide +kernel
  exact (hall bootPmem 2 (le_refl 2)).mp hnull 0 ⟨by decide, fun j _ _ => bitTest_zero _⟩

end BrightS
