/-
The counters of the page allocator.

`freePages` is kept beside the bitmap: boot counts every page it frees and every page it
reserves, and each call adds or takes what it changed.  The two agree as long as no page is
freed while it is free (`Counted`).  At boot that is the disjointness of the regions; later
the calls look at the bit first.

Every page that is ever free was free after boot, so the counter stays below the number of
pages the regions were counted to have.
-/
import BrightS.Proofs.Pmem

namespace BrightS

open Ranges Runs Words

/-! ### Clear bits -/

def clearPages (pm : Pmem) : Finset Nat :=
  (Finset.range pmemMaxPages).filter fun i => bitmapTest pm i = false

/-- The number of clear bits of the bitmap. -/
def clearBits (pm : Pmem) : Nat := (clearPages pm).card

theorem mem_clearPages {pm : Pmem} {i : Nat} : i ∈ clearPages pm ↔ PageFree pm i := by
  rw [clearPages, Finset.mem_filter, Finset.mem_range, PageFree]

theorem clearBits_le (pm : Pmem) : clearBits pm ≤ pmemMaxPages :=
  (Finset.card_filter_le _ _).trans (Finset.card_range _).le

theorem clearBits_mono {pm pm' : Pmem} (h : ∀ i, PageFree pm' i → PageFree pm i) :
    clearBits pm' ≤ clearBits pm :=
  Finset.card_le_card fun i hi => mem_clearPages.mpr (h i (mem_clearPages.mp hi))

/-- A range of clear bits is set. -/
theorem clearBits_took {pm pm' : Pmem} {r : Range} (h : Took pm pm' r) :
    clearBits pm' + r.len = clearBits pm := by
  have hsub : Finset.Ico r.start (r.start + r.len) ⊆ clearPages pm := by
    intro i hi
    exact mem_clearPages.mpr (h.free i (Finset.mem_Ico.mp hi))
  have heq : clearPages pm' = clearPages pm \ Finset.Ico r.start (r.start + r.len) := by
    ext i
    rw [Finset.mem_sdiff, mem_clearPages, mem_clearPages, h.rest i, Finset.mem_Ico]
    exact Iff.rfl
  have hcard := Finset.card_sdiff_add_card_eq_card hsub
  rw [← heq, Nat.card_Ico, Nat.add_sub_cancel_left] at hcard
  exact hcard

/-- A bit that was set is cleared. -/
theorem clearBits_clear {pm : Pmem} {idx : Nat} (hidx : idx < pmemMaxPages)
    (hset : bitmapTest pm idx = true) : clearBits (bitmapClear pm idx) = clearBits pm + 1 := by
  have hnot : idx ∉ clearPages pm := by
    rw [mem_clearPages]
    rintro ⟨-, hclear⟩
    rw [hset] at hclear
    exact Bool.noConfusion hclear
  have heq : clearPages (bitmapClear pm idx) = insert idx (clearPages pm) := by
    ext i
    rw [Finset.mem_insert, mem_clearPages, mem_clearPages, PageFree, PageFree,
      bitmapTest_bitmapClear]
    by_cases hi : i = idx
    · simp [hi, hidx]
    · simp [hi]
  rw [clearBits, heq, Finset.card_insert_of_notMem hnot, clearBits]

/-- A clear bit is set. -/
theorem clearBits_set {pm : Pmem} {idx : Nat} (hidx : PageFree pm idx) :
    clearBits (bitmapSet pm idx) + 1 = clearBits pm := by
  have heq : clearPages (bitmapSet pm idx) = (clearPages pm).erase idx := by
    ext i
    rw [Finset.mem_erase, mem_clearPages, mem_clearPages, PageFree, PageFree,
      bitmapTest_bitmapSet]
    by_cases hi : i = idx
    · simp [hi]
    · simp [hi]
  rw [clearBits, heq]
  exact Finset.card_erase_add_one (mem_clearPages.mpr hidx)

/-- **The counter is the number of clear bits.** -/
def Counted (pm : Pmem) : Prop := pm.freePages = clearBits pm

namespace Counted

variable {pm : Pmem}

theorem lt (h : Counted pm) : pm.freePages ≤ 2097152 := by
  rw [h]
  exact clearBits_le pm

theorem of_bitmap {pm' : Pmem} (pm : Pmem) (hbits : pm'.bitmap = pm.bitmap)
    (hcount : pm'.freePages = clearBits pm) : Counted pm' := by
  unfold Counted
  rw [hcount]
  unfold clearBits clearPages bitmapTest
  rw [hbits]

theorem release (h : Counted pm) {idx : Nat} (hidx : idx < pmemMaxPages)
    (hset : bitmapTest pm idx = true) :
    Counted { bitmapClear pm idx with freePages := (pm.freePages + 1) % 2 ^ 64 } := by
  have hle := h.lt
  have hbits := clearBits_clear hidx hset
  refine of_bitmap (bitmapClear pm idx) rfl ?_
  rw [hbits, ← h]
  exact Nat.mod_eq_of_lt (by omega)

theorem reserve (h : Counted pm) {idx : Nat} (hidx : PageFree pm idx) :
    Counted { bitmapSet pm idx with freePages := sub64 pm.freePages 1 } := by
  have hle := h.lt
  have hbits := clearBits_set hidx
  rw [← h] at hbits
  refine of_bitmap (bitmapSet pm idx) rfl ?_
  dsimp only
  unfold sub64
  omega

theorem took (h : Counted pm) {pm' : Pmem} {r : Range} (ht : Took pm pm' r)
    (hcount : pm'.freePages = sub64 pm.freePages r.len) : Counted pm' := by
  have hle := h.lt
  have hbits := clearBits_took ht
  rw [← h] at hbits
  show pm'.freePages = clearBits pm'
  rw [hcount]
  unfold sub64
  omega

end Counted

/-! ### The calls -/

theorem pmemAllocPage_freePages (pm : Pmem) :
    pmemAllocPage pm = (pm, 0) ∨ (pmemAllocPage pm).1.freePages = sub64 pm.freePages 1 := by
  unfold pmemAllocPage
  split
  · exact .inl rfl
  · dsimp only
    split
    · exact .inl rfl
    · exact .inr rfl

theorem pmemAllocPages_freePages (pm : Pmem) (count : Nat) :
    pmemAllocPages pm count = (pm, 0) ∨
      (pmemAllocPages pm count).1.freePages = sub64 pm.freePages count := by
  unfold pmemAllocPages
  split
  · exact .inl rfl
  · split
    · rename_i hone
      rw [hone]
      exact pmemAllocPage_freePages pm
    · split
      · exact .inl rfl
      · exact .inr rfl

theorem Counted.allocPage {pm : Pmem} (h : Counted pm) : Counted (pmemAllocPage pm).1 := by
  rcases pmemAllocPage_spec pm with hnone | ⟨idx, ht, -⟩
  · rw [hnone]
    exact h
  · rcases pmemAllocPage_freePages pm with hnone | hcount
    · rw [hnone]
      exact h
    · exact h.took ht hcount

theorem Counted.allocPages {pm : Pmem} (h : Counted pm) (count : Nat) :
    Counted (pmemAllocPages pm count).1 := by
  rcases pmemAllocPages_spec pm count with hnone | ⟨start, ht, -⟩
  · rw [hnone]
    exact h
  · rcases pmemAllocPages_freePages pm count with hnone | hcount
    · rw [hnone]
      exact h
    · exact h.took ht hcount

theorem Counted.releaseRun {pm : Pmem} (h : Counted pm) (start n : Nat) :
    Counted (pmemReleaseRun pm start n) := by
  induction n with
  | zero => exact h
  | succ n ih =>
      rw [pmemReleaseRun, pmemReleaseIdx]
      split
      · rename_i hcond
        exact ih.release hcond.1 hcond.2
      · exact ih

theorem Counted.freePages {pm : Pmem} (h : Counted pm) (addr count : Nat) :
    Counted (pmemFreePages pm addr count) := by
  unfold pmemFreePages
  split
  · exact h
  · split
    · exact h
    · exact h.releaseRun _ _

/-! ### Boot -/

/-- The addresses of the whole pages of a region. -/
def regionAddrs (r : MemRegion) : List Nat := pageAddrs (regionBase r) (regionEnd r)

theorem pageAddrs_nil {lo hi : Nat} (h : hi ≤ lo) : pageAddrs lo hi = [] := by
  unfold pageAddrs
  rw [Nat.sub_eq_zero_of_le h]
  rfl

theorem markRegions_eq (regions : List MemRegion) : ∀ pm : Pmem,
    regions.foldl pmemMarkRegion pm = (regions.flatMap regionAddrs).foldl pmemMarkFree pm := by
  have hone : ∀ pm r, pmemMarkRegion pm r = (regionAddrs r).foldl pmemMarkFree pm := by
    intro pm r
    unfold pmemMarkRegion regionAddrs
    split
    · rename_i hempty
      rw [pageAddrs_nil hempty]
      rfl
    · rfl
  induction regions with
  | nil => exact fun pm => rfl
  | cons r rest ih =>
      intro pm
      rw [List.foldl_cons, List.flatMap_cons, List.foldl_append, ih, hone]

theorem measureAll_freePages (regions : List MemRegion) : ∀ pm : Pmem,
    (regions.foldl pmemMeasure pm).freePages = pm.freePages := by
  induction regions with
  | nil => exact fun pm => rfl
  | cons r rest ih =>
      intro pm
      rw [List.foldl_cons, ih, pmemMeasure]
      split <;> rfl

/-- The pages of the regions are counted, whatever the counter was. -/
theorem measureAll_total (regions : List MemRegion) :
    ∀ pm : Pmem, pm.totalPages < 2 ^ 64 → (regions.foldl pmemMeasure pm).totalPages =
        (pm.totalPages + (regions.flatMap regionAddrs).length) % 2 ^ 64 := by
  induction regions with
  | nil =>
      intro pm hpm
      exact (Nat.mod_eq_of_lt hpm).symm
  | cons r rest ih =>
      intro pm hpm
      have hlo : regionBase r % 4096 = 0 ∧ regionBase r < 2 ^ 64 := alignUpPage_page r.base
      have hhi := regionEnd_page r
      have hlen : (regionAddrs r).length = (regionEnd r - regionBase r) / pageSize := by
        unfold regionAddrs pageAddrs
        rw [List.length_map, List.length_range, show pageSize = 4096 from rfl]
        omega
      have hone : (pmemMeasure pm r).totalPages =
          (pm.totalPages + (regionAddrs r).length) % 2 ^ 64 := by
        unfold pmemMeasure
        split
        · rename_i hempty
          rw [hlen, Nat.sub_eq_zero_of_le hempty, Nat.zero_div, Nat.add_zero,
            Nat.mod_eq_of_lt hpm]
        · rw [hlen]
      have hrest := ih (pmemMeasure pm r)
        (by rw [hone]; exact Nat.mod_lt _ (by omega))
      rw [List.foldl_cons, hrest, hone, List.flatMap_cons, List.length_append, Nat.mod_add_mod,
        Nat.add_assoc]

theorem mem_regionAddrs {r : MemRegion} {a : Nat} (hfits : r.base + r.size ≤ 2 ^ 52)
    (ha : a ∈ regionAddrs r) :
    a % 4096 = 0 ∧ regionBase r < regionEnd r ∧ regionBase r ≤ a ∧ r.base ≤ a ∧
      a + 4096 ≤ r.base + r.size := by
  have hlo := regionBase_eq hfits
  have hhi := regionEnd_eq hfits
  obtain ⟨k, hk, hlt⟩ := mem_pageAddrs ha
  omega

/-- The regions share no address. -/
def RegionsDisjoint (regions : List MemRegion) : Prop :=
  regions.Pairwise fun r q =>
    Disjoint (Set.Ico r.base (r.base + r.size)) (Set.Ico q.base (q.base + q.size))

/-- No page is in two regions. -/
theorem regionAddrs_nodup {regions : List MemRegion}
    (hfits : ∀ r ∈ regions, r.base + r.size ≤ 2 ^ 52) (hdisjoint : RegionsDisjoint regions) :
    (regions.flatMap regionAddrs).Nodup := by
  rw [List.nodup_flatMap]
  constructor
  · intro r hr
    unfold regionAddrs pageAddrs
    refine List.Nodup.map (fun k l hkl => ?_) List.nodup_range
    have hkl : regionBase r + k * 4096 = regionBase r + l * 4096 := hkl
    omega
  · refine List.Pairwise.imp_of_mem (fun {r q} hr hq hrq => ?_) hdisjoint
    intro a har haq
    obtain ⟨-, -, -, hr₁, hr₂⟩ := mem_regionAddrs (hfits r hr) har
    obtain ⟨-, -, -, hq₁, hq₂⟩ := mem_regionAddrs (hfits q hq) haq
    exact Set.disjoint_left.mp hrq ⟨hr₁, by omega⟩ ⟨hq₁, by omega⟩

/-- Distinct pages below `2^52` are few. -/
theorem length_pages_le {addrs : List Nat} (hnodup : addrs.Nodup)
    (hpages : ∀ a ∈ addrs, a % 4096 = 0 ∧ a + 4096 ≤ 2 ^ 52) : addrs.length ≤ 2 ^ 40 := by
  have hinj : Set.InjOn (fun a => a / 4096) {a | a ∈ addrs} := by
    intro a ha b hb hab
    have := (hpages a ha).1
    have := (hpages b hb).1
    have hab : a / 4096 = b / 4096 := hab
    omega
  have hmap : (addrs.map fun a => a / 4096).Nodup := hnodup.map_on fun a ha b hb => hinj ha hb
  have hsub : (addrs.map fun a => a / 4096).toFinset ⊆ Finset.range (2 ^ 40) := by
    intro k hk
    obtain ⟨a, ha, rfl⟩ := List.mem_map.mp (List.mem_toFinset.mp hk)
    have := (hpages a ha).2
    rw [Finset.mem_range]
    omega
  have hcard := Finset.card_le_card hsub
  rwa [List.toFinset_card_of_nodup hmap, List.length_map, Finset.card_range] at hcard

/-- Distinct pages that are not free yet are marked free: each is counted once. -/
theorem markAll_counted (addrs : List Nat) : ∀ {pm : Pmem}, addrs.Nodup → pm.base % 4096 = 0 →
    (∀ a ∈ addrs, a % 4096 = 0 ∧ pm.base ≤ a ∧ a < 2 ^ 64) →
    (∀ a ∈ addrs, ¬ PageFree pm (pageIdx pm a)) → Counted pm →
    Counted (addrs.foldl pmemMarkFree pm) ∧
      clearBits (addrs.foldl pmemMarkFree pm) ≤ clearBits pm + addrs.length ∧
      (addrs.foldl pmemMarkFree pm).totalPages = pm.totalPages := by
  induction addrs with
  | nil => exact fun _ _ _ _ h => ⟨h, Nat.le_add_right _ _, rfl⟩
  | cons addr rest ih =>
      intro pm hnodup halign hpages hused h
      obtain ⟨hnot, hnodup⟩ := List.nodup_cons.mp hnodup
      obtain ⟨haddr, hle, hlt⟩ := hpages addr (List.mem_cons_self ..)
      rw [List.foldl_cons, List.length_cons]
      have hidx : ∀ a, a % 4096 = 0 → pm.base ≤ a → a < 2 ^ 64 →
          pm.base + pageIdx pm a * 4096 = a := by
        intro a ha hba hlta
        unfold pageIdx sub64
        rw [show pageSize = 4096 from rfl]
        omega
      by_cases hmax : pageIdx pm addr < pmemMaxPages
      · have hset : bitmapTest pm (pageIdx pm addr) = true := by
          rw [← Bool.not_eq_false]
          exact fun hclear => hused addr (List.mem_cons_self ..) ⟨hmax, hclear⟩
        have hmark : pmemMarkFree pm addr =
            { bitmapClear pm (pageIdx pm addr) with freePages := (pm.freePages + 1) % 2 ^ 64 } :=
          if_pos hmax
        have hcounted := h.release hmax hset
        have hbits := clearBits_clear hmax hset
        rw [← hmark] at hcounted
        have hsame : clearBits (pmemMarkFree pm addr) = clearBits pm + 1 := by
          rw [← hbits, hmark]
          rfl
        have hstill : ∀ a ∈ rest, ¬ PageFree (pmemMarkFree pm addr) (pageIdx pm a) := by
          intro a ha
          obtain ⟨haa, hla, hlta⟩ := hpages a (List.mem_cons_of_mem _ ha)
          have hne : pageIdx pm a ≠ pageIdx pm addr := by
            intro heq
            have h₁ := hidx a haa hla hlta
            have h₂ := hidx addr haddr hle hlt
            rw [heq] at h₁
            exact hnot (h₁.symm.trans h₂ ▸ ha)
          have hfree := hused a (List.mem_cons_of_mem _ ha)
          rw [hmark]
          intro hclear
          have htest := bitmapTest_bitmapClear pm (pageIdx pm addr) (pageIdx pm a)
          rw [decide_eq_false hne, Bool.not_false, Bool.true_and] at htest
          exact hfree ⟨hclear.1, htest.symm.trans hclear.2⟩
        have hbase : (pmemMarkFree pm addr).base = pm.base := by rw [hmark]; rfl
        have hpages' : ∀ a ∈ rest, a % 4096 = 0 ∧ (pmemMarkFree pm addr).base ≤ a ∧ a < 2 ^ 64 := by
          rw [hbase]
          exact fun a ha => hpages a (List.mem_cons_of_mem _ ha)
        have hstill' : ∀ a ∈ rest,
            ¬ PageFree (pmemMarkFree pm addr) (pageIdx (pmemMarkFree pm addr) a) := by
          unfold pageIdx at hstill ⊢
          rw [hbase]
          exact hstill
        obtain ⟨hrest, hcount, htotal⟩ :=
          ih hnodup (by rw [hbase]; exact halign) hpages' hstill' hcounted
        refine ⟨hrest, by omega, ?_⟩
        rw [htotal, hmark]
        rfl
      · have hmark : pmemMarkFree pm addr = pm := if_neg hmax
        rw [hmark]
        obtain ⟨hrest, hcount, htotal⟩ := ih hnodup halign
          (fun a ha => hpages a (List.mem_cons_of_mem _ ha))
          (fun a ha => hused a (List.mem_cons_of_mem _ ha)) h
        exact ⟨hrest, by omega, htotal⟩

theorem reserveAll_counted (addrs : List Nat) : ∀ {pm : Pmem}, Counted pm →
    Counted (addrs.foldl pmemReserve pm) ∧
      (addrs.foldl pmemReserve pm).totalPages = pm.totalPages := by
  induction addrs with
  | nil => exact fun h => ⟨h, rfl⟩
  | cons addr rest ih =>
      intro pm h
      have hone : Counted (pmemReserve pm addr) ∧
          (pmemReserve pm addr).totalPages = pm.totalPages := by
        unfold pmemReserve
        split
        · split
          · rename_i hfree
            exact ⟨h.reserve hfree, rfl⟩
          · exact ⟨h, rfl⟩
        · exact ⟨h, rfl⟩
      obtain ⟨hrest, htotal⟩ := ih hone.1
      exact ⟨hrest, htotal.trans hone.2⟩

/-- What boot leaves: a base below `2^52`, and a counter that is right and not too large. -/
structure BootCounted (pm : Pmem) : Prop where
  aligned : pm.base % 4096 = 0
  below : pm.base < 2 ^ 52
  counted : Counted pm
  few : clearBits pm ≤ pm.totalPages
  total : pm.totalPages ≤ pmemMaxPages

theorem pmemInit_counted (pm : Pmem) {regions : List MemRegion}
    (hfits : ∀ r ∈ regions, r.base + r.size ≤ 2 ^ 52) (hdisjoint : RegionsDisjoint regions)
    (hpage : ∃ r ∈ regions, regionBase r < regionEnd r) : BootCounted (pmemInit pm regions) := by
  have hnodup := regionAddrs_nodup hfits hdisjoint
  have hpages : ∀ a ∈ regions.flatMap regionAddrs, a % 4096 = 0 ∧ a + 4096 ≤ 2 ^ 52 ∧
      ∃ r ∈ regions, regionBase r < regionEnd r ∧ regionBase r ≤ a := by
    intro a ha
    obtain ⟨r, hr, har⟩ := List.mem_flatMap.mp ha
    obtain ⟨halign, hne, hle, -, hlt⟩ := mem_regionAddrs (hfits r hr) har
    exact ⟨halign, hlt.trans (hfits r hr), r, hr, hne, hle⟩
  have hlen := length_pages_le hnodup fun a ha => ⟨(hpages a ha).1, (hpages a ha).2.1⟩
  unfold pmemInit
  dsimp only
  obtain ⟨hbase, -, hlowest⟩ := measureAll_lowest regions
    { pm with totalPages := 0, freePages := 0, base := 2 ^ 64 - 1 }
  have htotal := measureAll_total regions
    { pm with totalPages := 0, freePages := 0, base := 2 ^ 64 - 1 } (by dsimp only; omega)
  have hfree := measureAll_freePages regions
    { pm with totalPages := 0, freePages := 0, base := 2 ^ 64 - 1 }
  generalize regions.foldl pmemMeasure
    { pm with totalPages := 0, freePages := 0, base := 2 ^ 64 - 1 } = pm₁
    at hbase hlowest htotal hfree
  obtain ⟨q, hq, hne⟩ := hpage
  have hfound : pm₁.base ≠ 2 ^ 64 - 1 := by
    have := hlowest q hq hne
    have := regionBase_eq (hfits q hq)
    have := hfits q hq
    omega
  rw [if_neg hfound]
  have hbase : pm₁.base % 4096 = 0 ∧ pm₁.base < 2 ^ 52 := by
    obtain ⟨r, hr, hne, heq⟩ := hbase.resolve_left hfound
    have := regionBase_eq (hfits r hr)
    have := regionEnd_eq (hfits r hr)
    have := hfits r hr
    omega
  have htotal : pm₁.totalPages = (regions.flatMap regionAddrs).length := by
    rw [htotal, Nat.zero_add, Nat.mod_eq_of_lt (by omega)]
  generalize hfill : pmemFill { pm₁ with
    totalPages := if pmemMaxPages < pm₁.totalPages then pmemMaxPages else pm₁.totalPages } = pm₂
  have hnone : ∀ i, ¬ PageFree pm₂ i := fun i => by rw [← hfill]; exact pmemFill_used _ i
  have hbase₂ : pm₂.base = pm₁.base := by rw [← hfill]; rfl
  have htotal₂ : pm₂.totalPages =
      if pmemMaxPages < pm₁.totalPages then pmemMaxPages else pm₁.totalPages := by rw [← hfill]; rfl
  have hclear : clearBits pm₂ = 0 := by
    rw [clearBits, Finset.card_eq_zero, Finset.eq_empty_iff_forall_notMem]
    exact fun i hi => hnone i (mem_clearPages.mp hi)
  have hcounted₂ : Counted pm₂ := by
    unfold Counted
    rw [hclear, ← hfill]
    exact hfree
  obtain ⟨hmarked, hcount, hsame⟩ := markAll_counted (regions.flatMap regionAddrs) hnodup
    (by rw [hbase₂]; exact hbase.1)
    (fun a ha => by
      obtain ⟨halign, hlt, r, hr, hne, hle⟩ := hpages a ha
      have := hlowest r hr hne
      omega)
    (fun a _ => hnone _) hcounted₂
  have hbase₃ := (markAll_free (regions.flatMap regionAddrs) pm₂).1
  rw [← markRegions_eq] at hmarked hcount hsame hbase₃
  generalize regions.foldl pmemMarkRegion pm₂ = pm₃ at hmarked hcount hsame hbase₃
  generalize pageAddrs 0 (min 0x100000 ((pm₃.base + pm₃.totalPages * pageSize) % 2 ^ 64)) = low
  obtain ⟨hcounted, hsame'⟩ := reserveAll_counted low hmarked
  obtain ⟨hbase₄, hless⟩ := reserveAll_free low pm₃
  have hle := clearBits_mono fun i hi => ((hless i).mp hi).1
  have hmax := clearBits_le pm₃
  rw [hbase₃, hbase₂] at hbase₄
  rw [hsame, htotal₂] at hsame'
  refine ⟨by rw [hbase₄]; exact hbase.1, by rw [hbase₄]; exact hbase.2, hcounted, ?_, ?_⟩
  · rw [hsame']
    split <;> omega
  · rw [hsame']
    split <;> omega

/-! ### Runs -/

/-- A run that starts with the regions as `pmemInit` is given them. -/
def PmemRun.boot (pm : Pmem) (regions : List MemRegion) : PmemRun :=
  { pm := pmemInit pm regions, live := [] }

/-- The counter is right, and what is free or live was free after boot. -/
structure Accounted (pm₀ : Pmem) (s : PmemRun) : Prop where
  counted : Counted s.pm
  base : s.pm.base = pm₀.base
  total : s.pm.totalPages = pm₀.totalPages
  free : ∀ i, PageFree s.pm i → PageFree pm₀ i
  live : ∀ a ∈ s.live, ∃ start, a.1 = pm₀.base + start * pageSize ∧
    ∀ i, start ≤ i → i < start + a.2 → PageFree pm₀ i

namespace Accounted

variable {pm₀ : Pmem} {s : PmemRun}

theorem take (h : Accounted pm₀ s) (hbelow : pm₀.base < 2 ^ 52) {res : Pmem × Nat} {start len : Nat}
    (hlen : 0 < len) (ht : Took s.pm res.1 { start := start, len := len })
    (haddr : res.2 = (s.pm.base + start * pageSize) % 2 ^ 64) (hcounted : Counted res.1) :
    Accounted pm₀ (s.keep res len) := by
  have hps : pageSize = 4096 := rfl
  have hmax : pmemMaxPages = 2097152 := rfl
  have hfirst := (ht.free start ⟨le_refl _, by dsimp only; omega⟩).1
  rw [h.base, hps, Nat.mod_eq_of_lt (by omega)] at haddr
  refine ⟨hcounted, ht.base.trans h.base, ht.totalPages.trans h.total,
    fun i hi => h.free i ((ht.rest i).mp hi).1, fun a ha => ?_⟩
  unfold PmemRun.keep at ha
  dsimp only at ha
  split at ha
  · exact h.live a ha
  · rcases List.mem_cons.mp ha with rfl | ha
    · exact ⟨start, haddr, fun i hle hlt => h.free i (ht.free i ⟨hle, hlt⟩)⟩
    · exact h.live a ha

theorem give (h : Accounted pm₀ s) (hbelow : pm₀.base < 2 ^ 52) {addr len : Nat}
    (hmem : (addr, len) ∈ s.live) :
    Accounted pm₀ { pm := pmemFreePages s.pm addr len, live := s.live.erase (addr, len) } := by
  have hps : pageSize = 4096 := rfl
  have hmax : pmemMaxPages = 2097152 := rfl
  obtain ⟨start, haddr, hpages⟩ := h.live _ hmem
  dsimp only at haddr hpages
  have hlive : ∀ a ∈ s.live.erase (addr, len), ∃ start, a.1 = pm₀.base + start * pageSize ∧
      ∀ i, start ≤ i → i < start + a.2 → PageFree pm₀ i :=
    fun a ha => h.live a (List.mem_of_mem_erase ha)
  have hcounted := h.counted.freePages addr len
  revert hcounted
  unfold pmemFreePages
  split
  · exact fun hcounted => ⟨hcounted, h.base, h.total, h.free, hlive⟩
  · rename_i hnot
    split
    · exact fun hcounted => ⟨hcounted, h.base, h.total, h.free, hlive⟩
    · intro hcounted
      have hlast := (hpages (start + (len - 1)) (by omega) (by omega)).1
      have hidx : pageIdx s.pm addr = start := by
        rw [haddr, ← h.base]
        exact pageIdx_addr s.pm start (by rw [h.base, hps]; omega)
      rw [hidx] at hcounted ⊢
      obtain ⟨hbase, htotal, hbits⟩ := pmemReleaseRun_spec s.pm start len (by omega)
      refine ⟨hcounted, hbase.trans h.base, htotal.trans h.total, fun i hi => ?_, hlive⟩
      by_cases hin : start ≤ i ∧ i < start + len
      · exact hpages i hin.1 hin.2
      · have hsame := hbits i
        rw [decide_eq_false hin, Bool.not_false, Bool.true_and] at hsame
        exact h.free i ⟨hi.1, hsame.symm.trans hi.2⟩

/-- **Every call keeps the books.** -/
theorem step (hbelow : pm₀.base < 2 ^ 52) (s : PmemRun) (c : PmemCall) (s' : PmemRun)
    (h : Accounted pm₀ s) (hstep : s.step c s') : Accounted pm₀ s' := by
  have hnothing : ∀ count, Accounted pm₀ (s.keep (s.pm, 0) count) := by
    intro count
    rw [PmemRun.keep, if_pos rfl]
    exact h
  cases c with
  | allocPage =>
      rw [show s' = _ from hstep]
      rcases pmemAllocPage_spec s.pm with hnone | ⟨idx, ht, haddr⟩
      · rw [hnone]
        exact hnothing 1
      · exact h.take hbelow Nat.one_pos ht haddr h.counted.allocPage
  | allocPages count =>
      rw [show s' = _ from hstep]
      by_cases hz : count.toNat = 0
      · have : pmemAllocPages s.pm count.toNat = (s.pm, 0) := by rw [pmemAllocPages, if_pos hz]
        rw [this]
        exact hnothing count.toNat
      · rcases pmemAllocPages_spec s.pm count.toNat with hnone | ⟨start, ht, haddr⟩
        · rw [hnone]
          exact hnothing count.toNat
        · exact h.take hbelow (Nat.pos_of_ne_zero hz) ht haddr (h.counted.allocPages _)
  | freePage addr =>
      obtain ⟨hmem, rfl⟩ := hstep
      rw [pmemFreePage_eq]
      exact h.give hbelow hmem
  | freePages addr count =>
      obtain ⟨hmem, rfl⟩ := hstep
      exact h.give hbelow hmem

end Accounted

/--
**The page counters agree with the bitmap.**  Over any disjoint regions below `2^52` of which one
has a whole page, and after any run in which only live allocations are freed, the counter of free
pages is the number of clear bits and at most the number of pages, so the bytes in use are the
difference.
-/
theorem pmem_counters_exact (pm : Pmem) {regions : List MemRegion}
    (hfits : ∀ r ∈ regions, r.base + r.size ≤ 2 ^ 52) (hdisjoint : RegionsDisjoint regions)
    (hpage : ∃ r ∈ regions, ∃ a, a % pageSize = 0 ∧ r.base ≤ a ∧ a + pageSize ≤ r.base + r.size)
    {calls : List PmemCall} {s : PmemRun}
    (hrun : Executes PmemRun.step (PmemRun.boot pm regions) calls s) :
    s.pm.freePages = clearBits s.pm ∧ s.pm.freePages ≤ s.pm.totalPages ∧
      pmemUsedBytes s.pm = (s.pm.totalPages - s.pm.freePages) * pageSize := by
  have hps : pageSize = 4096 := rfl
  have hmax : pmemMaxPages = 2097152 := rfl
  have hboot : BootCounted (pmemInit pm regions) := by
    refine pmemInit_counted pm hfits hdisjoint ?_
    obtain ⟨r, hr, a, halign, hlo, hhi⟩ := hpage
    refine ⟨r, hr, ?_⟩
    rw [hps] at halign hhi
    rw [regionBase_eq (hfits r hr), regionEnd_eq (hfits r hr)]
    omega
  have hinv : Accounted (pmemInit pm regions) s := by
    refine hrun.invariant (Accounted.step hboot.below) ?_
    exact ⟨hboot.counted, rfl, rfl, fun _ hi => hi, fun a ha => absurd ha (by simp [PmemRun.boot])⟩
  have hle : s.pm.freePages ≤ s.pm.totalPages := by
    rw [hinv.counted, hinv.total]
    exact (clearBits_mono hinv.free).trans hboot.few
  have htotal : s.pm.totalPages ≤ 2097152 := by
    rw [hinv.total]
    exact hboot.total
  refine ⟨hinv.counted, hle, ?_⟩
  unfold pmemUsedBytes sub64
  rw [hps]
  omega

/-- One page and then three, out of two regions of which one is low. -/
theorem pmem_counters_exact_alloc :
    ∃ s, Executes PmemRun.step
        (PmemRun.boot bootPmem [⟨0x100000, 0x10000⟩, ⟨0x80000, 0x1800⟩]) [.allocPage, .allocPages 3] s ∧
      s.pm.freePages = clearBits s.pm ∧ s.pm.freePages ≤ s.pm.totalPages ∧
      pmemUsedBytes s.pm = (s.pm.totalPages - s.pm.freePages) * pageSize := by
  have hdisjoint : RegionsDisjoint [⟨0x100000, 0x10000⟩, ⟨0x80000, 0x1800⟩] := by
    refine List.pairwise_pair.mpr (Set.disjoint_left.mpr fun a ha hb => ?_)
    have hlo : 0x100000 ≤ a := ha.1
    have hhi : a < 0x80000 + 0x1800 := hb.2
    omega
  have hrun : Executes PmemRun.step
      (PmemRun.boot bootPmem [⟨0x100000, 0x10000⟩, ⟨0x80000, 0x1800⟩]) [.allocPage, .allocPages 3] _ :=
    .cons rfl (.cons rfl (.nil _))
  exact ⟨_, hrun, pmem_counters_exact bootPmem (by decide) hdisjoint
    ⟨_, List.mem_cons_self .., 0x100000, by decide⟩ hrun⟩

end BrightS
