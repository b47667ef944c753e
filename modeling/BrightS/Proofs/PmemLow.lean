/-
The first megabyte after boot.

Boot marks the whole pages of the regions free and then reserves what lies below one megabyte.
The loop that reserves stops at the base plus the size of all usable pages, which is the end of
memory only if the map has no holes.
-/
import BrightS.Proofs.PmemCount

namespace BrightS

open Words

/-! ### The pages of the regions -/

/-- The addresses of the whole pages of all regions. -/
def regionPages (regions : List MemRegion) : List Nat := regions.flatMap regionAddrs

theorem mem_pageAddrs_iff {lo hi addr : Nat} :
    addr ∈ pageAddrs lo hi ↔ ∃ k, addr = lo + k * 4096 ∧ addr < hi := by
  refine ⟨mem_pageAddrs, ?_⟩
  rintro ⟨k, rfl, hlt⟩
  refine List.mem_map.mpr ⟨k, List.mem_range.mpr ?_, rfl⟩
  rw [show pageSize = 4096 from rfl]
  omega

theorem mem_regionPages {regions : List MemRegion} {a : Nat} (ha : a ∈ regionPages regions) :
    a % 4096 = 0 ∧ a + 4096 < 2 ^ 64 ∧
      ∃ r ∈ regions, regionBase r < regionEnd r ∧ regionBase r ≤ a := by
  obtain ⟨r, hr, har⟩ := List.mem_flatMap.mp ha
  obtain ⟨k, hk, hlt⟩ := mem_pageAddrs har
  have hbase : regionBase r % 4096 = 0 ∧ regionBase r < 2 ^ 64 := alignUpPage_page r.base
  have hend := regionEnd_page r
  exact ⟨by omega, by omega, r, hr, by omega, by omega⟩

theorem regionBase_mem {regions : List MemRegion} {r : MemRegion} (hr : r ∈ regions)
    (hne : regionBase r < regionEnd r) : regionBase r ∈ regionPages regions :=
  List.mem_flatMap.mpr ⟨r, hr, mem_pageAddrs_iff.mpr ⟨0, by omega, hne⟩⟩

/-! ### Boot -/

theorem markAll_total (addrs : List Nat) : ∀ pm : Pmem,
    (addrs.foldl pmemMarkFree pm).totalPages = pm.totalPages := by
  induction addrs with
  | nil => exact fun pm => rfl
  | cons addr rest ih =>
      intro pm
      rw [List.foldl_cons, ih, pmemMarkFree]
      split <;> rfl

/-- The end of the loop that reserves: the size of all usable pages above the lowest one.  The
total is a 64-bit value and capped. -/
def reserveLimit (regions : List MemRegion) (lowest : Nat) : Nat :=
  lowest + min ((regionPages regions).length % 2 ^ 64) pmemMaxPages * pageSize

/-- The pages that boot leaves free: those of the regions that the bitmap has room for, without
the ones that are reserved. -/
theorem pmemInit_free (pm : Pmem) {regions : List MemRegion} {lowest : Nat}
    (hlowest : IsLeast {a | a ∈ regionPages regions} lowest) :
    (pmemInit pm regions).base = lowest ∧
      ∀ i, PageFree (pmemInit pm regions) i ↔
        i < pmemMaxPages ∧ lowest + i * pageSize ∈ regionPages regions ∧
          min 0x100000 (reserveLimit regions lowest % 2 ^ 64) ≤ lowest + i * pageSize := by
  have hps : pageSize = 4096 := rfl
  obtain ⟨halign, hlt, r, hr, hne, hle⟩ := mem_regionPages hlowest.1
  unfold pmemInit
  dsimp only
  obtain ⟨hbase, -, hall⟩ := measureAll_lowest regions
    { pm with totalPages := 0, freePages := 0, base := 2 ^ 64 - 1 }
  have htotal := measureAll_total regions
    { pm with totalPages := 0, freePages := 0, base := 2 ^ 64 - 1 } (by dsimp only; omega)
  generalize regions.foldl pmemMeasure
    { pm with totalPages := 0, freePages := 0, base := 2 ^ 64 - 1 } = pm₁ at hbase hall htotal
  have hbound := hall r hr hne
  have hbase₁ : pm₁.base = lowest := by
    rcases hbase with heq | ⟨q, hq, hneq, heq⟩
    · dsimp only at heq
      omega
    · have := hlowest.2 (regionBase_mem hq hneq)
      omega
  rw [if_neg (by omega)]
  generalize hfill : pmemFill { pm₁ with
    totalPages := if pmemMaxPages < pm₁.totalPages then pmemMaxPages else pm₁.totalPages } = pm₂
  have hbase₂ : pm₂.base = lowest := by rw [← hfill]; exact hbase₁
  have htotal₂ : pm₂.totalPages = min ((regionPages regions).length % 2 ^ 64) pmemMaxPages := by
    rw [← hfill]
    show (if pmemMaxPages < pm₁.totalPages then pmemMaxPages else pm₁.totalPages) = _
    have hcap : ∀ n : Nat, (if pmemMaxPages < n then pmemMaxPages else n) = min n pmemMaxPages := by
      intro n
      split <;> omega
    rw [htotal, Nat.zero_add, hcap]
    rfl
  obtain ⟨hbase₃, hmarked⟩ := markAll_free (regionPages regions) pm₂
  have htotal₃ := markAll_total (regionPages regions) pm₂
  rw [markRegions_eq]
  change ((regionPages regions).foldl pmemMarkFree pm₂).base = _ at hbase₃
  generalize hpm₃ : (regions.flatMap regionAddrs).foldl pmemMarkFree pm₂ = pm₃
  rw [show (regionPages regions).foldl pmemMarkFree pm₂ = pm₃ from hpm₃] at hbase₃ hmarked htotal₃
  rw [hbase₂] at hbase₃
  have hlimit : (pm₃.base + pm₃.totalPages * pageSize) % 2 ^ 64 =
      reserveLimit regions lowest % 2 ^ 64 := by
    rw [hbase₃, htotal₃, htotal₂]
    rfl
  rw [hlimit]
  generalize reserveLimit regions lowest % 2 ^ 64 = limit
  obtain ⟨hbase₄, hreserved⟩ := reserveAll_free (pageAddrs 0 (min 0x100000 limit)) pm₃
  refine ⟨hbase₄.trans hbase₃, fun i => ?_⟩
  have hidx : ∀ a, a % 4096 = 0 → lowest ≤ a → a < 2 ^ 64 → ∀ j,
      (pageIdx pm₂ a = j ↔ a = lowest + j * 4096) ∧ (pageIdx pm₃ a = j ↔ a = lowest + j * 4096) := by
    intro a haa hla hlta j
    unfold pageIdx sub64
    rw [hbase₂, hbase₃, hps]
    omega
  have hnone : ¬ PageFree pm₂ i := by
    rw [← hfill]
    exact pmemFill_used _ i
  rw [hreserved, hmarked, or_iff_right hnone, and_assoc, hps]
  refine and_congr_right fun hi => and_congr ?_ ?_
  · constructor
    · rintro ⟨a, ha, hai⟩
      obtain ⟨haa, hlta, -⟩ := mem_regionPages ha
      rw [← ((hidx a haa (hlowest.2 ha) (by omega) i).1).mp hai]
      exact ha
    · intro ha
      obtain ⟨haa, hlta, -⟩ := mem_regionPages ha
      exact ⟨_, ha, ((hidx _ haa (by omega) (by omega) i).1).mpr rfl⟩
  · constructor
    · intro hno
      by_contra hless
      have hmem : lowest + i * 4096 ∈ pageAddrs 0 (min 0x100000 limit) :=
        mem_pageAddrs_iff.mpr ⟨lowest / 4096 + i, by omega, by omega⟩
      exact hno _ hmem (by omega) (((hidx _ (by omega) (by omega) (by omega) i).2).mpr rfl)
    · intro hge a ha hla hai
      obtain ⟨k, hk, hlta⟩ := mem_pageAddrs ha
      have := ((hidx a (by omega) (by omega) (by omega) i).2).mp hai
      omega

/-- Without a whole page no base is found. -/
theorem pmemInit_none (pm : Pmem) {regions : List MemRegion} (h : regionPages regions = []) :
    (pmemInit pm regions).base = 2 ^ 64 - 1 := by
  unfold pmemInit
  dsimp only
  obtain ⟨hbase, -, -⟩ := measureAll_lowest regions
    { pm with totalPages := 0, freePages := 0, base := 2 ^ 64 - 1 }
  have hbase := hbase.resolve_right fun hfound => by
    obtain ⟨r, hr, hne, -⟩ := hfound
    have hmem := regionBase_mem hr hne
    rw [h] at hmem
    exact absurd hmem (by simp)
  dsimp only at hbase
  rw [if_pos hbase, hbase]

/--
**When low memory stays reserved.**  Over any regions, no page below one megabyte is free after
boot exactly if every such page of the regions lies below the base plus the size of all usable
pages.
-/
theorem pmem_low_reserved_iff (pm : Pmem) (regions : List MemRegion) :
    (∀ a, AddrFree (pmemInit pm regions) a → 0x100000 ≤ a) ↔
      ∀ lowest, IsLeast {a | a ∈ regionPages regions} lowest →
        ∀ a ∈ regionPages regions, a < 0x100000 → a < reserveLimit regions lowest := by
  have hps : pageSize = 4096 := rfl
  have hmax : pmemMaxPages = 2097152 := rfl
  by_cases hnone : regionPages regions = []
  · refine iff_of_true ?_ ?_
    · rintro a ⟨i, -, rfl⟩
      have := pmemInit_none pm hnone
      omega
    · intro lowest _ a ha
      rw [hnone] at ha
      exact absurd ha (by simp)
  · obtain ⟨lowest, hlowest⟩ := (OrderBot.bddBelow {a | a ∈ regionPages regions})
      |>.exists_isLeast_of_nonempty (List.exists_mem_of_ne_nil _ hnone)
    obtain ⟨hbase, hfree⟩ := pmemInit_free pm hlowest
    obtain ⟨halign, -⟩ := mem_regionPages hlowest.1
    have hmin : min ((regionPages regions).length % 2 ^ 64) pmemMaxPages ≤ 2097152 :=
      Nat.min_le_right _ _
    have hlimit : reserveLimit regions lowest = lowest +
        min ((regionPages regions).length % 2 ^ 64) pmemMaxPages * 4096 := rfl
    constructor
    · intro h lowest' hlowest' a ha hlow
      obtain rfl := hlowest'.unique hlowest
      by_contra hge
      obtain ⟨haa, -⟩ := mem_regionPages ha
      have hla : lowest' ≤ a := hlowest.2 ha
      have heq : a = lowest' + (a - lowest') / 4096 * pageSize := by
        rw [hps]
        omega
      refine absurd (h a ⟨(a - lowest') / 4096, (hfree _).mpr ⟨by omega, ?_, ?_⟩, ?_⟩) (by omega)
      · rw [← heq]
        exact ha
      · rw [← heq]
        omega
      · rw [hbase]
        exact heq
    · rintro h a ⟨i, hi, rfl⟩
      obtain ⟨-, hmem, hge⟩ := (hfree i).mp hi
      rw [hbase]
      by_contra hlow
      have hbelow := h lowest hlowest _ hmem (by omega)
      omega

/-- Two pages below one megabyte, far apart. -/
def sparseRegions : List MemRegion := [⟨0x1000, 0x1000⟩, ⟨0xF0000, 0x1000⟩]

/-- The upper one of them is handed out. -/
theorem pmem_low_free : ¬ ∀ (pm : Pmem) (regions : List MemRegion), RegionsDisjoint regions →
    ∀ a, AddrFree (pmemInit pm regions) a → 0x100000 ≤ a := by
  intro hall
  have hdisjoint : RegionsDisjoint sparseRegions := by
    refine List.pairwise_pair.mpr (Set.disjoint_left.mpr fun a ha hb => ?_)
    have hhi : a < 0x1000 + 0x1000 := ha.2
    have hlo : 0xF0000 ≤ a := hb.1
    omega
  have hfree : AddrFree (pmemInit bootPmem sparseRegions) 0xF0000 :=
    ⟨0xEF, ⟨by decide, by decide +kernel⟩, by decide +kernel⟩
  exact absurd (hall bootPmem sparseRegions hdisjoint _ hfree) (by decide)

end BrightS
