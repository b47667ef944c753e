/-
The regions are the conventional memory.

A region that touches another one is taken in by it, and by the first such region only, so
that two regions may end up side by side.  Since the descriptors are apart, taking one in
adds exactly its addresses, and the regions stay apart whatever the order.
-/
import BrightS.Lib.Ranges
import BrightS.Kernel.Memmap

namespace BrightS

open Ranges Words

/-- The addresses of a region, and of a descriptor. -/
def MemRegion.range (r : MemRegion) : Range := ⟨r.base, r.size⟩

def EfiMemoryDescriptor.range (d : EfiMemoryDescriptor) : Range :=
  ⟨d.physicalStart, d.numberOfPages * 4096⟩

def EfiMemoryDescriptor.Conventional (d : EfiMemoryDescriptor) : Prop :=
  d.type = efiConventionalMemory

instance (d : EfiMemoryDescriptor) : Decidable d.Conventional := inferInstanceAs (Decidable (_ = _))

/-- Not empty, and the end does not wrap around. -/
def Plain (r : Range) : Prop := 0 < r.len ∧ r.start + r.len < 2 ^ 64

/-- The conventional descriptors are apart from each other, not empty, and do not wrap. -/
structure GoodMap (ds : List EfiMemoryDescriptor) : Prop where
  plain : ∀ d ∈ ds, d.Conventional → Plain d.range
  apart : ds.Pairwise fun d e => d.Conventional → e.Conventional → d.range.Apart e.range

/-- The regions of the table hold the addresses `mem` and no others, each once. -/
structure Collects (out : MemmapInfo) (mem : Nat → Prop) : Prop where
  plain : ∀ r ∈ out.regions, Plain r.range
  apart : out.regions.Pairwise fun r s => r.range.Apart s.range
  union : ∀ a, (∃ r ∈ out.regions, r.range.Has a) ↔ mem a
  total : out.totalBytes = (out.regions.map (·.size)).sum

/-! ### One region -/

section Merge

variable {base size : Nat} {regions regions' : List MemRegion}

/-- A region that takes the new one in. -/
theorem mergeRegion_some (h : mergeRegion base size regions = some regions') :
    ∃ before r after, regions = before ++ r :: after ∧
      ¬ ((base + size) % 2 ^ 64 < r.base ∨ (r.base + r.size) % 2 ^ 64 < base) ∧
      regions' = before ++
        { base := if base < r.base then base else r.base
          size := sub64
            (if (r.base + r.size) % 2 ^ 64 < (base + size) % 2 ^ 64 then (base + size) % 2 ^ 64
              else (r.base + r.size) % 2 ^ 64)
            (if base < r.base then base else r.base) } :: after := by
  induction regions generalizing regions' with
  | nil => exact absurd h (by simp [mergeRegion])
  | cons r rest ih =>
      rw [mergeRegion] at h
      dsimp only at h
      split at h
      · obtain ⟨tail, htail, rfl⟩ := Option.map_eq_some_iff.mp h
        obtain ⟨before, s, after, rfl, htouch, rfl⟩ := ih htail
        exact ⟨r :: before, s, after, rfl, htouch, rfl⟩
      · rename_i htouch
        exact ⟨[], r, rest, rfl, htouch, (Option.some.inj h).symm⟩

/-- Two regions that touch and are apart make up one. -/
theorem merged_range {r : MemRegion} (hr : Plain r.range) (hnew : Plain ⟨base, size⟩)
    (happart : r.range.Apart ⟨base, size⟩)
    (htouch : ¬ ((base + size) % 2 ^ 64 < r.base ∨ (r.base + r.size) % 2 ^ 64 < base)) :
    ∃ r' : MemRegion,
      r' = { base := if base < r.base then base else r.base
             size := sub64
               (if (r.base + r.size) % 2 ^ 64 < (base + size) % 2 ^ 64 then (base + size) % 2 ^ 64
                 else (r.base + r.size) % 2 ^ 64)
               (if base < r.base then base else r.base) } ∧
      Plain r'.range ∧ r'.size = r.size + size ∧
      ∀ a, r'.range.Has a ↔ r.range.Has a ∨ Range.Has ⟨base, size⟩ a := by
  obtain ⟨hpos, hend⟩ := hr
  obtain ⟨hpos', hend'⟩ := hnew
  dsimp only [MemRegion.range] at hpos hend hpos' hend'
  -- Neither holds the first address of the other.
  have hfirst := happart base
  have hfirst' := happart r.base
  dsimp only [MemRegion.range, Range.Has] at hfirst hfirst'
  rw [Nat.mod_eq_of_lt hend, Nat.mod_eq_of_lt hend'] at htouch ⊢
  have hside : base = r.base + r.size ∨ r.base = base + size := by omega
  refine ⟨_, rfl, ?_⟩
  unfold sub64
  dsimp only [Plain, MemRegion.range, Range.Has]
  rcases hside with hside | hside
  · rw [if_neg (show ¬ base < r.base by omega),
      if_pos (show r.base + r.size < base + size by omega)]
    exact ⟨by omega, by omega, fun a => by omega⟩
  · rw [if_pos (show base < r.base by omega),
      if_neg (show ¬ r.base + r.size < base + size by omega)]
    exact ⟨by omega, by omega, fun a => by omega⟩

end Merge

/-! ### All descriptors -/

section Collect

variable {out : MemmapInfo} {mem : Nat → Prop} {base size : Nat}

/-- The sizes of regions that are apart are those of a set of addresses. -/
theorem sum_sizes_lt {regions : List MemRegion} (hplain : ∀ r ∈ regions, Plain r.range)
    (hapart : regions.Pairwise fun r s => r.range.Apart s.range) :
    (regions.map (·.size)).sum < 2 ^ 64 := by
  have hpair : (regions.map MemRegion.range).Pairwise Range.Apart := List.pairwise_map.mpr hapart
  have hinside : ∀ r ∈ regions.map MemRegion.range, ∀ i, r.Has i → 0 ≤ i ∧ i < 2 ^ 64 - 1 := by
    intro r hr i hi
    obtain ⟨s, hs, rfl⟩ := List.mem_map.mp hr
    have hend := (hplain s hs).2
    unfold Range.Has at hi
    omega
  have hle := sum_len_le hpair hinside
  rw [List.map_map] at hle
  have hsame : (regions.map ((·.len) ∘ MemRegion.range)).sum = (regions.map (·.size)).sum := rfl
  omega

/-- The table after the region from `base` on has come in, in a new entry or an old one. -/
structure TakesIn (out : MemmapInfo) (mem : Nat → Prop) (base size : Nat)
    (regions : List MemRegion) : Prop where
  plain : ∀ r ∈ regions, Plain r.range
  apart : regions.Pairwise fun r s => r.range.Apart s.range
  union : ∀ a, (∃ r ∈ regions, r.range.Has a) ↔ mem a ∨ Range.Has ⟨base, size⟩ a
  sizes : (regions.map (·.size)).sum = (out.regions.map (·.size)).sum + size

theorem TakesIn.collects {regions : List MemRegion} (ht : TakesIn out mem base size regions)
    (h : Collects out mem) :
    Collects { out with totalBytes := (out.totalBytes + size) % 2 ^ 64, regions := regions }
      fun a => mem a ∨ Range.Has ⟨base, size⟩ a := by
  refine ⟨ht.plain, ht.apart, ht.union, ?_⟩
  have hlt := sum_sizes_lt ht.plain ht.apart
  dsimp only
  rw [h.total, ← ht.sizes, Nat.mod_eq_of_lt hlt]

/-- Replacing one region by what it and a new one make up. -/
theorem Collects.takesIn_merged (h : Collects out mem) (hnew : Plain ⟨base, size⟩)
    (hfar : ∀ r ∈ out.regions, r.range.Apart ⟨base, size⟩) {regions : List MemRegion}
    (hmerge : mergeRegion base size out.regions = some regions) :
    TakesIn out mem base size regions := by
  obtain ⟨before, r, after, hregions, htouch, heq⟩ := mergeRegion_some hmerge
  have hmem : r ∈ out.regions := by rw [hregions]; simp
  obtain ⟨r', hr', hplain, hsize, hhas⟩ :=
    merged_range (h.plain r hmem) hnew (hfar r hmem) htouch
  rw [← hr'] at heq
  subst heq
  have hpair := h.apart
  rw [hregions, List.pairwise_append, List.pairwise_cons] at hpair
  obtain ⟨hbefore, ⟨hafter, hrest⟩, hcross⟩ := hpair
  refine ⟨fun s hs => ?_, ?_, fun a => ?_, ?_⟩
  · rcases List.mem_append.mp hs with hs | hs
    · exact h.plain s (by rw [hregions]; simp [hs])
    · rcases List.mem_cons.mp hs with rfl | hs
      · exact hplain
      · exact h.plain s (by rw [hregions]; simp [hs])
  · -- The region that has grown stays apart from the others.
    have hgrown : ∀ s ∈ out.regions, r.range.Apart s.range → r'.range.Apart s.range := by
      intro s hs hrs a ha
      rcases (hhas a).mp ha.1 with hold | hold
      · exact hrs a ⟨hold, ha.2⟩
      · exact hfar s hs a ⟨ha.2, hold⟩
    rw [List.pairwise_append, List.pairwise_cons]
    refine ⟨hbefore, ⟨fun s hs => hgrown s (by rw [hregions]; simp [hs]) (hafter s hs), hrest⟩, ?_⟩
    intro s hs t ht
    rcases List.mem_cons.mp ht with rfl | ht
    · exact (hgrown s (by rw [hregions]; simp [hs])
        (hcross s hs r (List.mem_cons_self ..)).symm).symm
    · exact hcross s hs t (List.mem_cons_of_mem _ ht)
  · rw [← h.union a, hregions]
    constructor
    · rintro ⟨s, hs, ha⟩
      rcases List.mem_append.mp hs with hs | hs
      · exact .inl ⟨s, List.mem_append_left _ hs, ha⟩
      · rcases List.mem_cons.mp hs with rfl | hs
        · rcases (hhas a).mp ha with hold | hold
          · exact .inl ⟨r, by simp, hold⟩
          · exact .inr hold
        · exact .inl ⟨s, by simp [hs], ha⟩
    · rintro (⟨s, hs, ha⟩ | hold)
      · rcases List.mem_append.mp hs with hs | hs
        · exact ⟨s, List.mem_append_left _ hs, ha⟩
        · rcases List.mem_cons.mp hs with rfl | hs
          · exact ⟨r', by simp, (hhas a).mpr (.inl ha)⟩
          · exact ⟨s, by simp [hs], ha⟩
      · exact ⟨r', by simp, (hhas a).mpr (.inr hold)⟩
  · rw [hregions]
    simp only [List.map_append, List.map_cons, List.sum_append, List.sum_cons, hsize]
    omega

/-- A region that comes in behind the others. -/
theorem Collects.takesIn_appended (h : Collects out mem) (hnew : Plain ⟨base, size⟩)
    (hfar : ∀ r ∈ out.regions, r.range.Apart ⟨base, size⟩) :
    TakesIn out mem base size (out.regions ++ [{ base := base, size := size }]) := by
  refine ⟨fun s hs => ?_, ?_, fun a => ?_, by simp⟩
  · rcases List.mem_append.mp hs with hs | hs
    · exact h.plain s hs
    · rw [List.mem_singleton.mp hs]
      exact hnew
  · rw [List.pairwise_append]
    refine ⟨h.apart, List.pairwise_singleton _ _, fun s hs t ht => ?_⟩
    rw [List.mem_singleton.mp ht]
    exact hfar s hs
  · rw [← h.union a]
    constructor
    · rintro ⟨s, hs, ha⟩
      rcases List.mem_append.mp hs with hs | hs
      · exact .inl ⟨s, hs, ha⟩
      · rw [List.mem_singleton.mp hs] at ha
        exact .inr ha
    · rintro (⟨s, hs, ha⟩ | ha)
      · exact ⟨s, List.mem_append_left _ hs, ha⟩
      · exact ⟨_, List.mem_append_right _ (List.mem_singleton.mpr rfl), ha⟩

/-- A new region that is apart from what is there comes in, as long as the table has room. -/
theorem Collects.add (h : Collects out mem) (hnew : Plain ⟨base, size⟩)
    (happart : ∀ a, mem a → ¬ Range.Has ⟨base, size⟩ a)
    (hroom : (addRegion out base size).regions.length < maxMemRegions) :
    Collects (addRegion out base size) fun a => mem a ∨ Range.Has ⟨base, size⟩ a := by
  have hfar : ∀ r ∈ out.regions, r.range.Apart ⟨base, size⟩ := fun r hr a ha =>
    happart a ((h.union a).mp ⟨r, hr, ha.1⟩) ha.2
  unfold addRegion at hroom ⊢
  rw [if_neg (Nat.pos_iff_ne_zero.mp hnew.1)] at hroom ⊢
  dsimp only at hroom ⊢
  split
  · rename_i regions hmerge
    exact (h.takesIn_merged hnew hfar hmerge).collects h
  · rename_i hmerge
    rw [hmerge] at hroom
    dsimp only at hroom
    -- The table has room, for it would be full otherwise.
    have hsome : ¬ maxMemRegions ≤ out.regions.length := by
      intro hfull
      rw [if_pos hfull] at hroom
      exact absurd hroom (Nat.not_lt.mpr hfull)
    rw [if_neg hsome]
    exact (h.takesIn_appended hnew hfar).collects h

/-- The table only grows. -/
theorem length_mergeRegion {regions regions' : List MemRegion}
    (h : mergeRegion base size regions = some regions') : regions'.length = regions.length := by
  obtain ⟨before, r, after, rfl, -, rfl⟩ := mergeRegion_some h
  simp

theorem length_parseDescriptor (out : MemmapInfo) (d : EfiMemoryDescriptor) :
    out.regions.length ≤ (parseDescriptor out d).regions.length := by
  unfold parseDescriptor addRegion
  split_ifs with htype hzero
  · exact le_refl _
  · exact le_refl _
  · dsimp only
    split
    · rename_i hmerge
      exact (length_mergeRegion hmerge).ge
    · split
      · exact le_refl _
      · simp

theorem length_parseDescriptors (ds : List EfiMemoryDescriptor) : ∀ out : MemmapInfo,
    out.regions.length ≤ (ds.foldl parseDescriptor out).regions.length := by
  induction ds with
  | nil => exact fun _ => le_refl _
  | cons d rest ih => exact fun out => (length_parseDescriptor out d).trans (ih _)

theorem parseDescriptors_collects (ds : List EfiMemoryDescriptor) :
    ∀ {out : MemmapInfo} {mem : Nat → Prop}, Collects out mem → GoodMap ds →
      (∀ d ∈ ds, d.Conventional → ∀ a, mem a → ¬ d.range.Has a) →
      (ds.foldl parseDescriptor out).regions.length < maxMemRegions →
      Collects (ds.foldl parseDescriptor out)
        fun a => mem a ∨ ∃ d ∈ ds, d.Conventional ∧ d.range.Has a := by
  induction ds with
  | nil =>
      intro out mem h _ _ _
      rw [List.foldl_nil]
      exact ⟨h.plain, h.apart, fun a => by rw [h.union a]; simp, h.total⟩
  | cons d rest ih =>
      intro out mem h hgood hnew hroom
      obtain ⟨hfar, hrest⟩ := List.pairwise_cons.mp hgood.apart
      have hgood' : GoodMap rest := ⟨fun e he => hgood.plain e (List.mem_cons_of_mem d he), hrest⟩
      have hroom' := (length_parseDescriptors rest (parseDescriptor out d)).trans_lt hroom
      rw [List.foldl_cons] at hroom ⊢
      by_cases hconv : d.Conventional
      · have hplain := hgood.plain d (List.mem_cons_self ..) hconv
        have hbytes : d.numberOfPages * 4096 % 2 ^ 64 = d.numberOfPages * 4096 := by
          have hend : d.physicalStart + d.numberOfPages * 4096 < 2 ^ 64 := hplain.2
          exact Nat.mod_eq_of_lt ((Nat.le_add_left _ _).trans_lt hend)
        have hstep : parseDescriptor out d =
            addRegion out d.physicalStart (d.numberOfPages * 4096) := by
          unfold parseDescriptor
          rw [if_neg (show ¬ d.type ≠ efiConventionalMemory from not_not.mpr hconv), hbytes]
        rw [hstep] at hroom hroom' ⊢
        have hadded := h.add hplain (hnew d (List.mem_cons_self ..) hconv) hroom'
        have hall := ih hadded hgood' (fun e he hec a ha => ?_) hroom
        · refine ⟨hall.plain, hall.apart, fun a => ?_, hall.total⟩
          rw [hall.union a, or_assoc]
          refine or_congr Iff.rfl ⟨?_, ?_⟩
          · rintro (ha | ⟨e, he, hec, ha⟩)
            · exact ⟨d, List.mem_cons_self .., hconv, ha⟩
            · exact ⟨e, List.mem_cons_of_mem d he, hec, ha⟩
          · rintro ⟨e, he, hec, ha⟩
            rcases List.mem_cons.mp he with rfl | he
            · exact .inl ha
            · exact .inr ⟨e, he, hec, ha⟩
        · rcases ha with ha | ha
          · exact hnew e (List.mem_cons_of_mem d he) hec a ha
          · exact fun hea => hfar e he hconv hec a ⟨ha, hea⟩
      · have hstep : parseDescriptor out d = out := if_pos hconv
        rw [hstep] at hroom ⊢
        have hall := ih h hgood' (fun e he => hnew e (List.mem_cons_of_mem d he)) hroom
        refine ⟨hall.plain, hall.apart, fun a => ?_, hall.total⟩
        rw [hall.union a]
        refine or_congr Iff.rfl ⟨?_, ?_⟩
        · rintro ⟨e, he, hec, ha⟩
          exact ⟨e, List.mem_cons_of_mem d he, hec, ha⟩
        · rintro ⟨e, he, hec, ha⟩
          rcases List.mem_cons.mp he with rfl | he
          · exact absurd hec hconv
          · exact ⟨e, he, hec, ha⟩

end Collect

/-! ### The whole map -/

theorem emptyMemmap_collects : Collects emptyMemmap fun _ => False :=
  ⟨by simp [emptyMemmap], List.Pairwise.nil, by simp [emptyMemmap], rfl⟩

/-- **The regions are apart, they hold the addresses of the conventional descriptors and no
others, and their sizes add up to the total.** -/
theorem memmap_collects (ds : List EfiMemoryDescriptor) (hgood : GoodMap ds)
    (hroom : (ds.foldl parseDescriptor emptyMemmap).regions.length < maxMemRegions) :
    Collects (ds.foldl parseDescriptor emptyMemmap)
      fun a => ∃ d ∈ ds, d.Conventional ∧ d.range.Has a := by
  have hall := parseDescriptors_collects ds emptyMemmap_collects hgood (fun _ _ _ _ => False.elim)
    hroom
  exact ⟨hall.plain, hall.apart, fun a => (hall.union a).trans (or_iff_right id), hall.total⟩

/-- The upper part comes first, then the lower one, then a device, then what lies in between. -/
def shuffledMap : List EfiMemoryDescriptor :=
  [⟨efiConventionalMemory, 0x300000, 256⟩, ⟨efiConventionalMemory, 0x100000, 256⟩,
    ⟨11, 0xFEC00000, 1⟩, ⟨efiConventionalMemory, 0x200000, 256⟩]

theorem memmap_collects_shuffled :
    Collects (shuffledMap.foldl parseDescriptor emptyMemmap)
      fun a => ∃ d ∈ shuffledMap, d.Conventional ∧ d.range.Has a := by
  refine memmap_collects shuffledMap ⟨?_, ?_⟩ (by decide)
  · unfold shuffledMap Plain
    decide
  · have hbelow : ∀ {d e : EfiMemoryDescriptor}, d.range.start + d.range.len ≤ e.range.start →
        d.range.Apart e.range := by
      rintro d e hle a ⟨⟨-, hend⟩, hstart, -⟩
      omega
    unfold shuffledMap
    simp only [List.pairwise_cons, List.mem_cons, List.not_mem_nil, or_false, false_implies,
      implies_true, forall_eq_or_imp, forall_eq, List.Pairwise.nil, and_true]
    refine ⟨⟨fun _ _ => ?upper_lower, fun _ _ => ?upper_device, fun _ _ => ?upper_middle⟩,
      ⟨fun _ _ => ?lower_device, fun _ _ => ?lower_middle⟩, fun _ _ => ?device_middle⟩
    case upper_lower => exact (hbelow (by decide)).symm
    case upper_device => exact hbelow (by decide)
    case upper_middle => exact (hbelow (by decide)).symm
    case lower_device => exact hbelow (by decide)
    case lower_middle => exact hbelow (by decide)
    case device_middle => exact (hbelow (by decide)).symm

/-- What the parser leaves when the firmware answers. -/
theorem uefiParseMemmap_collects (fw : MemmapAnswers)
    (hsize : ¬ (fw.sizeStatus = 0 ∧ fw.sizeMapSize = 0)) (halloc : fw.allocStatus = 0)
    (hstatus : fw.status = 0) (hgood : GoodMap fw.descriptors)
    (hroom : (uefiParseMemmap fw).1.regions.length < maxMemRegions) :
    Collects (uefiParseMemmap fw).1
      fun a => ∃ d ∈ fw.descriptors, d.Conventional ∧ d.range.Has a := by
  have hresult : (uefiParseMemmap fw).1 =
      { fw.descriptors.foldl parseDescriptor emptyMemmap with
        mapKey := fw.mapKey, descSize := fw.descSize, descVer := fw.descVer } := by
    unfold uefiParseMemmap
    rw [if_neg hsize, if_neg (not_not.mpr halloc), if_neg (not_not.mpr hstatus)]
  rw [hresult] at hroom ⊢
  obtain ⟨hplain, hapart, hunion, htotal⟩ :=
    parseDescriptors_collects fw.descriptors emptyMemmap_collects hgood
    (fun _ _ _ _ => False.elim) hroom
  exact ⟨hplain, hapart, fun a => (hunion a).trans (or_iff_right id), htotal⟩

end BrightS
