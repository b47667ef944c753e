/-
What a load that fails leaves behind.

The loader gives no page back.  A load that fails before its first page leaves everything as it
was; once a page was handed out (`Loses`), the allocator has fewer free pages for good, whatever
the rest of the load does.  Which of the two it is depends on the image and on whether there was
a free page at all.
-/
import BrightS.Proofs.ElfBounds

namespace BrightS

open Bytes Loops Words

-- Unfolding the search through the bitmap is never of use here.
attribute [local irreducible] pmemAllocPage elfMapPage

/-! ### Pages that are gone -/

/-- Between the two allocators pages were handed out, and none came back. -/
def Allocates : Pmem → Pmem → Prop :=
  Relation.ReflTransGen fun pm pm' => pm' = (pmemAllocPage pm).1

/-- At least one page was handed out. -/
def Loses (pm pm' : Pmem) : Prop := freePageCount pm ≠ 0 ∧ Allocates (pmemAllocPage pm).1 pm'

theorem allocates_one (pm : Pmem) : Allocates pm (pmemAllocPage pm).1 := .single rfl

theorem Allocates.spent {pm pm' : Pmem} (h : Allocates pm pm') :
    ∃ k, freePageCount pm' + k = freePageCount pm ∧
      (pm'.freePages + k) % 2 ^ 64 = pm.freePages % 2 ^ 64 := by
  induction h with
  | refl => exact ⟨0, rfl, rfl⟩
  | @tail mid last _ hstep ih =>
      obtain ⟨k, hcount, hword⟩ := ih
      rw [hstep]
      rcases pmemAllocPage_counts mid with ⟨-, hnone⟩ | ⟨hone, hfree⟩
      · rw [hnone]
        exact ⟨k, hcount, hword⟩
      · refine ⟨k + 1, by omega, ?_⟩
        rw [hfree, sub64]
        omega

theorem freePageCount_le (pm : Pmem) : freePageCount pm ≤ pmemMaxPages := by
  refine (Finset.card_le_card fun i hi => ?_).trans_eq (Finset.card_range pmemMaxPages)
  exact Finset.mem_range.mpr (Finset.mem_filter.mp hi).2.1

theorem Loses.trans {pm pm' pm'' : Pmem} (h : Loses pm pm') (h' : Allocates pm' pm'') :
    Loses pm pm'' := ⟨h.1, Relation.ReflTransGen.trans h.2 h'⟩

/-- The counter shows that pages are gone. -/
theorem Loses.freePages {pm pm' : Pmem} (h : Loses pm pm') : pm'.freePages ≠ pm.freePages := by
  have hle := freePageCount_le pm
  have hmax : pmemMaxPages = 2097152 := rfl
  obtain ⟨k, hcount, hword⟩ := h.2.spent
  rcases pmemAllocPage_counts pm with ⟨hzero, -⟩ | ⟨hone, hfree⟩
  · exact absurd hzero h.1
  · rw [hfree, sub64] at hword
    intro hsame
    rw [hsame] at hword
    omega

theorem allocPtPage_allocates (s : Paging) : Allocates s.pm (allocPtPage s).1.pm := by
  have h := allocates_one s.pm
  obtain ⟨res, hres, hcases⟩ := allocPtPage_cases s
  rw [hres] at h
  obtain ⟨-, heq⟩ | ⟨-, heq⟩ := hcases
  · rw [heq]
    exact h
  · rw [heq]
    exact h

theorem pagingMap_allocates (s : Paging) (virt phys flags : Nat) :
    Allocates s.pm (pagingMap s virt phys flags).1.pm :=
  pagingMap_invariant (P := fun (mid : Paging) => Allocates s.pm mid.pm)
    (fun mid _ hres hmid => hres ▸ Relation.ReflTransGen.trans hmid (allocPtPage_allocates mid))
    (fun _ _ _ _ hmid => hmid) .refl virt phys flags

/-! ### The parts of a load -/

section Load

variable {st : ElfLoad}

/-- Without a free page the loader stops; otherwise it takes at least one. -/
theorem elfMapPage_leaves (st : ElfLoad) (va flags : Nat) {fill : ElfLoad → Nat → ElfLoad}
    (hfill : Fills fill) :
    (freePageCount st.paging.pm = 0 → elfMapPage st va flags fill = (st, false)) ∧
      (freePageCount st.paging.pm ≠ 0 →
        Loses st.paging.pm (elfMapPage st va flags fill).1.paging.pm) := by
  obtain ⟨res, hres, hcases⟩ := elfMapPage_cases st va flags fill
  constructor
  · intro hfull
    rcases pmemAllocPage_counts st.paging.pm with ⟨-, hnone⟩ | ⟨hone, -⟩
    · obtain rfl := hres.symm.trans hnone
      rcases hcases with ⟨-, heq⟩ | ⟨hne, -⟩
      · exact heq
      · exact absurd rfl hne
    · omega
  · intro hfree
    refine ⟨hfree, ?_⟩
    rw [hres]
    rcases hcases with ⟨-, heq⟩ | ⟨-, heq⟩
    · rw [heq]
      exact .refl
    · have hpaging : (fill (st.fresh res) res.2).paging = { st.paging with pm := res.1 } :=
        hfill.paging _ _
      rw [heq, hpaging]
      exact pagingMap_allocates { st.paging with pm := res.1 } va res.2 flags

theorem elfMapPage_allocates (st : ElfLoad) (va flags : Nat) {fill : ElfLoad → Nat → ElfLoad}
    (hfill : Fills fill) : Allocates st.paging.pm (elfMapPage st va flags fill).1.paging.pm := by
  obtain ⟨hfull, hfree⟩ := elfMapPage_leaves st va flags hfill
  by_cases hnone : freePageCount st.paging.pm = 0
  · rw [hfull hnone]
    exact .refl
  · exact Relation.ReflTransGen.trans (allocates_one _) (hfree hnone).2

/-- The segment takes pages. -/
def ElfPhdr.HasPages (ph : ElfPhdr) : Prop :=
  ph.type = ptLoad ∧ ph.memsz ≠ 0 ∧ ph.numPages ≠ 0

/-- The check of a segment against the end of the file fails. -/
def ElfPhdr.OutOfRange (ph : ElfPhdr) (img : ElfImage) : Prop :=
  ph.type = ptLoad ∧ ph.memsz ≠ 0 ∧
    img.size.toNat < (ph.offset.toNat + ph.filesz.toNat) % 2 ^ 64

instance (ph : ElfPhdr) : Decidable ph.HasPages := inferInstanceAs (Decidable (_ ∧ _ ∧ _))

instance (ph : ElfPhdr) (img : ElfImage) : Decidable (ph.OutOfRange img) :=
  inferInstanceAs (Decidable (_ ∧ _ ∧ _))

/-- A segment is nothing to do, is refused, or costs pages. -/
theorem elfSegment_leaves (img : ElfImage) (st : ElfLoad) (ph : ElfPhdr) :
    (¬ ph.OutOfRange img ∧ ¬ ph.HasPages ∧ elfSegment img st ph = (st, true)) ∨
      (ph.OutOfRange img ∧ elfSegment img st ph = (st, false)) ∨
      (¬ ph.OutOfRange img ∧ ph.HasPages ∧
        (freePageCount st.paging.pm = 0 → elfSegment img st ph = (st, false)) ∧
        (freePageCount st.paging.pm ≠ 0 →
          Loses st.paging.pm (elfSegment img st ph).1.paging.pm)) := by
  unfold elfSegment
  by_cases htype : ph.type = ptLoad
  · by_cases hmem : ph.memsz = 0
    · refine .inl ⟨fun hout => hout.2.1 hmem, fun hpages => hpages.2.1 hmem, ?_⟩
      rw [if_neg (not_not_intro htype), if_pos hmem]
    · rw [if_neg (not_not_intro htype), if_neg hmem]
      by_cases hrange : img.size.toNat < (ph.offset.toNat + ph.filesz.toNat) % 2 ^ 64
      · rw [if_pos hrange]
        exact .inr (.inl ⟨⟨htype, hmem, hrange⟩, rfl⟩)
      · rw [if_neg hrange]
        have hin : ¬ ph.OutOfRange img := fun hout => hrange hout.2.2
        have hpages : ph.HasPages ↔ ph.numPages ≠ 0 :=
          ⟨fun h => h.2.2, fun h => ⟨htype, hmem, h⟩⟩
        rw [hpages]
        rcases Nat.eq_zero_or_pos ph.numPages with hnone | hpos
        · rw [hnone]
          exact .inl ⟨hin, by simp, rfl⟩
        · obtain ⟨n, hn⟩ := Nat.exists_eq_succ_of_ne_zero (Nat.pos_iff_ne_zero.mp hpos)
          refine .inr (.inr ⟨hin, Nat.pos_iff_ne_zero.mp hpos, ?_⟩)
          rw [hn, Nat.succ_eq_add_one, List.range_succ_eq_map]
          obtain ⟨hfull, hfree⟩ := elfMapPage_leaves st (ph.pageAddr 0) ph.pteFlags
            (fills_elfFill img ph (ph.pageAddr 0))
          refine ⟨fun hzero => attempt_cons_of_failed (hfull hzero) _, fun hne => ?_⟩
          exact attempt_invariant_cons
            (P := fun (mid : ElfLoad) => Loses st.paging.pm mid.paging.pm)
            (fun _ hres => hres ▸ hfree hne)
            fun mid pg _ hmid _ hres => hres ▸ hmid.trans
              (elfMapPage_allocates mid _ _ (fills_elfFill img ph _))
  · refine .inl ⟨fun hout => htype hout.1, fun hpages => htype hpages.1, ?_⟩
    rw [if_pos htype]

theorem elfSegment_allocates (img : ElfImage) (st : ElfLoad) (ph : ElfPhdr) :
    Allocates st.paging.pm (elfSegment img st ph).1.paging.pm := by
  rcases elfSegment_leaves img st ph with ⟨-, -, heq⟩ | ⟨-, heq⟩ | ⟨-, -, hfull, hfree⟩
  · rw [heq]
    exact .refl
  · rw [heq]
    exact .refl
  · by_cases hnone : freePageCount st.paging.pm = 0
    · rw [hfull hnone]
      exact .refl
    · exact Relation.ReflTransGen.trans (allocates_one _) (hfree hnone).2

/-- The second pass, from header `k` on. -/
def elfSegmentsFrom (img : ElfImage) (k n : Nat) (st : ElfLoad) : ElfLoad × Bool :=
  attempt (fun st i => elfSegment img (st.look img i) (img.phdr i)) (List.range' k n) st

/-- A segment is refused before any other took a page. -/
def RefusedFirst (img : ElfImage) (k n : Nat) : Prop :=
  ∃ i, k ≤ i ∧ i < k + n ∧ (img.phdr i).OutOfRange img ∧
    ∀ j, k ≤ j → j < i → ¬ (img.phdr j).HasPages

theorem elfSegmentsFrom_succ (img : ElfImage) (k n : Nat) (st : ElfLoad) :
    elfSegmentsFrom img k (n + 1) st =
      if (elfSegment img (st.look img k) (img.phdr k)).2 then
        elfSegmentsFrom img (k + 1) n (elfSegment img (st.look img k) (img.phdr k)).1
      else ((elfSegment img (st.look img k) (img.phdr k)).1, false) := by
  rw [elfSegmentsFrom, List.range'_succ, attempt_cons]
  rfl

theorem refusedFirst_succ (img : ElfImage) (k n : Nat) :
    RefusedFirst img k (n + 1) ↔ (img.phdr k).OutOfRange img ∨
      (¬ (img.phdr k).HasPages ∧ RefusedFirst img (k + 1) n) := by
  constructor
  · rintro ⟨i, hk, hi, hout, hbefore⟩
    rcases Nat.eq_or_lt_of_le hk with rfl | hlt
    · exact .inl hout
    · exact .inr ⟨hbefore k (le_refl _) hlt, i, hlt, by omega, hout,
        fun j hj hji => hbefore j (by omega) hji⟩
  · rintro (hout | ⟨hnone, i, hk, hi, hout, hbefore⟩)
    · exact ⟨k, le_refl _, by omega, hout, fun j hj hjk => by omega⟩
    · refine ⟨i, by omega, by omega, hout, fun j hj hji => ?_⟩
      rcases Nat.eq_or_lt_of_le hj with rfl | hlt
      · exact hnone
      · exact hbefore j hlt hji

/-- Without a free page the pass changes nothing. -/
theorem elfSegmentsFrom_full (img : ElfImage) (n : Nat) : ∀ (k : Nat) (st : ElfLoad),
    freePageCount st.paging.pm = 0 → (elfSegmentsFrom img k n st).1.paging = st.paging := by
  induction n with
  | zero => exact fun _ _ _ => rfl
  | succ n ih =>
      intro k st hfull
      rw [elfSegmentsFrom_succ]
      rcases elfSegment_leaves img (st.look img k) (img.phdr k) with
        ⟨-, -, heq⟩ | ⟨-, heq⟩ | ⟨-, -, hstop, -⟩
      · rw [heq]
        exact ih (k + 1) (st.look img k) hfull
      · rw [heq]
        rfl
      · rw [hstop hfull]
        rfl

/-- With a free page the pass changes nothing exactly if it is refused before the first page, or
has nothing to do. -/
theorem elfSegmentsFrom_free (img : ElfImage) (n : Nat) : ∀ (k : Nat) (st : ElfLoad),
    freePageCount st.paging.pm ≠ 0 →
      (¬ RefusedFirst img k n ∧ Loses st.paging.pm (elfSegmentsFrom img k n st).1.paging.pm) ∨
      (¬ RefusedFirst img k n ∧ (elfSegmentsFrom img k n st).1.paging = st.paging ∧
        (elfSegmentsFrom img k n st).2 = true) ∨
      (RefusedFirst img k n ∧ (elfSegmentsFrom img k n st).1.paging = st.paging ∧
        (elfSegmentsFrom img k n st).2 = false) := by
  induction n with
  | zero =>
      intro k st _
      refine .inr (.inl ⟨?_, rfl, rfl⟩)
      rintro ⟨i, hk, hi, -⟩
      omega
  | succ n ih =>
      intro k st hfree
      rw [elfSegmentsFrom_succ, refusedFirst_succ]
      rcases elfSegment_leaves img (st.look img k) (img.phdr k) with
        ⟨hin, hnone, heq⟩ | ⟨hout, heq⟩ | ⟨hin, hpages, -, hlose⟩
      · have hrest := ih (k + 1) (st.look img k) hfree
        rw [heq, or_iff_right hin, and_iff_right hnone]
        exact hrest
      · rw [heq]
        exact .inr (.inr ⟨.inl hout, rfl, rfl⟩)
      · have hfirst := hlose hfree
        refine .inl ⟨fun href => (href.resolve_left hin).1 hpages, ?_⟩
        generalize elfSegment img (st.look img k) (img.phdr k) = res at hfirst ⊢
        split
        · exact attempt_invariant
            (P := fun (mid : ElfLoad) => Loses st.paging.pm mid.paging.pm) _ hfirst
            fun mid i _ hmid _ hres =>
              hres ▸ hmid.trans (elfSegment_allocates img (mid.look img i) _)
        · exact hfirst

theorem elfMapStack_allocates (st : ElfLoad) :
    Allocates st.paging.pm (elfMapStack st).1.paging.pm :=
  attempt_invariant (P := fun (mid : ElfLoad) => Allocates st.paging.pm mid.paging.pm) _ .refl
    fun mid _ _ hmid _ hres => hres ▸ Relation.ReflTransGen.trans hmid
      (elfMapPage_allocates mid _ _ fills_same)

/-- Both passes: what counts is the second one, from the first header on. -/
theorem elfSegments_from (img : ElfImage) (st : ElfLoad) :
    ∃ looked : ElfLoad, looked.paging = st.paging ∧
      elfSegments img st = elfSegmentsFrom img 0 img.ehdr.phnum.toNat looked := by
  refine ⟨_, looks_paging img (List.range img.ehdr.phnum.toNat) st, ?_⟩
  unfold elfSegments elfSegmentsFrom
  rw [← List.range_eq_range']

end Load

/-! ### The whole load -/

/-- The allocator has as many free pages, its counter says the same, and every address translates
as before. -/
def LeavesNoTrace (s s' : Paging) : Prop :=
  freePageCount s'.pm = freePageCount s.pm ∧ s'.pm.freePages = s.pm.freePages ∧
    ∀ v, virtToPhys s' v = virtToPhys s v

/-- The image is refused before a page is asked for. -/
def ElfImage.RefusedEarly (img : ElfImage) : Prop :=
  img.size.toNat < elfEhdrSize ∨ elfValid img = false ∨
    RefusedFirst img 0 img.ehdr.phnum.toNat

theorem LeavesNoTrace.of_eq {s s' : Paging} (h : s' = s) : LeavesNoTrace s s' := by
  rw [h]
  exact ⟨rfl, rfl, fun _ => rfl⟩

theorem Loses.leaves {s s' : Paging} (h : Loses s.pm s'.pm) : ¬ LeavesNoTrace s s' :=
  fun hnone => h.freePages hnone.2.1

/-- A load that is past the segments costs a page, if there is one. -/
theorem elfMapPhdrs_leaves (img : ElfImage) (st : ElfLoad) :
    (freePageCount st.paging.pm = 0 → elfMapPhdrs img st = (st, false)) ∧
      (freePageCount st.paging.pm ≠ 0 →
        Loses st.paging.pm (elfMapPhdrs img st).1.paging.pm) :=
  elfMapPage_leaves st _ _ (fills_copy img (fun page => page) (fun _ => img.phdrOff 0)
    fun _ => img.ehdr.phnum.toNat * elfPhdrSize)

/-- A failed load changes nothing, or has lost pages. -/
theorem elfLoad_leaves {img : ElfImage} {st st' : ElfLoad} (hfail : elfLoad img st = (st', none)) :
    ((freePageCount st.paging.pm = 0 ∨ img.RefusedEarly) ∧ st'.paging = st.paging) ∨
      (¬ (freePageCount st.paging.pm = 0 ∨ img.RefusedEarly) ∧
        Loses st.paging.pm st'.paging.pm) := by
  unfold elfLoad at hfail
  by_cases hsize : img.size.toNat < elfEhdrSize
  · rw [if_pos hsize] at hfail
    rw [← (Prod.mk.inj hfail).1]
    exact .inl ⟨.inr (.inl hsize), rfl⟩
  rw [if_neg hsize] at hfail
  dsimp only at hfail
  by_cases hvalid : elfValid img = false
  · rw [if_pos hvalid] at hfail
    rw [← (Prod.mk.inj hfail).1]
    exact .inl ⟨.inr (.inr (.inl hvalid)), rfl⟩
  rw [if_neg hvalid] at hfail
  obtain ⟨looked, hlooked, hsegs⟩ := elfSegments_from img (st.note (.read 0 elfEhdrSize))
  have hlooked : looked.paging = st.paging := hlooked
  rw [hsegs] at hfail
  have hearly : img.RefusedEarly ↔ RefusedFirst img 0 img.ehdr.phnum.toNat :=
    ⟨fun h => (h.resolve_left hsize).resolve_left hvalid, fun h => .inr (.inr h)⟩
  rw [hearly, ← hlooked]
  have hhdrs := elfMapPhdrs_leaves img
    (elfSegmentsFrom img 0 img.ehdr.phnum.toNat looked).1
  by_cases hfull : freePageCount looked.paging.pm = 0
  · -- Nothing can be taken at all.
    refine .inl ⟨.inl hfull, ?_⟩
    have hsame := elfSegmentsFrom_full img img.ehdr.phnum.toNat 0 looked hfull
    generalize elfSegmentsFrom img 0 img.ehdr.phnum.toNat looked = segs at hfail hhdrs hsame
    have hstop := hhdrs.1 (by rw [hsame]; exact hfull)
    rw [hstop, if_pos rfl] at hfail
    split at hfail
    · rw [← (Prod.mk.inj hfail).1]
      exact hsame
    · rw [← (Prod.mk.inj hfail).1]
      exact hsame
  · rw [or_iff_right hfull]
    have hcases := elfSegmentsFrom_free img img.ehdr.phnum.toNat 0 looked hfull
    generalize elfSegmentsFrom img 0 img.ehdr.phnum.toNat looked = segs at hfail hhdrs hcases
    have hhdrsAll := elfMapPage_allocates segs.1
      (elfPhdrVaddr (elfMaxVaddr img.phdrs)) (pteFlagPresent ||| pteFlagUser)
      (fills_copy img (fun page => page) (fun _ => img.phdrOff 0)
        fun _ => img.ehdr.phnum.toNat * elfPhdrSize)
    have hhdrsAll : Allocates segs.1.paging.pm (elfMapPhdrs img segs.1).1.paging.pm := hhdrsAll
    have hstackAll := elfMapStack_allocates (elfMapPhdrs img segs.1).1
    -- What the rest of the load costs, if the segments were all loaded.
    have hrest : ∀ pm, Loses pm (elfMapPhdrs img segs.1).1.paging.pm → segs.2 = true →
        Loses pm st'.paging.pm := by
      intro pm hlost hok
      rw [if_neg (by rw [hok]; simp)] at hfail
      split at hfail
      · rw [← (Prod.mk.inj hfail).1]
        exact hlost
      · split at hfail
        · rw [← (Prod.mk.inj hfail).1]
          exact hlost.trans hstackAll
        · exact absurd (Prod.mk.inj hfail).2 (by simp)
    rcases hcases with ⟨hnot, hlost⟩ | ⟨hnot, hsame, hok⟩ | ⟨href, hsame, hno⟩
    · refine .inr ⟨hnot, ?_⟩
      by_cases hok : segs.2 = true
      · exact hrest _ (hlost.trans hhdrsAll) hok
      · rw [if_pos (by simpa using hok)] at hfail
        rw [← (Prod.mk.inj hfail).1]
        exact hlost
    · rw [hsame] at hhdrs
      exact .inr ⟨hnot, hrest _ (hhdrs.2 hfull) hok⟩
    · rw [if_pos hno] at hfail
      rw [← (Prod.mk.inj hfail).1]
      exact .inl ⟨href, hsame⟩

/--
**When a failed load leaves no trace.**  The free pages and the translations are as before a load
that fails if and only if no page was free, the header is refused, or a segment that is out of
range comes before every segment with pages.
-/
theorem elf_load_traceless_iff {img : ElfImage} {st st' : ElfLoad}
    (hfail : elfLoad img st = (st', none)) :
    LeavesNoTrace st.paging st'.paging ↔
      freePageCount st.paging.pm = 0 ∨ img.RefusedEarly := by
  rcases elfLoad_leaves hfail with ⟨hcond, hsame⟩ | ⟨hcond, hlost⟩
  · exact ⟨fun _ => hcond, fun _ => .of_eq hsame⟩
  · exact ⟨fun hnone => absurd hnone hlost.leaves, fun h => absurd h hcond⟩

/-- An image does not load with a segment out of range. -/
theorem elfLoad_outOfRange {img : ElfImage} {i : Nat} (hi : i < img.ehdr.phnum.toNat)
    (hout : (img.phdr i).OutOfRange img) (st : ElfLoad) : (elfLoad img st).2 = none := by
  cases hload : elfLoad img st with
  | mk st' res =>
      cases res with
      | none => rfl
      | some info =>
          obtain ⟨segs, hdrs, -, -, hsegs, -, -⟩ := elfLoad_some hload
          obtain ⟨looked, -, heq⟩ := elfSegments_from img (st.note (.read 0 elfEhdrSize))
          rw [hsegs, elfSegmentsFrom, ← List.range_eq_range'] at heq
          have hall : ∀ k (st st' : ElfLoad), k < img.ehdr.phnum.toNat →
              (∀ j < k, ¬ (img.phdr j).OutOfRange img) →
              elfSegment img (st.look img k) (img.phdr k) = (st', true) →
                ∀ j < k + 1, ¬ (img.phdr j).OutOfRange img := by
            intro k st st' _ hbefore hseg j hj
            rcases Nat.eq_or_lt_of_le (Nat.lt_succ_iff.mp hj) with rfl | hlt
            · rcases elfSegment_leaves img (st.look img j) (img.phdr j) with
                ⟨hin, -⟩ | ⟨-, hno⟩ | ⟨hin, -⟩
              · exact hin
              · rw [hno] at hseg
                exact absurd (Prod.mk.inj hseg).2 (by simp)
              · exact hin
            · exact hbefore j hlt
          have hnone := attempt_range (P := fun k _ => ∀ j < k, ¬ (img.phdr j).OutOfRange img)
            (fun j hj => absurd hj (Nat.not_lt_zero j)) _ hall heq.symm
          exact absurd hout (hnone i hi)

/-- A segment that has its data behind the end of the file. -/
def cutImage : ElfImage where
  buf := onto (ehdrBytes 64 1 ++ phdrBytes 0x10000 0x400000 8 8) fun _ => 0
  size := 120

theorem elf_load_traceless_cut :
    (elfLoad cutImage roomyMachine).2 = none ∧
      LeavesNoTrace roomyMachine.paging (elfLoad cutImage roomyMachine).1.paging := by
  have hfail : (elfLoad cutImage roomyMachine).2 = none :=
    elfLoad_outOfRange (i := 0) (by decide +kernel) (by decide +kernel) _
  refine ⟨hfail, (elf_load_traceless_iff (eq_of_snd hfail)).mpr (.inr (.inr (.inr ?_)))⟩
  exact ⟨0, le_refl _, by decide +kernel, by decide +kernel, fun j _ hj => by omega⟩

/-- A good segment before the one that is cut. -/
def tornImage : ElfImage where
  buf := onto (ehdrBytes 64 2 ++ phdrBytes 0 0x400000 0 8 ++ phdrBytes 0x10000 0x800000 8 8)
    fun _ => 0
  size := 176

/-- The second segment is refused when the first one has its page. -/
theorem elf_load_leaves_pages :
    (elfLoad tornImage roomyMachine).2 = none ∧
      ¬ LeavesNoTrace roomyMachine.paging (elfLoad tornImage roomyMachine).1.paging := by
  have hfail : (elfLoad tornImage roomyMachine).2 = none :=
    elfLoad_outOfRange (i := 1) (by decide +kernel) (by decide +kernel) _
  refine ⟨hfail, ?_⟩
  rcases elfLoad_leaves (eq_of_snd hfail) with ⟨hcond, -⟩ | ⟨-, hlost⟩
  · rcases hcond with hfull | hsize | hvalid | ⟨i, -, hi, hout, hbefore⟩
    · have hroom := roomyMachine_room.pages
      omega
    · exact absurd hsize (by decide +kernel)
    · exact absurd hvalid (by decide +kernel)
    · have hpages : (tornImage.phdr 0).HasPages := by decide +kernel
      rcases Nat.eq_zero_or_pos i with rfl | hpos
      · exact absurd hout (by decide +kernel)
      · exact absurd hpages (hbefore 0 (le_refl _) hpos)
  · exact hlost.leaves

end BrightS
