/-
What the loader reads and writes.

`TraceInBounds` says of a trace that every read lies in the file and every byte that is
written lies in a page the loader has got before.  The checks of the loader are sums of
`uint64_t` values: where a sum wraps, the program headers or the bytes of a segment are
taken from outside the file.  And the program headers are copied into one page, however
many they are.
-/
import BrightS.Proofs.ElfPages

namespace BrightS

open Bytes Loops Words

-- Unfolding the search through the bitmap is never of use here.
attribute [local irreducible] pmemAllocPage

/-! ### Traces -/

def ElfEvent.InBounds (size : Nat) (before : List ElfEvent) : ElfEvent → Prop
  | .read off len => off + len ≤ size
  | .alloc _ => True
  | .write addr len => ∀ k, k < len →
      ∃ page, .alloc page ∈ before ∧ page ≤ addr + k ∧ addr + k < page + 4096

/-- Each event is in bounds, given the events before it. -/
def TraceInBounds (size : Nat) : List ElfEvent → Prop
  | [] => True
  | e :: before => e.InBounds size before ∧ TraceInBounds size before

theorem TraceInBounds.read {size off len : Nat} {trace : List ElfEvent}
    (h : TraceInBounds size trace) (hread : .read off len ∈ trace) : off + len ≤ size := by
  induction trace with
  | nil => exact absurd hread (by simp)
  | cons e before ih =>
      rcases List.mem_cons.mp hread with heq | hold
      · have hfirst := h.1
        rw [← heq] at hfirst
        exact hfirst
      · exact ih h.2 hold

theorem TraceInBounds.suffix {size : Nat} {trace later : List ElfEvent}
    (h : TraceInBounds size later) (hsuffix : trace <:+ later) : TraceInBounds size trace := by
  obtain ⟨events, rfl⟩ := hsuffix
  induction events with
  | nil => exact h
  | cons e events ih => exact ih h.2

/-! ### Pages one after the other -/

attribute [local irreducible] elfMapPage

/-- The pages got so far lie below every free one. -/
structure Ascending (st : ElfLoad) : Prop where
  sane : PmemSane st.paging.pm
  below : ∀ p, .alloc p ∈ st.trace → ∀ x, AddrFree st.paging.pm x → p < x

theorem Ascending.note {st : ElfLoad} (h : Ascending st) {e : ElfEvent}
    (he : ∀ p, e ≠ .alloc p) : Ascending (st.note e) := by
  refine ⟨h.sane, fun p hp x hx => ?_⟩
  rcases List.mem_cons.mp hp with heq | hold
  · exact absurd heq.symm (he p)
  · exact h.below p hold x hx

theorem Ascending.fresh {st : ElfLoad} (h : Ascending st) {res : Pmem × Nat}
    (hres : pmemAllocPage st.paging.pm = res) (hsome : res.2 ≠ 0) : Ascending (st.fresh res) := by
  have haddr := pmemAllocPage_addr h.sane
  have hlowest : ∀ x, AddrFree st.paging.pm x → res.2 ≤ x := by
    intro x hx
    rw [← hres]
    exact pmemAllocPage_le hx
  rw [hres] at haddr
  rcases haddr with hnone | ⟨hfree, -, -, -, hsane, hrest⟩
  · rw [hnone] at hsome
    exact absurd rfl hsome
  · refine ⟨hsane, fun p hp x hx => ?_⟩
    obtain ⟨hx, hne⟩ := (hrest x).mp hx
    have hp' : p = res.2 ∨ .alloc p ∈ st.trace := by
      simpa [ElfLoad.fresh, ElfLoad.note, ElfLoad.zero] using hp
    rcases hp' with rfl | hold
    · exact lt_of_le_of_ne (hlowest x hx) (Ne.symm hne)
    · exact h.below p hold x hx

theorem Ascending.fill {st : ElfLoad} (h : Ascending st) {fill : ElfLoad → Nat → ElfLoad}
    (hfill : Fills fill) (page : Nat) : Ascending (fill st page) := by
  refine ⟨?_, fun p hp x hx => ?_⟩
  · rw [hfill.paging]
    exact h.sane
  · rw [hfill.paging] at hx
    exact h.below p (hfill.alloc st page p hp) x hx

theorem Ascending.taken {st : ElfLoad} (h : Ascending st) {paging : Paging} {n : Nat}
    (htaken : Taken n st.paging.pm paging.pm) : Ascending { st with paging := paging } :=
  ⟨htaken.sane h.sane, fun p hp x hx => h.below p hp x (htaken.addrFree hx)⟩

theorem Ascending.mapPage {st : ElfLoad} (h : Ascending st) (va flags : Nat)
    {fill : ElfLoad → Nat → ElfLoad} (hfill : Fills fill) :
    Ascending (elfMapPage st va flags fill).1 := by
  have htaken := pmemAllocPage_taken st.paging.pm
  obtain ⟨res, hres, ⟨hnone, heq⟩ | ⟨hsome, heq⟩⟩ := elfMapPage_cases st va flags fill
  · rw [heq]
    rw [hres] at htaken
    exact h.taken htaken
  · rw [heq]
    exact ((h.fresh hres hsome).fill hfill _).taken (pagingMap_taken ..)

theorem mapPage_suffix (st : ElfLoad) (va flags : Nat) {fill : ElfLoad → Nat → ElfLoad}
    (hfill : Fills fill) : st.trace <:+ (elfMapPage st va flags fill).1.trace := by
  obtain ⟨res, -, ⟨hnone, heq⟩ | ⟨hsome, heq⟩⟩ := elfMapPage_cases st va flags fill
  · rw [heq]
  · rw [heq]
    exact List.IsSuffix.trans ⟨[_, _], rfl⟩ (hfill.trace (st.fresh res) res.2)

/-- A page whose filling stays in bounds. -/
theorem TraceInBounds.mapPage {size : Nat} {st : ElfLoad} (h : TraceInBounds size st.trace)
    (va flags : Nat) {fill : ElfLoad → Nat → ElfLoad}
    (hfill : ∀ st page, .alloc page ∈ st.trace → TraceInBounds size st.trace →
      TraceInBounds size (fill st page).trace) :
    TraceInBounds size (elfMapPage st va flags fill).1.trace := by
  obtain ⟨res, -, ⟨hnone, heq⟩ | ⟨hsome, heq⟩⟩ := elfMapPage_cases st va flags fill
  · rw [heq]
    exact h
  · rw [heq]
    refine hfill (st.fresh res) res.2 ?_ ⟨fun k hk => ?_, trivial, h⟩
    · simp [ElfLoad.fresh, ElfLoad.note, ElfLoad.zero]
    · exact ⟨res.2, List.mem_cons_self .., by omega, by omega⟩

/-- A copy into a page that was got before. -/
theorem TraceInBounds.copy {size : Nat} {st : ElfLoad} {page : Nat} (h : TraceInBounds size st.trace)
    (hpage : .alloc page ∈ st.trace) (img : ElfImage) {addr off len : Nat} (haddr : page ≤ addr)
    (hend : addr + len ≤ page + 4096) (hread : off + len ≤ size) :
    TraceInBounds size (st.copy img addr off len).trace := by
  refine ⟨fun k hk => ⟨page, List.mem_cons_of_mem _ hpage, by omega, by omega⟩, hread, h⟩

/-! ### The parts of a segment -/

theorem alignDown4k_eq {v : Nat} (hv : v < 2 ^ 64) : alignDown4k v = v / 4096 * 4096 := and_not_fff hv

theorem alignUp4k_eq (v : Nat) : alignUp4k v = (v + 4095) % 2 ^ 64 / 4096 * 4096 :=
  and_not_fff (Nat.mod_lt _ (by decide))

/-- The number of bytes that are copied from the file: those in the pages of the segment, but for
the last page of the address space; none if the end of the data wraps. -/
def ElfPhdr.copied (ph : ElfPhdr) : Nat :=
  if 2 ^ 64 ≤ ph.vaddr.toNat + ph.filesz.toNat then 0
  else min ph.filesz.toNat
    (min (ph.pageStart + ph.numPages * 4096) (2 ^ 64 - 4096) - ph.vaddr.toNat)

section Parts

variable (ph : ElfPhdr)

theorem copyStart_eq (va : Nat) : ph.copyStart va = max ph.vaddr.toNat va := by
  unfold ElfPhdr.copyStart
  split <;> omega

theorem copyEnd_eq (va : Nat) :
    ph.copyEnd va = min ((va + 4096) % 2 ^ 64) ((ph.vaddr.toNat + ph.filesz.toNat) % 2 ^ 64) := by
  unfold ElfPhdr.copyEnd
  dsimp only
  split <;> omega

theorem pageStart_eq : ph.pageStart = ph.vaddr.toNat / 4096 * 4096 := alignDown4k_eq ph.vaddr.isLt

theorem numPages_lt : ph.numPages < 2 ^ 52 := by
  unfold ElfPhdr.numPages sub64
  omega

/-- A page of the segment that gets bytes of the file does not wrap, and neither does the data. -/
theorem part_place {pg : Nat} (hpg : pg < ph.numPages)
    (hlt : ph.copyStart (ph.pageAddr pg) < ph.copyEnd (ph.pageAddr pg)) :
    ph.pageAddr pg = ph.pageStart + pg * 4096 ∧ ph.pageAddr pg + 4096 ≤ 2 ^ 64 - 4096 ∧
      ph.vaddr.toNat + ph.filesz.toNat < 2 ^ 64 := by
  have hv := ph.vaddr.isLt
  have hf := ph.filesz.isLt
  have hn := numPages_lt ph
  have hstart := pageStart_eq ph
  rw [copyStart_eq, copyEnd_eq] at hlt
  unfold ElfPhdr.pageAddr at hlt ⊢
  rw [hstart] at hlt ⊢
  generalize ph.numPages = n at hpg hn
  generalize ph.vaddr.toNat = v at hv hlt ⊢
  generalize ph.filesz.toNat = f at hf hlt ⊢
  omega

theorem part_le_copied {pg : Nat} (hpg : pg < ph.numPages)
    (hlt : ph.copyStart (ph.pageAddr pg) < ph.copyEnd (ph.pageAddr pg)) :
    ph.copyEnd (ph.pageAddr pg) ≤ ph.vaddr.toNat + ph.copied := by
  obtain ⟨hplace, htop, hdata⟩ := part_place ph hpg hlt
  rw [copyStart_eq] at hlt
  have hend := copyEnd_eq ph (ph.pageAddr pg)
  unfold ElfPhdr.copied
  rw [if_neg (by omega)]
  omega

/-- Byte `k` of what is copied lies in a part. -/
theorem copied_part {k : Nat} (hk : k < ph.copied) :
    ∃ pg, pg < ph.numPages ∧ ph.copyStart (ph.pageAddr pg) ≤ ph.vaddr.toNat + k ∧
      ph.vaddr.toNat + k < ph.copyEnd (ph.pageAddr pg) := by
  have hv := ph.vaddr.isLt
  have hstart := pageStart_eq ph
  unfold ElfPhdr.copied at hk
  split at hk
  · omega
  · refine ⟨(ph.vaddr.toNat + k - ph.pageStart) / 4096, by omega, ?_, ?_⟩
    · rw [copyStart_eq]
      unfold ElfPhdr.pageAddr
      omega
    · rw [copyEnd_eq]
      unfold ElfPhdr.pageAddr
      omega

/-- The parts are read inside the file exactly when what is copied lies in it. -/
theorem parts_in_file_iff {size : Nat} (hsize : size < 2 ^ 64) :
    (∀ pg, pg < ph.numPages → ph.copyStart (ph.pageAddr pg) < ph.copyEnd (ph.pageAddr pg) →
      (ph.offset.toNat + (ph.copyStart (ph.pageAddr pg) - ph.vaddr.toNat)) % 2 ^ 64 +
        (ph.copyEnd (ph.pageAddr pg) - ph.copyStart (ph.pageAddr pg)) ≤ size) ↔
      ph.copied = 0 ∨ ph.offset.toNat + ph.copied ≤ size := by
  constructor
  · intro hparts
    -- By induction on the byte: the part it lies in begins right after bytes in the file.
    have hbyte : ∀ k, k < ph.copied → ph.offset.toNat + k < size := by
      intro k
      induction k using Nat.strong_induction_on with
      | _ k ih =>
          intro hk
          obtain ⟨pg, hpg, hlo, hhi⟩ := copied_part ph hk
          have hread := hparts pg hpg (by omega)
          have hstart : ph.vaddr.toNat ≤ ph.copyStart (ph.pageAddr pg) := by
            rw [copyStart_eq]
            omega
          have hoff := ph.offset.isLt
          have hfirst : ph.offset.toNat + (ph.copyStart (ph.pageAddr pg) - ph.vaddr.toNat) <
              2 ^ 64 := by
            by_cases hzero : ph.copyStart (ph.pageAddr pg) = ph.vaddr.toNat
            · omega
            · have := ih (ph.copyStart (ph.pageAddr pg) - ph.vaddr.toNat - 1) (by omega) (by omega)
              omega
          rw [Nat.mod_eq_of_lt hfirst] at hread
          omega
    by_cases hzero : ph.copied = 0
    · exact .inl hzero
    · have := hbyte (ph.copied - 1) (by omega)
      exact .inr (by omega)
  · intro hcopied pg hpg hlt
    have hle := part_le_copied ph hpg hlt
    have hstart : ph.vaddr.toNat ≤ ph.copyStart (ph.pageAddr pg) := by
      rw [copyStart_eq]
      omega
    have hmod := Nat.mod_le (ph.offset.toNat +
      (ph.copyStart (ph.pageAddr pg) - ph.vaddr.toNat)) (2 ^ 64)
    omega

end Parts

attribute [local irreducible] ElfPhdr.copyStart ElfPhdr.copyEnd ElfPhdr.pageAddr ElfPhdr.copied

/-! ### Segments -/

instance (ph : ElfPhdr) (img : ElfImage) : Decidable (ph.Checked img) :=
  inferInstanceAs (Decidable (ph.type = ptLoad → ph.memsz ≠ 0 →
    (ph.offset.toNat + ph.filesz.toNat) % 2 ^ 64 ≤ img.size.toNat))

/-- The first segment that the range check refuses; there are `phnum` before it if there is none. -/
def ElfImage.firstRefused (img : ElfImage) : Nat :=
  (List.range img.ehdr.phnum.toNat).findIdx fun i => decide (¬ (img.phdr i).Checked img)

theorem firstRefused_le (img : ElfImage) : img.firstRefused ≤ img.ehdr.phnum.toNat := by
  unfold ElfImage.firstRefused
  exact le_of_le_of_eq List.findIdx_le_length List.length_range

theorem checked_of_lt {img : ElfImage} {i : Nat} (hi : i < img.firstRefused) :
    (img.phdr i).Checked img := by
  have hnot := List.not_of_lt_findIdx hi
  simpa using hnot

theorem refused_of_lt {img : ElfImage} (hlt : img.firstRefused < img.ehdr.phnum.toNat) :
    ¬ (img.phdr img.firstRefused).Checked img := by
  have hidx : (List.range img.ehdr.phnum.toNat).findIdx
      (fun i => decide (¬ (img.phdr i).Checked img)) < (List.range img.ehdr.phnum.toNat).length :=
    lt_of_lt_of_eq hlt List.length_range.symm
  have hat := List.findIdx_getElem (w := hidx)
  rw [List.getElem_range] at hat
  exact of_decide_eq_true hat

/-- What the loader takes from the image lies in the file: the program headers, and the data of
the segments before the first one that is refused.  If none is, the program headers fit a page. -/
structure ImageInBounds (img : ElfImage) : Prop where
  table : img.ehdr.phoff.toNat + img.ehdr.phnum.toNat * elfPhdrSize ≤ img.size.toNat
  segments : ∀ i, i < img.firstRefused → (img.phdr i).type = ptLoad → (img.phdr i).memsz ≠ 0 →
    (img.phdr i).copied = 0 ∨
      (img.phdr i).offset.toNat + (img.phdr i).copied ≤ img.size.toNat
  onePage : img.firstRefused = img.ehdr.phnum.toNat → img.ehdr.phnum.toNat ≤ 73

theorem copyEnd_le (ph : ElfPhdr) (va : Nat) : ph.copyEnd va ≤ va + 4096 := by
  rw [copyEnd_eq]
  omega

/-- So far everything was in bounds. -/
def InBounds (img : ElfImage) (st : ElfLoad) : Prop := TraceInBounds img.size.toNat st.trace

theorem InBounds.fill {img : ElfImage} {ph : ElfPhdr} {pg : Nat}
    (hpart : ph.copyStart (ph.pageAddr pg) < ph.copyEnd (ph.pageAddr pg) →
      (ph.offset.toNat + (ph.copyStart (ph.pageAddr pg) - ph.vaddr.toNat)) % 2 ^ 64 +
        (ph.copyEnd (ph.pageAddr pg) - ph.copyStart (ph.pageAddr pg)) ≤ img.size.toNat)
    (st : ElfLoad) (page : Nat) (hpage : .alloc page ∈ st.trace) (h : InBounds img st) :
    InBounds img (elfFill img ph (ph.pageAddr pg) st page) := by
  unfold elfFill
  by_cases hfilesz : ph.filesz = 0
  · rw [if_pos hfilesz]
    exact h
  · rw [if_neg hfilesz]
    by_cases hlt : ph.copyStart (ph.pageAddr pg) < ph.copyEnd (ph.pageAddr pg)
    · rw [if_pos hlt]
      have hstart : ph.pageAddr pg ≤ ph.copyStart (ph.pageAddr pg) := by
        rw [copyStart_eq]
        omega
      have hend := copyEnd_le ph (ph.pageAddr pg)
      exact TraceInBounds.copy h hpage img (by omega) (by omega) (hpart hlt)
    · rw [if_neg hlt]
      exact h

theorem InBounds.segment {img : ElfImage} {ph : ElfPhdr} {st : ElfLoad} (h : InBounds img st)
    (hfile : ph.type = ptLoad → ph.memsz ≠ 0 →
      ph.copied = 0 ∨ ph.offset.toNat + ph.copied ≤ img.size.toNat) :
    InBounds img (elfSegment img st ph).1 := by
  unfold elfSegment
  split
  · exact h
  · rename_i htype
    split
    · exact h
    · rename_i hmem
      split
      · exact h
      · have hparts := (parts_in_file_iff ph img.size.isLt).mpr (hfile (not_not.mp htype) hmem)
        refine attempt_invariant _ h fun st pg hpg hst r hr => ?_
        rw [← hr]
        exact TraceInBounds.mapPage hst _ _ (InBounds.fill (hparts pg (List.mem_range.mp hpg)))

/-- The bytes of the first `n` pages of a segment were read. -/
def PartsRead (ph : ElfPhdr) (n : Nat) (st : ElfLoad) : Prop :=
  ∀ pg, pg < n → ph.copyStart (ph.pageAddr pg) < ph.copyEnd (ph.pageAddr pg) →
    .read ((ph.offset.toNat + (ph.copyStart (ph.pageAddr pg) - ph.vaddr.toNat)) % 2 ^ 64)
      (ph.copyEnd (ph.pageAddr pg) - ph.copyStart (ph.pageAddr pg)) ∈ st.trace

theorem PartsRead.page {img : ElfImage} {ph : ElfPhdr} {pg : Nat} {st st' : ElfLoad}
    (h : PartsRead ph pg st)
    (hmap : elfMapPage st (ph.pageAddr pg) ph.pteFlags (elfFill img ph (ph.pageAddr pg)) =
      (st', true)) : PartsRead ph (pg + 1) st' := by
  intro q hq hlt
  have hsuffix := mapPage_suffix st (ph.pageAddr pg) ph.pteFlags
    (fills_elfFill img ph (ph.pageAddr pg))
  rw [hmap] at hsuffix
  rcases Nat.lt_succ_iff_lt_or_eq.mp hq with hold | hnew
  · exact hsuffix.subset (h q hold hlt)
  · rw [hnew] at hlt ⊢
    obtain ⟨res, -, ⟨-, heq⟩ | ⟨-, heq⟩⟩ := elfMapPage_cases st (ph.pageAddr pg) ph.pteFlags
      (elfFill img ph (ph.pageAddr pg))
    · rw [heq] at hmap
      exact absurd (Prod.mk.inj hmap).2 (by simp)
    · rw [heq] at hmap
      rw [← (Prod.mk.inj hmap).1]
      have hfilesz : ph.filesz ≠ 0 := by
        intro hzero
        have hv := ph.vaddr.isLt
        have hz : ph.filesz.toNat = 0 := by rw [hzero]; rfl
        rw [copyStart_eq, copyEnd_eq, hz] at hlt
        omega
      unfold elfFill
      rw [if_neg hfilesz, if_pos hlt]
      exact List.mem_cons_of_mem _ (List.mem_cons_self ..)

/-- A segment that was loaded in bounds lies in the file. -/
theorem segment_in_file {img : ElfImage} {ph : ElfPhdr} {st st' : ElfLoad}
    (hload : elfSegment img st ph = (st', true)) (htype : ph.type = ptLoad) (hmem : ph.memsz ≠ 0)
    (hbounds : InBounds img st') :
    ph.copied = 0 ∨ ph.offset.toNat + ph.copied ≤ img.size.toNat := by
  rw [← parts_in_file_iff ph img.size.isLt]
  intro pg hpg hlt
  unfold elfSegment at hload
  rw [if_neg (not_not.mpr htype), if_neg hmem] at hload
  split at hload
  · exact absurd (Prod.mk.inj hload).2 (by simp)
  · have hfirst : PartsRead ph 0 st := fun q hq => absurd hq (Nat.not_lt_zero q)
    have hreads := attempt_range hfirst _ (fun _ _ _ _ h hmap => h.page hmap) hload
    exact TraceInBounds.read hbounds (hreads pg hpg hlt)

theorem segment_suffix (img : ElfImage) (st : ElfLoad) (ph : ElfPhdr) :
    st.trace <:+ (elfSegment img st ph).1.trace := by
  have hrefl : st.trace <:+ st.trace := List.suffix_refl _
  unfold elfSegment
  split_ifs
  · exact hrefl
  · exact hrefl
  · exact hrefl
  · refine attempt_invariant (P := fun (mid : ElfLoad) => st.trace <:+ mid.trace) _ hrefl
      fun mid pg _ hmid r hr => ?_
    rw [← hr]
    exact hmid.trans (mapPage_suffix mid _ _ (fills_elfFill img ph _))

theorem Ascending.segment {img : ElfImage} {st : ElfLoad} (h : Ascending st) (ph : ElfPhdr) :
    Ascending (elfSegment img st ph).1 := by
  unfold elfSegment
  split_ifs
  · exact h
  · exact h
  · exact h
  · exact attempt_invariant _ h fun mid pg _ hmid r hr =>
      hr ▸ hmid.mapPage _ _ (fills_elfFill img ph _)

/-! ### Both passes -/

theorem Ascending.look {img : ElfImage} {st : ElfLoad} (h : Ascending st) (i : Nat) :
    Ascending (st.look img i) := h.note (by simp)

theorem Ascending.segments {img : ElfImage} {st : ElfLoad} (h : Ascending st) :
    Ascending (elfSegments img st).1 := by
  unfold elfSegments
  have hlook := List.foldlRecOn (List.range img.ehdr.phnum.toNat) (fun st i => st.look img i) h
    fun mid hmid i _ => hmid.look i
  exact attempt_invariant _ hlook fun mid i _ hmid r hr => hr ▸ (hmid.look i).segment _

theorem InBounds.look {img : ElfImage} {st : ElfLoad} (h : InBounds img st)
    (htable : img.ehdr.phoff.toNat + img.ehdr.phnum.toNat * elfPhdrSize ≤ img.size.toNat) {i : Nat}
    (hi : i < img.ehdr.phnum.toNat) : InBounds img (st.look img i) := by
  refine ⟨?_, h⟩
  show img.phdrOff i + elfPhdrSize ≤ img.size.toNat
  have hmod := Nat.mod_le (img.ehdr.phoff.toNat + i * elfPhdrSize) (2 ^ 64)
  have hle := Nat.mul_le_mul_right elfPhdrSize (Nat.succ_le_of_lt hi)
  rw [Nat.succ_mul] at hle
  unfold ElfImage.phdrOff
  omega

/-- The second pass over the program headers. -/
def elfSecondPass (img : ElfImage) (l : List Nat) (st : ElfLoad) : ElfLoad × Bool :=
  attempt (fun st i => elfSegment img (st.look img i) (img.phdr i)) l st

/-- The first pass over the program headers. -/
def elfFirstPass (img : ElfImage) (st : ElfLoad) : ElfLoad :=
  (List.range img.ehdr.phnum.toNat).foldl (fun st i => st.look img i) st

theorem elfSegments_eq (img : ElfImage) (st : ElfLoad) : elfSegments img st =
    elfSecondPass img (List.range img.ehdr.phnum.toNat) (elfFirstPass img st) := rfl

theorem segment_refused {img : ElfImage} {ph : ElfPhdr} (h : ¬ ph.Checked img) (st : ElfLoad) :
    elfSegment img st ph = (st, false) := by
  unfold ElfPhdr.Checked at h
  rw [Classical.not_imp, Classical.not_imp, Nat.not_le] at h
  obtain ⟨htype, hmem, hlt⟩ := h
  unfold elfSegment
  rw [if_neg (not_not.mpr htype), if_neg hmem, if_pos hlt]

/-- The second pass goes no further than the first segment that is refused. -/
theorem elfSecondPass_cases (img : ElfImage) (st : ElfLoad) :
    (img.firstRefused = img.ehdr.phnum.toNat ∧
      elfSecondPass img (List.range img.ehdr.phnum.toNat) st =
        elfSecondPass img (List.range img.firstRefused) st) ∨
    (img.firstRefused < img.ehdr.phnum.toNat ∧
      elfSecondPass img (List.range img.ehdr.phnum.toNat) st =
        if (elfSecondPass img (List.range img.firstRefused) st).2 then
          ((elfSecondPass img (List.range img.firstRefused) st).1.look img img.firstRefused, false)
        else elfSecondPass img (List.range img.firstRefused) st) := by
  rcases Nat.eq_or_lt_of_le (firstRefused_le img) with heq | hlt
  · exact .inl ⟨heq, by rw [heq]⟩
  · refine .inr ⟨hlt, ?_⟩
    obtain ⟨n, hn⟩ : ∃ n, img.ehdr.phnum.toNat = img.firstRefused + (n + 1) :=
      ⟨img.ehdr.phnum.toNat - img.firstRefused - 1, by omega⟩
    unfold elfSecondPass
    rw [hn, List.range_add, attempt_append, List.range_succ_eq_map, List.map_cons, Nat.add_zero]
    generalize attempt _ (List.range img.firstRefused) st = before
    rw [attempt_cons, segment_refused (refused_of_lt hlt)]
    rfl

theorem firstRefused_of_segments {img : ElfImage} {st : ElfLoad}
    (hok : (elfSegments img st).2 = true) : img.firstRefused = img.ehdr.phnum.toNat := by
  rw [elfSegments_eq] at hok
  rcases elfSecondPass_cases img (elfFirstPass img st) with ⟨heq, -⟩ | ⟨-, hrun⟩
  · exact heq
  · rw [hrun] at hok
    split at hok
    next => exact absurd hok (by simp)
    next hfirst => exact absurd hok hfirst

theorem InBounds.firstPass {img : ElfImage} {st : ElfLoad} (h : InBounds img st)
    (htable : img.ehdr.phoff.toNat + img.ehdr.phnum.toNat * elfPhdrSize ≤ img.size.toNat) :
    InBounds img (elfFirstPass img st) := by
  unfold elfFirstPass
  exact List.foldlRecOn (List.range img.ehdr.phnum.toNat) (fun st i => st.look img i) h
    fun mid hmid i hi => hmid.look htable (List.mem_range.mp hi)

theorem InBounds.segments {img : ElfImage} {st : ElfLoad} (h : InBounds img st)
    (hok : ImageInBounds img) : InBounds img (elfSegments img st).1 := by
  have hle := firstRefused_le img
  have hbefore : InBounds img
      (elfSecondPass img (List.range img.firstRefused) (elfFirstPass img st)).1 := by
    refine attempt_invariant _ (h.firstPass hok.table) fun mid i hi hmid r hr => ?_
    have hi := List.mem_range.mp hi
    rw [← hr]
    exact (hmid.look hok.table (by omega)).segment (hok.segments i hi)
  rw [elfSegments_eq]
  rcases elfSecondPass_cases img (elfFirstPass img st) with ⟨-, hrun⟩ | ⟨hlt, hrun⟩
  · rw [hrun]
    exact hbefore
  · rw [hrun]
    split
    · exact hbefore.look hok.table hlt
    · exact hbefore

/-- Where everything was in bounds, the first `n` segments lie in the file. -/
def SegmentsInFile (img : ElfImage) (n : Nat) (st : ElfLoad) : Prop :=
  InBounds img st → ∀ i, i < n → (img.phdr i).type = ptLoad → (img.phdr i).memsz ≠ 0 →
    (img.phdr i).copied = 0 ∨ (img.phdr i).offset.toNat + (img.phdr i).copied ≤ img.size.toNat

theorem SegmentsInFile.segment {img : ElfImage} {i : Nat} {st st' : ElfLoad}
    (h : SegmentsInFile img i st)
    (hload : elfSegment img (st.look img i) (img.phdr i) = (st', true)) :
    SegmentsInFile img (i + 1) st' := by
  intro hbounds j hj htype hmem
  have hsuffix := segment_suffix img (st.look img i) (img.phdr i)
  rw [hload] at hsuffix
  rcases Nat.lt_succ_iff_lt_or_eq.mp hj with hold | hnew
  · exact h (TraceInBounds.suffix hbounds hsuffix).2 j hold htype hmem
  · rw [hnew] at htype hmem ⊢
    exact segment_in_file hload htype hmem hbounds

theorem segments_in_file {img : ElfImage} {n : Nat} {st st' : ElfLoad}
    (hload : elfSecondPass img (List.range n) st = (st', true)) (hbounds : InBounds img st')
    {i : Nat} (hi : i < n) (htype : (img.phdr i).type = ptLoad) (hmem : (img.phdr i).memsz ≠ 0) :
    (img.phdr i).copied = 0 ∨
      (img.phdr i).offset.toNat + (img.phdr i).copied ≤ img.size.toNat := by
  have hfirst : SegmentsInFile img 0 st := fun _ i hi => absurd hi (Nat.not_lt_zero i)
  have hdone := attempt_range hfirst n (fun _ _ _ _ h hload => h.segment hload) hload
  exact hdone hbounds i hi htype hmem

theorem secondPass_suffix (img : ElfImage) (l : List Nat) (st : ElfLoad) :
    st.trace <:+ (elfSecondPass img l st).1.trace := by
  refine attempt_invariant (P := fun (mid : ElfLoad) => st.trace <:+ mid.trace) l
    (List.suffix_refl _) fun mid i _ hmid r hr => ?_
  rw [← hr]
  exact (hmid.trans (List.suffix_cons _ _)).trans (segment_suffix img (mid.look img i) _)

/-- What the first pass reads. -/
theorem firstPass_reads (img : ElfImage) (st : ElfLoad) {i : Nat}
    (hi : i < img.ehdr.phnum.toNat) :
    .read (img.phdrOff i) elfPhdrSize ∈ (elfFirstPass img st).trace := by
  unfold elfFirstPass
  generalize img.ehdr.phnum.toNat = phnum at hi ⊢
  induction phnum with
  | zero => exact absurd hi (Nat.not_lt_zero i)
  | succ n ih =>
      rw [List.range_succ, List.foldl_append, List.foldl_cons, List.foldl_nil]
      rcases Nat.lt_succ_iff_lt_or_eq.mp hi with hold | hnew
      · exact List.mem_cons_of_mem _ (ih hold)
      · rw [hnew]
        exact List.mem_cons_self ..

/-- Where the headers are read inside the file, their table does not wrap: each begins where one
ends that lies in the file. -/
theorem table_end {phoff size : Nat} (hsize : size < 2 ^ 64) (hoff : phoff < 2 ^ 64) (n : Nat)
    (hreads : ∀ i, i < n + 1 → (phoff + i * 56) % 2 ^ 64 + 56 ≤ size) :
    phoff + (n + 1) * 56 ≤ size := by
  -- The header begins below `2 ^ 64`, so it is read where it lies.
  have hplace : ∀ i, i < n + 1 → phoff + i * 56 < 2 ^ 64 → phoff + (i + 1) * 56 ≤ size := by
    intro i hi hlt
    have hread := hreads i hi
    rw [Nat.mod_eq_of_lt hlt] at hread
    rwa [Nat.succ_mul, ← Nat.add_assoc]
  induction n with
  | zero => exact hplace 0 Nat.zero_lt_one (by rwa [Nat.zero_mul])
  | succ n ih =>
      have hbefore := ih (fun i hi => hreads i (by omega)) fun i hi => hplace i (by omega)
      exact hplace (n + 1) (by omega) (lt_of_le_of_lt hbefore hsize)

/-- The program headers lie in the file where all that the first pass reads does. -/
theorem table_in_file {img : ElfImage} (hpos : 0 < img.ehdr.phnum.toNat)
    (hreads : ∀ i, i < img.ehdr.phnum.toNat → img.phdrOff i + elfPhdrSize ≤ img.size.toNat) :
    img.ehdr.phoff.toNat + img.ehdr.phnum.toNat * elfPhdrSize ≤ img.size.toNat := by
  obtain ⟨n, hn⟩ : ∃ n, img.ehdr.phnum.toNat = n + 1 :=
    ⟨img.ehdr.phnum.toNat - 1, (Nat.sub_add_cancel hpos).symm⟩
  rw [hn] at hreads ⊢
  exact table_end img.size.isLt img.ehdr.phoff.isLt n hreads

/-! ### The whole load -/

/-- A load that succeeds goes through all its parts. -/
theorem elfLoad_some {img : ElfImage} {st st' : ElfLoad} {info : ElfLoadInfo}
    (hload : elfLoad img st = (st', some info)) :
    ∃ segs hdrs, elfEhdrSize ≤ img.size.toNat ∧ elfValid img = true ∧
      elfSegments img (st.note (.read 0 elfEhdrSize)) = (segs, true) ∧
      elfMapPhdrs img segs = (hdrs, true) ∧ elfMapStack hdrs = (st', true) := by
  obtain ⟨-, heq⟩ | ⟨-, -, heq⟩ |
    ⟨hsize, hvalid, segs, hdrs, stack, hsegs, hhdrs, hstack, hcases⟩ := elfLoad_cases img st
  · exact absurd (Prod.mk.inj (heq.symm.trans hload)).2 (by simp)
  · exact absurd (Prod.mk.inj (heq.symm.trans hload)).2 (by simp)
  obtain ⟨-, heq⟩ | ⟨-, -, heq⟩ | ⟨-, -, -, heq⟩ | ⟨hs, hh, ht, info', heq⟩ := hcases
  · exact absurd (Prod.mk.inj (heq.symm.trans hload)).2 (by simp)
  · exact absurd (Prod.mk.inj (heq.symm.trans hload)).2 (by simp)
  · exact absurd (Prod.mk.inj (heq.symm.trans hload)).2 (by simp)
  · obtain ⟨rfl, -⟩ := Prod.mk.inj (heq.symm.trans hload)
    exact ⟨_, _, hsize, hvalid, hsegs.trans (eq_of_snd hs), hhdrs.trans (eq_of_snd hh),
      hstack.trans (eq_of_snd ht)⟩

theorem stack_suffix (st : ElfLoad) : st.trace <:+ (elfMapStack st).1.trace := by
  unfold elfMapStack
  exact attempt_invariant (P := fun (mid : ElfLoad) => st.trace <:+ mid.trace) _
    (List.suffix_refl _) fun mid i _ hmid r hr =>
      hr ▸ hmid.trans (mapPage_suffix mid _ _ fills_same)

theorem InBounds.stack {img : ElfImage} {st : ElfLoad} (h : InBounds img st) :
    InBounds img (elfMapStack st).1 :=
  attempt_invariant _ h fun _ _ _ hmid _ hr =>
    hr ▸ TraceInBounds.mapPage hmid _ _ fun _ _ _ hst => hst

theorem phdrOff_zero (img : ElfImage) : img.phdrOff 0 = img.ehdr.phoff.toNat := by
  unfold ElfImage.phdrOff
  rw [Nat.zero_mul, Nat.add_zero, Nat.mod_eq_of_lt img.ehdr.phoff.isLt]

theorem InBounds.mapPhdrs {img : ElfImage} {st : ElfLoad} (h : InBounds img st)
    (hok : ImageInBounds img) (hall : img.firstRefused = img.ehdr.phnum.toNat) :
    InBounds img (elfMapPhdrs img st).1 := by
  refine TraceInBounds.mapPage h _ _ fun st page hpage hst => ?_
  have hsize : elfPhdrSize = 56 := rfl
  have hone := hok.onePage hall
  have htable := hok.table
  rw [← phdrOff_zero] at htable
  exact hst.copy hpage img (le_refl _) (by rw [hsize]; omega) htable

/-- Where everything was in bounds, the program headers fit a page. -/
theorem phdrs_fit {img : ElfImage} {st st' : ElfLoad} (hasc : Ascending st)
    (hload : elfMapPhdrs img st = (st', true)) (hbounds : InBounds img st') :
    img.ehdr.phnum.toNat ≤ 73 := by
  unfold elfMapPhdrs at hload
  have haddr := pmemAllocPage_addr hasc.sane
  obtain ⟨res, hres, ⟨-, heq⟩ | ⟨hsome, heq⟩⟩ := elfMapPage_cases st
    (elfPhdrVaddr (elfMaxVaddr img.phdrs)) (pteFlagPresent ||| pteFlagUser)
    fun st page => st.copy img page (img.phdrOff 0) (img.ehdr.phnum.toNat * elfPhdrSize)
  · rw [heq] at hload
    exact absurd (Prod.mk.inj hload).2 (by simp)
  · rw [heq] at hload
    rw [hres] at haddr
    rw [← (Prod.mk.inj hload).1] at hbounds
    obtain ⟨hwrite, -, -⟩ := hbounds
    by_contra hmany
    have hsize : elfPhdrSize = 56 := rfl
    -- The byte behind the page lies in no page got so far: they are not above it.
    obtain ⟨page, hpage, -, hlast⟩ := hwrite 4096 (by rw [hsize]; omega)
    have hpage' : page = res.2 ∨ .alloc page ∈ st.trace := by
      simpa [ElfLoad.fresh, ElfLoad.note, ElfLoad.zero] using hpage
    have hle : page ≤ res.2 := by
      rcases hpage' with rfl | hold
      · exact le_refl _
      · rcases haddr with hnull | ⟨hfree, -⟩
        · rw [hnull] at hsome
          exact absurd rfl hsome
        · exact (hasc.below page hold _ hfree).le
    omega

theorem phnum_pos {img : ElfImage} (hvalid : elfValid img = true) : 0 < img.ehdr.phnum.toNat := by
  have hne : img.ehdr.phnum ≠ 0 := by
    intro hzero
    simp [elfValid, hzero] at hvalid
  exact Nat.pos_of_ne_zero fun h => hne (BitVec.eq_of_toNat_eq h)

/-- The pages of the segments before the first one that is refused, and those of the program
headers and the stack if there is none. -/
def ElfImage.pagesReached (img : ElfImage) : Nat :=
  (if img.firstRefused = img.ehdr.phnum.toNat then userStackPages + 1 else 0) +
    ((List.range img.firstRefused).map fun i => (img.phdr i).pagesUsed).sum

/-- Nothing that the loader still had to read or write was cut off by a lack of memory: all
segments before the first refused one are mapped, and then the program headers. -/
theorem reached_all {img : ElfImage} {st : ElfLoad}
    (h : (elfLoad img st).2.isSome ∨ RoomFor img.pagesReached st) :
    ∃ mid, elfSecondPass img (List.range img.firstRefused)
        (elfFirstPass img (st.note (.read 0 elfEhdrSize))) = (mid, true) ∧
      (img.firstRefused = img.ehdr.phnum.toNat → (elfMapPhdrs img mid).2 = true) := by
  rcases h with hsome | hroom
  · obtain ⟨info, hinfo⟩ := Option.isSome_iff_exists.mp hsome
    obtain ⟨segs, hdrs, -, -, hsegs, hhdrs, -⟩ := elfLoad_some (eq_of_snd hinfo)
    have hall := firstRefused_of_segments (congrArg Prod.snd hsegs)
    rw [hall]
    exact ⟨segs, hsegs, fun _ => congrArg Prod.snd hhdrs⟩
  · have hlooked := List.foldlRecOn (List.range img.ehdr.phnum.toNat) (fun st i => st.look img i)
      (hroom.note (.read 0 elfEhdrSize)) fun mid hmid i _ => hmid.note _
    obtain ⟨hsegs, hrest⟩ := RoomFor.eachSegment _ hlooked fun i hi =>
      checked_of_lt (List.mem_range.mp hi)
    refine ⟨_, eq_of_snd hsegs, fun hall => ?_⟩
    rw [if_pos hall] at hrest
    exact (hrest.mapPhdrs img).1

theorem mapPhdrs_suffix (img : ElfImage) (st : ElfLoad) :
    st.trace <:+ (elfMapPhdrs img st).1.trace := by
  unfold elfMapPhdrs
  exact mapPage_suffix st _ _ (fills_copy img (fun page => page) (fun _ => img.phdrOff 0)
    fun _ => img.ehdr.phnum.toNat * elfPhdrSize)

/-- What the passes over the program headers do to the trace stays there. -/
theorem load_suffix {img : ElfImage} {st : ElfLoad} (hsize : elfEhdrSize ≤ img.size.toNat)
    (hvalid : elfValid img = true) :
    (elfSegments img (st.note (.read 0 elfEhdrSize))).1.trace <:+ (elfLoad img st).1.trace ∧
      ((elfSegments img (st.note (.read 0 elfEhdrSize))).2 = true →
        (elfMapPhdrs img (elfSegments img (st.note (.read 0 elfEhdrSize))).1).1.trace <:+
          (elfLoad img st).1.trace) := by
  obtain ⟨hshort, -⟩ | ⟨-, hbad, -⟩ | ⟨-, -, segs, hdrs, stack, hsegs, hhdrs, hstack, hcases⟩ :=
    elfLoad_cases img st
  · omega
  · exact absurd hbad (by rw [hvalid]; simp)
  have hphdrs := mapPhdrs_suffix img segs.1
  have hlast := stack_suffix hdrs.1
  rw [hsegs, hhdrs]
  rw [hhdrs] at hphdrs
  rw [hstack] at hlast
  obtain ⟨hs, heq⟩ | ⟨-, -, heq⟩ | ⟨-, -, -, heq⟩ | ⟨-, -, -, info, heq⟩ := hcases
  · rw [heq]
    exact ⟨List.suffix_refl _, fun hok => absurd hok (by rw [hs]; simp)⟩
  · rw [heq]
    exact ⟨hphdrs, fun _ => List.suffix_refl _⟩
  · rw [heq]
    exact ⟨hphdrs.trans hlast, fun _ => hlast⟩
  · rw [heq]
    exact ⟨hphdrs.trans hlast, fun _ => hlast⟩

/-- An image that passes the header checks and was loaded in bounds meets the condition, if no lack
of memory has cut the load off. -/
theorem imageInBounds_of_load {img : ElfImage} {st : ElfLoad} (hpmem : PmemSane st.paging.pm)
    (hfirst : st.trace = []) (hreached : (elfLoad img st).2.isSome ∨ RoomFor img.pagesReached st)
    (hsize : elfEhdrSize ≤ img.size.toNat) (hvalid : elfValid img = true)
    (hbounds : InBounds img (elfLoad img st).1) : ImageInBounds img := by
  obtain ⟨mid, hmid, hmapped⟩ := reached_all hreached
  obtain ⟨hsegs, hhdrs⟩ := @load_suffix img st hsize hvalid
  have hsegsIn := TraceInBounds.suffix hbounds hsegs
  rw [elfSegments_eq] at hsegsIn
  have hasc : Ascending (st.note (.read 0 elfEhdrSize)) := by
    refine ⟨hpmem, fun p hp => ?_⟩
    rw [ElfLoad.note, hfirst] at hp
    exact absurd hp (by simp)
  have hasc' : Ascending (elfSegments img (st.note (.read 0 elfEhdrSize))).1 := hasc.segments
  rw [elfSegments_eq] at hasc' hhdrs
  have hreads : ∀ i, i < img.ehdr.phnum.toNat → img.phdrOff i + elfPhdrSize ≤ img.size.toNat :=
    fun i hi => TraceInBounds.read hsegsIn
      ((secondPass_suffix img _ _).subset (firstPass_reads img _ hi))
  have hmidIn : InBounds img mid := by
    refine TraceInBounds.suffix hsegsIn ?_
    rcases elfSecondPass_cases img (elfFirstPass img (st.note (.read 0 elfEhdrSize))) with
      ⟨-, hrun⟩ | ⟨-, hrun⟩
    · rw [hrun, hmid]
    · rw [hrun, hmid]
      exact List.suffix_cons _ _
  refine ⟨table_in_file (phnum_pos hvalid) hreads,
    fun i hi htype hmem => segments_in_file hmid hmidIn hi htype hmem, fun hall => ?_⟩
  rw [hall] at hmid
  rw [hmid] at hasc' hhdrs
  exact phdrs_fit hasc' (eq_of_snd (hmapped hall)) (TraceInBounds.suffix hbounds (hhdrs rfl))

/-- An image that is rejected or meets the condition is loaded in bounds. -/
theorem inBounds_load {img : ElfImage} {st : ElfLoad} (hfirst : st.trace = [])
    (hok : elfEhdrSize ≤ img.size.toNat → elfValid img = true → ImageInBounds img) :
    InBounds img (elfLoad img st).1 := by
  have hstart : InBounds img st := by
    unfold InBounds
    rw [hfirst]
    trivial
  have hhead (hsize : elfEhdrSize ≤ img.size.toNat) :
      InBounds img (st.note (.read 0 elfEhdrSize)) := by
    refine ⟨?_, hstart⟩
    show 0 + elfEhdrSize ≤ img.size.toNat
    omega
  obtain ⟨-, heq⟩ | ⟨hsize, -, heq⟩ |
    ⟨hsize, hvalid, segs, hdrs, stack, hsegs, hhdrs, hstack, hcases⟩ := elfLoad_cases img st
  · rw [heq]
    exact hstart
  · rw [heq]
    exact hhead hsize
  have hok := hok hsize hvalid
  have hsegsIn := (hhead hsize).segments hok
  have hrefused := @firstRefused_of_segments img (st.note (.read 0 elfEhdrSize))
  rw [hsegs] at hsegsIn hrefused
  have hhdrsIn (hs : segs.2 = true) := hsegsIn.mapPhdrs hok (hrefused hs)
  rw [hhdrs] at hhdrsIn
  have hstackIn (hs : segs.2 = true) := (hhdrsIn hs).stack
  rw [hstack] at hstackIn
  obtain ⟨-, heq⟩ | ⟨hs, -, heq⟩ | ⟨hs, -, -, heq⟩ | ⟨hs, -, -, info, heq⟩ := hcases
  · rw [heq]
    exact hsegsIn
  · rw [heq]
    exact hhdrsIn hs
  · rw [heq]
    exact hstackIn hs
  · rw [heq]
    exact hstackIn hs

/--
**What the loader reads and writes.**  An image that is rejected, or that meets `ImageInBounds`,
is loaded in bounds, whether the load succeeds or not.  And where it succeeds, or there is memory
for all that comes before the first refused segment, this is exactly what it takes.
-/
theorem elf_load_in_bounds (img : ElfImage) {st : ElfLoad} (hpmem : PmemSane st.paging.pm)
    (hfirst : st.trace = []) :
    ((elfEhdrSize ≤ img.size.toNat → elfValid img = true → ImageInBounds img) →
      InBounds img (elfLoad img st).1) ∧
    ((elfLoad img st).2.isSome ∨ RoomFor img.pagesReached st →
      (InBounds img (elfLoad img st).1 ↔
        (elfEhdrSize ≤ img.size.toNat → elfValid img = true → ImageInBounds img))) := by
  refine ⟨inBounds_load hfirst, fun hreached => ⟨fun hbounds hsize hvalid => ?_,
    inBounds_load hfirst⟩⟩
  exact imageInBounds_of_load hpmem hfirst hreached hsize hvalid hbounds

/-- One segment: four bytes of data, and four of zeros. -/
def smallImage : ElfImage where
  buf := onto (ehdrBytes 64 1 ++ phdrBytes 120 0x400000 4 8 ++ [1, 2, 3, 4]) fun _ => 0
  size := 124

/-- What the loader reads in it. -/
theorem smallImage_read :
    smallImage.ehdr.phnum.toNat = 1 ∧ smallImage.pagesUsed = 18 ∧ elfValid smallImage = true ∧
      (smallImage.phdr 0).Checked smallImage ∧ ImageInBounds smallImage := by
  have hone : smallImage.ehdr.phnum.toNat = 1 := by decide +kernel
  refine ⟨hone, by decide +kernel, by decide +kernel, fun _ _ => by decide +kernel,
    by decide +kernel, fun i hi _ _ => ?_, fun _ => by decide +kernel⟩
  have hle := firstRefused_le smallImage
  obtain rfl : i = 0 := by omega
  right
  decide +kernel

theorem smallImage_phnum : smallImage.ehdr.phnum.toNat = 1 := smallImage_read.1

theorem smallImage_valid : elfValid smallImage = true := smallImage_read.2.2.1

theorem smallImage_checked (i : Nat) (hi : i < smallImage.ehdr.phnum.toNat) :
    (smallImage.phdr i).Checked smallImage := by
  rw [smallImage_phnum] at hi
  obtain rfl : i = 0 := by omega
  exact smallImage_read.2.2.2.1

theorem smallImage_room : RoomFor smallImage.pagesUsed roomyMachine := by
  rw [smallImage_read.2.1]
  exact roomyMachine_room.of_le (by decide)

theorem elf_load_in_bounds_small :
    (elfLoad smallImage roomyMachine).2.isSome ∧
      InBounds smallImage (elfLoad smallImage roomyMachine).1 := by
  obtain ⟨st', info, hload⟩ := elfLoad_succeeds smallImage_room (by decide) smallImage_valid
    smallImage_checked
  have hsome : (elfLoad smallImage roomyMachine).2.isSome := by rw [hload]; rfl
  exact ⟨hsome, ((elf_load_in_bounds smallImage roomyPmem_sane rfl).2 (.inl hsome)).mpr
    fun _ _ => smallImage_read.2.2.2.2⟩

/-- A header whose table lies at the end of the address space: offset and length add up to zero. -/
def wrappedTable : ElfImage where
  buf := onto (ehdrBytes 0xFFFFFFFFFFFFFFC8 1) fun _ => 0
  size := 64

/-- The image is accepted, and its program header is read from before the file. -/
theorem elf_table_before_file :
    (elfLoad wrappedTable roomyMachine).2.isSome ∧
      ¬ InBounds wrappedTable (elfLoad wrappedTable roomyMachine).1 := by
  have hone : wrappedTable.ehdr.phnum.toNat = 1 := by decide +kernel
  have hchecked : ∀ i, i < wrappedTable.ehdr.phnum.toNat →
      (wrappedTable.phdr i).Checked wrappedTable := by
    intro i hi htype
    obtain rfl : i = 0 := by omega
    exact absurd htype (by decide +kernel)
  have hroom : RoomFor wrappedTable.pagesUsed roomyMachine := by
    have hpages : wrappedTable.pagesUsed = 17 := by decide +kernel
    rw [hpages]
    exact roomyMachine_room.of_le (by decide)
  obtain ⟨st', info, hload⟩ := elfLoad_succeeds hroom (by decide) (by decide +kernel) hchecked
  have hsome : (elfLoad wrappedTable roomyMachine).2.isSome := by rw [hload]; rfl
  refine ⟨hsome, fun hbounds => ?_⟩
  have htable := (imageInBounds_of_load roomyPmem_sane rfl (.inl hsome) (by decide)
    (by decide +kernel) hbounds).table
  exact absurd htable (by decide +kernel)

end BrightS
