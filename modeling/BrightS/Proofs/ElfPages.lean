/-
The pages the loader maps, one after the other.

Segments, program headers and stack are all mapped in the same way: a page is taken from
the allocator, zeroed, filled, and mapped.  `elfMapPage_cases` says so once.  A page costs
at most five pages of memory, itself and a table per level, so that a load with enough
free pages succeeds.
-/
import BrightS.Kernel.Elf
import BrightS.Proofs.PagingAlloc
import BrightS.Proofs.PagingTables

namespace BrightS

open Bytes Loops Words

-- Unfolding the search through the bitmap is never of use here.
attribute [local irreducible] pmemAllocPage

/-! ### One page -/

/-- A page is filled without asking for more pages. -/
structure Fills (fill : ElfLoad → Nat → ElfLoad) : Prop where
  paging : ∀ st page, (fill st page).paging = st.paging
  trace : ∀ st page, st.trace <:+ (fill st page).trace
  alloc : ∀ st page p, .alloc p ∈ (fill st page).trace → .alloc p ∈ st.trace

theorem fills_copy (img : ElfImage) (addr off len : Nat → Nat) :
    Fills fun st page => st.copy img (addr page) (off page) (len page) := by
  refine ⟨fun st page => rfl, fun st page => ⟨[_, _], rfl⟩, fun st page p hp => ?_⟩
  simpa [ElfLoad.copy] using hp

theorem fills_same : Fills fun st _ => st :=
  ⟨fun _ _ => rfl, fun _ _ => List.suffix_refl _, fun _ _ _ h => h⟩

theorem fills_elfFill (img : ElfImage) (ph : ElfPhdr) (va : Nat) : Fills (elfFill img ph va) := by
  have hcopy := fills_copy img (fun page => page + (ph.copyStart va - va))
    (fun _ => (ph.offset.toNat + (ph.copyStart va - ph.vaddr.toNat)) % 2 ^ 64)
    (fun _ => ph.copyEnd va - ph.copyStart va)
  unfold elfFill
  refine ⟨fun st page => ?_, fun st page => ?_, fun st page p hp => ?_⟩
  · split_ifs
    · rfl
    · exact hcopy.paging st page
    · rfl
  · split_ifs
    · exact List.suffix_refl _
    · exact hcopy.trace st page
    · exact List.suffix_refl _
  · split_ifs at hp
    · exact hp
    · exact hcopy.alloc st page p hp
    · exact hp

/-- The state after a page was handed out and zeroed. -/
def ElfLoad.fresh (st : ElfLoad) (res : Pmem × Nat) : ElfLoad :=
  (({ st with paging := { st.paging with pm := res.1 } } : ElfLoad).note (.alloc res.2)).zero
    res.2 4096

/-- The first pass over the program headers reads and maps nothing. -/
theorem looks_paging (img : ElfImage) (l : List Nat) (st : ElfLoad) :
    (l.foldl (fun st i => st.look img i) st).paging = st.paging := by
  induction l generalizing st with
  | nil => rfl
  | cons i rest ih => exact ih (st.look img i)

/-- One page: none is left, or a new one is zeroed, filled and mapped.  What the allocator returns
has a name here, so that nothing below looks into it. -/
theorem elfMapPage_cases (st : ElfLoad) (va flags : Nat) (fill : ElfLoad → Nat → ElfLoad) :
    ∃ res, pmemAllocPage st.paging.pm = res ∧
      ((res.2 = 0 ∧ elfMapPage st va flags fill =
        ({ st with paging := { st.paging with pm := res.1 } }, false)) ∨
      (res.2 ≠ 0 ∧ elfMapPage st va flags fill =
        ({ fill (st.fresh res) res.2 with
          paging := (pagingMap (fill (st.fresh res) res.2).paging va res.2 flags).1 },
        decide ((pagingMap (fill (st.fresh res) res.2).paging va res.2 flags).2 = 0)))) := by
  refine ⟨pmemAllocPage st.paging.pm, rfl, ?_⟩
  unfold elfMapPage
  generalize pmemAllocPage st.paging.pm = res
  by_cases hnone : res.2 = 0
  · exact .inl ⟨hnone, if_pos hnone⟩
  · exact .inr ⟨hnone, if_neg hnone⟩

attribute [local irreducible] elfMapPage

/-! ### Enough memory -/

/-- There is memory for `n` pages and the tables above them. -/
structure RoomFor (n : Nat) (st : ElfLoad) : Prop where
  loaded : st.paging.pml4Table ≠ 0
  sane : PmemSane st.paging.pm
  pages : 5 * n ≤ freePageCount st.paging.pm

theorem RoomFor.of_le {n m : Nat} {st : ElfLoad} (h : RoomFor n st) (hle : m ≤ n) : RoomFor m st :=
  ⟨h.loaded, h.sane, le_trans (Nat.mul_le_mul_left 5 hle) h.pages⟩

theorem RoomFor.mapPage {n : Nat} {st : ElfLoad} (h : RoomFor (n + 1) st) (va flags : Nat)
    {fill : ElfLoad → Nat → ElfLoad} (hfill : Fills fill) :
    (elfMapPage st va flags fill).2 = true ∧ RoomFor n (elfMapPage st va flags fill).1 := by
  have hpages := h.pages
  have htaken := pmemAllocPage_taken st.paging.pm
  have hok := pmemAllocPage_ok h.sane (by omega)
  obtain ⟨res, hres, ⟨hnone, -⟩ | ⟨hsome, heq⟩⟩ := elfMapPage_cases st va flags fill
  · rw [hres] at hok
    exact absurd hnone hok
  · rw [hres] at htaken
    have hcount := htaken.count
    have hpaging := hfill.paging (st.fresh res) res.2
    have hmap := pagingMap_taken (fill (st.fresh res) res.2).paging va res.2 flags
    have hpml4 := pagingMap_pml4 (fill (st.fresh res) res.2).paging va res.2 flags
    have hloaded : (st.fresh res).paging.pml4Table ≠ 0 := h.loaded
    have hsane : PmemSane (st.fresh res).paging.pm := htaken.sane h.sane
    rw [heq]
    refine ⟨decide_eq_true ?_, ?_, ?_, ?_⟩
    · rw [hpaging]
      refine pagingMap_ok hloaded hsane ?_ va res.2 flags
      show 4 ≤ freePageCount res.1
      omega
    · show (pagingMap (fill (st.fresh res) res.2).paging va res.2 flags).1.pml4Table ≠ 0
      rw [hpml4, hpaging]
      exact hloaded
    · refine hmap.sane ?_
      rw [hpaging]
      exact hsane
    · have hmapped := hmap.count
      have hsame : (fill (st.fresh res) res.2).paging.pm = res.1 := by
        rw [hpaging]
        rfl
      rw [hsame] at hmapped
      show 5 * n ≤ freePageCount (pagingMap (fill (st.fresh res) res.2).paging va res.2 flags).1.pm
      omega

theorem RoomFor.mapPages {α : Type} {n : Nat} (l : List α) {va : α → Nat} {flags : Nat}
    {fill : α → ElfLoad → Nat → ElfLoad} (hfill : ∀ a, Fills (fill a)) :
    ∀ {st : ElfLoad}, RoomFor (n + l.length) st →
      (attempt (fun st a => elfMapPage st (va a) flags (fill a)) l st).2 = true ∧
        RoomFor n (attempt (fun st a => elfMapPage st (va a) flags (fill a)) l st).1 := by
  induction l with
  | nil => exact fun h => ⟨rfl, h⟩
  | cons a rest ih =>
      intro st h
      obtain ⟨hok, hrest⟩ := RoomFor.mapPage (n := n + rest.length) h (va a) flags (hfill a)
      rw [attempt_cons_of_ok (eq_of_snd hok)]
      exact ih hrest

/-- The pages of a segment that is loaded. -/
def ElfPhdr.pagesUsed (ph : ElfPhdr) : Nat :=
  if ph.type = ptLoad ∧ ph.memsz ≠ 0 then ph.numPages else 0

/-- The check of the file data passes. -/
def ElfPhdr.Checked (ph : ElfPhdr) (img : ElfImage) : Prop :=
  ph.type = ptLoad → ph.memsz ≠ 0 →
    (ph.offset.toNat + ph.filesz.toNat) % 2 ^ 64 ≤ img.size.toNat

theorem RoomFor.segment {n : Nat} {img : ElfImage} {st : ElfLoad} {ph : ElfPhdr}
    (h : RoomFor (n + ph.pagesUsed) st) (hchecked : ph.Checked img) :
    (elfSegment img st ph).2 = true ∧ RoomFor n (elfSegment img st ph).1 := by
  unfold ElfPhdr.pagesUsed at h
  unfold elfSegment
  by_cases htype : ph.type = ptLoad
  · rw [if_neg (not_not.mpr htype)]
    by_cases hmem : ph.memsz = 0
    · rw [if_neg fun hused => hused.2 hmem] at h
      rw [if_pos hmem]
      exact ⟨rfl, h⟩
    · rw [if_pos ⟨htype, hmem⟩] at h
      rw [if_neg hmem, if_neg (Nat.not_lt.mpr (hchecked htype hmem))]
      refine RoomFor.mapPages _ (fun pg => fills_elfFill img ph (ph.pageAddr pg)) ?_
      rw [List.length_range]
      exact h
  · rw [if_neg fun hused => htype hused.1] at h
    rw [if_pos htype]
    exact ⟨rfl, h⟩

theorem RoomFor.note {n : Nat} {st : ElfLoad} (h : RoomFor n st) (e : ElfEvent) :
    RoomFor n (st.note e) := ⟨h.loaded, h.sane, h.pages⟩

theorem RoomFor.eachSegment {n : Nat} {img : ElfImage} (l : List Nat) :
    ∀ {st : ElfLoad}, RoomFor (n + (l.map fun i => (img.phdr i).pagesUsed).sum) st →
      (∀ i ∈ l, (img.phdr i).Checked img) →
      (attempt (fun st i => elfSegment img (st.look img i) (img.phdr i)) l st).2 = true ∧
        RoomFor n (attempt (fun st i => elfSegment img (st.look img i) (img.phdr i)) l st).1 := by
  induction l with
  | nil => exact fun h _ => ⟨rfl, h⟩
  | cons i rest ih =>
      intro st h hchecked
      rw [List.map_cons, List.sum_cons, Nat.add_comm (img.phdr i).pagesUsed, ← Nat.add_assoc] at h
      have hlooked : RoomFor (n + (rest.map fun i => (img.phdr i).pagesUsed).sum +
          (img.phdr i).pagesUsed) (st.look img i) := h.note _
      obtain ⟨hok, hrest⟩ := hlooked.segment (hchecked i (List.mem_cons_self ..))
      have hnext :
          attempt (fun st i => elfSegment img (st.look img i) (img.phdr i)) (i :: rest) st =
            attempt (fun st i => elfSegment img (st.look img i) (img.phdr i)) rest
              (elfSegment img (st.look img i) (img.phdr i)).1 := by
        refine attempt_cons_of_ok ?_ rest
        exact eq_of_snd hok
      rw [hnext]
      exact ih hrest fun j hj => hchecked j (List.mem_cons_of_mem i hj)

theorem RoomFor.segments {n : Nat} {img : ElfImage} {st : ElfLoad}
    (h : RoomFor (n + ((List.range img.ehdr.phnum.toNat).map fun i =>
      (img.phdr i).pagesUsed).sum) st)
    (hchecked : ∀ i, i < img.ehdr.phnum.toNat → (img.phdr i).Checked img) :
    (elfSegments img st).2 = true ∧ RoomFor n (elfSegments img st).1 := by
  have hlooked := List.foldlRecOn (List.range img.ehdr.phnum.toNat) (fun st i => st.look img i) h
    fun mid hmid i _ => hmid.note _
  exact RoomFor.eachSegment _ hlooked fun i hi => hchecked i (List.mem_range.mp hi)

theorem RoomFor.mapPhdrs {n : Nat} {st : ElfLoad} (h : RoomFor (n + 1) st) (img : ElfImage) :
    (elfMapPhdrs img st).2 = true ∧ RoomFor n (elfMapPhdrs img st).1 :=
  h.mapPage _ _ (fills_copy img (fun page => page) (fun _ => img.phdrOff 0)
    fun _ => img.ehdr.phnum.toNat * elfPhdrSize)

theorem RoomFor.mapStack {st : ElfLoad} (h : RoomFor userStackPages st) :
    (elfMapStack st).2 = true := by
  have hroom : RoomFor (0 + (List.range userStackPages).length) st := by
    rw [List.length_range, Nat.zero_add]
    exact h
  exact (RoomFor.mapPages _ (fun _ => fills_same) hroom).1

/-- A file that is no program is refused.  Otherwise the parts of a load follow one another, and the
first that fails is the last. -/
theorem elfLoad_cases (img : ElfImage) (st : ElfLoad) :
    (img.size.toNat < elfEhdrSize ∧ elfLoad img st = (st, none)) ∨
      (elfEhdrSize ≤ img.size.toNat ∧ elfValid img = false ∧
        elfLoad img st = (st.note (.read 0 elfEhdrSize), none)) ∨
      (elfEhdrSize ≤ img.size.toNat ∧ elfValid img = true ∧
        ∃ segs hdrs stack, elfSegments img (st.note (.read 0 elfEhdrSize)) = segs ∧
          elfMapPhdrs img segs.1 = hdrs ∧ elfMapStack hdrs.1 = stack ∧
          ((segs.2 = false ∧ elfLoad img st = (segs.1, none)) ∨
            (segs.2 = true ∧ hdrs.2 = false ∧ elfLoad img st = (hdrs.1, none)) ∨
            (segs.2 = true ∧ hdrs.2 = true ∧ stack.2 = false ∧ elfLoad img st = (stack.1, none)) ∨
            (segs.2 = true ∧ hdrs.2 = true ∧ stack.2 = true ∧
              ∃ info, elfLoad img st = (stack.1, some info)))) := by
  unfold elfLoad
  by_cases hsize : img.size.toNat < elfEhdrSize
  · exact .inl ⟨hsize, if_pos hsize⟩
  right
  rw [if_neg hsize]
  dsimp only
  by_cases hvalid : elfValid img = false
  · exact .inl ⟨Nat.not_lt.mp hsize, hvalid, if_pos hvalid⟩
  refine .inr ⟨Nat.not_lt.mp hsize, by simpa using hvalid, ?_⟩
  rw [if_neg hvalid]
  generalize elfSegments img (st.note (.read 0 elfEhdrSize)) = segs
  generalize hhdrs : elfMapPhdrs img segs.1 = hdrs
  generalize hstack : elfMapStack hdrs.1 = stack
  refine ⟨segs, hdrs, stack, rfl, hhdrs, hstack, ?_⟩
  by_cases hs : segs.2 = false
  · exact .inl ⟨hs, if_pos hs⟩
  by_cases hh : hdrs.2 = false
  · exact .inr (.inl ⟨by simpa using hs, hh, by rw [if_neg hs, if_pos hh]⟩)
  by_cases ht : stack.2 = false
  · exact .inr (.inr (.inl ⟨by simpa using hs, by simpa using hh, ht,
      by rw [if_neg hs, if_neg hh, if_pos ht]⟩))
  · exact .inr (.inr (.inr ⟨by simpa using hs, by simpa using hh, by simpa using ht, _,
      by rw [if_neg hs, if_neg hh, if_neg ht]⟩))

/-- The pages of all segments, of the program headers and of the stack. -/
def ElfImage.pagesUsed (img : ElfImage) : Nat :=
  userStackPages + 1 + ((List.range img.ehdr.phnum.toNat).map fun i => (img.phdr i).pagesUsed).sum

/-- An image that passes all checks is loaded if there is memory for its pages. -/
theorem elfLoad_succeeds {img : ElfImage} {st : ElfLoad} (hroom : RoomFor img.pagesUsed st)
    (hsize : elfEhdrSize ≤ img.size.toNat) (hvalid : elfValid img = true)
    (hchecked : ∀ i, i < img.ehdr.phnum.toNat → (img.phdr i).Checked img) :
    ∃ st' info, elfLoad img st = (st', some info) := by
  obtain ⟨hsegs, hroom₁⟩ := (hroom.note (.read 0 elfEhdrSize)).segments hchecked
  obtain ⟨hhdrs, hroom₂⟩ := hroom₁.mapPhdrs img
  have hstack := hroom₂.mapStack
  unfold elfLoad
  dsimp only
  rw [if_neg (Nat.not_lt.mpr hsize), if_neg (by rw [hvalid]; simp), if_neg (by rw [hsegs]; simp),
    if_neg (by rw [hhdrs]; simp), if_neg (by rw [hstack]; simp)]
  exact ⟨_, _, rfl⟩

/-! ### A small machine -/

/-- A page allocator with 128 free pages from the first megabyte on. -/
def roomyPmem : Pmem :=
  { bitmap := fun i => if i < 2 then 0#64 else BitVec.allOnes 64, base := 0x100000,
    totalPages := 128, freePages := 128 }

theorem roomyPmem_free (i : Nat) : bitmapTest roomyPmem i = false ↔ i < 128 := by
  unfold bitmapTest roomyPmem
  dsimp only
  by_cases hi : i / 64 < 2
  · rw [if_pos hi, bitTest_zero]
    exact ⟨fun _ => by omega, fun _ => rfl⟩
  · rw [if_neg hi, bitTest_eq_getLsbD, BitVec.getLsbD_allOnes, decide_eq_true (by omega)]
    exact ⟨fun h => Bool.noConfusion h, fun h => by omega⟩

theorem roomyPmem_sane : PmemSane roomyPmem := by
  refine ⟨by decide, by decide, fun i hi => ?_⟩
  have hlt := (roomyPmem_free i).mp hi.2
  rw [show roomyPmem.base = 0x100000 from rfl, show pageSize = 4096 from rfl]
  omega

/-- The machine with an empty address space at `0x1000`, which is no page of the allocator. -/
def roomyMachine : ElfLoad where
  paging := { pm := roomyPmem, mem := fun _ _ => 0, pml4Table := 0x1000, allocFailed := false }
  data _ := 0
  trace := []

theorem roomyMachine_room : RoomFor 25 roomyMachine := by
  refine ⟨by decide, roomyPmem_sane, ?_⟩
  have hall : freePageCount roomyPmem = 128 := by
    have hfree : ∀ i ∈ Finset.range roomyPmem.totalPages,
        i < pmemMaxPages ∧ bitmapTest roomyPmem i = false := by
      intro i hi
      have hlt : i < 128 := Finset.mem_range.mp hi
      have hmax : pmemMaxPages = 2097152 := rfl
      exact ⟨by omega, (roomyPmem_free i).mpr hlt⟩
    unfold freePageCount
    rw [Finset.filter_true_of_mem hfree, Finset.card_range]
    rfl
  show 5 * 25 ≤ freePageCount roomyPmem
  rw [hall]
  decide

/-- The header of an executable with entry `0x400000`. -/
def ehdrBytes (phoff : Word) (phnum : BitVec 16) : List Byte :=
  [0x7F, 0x45, 0x4C, 0x46, 2, 1] ++ List.replicate 10 0 ++ store16 elfTypeExec ++
    store16 elfMachX86 ++ store32 1 ++ store64 0x400000 ++ store64 phoff ++ store64 0 ++
    store32 0 ++ store16 64 ++ store16 56 ++ store16 phnum ++ List.replicate 6 0

/-- The program header of a segment that is loaded. -/
def phdrBytes (offset vaddr filesz memsz : Word) : List Byte :=
  store32 ptLoad ++ store32 pfW ++ store64 offset ++ store64 vaddr ++ store64 vaddr ++
    store64 filesz ++ store64 memsz ++ store64 0x1000

end BrightS
