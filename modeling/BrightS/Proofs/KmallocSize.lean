/-
How much a kernel heap pointer is good for.

A request goes to the smallest slab class that holds it, or to the heap with room for a header,
rounded up to sixteen bytes.  The guard before the addition of the header does not leave room for
the rounding: for the fifteen largest sizes it lets pass, the rounded size wraps to zero and the
smallest block serves the request.
-/
import BrightS.Proofs.Kmalloc

namespace BrightS

open Chains Runs Tilings Words

/-! ### What is reserved -/

/-- At least `n` bytes from `ptr` on lie in the slab block or the heap block at `ptr`. -/
def Reserved (h : HeapArray) (st : Kmalloc) (ptr n : Nat) : Prop :=
  (∃ c sp l, Seg (slabNext st) (st.slabClasses c).pages l 0 ∧ sp ∈ l ∧ c < slabClassCount ∧
      IsBlock c sp ptr ∧ n ≤ slabSize c) ∨
    (inHeap h.base ptr = true ∧ blockHeader + n ≤ (st.heap (ptr - blockHeader)).size)

/-- The sizes that pass the guard and wrap when they are rounded. -/
def SizeWraps (size : Nat) : Prop := 2 ^ 64 - 31 ≤ size ∧ size ≤ 2 ^ 64 - 17

theorem heapTotal_eq (size : Nat) :
    heapTotal size = max 32 ((size + 31) % 2 ^ 64 / 16 * 16) := by
  have hmask := and_lnot64_mask (k := 4) (Nat.mod_lt (size + 16 + 15) (by decide : 0 < 2 ^ 64))
    (by decide)
  have halign : alignUp (size + blockHeader) kmallocAlign =
      (size + 31) % 2 ^ 64 / 16 * 16 := hmask
  rw [heapTotal, halign, show kmallocMinBlock = 32 from rfl]
  split <;> omega

theorem heapTotal_ge {size : Nat} (hsize : size ≤ sizeMax - blockHeader) (hnot : ¬ SizeWraps size) :
    blockHeader + size ≤ heapTotal size := by
  have hmax : sizeMax = 2 ^ 64 - 1 := rfl
  have hhdr : blockHeader = 16 := rfl
  unfold SizeWraps at hnot
  rw [heapTotal_eq size]
  omega

theorem heapTotal_wraps {size : Nat} (hwraps : SizeWraps size) : heapTotal size = 32 := by
  have hmax : sizeMax = 2 ^ 64 - 1 := rfl
  have hhdr : blockHeader = 16 := rfl
  obtain ⟨hlo, hhi⟩ := hwraps
  rw [heapTotal_eq size]
  omega

theorem slabSize_le (c : Nat) : slabSize c ≤ 8192 := by
  by_cases hc : c < 10
  · revert c
    decide
  · rw [slabSize, List.getD_eq_default _ _ (Nat.not_lt.mp hc)]
    exact Nat.zero_le _

/-- The class that is found holds the request. -/
theorem findSlabClass_fits {size c : Nat} (h : findSlabClass size = some c) : size ≤ slabSize c := by
  unfold findSlabClass at h
  split at h
  · exact absurd h (by simp)
  · have htest := List.find?_some h
    rw [Bool.and_eq_true, decide_eq_true_eq] at htest
    exact htest.1

/-! ### The heap -/

section Heap

variable {h : HeapArray} {st : Kmalloc} {blocks : List Block} {size : Nat}

/-- A block taken for a request is as large as the request was rounded to, and no larger than the
heap. -/
theorem HeapLinked.taken_size {base freeList total : Nat} {heap : Nat → KmallocBlock}
    {l₁ l₂ : List Block} {b : Block} (hl : HeapLinked base heap freeList (l₁ ++ takeFrom b total l₂))
    (hfit : total ≤ b.size) :
    total ≤ (heap b.addr).size ∧ (heap b.addr).size ≤ kmallocHeapSize := by
  unfold takeFrom at hl
  split at hl
  · have hmem : (⟨b.addr, total, false⟩ : Block) ∈ l₁ ++ ⟨b.addr, total, false⟩ ::
        ⟨b.addr + total, b.size - total, true⟩ :: l₂ := by simp
    rw [hl.sizes _ hmem]
    exact ⟨le_refl _, hl.size_le hmem⟩
  · have hmem : (⟨b.addr, b.size, false⟩ : Block) ∈ l₁ ++ ⟨b.addr, b.size, false⟩ :: l₂ := by simp
    rw [hl.sizes _ hmem]
    exact ⟨hfit, hl.size_le hmem⟩

/-- The heap answers with null, or with a block of at least the rounded size. -/
theorem heapAlloc_size (hl : HeapLinked h.base st.heap st.freeList blocks) (size : Nat) :
    ((heapAlloc st size).2 = 0 ∧
        (sizeMax - blockHeader < size ∨ ∀ b ∈ blocks, b.free = true → b.size < heapTotal size)) ∨
      (size ≤ sizeMax - blockHeader ∧ (heapAlloc st size).2 ≠ 0 ∧
        inHeap h.base (heapAlloc st size).2 = true ∧
        heapTotal size ≤ ((heapAlloc st size).1.heap ((heapAlloc st size).2 - blockHeader)).size ∧
        ((heapAlloc st size).1.heap ((heapAlloc st size).2 - blockHeader)).size ≤
          kmallocHeapSize) := by
  have hhdr : blockHeader = 16 := rfl
  have hmin : kmallocMinBlock = 32 := rfl
  rcases heapAlloc_spec hl size with ⟨heq, hwhy⟩ |
    ⟨l₁, b, l₂, heap, fl, taken, rfl, hb, hguard, hfit, hl', htaken, heq⟩
  · rw [heq]
    exact .inl ⟨rfl, hwhy⟩
  · obtain ⟨hge, hle⟩ := hl'.taken_size hfit
    have hbound := hl.tiles.bounds b (by simp)
    have hlarge := hl.large b (by simp)
    have hheader : b.addr + blockHeader - blockHeader = b.addr := Nat.add_sub_cancel ..
    rw [heq]
    refine .inr ⟨hguard, by dsimp only; omega, inHeap_iff.mpr (by dsimp only; omega), ?_⟩
    dsimp only
    rw [hheader]
    exact ⟨hge, hle⟩

/-- A size that does not wrap is honoured. -/
theorem heapAlloc_reserved (hl : HeapLinked h.base st.heap st.freeList blocks)
    (hnot : ¬ SizeWraps size) (hne : (heapAlloc st size).2 ≠ 0) :
    Reserved h (heapAlloc st size).1 (heapAlloc st size).2 size := by
  rcases heapAlloc_size hl size with ⟨hnull, -⟩ | ⟨hguard, -, hin, hge, -⟩
  · exact absurd hnull hne
  · exact .inr ⟨hin, (heapTotal_ge hguard hnot).trans hge⟩

/-- No block is large enough for a size that wraps. -/
theorem SizeWraps.not_reserved (hwraps : SizeWraps size) {ptr : Nat}
    (hle : (st.heap (ptr - blockHeader)).size ≤ kmallocHeapSize) : ¬ Reserved h st ptr size := by
  have hheap : kmallocHeapSize < 2 ^ 32 := by decide
  obtain ⟨hlo, -⟩ := hwraps
  rintro (⟨c, sp, l, -, -, -, -, hfits⟩ | ⟨-, hfits⟩)
  · have := slabSize_le c
    omega
  · omega

/-- A size that wraps is served by any free block, and not honoured. -/
theorem SizeWraps.heapAlloc (hl : HeapLinked h.base st.heap st.freeList blocks)
    (hwraps : SizeWraps size) :
    ((BrightS.heapAlloc st size).2 ≠ 0 ↔ st.freeList ≠ 0) ∧
      ((BrightS.heapAlloc st size).2 ≠ 0 →
        ¬ Reserved h (BrightS.heapAlloc st size).1 (BrightS.heapAlloc st size).2 size) := by
  have htotal := heapTotal_wraps hwraps
  have hmax : sizeMax = 2 ^ 64 - 1 := rfl
  have hhdr : blockHeader = 16 := rfl
  have hmin : kmallocMinBlock = 32 := rfl
  rcases heapAlloc_size hl size with ⟨hnull, hwhy⟩ | ⟨hguard, hne, hin, hge, hle⟩
  · have hnone : ∀ b ∈ blocks, b.free = true → b.size < heapTotal size := by
      refine hwhy.resolve_left fun hlarge => ?_
      have := hwraps.2
      omega
    have hempty : freeAddrs blocks = [] := by
      refine List.eq_nil_iff_forall_not_mem.mpr fun a ha => ?_
      obtain ⟨b, hb, hfree, -⟩ := mem_freeAddrs ha
      have := hnone b hb hfree
      have := hl.large b hb
      omega
    have hlinks := hl.links
    rw [hempty] at hlinks
    exact ⟨iff_of_false (not_not_intro hnull) (not_not_intro hlinks), fun hne => absurd hnull hne⟩
  · refine ⟨iff_of_true hne fun hzero => ?_, fun _ => hwraps.not_reserved hle⟩
    -- With no free block there is nothing to take.
    have hlinks := hl.links
    rw [hzero] at hlinks
    rcases heapAlloc_spec hl size with ⟨heq, -⟩ |
      ⟨l₁, b, l₂, heap, fl, taken, rfl, hb, -⟩
    · rw [heq] at hne
      exact hne rfl
    · rw [freeAddrs_append, freeAddrs_cons_free hb] at hlinks
      cases hbefore : freeAddrs l₁ with
      | nil =>
          rw [hbefore] at hlinks
          exact hlinks.2.1 hlinks.1.symm
      | cons a rest =>
          rw [hbefore] at hlinks
          exact hlinks.2.1 hlinks.1.symm

end Heap

/-! ### The result -/

/--
**When a size is honoured.**  In any state of the kernel heap, a pointer that is returned is good
for the bytes that were asked for, unless the size is one of the fifteen from `SIZE_MAX - 30` to
`SIZE_MAX - 16` and the heap has a free block.
-/
theorem kmalloc_size_honoured_iff (h : HeapArray) (st₀ : Kmalloc) {calls : List KmallocCall}
    {s : KmallocRun} (hrun : Executes (KmallocRun.step h) (KmallocRun.init h st₀) calls s)
    {size page : Nat} (hpage : PageAnswer h s.st page) :
    ((kmalloc s.st size page).2 ≠ 0 →
        Reserved h (kmalloc s.st size page).1 (kmalloc s.st size page).2 size) ↔
      ¬ (SizeWraps size ∧ s.st.freeList ≠ 0) := by
  obtain ⟨blocks, pages, free, hl, -, hs, -⟩ := hrun.invariant (kmallocOk_step h) (kmallocOk_init h st₀)
  have hheap : ((heapAlloc s.st size).2 ≠ 0 →
      Reserved h (heapAlloc s.st size).1 (heapAlloc s.st size).2 size) ↔
        ¬ (SizeWraps size ∧ s.st.freeList ≠ 0) := by
    by_cases hwraps : SizeWraps size
    · obtain ⟨hne, hnot⟩ := hwraps.heapAlloc hl
      rw [← hne]
      exact ⟨fun hall hcond => hnot hcond.2 (hall hcond.2),
        fun hcond hret => absurd ⟨hwraps, hret⟩ hcond⟩
    · exact iff_of_true (heapAlloc_reserved hl hwraps) fun hcond => hwraps hcond.1
  unfold kmalloc
  split
  · rename_i hzero
    refine iff_of_true (fun hne => absurd rfl hne) fun hcond => ?_
    have := hcond.1.1
    omega
  · cases hclass : findSlabClass size with
    | none => exact hheap
    | some c =>
        have hfits := findSlabClass_fits hclass
        have hsmall := slabSize_le c
        dsimp only
        rcases hs.slabAlloc_spec (findSlabClass_lt hclass) (hpage.fresh hs) with
          hnone | ⟨st', block, hsome, hgave⟩
        · rw [hnone]
          exact hheap
        · rw [hsome]
          obtain ⟨pages', free', hs', ⟨sp, hsp, hblock⟩, -⟩ := hgave.ok
          refine iff_of_true (fun _ => .inl ?_) fun hcond => ?_
          · exact ⟨c, sp, pages' c, hs'.classLinks c hsp.1, hsp.2, hsp.1, hblock, hfits⟩
          · have := hcond.1.1
            omega

/-- The first of two allocations is freed, and nine thousand bytes are asked for: they are put
where it was. -/
theorem kmalloc_size_honoured_first :
    ∃ s, Executes (KmallocRun.step bootHeap) (KmallocRun.init bootHeap bootMemory)
        [.kmalloc 10000 0, .kmalloc 20000 0, .kfree 0x1000010] s ∧
      (kmalloc s.st 9000 0).2 = 0x1000010 ∧
      Reserved bootHeap (kmalloc s.st 9000 0).1 0x1000010 9000 := by
  let two := ((KmallocRun.init bootHeap bootMemory).got 10000 0).got 20000 0
  obtain ⟨hlive, hagain⟩ : 0x1000010 ∈ two.live ∧
      (kmalloc (kfree two.st 0x1000010) 9000 0).2 = 0x1000010 := by decide +kernel
  have hrun : Executes (KmallocRun.step bootHeap) (KmallocRun.init bootHeap bootMemory)
      [.kmalloc 10000 0, .kmalloc 20000 0, .kfree 0x1000010]
      { st := kfree two.st 0x1000010, live := two.live.erase 0x1000010 } :=
    .cons ⟨by decide, .inl rfl, rfl⟩
      (.cons ⟨by decide, .inl rfl, rfl⟩ (.cons ⟨.inr hlive, rfl⟩ (.nil _)))
  have hreserved := (kmalloc_size_honoured_iff bootHeap bootMemory hrun (.inl rfl)).mpr
    (fun hcond => absurd hcond.1.1 (by decide : ¬ 2 ^ 64 - 31 ≤ 9000))
  rw [hagain] at hreserved
  exact ⟨_, hrun, hagain, hreserved (by decide)⟩

/-- Almost the whole address space is asked for, and a block of 32 bytes is returned. -/
theorem kmalloc_size_lost : ¬ ∀ (s : KmallocRun) (calls : List KmallocCall) (size page : Nat),
    Executes (KmallocRun.step bootHeap) (KmallocRun.init bootHeap bootMemory) calls s →
      size < 2 ^ 64 → PageAnswer bootHeap s.st page → (kmalloc s.st size page).2 ≠ 0 →
        Reserved bootHeap (kmalloc s.st size page).1 (kmalloc s.st size page).2 size := by
  intro hall
  have hwraps : SizeWraps (2 ^ 64 - 17) := by
    unfold SizeWraps
    omega
  refine hwraps.not_reserved ?_
    (hall _ [] (2 ^ 64 - 17) 0 (.nil _) (by decide) (.inl rfl) (by decide +kernel))
  decide +kernel

end BrightS
