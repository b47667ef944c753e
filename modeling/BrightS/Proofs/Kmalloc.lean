/-
The kernel heap over any sequence of calls.

A run of the allocator is a sequence of `kmalloc` and `kfree` calls together with
the pointers that were returned and not yet freed.  Callers free only such
pointers, and the page allocator answers a request for a slab page with null or
with a page that overlaps neither the heap nor a slab page: those are the only
assumptions.

The invariant has two halves that meet in the list of live pointers.  A live
pointer into the heap is the payload of a block in use, each block in use has
exactly one, and every other live pointer is a slab block that is on no free list.
That is what tells the two paths of `kfree` apart.
-/
import BrightS.Lib.Runs
import BrightS.Proofs.KmallocCount

namespace BrightS

open Chains Runs Tilings

/-! ### Runs -/

/-- Where the linker put `kmalloc_heap`: not at null, and inside the address space. -/
structure HeapArray where
  base : Nat
  pos : 0 < base
  fits : base + kmallocHeapSize ≤ 2 ^ 64

inductive KmallocCall where
  /-- `page` is what `brights_pmem_alloc_page` answers if the call asks it. -/
  | kmalloc (size page : Nat)
  | kfree (ptr : Nat)
  deriving DecidableEq, Repr

structure KmallocRun where
  st : Kmalloc
  /-- The pointers returned and not yet freed. -/
  live : List Nat

/-- The page is on the list of some class. -/
def OnClassList (st : Kmalloc) (sp : Nat) : Prop :=
  ∃ c < slabClassCount, ∃ l, Seg (slabNext st) (st.slabClasses c).pages l 0 ∧ sp ∈ l

/-- Null, or a page that overlaps neither the heap nor a slab page in use. -/
def PageAnswer (h : HeapArray) (st : Kmalloc) (page : Nat) : Prop :=
  page = 0 ∨ (page + 4096 ≤ 2 ^ 64 ∧ OutsideHeap h.base page ∧
    ∀ sp, OnClassList st sp → page + 4096 ≤ sp ∨ sp + 4096 ≤ page)

/-- The live pointers after a call returned `ptr`. -/
def addLive (ptr : Nat) (live : List Nat) : List Nat := if ptr = 0 then live else ptr :: live

def KmallocRun.step (h : HeapArray) (s : KmallocRun) : KmallocCall → KmallocRun → Prop
  | .kmalloc size page, s' =>
      size < 2 ^ 64 ∧ PageAnswer h s.st page ∧
        s' = { st := (kmalloc s.st size page).1, live := addLive (kmalloc s.st size page).2 s.live }
  | .kfree ptr, s' =>
      (ptr = 0 ∨ ptr ∈ s.live) ∧ s' = { st := kfree s.st ptr, live := s.live.erase ptr }

/-- The state `brights_kmalloc_init` leaves, with nothing allocated. -/
def KmallocRun.init (h : HeapArray) (st : Kmalloc) : KmallocRun :=
  { st := kmallocInit h.base st, live := [] }

/-! ### The invariant -/

def KmallocOk (h : HeapArray) (s : KmallocRun) : Prop :=
  ∃ blocks pages free, HeapLinked h.base s.st.heap s.st.freeList blocks ∧ Coalesced blocks ∧
    SlabOk h.base s.st pages free ∧ LiveOk h.base blocks pages free s.live ∧
    CountsOk h.base s.st blocks pages free s.live

theorem kmallocOk_init (h : HeapArray) (st : Kmalloc) : KmallocOk h (KmallocRun.init h st) := by
  refine ⟨[{ addr := h.base, size := kmallocHeapSize, free := true }], fun _ => [], fun _ => [],
    ⟨h.pos, ?_, ?_, ?_, ?_⟩, List.isChain_singleton _, ?_, ?_, ?_⟩
  · exact ⟨rfl, show 0 < kmallocHeapSize by decide, rfl⟩
  · intro b hb
    rw [List.mem_singleton.mp hb]
    exact show kmallocMinBlock ≤ kmallocHeapSize by decide
  · intro b hb
    rw [List.mem_singleton.mp hb]
    simp [KmallocRun.init, kmallocInit]
  · have hp := h.pos
    refine ⟨rfl, by show h.base ≠ 0; omega, ?_⟩
    simp [KmallocRun.init, kmallocInit, heapNext]
  · have hnone : ∀ c sp, ¬ Held (fun _ => []) c sp := fun c sp hsp => by simpa using hsp.2
    refine ⟨?_, ?_, ?_, ?_, ?_, ?_, ?_, ?_, ?_, ?_, ?_, ?_⟩
    · intro c hc
      simp [KmallocRun.init, kmallocInit, hc]
    · intro c hc
      simp [KmallocRun.init, kmallocInit, hc]
    · exact fun c _ => List.nodup_nil
    · exact fun c sp _ _ hsp => absurd hsp (hnone c sp)
    · exact fun c sp hsp => absurd hsp (hnone c sp)
    · exact fun c sp hsp => absurd hsp (hnone c sp)
    · exact fun c sp hsp => absurd hsp (hnone c sp)
    · exact fun c sp hsp => absurd hsp (hnone c sp)
    · exact fun c sp hsp => absurd hsp (hnone c sp)
    · exact fun c sp hsp => absurd hsp (hnone c sp)
    · intro c hc
      simp [KmallocRun.init, kmallocInit, hc]
    · exact fun c sp hsp => absurd hsp (hnone c sp)
  · refine ⟨List.nodup_nil, by simp [KmallocRun.init], ?_, ?_⟩
    · simp [KmallocRun.init, usedAddrs_cons]
    · intro p hp
      simp [KmallocRun.init] at hp
  · refine ⟨fun p hp => ?_, rfl, rfl, rfl⟩
    obtain ⟨c, sp, hsp, -⟩ := hp
    exact absurd hsp.2 (by simp)

theorem init_pages (h : HeapArray) (st : Kmalloc) {c : Nat} (hc : c < slabClassCount) :
    ((KmallocRun.init h st).st.slabClasses c).pages = 0 := by
  simp [KmallocRun.init, kmallocInit, hc]

/-- Empty lists hold no page. -/
theorem not_onClassList {st : Kmalloc}
    (h : ∀ c, c < slabClassCount → (st.slabClasses c).pages = 0) (sp : Nat) :
    ¬ OnClassList st sp := by
  rintro ⟨c, hc, l, hseg, hmem⟩
  rw [h c hc] at hseg
  cases l with
  | nil => exact absurd hmem (by simp)
  | cons a rest => exact hseg.2.1 hseg.1.symm

/-- What the page allocator promises, in terms of the pages held. -/
theorem PageAnswer.fresh {h : HeapArray} {st : Kmalloc} {pages free : Nat → List Nat} {page : Nat}
    (hok : SlabOk h.base st pages free) (hpage : PageAnswer h st page) :
    page = 0 ∨ FreshPage h.base pages page := by
  rcases hpage with hz | ⟨hfits, hout, hapart⟩
  · exact Or.inl hz
  · by_cases hz : page = 0
    · exact Or.inl hz
    · refine Or.inr ⟨Nat.pos_of_ne_zero hz, hfits, hout, fun c sp hsp => hapart sp ?_⟩
      exact ⟨c, hsp.1, pages c, hok.classLinks c hsp.1, hsp.2⟩

/-! ### Allocation keeps the invariant -/

section Alloc

variable {h : HeapArray} {st : Kmalloc} {live : List Nat} {blocks : List Block}
  {pages free : Nat → List Nat}

/-- The address of a free block is not that of a block in use. -/
theorem HeapLinked.free_not_used {base freeList : Nat} {heap : Nat → KmallocBlock}
    {l₁ l₂ : List Block} {b : Block} (hl : HeapLinked base heap freeList (l₁ ++ b :: l₂))
    (hb : b.free = true) : b.addr ∉ usedAddrs (l₁ ++ b :: l₂) := by
  intro hmem
  rw [usedAddrs_append, usedAddrs_cons, if_pos hb, List.mem_append] at hmem
  have hside : ∀ l, b.addr ∈ usedAddrs l → ∃ x ∈ l, x.addr = b.addr := by
    intro l hx
    obtain ⟨x, hx, hxa⟩ := List.mem_map.mp hx
    exact ⟨x, (List.mem_filter.mp hx).1, hxa⟩
  rcases hmem with hmem | hmem
  · obtain ⟨x, hx, hxa⟩ := hside _ hmem
    have := hl.before_lt hx
    omega
  · obtain ⟨x, hx, hxa⟩ := hside _ hmem
    have := hl.behind_lt hx
    have := hl.sides.2.1
    omega

theorem heapAlloc_ok (hl : HeapLinked h.base st.heap st.freeList blocks) (hc : Coalesced blocks)
    (hs : SlabOk h.base st pages free) (hv : LiveOk h.base blocks pages free live)
    (hn : CountsOk h.base st blocks pages free live) (size : Nat) :
    KmallocOk h { st := (heapAlloc st size).1, live := addLive (heapAlloc st size).2 live } := by
  rcases heapAlloc_spec hl size with ⟨heq, -⟩ | ⟨l₁, b, l₂, heap, fl, taken, rfl, hb, -, -, hl', htaken, heq⟩
  · rw [heq]
    exact ⟨blocks, pages, free, hl, hc, hs, hv, hn⟩
  · rw [heq]
    have hbound := hl.tiles.bounds b (by simp)
    have hlarge := hl.large b (by simp)
    have hmin : kmallocMinBlock = 32 := rfl
    have hhdr : blockHeader = 16 := rfl
    have hin : inHeap h.base (b.addr + blockHeader) = true := inHeap_iff.mpr (by omega)
    have hnew : b.addr + blockHeader ∉ live := by
      intro hmem
      have hmem' := hv.heap.subset (List.mem_filter.mpr ⟨hmem, hin⟩)
      obtain ⟨x, hx, hxa⟩ := List.mem_map.mp hmem'
      have : x = b.addr := by omega
      rw [this] at hx
      exact hl.free_not_used hb hx
    have hcounts := hn.heapTake hl' hb hin (hv.size_lt hs h.pos h.fits)
    rw [← htaken] at hcounts
    have hadd : addLive (b.addr + blockHeader) live = (b.addr + blockHeader) :: live := by
      rw [addLive, if_neg (by omega)]
    rw [hadd]
    refine ⟨l₁ ++ takeFrom b (heapTotal size) l₂, pages, free, hl', coalesced_takeFrom hc hb,
      hs.of_eq rfl rfl rfl rfl, ?_, hcounts⟩
    refine ⟨List.nodup_cons.mpr ⟨hnew, hv.nodup⟩, ?_, ?_, ?_⟩
    · rw [List.mem_cons, not_or]
      exact ⟨by omega, hv.nonnull⟩
    · rw [List.filter_cons_of_pos hin, usedAddrs_append, usedAddrs_takeFrom, List.map_append,
        List.map_cons]
      have hperm := hv.heap
      rw [usedAddrs_append, usedAddrs_cons, if_pos hb, List.map_append] at hperm
      exact (hperm.cons _).trans List.perm_middle.symm
    · intro p hp hout
      rcases List.mem_cons.mp hp with rfl | hp
      · rw [hin] at hout
        simp at hout
      · exact hv.slab p hp hout

/-- A slab block lies outside the heap. -/
theorem SlabOk.live_outside (hs : SlabOk h.base st pages free) {p : Nat}
    (hp : SlabLive pages free p) : inHeap h.base p = false ∧ p ≠ 0 := by
  obtain ⟨c, sp, hsp, hb, -⟩ := hp
  have h1 := hb.bounds
  have h2 := hb.size_pos
  have h3 := hs.outside c sp hsp
  refine ⟨?_, by omega⟩
  by_contra hin
  obtain ⟨hlo, hhi⟩ := inHeap_iff.mp (by simpa using hin)
  rcases h3 with h3 | h3
  · omega
  · omega

theorem findSlabClass_lt {size c : Nat} (hf : findSlabClass size = some c) : c < slabClassCount := by
  unfold findSlabClass at hf
  split at hf
  · simp at hf
  · exact List.mem_range.mp (List.mem_of_find?_eq_some hf)

theorem kmalloc_ok (hok : KmallocOk h { st := st, live := live }) {size page : Nat}
    (hpage : PageAnswer h st page) :
    KmallocOk h { st := (kmalloc st size page).1, live := addLive (kmalloc st size page).2 live } := by
  obtain ⟨blocks, pages, free, hl, hc, hs, hv, hn⟩ := hok
  unfold kmalloc
  split
  · exact ⟨blocks, pages, free, hl, hc, hs, hv, hn⟩
  · cases hclass : findSlabClass size with
    | none => exact heapAlloc_ok hl hc hs hv hn size
    | some c =>
        dsimp only
        rcases hs.slabAlloc_spec (findSlabClass_lt hclass) (hpage.fresh hs) with
          hnone | ⟨st', block, hsome, hgave⟩
        · rw [hnone]
          exact heapAlloc_ok hl hc hs hv hn size
        · rw [hsome]
          obtain ⟨hheap, hfl, hheapUsed, hslabUsed, htotal, ⟨pages', free', hs', hgiven⟩, hfresh⟩ :=
            hgave
          have hlive := (hgiven.live block).mpr (.inr rfl)
          obtain ⟨hout, hnz⟩ := hs'.live_outside hlive
          have hadd : addLive block live = block :: live := by rw [addLive, if_neg hnz]
          have hv' : LiveOk h.base blocks pages' free' (block :: live) := by
            refine ⟨List.nodup_cons.mpr ⟨fun hmem => ?_, hv.nodup⟩, ?_, ?_, ?_⟩
            · exact hfresh (hv.slab block hmem hout)
            · rw [List.mem_cons, not_or]
              exact ⟨fun hz => hnz hz.symm, hv.nonnull⟩
            · rw [List.filter_cons_of_neg (by rw [hout]; simp)]
              exact hv.heap
            · intro p hp hpout
              rcases List.mem_cons.mp hp with rfl | hp
              · exact hlive
              · exact (hgiven.live p).mpr (.inl (hv.slab p hp hpout))
          have hsize := hl.tiles.usedSize_le
          rw [hadd]
          refine ⟨blocks, pages', free', ?_, hc, hs', hv', ?_⟩
          · rw [hheap, hfl]
            exact hl
          · exact hn.slabTake hs hv hs' hgiven hout hheapUsed hslabUsed htotal
              (hv'.size_lt hs' h.pos h.fits) (by omega)

end Alloc

/-! ### Freeing keeps the invariant -/

section Free

variable {h : HeapArray} {st : Kmalloc} {live : List Nat}

theorem slabRelease_heap (st : Kmalloc) (c sp p : Nat) :
    (slabRelease st c sp p).heap = st.heap ∧ (slabRelease st c sp p).freeList = st.freeList := by
  simp only [slabRelease]
  split
  · exact ⟨rfl, rfl⟩
  · split
    · exact ⟨rfl, rfl⟩
    · exact ⟨rfl, rfl⟩

theorem kfree_ok (hok : KmallocOk h { st := st, live := live }) {ptr : Nat}
    (hptr : ptr = 0 ∨ ptr ∈ live) :
    KmallocOk h { st := kfree st ptr, live := live.erase ptr } := by
  obtain ⟨blocks, pages, free, hl, hc, hs, hv, hn⟩ := hok
  have hsize := hl.tiles.usedSize_le
  by_cases hz : ptr = 0
  · subst hz
    rw [List.erase_of_not_mem hv.nonnull, kfree, if_pos rfl]
    exact ⟨blocks, pages, free, hl, hc, hs, hv, hn⟩
  · have hmem : ptr ∈ live := hptr.resolve_left hz
    have herase : live.Perm (ptr :: live.erase ptr) := List.perm_cons_erase hmem
    have hnd : (live.erase ptr).Nodup := hv.nodup.erase ptr
    have hnn : 0 ∉ live.erase ptr := fun hc => hv.nonnull (List.mem_of_mem_erase hc)
    have hfilter := herase.filter (inHeap h.base)
    rw [kfree, if_neg hz]
    cases hin : inHeap h.base ptr with
    | true =>
        -- A heap pointer: some block in use, which goes back into the tiling.
        obtain ⟨hlo, hhi⟩ := inHeap_iff.mp hin
        rw [hs.slabOwner_of_heap hlo hhi]
        have hused := hv.heap.subset (List.mem_filter.mpr ⟨hmem, hin⟩)
        obtain ⟨a, ha, rfl⟩ := List.mem_map.mp hused
        obtain ⟨l₁, b, l₂, rfl, hb, rfl⟩ := usedAddrs_split ha
        obtain ⟨heap, fl, blocks', hl', hc', hu', heq⟩ := heapRelease_spec hl hb hc
        dsimp only
        rw [heq]
        have hcounts := hn.heapGive heap fl hb hu' hmem hin
          (fun p hp => (hs.live_outside hp).1) (hv.size_lt hs h.pos h.fits) (by omega)
        refine ⟨blocks', pages, free, hl', hc', hs.of_eq rfl rfl rfl rfl, ⟨hnd, hnn, ?_, ?_⟩, hcounts⟩
        · rw [List.filter_cons_of_pos hin] at hfilter
          have hperm := hv.heap
          rw [usedAddrs_append, usedAddrs_cons, if_neg (by simp [hb]), List.map_append,
            List.map_cons] at hperm
          rw [usedAddrs_eq, hu', List.map_append, List.map_append]
          exact (hfilter.symm.trans (hperm.trans List.perm_middle)).cons_inv
        · exact fun p hp => hv.slab p (List.mem_of_mem_erase hp)
    | false =>
        -- A slab block: its page takes it back.
        obtain ⟨c, sp, hsp, hb, hnot⟩ := hv.slab ptr hmem hin
        rw [hs.slabOwner_of_block hsp hb]
        obtain ⟨hheap, hfl⟩ := slabRelease_heap st c sp ptr
        have hcounts := hn.slabGive hs hv hsp hb hnot hmem hin (hv.size_lt hs h.pos h.fits) (by omega)
        refine ⟨blocks, pages, _, ?_, hc, hs.release hsp hb hnot, ⟨hnd, hnn, ?_, ?_⟩, hcounts⟩
        · dsimp only
          rw [hheap, hfl]
          exact hl
        · rw [List.filter_cons_of_neg (by rw [hin]; simp)] at hfilter
          exact hfilter.symm.trans hv.heap
        · intro p hp hpout
          refine (hs.live_release hsp hb).mpr ⟨hv.slab p (List.mem_of_mem_erase hp) hpout, ?_⟩
          rintro rfl
          exact hv.nodup.not_mem_erase hp

end Free

theorem kmallocOk_step (h : HeapArray) (s : KmallocRun) (c : KmallocCall) (s' : KmallocRun)
    (hok : KmallocOk h s) (hstep : KmallocRun.step h s c s') : KmallocOk h s' := by
  cases c with
  | kmalloc size page =>
      obtain ⟨-, hpage, rfl⟩ := hstep
      exact kmalloc_ok hok hpage
  | kfree ptr =>
      obtain ⟨hptr, rfl⟩ := hstep
      exact kfree_ok hok hptr

/-! ### What a caller can rely on -/

/-- The block whose header is at `a`. -/
def heapBlock (st : Kmalloc) (free : Bool) (a : Nat) : Block :=
  { addr := a, size := (st.heap a).size, free := free }

/-- The heap blocks of the live pointers, headers included. -/
def liveBlocks (h : HeapArray) (s : KmallocRun) : List Block :=
  (s.live.filter (inHeap h.base)).map fun p => heapBlock s.st false (p - blockHeader)

theorem HeapLinked.freeBlocks_eq {base : Nat} {st : Kmalloc} {blocks : List Block}
    (hl : HeapLinked base st.heap st.freeList blocks) :
    (freeAddrs blocks).map (heapBlock st true) = blocks.filter (·.free) := by
  rw [freeAddrs, List.map_map]
  conv_rhs => rw [← List.map_id (blocks.filter (·.free))]
  refine List.map_congr_left fun b hb => ?_
  obtain ⟨hmem, hfree⟩ := List.mem_filter.mp hb
  show heapBlock st true b.addr = b
  rw [heapBlock, hl.sizes b hmem, ← hfree]

theorem LiveOk.liveBlocks_perm {h : HeapArray} {s : KmallocRun} {blocks : List Block}
    {pages free : Nat → List Nat} (hl : HeapLinked h.base s.st.heap s.st.freeList blocks)
    (hv : LiveOk h.base blocks pages free s.live) :
    (liveBlocks h s).Perm (blocks.filter (!·.free)) := by
  have hperm := hv.heap.map fun p => heapBlock s.st false (p - blockHeader)
  refine hperm.trans (List.Perm.of_eq ?_)
  rw [usedAddrs, List.map_map, List.map_map]
  conv_rhs => rw [← List.map_id (blocks.filter (!·.free))]
  refine List.map_congr_left fun b hb => ?_
  obtain ⟨hmem, hfree⟩ := List.mem_filter.mp hb
  show heapBlock s.st false (b.addr + blockHeader - blockHeader) = b
  have hused : b.free = false := by simpa using hfree
  rw [Nat.add_sub_cancel, heapBlock, hl.sizes b hmem, ← hused]

/--
**The heap is sorted, coalesced and tiled.**  After any run the free list ends, is in strict
address order with a gap between any two of its blocks, and its blocks together with the live
ones cover every byte of the heap exactly once and no other byte.
-/
theorem kmalloc_heap_tiled (h : HeapArray) (st : Kmalloc) {calls : List KmallocCall}
    {s : KmallocRun} (hrun : Executes (KmallocRun.step h) (KmallocRun.init h st) calls s) :
    ∃ nodes, Seg (heapNext s.st.heap) s.st.freeList nodes 0 ∧
      nodes.Pairwise (· < ·) ∧
      (nodes.map (heapBlock s.st true)).Pairwise (fun a b => a.addr + a.size < b.addr) ∧
      ∀ a, (nodes.map (heapBlock s.st true) ++ liveBlocks h s).countP (Block.contains a) =
        if h.base ≤ a ∧ a < h.base + kmallocHeapSize then 1 else 0 := by
  obtain ⟨blocks, pages, free, hl, hc, -, hv, -⟩ :=
    hrun.invariant (kmallocOk_step h) (kmallocOk_init h st)
  have happart := hc.free_apart hl.tiles
  refine ⟨freeAddrs blocks, hl.links, ?_, ?_, fun a => ?_⟩
  · rw [freeAddrs, List.pairwise_map]
    exact happart.imp fun {a b} hab => by omega
  · rw [hl.freeBlocks_eq]
    exact happart
  · rw [hl.freeBlocks_eq, List.countP_append,
      (hv.liveBlocks_perm hl).countP_eq, ← List.countP_append,
      ← hl.tiles.countP_contains a]
    exact (List.filter_append_perm (·.free) blocks).countP_eq _

/-- A heap at sixteen megabytes, over memory that was never written. -/
def bootHeap : HeapArray := { base := 0x1000000, pos := by decide, fits := by decide }

def bootMemory : Kmalloc :=
  { slabPage := fun _ => default, slabFree := fun _ => 0, slabClasses := fun _ => default,
    recentPages := fun _ => 0, totalUsed := 0, slabUsed := 0, heapUsed := 0,
    heap := fun _ => default, freeList := 0 }

/-- After an allocation. -/
def KmallocRun.got (s : KmallocRun) (size page : Nat) : KmallocRun :=
  { st := (kmalloc s.st size page).1, live := addLive (kmalloc s.st size page).2 s.live }

/-- The first page the page allocator gives. -/
theorem bootPage : PageAnswer bootHeap (KmallocRun.init bootHeap bootMemory).st 0x400000 :=
  .inr ⟨by decide, .inl (by decide),
    fun sp hsp => absurd hsp (not_onClassList (fun _ => init_pages bootHeap bootMemory) sp)⟩

/-- A heap allocation that is freed again, with the page allocator out of pages. -/
theorem kmalloc_heap_tiled_alloc_free :
    ∃ s, Executes (KmallocRun.step bootHeap) (KmallocRun.init bootHeap bootMemory)
        [.kmalloc 10000 0, .kfree 0x1000010] s ∧
      ∃ nodes, Seg (heapNext s.st.heap) s.st.freeList nodes 0 ∧
        nodes.Pairwise (· < ·) ∧
        (nodes.map (heapBlock s.st true)).Pairwise (fun a b => a.addr + a.size < b.addr) ∧
        ∀ a, (nodes.map (heapBlock s.st true) ++ liveBlocks bootHeap s).countP
            (Block.contains a) =
          if bootHeap.base ≤ a ∧ a < bootHeap.base + kmallocHeapSize then 1 else 0 := by
  have hptr : (kmalloc (KmallocRun.init bootHeap bootMemory).st 10000 0).2 = 0x1000010 := by
    decide +kernel
  have halloc : KmallocRun.step bootHeap (KmallocRun.init bootHeap bootMemory) (.kmalloc 10000 0)
      { st := (kmalloc (KmallocRun.init bootHeap bootMemory).st 10000 0).1, live := [0x1000010] } :=
    ⟨by decide, Or.inl rfl, by rw [hptr]; rfl⟩
  have hfree : KmallocRun.step bootHeap
      { st := (kmalloc (KmallocRun.init bootHeap bootMemory).st 10000 0).1, live := [0x1000010] }
      (.kfree 0x1000010)
      { st := kfree (kmalloc (KmallocRun.init bootHeap bootMemory).st 10000 0).1 0x1000010,
        live := [] } :=
    ⟨Or.inr (by simp), by simp⟩
  have hrun := Executes.cons halloc (Executes.cons hfree (Executes.nil _))
  exact ⟨_, hrun, kmalloc_heap_tiled bootHeap bootMemory hrun⟩

/-! ### Slab pages and counters -/

/-- The block size of a live allocation, the header of a heap block included. -/
def liveBlockSize (h : HeapArray) (st : Kmalloc) (p : Nat) : Nat :=
  if inHeap h.base p = true then (st.heap (p - blockHeader)).size else slabBlockSize st p

section Page

variable {h : HeapArray} {s : KmallocRun} {blocks : List Block} {pages free : Nat → List Nat}
  {c sp : Nat}

/-- The blocks of a page: those on its free list and the live ones. -/
def pageBlocks (s : KmallocRun) (sp : Nat) (free : List Nat) : List Nat :=
  free ++ s.live.filter (inSlabPage · sp)

/-- A live pointer into a page is a block of the page that is not free. -/
theorem LiveOk.in_page (hv : LiveOk h.base blocks pages free s.live)
    (hs : SlabOk h.base s.st pages free) (hsp : Held pages c sp) {p : Nat}
    (hp : p ∈ s.live.filter (inSlabPage · sp)) : IsBlock c sp p ∧ p ∉ free sp := by
  obtain ⟨hmem, hin⟩ := List.mem_filter.mp hp
  have hpage : sp ≤ p ∧ p < sp + 4096 := by simpa [inSlabPage] using hin
  have hout : inHeap h.base p = false := by
    have hapart := hs.outside c sp hsp
    unfold OutsideHeap at hapart
    unfold inHeap
    rw [Bool.and_eq_false_iff, decide_eq_false_iff_not, decide_eq_false_iff_not]
    omega
  obtain ⟨c', sp', hsp', hb, hnot⟩ := hv.slab p hmem hout
  obtain ⟨rfl, rfl⟩ := hs.page_unique hsp' hsp hb hin
  exact ⟨hb, hnot⟩

/-- **Free and live blocks together are the blocks of the page**, each once. -/
theorem LiveOk.pageBlocks_exact (hv : LiveOk h.base blocks pages free s.live)
    (hs : SlabOk h.base s.st pages free) (hn : CountsOk h.base s.st blocks pages free s.live)
    (hsp : Held pages c sp) :
    (pageBlocks s sp (free sp)).Nodup ∧ (∀ p ∈ pageBlocks s sp (free sp), IsBlock c sp p) ∧
      (pageBlocks s sp (free sp)).length = slabCount c := by
  have hblocks : ∀ p ∈ pageBlocks s sp (free sp), IsBlock c sp p := by
    intro p hp
    rcases List.mem_append.mp hp with hp | hp
    · exact hs.freeBlocks c sp hsp p hp
    · exact (hv.in_page hs hsp hp).1
  have hnodup : (pageBlocks s sp (free sp)).Nodup := by
    refine List.nodup_append.mpr ⟨hs.freeNodup c sp hsp, hv.nodup.filter _, fun p hp q hq => ?_⟩
    rintro rfl
    exact (hv.in_page hs hsp hq).2 hp
  refine ⟨hnodup, hblocks, le_antisymm (length_le_slabCount hnodup hblocks) ?_⟩
  have hpos : 0 < slabCount c → 0 < slabSize c := by
    intro hc
    have hb : IsBlock c sp (sp + slabHeader + 0 * slabSize c) := ⟨0, hc, rfl⟩
    exact hb.size_pos
  have hall : ((List.range (slabCount c)).map fun k => sp + slabHeader + k * slabSize c).Nodup := by
    refine List.nodup_range.map_on fun k hk l _ hkl => ?_
    have hc := hpos (Nat.zero_lt_of_lt (List.mem_range.mp hk))
    exact Nat.eq_of_mul_eq_mul_right hc (Nat.add_left_cancel hkl)
  have hsub : (List.range (slabCount c)).map (fun k => sp + slabHeader + k * slabSize c) ⊆
      pageBlocks s sp (free sp) := by
    intro p hp
    obtain ⟨k, hk, rfl⟩ := List.mem_map.mp hp
    have hb : IsBlock c sp (sp + slabHeader + k * slabSize c) := ⟨k, List.mem_range.mp hk, rfl⟩
    by_cases hfree : sp + slabHeader + k * slabSize c ∈ free sp
    · exact List.mem_append_left _ hfree
    · refine List.mem_append_right _ (List.mem_filter.mpr ⟨?_, SlabOk.inSlabPage_of_isBlock hb⟩)
      exact hn.allLive _ ⟨c, sp, hsp, hb, hfree⟩
  have hle := (hall.subperm hsub).length_le
  rwa [List.length_map, List.length_range] at hle

/-- The sizes of all live allocations are the heap's and the slabs'. -/
theorem LiveOk.liveBlockSize_sum (hl : HeapLinked h.base s.st.heap s.st.freeList blocks)
    (hv : LiveOk h.base blocks pages free s.live) :
    (s.live.map (liveBlockSize h s.st)).sum =
      usedSize blocks + slabLiveSize h.base s.st s.live := by
  have hsplit := ((List.filter_append_perm (inHeap h.base) s.live).map (liveBlockSize h s.st)).sum_eq
  rw [List.map_append, List.sum_append] at hsplit
  rw [← hsplit]
  congr 1
  · have hperm := ((hv.liveBlocks_perm hl).map (·.size)).sum_eq
    rw [liveBlocks, List.map_map] at hperm
    refine Eq.trans ?_ hperm
    congr 1
    refine List.map_congr_left fun p hp => ?_
    exact if_pos (List.mem_filter.mp hp).2
  · unfold slabLiveSize
    congr 1
    refine List.map_congr_left fun p hp => ?_
    have hout := (List.mem_filter.mp hp).2
    exact if_neg (by simpa using hout)

end Page

/--
**The slabs are accounted for.**  After any run every page of every class has a free list that ends
and is as long as the page's count says; its blocks and the live blocks of the page do not overlap
and are all the page's blocks; the recent page of a class is one of its pages; and the counters are
the sizes of the live allocations.
-/
theorem kmalloc_slab_accounted (h : HeapArray) (st : Kmalloc) {calls : List KmallocCall}
    {s : KmallocRun}
    (hrun : Executes (KmallocRun.step h) (KmallocRun.init h st) calls s) :
    (∀ c < slabClassCount, ∃ pages, Seg (slabNext s.st) (s.st.slabClasses c).pages pages 0 ∧
      pages.Nodup ∧ (s.st.recentPages c = 0 ∨ s.st.recentPages c ∈ pages) ∧
      ∀ sp ∈ pages, ∃ free, Seg s.st.slabFree (s.st.slabPage sp).freeList free 0 ∧
        (s.st.slabPage sp).freeCount = free.length ∧
        (pageBlocks s sp free).Pairwise (fun p q => p + slabSize c ≤ q ∨ q + slabSize c ≤ p) ∧
        (∀ p ∈ pageBlocks s sp free, IsBlock c sp p) ∧
        (pageBlocks s sp free).length = (s.st.slabPage sp).totalCount) ∧
    s.st.totalUsed = s.st.slabUsed + s.st.heapUsed ∧
    s.st.totalUsed = (s.live.map (liveBlockSize h s.st)).sum := by
  obtain ⟨blocks, pages, free, hl, hc, hs, hv, hn⟩ :=
    hrun.invariant (kmallocOk_step h) (kmallocOk_init h st)
  refine ⟨fun c hlt => ⟨pages c, hs.classLinks c hlt, hs.nodup c hlt, hs.recent c hlt,
    fun sp hmem => ?_⟩, hn.totalUsed, ?_⟩
  · have hsp : Held pages c sp := ⟨hlt, hmem⟩
    obtain ⟨hnodup, hblocks, hlen⟩ := hv.pageBlocks_exact hs hn hsp
    refine ⟨free sp, hs.freeLinks c sp hsp, hs.freeCount c sp hsp, ?_, hblocks, ?_⟩
    · exact hnodup.imp_of_mem fun hp hq hne => (hblocks _ hp).apart (hblocks _ hq) hne
    · rw [hlen, hs.totalCount c sp hsp]
  · rw [hv.liveBlockSize_sum hl, hn.totalUsed, hn.slabUsed, hn.heapUsed, Nat.add_comm]

/-- A slab allocation and one from the heap. -/
theorem kmalloc_slab_accounted_two :
    ∃ s, Executes (KmallocRun.step bootHeap) (KmallocRun.init bootHeap bootMemory)
        [.kmalloc 24 0x400000, .kmalloc 10000 0] s ∧
      (∀ c < slabClassCount, ∃ pages, Seg (slabNext s.st) (s.st.slabClasses c).pages pages 0 ∧
        pages.Nodup ∧ (s.st.recentPages c = 0 ∨ s.st.recentPages c ∈ pages) ∧
        ∀ sp ∈ pages, ∃ free, Seg s.st.slabFree (s.st.slabPage sp).freeList free 0 ∧
          (s.st.slabPage sp).freeCount = free.length ∧
          (pageBlocks s sp free).Pairwise (fun p q => p + slabSize c ≤ q ∨ q + slabSize c ≤ p) ∧
          (∀ p ∈ pageBlocks s sp free, IsBlock c sp p) ∧
          (pageBlocks s sp free).length = (s.st.slabPage sp).totalCount) ∧
      s.st.totalUsed = s.st.slabUsed + s.st.heapUsed ∧
      s.st.totalUsed = (s.live.map (liveBlockSize bootHeap s.st)).sum := by
  have hrun : Executes (KmallocRun.step bootHeap) (KmallocRun.init bootHeap bootMemory)
      [.kmalloc 24 0x400000, .kmalloc 10000 0] _ :=
    .cons ⟨by decide, bootPage, rfl⟩ (.cons ⟨by decide, .inl rfl, rfl⟩ (.nil _))
  exact ⟨_, hrun, kmalloc_slab_accounted bootHeap bootMemory hrun⟩

end BrightS
