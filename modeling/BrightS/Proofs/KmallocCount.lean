/-
The counters of the kernel heap.

`slabUsed` and `heapUsed` are kept beside the lists: each call adds or takes the size of one
block.  They are the sizes of the live blocks, added up (`CountsOk`).  Live blocks do not
overlap and none is at null, so the sums stay below `2^64` and no counter wraps.

Every block of a slab page that is not on its free list is live, so the two together are
all the blocks of the page.
-/
import BrightS.Lib.Ranges
import BrightS.Proofs.KmallocHeap
import BrightS.Proofs.KmallocSlab

namespace BrightS

open Chains Ranges Tilings

def inHeap (base p : Nat) : Bool := decide (base ≤ p) && decide (p < base + kmallocHeapSize)

theorem inHeap_iff {base p : Nat} :
    inHeap base p = true ↔ base ≤ p ∧ p < base + kmallocHeapSize := by
  simp [inHeap]

/-- The live pointers are the blocks in use and the slab blocks given out. -/
structure LiveOk (base : Nat) (blocks : List Block) (pages free : Nat → List Nat)
    (live : List Nat) : Prop where
  nodup : live.Nodup
  nonnull : 0 ∉ live
  heap : (live.filter (inHeap base)).Perm ((usedAddrs blocks).map (· + blockHeader))
  slab : ∀ p ∈ live, inHeap base p = false → SlabLive pages free p

/-- The block size of the slab page that holds `p`. -/
def slabBlockSize (st : Kmalloc) (p : Nat) : Nat :=
  match slabOwner st p with
  | some (c, _) => slabSize c
  | none => 0

/-- The sizes of the slab blocks among the live pointers, added up. -/
def slabLiveSize (base : Nat) (st : Kmalloc) (live : List Nat) : Nat :=
  ((live.filter (!inHeap base ·)).map (slabBlockSize st)).sum

/-- Every block that is given out is live, and the counters are the sizes of the live blocks. -/
structure CountsOk (base : Nat) (st : Kmalloc) (blocks : List Block) (pages free : Nat → List Nat)
    (live : List Nat) : Prop where
  allLive : ∀ p, SlabLive pages free p → p ∈ live
  heapUsed : st.heapUsed = usedSize blocks
  slabUsed : st.slabUsed = slabLiveSize base st live
  totalUsed : st.totalUsed = st.slabUsed + st.heapUsed

section Sizes

variable {base : Nat} {st st' : Kmalloc} {pages free pages' free' : Nat → List Nat} {c sp p : Nat}

theorem slabBlockSize_eq (hs : SlabOk base st pages free) (hsp : Held pages c sp)
    (hb : IsBlock c sp p) : slabBlockSize st p = slabSize c := by
  unfold slabBlockSize
  rw [hs.slabOwner_of_block hsp hb]

/-- Live blocks keep their sizes while their pages stay where they are. -/
theorem slabBlockSize_kept (hs : SlabOk base st pages free) (hs' : SlabOk base st' pages' free')
    (hheld : ∀ c sp, Held pages c sp → Held pages' c sp) (hp : SlabLive pages free p) :
    slabBlockSize st' p = slabBlockSize st p := by
  obtain ⟨c, sp, hsp, hb, -⟩ := hp
  rw [slabBlockSize_eq hs hsp hb, slabBlockSize_eq hs' (hheld c sp hsp) hb]

/-- Two slab blocks do not overlap. -/
theorem SlabOk.blocks_apart (hs : SlabOk base st pages free) {q : Nat}
    (hp : SlabLive pages free p) (hq : SlabLive pages free q) (hne : p ≠ q) :
    Range.Apart ⟨p, slabBlockSize st p⟩ ⟨q, slabBlockSize st q⟩ := by
  obtain ⟨c, sp, hsp, hb, -⟩ := hp
  obtain ⟨c', sp', hsp', hb', -⟩ := hq
  rw [slabBlockSize_eq hs hsp hb, slabBlockSize_eq hs hsp' hb']
  have hpb := hb.bounds
  have hqb := hb'.bounds
  intro i ⟨hpi, hqi⟩
  simp only [Range.Has] at hpi hqi
  rcases hs.apart c sp c' sp' hsp hsp' with ⟨rfl, rfl⟩ | hlt | hlt
  · rcases hb.apart hb' hne with hlt | hlt
    · omega
    · omega
  · omega
  · omega

/-- The slab blocks fit into memory beside the heap. -/
theorem SlabOk.size_lt (hs : SlabOk base st pages free) (hpos : 0 < base)
    (hfits : base + kmallocHeapSize ≤ 2 ^ 64) {l : List Nat} (hnodup : l.Nodup)
    (hlive : ∀ p ∈ l, SlabLive pages free p) :
    (l.map (slabBlockSize st)).sum + kmallocHeapSize < 2 ^ 64 := by
  have hapart : (⟨base, kmallocHeapSize⟩ :: l.map fun p => ⟨p, slabBlockSize st p⟩ :
      List Range).Pairwise Range.Apart := by
    refine List.pairwise_cons.mpr ⟨fun r hr i hi => ?_, ?_⟩
    · obtain ⟨p, hp, rfl⟩ := List.mem_map.mp hr
      obtain ⟨c, sp, hsp, hb, -⟩ := hlive p hp
      rw [slabBlockSize_eq hs hsp hb] at hi
      have hpb := hb.bounds
      have hout := hs.outside c sp hsp
      simp only [Range.Has, OutsideHeap] at hi hout
      omega
    · rw [List.pairwise_map]
      exact hnodup.imp_of_mem fun hp hq hne => hs.blocks_apart (hlive _ hp) (hlive _ hq) hne
  have hin : ∀ r ∈ (⟨base, kmallocHeapSize⟩ :: l.map fun p => ⟨p, slabBlockSize st p⟩ :
      List Range), ∀ i, r.Has i → 1 ≤ i ∧ i < 2 ^ 64 := by
    intro r hr i hi
    rcases List.mem_cons.mp hr with rfl | hr
    · simp only [Range.Has] at hi
      omega
    · obtain ⟨p, hp, rfl⟩ := List.mem_map.mp hr
      obtain ⟨c, sp, hsp, hb, -⟩ := hlive p hp
      rw [slabBlockSize_eq hs hsp hb] at hi
      have hpb := hb.bounds
      have hsf := hs.fits c sp hsp
      simp only [Range.Has] at hi
      omega
  have hle := sum_len_le hapart hin
  rw [List.map_cons, List.sum_cons, List.map_map] at hle
  have hsame : (l.map ((·.len) ∘ fun p => (⟨p, slabBlockSize st p⟩ : Range))) =
      l.map (slabBlockSize st) := rfl
  rw [hsame] at hle
  dsimp only at hle
  omega

end Sizes

/-! ### What a call does to the counters -/

section Counts

variable {base : Nat} {st : Kmalloc} {blocks : List Block} {pages free : Nat → List Nat}
  {live : List Nat}

theorem LiveOk.size_lt (hv : LiveOk base blocks pages free live) (hs : SlabOk base st pages free)
    (hpos : 0 < base) (hfits : base + kmallocHeapSize ≤ 2 ^ 64) :
    slabLiveSize base st live + kmallocHeapSize < 2 ^ 64 := by
  refine hs.size_lt hpos hfits (hv.nodup.filter _) fun p hp => ?_
  obtain ⟨hmem, hout⟩ := List.mem_filter.mp hp
  exact hv.slab p hmem (by simpa using hout)

/-- A pointer into the heap is not counted. -/
theorem slabLiveSize_cons_heap {ptr : Nat} (hin : inHeap base ptr = true) :
    slabLiveSize base st (ptr :: live) = slabLiveSize base st live := by
  unfold slabLiveSize
  rw [List.filter_cons_of_neg (by simp [hin])]

theorem slabLiveSize_cons_slab {ptr : Nat} (hout : inHeap base ptr = false) :
    slabLiveSize base st (ptr :: live) = slabBlockSize st ptr + slabLiveSize base st live := by
  unfold slabLiveSize
  rw [List.filter_cons_of_pos (by simp [hout]), List.map_cons, List.sum_cons]

theorem slabLiveSize_perm (base : Nat) (st : Kmalloc) {live' : List Nat} (h : live.Perm live') :
    slabLiveSize base st live = slabLiveSize base st live' :=
  ((h.filter _).map _).sum_eq

/-- The pointers that are left keep their sizes. -/
theorem slabLiveSize_congr {st' : Kmalloc}
    (h : ∀ p ∈ live, inHeap base p = false → slabBlockSize st' p = slabBlockSize st p) :
    slabLiveSize base st' live = slabLiveSize base st live := by
  unfold slabLiveSize
  congr 1
  refine List.map_congr_left fun p hp => ?_
  obtain ⟨hmem, hout⟩ := List.mem_filter.mp hp
  exact h p hmem (by simpa using hout)

theorem usedSize_takeFrom {heap : Nat → KmallocBlock} {freeList total : Nat} {l₁ l₂ : List Block}
    {b : Block} (hl : HeapLinked base heap freeList (l₁ ++ takeFrom b total l₂))
    (hb : b.free = true) :
    usedSize (l₁ ++ takeFrom b total l₂) = usedSize (l₁ ++ b :: l₂) + (heap b.addr).size := by
  have hsizes := hl.sizes
  unfold takeFrom at hsizes ⊢
  rw [usedSize_append, usedSize_append, usedSize_cons, if_pos hb]
  split at hsizes
  · rename_i hsplit
    rw [if_pos hsplit, usedSize_cons, usedSize_cons]
    have hsize : (heap b.addr).size = total :=
      hsizes { b with size := total, free := false } (by simp)
    rw [hsize]
    simp only [Bool.false_eq_true, if_false, if_true]
    omega
  · rename_i hwhole
    rw [if_neg hwhole, usedSize_cons]
    have hsize : (heap b.addr).size = b.size := hsizes { b with free := false } (by simp)
    rw [hsize]
    simp only [Bool.false_eq_true, if_false]
    omega

/-- The heap gives out a block. -/
theorem CountsOk.heapTake {l₁ l₂ : List Block} {b : Block} {heap : Nat → KmallocBlock}
    {freeList total ptr : Nat} (h : CountsOk base st (l₁ ++ b :: l₂) pages free live)
    (hl : HeapLinked base heap freeList (l₁ ++ takeFrom b total l₂)) (hb : b.free = true)
    (hin : inHeap base ptr = true)
    (hlt : slabLiveSize base st live + kmallocHeapSize < 2 ^ 64) :
    CountsOk base (st.withHeap heap freeList (heap b.addr).size) (l₁ ++ takeFrom b total l₂)
      pages free (ptr :: live) := by
  have hused := usedSize_takeFrom hl hb
  have hle := hl.tiles.usedSize_le
  have hheap := h.heapUsed
  have hslab := h.slabUsed
  have htotal := h.totalUsed
  refine ⟨fun p hp => List.mem_cons_of_mem _ (h.allLive p hp), ?_, ?_, ?_⟩
  · show (st.heapUsed + (heap b.addr).size) % 2 ^ 64 = _
    omega
  · rw [slabLiveSize_cons_heap hin]
    exact hslab
  · show (st.totalUsed + (heap b.addr).size) % 2 ^ 64 =
      st.slabUsed + (st.heapUsed + (heap b.addr).size) % 2 ^ 64
    omega

/-- The heap takes a block back. -/
theorem CountsOk.heapGive {l₁ l₂ blocks' : List Block} {b : Block} {ptr : Nat}
    (h : CountsOk base st (l₁ ++ b :: l₂) pages free live) (heap : Nat → KmallocBlock)
    (freeList : Nat)
    (hb : b.free = false) (hused : usedBlocks blocks' = usedBlocks l₁ ++ usedBlocks l₂)
    (hmem : ptr ∈ live) (hin : inHeap base ptr = true)
    (hslab : ∀ p, SlabLive pages free p → inHeap base p = false)
    (hlt : slabLiveSize base st live + kmallocHeapSize < 2 ^ 64)
    (hle : usedSize (l₁ ++ b :: l₂) ≤ kmallocHeapSize) :
    CountsOk base (st.withoutBlock heap freeList b.size) blocks' pages free (live.erase ptr) := by
  have hsize : usedSize (l₁ ++ b :: l₂) = usedSize blocks' + b.size := by
    have hnew : usedSize blocks' = usedSize l₁ + usedSize l₂ := by
      rw [usedSize, hused, List.map_append, List.sum_append]
      rfl
    rw [usedSize_append, usedSize_cons, hnew, hb]
    simp only [Bool.false_eq_true, if_false]
    omega
  have herase := slabLiveSize_perm base st (List.perm_cons_erase hmem)
  rw [slabLiveSize_cons_heap hin] at herase
  have hheap := h.heapUsed
  have hcount := h.slabUsed
  have htotal := h.totalUsed
  refine ⟨fun p hp => ?_, ?_, ?_, ?_⟩
  · refine (List.mem_erase_of_ne fun heq => ?_).mpr (h.allLive p hp)
    have hout := hslab p hp
    rw [heq, hin] at hout
    exact Bool.noConfusion hout
  · show (st.heapUsed + (2 ^ 64 - b.size)) % 2 ^ 64 = _
    omega
  · exact hcount.trans herase
  · show (st.totalUsed + (2 ^ 64 - b.size)) % 2 ^ 64 =
      st.slabUsed + (st.heapUsed + (2 ^ 64 - b.size)) % 2 ^ 64
    omega

/-- A slab gives out a block. -/
theorem CountsOk.slabTake {st' : Kmalloc} {c block : Nat} {pages' free' : Nat → List Nat}
    (h : CountsOk base st blocks pages free live) (hs : SlabOk base st pages free)
    (hv : LiveOk base blocks pages free live) (hs' : SlabOk base st' pages' free')
    (hgiven : SlabOk.BlockGiven c pages free pages' free' block) (hout : inHeap base block = false)
    (hheap : st'.heapUsed = st.heapUsed)
    (hslab : st'.slabUsed = (st.slabUsed + slabSize c) % 2 ^ 64)
    (htotal : st'.totalUsed = (st.totalUsed + slabSize c) % 2 ^ 64)
    (hlt : slabLiveSize base st' (block :: live) + kmallocHeapSize < 2 ^ 64)
    (hle : usedSize blocks ≤ kmallocHeapSize) :
    CountsOk base st' blocks pages' free' (block :: live) := by
  obtain ⟨sp, hsp, hb⟩ := hgiven.isBlock
  have hsize : slabLiveSize base st' (block :: live) = slabSize c + slabLiveSize base st live := by
    rw [slabLiveSize_cons_slab hout, slabBlockSize_eq hs' hsp hb]
    congr 1
    exact slabLiveSize_congr fun p hp hpout =>
      slabBlockSize_kept hs hs' hgiven.held (hv.slab p hp hpout)
  have hheapUsed := h.heapUsed
  have hcount := h.slabUsed
  have hsum := h.totalUsed
  refine ⟨fun p hp => ?_, hheap.trans h.heapUsed, ?_, ?_⟩
  · rcases (hgiven.live p).mp hp with hold | rfl
    · exact List.mem_cons_of_mem _ (h.allLive p hold)
    · exact List.mem_cons_self ..
  · rw [hslab, hsize]
    omega
  · rw [htotal, hslab, hheap]
    omega

theorem slabRelease_counts (st : Kmalloc) {c sp p : Nat} (hb : IsBlock c sp p) :
    (slabRelease st c sp p).heapUsed = st.heapUsed ∧
      (slabRelease st c sp p).slabUsed = (st.slabUsed + (2 ^ 64 - slabSize c)) % 2 ^ 64 ∧
      (slabRelease st c sp p).totalUsed = (st.totalUsed + (2 ^ 64 - slabSize c)) % 2 ^ 64 := by
  have hbounds := hb.bounds
  have hpos := hb.size_pos
  have hin : ¬ (p < sp + slabHeader ∨ sp + 4096 ≤ p) := by
    rw [slabHeader_eq]
    omega
  have hoff : ¬ ((p - (sp + slabHeader)) % slabSize c ≠ 0) := by
    obtain ⟨k, -, rfl⟩ := hb
    rw [Nat.add_sub_cancel_left, Nat.mul_mod_left]
    simp
  unfold slabRelease
  dsimp only
  rw [if_neg hin, if_neg hoff]
  exact ⟨rfl, rfl, rfl⟩

/-- A slab takes a block back. -/
theorem CountsOk.slabGive {c sp p : Nat} (h : CountsOk base st blocks pages free live)
    (hs : SlabOk base st pages free) (hv : LiveOk base blocks pages free live)
    (hsp : Held pages c sp) (hb : IsBlock c sp p) (hnot : p ∉ free sp) (hmem : p ∈ live)
    (hout : inHeap base p = false)
    (hlt : slabLiveSize base st live + kmallocHeapSize < 2 ^ 64)
    (hle : usedSize blocks ≤ kmallocHeapSize) :
    CountsOk base (slabRelease st c sp p) blocks pages (Function.update free sp (p :: free sp))
      (live.erase p) := by
  have hs' := hs.release hsp hb hnot
  have herase := slabLiveSize_perm base st (List.perm_cons_erase hmem)
  rw [slabLiveSize_cons_slab hout, slabBlockSize_eq hs hsp hb] at herase
  have hkept : slabLiveSize base (slabRelease st c sp p) (live.erase p) =
      slabLiveSize base st (live.erase p) := by
    refine slabLiveSize_congr fun q hq hqout => ?_
    exact slabBlockSize_kept hs hs' (fun _ _ h => h)
      (hv.slab q (List.mem_of_mem_erase hq) hqout)
  obtain ⟨hheap, hslab, htotal⟩ := slabRelease_counts st hb
  have hheapUsed := h.heapUsed
  have hcount := h.slabUsed
  have hsum := h.totalUsed
  refine ⟨fun q hq => ?_, hheap.trans h.heapUsed, ?_, ?_⟩
  · obtain ⟨hold, hne⟩ := (hs.live_release hsp hb).mp hq
    exact (List.mem_erase_of_ne hne).mpr (h.allLive q hold)
  · rw [hslab, hkept]
    omega
  · rw [htotal, hslab, hheap]
    omega

end Counts

end BrightS
