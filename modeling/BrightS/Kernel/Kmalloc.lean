/-
The kernel heap: `kernel/kmalloc.c`.

Small requests are served from slab pages, one page list per size class; what the
slabs cannot serve comes from a static heap of eight megabytes by best fit.

Memory is kept by what is stored in it.  `heap a` is the `kmalloc_block_t` header
at address `a`, `slabPage a` the `slab_page_t` header at the start of a slab page,
and `slabFree a` the link word of the free slab block at `a`.  Pointers are
addresses and zero is the null pointer.  Counters of type `size_t` wrap at `2^64`,
the sixteen-bit ones at `2^16`.

Loops over a list take the list from the store, so they recurse on a fuel.  The
heap cannot hold more blocks than bytes and the address space not more pages than
`2^52`, which is what the two fuels are; that they suffice is proved, not assumed.
-/
import BrightS.Lib.Chains
import BrightS.Lib.Words

namespace BrightS

open Chains Words

/-! ### Constants and arithmetic -/

def slabClassCount : Nat := 10

/-- The block sizes of the classes. -/
def slabSizes : List Nat := [16, 32, 64, 128, 256, 512, 1024, 2048, 4096, 8192]

def slabSize (i : Nat) : Nat := slabSizes.getD i 0

def kmallocHeapSize : Nat := 8 * 1024 * 1024
def kmallocAlign : Nat := 16
def kmallocMinBlock : Nat := 32

/-- `sizeof(kmalloc_block_t)`: a size and a pointer. -/
def blockHeader : Nat := 16

/-- `sizeof(slab_page_t)`: a pointer, three 16-bit counters padded to a word, a pointer. -/
def slabPageStruct : Nat := 24

/-- `SIZE_MAX`. -/
def sizeMax : Nat := 2 ^ 64 - 1

/-- `align_up`: the sum wraps around. -/
def alignUp (v a : Nat) : Nat := ((v + (a - 1)) % 2 ^ 64) &&& lnot64 (a - 1)

/-- The bytes at the start of a slab page that hold no block. -/
def slabHeader : Nat := alignUp slabPageStruct 16

/-- Bounds on the rounds of the loops over the heap and over the slabs. -/
def heapFuel : Nat := kmallocHeapSize
def slabFuel : Nat := 2 ^ 52

/-! ### State -/

/-- `slab_page_t`: the header of a slab page. -/
structure SlabPage where
  next : Nat
  classIdx : Nat
  freeCount : Nat
  totalCount : Nat
  freeList : Nat
  deriving DecidableEq, Repr, Inhabited

/-- `slab_class_t`: the pages of a class, and its block size. -/
structure SlabClass where
  pages : Nat
  blockSize : Nat
  deriving DecidableEq, Repr, Inhabited

/-- `kmalloc_block_t`: the header of a block of the heap.  `next` means something in a free block
only. -/
structure KmallocBlock where
  size : Nat
  next : Nat
  deriving DecidableEq, Repr, Inhabited

/-- The statics of the module, and the memory that it manages. -/
structure Kmalloc where
  slabPage : Nat → SlabPage
  slabFree : Nat → Nat
  slabClasses : Nat → SlabClass
  recentPages : Nat → Nat
  totalUsed : Nat
  slabUsed : Nat
  heapUsed : Nat
  heap : Nat → KmallocBlock
  freeList : Nat

/-- Overwrite the words that start in `[ptr, ptr + len)`. -/
def fillMem (f : Nat → Nat) (ptr len value : Nat) : Nat → Nat :=
  fun a => if ptr ≤ a ∧ a < ptr + len then value else f a

/-- The same with zero, as an allocated block is cleared. -/
def zeroMem (f : Nat → Nat) (ptr len : Nat) : Nat → Nat := fillMem f ptr len 0

/-! ### Slabs

A page of a class is a header and the blocks behind it; the free ones are a list through their
first words.  The page used last is tried before the list of pages is searched.
-/

/-- Thread the blocks of a fresh page: each new block points to the one before it. -/
def slabThread (data blockSize : Nat) : Nat → (Nat → Nat) → (Nat → Nat) × Nat
  | 0, links => (links, 0)
  | n + 1, links =>
      let (links, head) := slabThread data blockSize n links
      let block := data + n * blockSize
      (Function.update links block head, block)

/-- `page` is what `brights_pmem_alloc_page` answered. -/
def slabPageInit (st : Kmalloc) (classIdx page : Nat) : Kmalloc × Nat :=
  if page = 0 then (st, 0) else
  let blockSize := slabSize classIdx
  let headerSize := slabHeader
  let numBlocks := (4096 - headerSize) / blockSize
  -- A page too small for one block is not given back.
  if numBlocks = 0 then (st, 0) else
  let (links, head) := slabThread (page + headerSize) blockSize numBlocks st.slabFree
  ({ st with
      slabFree := links
      slabPage := Function.update st.slabPage page
        { next := 0, classIdx := classIdx, freeCount := numBlocks,
          totalCount := numBlocks, freeList := head } }, page)

/-- `brights_kmalloc_init`: no pages, and one free block that is the whole heap. -/
def kmallocInit (base : Nat) (st : Kmalloc) : Kmalloc :=
  { st with
    slabClasses := fun i =>
      if i < slabClassCount then { pages := 0, blockSize := slabSize i } else st.slabClasses i
    recentPages := fun i => if i < slabClassCount then 0 else st.recentPages i
    freeList := base
    heap := Function.update st.heap base { size := kmallocHeapSize, next := 0 }
    totalUsed := 0
    slabUsed := 0
    heapUsed := 0 }

/-- The smallest class that holds `size` bytes; `none` is the source's `-1`. -/
def findSlabClass (size : Nat) : Option Nat :=
  if size = 0 ∨ slabSize (slabClassCount - 1) < size then none
  else (List.range slabClassCount).find? fun i =>
    decide (size ≤ slabSize i) && (decide (i = 0) || decide (slabSize (i - 1) < size))

/-- Pop the first free block of page `sp`, charge it to the counters and zero it. -/
def slabTake (st : Kmalloc) (classIdx sp : Nat) : Kmalloc × Nat :=
  let blockSize := (st.slabClasses classIdx).blockSize
  let page := st.slabPage sp
  let block := page.freeList
  ({ st with
      slabPage := Function.update st.slabPage sp
        { page with
          freeList := st.slabFree block
          freeCount := (page.freeCount + (2 ^ 16 - 1)) % 2 ^ 16 }
      slabUsed := (st.slabUsed + blockSize) % 2 ^ 64
      totalUsed := (st.totalUsed + blockSize) % 2 ^ 64
      slabFree := zeroMem st.slabFree block blockSize }, block)

/-- The page has a block to give. -/
def SlabPage.hasFree (p : SlabPage) : Bool := decide (0 < p.freeCount) && decide (p.freeList ≠ 0)

/-- The link stored in each slab page. -/
def slabNext (st : Kmalloc) : Nat → Nat := fun sp => (st.slabPage sp).next

/-- The first page of the list that has a free block. -/
def slabFindPage (st : Kmalloc) (pages : Nat) : Option Nat :=
  findNode (slabNext st) (fun sp => (st.slabPage sp).hasFree) slabFuel pages

/-- The slab part of `brights_kmalloc`; `none` falls through to the heap. -/
def slabAlloc (st : Kmalloc) (classIdx page : Nat) : Kmalloc × Option Nat :=
  let recent := st.recentPages classIdx
  if recent ≠ 0 ∧ (st.slabPage recent).hasFree then
    let (st, block) := slabTake st classIdx recent
    (st, some block)
  else
    match slabFindPage st (st.slabClasses classIdx).pages with
    | some sp =>
        let (st, block) :=
          slabTake { st with recentPages := Function.update st.recentPages classIdx sp } classIdx sp
        (st, some block)
    | none =>
        let (st, newPage) := slabPageInit st classIdx page
        if newPage ≠ 0 then
          let sc := st.slabClasses classIdx
          let st := { st with
            slabPage := Function.update st.slabPage newPage
              { st.slabPage newPage with next := sc.pages }
            slabClasses := Function.update st.slabClasses classIdx { sc with pages := newPage } }
          let (st, block) := slabTake st classIdx newPage
          (st, some block)
        else (st, none)

/-! ### The best-fit heap

The free blocks are a list in the order of their addresses.  A block in use is known by the header
in front of its pointer.
-/

/-- The variables of the search loop. -/
structure BestFit where
  bestFit : Nat
  bestFitPrev : Nat
  bestFitSize : Nat
  deriving DecidableEq, Repr

/-- The search over the free list, for at most `fuel` blocks: the smallest one that is large enough,
the first of its size. -/
def bestFitLoop (heap : Nat → KmallocBlock) (totalSize : Nat) :
    Nat → Nat → Nat → BestFit → BestFit
  | 0, _, _, best => best
  | fuel + 1, curr, prev, best =>
      if curr = 0 then best
      else
        let best :=
          if totalSize ≤ (heap curr).size ∧ (heap curr).size < best.bestFitSize then
            { bestFit := curr, bestFitPrev := prev, bestFitSize := (heap curr).size }
          else best
        bestFitLoop heap totalSize fuel (heap curr).next curr best

/-- Store `next` in the list node `block`. -/
def setNext (heap : Nat → KmallocBlock) (block next : Nat) : Nat → KmallocBlock :=
  Function.update heap block { heap block with next := next }

/-- Store a size in the header of a block. -/
def setSize (heap : Nat → KmallocBlock) (block size : Nat) : Nat → KmallocBlock :=
  Function.update heap block { heap block with size := size }

/-- Cut `totalSize` bytes off the front of `block` and put the rest behind it. -/
def splitBlock (heap : Nat → KmallocBlock) (block totalSize : Nat) : Nat → KmallocBlock :=
  let newBlock := block + totalSize
  let heap := setSize heap newBlock ((heap block).size - totalSize)
  let heap := setNext heap newBlock (heap block).next
  let heap := setSize heap block totalSize
  setNext heap block newBlock

/-- The part of `brights_kmalloc` for what the slabs do not serve.  A block that is much too large
is split first. -/
def heapAlloc (st : Kmalloc) (size : Nat) : Kmalloc × Nat :=
  if sizeMax - blockHeader < size then (st, 0) else
  let totalSize := alignUp (size + blockHeader) kmallocAlign
  let totalSize := if totalSize < kmallocMinBlock then kmallocMinBlock else totalSize
  let best := bestFitLoop st.heap totalSize heapFuel st.freeList 0
    { bestFit := 0, bestFitPrev := 0, bestFitSize := sizeMax }
  if best.bestFit = 0 then (st, 0) else
  let heap :=
    if (totalSize + kmallocMinBlock) % 2 ^ 64 ≤ (st.heap best.bestFit).size then
      splitBlock st.heap best.bestFit totalSize
    else st.heap
  let after := (heap best.bestFit).next
  let st := { st with
    heap := if best.bestFitPrev ≠ 0 then setNext heap best.bestFitPrev after else heap
    freeList := if best.bestFitPrev ≠ 0 then st.freeList else after }
  let taken := (st.heap best.bestFit).size
  ({ st with
      heapUsed := (st.heapUsed + taken) % 2 ^ 64
      totalUsed := (st.totalUsed + taken) % 2 ^ 64 }, best.bestFit + blockHeader)

/-- `brights_kmalloc`: `page` is what the page allocator answers if it is asked. -/
def kmalloc (st : Kmalloc) (size page : Nat) : Kmalloc × Nat :=
  if size = 0 then (st, 0) else
  match findSlabClass size with
  | none => heapAlloc st size
  | some classIdx =>
      match slabAlloc st classIdx page with
      | (st, some block) => (st, block)
      | (st, none) => heapAlloc st size

/-! ### Freeing

Whether a pointer is one to a slab block is found out by its address.
-/

/-- The 4096 bytes of page `sp` hold `ptr`. -/
def inSlabPage (ptr sp : Nat) : Bool := decide (sp ≤ ptr) && decide (ptr < sp + 4096)

/-- The first page of the list that holds `ptr`. -/
def slabPageOf (st : Kmalloc) (ptr pages : Nat) : Option Nat :=
  findNode (slabNext st) (inSlabPage ptr) slabFuel pages

/-- The class and page that hold `ptr`, classes in order. -/
def slabOwner (st : Kmalloc) (ptr : Nat) : Option (Nat × Nat) :=
  (List.range slabClassCount).findSome? fun i =>
    (slabPageOf st ptr (st.slabClasses i).pages).map fun sp => (i, sp)

/-- The block goes back to its page, unless the pointer is none to a block. -/
def slabRelease (st : Kmalloc) (classIdx sp ptr : Nat) : Kmalloc :=
  let blockSize := slabSize classIdx
  let headerStart := sp + slabHeader
  if ptr < headerStart ∨ sp + 4096 ≤ ptr then st else
  if (ptr - headerStart) % blockSize ≠ 0 then st else
  let page := st.slabPage sp
  { st with
    slabFree := Function.update (fillMem st.slabFree ptr blockSize 0xCCCCCCCCCCCCCCCC)
      ptr page.freeList
    slabPage := Function.update st.slabPage sp
      { page with freeList := ptr, freeCount := (page.freeCount + 1) % 2 ^ 16 }
    slabUsed := (st.slabUsed + (2 ^ 64 - blockSize)) % 2 ^ 64
    totalUsed := (st.totalUsed + (2 ^ 64 - blockSize)) % 2 ^ 64 }

/-- Where `block` belongs in the address-ordered list: the nodes around it. -/
def insertPoint (heap : Nat → KmallocBlock) (block : Nat) : Nat → Nat → Nat → Nat × Nat
  | 0, prev, curr => (prev, curr)
  | fuel + 1, prev, curr =>
      if curr ≠ 0 ∧ curr < block then insertPoint heap block fuel curr (heap curr).next
      else (prev, curr)

/-- Join `block` with the block behind it when they touch. -/
def joinNext (heap : Nat → KmallocBlock) (block : Nat) : Nat → KmallocBlock :=
  let next := (heap block).next
  if next ≠ 0 ∧ block + (heap block).size = next then
    let heap := setSize heap block (((heap block).size + (heap next).size) % 2 ^ 64)
    setNext heap block (heap next).next
  else heap

/-- Join `block` into the block before it when they touch. -/
def joinPrev (heap : Nat → KmallocBlock) (prev block : Nat) : Nat → KmallocBlock :=
  if prev ≠ 0 ∧ prev + (heap prev).size = block then
    let heap := setSize heap prev (((heap prev).size + (heap block).size) % 2 ^ 64)
    setNext heap prev (heap block).next
  else heap

/-- The block goes back to the free list in its place, and is joined with its neighbours. -/
def heapRelease (st : Kmalloc) (ptr : Nat) : Kmalloc :=
  let block := ptr - blockHeader
  let size := (st.heap block).size
  let (prev, curr) := insertPoint st.heap block heapFuel 0 st.freeList
  let heap := setNext st.heap block curr
  let heap := if prev ≠ 0 then setNext heap prev block else heap
  { st with
    heapUsed := (st.heapUsed + (2 ^ 64 - size)) % 2 ^ 64
    totalUsed := (st.totalUsed + (2 ^ 64 - size)) % 2 ^ 64
    freeList := if prev ≠ 0 then st.freeList else block
    heap := joinPrev (joinNext heap block) prev block }

/-- `brights_kfree`: a pointer that no slab page holds is taken to be one to the heap. -/
def kfree (st : Kmalloc) (ptr : Nat) : Kmalloc :=
  if ptr = 0 then st else
  match slabOwner st ptr with
  | some (classIdx, sp) => slabRelease st classIdx sp ptr
  | none => heapRelease st ptr

end BrightS
