/-
Physical pages: `kernel/pmem.c` and the boot path in `kernel/vm.c`.

A bitmap of `2^21` bits, kept in 64-bit words, has a one for every page that is
not free; page `i` starts at `base + i * 4096`.  Values of type `uint64_t` wrap at
`2^64`.

`vmBootstrap` keeps the usable part of the firmware's regions and `vmInit` builds
the bitmap from what was kept.  The base is that of the lowest region, so the pages
between two regions have bits as well, which stay set.
-/
import BrightS.Lib.Words

namespace BrightS

open Words

def pageSize : Nat := 4096
def pmemMaxPages : Nat := 2 * 1024 * 1024

/-- A region of usable memory, in bytes. -/
structure MemRegion where
  base : Nat
  size : Nat
  deriving DecidableEq, Repr

/-- The statics of the allocator. -/
structure Pmem where
  bitmap : Nat → Word
  base : Nat
  totalPages : Nat
  freePages : Nat

/-! ### The bitmap

A bit is addressed by the number of its page.
-/

/-- `bitmap_set`: the page is in use. -/
def bitmapSet (pm : Pmem) (idx : Nat) : Pmem :=
  { pm with bitmap := Function.update pm.bitmap (idx / 64) (bitSet (pm.bitmap (idx / 64)) (idx % 64)) }

/-- `bitmap_clear`: the page is free. -/
def bitmapClear (pm : Pmem) (idx : Nat) : Pmem :=
  { pm with
    bitmap := Function.update pm.bitmap (idx / 64) (bitClear (pm.bitmap (idx / 64)) (idx % 64)) }

/-- `bitmap_test`. -/
def bitmapTest (pm : Pmem) (idx : Nat) : Bool := bitTest (pm.bitmap (idx / 64)) (idx % 64)

/-- `align_up_page`, whose sum wraps. -/
def alignUpPage (value : Nat) : Nat := ((value + (pageSize - 1)) % 2 ^ 64) &&& lnot64 (pageSize - 1)

/-- `align_down_page`. -/
def alignDownPage (value : Nat) : Nat := value &&& lnot64 (pageSize - 1)

/-! ### Building the bitmap

Three passes: the regions are measured, their pages are marked free, and what lies below the first
megabyte is taken away again.  The total counts the pages of the regions, not those between them.
-/

/-- The first and the end of the whole pages of a region. -/
def regionBase (r : MemRegion) : Nat := alignUpPage r.base
def regionEnd (r : MemRegion) : Nat := alignDownPage ((r.base + r.size) % 2 ^ 64)

/-- The lowest base and the page total, one region at a time. -/
def pmemMeasure (pm : Pmem) (r : MemRegion) : Pmem :=
  if regionEnd r ≤ regionBase r then pm
  else { pm with
    base := if regionBase r < pm.base then regionBase r else pm.base
    totalPages := (pm.totalPages + (regionEnd r - regionBase r) / pageSize) % 2 ^ 64 }

/-- The addresses of `for (addr = lo; addr < hi; addr += 4096)`. -/
def pageAddrs (lo hi : Nat) : List Nat :=
  (List.range ((hi - lo + (pageSize - 1)) / pageSize)).map fun k => lo + k * pageSize

/-- The bit of the page at an address; the difference wraps below the base. -/
def pageIdx (pm : Pmem) (addr : Nat) : Nat := sub64 addr pm.base / pageSize

/-- A page of a region becomes free, if the bitmap reaches that far. -/
def pmemMarkFree (pm : Pmem) (addr : Nat) : Pmem :=
  if pageIdx pm addr < pmemMaxPages then
    { bitmapClear pm (pageIdx pm addr) with freePages := (pm.freePages + 1) % 2 ^ 64 }
  else pm

/-- The pages of a region become free. -/
def pmemMarkRegion (pm : Pmem) (r : MemRegion) : Pmem :=
  if regionEnd r ≤ regionBase r then pm
  else (pageAddrs (regionBase r) (regionEnd r)).foldl pmemMarkFree pm

/-- A page of the first megabyte is taken away, if it is free. -/
def pmemReserve (pm : Pmem) (addr : Nat) : Pmem :=
  if pm.base ≤ addr then
    if pageIdx pm addr < pmemMaxPages ∧ bitmapTest pm (pageIdx pm addr) = false then
      { bitmapSet pm (pageIdx pm addr) with freePages := sub64 pm.freePages 1 }
    else pm
  else pm

/-- Every page is in use. -/
def pmemFill (pm : Pmem) : Pmem :=
  { pm with bitmap := fun i => if i < pmemMaxPages / 64 then BitVec.allOnes 64 else pm.bitmap i }

/-- An empty list stands for a null or empty region table. -/
def pmemInit (pm : Pmem) (regions : List MemRegion) : Pmem :=
  let pm := { pm with totalPages := 0, freePages := 0, base := 2 ^ 64 - 1 }
  let pm := regions.foldl pmemMeasure pm
  if pm.base = 2 ^ 64 - 1 then pm else
  let pm := { pm with
    totalPages := if pmemMaxPages < pm.totalPages then pmemMaxPages else pm.totalPages }
  let pm := pmemFill pm
  let pm := regions.foldl pmemMarkRegion pm
  let limit := (pm.base + pm.totalPages * pageSize) % 2 ^ 64
  (pageAddrs 0 (min 0x100000 limit)).foldl pmemReserve pm

/-! ### Allocation

A page is given out as its address, null when there is none, and comes back as that address.  The
counter of free pages follows every bit that changes.
-/

/-- `brights_pmem_alloc_page`: the page of the lowest clear bit.  The search looks at no other when
that one lies behind the last page. -/
def pmemAllocPage (pm : Pmem) : Pmem × Nat :=
  match (List.range (pmemMaxPages / 64)).find? fun i => pm.bitmap i != BitVec.allOnes 64 with
  | none => (pm, 0)
  | some i =>
      let bit := lowestBit (~~~(pm.bitmap i))
      let idx := i * 64 + bit
      if pm.totalPages ≤ idx then (pm, 0)
      else ({ bitmapSet pm idx with freePages := sub64 pm.freePages 1 },
        (pm.base + idx * pageSize) % 2 ^ 64)

/-- `brights_pmem_free_page`: a page that is free already is left alone. -/
def pmemFreePage (pm : Pmem) (addr : Nat) : Pmem :=
  if addr = 0 then pm else
  if addr < pm.base then pm else
  let idx := pageIdx pm addr
  if pmemMaxPages ≤ idx then pm else
  if bitmapTest pm idx then
    { bitmapClear pm idx with freePages := (pm.freePages + 1) % 2 ^ 64 }
  else pm

/-- The first-fit loop over the pages `i, i + 1, …`, of which `n` are left. -/
def findRun (pm : Pmem) (count : Nat) : Nat → Nat → Nat → Nat → Option Nat
  | 0, _, _, _ => none
  | n + 1, i, found, startIdx =>
      if bitmapTest pm i = false then
        let startIdx := if found = 0 then i else startIdx
        let found := found + 1
        if found = count then some startIdx else findRun pm count n (i + 1) found startIdx
      else findRun pm count n (i + 1) 0 startIdx

/-- Set the bits `start, …, start + n - 1`. -/
def bitmapSetRun (pm : Pmem) (start : Nat) : Nat → Pmem
  | 0 => pm
  | n + 1 => bitmapSet (bitmapSetRun pm start n) (start + n)

/-- `brights_pmem_alloc_pages`: the first run of that many clear bits in the whole bitmap. -/
def pmemAllocPages (pm : Pmem) (count : Nat) : Pmem × Nat :=
  if count = 0 then (pm, 0) else
  if count = 1 then pmemAllocPage pm else
  match findRun pm count pmemMaxPages 0 0 0 with
  | none => (pm, 0)
  | some startIdx =>
      ({ bitmapSetRun pm startIdx count with freePages := sub64 pm.freePages count },
        (pm.base + startIdx * pageSize) % 2 ^ 64)

/-- Release page `idx` if it is one of ours and in use. -/
def pmemReleaseIdx (pm : Pmem) (idx : Nat) : Pmem :=
  if idx < pmemMaxPages ∧ bitmapTest pm idx = true then
    { bitmapClear pm idx with freePages := (pm.freePages + 1) % 2 ^ 64 }
  else pm

/-- Release the pages `start, …, start + n - 1`. -/
def pmemReleaseRun (pm : Pmem) (start : Nat) : Nat → Pmem
  | 0 => pm
  | n + 1 => pmemReleaseIdx (pmemReleaseRun pm start n) (start + n)

/-- `brights_pmem_free_pages`: page by page, as far as the bitmap reaches. -/
def pmemFreePages (pm : Pmem) (addr count : Nat) : Pmem :=
  if addr = 0 ∨ count = 0 then pm else
  if addr < pm.base then pm else
  pmemReleaseRun pm (pageIdx pm addr) count

/-- `brights_pmem_used_bytes`. -/
def pmemUsedBytes (pm : Pmem) : Nat := sub64 pm.totalPages pm.freePages * pageSize % 2 ^ 64

/-! ### Boot

What the firmware reports is cut off below the first megabyte, and at most `maxMemRegions` regions
are kept.
-/

def maxMemRegions : Nat := 32

/-- What is left of a region above the first megabyte. -/
def clampRegion (r : MemRegion) : Option MemRegion :=
  let last := (r.base + r.size) % 2 ^ 64
  if last ≤ 0x100000 then none else
  let base := if r.base < 0x100000 then 0x100000 else r.base
  if last ≤ base then none else some { base := base, size := last - base }

/-- A region is kept, as long as there is room and something is left of it. -/
def vmKeepRegion (kept : List MemRegion) (r : MemRegion) : List MemRegion :=
  if kept.length < maxMemRegions then
    match clampRegion r with
    | none => kept
    | some r => kept ++ [r]
  else kept

/-- `brights_vm_bootstrap`: the regions that are kept, in their order. -/
def vmBootstrap (regions : List MemRegion) : List MemRegion := regions.foldl vmKeepRegion []

/-- What is used when the firmware has named no region. -/
def fallbackRegion : MemRegion := { base := 0x100000, size := 16 * 1024 * 1024 }

/-- `brights_vm_init`. -/
def vmInit (pm : Pmem) (kept : List MemRegion) : Pmem :=
  if kept.length = 0 then pmemInit pm [fallbackRegion] else pmemInit pm kept

end BrightS
