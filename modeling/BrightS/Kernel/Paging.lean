/-
Page tables: `arch/x86_64/paging.c`.

A walk goes from the table of an address space down to the entry for an address, and may
create the tables it misses.  Mapping writes that entry.  Cloning copies the lower half of a
space table by table; the pages are shared, and those of 4096 bytes are no longer writable on
either side.

Memory is seen as page-table pages only: entry `i` of the page at physical address
`t`.  Addresses, entries and flags are 64-bit values.  The table levels are numbered
as in the source, from `PT_LEVEL_PT = 0` to `PT_LEVEL_PML4 = 3`.

`pml4Table` is the table of the loaded address space, or null before
`brights_paging_init`.  A flush of the translation cache has no effect here.
-/
import BrightS.Kernel.Pmem

namespace BrightS

open Words

/-- A place in a table. -/
abbrev PtIndex := Fin 512

def ptLevelPml4 : Nat := 3
def ptLevelPd : Nat := 1

def pteFlagPresent : Nat := 1
def pteFlagWritable : Nat := 2
def pteFlagUser : Nat := 4
def pteFlagHuge : Nat := 0x80

/-- `allocFailed` is set when a page cannot be had; no code reads it. -/
structure Paging where
  pm : Pmem
  mem : Nat → PtIndex → Word
  pml4Table : Nat
  allocFailed : Bool

/-! ### Entries

An entry is the address of a table or a page, with flags in its low twelve bits.
-/

/-- The entry refers to something. -/
def ptePresent (e : Nat) : Prop := e &&& pteFlagPresent ≠ 0

/-- The entry allows writes. -/
def pteWritable (e : Nat) : Prop := e &&& pteFlagWritable ≠ 0

/-- The entry is the last one of its walk, at whatever level it stands. -/
def pteHuge (e : Nat) : Prop := e &&& pteFlagHuge ≠ 0

instance (e : Nat) : Decidable (ptePresent e) := inferInstanceAs (Decidable (_ ≠ _))

instance (e : Nat) : Decidable (pteWritable e) := inferInstanceAs (Decidable (_ ≠ _))

instance (e : Nat) : Decidable (pteHuge e) := inferInstanceAs (Decidable (_ ≠ _))

/-- The table or the page an entry refers to. -/
def pteAddr (e : Nat) : Nat := e &&& lnot64 0xFFF

/-- `table[i]`. -/
def readPte (s : Paging) (t : Nat) (i : PtIndex) : Nat := (s.mem t i).toNat

/-- `table[i] = e`. -/
def writePte (s : Paging) (t : Nat) (i : PtIndex) (e : Nat) : Paging :=
  { s with mem := Function.update s.mem t (Function.update (s.mem t) i (BitVec.ofNat 64 e)) }

/-- `PT_SHIFT`: the place of a level's nine bits in an address. -/
def ptShift (level : Nat) : Nat := 12 + 9 * level

/-- `PT_INDEX`: the place in a table of this level that an address selects. -/
def ptIndex (virt level : Nat) : PtIndex := ⟨(virt >>> ptShift level) % 512, Nat.mod_lt _ (by decide)⟩

/-- A fresh page of absent entries, or null. -/
def allocPtPage (s : Paging) : Paging × Nat :=
  let res := pmemAllocPage s.pm
  if res.2 = 0 then ({ s with pm := res.1, allocFailed := true }, 0)
  else ({ s with pm := res.1, mem := Function.update s.mem res.2 fun _ => 0 }, res.2)

/-! ### Walking

One step of the walk makes sure that there is an entry and goes to the table behind it.  It ends at
the lowest level, at a large page, or at the page directory when the caller asks for that.
-/

/-- Make sure the entry is present, creating a table if asked to. -/
def walkEnsure (s : Paging) (table : Nat) (i : PtIndex) (create : Bool) : Paging × Bool :=
  if ptePresent (readPte s table i) then (s, true) else
  if create = false then (s, false) else
  let res := allocPtPage s
  if res.2 = 0 then (res.1, false)
  else (writePte res.1 table i (res.2 ||| pteFlagPresent ||| pteFlagWritable), true)

/-- The loop of the walk from `level` down.  It returns the place of an entry. -/
def walkFrom (virt : Nat) (create stopAtPd : Bool) :
    Nat → Paging → Nat → Paging × Option (Nat × PtIndex)
  | level, s, table =>
      let i := ptIndex virt level
      let res := walkEnsure s table i create
      if res.2 = false then (res.1, none) else
      if stopAtPd = true ∧ level = ptLevelPd then (res.1, some (table, i)) else
      if pteHuge (readPte res.1 table i) then (res.1, some (table, i)) else
      match level with
      | 0 => (res.1, some (table, i))
      | level + 1 => walkFrom virt create stopAtPd level res.1 (pteAddr (readPte res.1 table i))

/-- `walk_page_table_ex`: the walk from the loaded space, down to the entry or, if asked for, to the
page directory. -/
def walkPageTableEx (s : Paging) (virt : Nat) (create stopAtPd : Bool) :
    Paging × Option (Nat × PtIndex) :=
  if s.pml4Table = 0 then (s, none)
  else walkFrom virt create stopAtPd ptLevelPml4 s s.pml4Table

/-- `walk_page_table`. -/
def walkPageTable (s : Paging) (virt : Nat) (create : Bool) : Paging × Option (Nat × PtIndex) :=
  walkPageTableEx s virt create false

/-! ### Mapping

The calls work on the loaded space, and fail before there is one.
-/

/-- `brights_paging_map`: one page of 4096 bytes.  What the entry held before is not looked at. -/
def pagingMap (s : Paging) (virt phys flags : Nat) : Paging × Int :=
  if s.pml4Table = 0 then (s, -1) else
  let virt := virt &&& lnot64 0xFFF
  let phys := phys &&& lnot64 0xFFF
  match walkPageTable s virt true with
  | (s, none) => (s, -1)
  | (s, some (t, i)) => (writePte s t i (phys ||| pteFlagPresent ||| flags), 0)

/-- `brights_paging_map_2m`: one page of 2 MB, which both addresses must be aligned to. -/
def pagingMap2m (s : Paging) (virt phys flags : Nat) : Paging × Int :=
  if s.pml4Table = 0 then (s, -1) else
  if virt &&& 0x1FFFFF ≠ 0 ∨ phys &&& 0x1FFFFF ≠ 0 then (s, -1) else
  match walkPageTableEx s virt true true with
  | (s, none) => (s, -1)
  | (s, some (t, i)) =>
      (writePte s t i ((phys &&& lnot64 0x1FFFFF) ||| pteFlagPresent ||| pteFlagHuge |||
        (flags &&& lnot64 pteFlagHuge)), 0)

/-- `brights_paging_unmap`.  Tables that are left without entries stay. -/
def pagingUnmap (s : Paging) (virt : Nat) : Paging :=
  if s.pml4Table = 0 then s else
  match walkPageTable s (virt &&& lnot64 0xFFF) false with
  | (s, none) => s
  | (s, some (t, i)) => if ptePresent (readPte s t i) then writePte s t i 0 else s

/-- `brights_paging_unmap_2m`: only an entry of a large page is cleared. -/
def pagingUnmap2m (s : Paging) (virt : Nat) : Paging :=
  if s.pml4Table = 0 then s else
  match walkPageTableEx s (virt &&& lnot64 0x1FFFFF) false true with
  | (s, none) => s
  | (s, some (t, i)) =>
      if ptePresent (readPte s t i) ∧ pteHuge (readPte s t i) then writePte s t i 0 else s

/-- The physical address behind an entry. -/
def physOf (e virt : Nat) : Nat :=
  if pteHuge e then (e &&& lnot64 0x1FFFFF) ||| (virt &&& 0x1FFFFF)
  else (e &&& lnot64 0xFFF) ||| (virt &&& 0xFFF)

/-- `brights_paging_virt_to_phys`; 0 is also what an address without a page gives. -/
def virtToPhys (s : Paging) (virt : Nat) : Nat :=
  if s.pml4Table = 0 then 0 else
  match (walkPageTable s virt false).2 with
  | none => 0
  | some (t, i) => if ptePresent (readPte s t i) then physOf (readPte s t i) virt else 0

/-- `cr3` is the register's value. -/
def pagingInit (s : Paging) (cr3 : Nat) : Paging := { s with pml4Table := cr3 &&& lnot64 0xFFF }

/-! ### Address spaces

The lower half of the top table, its first 256 entries, belongs to the process; the upper half is
the kernel's and the same in every space.
-/

/-- The indexes below `n`, in order. -/
def ptIndexes (n : Nat) : List PtIndex := (List.finRange 512).filter (·.val < n)

/-- The kernel half of the loaded space, copied into a new table.  No iteration of the loop reads
what another one writes, so all entries are copied at once. -/
def copyKernelHalf (s : Paging) (new : Nat) : Paging :=
  if s.pml4Table = 0 then s
  else { s with mem := Function.update s.mem new fun i =>
    if 256 ≤ i.val then s.mem s.pml4Table i else s.mem new i }

/-- `brights_paging_create_address_space`: a space with the kernel half of the loaded one, or null.
-/
def pagingCreateAddressSpace (s : Paging) : Paging × Nat :=
  let res := allocPtPage s
  if res.2 = 0 then (res.1, 0) else (copyKernelHalf res.1 res.2, res.2)

/-- Free a table and, above the lowest level, the tables its first `n` entries refer to. -/
def freePtTree : Nat → Nat → Nat → Paging → Paging
  | 0, _, table, s => { s with pm := pmemFreePage s.pm table }
  | level + 1, n, table, s =>
      let s := (ptIndexes n).foldl
        (fun s i =>
          let e := readPte s table i
          if ¬ ptePresent e then s else
          if pteHuge e then s else freePtTree level 512 (pteAddr e) s) s
      { s with pm := pmemFreePage s.pm table }

/-- `brights_paging_destroy_address_space`: the tables of the lower half are freed, the pages they
refer to are not. -/
def pagingDestroyAddressSpace (s : Paging) (cr3 : Nat) : Paging :=
  let pml4 := cr3 &&& lnot64 0xFFF
  if pml4 ≠ 0 then freePtTree ptLevelPml4 256 pml4 s else s

/-- Copy one entry of a page table, taking write permission from both sides. -/
def clonePte (src dst : Nat) (s : Paging) (m : PtIndex) : Paging :=
  let e := readPte s src m
  if ¬ ptePresent e then writePte s dst m e
  else
    let e := e &&& lnot64 pteFlagWritable
    writePte (writePte s src m e) dst m e

/-- Copy one entry of a table above the lowest level.  Huge pages are shared; behind any other
present entry the copy gets a table of its own, which `below` fills. -/
def cloneUpper (below : Nat → Nat → Paging → Paging) (src dst : Nat) (s : Paging) (i : PtIndex) :
    Paging :=
  let e := readPte s src i
  if ¬ ptePresent e then s else
  if pteHuge e then writePte s dst i e else
  let res := allocPtPage s
  if res.2 = 0 then writePte res.1 dst i 0 else
  below (pteAddr e) res.2 (writePte res.1 dst i (res.2 ||| (readPte res.1 src i &&& 0xFFF)))

/-- The nested loops of the clone: the first `n` entries of `src`, a table of the given level,
are copied into the new table `dst`. -/
def cloneTable : Nat → Nat → Nat → Nat → Paging → Paging
  | 0, n, src, dst, s => (ptIndexes n).foldl (clonePte src dst) s
  | level + 1, n, src, dst, s => (ptIndexes n).foldl (cloneUpper (cloneTable level 512) src dst) s

/-- `brights_paging_clone_address_space`: a table that cannot be had is left out, and the clone goes
on. -/
def pagingCloneAddressSpace (s : Paging) (srcCr3 : Nat) : Paging × Nat :=
  let src := srcCr3 &&& lnot64 0xFFF
  let res := allocPtPage s
  if res.2 = 0 then (res.1, 0) else
  (cloneTable ptLevelPml4 256 src res.2 (copyKernelHalf res.1 res.2), res.2)

/-- `brights_paging_mark_writable`: the end of copying on write. -/
def pagingMarkWritable (s : Paging) (virt : Nat) : Paging × Int :=
  match walkPageTable s (virt &&& lnot64 0xFFF) false with
  | (s, none) => (s, -1)
  | (s, some (t, i)) =>
      if ¬ ptePresent (readPte s t i) then (s, -1)
      else (writePte s t i (readPte s t i ||| pteFlagWritable), 0)

end BrightS
