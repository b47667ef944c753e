/-
The ELF loader: `kernel/elf.c`.

The headers are checked, then each loadable segment is mapped page by page with its data copied
into the pages, and at the end a page with the program headers and the stack.  A failure stops the
loader where it is; what was mapped stays mapped.

An image is memory from `buf` on, of which the first `size` bytes are the file; offsets
are `uint64_t` and wrap, so that a large one reads memory before the file.  The loader
gets pages from the allocator, writes them at their physical addresses and maps them
into the loaded address space.

`trace` records, newest first, what the loader reads of the image, which pages it gets
and what it writes.  No code reads it.
-/
import BrightS.Kernel.Paging
import BrightS.Lib.Bytes
import BrightS.Lib.Loops

namespace BrightS

open Bytes Loops Words

def userStackPages : Nat := 16
def userStackTop : Nat := 0x00007FFFFFFFFFFF

def elfEhdrSize : Nat := 64
def elfPhdrSize : Nat := 56

def elfTypeExec : BitVec 16 := 2
def elfTypeDyn : BitVec 16 := 3
def elfMachX86 : BitVec 16 := 0x3E
def ptLoad : BitVec 32 := 1
def pfW : BitVec 32 := 2

/-- The macros for pages; the sum wraps around. -/
def alignDown4k (v : Nat) : Nat := v &&& lnot64 0xFFF

def alignUp4k (v : Nat) : Nat := ((v + 0xFFF) % 2 ^ 64) &&& lnot64 0xFFF

/-! ### Images

The headers as they are read from the image.  Fields that the loader does not look at are left out.
-/

/-- The bytes from the start of the file on, and what is behind it; `size` is what the caller says.
-/
structure ElfImage where
  buf : Mem
  size : Word

/-- The byte at an offset. -/
def ElfImage.byte (img : ElfImage) (off : Nat) : Byte := img.buf (off % 2 ^ 64)

/-- The fields of the file header that the loader looks at; `ident` are the first six bytes. -/
structure ElfEhdr where
  ident : List Byte
  type : BitVec 16
  machine : BitVec 16
  entry : Word
  phoff : Word
  phentsize : BitVec 16
  phnum : BitVec 16

/-- The file header, field by field. -/
def elfEhdrAt (m : Mem) : ElfEhdr :=
  { ident := slice m 0 6, type := load16 m 16, machine := load16 m 18, entry := load64 m 24,
    phoff := load64 m 32, phentsize := load16 m 54, phnum := load16 m 56 }

/-- The fields of a program header that the loader looks at. -/
structure ElfPhdr where
  type : BitVec 32
  flags : BitVec 32
  offset : Word
  vaddr : Word
  filesz : Word
  memsz : Word

/-- A program header, field by field. -/
def elfPhdrAt (m : Mem) : ElfPhdr :=
  { type := load32 m 0, flags := load32 m 4, offset := load64 m 8, vaddr := load64 m 16,
    filesz := load64 m 32, memsz := load64 m 40 }

/-- The header of the file. -/
def ElfImage.ehdr (img : ElfImage) : ElfEhdr := elfEhdrAt img.byte

/-- The offset of program header `i`. -/
def ElfImage.phdrOff (img : ElfImage) (i : Nat) : Nat :=
  (img.ehdr.phoff.toNat + i * elfPhdrSize) % 2 ^ 64

/-- Program header `i`.  Its bytes may be before or behind the file. -/
def ElfImage.phdr (img : ElfImage) (i : Nat) : ElfPhdr :=
  elfPhdrAt fun k => img.byte (img.phdrOff i + k)

/-- The checks of the header. -/
def elfValid (img : ElfImage) : Bool :=
  let eh := img.ehdr
  eh.ident == [0x7F, 0x45, 0x4C, 0x46, 2, 1] && eh.machine == elfMachX86 &&
    (eh.type == elfTypeExec || eh.type == elfTypeDyn) && eh.entry != 0 &&
    eh.phoff != 0 && eh.phnum != 0 && eh.phentsize.toNat == elfPhdrSize &&
    decide ((eh.phoff.toNat + eh.phnum.toNat * eh.phentsize.toNat) % 2 ^ 64 ≤ img.size.toNat)

/-! ### Segments

A segment is loaded page by page, from the page of its start to the page of its end.
-/

/-- The end of a segment, which wraps around. -/
def ElfPhdr.segEnd (ph : ElfPhdr) : Nat := (ph.vaddr.toNat + ph.memsz.toNat) % 2 ^ 64

/-- The first page of a segment. -/
def ElfPhdr.pageStart (ph : ElfPhdr) : Nat := alignDown4k ph.vaddr.toNat

/-- How many pages a segment has; an end that wraps leaves a difference of 64 bits. -/
def ElfPhdr.numPages (ph : ElfPhdr) : Nat := sub64 (alignUp4k ph.segEnd) ph.pageStart / 4096

/-- The address of page `pg` of a segment. -/
def ElfPhdr.pageAddr (ph : ElfPhdr) (pg : Nat) : Nat := (ph.pageStart + pg * 4096) % 2 ^ 64

/-- User pages, writable when the segment is. -/
def ElfPhdr.pteFlags (ph : ElfPhdr) : Nat :=
  if ph.flags &&& pfW != 0 then pteFlagPresent ||| pteFlagUser ||| pteFlagWritable
  else pteFlagPresent ||| pteFlagUser

/-- The part of the page at `va` that gets bytes of the file: its first address and its end. -/
def ElfPhdr.copyStart (ph : ElfPhdr) (va : Nat) : Nat :=
  if va < ph.vaddr.toNat then ph.vaddr.toNat else va

/-- The end of that part: of the page, or of the data of the segment. -/
def ElfPhdr.copyEnd (ph : ElfPhdr) (va : Nat) : Nat :=
  let copyEndVaddr := (va + 4096) % 2 ^ 64
  let segDataEnd := (ph.vaddr.toNat + ph.filesz.toNat) % 2 ^ 64
  if segDataEnd < copyEndVaddr then segDataEnd else copyEndVaddr

/-- The end of the highest segment. -/
def elfMaxVaddr (phdrs : List ElfPhdr) : Nat :=
  phdrs.foldl (fun maxVaddr ph =>
    if ph.type ≠ ptLoad then maxVaddr else
    if maxVaddr < ph.segEnd then ph.segEnd else maxVaddr) 0

/-! ### Memory

A page that the allocator gives is written at its physical address before it is mapped.
-/

/-- What the loader does: it reads the image, gets a page, or writes to memory. -/
inductive ElfEvent where
  | read (off len : Nat)
  | alloc (page : Nat)
  | write (addr len : Nat)

/-- The machine while an image is loaded.  `data` is physical memory. -/
structure ElfLoad where
  paging : Paging
  data : Mem
  trace : List ElfEvent

/-- An event comes to the trace. -/
def ElfLoad.note (st : ElfLoad) (e : ElfEvent) : ElfLoad := { st with trace := e :: st.trace }

/-- `kutil_memset` with zero. -/
def ElfLoad.zero (st : ElfLoad) (addr len : Nat) : ElfLoad :=
  { st with
    data := fun a => if addr ≤ a ∧ a < addr + len then 0 else st.data a
    trace := .write addr len :: st.trace }

/-- `kutil_memcpy` from an offset of the image. -/
def ElfLoad.copy (st : ElfLoad) (img : ElfImage) (addr off len : Nat) : ElfLoad :=
  { st with
    data := fun a => if addr ≤ a ∧ a < addr + len then img.byte (off + (a - addr)) else st.data a
    trace := .write addr len :: .read off len :: st.trace }

/-! ### Loading

Each step says whether it went well, and the first that did not ends the load.
-/

/-- A new page, zeroed and filled, is mapped at `va`. -/
def elfMapPage (st : ElfLoad) (va flags : Nat) (fill : ElfLoad → Nat → ElfLoad) :
    ElfLoad × Bool :=
  let res := pmemAllocPage st.paging.pm
  let st := { st with paging := { st.paging with pm := res.1 } }
  if res.2 = 0 then (st, false) else
  let st := fill ((st.note (.alloc res.2)).zero res.2 4096) res.2
  let mapped := pagingMap st.paging va res.2 flags
  ({ st with paging := mapped.1 }, decide (mapped.2 = 0))

/-- Copy the file data for the page at `va`. -/
def elfFill (img : ElfImage) (ph : ElfPhdr) (va : Nat) (st : ElfLoad) (page : Nat) : ElfLoad :=
  if ph.filesz = 0 then st else
  if ph.copyStart va < ph.copyEnd va then
    st.copy img (page + (ph.copyStart va - va))
      ((ph.offset.toNat + (ph.copyStart va - ph.vaddr.toNat)) % 2 ^ 64)
      (ph.copyEnd va - ph.copyStart va)
  else st

/-- Segments that are not loaded or have no memory are skipped. -/
def elfSegment (img : ElfImage) (st : ElfLoad) (ph : ElfPhdr) : ElfLoad × Bool :=
  if ph.type ≠ ptLoad then (st, true) else
  if ph.memsz = 0 then (st, true) else
  if img.size.toNat < (ph.offset.toNat + ph.filesz.toNat) % 2 ^ 64 then (st, false) else
  attempt (fun st pg => elfMapPage st (ph.pageAddr pg) ph.pteFlags (elfFill img ph (ph.pageAddr pg)))
    (List.range ph.numPages) st

/-- What the caller of the loader is told. -/
structure ElfLoadInfo where
  entry : Word
  stackTop : Nat
  phdr : Nat
  phnum : Nat
  phentsize : Nat

/-- Where the program headers go: the first page behind all segments. -/
def elfPhdrVaddr (maxVaddr : Nat) : Nat :=
  let phdrUserVaddr := alignUp4k maxVaddr
  alignUp4k (if phdrUserVaddr < maxVaddr then maxVaddr else phdrUserVaddr)

/-- The lowest page of the stack. -/
def elfStackBase : Nat := alignDown4k (userStackTop - userStackPages * 4096)

/-- All program headers. -/
def ElfImage.phdrs (img : ElfImage) : List ElfPhdr :=
  (List.range img.ehdr.phnum.toNat).map img.phdr

/-- A look at program header `i`. -/
def ElfLoad.look (st : ElfLoad) (img : ElfImage) (i : Nat) : ElfLoad :=
  st.note (.read (img.phdrOff i) elfPhdrSize)

/-- The page with the program headers, behind the segments. -/
def elfMapPhdrs (img : ElfImage) (st : ElfLoad) : ElfLoad × Bool :=
  elfMapPage st (elfPhdrVaddr (elfMaxVaddr img.phdrs)) (pteFlagPresent ||| pteFlagUser)
    fun st page => st.copy img page (img.phdrOff 0) (img.ehdr.phnum.toNat * elfPhdrSize)

/-- The pages of the stack, zeroed. -/
def elfMapStack (st : ElfLoad) : ElfLoad × Bool :=
  attempt (fun st i => elfMapPage st (elfStackBase + i * 4096)
    (pteFlagPresent ||| pteFlagWritable ||| pteFlagUser) fun st _ => st)
    (List.range userStackPages) st

/-- The two passes over the program headers: the first finds the end of the segments, the second
maps them. -/
def elfSegments (img : ElfImage) (st : ElfLoad) : ElfLoad × Bool :=
  let st := (List.range img.ehdr.phnum.toNat).foldl (fun st i => st.look img i) st
  attempt (fun st i => elfSegment img (st.look img i) (img.phdr i))
    (List.range img.ehdr.phnum.toNat) st

/-- `brights_elf_load`: the header is checked, and then the segments, the program headers and the
stack are mapped.  A failure leaves what was mapped so far. -/
def elfLoad (img : ElfImage) (st : ElfLoad) : ElfLoad × Option ElfLoadInfo :=
  if img.size.toNat < elfEhdrSize then (st, none) else
  let st := st.note (.read 0 elfEhdrSize)
  if elfValid img = false then (st, none) else
  let segments := elfSegments img st
  if segments.2 = false then (segments.1, none) else
  let phdrs := elfMapPhdrs img segments.1
  if phdrs.2 = false then (phdrs.1, none) else
  let stack := elfMapStack phdrs.1
  if stack.2 = false then (stack.1, none) else
  (stack.1, some {
    entry := img.ehdr.entry
    stackTop := elfStackBase + userStackPages * 4096
    phdr := elfPhdrVaddr (elfMaxVaddr img.phdrs)
    phnum := img.ehdr.phnum.toNat
    phentsize := img.ehdr.phentsize.toNat })

end BrightS
