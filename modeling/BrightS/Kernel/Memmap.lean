/-
The memory map at boot: `arch/x86_64/uefi_memmap.c`.

The firmware lists the memory as descriptors, and the conventional ones are collected in a
table of regions.  A region that touches one in the table is taken into it, which may make that one
touch others; these stay apart.

Addresses and sizes are 64-bit values.  What the firmware answers is an argument: the two calls of
`GetMemoryMap` and the one of `AllocatePages`.
-/
import BrightS.Kernel.Pmem

namespace BrightS

/-- `EfiConventionalMemory` -/
def efiConventionalMemory : Nat := 7

/-- The members of `EFI_MEMORY_DESCRIPTOR` that are read. -/
structure EfiMemoryDescriptor where
  type : Nat
  physicalStart : Nat
  numberOfPages : Nat

/-- `regions` are the entries of the table that are in use. -/
structure MemmapInfo where
  regions : List MemRegion
  totalBytes : Nat
  mapKey : Nat
  descSize : Nat
  descVer : Nat

/-- The loop of `add_region`: the first region that the new one touches takes it in. -/
def mergeRegion (base size : Nat) : List MemRegion → Option (List MemRegion)
  | [] => none
  | r :: rest =>
      let curEnd := (r.base + r.size) % 2 ^ 64
      let newEnd := (base + size) % 2 ^ 64
      if newEnd < r.base ∨ curEnd < base then (mergeRegion base size rest).map (r :: ·)
      else
        let curBase := if base < r.base then base else r.base
        let curEnd := if curEnd < newEnd then newEnd else curEnd
        some ({ base := curBase, size := Words.sub64 curEnd curBase } :: rest)

/-- `add_region`: a region that touches none of those there is appended, as long as there is room.
-/
def addRegion (out : MemmapInfo) (base size : Nat) : MemmapInfo :=
  if size = 0 then out else
  let out := { out with totalBytes := (out.totalBytes + size) % 2 ^ 64 }
  match mergeRegion base size out.regions with
  | some regions => { out with regions := regions }
  | none =>
      if maxMemRegions ≤ out.regions.length then out
      else { out with regions := out.regions ++ [{ base := base, size := size }] }

/-- One round of the loop over the descriptors. -/
def parseDescriptor (out : MemmapInfo) (d : EfiMemoryDescriptor) : MemmapInfo :=
  if d.type ≠ efiConventionalMemory then out
  else addRegion out d.physicalStart (d.numberOfPages * 4096 % 2 ^ 64)

/-- What the firmware answers: the status and the size of the map without a buffer, the status of
the allocation, and the second call with the map. -/
structure MemmapAnswers where
  sizeStatus : Nat
  sizeMapSize : Nat
  allocStatus : Nat
  status : Nat
  mapSize : Nat
  mapKey : Nat
  descSize : Nat
  descVer : Nat
  map : Nat → EfiMemoryDescriptor

/-- What is there before the first descriptor. -/
def emptyMemmap : MemmapInfo :=
  { regions := [], totalBytes := 0, mapKey := 0, descSize := 0, descVer := 0 }

/-- The descriptors that the loop goes through. -/
def MemmapAnswers.descriptors (fw : MemmapAnswers) : List EfiMemoryDescriptor :=
  (List.range (fw.mapSize / fw.descSize)).map fw.map

/-- `brights_uefi_parse_memmap`: -1 when the firmware refuses a call, or when no region was found.
-/
def uefiParseMemmap (fw : MemmapAnswers) : MemmapInfo × Int :=
  if fw.sizeStatus = 0 ∧ fw.sizeMapSize = 0 then (emptyMemmap, -1) else
  if fw.allocStatus ≠ 0 then (emptyMemmap, -1) else
  if fw.status ≠ 0 then (emptyMemmap, -1) else
  let out := fw.descriptors.foldl parseDescriptor emptyMemmap
  ({ out with mapKey := fw.mapKey, descSize := fw.descSize, descVer := fw.descVer },
    if 0 < out.regions.length then 0 else -1)

end BrightS
