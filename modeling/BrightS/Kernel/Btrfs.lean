/-
Creating files on btrfs.

A file becomes one node: a directory item, the name, an extent item and the data, packed one
after another.  Its address is taken from an allocator that only counts bytes, and the device
is written in whole blocks.

The allocator and the inode numbers are statics, so a creation is a function on them and on the
disk.  A node that is too long for the buffer of 4096 bytes is refused by its length as it is
counted, in 32 bits.
-/
import BrightS.Kernel.Path
import BrightS.Lib.Bytes

namespace BrightS

open Bytes

def blockSize : Nat := 4096

def btrfsSuperOffset : Nat := 0x10000
def btrfsInodeItemKey : Nat := 1

/-- A block device: the bytes of its blocks.  It takes every write; what the RAM disk does with a
write beyond its end is in `Ramdisk.btrfsRawWrite`. -/
abbrev Disk := Nat → Mem

/-- `dev->write`: `count` blocks from `src`. -/
def Disk.write (disk : Disk) (lba : Nat) (src : Mem) (count : Nat) : Disk :=
  fun b => if lba ≤ b ∧ b < lba + count then fun i => src ((b - lba) * blockSize + i) else disk b

/-- `dev->read`: the buffer that is filled. -/
def Disk.read (disk : Disk) (lba : Nat) : Mem := fun i => disk (lba + i / blockSize) (i % blockSize)

/-- The statics of the module that creating a file uses, and the root block device. -/
structure Btrfs where
  rootOk : Bool
  rootDirid : Nat
  nextIno : Nat
  nextFree : Nat
  disk : Option Disk

/-- A node as it was written: its address, and its bytes. -/
structure BtrfsNode where
  bytenr : Nat
  bytes : List Byte

/-- How many blocks `size` bytes take; the sum is one of 64 bits. -/
def blockCount (size : Nat) : Nat := (size + blockSize - 1) % 2 ^ 64 / blockSize

/-- Its status is ignored by the caller. -/
def btrfsRawWrite (fs : Btrfs) (bytenr : Nat) (src : Mem) (size : Nat) : Btrfs :=
  { fs with disk := fs.disk.map fun disk =>
      disk.write (bytenr / blockSize) src (blockCount size) }

/-- `brights_btrfs_raw_read`, without its size: what the blocks from the address on hold. -/
def btrfsRawRead (disk : Disk) (bytenr : Nat) : Mem := disk.read (bytenr / blockSize)

/-- `sb.total_bytes`, which is behind the checksum and nine other fields. -/
def superTotalBytes (disk : Disk) : Nat :=
  (load64 (disk (btrfsSuperOffset / blockSize)) 112).toNat

/-- Where the allocator starts: the second half of the disk. -/
def btrfsFirstFree (disk : Disk) : Nat := max (superTotalBytes disk / 2) (64 * 1024 * 1024)

/-- The address, which is 0 when the superblock cannot be read. -/
def btrfsAllocBlock (fs : Btrfs) (size : Nat) : Btrfs × Nat :=
  if fs.nextFree = 0 then
    match fs.disk with
    | none => (fs, 0)
    | some disk => ({ fs with nextFree := (btrfsFirstFree disk + size) % 2 ^ 64 }, btrfsFirstFree disk)
  else
    ({ fs with nextFree := (fs.nextFree + size) % 2 ^ 64 }, fs.nextFree)

/-- `stack` is what lies behind the node in the buffer of the caller. -/
def btrfsWriteTreeNode (fs : Btrfs) (bytes : List Byte) (stack : Mem) : Btrfs × Nat :=
  let (fs, bytenr) := btrfsAllocBlock fs bytes.length
  if bytenr = 0 then
    (fs, 0)
  else
    (btrfsRawWrite fs bytenr (onto bytes stack) bytes.length, bytenr)

/-- The bytes of the name that the directory item counts. -/
def btrfsNameBytes (name : CStr) : List Byte :=
  (name.take 255).map fun c => BitVec.ofNat 8 c.toNat

/-- The directory item in front of the name.  Its data length counts the extent item and the data.
-/
def btrfsDirItem (ino nameLen len : Nat) : List Byte :=
  store64 (BitVec.ofNat 64 ino) ++ [BitVec.ofNat 8 btrfsInodeItemKey] ++ store64 0 ++ store64 1 ++
    store16 (BitVec.ofNat 16 (53 + len)) ++ store16 (BitVec.ofNat 16 nameLen) ++ [0]

/-- The item behind the name: the data follows it in the node. -/
def btrfsExtentItem (len : Nat) : List Byte :=
  store64 1 ++ store64 (BitVec.ofNat 64 len) ++ [0] ++ [0] ++ store16 0 ++ [0] ++ store64 0 ++
    store64 0 ++ store64 0 ++ store64 (BitVec.ofNat 64 len)

/-- The data is copied as far as the buffer of 4096 bytes goes. -/
def btrfsNodeBytes (ino : Nat) (name : CStr) (data : Mem) (len : Nat) : List Byte :=
  let head := btrfsDirItem ino (btrfsNameBytes name).length len ++ btrfsNameBytes name ++
    btrfsExtentItem len
  head ++ slice data 0 (min len (4096 - head.length))

/-- The arguments of a creation; `stack` is what the buffer holds before it. -/
structure CreateFile where
  name : CStr
  data : Mem
  len : Nat
  len_lt : len < 2 ^ 64
  stack : Mem

/-- A `uint32_t`. -/
def CreateFile.totalSize (call : CreateFile) : Nat :=
  (30 + (btrfsNameBytes call.name).length + 53 + call.len) % 2 ^ 32

/-- The node that was written, none when -1 is returned. -/
def btrfsCreateFileInternal (fs : Btrfs) (call : CreateFile) : Btrfs × Option BtrfsNode :=
  if fs.rootOk = false then
    (fs, none)
  else
    let ino := if fs.nextIno = 0 then (fs.rootDirid + 256) % 2 ^ 64 else fs.nextIno
    let fs := { fs with nextIno := (ino + 1) % 2 ^ 64 }
    if 3000 < call.totalSize then
      (fs, none)
    else
      let bytes := btrfsNodeBytes ino call.name call.data call.len
      let (fs, bytenr) := btrfsWriteTreeNode fs bytes call.stack
      if bytenr = 0 then (fs, none) else (fs, some ⟨bytenr, bytes⟩)

end BrightS
