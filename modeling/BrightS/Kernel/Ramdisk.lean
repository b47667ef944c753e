/-
The RAM disk, `drivers/ramdisk.c`, and how `kernel/fs/btrfs.c` reads and writes it.

The disk is a piece of memory, read and written in blocks of `blockSize` bytes.  The file system
names bytes, and rounds the range down to a block at its start and up to one at its end.

Offsets are 64-bit numbers.  A call that gets past the check of its range with a sum that has
wrapped runs over the end of the storage and is undefined, `none`.
-/
import BrightS.Kernel.Btrfs
import BrightS.Lib.Memory

namespace BrightS

open Bytes

/-- `ram_base` and `ram_size`. -/
structure Ramdisk where
  size : Nat
  size_lt : size < 2 ^ 64
  data : Mem

/-- The buffer afterwards, and the result. -/
def ramdiskRead (disk : Ramdisk) (lba : Nat) (buf : Mem) (count : Nat) : Option (Mem × Int) :=
  let offset := lba * blockSize % 2 ^ 64
  let bytes := count * blockSize % 2 ^ 64
  if disk.size < (offset + bytes) % 2 ^ 64 then some (buf, -1) else
  if disk.size < offset + bytes then none else
  some (copyFrom buf 0 disk.data offset bytes, 0)

/-- The disk afterwards, and the result. -/
def ramdiskWrite (disk : Ramdisk) (lba : Nat) (buf : Mem) (count : Nat) :
    Option (Ramdisk × Int) :=
  let offset := lba * blockSize % 2 ^ 64
  let bytes := count * blockSize % 2 ^ 64
  if disk.size < (offset + bytes) % 2 ^ 64 then some (disk, -1) else
  if disk.size < offset + bytes then none else
  some ({ disk with data := copyFrom disk.data offset buf 0 bytes }, 0)

namespace Ramdisk

/-- `brights_btrfs_raw_read` from the root device. -/
def btrfsRawRead (root : Option Ramdisk) (bytenr : Nat) (dst : Mem) (size : Nat) :
    Option (Mem × Int) :=
  match root with
  | none => some (dst, -1)
  | some disk => ramdiskRead disk (bytenr / blockSize) dst (blockCount size)

/-- `brights_btrfs_raw_write` to the root device. -/
def btrfsRawWrite (root : Option Ramdisk) (bytenr : Nat) (src : Mem) (size : Nat) :
    Option (Option Ramdisk × Int) :=
  match root with
  | none => some (none, -1)
  | some disk =>
      (ramdiskWrite disk (bytenr / blockSize) src (blockCount size)).map fun r => (some r.1, r.2)

end Ramdisk

end BrightS
