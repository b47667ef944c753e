/-
Reading the trees of btrfs: `kernel/fs/btrfs.c`.

A node is a header, and behind it items or pointers to other nodes; an item points to its data in
the same node.  Addresses in the trees are logical, and the chunks of the superblock say where that
is on the device.  A walk looks for a name in a directory, or for the data of a file, in one leaf
after another.

Lengths, offsets and pointers are those of the disk, and the code believes them.  `none` is a read
outside the buffer, or a walk that has not come to its end.
-/
import BrightS.Kernel.Btrfs
import BrightS.Lib.Memory
import BrightS.Lib.Records
import BrightS.Lib.Scan

namespace BrightS

open Bytes Records Scans

def btrfsMaxNode : Nat := 16384
def btrfsMaxChunks : Nat := 32
def btrfsChunkItemKey : Nat := 0xE
def btrfsDirItemKey : Nat := 84
def btrfsExtentDataKey : Nat := 108

/-- The sizes of the packed structures. -/
def btrfsHeaderSize : Nat := 101
def btrfsItemSize : Nat := 25
def btrfsKeyPtrSize : Nat := 33
def btrfsKeySize : Nat := 17
def btrfsChunkSize : Nat := 48
def btrfsStripeSize : Nat := 16
def btrfsDirItemSize : Nat := 30
def btrfsFileExtentItemSize : Nat := 53

/-- Where the bytes of a range of logical addresses are on the device. -/
structure ChunkMap where
  logical : Nat
  length : Nat
  physical : Nat

/-- The statics of the module.  `read` is that of the root block device: the blocks from an address
on, and their number; none is an error. -/
structure BtrfsVolume where
  nodesize : Nat
  chunkMap : List ChunkMap
  read : Nat → Nat → Option Mem

/-- A byte of a node as a number; `halfAt` and `dwordAt` read two and four bytes of it. -/
def byteAt (m : Mem) (a : Nat) : Nat := (m a).toNat
def halfAt (m : Mem) (a : Nat) : Nat := (load16 m a).toNat
def dwordAt (m : Mem) (a : Nat) : Nat := (load32 m a).toNat

/-! ### The system chunk array

The superblock ends with the chunks that the trees lie in.  Each record is a key, a chunk and its
stripes, and the loop believes the number of stripes.
-/

def sysChunkArraySize : Nat := 2048

/-- A full table takes no more chunks, and nobody is told. -/
def chunkMapAdd (map : List ChunkMap) (chunk : ChunkMap) : List ChunkMap :=
  if btrfsMaxChunks ≤ map.length then map else map ++ [chunk]

/-- The `while` loop of `parse_sys_chunk_array`, for at most `fuel` rounds.  `size` is what the
superblock says of the array. -/
def sysChunkLoop (array : Mem) (size : Nat) : Nat → Nat → List ChunkMap → Option (List ChunkMap)
  | 0, _, _ => none
  | fuel + 1, off, map =>
      if off + btrfsKeySize + btrfsChunkSize ≤ size then
        let key := off
        let chunk := (key + btrfsKeySize) % 2 ^ 32
        let stripe := (chunk + btrfsChunkSize) % 2 ^ 32
        (fetch sysChunkArraySize (key + 8) 1 (byteAt array (key + 8))).bind fun type =>
        if type ≠ btrfsChunkItemKey then some map else
        (fetch sysChunkArraySize (chunk + 44) 2 (halfAt array (chunk + 44))).bind fun numStripes =>
        (fetch sysChunkArraySize (key + 9) 8 (word array (key + 9))).bind fun logical =>
        (fetch sysChunkArraySize chunk 8 (word array chunk)).bind fun length =>
        (fetch sysChunkArraySize (stripe + 8) 8 (word array (stripe + 8))).bind fun physical =>
        sysChunkLoop array size fuel ((stripe + btrfsStripeSize * numStripes) % 2 ^ 32)
          (chunkMapAdd map ⟨logical, length, physical⟩)
      else some map

/-- The map, and the result. -/
def parseSysChunkArray (array : Mem) (size : Nat) : Option (List ChunkMap × Int) :=
  (sysChunkLoop array size (sysChunkArraySize + 1) 0 []).map fun map =>
    (map, if 0 < map.length then 0 else -1)

/-- An address that no chunk holds is taken as it is. -/
def mapLogical (map : List ChunkMap) (logical : Nat) : Nat :=
  match map.find? fun c => c.logical ≤ logical && logical < (c.logical + c.length) % 2 ^ 64 with
  | some c => (c.physical + (logical - c.logical)) % 2 ^ 64
  | none => logical

/-! ### Nodes

A node is read into a buffer, and its header says how many items or pointers follow it.  Nothing is
compared with the size of the node.
-/

/-- The node at a physical address.  A node size that exceeds the buffer is an error, as is a read
that fails. -/
def readTreeNode (v : BtrfsVolume) (bytenr : Nat) : Option Mem :=
  if btrfsMaxNode < v.nodesize then none else v.read (bytenr / blockSize) (blockCount v.nodesize)

/-- The number of items, and below it the level, as the header has them. -/
def nodeItems (node : Mem) : Nat := dwordAt node 96
def nodeLevel (node : Mem) : Nat := byteAt node 100

/-- Where item `i` starts, and its fields: the key, and the offset and size of its data. -/
def itemAt (i : Nat) : Nat := btrfsHeaderSize + btrfsItemSize * i
def itemObjectid (node : Mem) (i : Nat) : Nat := word node (itemAt i)
def itemType (node : Mem) (i : Nat) : Nat := byteAt node (itemAt i + 8)
def itemOffset (node : Mem) (i : Nat) : Nat := dwordAt node (itemAt i + 17)
def itemSize (node : Mem) (i : Nat) : Nat := dwordAt node (itemAt i + 21)

/-- Where the address in key pointer `i` is, and that address. -/
def blockptrAt (i : Nat) : Nat := btrfsHeaderSize + btrfsKeyPtrSize * i + 17
def blockptr (node : Mem) (i : Nat) : Nat := word node (blockptrAt i)

/-- The walk over a tree, at most `fuel` levels deep: the nodes below a node one after the other,
until a leaf returns something. -/
def fsTreeWalk {ρ : Type} (v : BtrfsVolume) (leaf : Mem → Option (Option ρ)) :
    Nat → Nat → Option (Option ρ)
  | 0, _ => none
  | fuel + 1, bytenr =>
      match readTreeNode v (mapLogical v.chunkMap bytenr) with
      | none => some none
      | some node =>
          (fetch v.nodesize 100 1 (nodeLevel node)).bind fun level =>
          if level = 0 then leaf node else
          (fetch v.nodesize 96 4 (nodeItems node)).bind fun nritems =>
          scan (fun i => (fetch v.nodesize (blockptrAt i) 8 (blockptr node i)).bind
            (fsTreeWalk v leaf fuel)) (List.range nritems)

/-- The loop over the items of a leaf. -/
def leafItems {ρ : Type} (v : BtrfsVolume) (node : Mem) (item : Nat → Option (Option ρ)) :
    Option (Option ρ) :=
  (fetch v.nodesize 96 4 (nodeItems node)).bind fun nritems => scan item (List.range nritems)

/-! ### Looking for a name

An item of a directory holds one directory item after another, each with the name behind it.
-/

/-- The fields of a directory item: the inode and the lengths of its data and of its name. -/
def dirItemIno (node : Mem) (off : Nat) : Nat := word node off
def dirItemDataLen (node : Mem) (off : Nat) : Nat := halfAt node (off + 25)
def dirItemNameLen (node : Mem) (off : Nat) : Nat := halfAt node (off + 27)

/-- The `for` loop that compares the name with `n` bytes, from byte `j` on. -/
def entryMatches (limit : Nat) (node : Mem) (name : List Byte) (entry : Nat) :
    Nat → Nat → Option Bool
  | 0, _ => some true
  | n + 1, j =>
      if name.getD j 0 = 0 then some false else
      (fetch limit (entry + j) 1 (node (entry + j))).bind fun b =>
      if name.getD j 0 ≠ b then some false else entryMatches limit node name entry n (j + 1)

/-- The `while` loop over the directory items in an item, for at most `fuel` of them. -/
def dirItemLoop (limit : Nat) (node : Mem) (name : List Byte) (itemEnd : Nat) :
    Nat → Nat → Option (Option (Option Nat))
  | 0, _ => none
  | fuel + 1, off =>
      if off + btrfsDirItemSize ≤ itemEnd then
        (fetch limit (off + 27) 2 (dirItemNameLen node off)).bind fun nameLen =>
        if nameLen = 0 then some (some none) else
        (entryMatches limit node name (off + btrfsDirItemSize) nameLen 0).bind fun found =>
        if found = true ∧ name.getD nameLen 0 = 0 then
          (fetch limit off 8 (dirItemIno node off)).map fun ino => some (some ino)
        else
          (fetch limit (off + 25) 2 (dirItemDataLen node off)).bind fun dataLen =>
          dirItemLoop limit node name itemEnd fuel
            ((off + btrfsDirItemSize + (nameLen + dataLen)) % 2 ^ 32)
      else some none

/-- One round of the loop over the items. -/
def findInItem (v : BtrfsVolume) (node : Mem) (dirObjectid : Nat) (name : List Byte) (i : Nat) :
    Option (Option (Option Nat)) :=
  (fetch v.nodesize (itemAt i) 8 (itemObjectid node i)).bind fun objectid =>
  if objectid ≠ dirObjectid then some none else
  (fetch v.nodesize (itemAt i + 8) 1 (itemType node i)).bind fun type =>
  if type ≠ btrfsDirItemKey then some none else
  (fetch v.nodesize (itemAt i + 17) 4 (itemOffset node i)).bind fun off =>
  (fetch v.nodesize (itemAt i + 21) 4 (itemSize node i)).bind fun size =>
  dirItemLoop v.nodesize node name ((off + size) % 2 ^ 32) (v.nodesize + 1) off

/-- The inode, none when -1 is returned. -/
def fsTreeFindInodeByNameLeaf (v : BtrfsVolume) (dirObjectid : Nat) (name : List Byte)
    (node : Mem) : Option (Option Nat) :=
  (leafItems v node (findInItem v node dirObjectid name)).map Option.join

/-- The lookup below the node at an address, for at most so many levels. -/
def fsTreeFindInodeByName (v : BtrfsVolume) (dirObjectid : Nat) (name : List Byte) :
    Nat → Nat → Option (Option Nat) :=
  fsTreeWalk v (fsTreeFindInodeByNameLeaf v dirObjectid name)

/-! ### Reading a file

The first extent of the inode decides: one with its data in the node is printed, one with its data
elsewhere is read from the device.
-/

/-- The fields of a file extent item that are looked at. -/
def extentType (node : Mem) (off : Nat) : Nat := byteAt node (off + 20)
def extentDiskBytenr (node : Mem) (off : Nat) : Nat := word node (off + 21)

/-- One round of the loop over the items: the bytes that are printed.  The data of a regular extent
is read into 256 bytes in whole blocks, which runs over their end. -/
def readInItem (v : BtrfsVolume) (inodeObjectid : Nat) (node : Mem) (i : Nat) :
    Option (Option (List Byte)) :=
  (fetch v.nodesize (itemAt i) 8 (itemObjectid node i)).bind fun objectid =>
  if objectid ≠ inodeObjectid then some none else
  (fetch v.nodesize (itemAt i + 8) 1 (itemType node i)).bind fun type =>
  if type ≠ btrfsExtentDataKey then some none else
  (fetch v.nodesize (itemAt i + 17) 4 (itemOffset node i)).bind fun off =>
  (fetch v.nodesize (off + 20) 1 (extentType node off)).bind fun extType =>
  if extType = 0 then
    (fetch v.nodesize (itemAt i + 21) 4 (itemSize node i)).bind fun size =>
    let dataLen := (size + (2 ^ 32 - btrfsFileExtentItemSize)) % 2 ^ 32
    let data := off + btrfsFileExtentItemSize
    ((List.range (min dataLen 128)).mapM fun j =>
      fetch v.nodesize (data + j) 1 (node (data + j))).map some
  else if extType = 1 then
    (fetch v.nodesize (off + 21) 8 (extentDiskBytenr node off)).bind fun diskBytenr =>
    match v.read (mapLogical v.chunkMap diskBytenr / blockSize) (blockCount 256) with
    | none => some (some [])
    | some _ => none
  else some none

/-- The bytes of the file that are printed when this leaf has its extent. -/
def fsTreeReadFileLeaf (v : BtrfsVolume) (inodeObjectid : Nat) (node : Mem) :
    Option (Option (List Byte)) :=
  leafItems v node (readInItem v inodeObjectid node)

/-- The same below the node at an address, for at most so many levels. -/
def fsTreeReadFile (v : BtrfsVolume) (inodeObjectid : Nat) : Nat → Nat → Option (Option (List Byte)) :=
  fsTreeWalk v (fsTreeReadFileLeaf v inodeObjectid)

end BrightS
