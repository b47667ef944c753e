/-
The RAM file system behind the VFS: `kernel/fs/ramfs_vfs.c`, and what the calls of
`kernel/fs/vfs2.c` that take a path do on it.

An inode holds a copy of what its entry looked like when it was last looked up.  A
pointer to inode `k` is written `k + 1`, the pointer to `ramfs_file_ops` is
`ramfsFops`.  A path is what resolution hands over to the file system; `none` stands for
one that led nowhere.  The `close` operation does nothing.
-/
import BrightS.Kernel.FileIo
import BrightS.Kernel.Ramfs

namespace BrightS

def ramfsVfsMaxInodes : Nat := 64
def vfsIfDir : Nat := 0x4000
def vfsOCreat : Nat := 0x40
def ramfsFops : Nat := 1

/-- The members of `vfs_inode_t` that are read. -/
structure VfsInode where
  mode : Nat
  size : Nat
  fsPrivate : Nat

/-- The RAM file system with its inodes, and the terminal. -/
structure RamfsVfs (T : Type) where
  fs : Ramfs
  ramfsVfsInodes : Nat → VfsInode
  tty : T

variable {T : Type}

/-- An inode gets new contents. -/
def RamfsVfs.setInode (w : RamfsVfs T) (k : Nat) (ino : VfsInode) : RamfsVfs T :=
  { w with ramfsVfsInodes := Function.update w.ramfsVfsInodes k ino }

/-- An inode gets a new size. -/
def RamfsVfs.setSize (w : RamfsVfs T) (k size : Nat) : RamfsVfs T :=
  w.setInode k { w.ramfsVfsInodes k with size := size }

/-! ### Operations on open files

A file has its entry in `privateData` and its inode beside it.
-/

/-- `ramfs_vfs_read`: from the position on, which moves on by what was read. -/
def ramfsVfsRead (w : RamfsVfs T) (f : VfsFile) (count : Nat) :
    IoResult (RamfsVfs T) × List UInt8 :=
  if f.inode = 0 then (⟨w, f.pos, -1⟩, []) else
  let (n, bytes) := ramfsRead w.fs (toFd f.privateData) f.pos count
  (⟨w, if 0 < n then (f.pos + n.toNat) % 2 ^ 64 else f.pos, n⟩, bytes)

/-- `ramfs_vfs_write`: the size of the inode grows with the entry's. -/
def ramfsVfsWrite (w : RamfsVfs T) (f : VfsFile) (buf : List UInt8) :
    Option (IoResult (RamfsVfs T)) :=
  if f.inode = 0 then some ⟨w, f.pos, -1⟩ else
  (ramfsWrite w.fs (toFd f.privateData) f.pos buf).map fun r =>
    let w := { w with fs := r.1 }
    if 0 < r.2 then
      let sz := ramfsFileSize r.1 (toFd f.privateData)
      ⟨if (w.ramfsVfsInodes (f.inode - 1)).size < sz then w.setSize (f.inode - 1) sz else w,
        (f.pos + r.2.toNat) % 2 ^ 64, r.2⟩
    else ⟨w, f.pos, r.2⟩

/-- `ramfs_vfs_lseek`: the end is the inode's size. -/
def ramfsVfsLseek (w : RamfsVfs T) (f : VfsFile) (offset whence : Int) : IoResult (RamfsVfs T) :=
  if f.inode = 0 then ⟨w, f.pos, -1⟩ else
  match seekTarget f.pos (w.ramfsVfsInodes (f.inode - 1)).size offset whence with
  | none => ⟨w, f.pos, -1⟩
  | some pos => ⟨w, pos, toI64 pos⟩

/-- `ramfs_file_ops`. -/
def ramfsFileOps : FileOps (RamfsVfs T) :=
  { read := some ramfsVfsRead, write := some ramfsVfsWrite, lseek := some ramfsVfsLseek }

/-- The RAM file system is the only one; `getc` and `putc` are the terminal. -/
def ramfsEnv (getc : T → T × UInt8) (putc : T → UInt8 → T) : IoEnv (RamfsVfs T) where
  fileOps _ := ramfsFileOps
  inodeSize w inode := (w.ramfsVfsInodes (inode - 1)).size
  ttyReadChar w := ({ w with tty := (getc w.tty).1 }, (getc w.tty).2)
  serialWrite w c := { w with tty := putc w.tty c }

/-! ### Paths

A lookup brings the inode of an entry up to date, whoever else has it open.
-/

/-- The inode of a path. -/
def ramfsSbLookup (w : RamfsVfs T) (path : CStr) : RamfsVfs T × Option Nat :=
  if path = ['/'] then (w.setInode 0 { mode := vfsIfDir, size := 0, fsPrivate := 0 }, some 0) else
  match ramfsOpen w.fs (some path) with
  | none => (w, none)
  | some idx =>
      if ramfsVfsMaxInodes ≤ idx then (w, none) else
      (w.setInode idx
        { mode := if ramfsIsDirFd w.fs idx then vfsIfDir else vfsIfReg
          size := ramfsFileSize w.fs idx
          fsPrivate := idx }, some idx)

/-- The creation that `O_CREAT` asks for; whether it succeeds is not looked at. -/
def ramfsVfsCreat (w : RamfsVfs T) (flags : Nat) (path : CStr) : RamfsVfs T :=
  if flags &&& vfsOCreat ≠ 0 then { w with fs := (ramfsCreate w.fs (some path)).1 } else w

/-- What opening does before it takes a file from the pool. -/
def ramfsVfsFind (w : RamfsVfs T) (flags : Nat) (rel : Option CStr) :
    RamfsVfs T × Option FoundInode :=
  match rel with
  | none => (w, none)
  | some path =>
      let (w, idx) := ramfsSbLookup (ramfsVfsCreat w flags path) path
      (w, idx.map fun k =>
        { inode := k + 1, mode := (w.ramfsVfsInodes k).mode, size := (w.ramfsVfsInodes k).size
          fsPrivate := (w.ramfsVfsInodes k).fsPrivate, fops := ramfsFops })

/-- What `O_TRUNC` does once there is a file. -/
def ramfsVfsTrunc (w : RamfsVfs T) (flags f : Nat) (found : Option FoundInode) : RamfsVfs T :=
  match found with
  | none => w
  | some ino =>
      if f ≠ 0 ∧ flags &&& vfsOTrunc ≠ 0 ∧ ino.mode = vfsIfReg then w.setSize (ino.inode - 1) 0
      else w

/-- `vfs2_open` on a path of the RAM file system; the file is null when it fails. -/
def vfs2OpenRamfs (p : FilePool) (w : RamfsVfs T) (flags : Nat) (rel : Option CStr) :
    FilePool × RamfsVfs T × Nat :=
  let (w, found) := ramfsVfsFind w flags rel
  let (p, f) := vfs2Open p flags found
  (p, ramfsVfsTrunc w flags f found, f)

/-- `brights_vfs2_create` on a path of the RAM file system. -/
def vfs2CreateRamfs (w : RamfsVfs T) (rel : Option CStr) : RamfsVfs T × Int :=
  match rel with
  | none => (w, -1)
  | some path => ({ w with fs := (ramfsCreate w.fs (some path)).1 }, (ramfsCreate w.fs (some path)).2)

/-- `brights_vfs2_mkdir` on one. -/
def vfs2MkdirRamfs (w : RamfsVfs T) (rel : Option CStr) : RamfsVfs T × Int :=
  match rel with
  | none => (w, -1)
  | some path => ({ w with fs := (ramfsMkdir w.fs (some path)).1 }, (ramfsMkdir w.fs (some path)).2)

/-- `brights_vfs2_unlink` on one. -/
def vfs2UnlinkRamfs (w : RamfsVfs T) (rel : Option CStr) : RamfsVfs T × Int :=
  match rel with
  | none => (w, -1)
  | some path => ({ w with fs := (ramfsUnlink w.fs (some path)).1 }, (ramfsUnlink w.fs (some path)).2)

/-- `sys_open` on a path of the RAM file system. -/
def sysOpenRamfs (s : FileIo (RamfsVfs T)) (flags : Nat) (rel : Option CStr) :
    FileIo (RamfsVfs T) × Int :=
  let flags := flags % 2 ^ 32
  let (w, found) := ramfsVfsFind s.world flags rel
  let r := sysOpen s.files flags found
  ({ files := r.1, world := ramfsVfsTrunc w flags (vfs2Open s.files.pool flags found).2 found },
    r.2)

end BrightS
