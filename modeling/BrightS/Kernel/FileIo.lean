/-
Reading, writing and seeking through descriptors: `kernel/fs/vfs2.c` and
`kernel/sysent.c`.

A descriptor leads to an open file, and the file to the operations of its filesystem.  Reading from
descriptor 0 and writing to 1 and 2 is for the terminal, whatever the table says.

What a file does is up to its filesystem.  The operations of a filesystem get the file
and leave it a new position; the rest of what they change is the world `W`, which also
has the keyboard and the serial console.  A write may be undefined.
-/
import BrightS.Kernel.Files

namespace BrightS

variable {W : Type}

/-- What an operation of a filesystem comes back with. -/
structure IoResult (W : Type) where
  world : W
  /-- What becomes of the position of the file. -/
  pos : Nat
  ret : Int

/-- The operations of a filesystem on an open file; null pointers are `none`. -/
structure FileOps (W : Type) where
  read : Option (W → VfsFile → Nat → IoResult W × List UInt8)
  write : Option (W → VfsFile → List UInt8 → Option (IoResult W))
  lseek : Option (W → VfsFile → Int → Int → IoResult W)

/-- What is behind the calls: the filesystems, the sizes of inodes, the terminal and the serial
line. -/
structure IoEnv (W : Type) where
  /-- The operations behind a pointer. -/
  fileOps : Nat → FileOps W
  inodeSize : W → Nat → Nat
  ttyReadChar : W → W × UInt8
  serialWrite : W → UInt8 → W

/-- Processes, open files and the world. -/
structure FileIo (W : Type) where
  files : Files
  world : W

/-- The file object behind a pointer. -/
def FileIo.file (s : FileIo W) (f : Nat) : VfsFile := s.files.pool.filePool (f - 1)

/-- Store the world and the position that an operation leaves. -/
def FileIo.done (s : FileIo W) (f : Nat) (r : IoResult W) : FileIo W :=
  { world := r.world
    files := { s.files with
      pool := { s.files.pool with
        filePool := Function.update s.files.pool.filePool (f - 1) { s.file f with pos := r.pos } } } }

/-! ### Files -/

/-- `brights_vfs2_read`; a file object that is not in use, or cannot be read, gives -1. -/
def vfs2Read (env : IoEnv W) (s : FileIo W) (f count : Nat) : FileIo W × Int × List UInt8 :=
  if f = 0 ∨ (s.file f).inUse = false ∨ (s.file f).fops = 0 then (s, -1, []) else
  match (env.fileOps (s.file f).fops).read with
  | none => (s, -1, [])
  | some read =>
      let (r, bytes) := read s.world (s.file f) count
      (s.done f r, r.ret, bytes)

/-- `brights_vfs2_write`, likewise. -/
def vfs2Write (env : IoEnv W) (s : FileIo W) (f : Nat) (buf : List UInt8) :
    Option (FileIo W × Int) :=
  if f = 0 ∨ (s.file f).inUse = false ∨ (s.file f).fops = 0 then some (s, -1) else
  match (env.fileOps (s.file f).fops).write with
  | none => some (s, -1)
  | some write => (write s.world (s.file f) buf).map fun r => (s.done f r, r.ret)

def seekSet : Int := 0
def seekCur : Int := 1
def seekEnd : Int := 2

/-- `(uint64_t)x`. -/
def toU64 (x : Int) : Nat := (x % 2 ^ 64).toNat

/-- `(int64_t)x`. -/
def toI64 (x : Nat) : Int := (BitVec.ofNat 64 x).toInt

/-- The position a seek leads to, of a file of this size; nothing for another `whence`. -/
def seekTarget (pos size : Nat) (offset whence : Int) : Option Nat :=
  if whence = seekSet then some (toU64 offset) else
  if whence = seekCur then some (toU64 (toI64 pos + offset)) else
  if whence = seekEnd then some (toU64 (toI64 size + offset)) else none

/-- `brights_vfs2_lseek`: the filesystem seeks if it can, else the position is computed here. -/
def vfs2Lseek (env : IoEnv W) (s : FileIo W) (f : Nat) (offset whence : Int) : FileIo W × Int :=
  if f = 0 ∨ (s.file f).inUse = false then (s, -1) else
  match if (s.file f).fops = 0 then none else (env.fileOps (s.file f).fops).lseek with
  | some lseek =>
      let r := lseek s.world (s.file f) offset whence
      (s.done f r, r.ret)
  | none =>
      if whence = seekEnd ∧ (s.file f).inode = 0 then (s, toI64 (s.file f).pos) else
      match seekTarget (s.file f).pos (env.inodeSize s.world (s.file f).inode) offset whence with
      | none => (s, -1)
      | some pos => (s.done f ⟨s.world, pos, toI64 pos⟩, toI64 pos)

/-! ### System calls

The calls find the file through the descriptor table of the current process.
-/

/-- So many characters of the terminal, one after the other. -/
def ttyRead (env : IoEnv W) : Nat → W → W × List UInt8
  | 0, w => (w, [])
  | n + 1, w =>
      let (w, c) := env.ttyReadChar w
      let (w, rest) := ttyRead env n w
      (w, c :: rest)

/-- The file a descriptor number of the current process leads to, null if there is none. -/
def currentFd (s : Files) (fd : Nat) : Nat :=
  match procGetCurrent s.procs with
  | none => 0
  | some idx => vfs2FdGet (s.procs.table idx).fdTable (toFd fd)

/-- `sys_read`: descriptor 0 is the terminal, whatever the table says. -/
def sysRead (env : IoEnv W) (s : FileIo W) (fd len : Nat) : FileIo W × Int × List UInt8 :=
  if fd = 0 then
    let (w, bytes) := ttyRead env len s.world
    ({ s with world := w }, len, bytes)
  else if currentFd s.files fd = 0 then (s, -1, [])
  else vfs2Read env s (currentFd s.files fd) len

/-- `sys_write`: descriptors 1 and 2 are the serial line. -/
def sysWrite (env : IoEnv W) (s : FileIo W) (fd : Nat) (buf : List UInt8) :
    Option (FileIo W × Int) :=
  if fd = 1 ∨ fd = 2 then some ({ s with world := buf.foldl env.serialWrite s.world }, buf.length)
  else if currentFd s.files fd = 0 then some (s, -1)
  else vfs2Write env s (currentFd s.files fd) buf

/-- `sys_lseek`, which makes no exceptions. -/
def sysLseek (env : IoEnv W) (s : FileIo W) (fd offset whence : Nat) : FileIo W × Int :=
  if currentFd s.files fd = 0 then (s, -1)
  else vfs2Lseek env s (currentFd s.files fd) (toI64 offset) (toFd whence)

end BrightS
