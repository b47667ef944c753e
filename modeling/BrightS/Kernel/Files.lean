/-
Open files: the file pool and the descriptor tables of `kernel/fs/vfs2.c`, and the
descriptor calls of `kernel/sysent.c`.

A pointer to entry `k` of the pool is written `k + 1`, the null pointer zero.  Opening a
path needs the mount table and a filesystem; what these find is passed in as an answer.
The `close` operations of the filesystems do nothing.

The calls work on the descriptor table of the current process.  `dup2` does not check
the number it is to write to, and `pipe` looks for two free descriptors one past the end
of the table; an access outside the table is undefined.  `pipe` stores its two markers as
they are, not as pointers to the pool.
-/
import BrightS.Kernel.Pipe
import BrightS.Kernel.Proc

namespace BrightS

open Words

def vfsFilePoolSize : Nat := 64
def vfsIfReg : Nat := 0x8000
def vfsOTrunc : Nat := 0x200
def vfsOAppend : Nat := 0x400

/-- An entry of the pool: an open file with its position. -/
structure VfsFile where
  inode : Nat
  pos : Nat
  flags : Nat
  fops : Nat
  privateData : Nat
  inUse : Bool
  deriving DecidableEq, Repr

/-- The pool: its entries, and a bit for each one that is taken. -/
structure FilePool where
  filePool : Nat → VfsFile
  filePoolBitmap : Word

/-- What `vfs2_init` does to the pool. -/
def filePoolInit (p : FilePool) : FilePool :=
  { filePool := fun k => { p.filePool k with inUse := false }, filePoolBitmap := 0 }

/-! ### The pool

The bitmap and the flags in the entries say the same.
-/

/-- The first entry that is free, cleared; null when there is none. -/
def vfs2FileAlloc (p : FilePool) : FilePool × Nat :=
  match (List.range vfsFilePoolSize).find? fun k => !bitTest p.filePoolBitmap k with
  | none => (p, 0)
  | some k =>
      ({ filePoolBitmap := bitSet p.filePoolBitmap k
         filePool := Function.update p.filePool k
           { inUse := true, pos := 0, flags := 0, inode := 0, fops := 0, privateData := 0 } },
        k + 1)

/-- The entry is given back. -/
def vfs2FileFree (p : FilePool) (f : Nat) : FilePool :=
  if f = 0 then p else
  { filePoolBitmap :=
      if f - 1 < vfsFilePoolSize then bitClear p.filePoolBitmap (f - 1) else p.filePoolBitmap
    filePool := Function.update p.filePool (f - 1) { p.filePool (f - 1) with inUse := false } }

/-- The inode a lookup found, with the fields that opening reads, and the operations of its
filesystem. -/
structure FoundInode where
  inode : Nat
  mode : Nat
  size : Nat
  fsPrivate : Nat
  fops : Nat

/-- The pool and the new file, null when the path was not found or the pool is full. -/
def vfs2Open (p : FilePool) (flags : Nat) (found : Option FoundInode) : FilePool × Nat :=
  match found with
  | none => (p, 0)
  | some ino =>
      let (p, f) := vfs2FileAlloc p
      if f = 0 then (p, 0) else
      let size := if flags &&& vfsOTrunc ≠ 0 ∧ ino.mode = vfsIfReg then 0 else ino.size
      let file := { p.filePool (f - 1) with
        inode := ino.inode, flags := flags, fops := ino.fops, privateData := ino.fsPrivate,
        pos := if flags &&& vfsOAppend ≠ 0 then size else 0 }
      ({ p with filePool := Function.update p.filePool (f - 1) file }, f)

/-- `brights_vfs2_close`: -1 for a file that is not open. -/
def vfs2Close (p : FilePool) (f : Nat) : FilePool × Int :=
  if f = 0 ∨ (p.filePool (f - 1)).inUse = false then (p, -1) else (vfs2FileFree p f, 0)

/-! ### Descriptor tables

A table is in the record of its process; zero is a descriptor that is free.
-/

/-- The first descriptor that is free. -/
def fdFree (table : Nat → Nat) : Option Nat :=
  (List.range procMaxFds).find? fun j => table j == 0

/-- The table at a descriptor number; numbers outside it lead nowhere. -/
def vfs2FdGet (table : Nat → Nat) (fd : Int) : Nat :=
  if fd < 0 ∨ (procMaxFds : Int) ≤ fd then 0 else table fd.toNat

/-- The system call argument as the C code casts it. -/
def toFd (fd : Nat) : Int := (BitVec.ofNat 32 fd).toInt

/-! ### System calls

Arguments are registers: a descriptor number is cut to 32 bits and taken as an `int`.
-/

/-- The processes and the files they have open. -/
structure Files where
  procs : ProcTable
  pool : FilePool

/-- Write one entry of the descriptor table of a process. -/
def Files.setFd (s : Files) (idx j f : Nat) : Files :=
  let p := s.procs.table idx
  { s with procs := s.procs.put idx { p with fdTable := Function.update p.fdTable j f } }

/-- `sys_open` behind the lookup: a file object, and then a descriptor for it.  Without a free
descriptor the object stays taken. -/
def sysOpen (s : Files) (flags : Nat) (found : Option FoundInode) : Files × Int :=
  let (pool, f) := vfs2Open s.pool flags found
  let s := { s with pool := pool }
  if f = 0 then (s, -1) else
  match procGetCurrent s.procs with
  | none => ({ s with pool := (vfs2Close s.pool f).1 }, -1)
  | some idx =>
      match fdFree (s.procs.table idx).fdTable with
      | none => (s, -1)
      | some j => (s.setFd idx j f, j)

/-- `sys_close`: the file object is freed, however many descriptors lead to it. -/
def sysClose (s : Files) (fd : Nat) : Files × Int :=
  match procGetCurrent s.procs with
  | none => (s, -1)
  | some idx =>
      let f := vfs2FdGet (s.procs.table idx).fdTable (toFd fd)
      if f = 0 then (s, -1) else
      (({ s with pool := (vfs2Close s.pool f).1 } : Files).setFd idx (toFd fd).toNat 0, 0)

/-- `sys_dup`: one more descriptor for the same object. -/
def sysDup (s : Files) (fd : Nat) : Files × Int :=
  match procGetCurrent s.procs with
  | none => (s, -1)
  | some idx =>
      let f := vfs2FdGet (s.procs.table idx).fdTable (toFd fd)
      if f = 0 then (s, -1) else
      match fdFree (s.procs.table idx).fdTable with
      | none => (s, -1)
      | some j => (s.setFd idx j f, j)

/-- `sys_dup2`: the object at the second number is closed before. -/
def sysDup2 (s : Files) (fd1 fd2 : Nat) : Option (Files × Int) :=
  match procGetCurrent s.procs with
  | none => some (s, -1)
  | some idx =>
      let f := vfs2FdGet (s.procs.table idx).fdTable (toFd fd1)
      if f = 0 then some (s, -1) else
      if toFd fd2 < 0 ∨ (procMaxFds : Int) ≤ toFd fd2 then none else
      let old := (s.procs.table idx).fdTable (toFd fd2).toNat
      let s := if old ≠ 0 then { s with pool := (vfs2Close s.pool old).1 } else s
      some (s.setFd idx (toFd fd2).toNat f, fd2)

/-! ### Pipes -/

/-- How the search for two free descriptors side by side ends; the descriptor after the last one
lies outside the table. -/
inductive PipeFds where
  | found (readFd : Nat)
  | full
  | outside

/-- The search, over the numbers that are left. -/
def pipeFds (table : Nat → Nat) : List Nat → PipeFds
  | [] => .full
  | i :: rest =>
      if table i ≠ 0 then pipeFds table rest else
      if procMaxFds ≤ i + 1 then .outside else
      if table (i + 1) = 0 then .found i else pipeFds table rest

/-- The numbers the search tries: 3, 5 and so on. -/
def pipeTries : List Nat := (List.range 15).map fun n => 3 + 2 * n

/-- What `sys_pipe` leaves and returns. -/
structure PipeResult where
  files : Files
  pipes : Pipes
  /-- What is stored in the caller's array. -/
  fds : Option (Nat × Nat)
  ret : Int

/-- `fildes` says whether the caller's array is there. -/
def sysPipe (s : Files) (pipes : Pipes) (fildes : Bool) : Option PipeResult :=
  if fildes = false then some ⟨s, pipes, none, -1⟩ else
  match pipeCreate pipes with
  | (pipes, none) => some ⟨s, pipes, none, -1⟩
  | (pipes, some pipeIdx) =>
      match procGetCurrent s.procs with
      | none => some ⟨s, pipes, none, -1⟩
      | some idx =>
          match pipeFds (s.procs.table idx).fdTable pipeTries with
          | .outside => none
          | .full => some ⟨s, pipes, none, -1⟩
          | .found readFd =>
              let s := s.setFd idx readFd (pipeIdx + 0x1000)
              let s := s.setFd idx (readFd + 1) (pipeIdx + 0x2000)
              some ⟨s, pipes, some (readFd, readFd + 1), 0⟩

/-! ### Processes

A child gets the descriptors of its parent, and an exit closes those of the process.
-/

/-- The part of `sys_fork` that concerns files. -/
def filesFork (s : Files) (cloneCr3 kstackPage : Nat) : Files × Int :=
  let r := procFork s.procs cloneCr3 kstackPage
  ({ s with procs := r.procs }, r.ret)

/-- Serve the requests of an exit that concern files. -/
def closeRequested (p : FilePool) (requests : List ExitRequest) : FilePool :=
  requests.foldl (fun p request =>
    match request with
    | .closeFile f => (vfs2Close p f).1
    | _ => p) p

/-- The part of `sys_exit` that concerns files. -/
def filesExit (s : Files) (pid : Nat) (exitCode : Int) (kernelCr3 : Nat) : Files × Int :=
  let r := procExit s.procs pid exitCode kernelCr3
  ({ procs := r.1, pool := closeRequested s.pool r.2.2 }, r.2.1)

end BrightS
