/-
Processes: the creation and exit paths of `kernel/proc.c`.

The table has `procMax` entries; entries at and above that number do not exist.
Two more structures shadow it: `freeSlotsBitmap` has a one for a slot that was
taken, and `pidToIndex` leads from a pid to its slot.  A write to `pidToIndex` past
its end is undefined, and so is the call that makes it.

What the calls get from the page allocator and the address-space code is passed in
as an answer, and what `procExit` asks of other subsystems comes out as a list.
-/
import BrightS.Kernel.Path
import BrightS.Lib.Words

namespace BrightS

open Words

def procMax : Nat := 64
def pidIndexSize : Nat := 256
def procNameLen : Nat := 32
def procCwdLen : Nat := 128
def procMaxFds : Nat := 32
def procKstackSize : Nat := 8192

/-- The state of an entry of the table. -/
inductive ProcState where
  | unused | runnable | running | sleeping | zombie
  deriving DecidableEq, Repr

/-- The registers that a process is resumed with. -/
structure ProcCtx where
  (r15 r14 r13 r12 r11 r10 r9 r8 : Nat)
  (rbp rdi rsi rdx rcx rbx rax : Nat)
  (rip cs rflags rsp ss : Nat)
  deriving DecidableEq, Repr

/-- The file pointers are addresses, null when the descriptor is closed. -/
structure ProcInfo where
  pid : Nat
  ppid : Nat
  state : ProcState
  name : CStr
  exitCode : Int
  fdTable : Nat → Nat
  cwd : CStr
  isUser : Bool
  cr3 : Nat
  userEntry : Nat
  userStackTop : Nat
  brk : Nat
  brkStart : Nat
  kernelStack : Nat
  ctx : ProcCtx

/-- The table, the two structures that shadow it, and who is running. -/
structure ProcTable where
  table : Nat → ProcInfo
  pidToIndex : Nat → Nat
  freeSlotsBitmap : Word
  nextPid : Nat
  currentPid : Nat

/-! ### Lookup

The kernel has two ways to a process, the index and a scan of the table, and two ways to a free
entry, the bitmap and a scan.
-/

/-- Copy what fits in front of the terminator. -/
def procStrCopy (cap : Nat) (src : CStr) : CStr := src.take (cap - 1)

/-- `proc_get_by_pid`: the way through the index.  The entry it leads to is checked. -/
def procGetByPid (s : ProcTable) (pid : Nat) : Option Nat :=
  if pid = 0 ∨ pidIndexSize ≤ pid then none else
  let idx := s.pidToIndex pid
  if procMax ≤ idx then none else
  if (s.table idx).pid ≠ pid ∨ (s.table idx).state = .unused then none else some idx

/-- `proc_get_current`. -/
def procGetCurrent (s : ProcTable) : Option Nat := procGetByPid s s.currentPid

/-- The scan of the table for a process with this pid. -/
def procScan (s : ProcTable) (pid : Nat) : Option Nat :=
  (List.range procMax).find? fun i => (s.table i).pid == pid && (s.table i).state != .unused

/-- The scan of the table for an unused entry. -/
def procFirstUnused (s : ProcTable) : Option Nat :=
  (List.range procMax).find? fun i => (s.table i).state == .unused

/-- `proc_find_free_slot`: the lowest clear bit of the bitmap. -/
def procFindFreeSlot (s : ProcTable) : Option Nat :=
  if ~~~s.freeSlotsBitmap = 0#64 then none else some (lowestBit (~~~s.freeSlotsBitmap))

/-- `brights_proc_get_by_pid`, which scans where `proc_get_by_pid` uses the index. -/
def brightsProcGetByPid (s : ProcTable) (pid : Nat) : Option ProcInfo :=
  if pid = 0 then none else (procScan s pid).map s.table

/-! ### Creation

A kernel process is created through the bitmap and the index.  A user process and a child of a fork
are created through scans, and leave both as they are.
-/

/-- An entry of the table gets new contents. -/
def ProcTable.put (s : ProcTable) (slot : Nat) (p : ProcInfo) : ProcTable :=
  { s with table := Function.update s.table slot p }

/-- `brights_proc_init`: an empty table. -/
def procInit (s : ProcTable) : ProcTable where
  table i :=
    { s.table i with
      pid := 0, ppid := 0, state := .unused, name := [], exitCode := 0, fdTable := fun _ => 0,
      cwd := ['/'], isUser := false, cr3 := 0, userEntry := 0, userStackTop := 0, brk := 0,
      brkStart := 0, kernelStack := 0 }
  pidToIndex := fun _ => procMax
  freeSlotsBitmap := 0
  nextPid := 1
  currentPid := 0

/-- The new process starts in the directory of the current one. -/
def inheritCwd (s : ProcTable) (slot : Nat) : ProcTable :=
  match procGetCurrent s with
  | some parent =>
      s.put slot { s.table slot with cwd := procStrCopy procCwdLen (s.table parent).cwd }
  | none => s.put slot { s.table slot with cwd := ['/'] }

/-- The tables after a creation and the slot it filled, if it succeeded. -/
structure Spawned where
  procs : ProcTable
  slot : Option Nat

/-- The value the C function returns. -/
def Spawned.ret (r : Spawned) : Int :=
  match r.slot with
  | some slot => (BitVec.ofNat 32 (r.procs.table slot).pid).toInt
  | none => -1

/-- `brights_proc_spawn_kernel`: the slot is found in the bitmap, and is marked there and in the
index. -/
def procSpawnKernel (s : ProcTable) (name : Option CStr) : Option Spawned :=
  match procFindFreeSlot s with
  | none => some { procs := s, slot := none }
  | some slot =>
      let pid := s.nextPid
      let s := { s with nextPid := (pid + 1) % 2 ^ 32 }
      let s := s.put slot
        { s.table slot with
          pid := pid, ppid := s.currentPid, state := .runnable, exitCode := 0, isUser := false,
          cr3 := 0, userEntry := 0, userStackTop := 0, brk := 0, brkStart := 0, kernelStack := 0,
          name := procStrCopy procNameLen (name.getD "kernel".toList), fdTable := fun _ => 0 }
      let s := inheritCwd s slot
      if pid < pidIndexSize then
        some { procs := { s with
                 pidToIndex := Function.update s.pidToIndex pid slot
                 freeSlotsBitmap := bitSet s.freeSlotsBitmap slot },
               slot := some slot }
      else none

/-- The kernel stack pointer for a stack page, none when there is no page. -/
def kstackTop (page : Nat) : Nat := if page ≠ 0 then (page + procKstackSize) % 2 ^ 64 else 0

/-- The registers of a process that starts in user mode. -/
def userCtx (entry stackTop : Nat) : ProcCtx :=
  { rip := entry, rsp := stackTop, cs := 0x2B, ss := 0x23, rflags := 0x202, rax := 0, rbx := 0,
    rcx := 0, rdx := 0, rsi := 0, rdi := 0, rbp := 0, r8 := 0, r9 := 0, r10 := 0, r11 := 0,
    r12 := 0, r13 := 0, r14 := 0, r15 := 0 }

/-- `cr3` and `kstackPage` are what `alloc_user_pml4` and the page allocator answer. -/
def procSpawnUser (s : ProcTable) (name : Option CStr) (entry stackTop cr3 kstackPage : Nat) :
    Spawned :=
  match procFirstUnused s with
  | none => { procs := s, slot := none }
  | some slot =>
      let pid := s.nextPid
      let s := { s with nextPid := (pid + 1) % 2 ^ 32 }
      let s := s.put slot
        { s.table slot with
          pid := pid, ppid := s.currentPid, state := .runnable, exitCode := 0, isUser := true,
          userEntry := entry, userStackTop := stackTop, brk := 0, brkStart := 0, cr3 := cr3,
          kernelStack := kstackTop kstackPage,
          name := procStrCopy procNameLen (name.getD "user".toList), fdTable := fun _ => 0 }
      let s := inheritCwd s slot
      { procs := s.put slot { s.table slot with ctx := userCtx entry stackTop },
        slot := some slot }

/-- `cloneCr3` and `kstackPage` are what the clone and the page allocator answer.  A failed
clone leaves the copied fields in the entry and a pid used up. -/
def procFork (s : ProcTable) (cloneCr3 kstackPage : Nat) : Spawned :=
  match procGetCurrent s with
  | none => { procs := s, slot := none }
  | some parentIdx =>
      match procFirstUnused s with
      | none => { procs := s, slot := none }
      | some slot =>
          let parent := s.table parentIdx
          let child := { s.table slot with
            pid := s.nextPid, ppid := parent.pid, state := .runnable, exitCode := 0,
            name := procStrCopy procNameLen parent.name,
            cwd := procStrCopy procCwdLen parent.cwd,
            isUser := parent.isUser, fdTable := parent.fdTable }
          let s := { s with nextPid := (s.nextPid + 1) % 2 ^ 32 }
          if parent.isUser = true ∧ parent.cr3 ≠ 0 ∧ cloneCr3 = 0 then
            { procs := s.put slot { child with cr3 := 0, state := .unused }, slot := none }
          else
            { procs := s.put slot
                { child with
                  cr3 := if parent.isUser = true ∧ parent.cr3 ≠ 0 then cloneCr3 else 0
                  userEntry := parent.userEntry, userStackTop := parent.userStackTop,
                  brk := parent.brk, brkStart := parent.brkStart,
                  kernelStack := kstackTop kstackPage, ctx := { parent.ctx with rax := 0 } },
              slot := some slot }

/-! ### Exit

The entry becomes a zombie and keeps its pid; its space and its stack are freed, while the members
that name them stay.
-/

/-- What a process exit asks of other subsystems, in order. -/
inductive ExitRequest where
  | closeFile (file : Nat)
  | cleanupHooks (pid : Nat)
  | destroyAddressSpace (cr3 : Nat)
  | freePage (addr : Nat)
  deriving DecidableEq, Repr

/-- What `brights_proc_exit` asks for: its files are closed, its hooks are removed, and its space
and its stack are freed. -/
def exitRequests (p : ProcInfo) (kernelCr3 : Nat) : List ExitRequest :=
  (((List.range procMaxFds).map p.fdTable).filter (· ≠ 0)).map .closeFile ++
  [.cleanupHooks p.pid] ++
  (if p.cr3 ≠ 0 ∧ p.isUser = true ∧ p.cr3 ≠ kernelCr3 then [.destroyAddressSpace p.cr3] else []) ++
  (if p.kernelStack ≠ 0 then [.freePage (sub64 p.kernelStack procKstackSize)] else [])

/-- The tables, the value returned and the requests made on the way. -/
def procExit (s : ProcTable) (pid : Nat) (exitCode : Int) (kernelCr3 : Nat) :
    ProcTable × Int × List ExitRequest :=
  if pid = 0 then (s, -1, []) else
  match procScan s pid with
  | none => (s, -1, [])
  | some i =>
      (s.put i { s.table i with
          fdTable := fun _ => 0, state := .zombie, exitCode := exitCode },
        0, exitRequests (s.table i) kernelCr3)

/-! ### Exec

The current process gets a new space with another program in it.
-/

/-- `newCr3` and `loaded` are what the creation of the address space and the ELF loader answer:
the entry and the stack top, if the image is good.  The old address space is gone in any case. -/
def procExec (s : ProcTable) (newCr3 : Nat) (loaded : Option (Nat × Nat)) (currentCr3 : Nat) :
    ProcTable × Int × List ExitRequest :=
  match procGetCurrent s with
  | none => (s, -1, [])
  | some i =>
      let p := s.table i
      if p.isUser = false then (s, -1, []) else
      if newCr3 = 0 then (s.put i { p with cr3 := 0 }, -1, [.destroyAddressSpace p.cr3]) else
      match loaded with
      | none =>
          (s.put i { p with cr3 := currentCr3 }, -1,
            [.destroyAddressSpace p.cr3, .destroyAddressSpace newCr3])
      | some (entry, stackTop) =>
          (s.put i { p with
              cr3 := newCr3, userEntry := entry, userStackTop := stackTop, brk := 0, brkStart := 0,
              ctx := userCtx entry stackTop },
            0, [.destroyAddressSpace p.cr3])

/-- `brights_proc_set_current`. -/
def procSetCurrent (s : ProcTable) (pid : Nat) : ProcTable := { s with currentPid := pid }

end BrightS
