/-
Processes and their memory: the calls of `kernel/proc.c` together with the page allocator
and the page tables they use.

`Kernel/Proc` has the calls with the answers of the allocator passed in; here they get them from
the page tables and the bitmap as these are at that moment, and serve the requests of an exit.

A user process owns an address space (`cr3`) and every new process a kernel stack.  The
stack is one page, and `kernelStack` points `procKstackSize` bytes above its start.
-/
import BrightS.Kernel.Paging
import BrightS.Kernel.Proc

namespace BrightS

/-- The process table and the memory its processes live in. -/
structure ProcMem where
  procs : ProcTable
  paging : Paging

/-! ### Creation

The order of the calls is that of the source, and so is what happens after one of them has failed.
-/

/-- The kernel stack of a new process: one page, or null. -/
def allocKstack (s : Paging) : Paging × Nat :=
  let res := pmemAllocPage s.pm
  ({ s with pm := res.1 }, res.2)

/-- `brights_proc_spawn_user`: a space, then a stack.  Neither is asked for when there is no entry,
and neither need succeed. -/
def memSpawnUser (m : ProcMem) (name : Option CStr) (entry stackTop : Nat) : ProcMem :=
  match procFirstUnused m.procs with
  | none => m
  | some _ =>
      let space := pagingCreateAddressSpace m.paging
      let stack := allocKstack space.1
      { procs := (procSpawnUser m.procs name entry stackTop space.2 stack.2).procs
        paging := stack.1 }

/-- `brights_proc_fork`: the parent's space is cloned, if it has one, and only then is there a
stack. -/
def memFork (m : ProcMem) : ProcMem :=
  match procGetCurrent m.procs, procFirstUnused m.procs with
  | some parentIdx, some _ =>
      let parent := m.procs.table parentIdx
      if parent.isUser = true ∧ parent.cr3 ≠ 0 then
        let space := pagingCloneAddressSpace m.paging parent.cr3
        if space.2 = 0 then { procs := (procFork m.procs 0 0).procs, paging := space.1 }
        else
          let stack := allocKstack space.1
          { procs := (procFork m.procs space.2 stack.2).procs, paging := stack.1 }
      else
        let stack := allocKstack m.paging
        { procs := (procFork m.procs 0 stack.2).procs, paging := stack.1 }
  | _, _ => m

/-! ### Exit and exec

The requests of an exit are served one after the other, each in the memory that the ones before it
have left.
-/

/-- What the page tables and the page allocator do about a request. -/
def serveRequest (s : Paging) : ExitRequest → Paging
  | .destroyAddressSpace cr3 => pagingDestroyAddressSpace s cr3
  | .freePage addr => { s with pm := pmemFreePage s.pm addr }
  | _ => s

/-- `cr3` is the register's value, as `paging_get_cr3` reads it. -/
def memExit (m : ProcMem) (pid : Nat) (exitCode : Int) (cr3 : Nat) : ProcMem :=
  let res := procExit m.procs pid exitCode cr3
  { procs := res.1, paging := res.2.2.foldl serveRequest m.paging }

/-- `load` is what the ELF loader does to the page tables and answers. -/
def memExec (m : ProcMem) (load : Paging → Paging × Option (Nat × Nat)) (cr3 : Nat) : ProcMem :=
  match procGetCurrent m.procs with
  | none => m
  | some i =>
      let p := m.procs.table i
      if p.isUser = false then m else
      let space := pagingCreateAddressSpace (pagingDestroyAddressSpace m.paging p.cr3)
      if space.2 = 0 then
        { procs := (procExec m.procs 0 none cr3).1, paging := space.1 }
      else
        let loaded := load space.1
        { procs := (procExec m.procs space.2 loaded.2 cr3).1
          paging := if loaded.2.isSome then loaded.1
            else pagingDestroyAddressSpace loaded.1 space.2 }

/-! ### The pages that are passed to the allocator's free

A page may be passed twice; the allocator frees it once.
-/

/-- The pages `freePtTree` frees, in order. -/
def ptTreePages (s : Paging) : Nat → Nat → Nat → List Nat
  | 0, _, table => [table]
  | level + 1, n, table =>
      (ptIndexes n).flatMap (fun i =>
        let e := readPte s table i
        if ¬ ptePresent e then [] else
        if pteHuge e then [] else ptTreePages s level 512 (pteAddr e)) ++ [table]

/-- The pages that the end of an address space frees. -/
def spacePages (s : Paging) (cr3 : Nat) : List Nat :=
  let pml4 := cr3 &&& Words.lnot64 0xFFF
  if pml4 ≠ 0 then ptTreePages s ptLevelPml4 256 pml4 else []

/-- The pages that a request frees. -/
def requestPages (s : Paging) : ExitRequest → List Nat
  | .destroyAddressSpace cr3 => spacePages s cr3
  | .freePage addr => [addr]
  | _ => []

end BrightS
