/-
What a failed exec leaves of its caller.

`brights_proc_exec` gives the caller's address space back before it looks at the image.  So a
call that fails spares the caller only if there was nothing to give back: it is refused for the
caller itself, or the caller has no address space and gets none.  Otherwise an empty file is
enough to lose the space.
-/
import BrightS.Proofs.ProcExec

namespace BrightS

open Bytes Words

attribute [local irreducible] pmemAllocPage

/-! ### The caller -/

/-- The caller has the registers and the addresses it had, its `cr3` leads to the same pages, and
its top table was not given back. -/
structure CallerIntact (m m' : ProcMem) (i : Nat) : Prop where
  cr3 : (m'.procs.table i).cr3 = (m.procs.table i).cr3
  userEntry : (m'.procs.table i).userEntry = (m.procs.table i).userEntry
  userStackTop : (m'.procs.table i).userStackTop = (m.procs.table i).userStackTop
  brk : (m'.procs.table i).brk = (m.procs.table i).brk
  ctx : (m'.procs.table i).ctx = (m.procs.table i).ctx
  mapped : ∀ v, pageLookup m'.paging (cr3Root (m'.procs.table i).cr3) (ptIndex v) =
    pageLookup m.paging (cr3Root (m.procs.table i).cr3) (ptIndex v)
  held : (m.procs.table i).cr3 ≠ 0 → ¬ AddrFree m'.paging.pm (cr3Root (m.procs.table i).cr3)

/-- The tables of the space are different pages of the allocator, none of them free. -/
def OwnsSpace (s : Paging) (cr3 : Nat) : Prop :=
  cr3 ≠ 0 → cr3Root cr3 ≠ 0 ∧ (spacePages s cr3).Nodup ∧ ∀ x ∈ spacePages s cr3, PageHeld s.pm x

/-- There is nothing exec could give back: the caller is no user process, or has no space and
there is no page for one. -/
def ExecHarmless (m : ProcMem) : Prop :=
  ∀ i, procGetCurrent m.procs = some i → (m.procs.table i).isUser = true →
    (m.procs.table i).cr3 = 0 ∧ freePageCount m.paging.pm = 0

theorem cr3Root_mem_spacePages {s : Paging} {cr3 : Nat} (h : cr3Root cr3 ≠ 0) :
    cr3Root cr3 ∈ spacePages s cr3 := by
  have hpages : spacePages s cr3 = ptTreePages s ptLevelPml4 256 (cr3Root cr3) := if_pos h
  rw [hpages]
  exact List.mem_append_right _ (List.mem_singleton_self _)

/-- A space that is destroyed has its top table given back. -/
theorem destroy_frees_root {s : Paging} {cr3 : Nat} (hsane : PmemSane s.pm) (hne : cr3 ≠ 0)
    (howned : OwnsSpace s cr3) :
    PmemSane (pagingDestroyAddressSpace s cr3).pm ∧
      AddrFree (pagingDestroyAddressSpace s cr3).pm (cr3Root cr3) := by
  obtain ⟨hroot, hnodup, hheld⟩ := howned hne
  obtain ⟨hsane', hfree, -⟩ := pmemFreePages_held (spacePages s cr3) hsane hnodup hheld
  rw [pagingDestroyAddressSpace_eq]
  exact ⟨hsane', (hfree _).mpr (.inr (cr3Root_mem_spacePages hroot))⟩

theorem destroy_null (s : Paging) : pagingDestroyAddressSpace s 0 = s := by
  unfold pagingDestroyAddressSpace
  rw [show (0 : Nat) &&& lnot64 0xFFF = 0 by decide]
  exact if_neg (not_not_intro rfl)

/-! ### A file that is too short -/

/-- A file without a byte. -/
def emptyImage : ElfImage where
  buf _ := 0
  size := 0

theorem execLoad_empty (data : Mem) (s : Paging) : execLoad emptyImage data s = (s, none) := by
  unfold execLoad elfLoad
  rw [if_pos (by decide)]
  rfl

section Exec

variable {m : ProcMem} {i : Nat}

/-- The states exec goes through with a user process. -/
theorem memExec_user (hcur : procGetCurrent m.procs = some i)
    (huser : (m.procs.table i).isUser = true)
    (load : Paging → Paging × Option (Nat × Nat)) (cr3 : Nat) :
    ∃ space, pagingCreateAddressSpace (pagingDestroyAddressSpace m.paging (m.procs.table i).cr3) =
        space ∧
      ((space.2 = 0 ∧ memExecValue m load = -1 ∧ memExec m load cr3 =
          { procs := m.procs.put i { m.procs.table i with cr3 := 0 }, paging := space.1 }) ∨
        (space.2 ≠ 0 ∧ ((load space.1).2 = none → memExecValue m load = -1 ∧ memExec m load cr3 =
          { procs := m.procs.put i { m.procs.table i with cr3 := cr3 }
            paging := pagingDestroyAddressSpace (load space.1).1 space.2 }))) := by
  refine ⟨_, rfl, ?_⟩
  unfold memExecValue memExec procExec
  rw [hcur]
  simp only [huser, Bool.true_eq_false, if_false, if_true]
  generalize pagingCreateAddressSpace _ = space
  by_cases hnull : space.2 = 0
  · left
    simp only [hnull, if_true, and_self]
  · right
    refine ⟨hnull, fun hload => ?_⟩
    simp only [hnull, if_false, hload, Option.isSome_none, Bool.false_eq_true, and_self]

/-- The caller of a call that is refused at once. -/
theorem memExec_refused (hno : ∀ i, procGetCurrent m.procs = some i →
      (m.procs.table i).isUser = false) (load : Paging → Paging × Option (Nat × Nat)) (cr3 : Nat) :
    memExec m load cr3 = m := by
  unfold memExec
  cases hcur : procGetCurrent m.procs with
  | none => rfl
  | some i => exact if_pos (hno i hcur)

/-- Exec with an empty file takes the space of a user process away. -/
theorem exec_empty_harms (hsane : PmemSane m.paging.pm) (hcur : procGetCurrent m.procs = some i)
    (huser : (m.procs.table i).isUser = true) (howned : OwnsSpace m.paging (m.procs.table i).cr3)
    (hharm : (m.procs.table i).cr3 ≠ 0 ∨ freePageCount m.paging.pm ≠ 0) {cr3 : Nat}
    (hcr3 : cr3 ≠ 0) (data : Mem) :
    memExecValue m (execLoad emptyImage data) = -1 ∧
      ¬ CallerIntact m (memExec m (execLoad emptyImage data) cr3) i := by
  obtain ⟨space, hspace, hcases⟩ := memExec_user hcur huser (execLoad emptyImage data) cr3
  by_cases hzero : (m.procs.table i).cr3 = 0
  · -- A space is made, and the register's one is kept.
    rw [hzero, destroy_null] at hspace
    obtain ⟨-, haddr⟩ := pagingCreateAddressSpace_pm m.paging
    have hne := pmemAllocPage_ok hsane (Nat.pos_of_ne_zero (hharm.resolve_left (not_not_intro hzero)))
    rw [← haddr, hspace] at hne
    obtain ⟨-, hload⟩ := hcases.resolve_left fun hnull => hne hnull.1
    obtain ⟨hvalue, heq⟩ := hload (by rw [execLoad_empty])
    refine ⟨hvalue, fun hintact => ?_⟩
    have hsame := hintact.cr3
    rw [heq, hzero] at hsame
    simp only [ProcTable.put, Function.update_self] at hsame
    exact hcr3 hsame
  · obtain ⟨hsane₁, hfree⟩ := destroy_frees_root hsane hzero howned
    rcases hcases with ⟨-, hvalue, heq⟩ | ⟨hne, hload⟩
    · refine ⟨hvalue, fun hintact => ?_⟩
      have hsame := hintact.cr3
      rw [heq] at hsame
      simp only [ProcTable.put, Function.update_self] at hsame
      exact hzero hsame.symm
    · obtain ⟨hvalue, heq⟩ := hload (by rw [execLoad_empty])
      refine ⟨hvalue, fun hintact => ?_⟩
      have hheld := hintact.held hzero
      rw [heq, execLoad_empty] at hheld
      -- The new space was one page, which was free before and is free again.
      obtain ⟨halloc, hempty⟩ := pagingCreateAddressSpace_allocated hsane₁
      rw [hspace] at halloc hempty
      have hnew := (halloc.new hne).2.2
      obtain ⟨-, hafter, -⟩ := pmemFreePages_held [space.2] halloc.sane (List.nodup_singleton _)
        fun x hx => by
          rw [List.mem_singleton.mp hx]
          exact hnew
      refine hheld ?_
      dsimp only
      rw [pagingDestroyAddressSpace_eq, (hempty hne).pages hne]
      refine (hafter _).mpr ?_
      by_cases hsame : cr3Root (m.procs.table i).cr3 = space.2
      · exact .inr (List.mem_singleton.mpr hsame)
      · exact .inl ((halloc.free _).mpr ⟨hfree, hsame⟩)

end Exec

/--
**When a failed exec leaves the caller intact.**  For every image on which exec fails the caller
is as before, if and only if the caller is no user process, or it has no address space and there
is no free page for one.
-/
theorem exec_failure_intact_iff {m : ProcMem} (hsane : PmemSane m.paging.pm)
    (howned : ∀ i, procGetCurrent m.procs = some i → OwnsSpace m.paging (m.procs.table i).cr3)
    {cr3 : Nat} (hcr3 : cr3 ≠ 0) :
    (∀ img data i, memExecValue m (execLoad img data) = -1 → procGetCurrent m.procs = some i →
        CallerIntact m (memExec m (execLoad img data) cr3) i) ↔ ExecHarmless m := by
  constructor
  · intro hall i hcur huser
    by_contra hharm
    rw [not_and_or] at hharm
    obtain ⟨hvalue, hnot⟩ :=
      exec_empty_harms hsane hcur huser (howned i hcur) hharm hcr3 fun _ => 0
    exact hnot (hall emptyImage _ i hvalue hcur)
  · intro hharmless img data i _ hcur
    cases huser : (m.procs.table i).isUser with
    | false =>
        rw [memExec_refused fun j hj => by
          rw [hcur] at hj
          rw [← Option.some.inj hj, huser]]
        refine ⟨rfl, rfl, rfl, rfl, rfl, fun _ => rfl, fun hne hfree => ?_⟩
        obtain ⟨hroot, -, hheld⟩ := howned i hcur hne
        exact (hheld _ (cr3Root_mem_spacePages hroot)).2 hfree
    | true =>
        obtain ⟨hzero, hfull⟩ := hharmless i hcur huser
        obtain ⟨space, hspace, hcases⟩ := memExec_user hcur huser (execLoad img data) cr3
        rw [hzero, destroy_null] at hspace
        rcases pmemAllocPage_counts m.paging.pm with ⟨-, hnone⟩ | ⟨hone, -⟩
        · have hcreate : pagingCreateAddressSpace m.paging =
              ({ m.paging with allocFailed := true }, 0) := by
            rw [pagingCreateAddressSpace, allocPtPage, hnone]
            rfl
          rw [hcreate] at hspace
          rw [← hspace] at hcases
          obtain ⟨-, -, heq⟩ := hcases.resolve_right fun hne => hne.1 rfl
          rw [heq]
          refine ⟨?_, ?_, ?_, ?_, ?_, fun v => ?_, fun hne => absurd hzero hne⟩
          all_goals simp [ProcTable.put, hzero]
          rfl
        · omega

/-- A machine whose current process is one of the kernel. -/
def kernelCaller : ProcMem where
  procs :=
    { blankProcs with
      table := fun i => { blankProcs.table i with pid := 1, state := .running }
      pidToIndex := fun _ => 0
      currentPid := 1 }
  paging := roomyMachine.paging

/-- No file can harm it, such as an empty one. -/
theorem exec_failure_intact_kernel :
    memExecValue kernelCaller (execLoad emptyImage fun _ => 0) = -1 ∧
      CallerIntact kernelCaller (memExec kernelCaller (execLoad emptyImage fun _ => 0) 0x1000) 0 := by
  have hfails : memExecValue kernelCaller (execLoad emptyImage fun _ => 0) = -1 := by
    have hload : execLoad emptyImage (fun _ => 0) = fun s => (s, none) :=
      funext (execLoad_empty fun _ => 0)
    rw [hload]
    decide +kernel
  have hharmless : ExecHarmless kernelCaller :=
    fun _ _ huser => Bool.noConfusion (huser : false = true)
  exact ⟨hfails, (exec_failure_intact_iff (m := kernelCaller) roomyPmem_sane
    (fun _ _ hne => absurd rfl hne) (show 0x1000 ≠ 0 by decide)).mpr hharmless _ _ 0 hfails
      (by decide +kernel)⟩

/-- A user process with one large page; its two tables are the first pages of the allocator. -/
def userCaller : ProcMem where
  procs :=
    { blankProcs with
      table := fun i => { blankProcs.table i with
        pid := 1, state := .running, isUser := true, cr3 := 0x100000 }
      pidToIndex := fun _ => 0
      currentPid := 1 }
  paging :=
    { pm := { freshPmem with
        bitmap := fun i => if i = 0 then 3 else BitVec.allOnes 64
        freePages := 62 }
      mem := fun t i =>
        if t = 0x100000 ∧ i.val = 0 then 0x101007 else if t = 0x101000 ∧ i.val = 0 then 0x40000087 else 0
      pml4Table := 0x1000
      allocFailed := false }

set_option maxRecDepth 10000 in
/-- An empty file costs it the page: the table that `cr3` refers to is handed out again. -/
theorem exec_failure_loses_page :
    memExecValue userCaller (execLoad emptyImage fun _ => 0) = -1 ∧
      procGetCurrent userCaller.procs = some 0 ∧
      ((memExec userCaller (execLoad emptyImage fun _ => 0) 0x100000).procs.table 0).cr3 =
        0x100000 ∧
      pageLookup userCaller.paging 0x100000 (ptIndex 0x1234) = some (2, 0x40000087) ∧
      pageLookup (memExec userCaller (execLoad emptyImage fun _ => 0) 0x100000).paging 0x100000
        (ptIndex 0x1234) = none := by
  have hload : execLoad emptyImage (fun _ => 0) = fun s => (s, none) :=
    funext (execLoad_empty fun _ => 0)
  rw [hload]
  decide +kernel

end BrightS
