/-
The pages of processes over runs of creations, execs and exits.

A process that is neither unused nor a zombie holds its pages: the page of its kernel
stack and, for a user process, the page of its address space, whose user half is still
empty (`PagesHeld`).  Exit releases them and keeps the addresses in the zombie's entry.  A
second exit of the same pid releases the same addresses again, whoever holds them by then
(`exit_releases_twice`).

The index that leads from a pid to its entry only knows kernel processes
(`KernelIndex`), so the current process is never a user process: no fork clones an
address space, and exec always fails.
-/
import BrightS.Lib.Ledger
import BrightS.Lib.Runs
import BrightS.Proofs.PagingAlloc
import BrightS.Proofs.PagingClone
import BrightS.Proofs.Proc
import BrightS.Kernel.ProcMem

namespace BrightS

open Ledger Runs Words

attribute [local irreducible] pmemAllocPage

/-! ### Freeing a tree of tables -/

theorem ptTreePages_congr {s s' : Paging} (hmem : s'.mem = s.mem) :
    ptTreePages s' = ptTreePages s := by
  have hread : readPte s' = readPte s := by
    funext t i
    unfold readPte
    rw [hmem]
  funext level
  induction level with
  | zero => rfl
  | succ level ih =>
      funext n table
      rw [ptTreePages, ptTreePages, hread, ih]

/-- Freeing a tree passes its pages to the allocator, one by one. -/
theorem freePtTree_eq (level : Nat) : ∀ (n table : Nat) (s : Paging),
    freePtTree level n table s =
      { s with pm := (ptTreePages s level n table).foldl pmemFreePage s.pm } := by
  induction level with
  | zero =>
      intro n table s
      rfl
  | succ level ih =>
      intro n table s
      have hloop : ∀ (l : List PtIndex) (pm : Pmem),
          l.foldl (fun s i =>
            let e := readPte s table i
            if ¬ ptePresent e then s else
            if pteHuge e then s else freePtTree level 512 (pteAddr e) s) { s with pm := pm } =
          { s with pm := List.foldl pmemFreePage pm (l.flatMap fun i =>
              let e := readPte s table i
              if ¬ ptePresent e then [] else
              if pteHuge e then [] else ptTreePages s level 512 (pteAddr e)) } := by
        intro l
        induction l with
        | nil =>
            intro pm
            rfl
        | cons i rest ihl =>
            intro pm
            rw [List.foldl_cons, List.flatMap_cons, List.foldl_append]
            have hread : readPte { s with pm := pm } table i = readPte s table i := rfl
            have hsame : ptTreePages { s with pm := pm } = ptTreePages s := ptTreePages_congr rfl
            dsimp only
            rw [hread]
            split
            · exact ihl pm
            · split
              · exact ihl pm
              · rw [ih, hsame]
                exact ihl _
      have hrun := hloop (ptIndexes n) s.pm
      rw [freePtTree, ptTreePages, List.foldl_append, hrun, List.foldl_cons, List.foldl_nil]

theorem pagingDestroyAddressSpace_eq (s : Paging) (cr3 : Nat) :
    pagingDestroyAddressSpace s cr3 =
      { s with pm := (spacePages s cr3).foldl pmemFreePage s.pm } := by
  unfold pagingDestroyAddressSpace spacePages
  dsimp only
  split
  · exact freePtTree_eq _ _ _ s
  · rfl

/-- Serving requests passes their pages to the allocator, in order. -/
theorem serveRequest_eq (s : Paging) (requests : List ExitRequest) :
    requests.foldl serveRequest s =
      { s with pm := (requests.flatMap (requestPages s)).foldl pmemFreePage s.pm } := by
  have hloop : ∀ pm, requests.foldl serveRequest { s with pm := pm } =
      { s with pm := (requests.flatMap (requestPages s)).foldl pmemFreePage pm } := by
    induction requests with
    | nil =>
        intro pm
        rfl
    | cons request rest ih =>
        intro pm
        rw [List.foldl_cons, List.flatMap_cons, List.foldl_append]
        cases request with
        | destroyAddressSpace cr3 =>
            have htree : ptTreePages { s with pm := pm } = ptTreePages s := ptTreePages_congr rfl
            have hsame : spacePages { s with pm := pm } cr3 = spacePages s cr3 := by
              unfold spacePages
              rw [htree]
            rw [serveRequest, pagingDestroyAddressSpace_eq, requestPages, hsame]
            exact ih _
        | freePage addr => exact ih _
        | closeFile file => exact ih pm
        | cleanupHooks pid => exact ih pm
  exact hloop s.pm

/-! ### The current process is a kernel process -/

/-- The pid index leads to kernel processes only, and has nothing for pids to come. -/
structure KernelIndex (s : ProcTable) (m n : Nat) : Prop where
  slots : SlotsOk s m n
  few : s.nextPid ≤ 1 + m + n
  fresh : ∀ k, s.nextPid ≤ k → s.pidToIndex k = procMax
  kernel : ∀ k, s.pidToIndex k < procMax → (s.table (s.pidToIndex k)).pid = k →
    (s.table (s.pidToIndex k)).isUser = false

namespace KernelIndex

variable {s s' : ProcTable} {m n : Nat}

theorem init (s₀ : ProcTable) : KernelIndex (procInit s₀) 0 0 := by
  refine ⟨slotsOk_init s₀, le_refl _, fun k _ => rfl, fun k hk => ?_⟩
  exact absurd hk (lt_irrefl _)

theorem current (h : KernelIndex s m n) {i : Nat} (hi : procGetCurrent s = some i) :
    (s.table i).isUser = false := by
  unfold procGetCurrent procGetByPid at hi
  split at hi
  · exact absurd hi (by simp)
  · dsimp only at hi
    split at hi
    · exact absurd hi (by simp)
    · rename_i hidx
      split at hi
      · exact absurd hi (by simp)
      · rename_i hentry
        rw [← Option.some.inj hi]
        have hpid : (s.table (s.pidToIndex s.currentPid)).pid = s.currentPid := by
          by_contra hne
          exact hentry (.inl hne)
        exact h.kernel _ (by omega) hpid

theorem nextPid_lt (h : KernelIndex s m n) : s.nextPid + 1 < 2 ^ 32 ∧ s.nextPid < pidIndexSize := by
  have hle := h.slots.le
  have hin := h.slots.inTable
  have hfew := h.few
  have hmax : procMax = 64 := rfl
  have hsize : pidIndexSize = 256 := rfl
  omega

/-- A new process that the index does not know. -/
theorem created (h : KernelIndex s m n) (hn : n < procMax) (hc : Created s s' n)
    (hindex : s'.pidToIndex = s.pidToIndex) (hbits : s'.freeSlotsBitmap = s.freeSlotsBitmap) :
    KernelIndex s' m (n + 1) := by
  have hlt := h.nextPid_lt
  have hnext : s'.nextPid = s.nextPid + 1 := by
    rw [hc.nextPid, Nat.mod_eq_of_lt hlt.1]
  have hfew := h.few
  refine ⟨h.slots.created_unmarked hn hc hbits, by omega, fun k hk => ?_, fun k hk hpid => ?_⟩
  · rw [hindex]
    exact h.fresh k (by omega)
  · rw [hindex] at hk hpid ⊢
    have hne : s.pidToIndex k ≠ n := by
      intro heq
      rw [heq, hc.pid] at hpid
      rw [h.fresh k (by omega)] at hk
      exact absurd hk (lt_irrefl _)
    rw [hc.others _ hne] at hpid ⊢
    exact h.kernel k hk hpid

/-- A new kernel process, in the slot that the bitmap offers. -/
theorem spawnKernel (h : KernelIndex s m n) (name : Option CStr) {res : Spawned}
    (hcall : procSpawnKernel s name = some res) : ∃ m' n', KernelIndex res.procs m' n' := by
  have hlt := h.nextPid_lt
  have hslot := h.slots.findFreeSlot
  have hle := h.slots.le
  have hin := h.slots.inTable
  by_cases hm : m < procMax
  · rw [if_pos hm] at hslot
    obtain ⟨s', hs', hc, huser, hindex, hbits⟩ := procSpawnKernel_spec name hslot hlt.2
    rw [Option.some.inj (hcall.symm.trans hs')]
    have hnext : s'.nextPid = s.nextPid + 1 := by
      rw [hc.nextPid, Nat.mod_eq_of_lt hlt.1]
    have hfew := h.few
    have hslots : ∃ n', n ≤ n' ∧ SlotsOk s' (m + 1) n' := by
      by_cases hmn : m = n
      · subst hmn
        exact ⟨m + 1, by omega, h.slots.created_marked hm hc hbits⟩
      · refine ⟨n, le_refl n, by omega, hin, fun i hi => ?_, fun i => ?_⟩
        · by_cases him : i = m
          · subst him
            rw [hc.state]
            simp only [ne_eq, reduceCtorEq, not_false_eq_true, true_iff]
            omega
          · rw [hc.others i him]
            exact h.slots.filled i hi
        · rw [hbits, bitTest_bitSet _ hm, h.slots.marked, ← Bool.decide_or]
          congr 1
          apply propext
          omega
    obtain ⟨n', hn', hslots⟩ := hslots
    refine ⟨m + 1, n', hslots, by dsimp only; omega, fun k hk => ?_, fun k hk hpid => ?_⟩
    · dsimp only at hk ⊢
      rw [hindex, Function.update_of_ne (by omega)]
      exact h.fresh k (by omega)
    · dsimp only at hk hpid ⊢
      rw [hindex] at hk hpid ⊢
      by_cases hkn : k = s.nextPid
      · rw [hkn, Function.update_self]
        exact huser
      · rw [Function.update_of_ne hkn] at hk hpid ⊢
        have hne : s.pidToIndex k ≠ m := by
          intro heq
          rw [heq, hc.pid] at hpid
          exact hkn hpid.symm
        rw [hc.others _ hne] at hpid ⊢
        exact h.kernel k hk hpid
  · rw [if_neg hm] at hslot
    unfold procSpawnKernel at hcall
    rw [hslot] at hcall
    rw [← Option.some.inj hcall]
    exact ⟨m, n, h⟩

theorem exit (h : KernelIndex s m n) (pid : Nat) (exitCode : Int) (kernelCr3 : Nat) :
    KernelIndex (procExit s pid exitCode kernelCr3).1 m n := by
  obtain ⟨hentries, hindex, -, hnext⟩ := procExit_spec s pid exitCode kernelCr3
  refine ⟨h.slots.exit pid exitCode kernelCr3, by rw [hnext]; exact h.few, fun k hk => ?_,
    fun k hk hpid => ?_⟩
  · rw [hindex]
    exact h.fresh k (by rw [← hnext]; exact hk)
  · rw [hindex] at hk hpid ⊢
    rw [(hentries _).1] at hpid
    rw [(hentries _).2.1]
    exact h.kernel k hk hpid

theorem setCurrent (h : KernelIndex s m n) (pid : Nat) : KernelIndex (procSetCurrent s pid) m n :=
  ⟨⟨h.slots.le, h.slots.inTable, h.slots.filled, h.slots.marked⟩, h.few, h.fresh, h.kernel⟩

theorem memSpawnUser {m : ProcMem} {a b : Nat} (h : KernelIndex m.procs a b) (name : Option CStr)
    (entry stackTop : Nat) :
    ∃ a b, KernelIndex (BrightS.memSpawnUser m name entry stackTop).procs a b := by
  have hfirst := h.slots.firstUnused
  unfold BrightS.memSpawnUser
  by_cases hb : b < procMax
  · rw [if_pos hb] at hfirst
    rw [hfirst]
    dsimp only
    generalize pagingCreateAddressSpace m.paging = space
    obtain ⟨s', hs', hcreated, hindex, hbits⟩ :=
      procSpawnUser_spec name entry stackTop space.2 (allocKstack space.1).2 hfirst
    rw [hs']
    exact ⟨a, b + 1, h.created hb hcreated hindex hbits⟩
  · rw [if_neg hb] at hfirst
    rw [hfirst]
    exact ⟨a, b, h⟩

/-- The parent is a kernel process, so there is nothing to clone. -/
theorem memFork {m : ProcMem} {a b : Nat} (h : KernelIndex m.procs a b) :
    ∃ a b, KernelIndex (BrightS.memFork m).procs a b := by
  have hfirst := h.slots.firstUnused
  unfold BrightS.memFork
  cases hparent : procGetCurrent m.procs with
  | none => exact ⟨a, b, h⟩
  | some parent =>
      have hkernel := h.current hparent
      by_cases hb : b < procMax
      · rw [if_pos hb] at hfirst
        rw [hfirst]
        dsimp only
        rw [if_neg (by simp [hkernel])]
        have hclone : ¬ CloneFails m.procs parent 0 := by simp [CloneFails, hkernel]
        obtain ⟨s', hs', hcreated, hindex, hbits⟩ :=
          procFork_spec (allocKstack m.paging).2 hparent hfirst hclone
        rw [hs']
        exact ⟨a, b + 1, h.created hb hcreated hindex hbits⟩
      · rw [if_neg hb] at hfirst
        rw [hfirst]
        exact ⟨a, b, h⟩

end KernelIndex

/-! ### Pages of the allocator -/

/-- A page that the allocator manages. -/
def Managed (pm : Pmem) (x : Nat) : Prop :=
  ∃ i, i < pmemMaxPages ∧ x = pm.base + i * pageSize ∧ x + pageSize ≤ 2 ^ 52

/-- A page that was handed out and not given back. -/
def PageHeld (pm : Pmem) (x : Nat) : Prop := Managed pm x ∧ ¬ AddrFree pm x

theorem AddrFree.managed {pm : Pmem} {x : Nat} (h : PmemSane pm) (hx : AddrFree pm x) :
    Managed pm x := by
  obtain ⟨i, hi, rfl⟩ := hx
  exact ⟨i, hi.1, rfl, h.below i hi⟩

theorem pmemAllocPage_base (pm : Pmem) : (pmemAllocPage pm).1.base = pm.base := by
  rcases pmemAllocPage_spec pm with hnone | ⟨idx, ht, -⟩
  · rw [hnone]
  · exact ht.base

/-- A page is handed out: it is held from then on, and all others are as before. -/
theorem pmemAllocPage_held {pm : Pmem} (h : PmemSane pm) :
    pmemAllocPage pm = (pm, 0) ∨
      ((pmemAllocPage pm).2 ≠ 0 ∧ (pmemAllocPage pm).2 % 4096 = 0 ∧
        AddrFree pm (pmemAllocPage pm).2 ∧ PmemSane (pmemAllocPage pm).1 ∧
        PageHeld (pmemAllocPage pm).1 (pmemAllocPage pm).2 ∧
        (∀ y, PageHeld pm y → PageHeld (pmemAllocPage pm).1 y) ∧
        ∀ y, AddrFree (pmemAllocPage pm).1 y ↔ AddrFree pm y ∧ y ≠ (pmemAllocPage pm).2) := by
  have hbase := pmemAllocPage_base pm
  rcases pmemAllocPage_addr h with hnone | ⟨hfree, hne, halign, -, hsane, hrest⟩
  · exact .inl hnone
  · have hmanaged : ∀ y, Managed pm y → Managed (pmemAllocPage pm).1 y := by
      intro y hy
      unfold Managed
      rw [hbase]
      exact hy
    refine .inr ⟨hne, halign, hfree, hsane, ⟨hmanaged _ (hfree.managed h), fun hx => ?_⟩,
      fun y hy => ⟨hmanaged y hy.1, fun hx => ?_⟩, hrest⟩
    · exact ((hrest _).mp hx).2 rfl
    · exact hy.2 ((hrest y).mp hx).1

/-- A page that is held is given back. -/
theorem pmemFreePage_held {pm : Pmem} {x : Nat} (h : PmemSane pm) (hx : PageHeld pm x) :
    PmemSane (pmemFreePage pm x) ∧
      (∀ y, AddrFree (pmemFreePage pm x) y ↔ AddrFree pm y ∨ y = x) ∧
      ∀ y, y ≠ x → PageHeld pm y → PageHeld (pmemFreePage pm x) y := by
  have hps : pageSize = 4096 := rfl
  have hpos := h.pos
  have haligned := h.aligned
  obtain ⟨⟨i, hi, rfl, hbelow⟩, -⟩ := hx
  have hgave := pmemFreePages_spec pm i (n := 1) hpos Nat.one_pos (by omega) (by omega)
  rw [← pmemFreePage_eq] at hgave
  have hrest : ∀ j, PageFree (pmemFreePage pm (pm.base + i * pageSize)) j ↔
      PageFree pm j ∨ j = i := by
    intro j
    rw [hgave.rest j, Ranges.Range.Has]
    dsimp only
    exact or_congr_right (by omega)
  have hfree : ∀ y, AddrFree (pmemFreePage pm (pm.base + i * pageSize)) y ↔
      AddrFree pm y ∨ y = pm.base + i * pageSize := by
    intro y
    unfold AddrFree
    rw [hgave.base]
    constructor
    · rintro ⟨j, hj, rfl⟩
      rcases (hrest j).mp hj with hj | rfl
      · exact .inl ⟨j, hj, rfl⟩
      · exact .inr rfl
    · rintro (⟨j, hj, rfl⟩ | rfl)
      · exact ⟨j, (hrest j).mpr (.inl hj), rfl⟩
      · exact ⟨i, (hrest i).mpr (.inr rfl), rfl⟩
  have halign : (pm.base + i * pageSize) % 4096 = 0 := by
    rw [hps]
    omega
  refine ⟨(pmemFreePage_addr h halign (by omega)).1, hfree, fun y hne hy => ⟨?_, fun hy' => ?_⟩⟩
  · unfold Managed
    rw [hgave.base]
    exact hy.1
  · rcases (hfree y).mp hy' with hy' | heq
    · exact hy.2 hy'
    · exact hne heq

/-- Pages that are held are given back, one by one. -/
theorem pmemFreePages_held (xs : List Nat) : ∀ {pm : Pmem}, PmemSane pm → xs.Nodup →
    (∀ x ∈ xs, PageHeld pm x) →
    PmemSane (xs.foldl pmemFreePage pm) ∧
      (∀ y, AddrFree (xs.foldl pmemFreePage pm) y ↔ AddrFree pm y ∨ y ∈ xs) ∧
      ∀ y, y ∉ xs → PageHeld pm y → PageHeld (xs.foldl pmemFreePage pm) y := by
  induction xs with
  | nil =>
      intro pm h _ _
      exact ⟨h, fun y => by simp, fun y _ hy => hy⟩
  | cons x rest ih =>
      intro pm h hnodup hheld
      obtain ⟨hnot, hrest⟩ := List.nodup_cons.mp hnodup
      obtain ⟨hsane, hfree, hkeep⟩ := pmemFreePage_held h (hheld x (by simp))
      obtain ⟨hsane', hfree', hkeep'⟩ := ih hsane hrest fun y hy =>
        hkeep y (fun heq => hnot (heq ▸ hy)) (hheld y (by simp [hy]))
      refine ⟨hsane', fun y => ?_, fun y hy hy' => ?_⟩
      · rw [List.foldl_cons, hfree' y, hfree y, List.mem_cons, or_assoc]
      · rw [List.mem_cons, not_or] at hy
        exact hkeep' y hy.2 (hkeep y hy.1 hy')

/-! ### The pages of a process -/

/-- The process is there and has not exited. -/
def Alive (p : ProcInfo) : Prop := p.state ≠ .unused ∧ p.state ≠ .zombie

/-- The page of the address space and the page of the kernel stack. -/
def procPages (p : ProcInfo) : List Nat :=
  (if p.isUser = true ∧ p.cr3 ≠ 0 then [p.cr3] else []) ++
    (if p.kernelStack ≠ 0 then [sub64 p.kernelStack procKstackSize] else [])

/-- The pages an exit of this process passes to the allocator. -/
def exitPages (s : Paging) (p : ProcInfo) (cr3 : Nat) : List Nat :=
  (exitRequests p cr3).flatMap (requestPages s)

/-- The user half of the space is empty. -/
def EmptySpace (s : Paging) (cr3 : Nat) : Prop :=
  cr3 &&& lnot64 0xFFF = cr3 ∧ ∀ k : PtIndex, k.val < 256 → ¬ ptePresent (readPte s cr3 k)

theorem EmptySpace.pages {s : Paging} {cr3 : Nat} (h : EmptySpace s cr3) (hne : cr3 ≠ 0) :
    spacePages s cr3 = [cr3] := by
  unfold spacePages
  dsimp only
  rw [h.1, if_pos hne]
  show ptTreePages s (2 + 1) 256 cr3 = [cr3]
  rw [ptTreePages]
  have hnil : ((ptIndexes 256).flatMap fun i =>
      let e := readPte s cr3 i
      if ¬ ptePresent e then [] else
      if pteHuge e then [] else ptTreePages s 2 512 (pteAddr e)) = [] := by
    refine List.flatMap_eq_nil_iff.mpr fun i hi => ?_
    have hlt : i.val < 256 := by simpa [ptIndexes] using hi
    exact if_pos (h.2 i hlt)
  rw [hnil]
  rfl

/-- The files and the hooks are no pages. -/
theorem exitPages_eq (s : Paging) (p : ProcInfo) (cr3 : Nat) :
    exitPages s p cr3 =
      (if p.cr3 ≠ 0 ∧ p.isUser = true ∧ p.cr3 ≠ cr3 then spacePages s p.cr3 else []) ++
        (if p.kernelStack ≠ 0 then [sub64 p.kernelStack procKstackSize] else []) := by
  unfold exitPages exitRequests
  have hfiles : (((((List.range procMaxFds).map p.fdTable).filter (· ≠ 0)).map
      ExitRequest.closeFile).flatMap (requestPages s)) = [] := by
    refine List.flatMap_eq_nil_iff.mpr fun request hrequest => ?_
    obtain ⟨file, -, rfl⟩ := List.mem_map.mp hrequest
    rfl
  rw [List.flatMap_append, List.flatMap_append, List.flatMap_append, hfiles]
  split <;> split <;> simp [requestPages]

/-- An exit releases pages of the process only. -/
theorem exitPages_sublist {s : Paging} {p : ProcInfo}
    (hempty : p.isUser = true → p.cr3 ≠ 0 → EmptySpace s p.cr3) (cr3 : Nat) :
    (exitPages s p cr3).Sublist (procPages p) := by
  rw [exitPages_eq]
  unfold procPages
  refine List.Sublist.append ?_ (List.Sublist.refl _)
  split
  · rename_i hspace
    rw [(hempty hspace.2.1 hspace.1).pages hspace.1, if_pos ⟨hspace.2.1, hspace.1⟩]
  · exact List.nil_sublist _

/-- **Processes that are alive hold their pages**, each its own. -/
structure PagesHeld (m : ProcMem) : Prop where
  sane : PmemSane m.paging.pm
  held : ∀ i, Alive (m.procs.table i) → ∀ x ∈ procPages (m.procs.table i), PageHeld m.paging.pm x
  nodup : ∀ i, Alive (m.procs.table i) → (procPages (m.procs.table i)).Nodup
  apart : ∀ i j, i ≠ j → Alive (m.procs.table i) → Alive (m.procs.table j) →
    ∀ x ∈ procPages (m.procs.table i), x ∉ procPages (m.procs.table j)
  empty : ∀ i, Alive (m.procs.table i) → (m.procs.table i).isUser = true →
    (m.procs.table i).cr3 ≠ 0 → EmptySpace m.paging (m.procs.table i).cr3

namespace PagesHeld

variable {m m' : ProcMem}

theorem init (s₀ : ProcTable) {s : Paging} (hsane : PmemSane s.pm) :
    PagesHeld { procs := procInit s₀, paging := s } := by
  have hnone : ∀ i, ¬ Alive ((procInit s₀).table i) := fun i hi => hi.1 rfl
  exact ⟨hsane, fun i hi => absurd hi (hnone i), fun i hi => absurd hi (hnone i),
    fun i _ _ hi => absurd hi (hnone i), fun i hi => absurd hi (hnone i)⟩

/-- One entry is written.  What it holds afterwards is new, and nobody else's pages have changed. -/
theorem written (h : PagesHeld m) {slot : Nat} (hsane : PmemSane m'.paging.pm)
    (hothers : ∀ j, j ≠ slot → m'.procs.table j = m.procs.table j)
    (hkeep : ∀ x, PageHeld m.paging.pm x → PageHeld m'.paging.pm x)
    (hread : ∀ x k, PageHeld m.paging.pm x → readPte m'.paging x k = readPte m.paging x k)
    (hnew : Alive (m'.procs.table slot) → (procPages (m'.procs.table slot)).Nodup ∧
      (∀ x ∈ procPages (m'.procs.table slot), PageHeld m'.paging.pm x ∧ ¬ PageHeld m.paging.pm x) ∧
      ((m'.procs.table slot).isUser = true → (m'.procs.table slot).cr3 ≠ 0 →
        EmptySpace m'.paging (m'.procs.table slot).cr3)) : PagesHeld m' := by
  have hold : ∀ j, j ≠ slot → Alive (m'.procs.table j) → Alive (m.procs.table j) := by
    intro j hj halive
    rwa [hothers j hj] at halive
  refine ⟨hsane, fun i hi x hx => ?_, fun i hi => ?_, fun i j hij hi hj x hx hx' => ?_,
    fun i hi huser hcr3 => ?_⟩
  · by_cases his : i = slot
    · subst his
      exact ((hnew hi).2.1 x hx).1
    · rw [hothers i his] at hx
      exact hkeep x (h.held i (hold i his hi) x hx)
  · by_cases his : i = slot
    · subst his
      exact (hnew hi).1
    · rw [hothers i his]
      exact h.nodup i (hold i his hi)
  · by_cases his : i = slot
    · subst his
      have hjs : j ≠ i := fun heq => hij heq.symm
      rw [hothers j hjs] at hx'
      exact ((hnew hi).2.1 x hx).2 (h.held j (hold j hjs hj) x hx')
    · by_cases hjs : j = slot
      · subst hjs
        rw [hothers i his] at hx
        exact ((hnew hj).2.1 x hx').2 (h.held i (hold i his hi) x hx)
      · rw [hothers i his] at hx
        rw [hothers j hjs] at hx'
        exact h.apart i j hij (hold i his hi) (hold j hjs hj) x hx hx'
  · by_cases his : i = slot
    · subst his
      exact (hnew hi).2.2 huser hcr3
    · rw [hothers i his] at huser hcr3 ⊢
      obtain ⟨halign, hempty⟩ := h.empty i (hold i his hi) huser hcr3
      have hheld : PageHeld m.paging.pm (m.procs.table i).cr3 :=
        h.held i (hold i his hi) _ (by simp [procPages, huser, hcr3])
      refine ⟨halign, fun k hk => ?_⟩
      rw [hread _ k hheld]
      exact hempty k hk

end PagesHeld

/-! ### New processes -/

theorem inheritCwd_entry (s : ProcTable) (slot : Nat) :
    ((inheritCwd s slot).table slot).isUser = (s.table slot).isUser ∧
      ((inheritCwd s slot).table slot).cr3 = (s.table slot).cr3 ∧
      ((inheritCwd s slot).table slot).kernelStack = (s.table slot).kernelStack := by
  unfold inheritCwd
  split <;> simp [ProcTable.put]

theorem procSpawnUser_entry {s : ProcTable} {slot : Nat} (name : Option CStr)
    (entry stackTop cr3 kstackPage : Nat) (hslot : procFirstUnused s = some slot) :
    let p := (procSpawnUser s name entry stackTop cr3 kstackPage).procs.table slot
    p.isUser = true ∧ p.cr3 = cr3 ∧ p.kernelStack = kstackTop kstackPage := by
  unfold procSpawnUser
  rw [hslot]
  simp [ProcTable.put, inheritCwd_entry]

/-- The child of a kernel process has a stack and no address space. -/
theorem procFork_entry {s : ProcTable} {slot parentIdx : Nat} (kstackPage : Nat)
    (hparent : procGetCurrent s = some parentIdx) (hslot : procFirstUnused s = some slot)
    (hkernel : (s.table parentIdx).isUser = false) :
    let p := (procFork s 0 kstackPage).procs.table slot
    p.isUser = false ∧ p.kernelStack = kstackTop kstackPage := by
  unfold procFork
  rw [hparent, hslot]
  simp [ProcTable.put, hkernel]

/-- The stack page is found again below the stack pointer. -/
theorem sub64_kstackTop {page : Nat} (hne : page ≠ 0) (hlt : page + pageSize ≤ 2 ^ 52) :
    kstackTop page ≠ 0 ∧ sub64 (kstackTop page) procKstackSize = page := by
  have hps : pageSize = 4096 := rfl
  have hks : procKstackSize = 8192 := rfl
  unfold kstackTop sub64
  rw [if_pos hne, hks]
  omega

theorem Managed.lt {pm : Pmem} {x : Nat} (h : Managed pm x) : x + pageSize ≤ 2 ^ 52 := by
  obtain ⟨i, -, -, hlt⟩ := h
  exact hlt

/-- One page more is held, or nothing has happened: an allocation that answers `page`. -/
structure Allocated (s s' : Paging) (page : Nat) : Prop where
  sane : PmemSane s'.pm
  keep : ∀ x, PageHeld s.pm x → PageHeld s'.pm x
  new : page ≠ 0 → page % 4096 = 0 ∧ AddrFree s.pm page ∧ PageHeld s'.pm page
  free : ∀ x, AddrFree s'.pm x ↔ AddrFree s.pm x ∧ x ≠ page
  read : ∀ x k, x ≠ page → readPte s' x k = readPte s x k

theorem Allocated.of_pmem {s s' : Paging} {res : Pmem × Nat} (h : PmemSane s.pm)
    (hres : pmemAllocPage s.pm = res) (hpm : s'.pm = res.1)
    (hread : ∀ x k, x ≠ res.2 → readPte s' x k = readPte s x k) : Allocated s s' res.2 := by
  have hcases := pmemAllocPage_held h
  rw [hres] at hcases
  rcases hcases with hnone | ⟨hne, halign, hfree, hsane, hheld, hkeep, hrest⟩
  · have hsame : s'.pm = s.pm := by rw [hpm, hnone]
    refine ⟨by rw [hsame]; exact h, fun x hx => by rw [hsame]; exact hx, fun hpage => ?_,
      fun x => ?_, hread⟩
    · rw [hnone] at hpage
      exact absurd rfl hpage
    · rw [hsame, hnone]
      refine ⟨fun hx => ⟨hx, ?_⟩, fun hx => hx.1⟩
      obtain ⟨i, -, rfl⟩ := hx
      have := h.pos
      omega
  · rw [← hpm] at hsane hheld hkeep hrest
    exact ⟨hsane, hkeep, fun _ => ⟨halign, hfree, hheld⟩, hrest, hread⟩

theorem allocKstack_allocated {s : Paging} (h : PmemSane s.pm) :
    Allocated s (allocKstack s).1 (allocKstack s).2 := by
  obtain ⟨res, hres⟩ : ∃ res, pmemAllocPage s.pm = res := ⟨_, rfl⟩
  have heq : allocKstack s = ({ s with pm := res.1 }, res.2) := by rw [allocKstack, hres]
  rw [heq]
  exact Allocated.of_pmem h hres rfl fun _ _ _ => rfl

theorem copyKernelHalf_read (s : Paging) (new x : Nat) (k : PtIndex)
    (hk : x ≠ new ∨ k.val < 256) : readPte (copyKernelHalf s new) x k = readPte s x k := by
  unfold copyKernelHalf
  split
  · rfl
  · unfold readPte
    dsimp only
    by_cases hx : x = new
    · subst hx
      rw [Function.update_self, if_neg (by omega)]
    · rw [Function.update_of_ne hx]

theorem copyKernelHalf_pm (s : Paging) (new : Nat) : (copyKernelHalf s new).pm = s.pm := by
  unfold copyKernelHalf
  split <;> rfl

/-- A new space takes one page from the allocator. -/
theorem pagingCreateAddressSpace_pm (s : Paging) :
    (pagingCreateAddressSpace s).1.pm = (pmemAllocPage s.pm).1 ∧
      (pagingCreateAddressSpace s).2 = (pmemAllocPage s.pm).2 := by
  obtain ⟨res, hres⟩ : ∃ res, pmemAllocPage s.pm = res := ⟨_, rfl⟩
  rw [pagingCreateAddressSpace, allocPtPage, hres]
  by_cases hzero : res.2 = 0
  · rw [if_pos hzero, if_pos rfl]
    exact ⟨rfl, hzero.symm⟩
  · rw [if_neg hzero, if_neg hzero]
    dsimp only
    exact ⟨copyKernelHalf_pm _ _, rfl⟩

/-- A new space is one page, and its user half is empty. -/
theorem pagingCreateAddressSpace_allocated {s : Paging} (h : PmemSane s.pm) :
    Allocated s (pagingCreateAddressSpace s).1 (pagingCreateAddressSpace s).2 ∧
      ((pagingCreateAddressSpace s).2 ≠ 0 →
        EmptySpace (pagingCreateAddressSpace s).1 (pagingCreateAddressSpace s).2) := by
  obtain ⟨res, hres⟩ : ∃ res, pmemAllocPage s.pm = res := ⟨_, rfl⟩
  rw [pagingCreateAddressSpace, allocPtPage, hres]
  have hof : ∀ s' : Paging, s'.pm = res.1 →
      (∀ x k, x ≠ res.2 → readPte s' x k = readPte s x k) → Allocated s s' res.2 :=
    fun s' => Allocated.of_pmem h hres
  clear hres
  by_cases hzero : res.2 = 0
  · rw [if_pos hzero, if_pos rfl]
    have hsame := hof { s with pm := res.1, allocFailed := true } rfl fun _ _ _ => rfl
    rw [hzero] at hsame
    exact ⟨hsame, fun hne => absurd rfl hne⟩
  · obtain ⟨s₁, hs₁⟩ : ∃ s₁, s₁ =
        ({ s with pm := res.1, mem := Function.update s.mem res.2 fun _ => 0 } : Paging) := ⟨_, rfl⟩
    rw [if_neg hzero, if_neg hzero]
    dsimp only
    rw [← hs₁]
    have hpm : (copyKernelHalf s₁ res.2).pm = res.1 := by rw [copyKernelHalf_pm, hs₁]
    have hread : ∀ x k, x ≠ res.2 → readPte (copyKernelHalf s₁ res.2) x k = readPte s x k := by
      intro x k hx
      rw [copyKernelHalf_read s₁ res.2 x k (.inl hx), hs₁]
      unfold readPte
      dsimp only
      rw [Function.update_of_ne hx]
    refine ⟨hof _ hpm hread, fun _ => ⟨?_, fun k hk => ?_⟩⟩
    · obtain ⟨haligned, hfree, hheld⟩ := (hof _ hpm hread).new hzero
      have hlt := hheld.1.lt
      have hps : pageSize = 4096 := rfl
      have hmask := and_lnot64_mask (x := res.2) (k := 12) (by omega) (by omega)
      rw [show (0xFFF : Nat) = 2 ^ 12 - 1 from rfl, hmask]
      omega
    · rw [copyKernelHalf_read s₁ res.2 res.2 k (.inr hk), hs₁]
      unfold readPte
      dsimp only
      rw [Function.update_self]
      simp [ptePresent]

theorem Allocated.lt {s s' : Paging} {page : Nat} (h : Allocated s s' page) (hne : page ≠ 0) :
    page + pageSize ≤ 2 ^ 52 := ((h.new hne).2.2).1.lt

/-- The page was held by nobody. -/
theorem Allocated.not_held {s s' : Paging} {page : Nat} (h : Allocated s s' page) (hne : page ≠ 0) :
    ¬ PageHeld s.pm page := fun hheld => hheld.2 (h.new hne).2.1

/-- A page that is held is not handed out. -/
theorem Allocated.ne_held {s s' : Paging} {page x : Nat} (h : Allocated s s' page)
    (hsane : PmemSane s.pm) (hx : PageHeld s.pm x) : x ≠ page := by
  intro heq
  subst heq
  by_cases hzero : x = 0
  · obtain ⟨⟨i, -, hi, -⟩, -⟩ := hx
    have := hsane.pos
    omega
  · exact h.not_held hzero hx

/-- The stack page that a new entry holds. -/
theorem kstack_pages {page : Nat} (hlt : page ≠ 0 → page + pageSize ≤ 2 ^ 52) :
    (if kstackTop page ≠ 0 then [sub64 (kstackTop page) procKstackSize] else []) =
      if page ≠ 0 then [page] else [] := by
  by_cases hne : page = 0
  · subst hne
    rfl
  · obtain ⟨htop, hsub⟩ := sub64_kstackTop hne (hlt hne)
    rw [if_pos htop, if_pos hne, hsub]

/-- A user process is created. -/
theorem PagesHeld.spawnUser {m : ProcMem} (h : PagesHeld m) (name : Option CStr)
    (entry stackTop : Nat) : PagesHeld (memSpawnUser m name entry stackTop) := by
  unfold memSpawnUser
  cases hslot : procFirstUnused m.procs with
  | none => exact h
  | some slot =>
      dsimp only
      obtain ⟨hspace, hempty⟩ := pagingCreateAddressSpace_allocated h.sane
      generalize pagingCreateAddressSpace m.paging = space at hspace hempty ⊢
      have hstack := allocKstack_allocated hspace.sane
      generalize allocKstack space.1 = stack at hstack ⊢
      obtain ⟨s', hs', hcreated, -⟩ := procSpawnUser_spec name entry stackTop space.2 stack.2 hslot
      obtain ⟨huser, hcr3, hkstack⟩ :=
        procSpawnUser_entry name entry stackTop space.2 stack.2 hslot
      rw [hs'] at huser hcr3 hkstack ⊢
      dsimp only at huser hcr3 hkstack ⊢
      have hpages : procPages (s'.table slot) =
          (if space.2 ≠ 0 then [space.2] else []) ++ (if stack.2 ≠ 0 then [stack.2] else []) := by
        unfold procPages
        rw [huser, hcr3, hkstack, kstack_pages hstack.lt]
        simp
      refine h.written hstack.sane hcreated.others (fun x hx => hstack.keep x (hspace.keep x hx))
        (fun x k hx => ?_) fun _ => ⟨?_, fun x hx => ?_, fun _ hne => ?_⟩
      · rw [hstack.read x k (hstack.ne_held hspace.sane (hspace.keep x hx)),
          hspace.read x k (hspace.ne_held h.sane hx)]
      · rw [hpages]
        by_cases hs : space.2 = 0
        · rw [if_neg (not_not_intro hs)]
          split <;> simp
        · by_cases hk : stack.2 = 0
          · rw [if_neg (not_not_intro hk)]
            split <;> simp
          · have hne := hstack.ne_held hspace.sane (hspace.new hs).2.2
            simp [hs, hk, hne]
      · rw [hpages, List.mem_append] at hx
        rcases hx with hx | hx
        · split at hx
          · rename_i hs
            rw [List.mem_singleton.mp hx]
            exact ⟨hstack.keep _ (hspace.new hs).2.2, hspace.not_held hs⟩
          · exact absurd hx (by simp)
        · split at hx
          · rename_i hk
            rw [List.mem_singleton.mp hx]
            exact ⟨(hstack.new hk).2.2, fun hheld => hstack.not_held hk (hspace.keep _ hheld)⟩
          · exact absurd hx (by simp)
      · rw [hcr3] at hne ⊢
        obtain ⟨halign, hnone⟩ := hempty hne
        refine ⟨halign, fun k hk => ?_⟩
        rw [hstack.read _ k (hstack.ne_held hspace.sane (hspace.new hne).2.2)]
        exact hnone k hk

/-- A child of a kernel process is created. -/
theorem PagesHeld.fork {m : ProcMem} (h : PagesHeld m)
    (hkernel : ∀ i, procGetCurrent m.procs = some i → (m.procs.table i).isUser = false) :
    PagesHeld (memFork m) := by
  unfold memFork
  cases hparent : procGetCurrent m.procs with
  | none => exact h
  | some parent =>
      cases hslot : procFirstUnused m.procs with
      | none => exact h
      | some slot =>
          have hk := hkernel parent hparent
          dsimp only
          rw [if_neg (by simp [hk])]
          have hstack := allocKstack_allocated h.sane
          obtain ⟨stack, hres⟩ : ∃ stack, allocKstack m.paging = stack := ⟨_, rfl⟩
          rw [hres] at hstack ⊢
          have hclone : ¬ CloneFails m.procs parent 0 := by simp [CloneFails, hk]
          obtain ⟨s', hs', hcreated, -⟩ := procFork_spec stack.2 hparent hslot hclone
          obtain ⟨huser, hkstack⟩ := procFork_entry stack.2 hparent hslot hk
          rw [hs'] at huser hkstack ⊢
          dsimp only at huser hkstack ⊢
          have hpages : procPages (s'.table slot) = if stack.2 ≠ 0 then [stack.2] else [] := by
            unfold procPages
            rw [huser, hkstack, kstack_pages hstack.lt]
            simp
          refine h.written hstack.sane hcreated.others hstack.keep (fun x k hx => ?_)
            fun _ => ⟨?_, fun x hx => ?_, fun hu => ?_⟩
          · exact hstack.read x k (hstack.ne_held h.sane hx)
          · rw [hpages]
            split <;> simp
          · rw [hpages] at hx
            split at hx
            · rename_i hne
              rw [List.mem_singleton.mp hx]
              exact ⟨(hstack.new hne).2.2, hstack.not_held hne⟩
            · exact absurd hx (by simp)
          · rw [huser] at hu
            exact absurd hu (by simp)

/-- A kernel process has no pages. -/
theorem procSpawnKernel_pages {s : ProcTable} {name : Option CStr} {res : Spawned} {slot : Nat}
    (hcall : procSpawnKernel s name = some res) (hslot : res.slot = some slot) :
    procPages (res.procs.table slot) = [] := by
  unfold procSpawnKernel at hcall
  split at hcall
  · rw [← Option.some.inj hcall] at hslot
    exact absurd hslot (by simp)
  · rename_i slot' _
    dsimp only at hcall
    split at hcall
    · rw [← Option.some.inj hcall] at hslot ⊢
      obtain rfl := Option.some.inj hslot
      simp [procPages, inheritCwd_entry, ProcTable.put]
    · exact absurd hcall (by simp)

theorem PagesHeld.spawnKernel {m : ProcMem} (h : PagesHeld m) {name : Option CStr} {res : Spawned}
    (hcall : procSpawnKernel m.procs name = some res) :
    PagesHeld { m with procs := res.procs } := by
  have hpages : ∀ slot, res.slot = some slot → procPages (res.procs.table slot) = [] :=
    fun _ => procSpawnKernel_pages hcall
  rcases procSpawnKernel_cases hcall with rfl | ⟨s', slot, rfl, hcreated⟩
  · exact h
  · have hnone : procPages (s'.table slot) = [] := hpages slot rfl
    refine h.written h.sane hcreated.others (fun _ hx => hx) (fun _ _ _ => rfl)
      fun _ => ⟨?_, fun x hx => ?_, fun huser hcr3 => ?_⟩
    · dsimp only
      rw [hnone]
      exact List.nodup_nil
    · dsimp only at hx
      rw [hnone] at hx
      exact absurd hx (by simp)
    · dsimp only at huser hcr3
      simp [procPages, huser, hcr3] at hnone

/-! ### Exits -/

/-- An exit finds no process, or makes the one it finds a zombie and releases its pages. -/
theorem memExit_cases (m : ProcMem) (pid : Nat) (exitCode : Int) (cr3 : Nat) :
    (memExit m pid exitCode cr3 = m ∧ (procExit m.procs pid exitCode cr3).2.2 = []) ∨
      ∃ i, pid ≠ 0 ∧ procScan m.procs pid = some i ∧ (m.procs.table i).state ≠ .unused ∧
        (procExit m.procs pid exitCode cr3).2.2 = exitRequests (m.procs.table i) cr3 ∧
        memExit m pid exitCode cr3 =
          { procs := m.procs.put i { m.procs.table i with
              fdTable := fun _ => 0, state := .zombie, exitCode := exitCode }
            paging := { m.paging with
              pm := (exitPages m.paging (m.procs.table i) cr3).foldl pmemFreePage m.paging.pm } } := by
  unfold memExit procExit
  by_cases hz : pid = 0
  · simp [hz]
  · rw [if_neg hz]
    cases hscan : procScan m.procs pid with
    | none => exact .inl ⟨rfl, rfl⟩
    | some i =>
        have hused : (m.procs.table i).state ≠ .unused := by
          have := List.find?_some hscan
          simp only [Bool.and_eq_true, bne_iff_ne] at this
          exact this.2
        refine .inr ⟨i, hz, rfl, hused, rfl, ?_⟩
        dsimp only
        rw [serveRequest_eq]
        rfl

/-- The process that exits is alive, or has nothing left to release. -/
def ExitsOnce (m : ProcMem) (pid cr3 : Nat) : Prop :=
  ∀ i, procScan m.procs pid = some i → (m.procs.table i).state = .zombie →
    ((m.procs.table i).isUser = false ∨ (m.procs.table i).cr3 = 0 ∨ (m.procs.table i).cr3 = cr3) ∧
      (m.procs.table i).kernelStack = 0

theorem exitPages_nil {s : Paging} {p : ProcInfo} {cr3 : Nat}
    (hspace : p.isUser = false ∨ p.cr3 = 0 ∨ p.cr3 = cr3) (hstack : p.kernelStack = 0) :
    exitPages s p cr3 = [] := by
  rw [exitPages_eq, if_neg, if_neg (not_not_intro hstack)]
  · rfl
  · rintro ⟨hne, huser, hother⟩
    rcases hspace with hk | hz | heq
    · rw [hk] at huser
      exact absurd huser (by simp)
    · exact hne hz
    · exact hother heq

/-- What an exit releases is held, page by page. -/
theorem PagesHeld.exitPages {m : ProcMem} (h : PagesHeld m) {pid cr3 i : Nat}
    (honce : ExitsOnce m pid cr3) (hscan : procScan m.procs pid = some i)
    (hused : (m.procs.table i).state ≠ .unused) :
    (BrightS.exitPages m.paging (m.procs.table i) cr3).Nodup ∧
      ∀ x ∈ BrightS.exitPages m.paging (m.procs.table i) cr3, PageHeld m.paging.pm x ∧
        Alive (m.procs.table i) ∧ x ∈ procPages (m.procs.table i) := by
  by_cases hzombie : (m.procs.table i).state = .zombie
  · obtain ⟨hspace, hstack⟩ := honce i hscan hzombie
    rw [exitPages_nil hspace hstack]
    exact ⟨List.nodup_nil, fun x hx => absurd hx (by simp)⟩
  · have halive : Alive (m.procs.table i) := ⟨hused, hzombie⟩
    have hsub := exitPages_sublist (h.empty i halive) cr3
    refine ⟨(h.nodup i halive).sublist hsub, fun x hx => ?_⟩
    exact ⟨h.held i halive x (hsub.subset hx), halive, hsub.subset hx⟩

theorem PagesHeld.exit {m : ProcMem} (h : PagesHeld m) {pid cr3 : Nat} (exitCode : Int)
    (honce : ExitsOnce m pid cr3) : PagesHeld (memExit m pid exitCode cr3) := by
  rcases memExit_cases m pid exitCode cr3 with ⟨heq, -⟩ | ⟨i, -, hscan, hused, -, heq⟩
  · rw [heq]
    exact h
  · obtain ⟨hnodup, hpages⟩ := h.exitPages honce hscan hused
    obtain ⟨hsane, -, hkeep⟩ := pmemFreePages_held _ h.sane hnodup fun x hx => (hpages x hx).1
    rw [heq]
    have hothers : ∀ j, j ≠ i → (m.procs.put i { m.procs.table i with
        fdTable := fun _ => 0, state := .zombie, exitCode := exitCode }).table j =
        m.procs.table j := fun j hj => Function.update_of_ne hj _ _
    have hne : ∀ j, Alive ((m.procs.put i { m.procs.table i with
        fdTable := fun _ => 0, state := .zombie, exitCode := exitCode }).table j) → j ≠ i := by
      intro j hj heq
      subst heq
      simp [ProcTable.put, Alive] at hj
    refine ⟨hsane, fun j hj x hx => ?_, fun j hj => ?_, fun j k hjk hj hk x hx => ?_,
      fun j hj huser hcr3 => ?_⟩
    · have hji := hne j hj
      dsimp only at hj hx ⊢
      rw [hothers j hji] at hj hx
      refine hkeep x (fun hmem => ?_) (h.held j hj x hx)
      obtain ⟨-, halive, hown⟩ := hpages x hmem
      exact h.apart j i hji hj halive x hx hown
    · have hji := hne j hj
      dsimp only at hj ⊢
      rw [hothers j hji] at hj ⊢
      exact h.nodup j hj
    · have hji := hne j hj
      have hki := hne k hk
      dsimp only at hj hk hx ⊢
      rw [hothers j hji] at hj hx
      rw [hothers k hki] at hk ⊢
      exact h.apart j k hjk hj hk x hx
    · have hji := hne j hj
      dsimp only at hj huser hcr3 ⊢
      rw [hothers j hji] at hj huser hcr3 ⊢
      exact h.empty j hj huser hcr3

/-! ### Runs and the pages they release -/

/-- A call of the process code.  `exec` comes with what the ELF loader does, `cr3` is the
register's value at the call. -/
inductive MemCall where
  | spawnKernel (name : Option CStr)
  | spawnUser (name : Option CStr) (entry stackTop : Nat)
  | fork
  | exec (load : Paging → Paging × Option (Nat × Nat)) (cr3 : Nat)
  | exit (pid : Nat) (exitCode : Int) (cr3 : Nat)
  | setCurrent (pid : Nat)

/-- The pages that were free and are no longer. -/
def takenPages (pm pm' : Pmem) : Set Nat := {x | AddrFree pm x ∧ ¬ AddrFree pm' x}

/-- What exec takes and releases: the old space goes, a new one comes and is filled, and goes
again when the image is bad. -/
def execEvents (m : ProcMem) (load : Paging → Paging × Option (Nat × Nat)) : List (Event Nat) :=
  match procGetCurrent m.procs with
  | none => []
  | some i =>
      let p := m.procs.table i
      if p.isUser = false then [] else
      let destroyed := pagingDestroyAddressSpace m.paging p.cr3
      let space := pagingCreateAddressSpace destroyed
      let events := (spacePages m.paging p.cr3).map .released ++
        [.taken (takenPages destroyed.pm space.1.pm)]
      if space.2 = 0 then events else
      let loaded := load space.1
      events ++ [.taken (takenPages space.1.pm loaded.1.pm)] ++
        if loaded.2.isSome then [] else (spacePages loaded.1 space.2).map .released

/-- The current process is none or a kernel process, and exec refuses both. -/
theorem KernelIndex.memExec {m : ProcMem} {a b : Nat} (h : KernelIndex m.procs a b)
    (load : Paging → Paging × Option (Nat × Nat)) (cr3 : Nat) :
    BrightS.memExec m load cr3 = m ∧ execEvents m load = [] := by
  unfold BrightS.memExec execEvents
  cases hcurrent : procGetCurrent m.procs with
  | none => exact ⟨rfl, rfl⟩
  | some i =>
      have hkernel := h.current hcurrent
      exact ⟨if_pos hkernel, if_pos hkernel⟩

/-- The state after a call and what the call took and released, if the call is defined. -/
def ProcMem.call (m : ProcMem) : MemCall → Option (ProcMem × List (Event Nat))
  | .spawnKernel name =>
      (procSpawnKernel m.procs name).map fun res => ({ m with procs := res.procs }, [])
  | .spawnUser name entry stackTop =>
      let m' := memSpawnUser m name entry stackTop
      some (m', [.taken (takenPages m.paging.pm m'.paging.pm)])
  | .fork => some (memFork m, [.taken (takenPages m.paging.pm (memFork m).paging.pm)])
  | .exec load cr3 => some (memExec m load cr3, execEvents m load)
  | .exit pid exitCode cr3 =>
      some (memExit m pid exitCode cr3,
        ((procExit m.procs pid exitCode cr3).2.2.flatMap (requestPages m.paging)).map .released)
  | .setCurrent pid => some ({ m with procs := procSetCurrent m.procs pid }, [])

/-- A run: the state it is in and everything it took and released. -/
structure MemRun where
  mem : ProcMem
  events : List (Event Nat)

def MemRun.start (s₀ : ProcTable) (s : Paging) : MemRun where
  mem := { procs := procInit s₀, paging := s }
  events := []

def MemRun.step (r : MemRun) (c : MemCall) (r' : MemRun) : Prop :=
  ∃ m' events, r.mem.call c = some (m', events) ∧ r' = { mem := m', events := r.events ++ events }

/-- An exit finds a process that is alive, or has nothing left to release. -/
def ExitAllowed (r : MemRun) : MemCall → Prop
  | .exit pid _ cr3 => ExitsOnce r.mem pid cr3
  | _ => True

/-- **What was released is free**, and the processes hold the rest. -/
structure ReleaseInv (r : MemRun) : Prop where
  pages : PagesHeld r.mem
  index : ∃ m n, KernelIndex r.mem.procs m n
  balanced : Balanced r.events {x | AddrFree r.mem.paging.pm x}

namespace ReleaseInv

variable {r : MemRun}

/-- Pages were taken, and none was released. -/
theorem took (h : ReleaseInv r) {m' : ProcMem} (hpages : PagesHeld m')
    (hindex : ∃ m n, KernelIndex m'.procs m n) :
    ReleaseInv ⟨m', r.events ++ [.taken (takenPages r.mem.paging.pm m'.paging.pm)]⟩ := by
  refine ⟨hpages, hindex, h.balanced.take fun x hx hnot => ?_⟩
  by_contra hfree
  exact hnot ⟨hx, hfree⟩

/-- The pages are as before. -/
theorem kept (h : ReleaseInv r) {m' : ProcMem} (hpages : PagesHeld m')
    (hindex : ∃ m n, KernelIndex m'.procs m n) (hsame : m'.paging = r.mem.paging) :
    ReleaseInv ⟨m', r.events ++ []⟩ := by
  refine ⟨hpages, hindex, ?_⟩
  rw [List.append_nil]
  dsimp only
  rw [hsame]
  exact h.balanced

theorem exit (h : ReleaseInv r) {pid cr3 : Nat} (exitCode : Int)
    (honce : ExitsOnce r.mem pid cr3) :
    ReleaseInv ⟨memExit r.mem pid exitCode cr3, r.events ++
      ((procExit r.mem.procs pid exitCode cr3).2.2.flatMap
        (requestPages r.mem.paging)).map .released⟩ := by
  obtain ⟨m, n, hindex⟩ := h.index
  refine ⟨h.pages.exit exitCode honce, ⟨m, n, hindex.exit pid exitCode cr3⟩, ?_⟩
  rcases memExit_cases r.mem pid exitCode cr3 with
    ⟨heq, hnone⟩ | ⟨i, -, hscan, hused, hrequests, heq⟩
  · dsimp only
    rw [heq, hnone, List.flatMap_nil, List.map_nil, List.append_nil]
    exact h.balanced
  · dsimp only
    rw [heq, hrequests]
    obtain ⟨hnodup, hpages⟩ := h.pages.exitPages honce hscan hused
    obtain ⟨-, hfree, -⟩ := pmemFreePages_held _ h.pages.sane hnodup fun x hx => (hpages x hx).1
    exact h.balanced.releases _ hnodup (fun x hx => (hpages x hx).1.2) hfree

theorem init (s₀ : ProcTable) {s : Paging} (hsane : PmemSane s.pm) :
    ReleaseInv (MemRun.start s₀ s) :=
  ⟨PagesHeld.init s₀ hsane, ⟨0, 0, KernelIndex.init s₀⟩, Balanced.nil _⟩

/-- **One call releases only what is held**, when it is no second exit. -/
theorem step (h : ReleaseInv r) {c : MemCall} {r' : MemRun} (hstep : r.step c r')
    (hallowed : ExitAllowed r c) : ReleaseInv r' := by
  obtain ⟨m, n, hindex⟩ := h.index
  obtain ⟨m', events, hcall, rfl⟩ := hstep
  cases c with
  | spawnKernel name =>
      obtain ⟨res, hres, heq⟩ := Option.map_eq_some_iff.mp hcall
      obtain ⟨rfl, rfl⟩ := Prod.mk.inj heq
      exact h.kept (h.pages.spawnKernel hres) (hindex.spawnKernel name hres) rfl
  | spawnUser name entry stackTop =>
      obtain ⟨rfl, rfl⟩ := Prod.mk.inj (Option.some.inj hcall)
      exact h.took (h.pages.spawnUser name entry stackTop) (hindex.memSpawnUser name entry stackTop)
  | fork =>
      obtain ⟨rfl, rfl⟩ := Prod.mk.inj (Option.some.inj hcall)
      exact h.took (h.pages.fork fun i hi => hindex.current hi) hindex.memFork
  | exec load cr3 =>
      obtain ⟨rfl, rfl⟩ := Prod.mk.inj (Option.some.inj hcall)
      obtain ⟨hsame, hnothing⟩ := hindex.memExec load cr3
      rw [hsame, hnothing]
      exact h.kept h.pages h.index rfl
  | exit pid exitCode cr3 =>
      obtain ⟨rfl, rfl⟩ := Prod.mk.inj (Option.some.inj hcall)
      exact h.exit exitCode hallowed
  | setCurrent pid =>
      obtain ⟨rfl, rfl⟩ := Prod.mk.inj (Option.some.inj hcall)
      refine h.kept ?_ ⟨m, n, hindex.setCurrent pid⟩ rfl
      exact ⟨h.pages.sane, h.pages.held, h.pages.nodup, h.pages.apart, h.pages.empty⟩

end ReleaseInv

/--
**Pages are released once.**  In every run of creations, forks, execs and exits in which no exit is
made for a process that has exited before and had pages, no page is passed to the allocator's free
twice without an allocation of it in between.
-/
theorem pages_released_once (s₀ : ProcTable) {s : Paging} (hsane : PmemSane s.pm)
    {calls : List MemCall} {r : MemRun}
    (hrun : Executes (Guarded ExitAllowed MemRun.step) (MemRun.start s₀ s) calls r) :
    ∀ x, ¬ ReleasedTwice r.events x := by
  have hinv : ReleaseInv r := by
    refine hrun.invariant (fun r₁ c r₂ h hstep => ?_) (ReleaseInv.init s₀ hsane)
    exact h.step hstep.2 hstep.1
  exact hinv.balanced.once

/-- A user process is created and exits. -/
theorem pages_released_once_user :
    ∃ r, Executes (Guarded ExitAllowed MemRun.step) (MemRun.start blankProcs emptySpace)
        [.spawnUser none 0x400000 0x7ff000, .exit 1 0 0x1000] r ∧
      ∀ x, ¬ ReleasedTwice r.events x := by
  obtain ⟨m, hm⟩ : ∃ m, m = memSpawnUser ⟨procInit blankProcs, emptySpace⟩ none 0x400000 0x7ff000 :=
    ⟨_, rfl⟩
  have hnone : ∀ i, (m.procs.table i).state ≠ .zombie := by
    intro i
    have hfirst : procFirstUnused (procInit blankProcs) = some 0 := by decide
    rw [hm]
    unfold memSpawnUser
    rw [hfirst]
    dsimp only
    generalize pagingCreateAddressSpace emptySpace = space
    obtain ⟨s', hs', hcreated, -⟩ := procSpawnUser_spec none 0x400000 0x7ff000 space.2
      (allocKstack space.1).2 hfirst
    rw [hs']
    by_cases hi : i = 0
    · rw [hi, hcreated.state]
      simp
    · dsimp only
      rw [hcreated.others i hi]
      simp [procInit]
  have hspawn : MemRun.step (MemRun.start blankProcs emptySpace) (.spawnUser none 0x400000 0x7ff000)
      ⟨m, [.taken (takenPages emptySpace.pm m.paging.pm)]⟩ := by
    refine ⟨m, _, ?_, rfl⟩
    rw [hm]
    rfl
  have hrun : Executes (Guarded ExitAllowed MemRun.step) (MemRun.start blankProcs emptySpace)
      [.spawnUser none 0x400000 0x7ff000, .exit 1 0 0x1000] _ :=
    .cons ⟨trivial, hspawn⟩
      (.cons ⟨fun i _ hzombie => absurd hzombie (hnone i), _, _, rfl, rfl⟩ (.nil _))
  exact ⟨_, hrun, pages_released_once blankProcs freshPmem_sane hrun⟩

/-! ### A second exit -/

/-- The zombie is found where the process was. -/
theorem procScan_exited {s : ProcTable} {pid i : Nat} (p : ProcInfo)
    (hscan : procScan s pid = some i) (hpid : p.pid = (s.table i).pid) (hused : p.state ≠ .unused) :
    procScan (s.put i p) pid = some i := by
  have hfound : (s.table i).pid = pid ∧ (s.table i).state ≠ .unused := by
    simpa [Bool.and_eq_true, bne_iff_ne] using List.find?_some hscan
  have hsame : (fun j => ((s.put i p).table j).pid == pid && ((s.put i p).table j).state != .unused) =
      fun j => (s.table j).pid == pid && (s.table j).state != .unused := by
    funext j
    by_cases hj : j = i
    · subst hj
      have hstate : (p.state != .unused) = ((s.table j).state != .unused) := by
        rw [bne_iff_ne.mpr hused, bne_iff_ne.mpr hfound.2]
      simp [ProcTable.put, hpid, hstate]
    · simp [ProcTable.put, Function.update_of_ne hj]
  unfold procScan at hscan ⊢
  rw [hsame]
  exact hscan

/-- What an exit releases ends with the stack page. -/
theorem exitPages_stack (s : Paging) {p : ProcInfo} (cr3 : Nat) (hstack : p.kernelStack ≠ 0) :
    ∃ xs, exitPages s p cr3 = xs ++ [sub64 p.kernelStack procKstackSize] := by
  rw [exitPages_eq, if_pos hstack]
  exact ⟨_, rfl⟩

theorem notTaken_released (xs : List Nat) (x : Nat) : NotTaken (xs.map Event.released) x := by
  intro ys hys
  obtain ⟨y, -, hy⟩ := List.mem_map.mp hys
  exact absurd hy (by simp)

/-- A process with a kernel stack exits twice: its stack page is released twice. -/
theorem exit_releases_twice (r : MemRun) {pid i : Nat} (exitCode : Int) (cr3 : Nat) (hpid : pid ≠ 0)
    (hscan : procScan r.mem.procs pid = some i)
    (hstack : (r.mem.procs.table i).kernelStack ≠ 0) :
    ∃ r', Executes MemRun.step r [.exit pid exitCode cr3, .exit pid exitCode cr3] r' ∧
      ReleasedTwice r'.events (sub64 (r.mem.procs.table i).kernelStack procKstackSize) := by
  obtain ⟨zombie, hzombie⟩ : ∃ p : ProcInfo, p = { r.mem.procs.table i with
      fdTable := fun _ => 0, state := .zombie, exitCode := exitCode } := ⟨_, rfl⟩
  have hexit : procExit r.mem.procs pid exitCode cr3 =
      (r.mem.procs.put i zombie, 0, exitRequests (r.mem.procs.table i) cr3) := by
    unfold procExit
    rw [if_neg hpid, hscan, hzombie]
  have hscan' : procScan (r.mem.procs.put i zombie) pid = some i :=
    procScan_exited zombie hscan (by rw [hzombie]) (by simp [hzombie])
  have hentry : (r.mem.procs.put i zombie).table i = zombie := Function.update_self ..
  have hexit' : (procExit (r.mem.procs.put i zombie) pid exitCode cr3).2.2 =
      exitRequests zombie cr3 := by
    unfold procExit
    rw [if_neg hpid, hscan']
    dsimp only
    rw [hentry]
  obtain ⟨m₁, hm₁⟩ : ∃ m₁, m₁ = memExit r.mem pid exitCode cr3 := ⟨_, rfl⟩
  have hprocs : m₁.procs = r.mem.procs.put i zombie := by
    rw [hm₁]
    unfold memExit
    rw [hexit]
  obtain ⟨xs, hxs⟩ := exitPages_stack r.mem.paging cr3 hstack
  obtain ⟨ys, hys⟩ := exitPages_stack m₁.paging (p := zombie) cr3 (by rw [hzombie]; exact hstack)
  have htop : zombie.kernelStack = (r.mem.procs.table i).kernelStack := by rw [hzombie]
  rw [htop] at hys
  refine ⟨_, .cons ⟨_, _, rfl, rfl⟩ (.cons ⟨_, _, rfl, rfl⟩ (.nil _)), ?_⟩
  dsimp only
  rw [← hm₁, hprocs, hexit, hexit']
  show ReleasedTwice (r.events ++ (exitPages r.mem.paging (r.mem.procs.table i) cr3).map .released ++
    (exitPages m₁.paging zombie cr3).map .released) _
  rw [hxs, hys]
  refine ⟨r.events ++ xs.map .released, ys.map .released, [], ?_, notTaken_released ys _⟩
  simp

/-- A user process is created and exits twice. -/
theorem exit_twice_frees_twice :
    ∃ r, Executes MemRun.step (MemRun.start blankProcs emptySpace)
        [.spawnUser none 0x400000 0x7ff000, .exit 1 0 0x1000, .exit 1 0 0x1000] r ∧
      ∃ x, ReleasedTwice r.events x := by
  obtain ⟨m, hm⟩ : ∃ m, m = memSpawnUser ⟨procInit blankProcs, emptySpace⟩ none 0x400000 0x7ff000 :=
    ⟨_, rfl⟩
  have hfirst : procFirstUnused (procInit blankProcs) = some 0 := by decide
  have hprocs : m.procs = (procSpawnUser (procInit blankProcs) none 0x400000 0x7ff000
      (pagingCreateAddressSpace emptySpace).2
      (allocKstack (pagingCreateAddressSpace emptySpace).1).2).procs := by
    rw [hm]
    unfold memSpawnUser
    rw [hfirst]
  have hpage : 0x100000 ≤ (allocKstack (pagingCreateAddressSpace emptySpace).1).2 := by
    have hpage := pmemAfter_alloc 1 (by decide)
    rw [pmemAfter, Function.iterate_one] at hpage
    unfold allocKstack
    rw [(pagingCreateAddressSpace_pm emptySpace).1]
    exact hpage
  have hallocated := allocKstack_allocated
    (pagingCreateAddressSpace_allocated (s := emptySpace) freshPmem_sane).1.sane
  have hlt := hallocated.lt (by omega)
  obtain ⟨space, hspace⟩ : ∃ space, pagingCreateAddressSpace emptySpace = space := ⟨_, rfl⟩
  obtain ⟨stack, hstack⟩ : ∃ stack, allocKstack space.1 = stack := ⟨_, rfl⟩
  rw [hspace, hstack] at hprocs hpage hlt
  have hscan : procScan m.procs 1 = some 0 := by
    rw [hprocs]
    rfl
  have hstack : (m.procs.table 0).kernelStack ≠ 0 := by
    obtain ⟨-, -, hkstack⟩ :=
      procSpawnUser_entry none 0x400000 0x7ff000 space.2 stack.2 hfirst
    rw [hprocs, hkstack]
    exact (sub64_kstackTop (by omega) hlt).1
  obtain ⟨r, hrun, htwice⟩ := exit_releases_twice
    ⟨m, [.taken (takenPages emptySpace.pm m.paging.pm)]⟩ 0 0x1000 Nat.one_ne_zero hscan hstack
  refine ⟨r, .cons ⟨m, _, ?_, rfl⟩ hrun, _, htwice⟩
  rw [hm]
  rfl

end BrightS
