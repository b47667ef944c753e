/-
Kernel stacks over runs of creations and exits.

A new process gets one page for its kernel stack, and its stack pointer is set
`procKstackSize` bytes above the start of that page: the upper half of the stack is a page
that was not allocated for the process (`StackInv.gap`).  The allocator hands out the
lowest free page, so that page was not taken for the address space either.

Who a page was allocated for is kept beside the state: a page that a call takes belongs to
the entry the call fills, and a page that is free belongs to nobody.  What the memory holds
when a call is made is left open, so an exit may free any tables.
-/
import BrightS.Proofs.ProcMem

namespace BrightS

open Runs Words

attribute [local irreducible] pmemAllocPage

/-! ### The page allocator -/

/-- Where the pages lie: aligned, not at null, and no stack on them reaches the end of memory. -/
structure PmemPlaced (pm : Pmem) : Prop where
  aligned : pm.base % 4096 = 0
  pos : 0 < pm.base
  below : pm.base + pmemMaxPages * pageSize + procKstackSize < 2 ^ 64

theorem PmemPlaced.congr {pm pm' : Pmem} (h : PmemPlaced pm) (hbase : pm'.base = pm.base) :
    PmemPlaced pm' :=
  ⟨by rw [hbase]; exact h.aligned, by rw [hbase]; exact h.pos, by rw [hbase]; exact h.below⟩

/-- The allocator answers `page`: the lowest free page, or null. -/
structure Handed (pm pm' : Pmem) (page : Nat) : Prop where
  base : pm'.base = pm.base
  free : ∀ x, AddrFree pm' x ↔ AddrFree pm x ∧ x ≠ page
  lowest : ∀ x, AddrFree pm x → page ≤ x
  wasFree : page ≠ 0 → AddrFree pm page
  aligned : page % 4096 = 0
  below : page + procKstackSize < 2 ^ 64

theorem pmemAllocPage_handed {pm : Pmem} (h : PmemPlaced pm) :
    Handed pm (pmemAllocPage pm).1 (pmemAllocPage pm).2 := by
  have hps : pageSize = 4096 := rfl
  have hks : procKstackSize = 8192 := rfl
  have halign := h.aligned
  have hpos := h.pos
  have hbelow := h.below
  rw [show pmemMaxPages = 2097152 from rfl, hps, hks] at hbelow
  have hlowest : ∀ x, AddrFree pm x → (pmemAllocPage pm).2 ≤ x := fun x => pmemAllocPage_le
  rcases pmemAllocPage_spec pm with hnone | ⟨idx, htook, haddr⟩
  · rw [hnone] at hlowest ⊢
    refine ⟨rfl, fun x => ⟨fun hx => ⟨hx, ?_⟩, fun hx => hx.1⟩, hlowest,
      fun hne => absurd rfl hne, rfl, by dsimp only; omega⟩
    obtain ⟨i, -, rfl⟩ := hx
    dsimp only
    omega
  · have hidx := htook.free idx ⟨le_refl _, by dsimp only; omega⟩
    have hmax : idx < 2097152 := hidx.1
    rw [hps, Nat.mod_eq_of_lt (by omega)] at haddr
    refine ⟨htook.base, fun x => ?_, hlowest, fun _ => ⟨idx, hidx, haddr⟩, by omega, by omega⟩
    unfold AddrFree
    rw [htook.base, haddr, hps]
    constructor
    · intro ⟨i, hi, hx⟩
      obtain ⟨hfree, hnot⟩ := (htook.rest i).mp hi
      refine ⟨⟨i, hfree, hx⟩, fun heq => hnot ?_⟩
      have : i = idx := by omega
      rw [this]
      exact ⟨le_refl _, by dsimp only; omega⟩
    · intro ⟨⟨i, hi, hx⟩, hne⟩
      refine ⟨i, (htook.rest i).mpr ⟨hi, fun hhas => hne ?_⟩, hx⟩
      obtain ⟨hle, hlt⟩ := hhas
      dsimp only at hle hlt
      have : i = idx := by omega
      rw [hx, this]

theorem pmemFreePage_keeps (pm : Pmem) (addr : Nat) :
    (pmemFreePage pm addr).base = pm.base ∧
      ∀ x, AddrFree pm x → AddrFree (pmemFreePage pm addr) x := by
  have hsame : pm.base = pm.base ∧ ∀ x, AddrFree pm x → AddrFree pm x := ⟨rfl, fun _ hx => hx⟩
  unfold pmemFreePage
  split
  · exact hsame
  · split
    · exact hsame
    · dsimp only
      split
      · exact hsame
      · split
        · refine ⟨rfl, fun x hx => ?_⟩
          obtain ⟨i, ⟨hmax, hclear⟩, hx⟩ := hx
          refine ⟨i, ⟨hmax, ?_⟩, hx⟩
          have htest := bitmapTest_bitmapClear pm (pageIdx pm addr) i
          rw [hclear, Bool.and_false] at htest
          exact htest
        · exact hsame

theorem pmemFreeAll_keeps (xs : List Nat) : ∀ pm : Pmem,
    (xs.foldl pmemFreePage pm).base = pm.base ∧
      ∀ x, AddrFree pm x → AddrFree (xs.foldl pmemFreePage pm) x := by
  induction xs with
  | nil => exact fun pm => ⟨rfl, fun _ hx => hx⟩
  | cons addr rest ih =>
      intro pm
      obtain ⟨hbase, hkeep⟩ := pmemFreePage_keeps pm addr
      obtain ⟨hbase', hkeep'⟩ := ih (pmemFreePage pm addr)
      rw [List.foldl_cons]
      exact ⟨hbase'.trans hbase, fun x hx => hkeep' x (hkeep x hx)⟩

/-! ### Runs with owners -/

def ProcMem.withMem (m : ProcMem) (contents : Nat → PtIndex → Word) : ProcMem :=
  { m with paging := { m.paging with mem := contents } }

/-- The entry a call allocates pages for. -/
def MemCall.allocatesFor (m : ProcMem) : MemCall → Option Nat
  | .spawnUser .. => procFirstUnused m.procs
  | .fork => procFirstUnused m.procs
  | .exec .. => procGetCurrent m.procs
  | _ => none

/-- The state, and the entry that each page was allocated for. -/
structure StackRun where
  mem : ProcMem
  owner : Nat → Option Nat

open Classical in
/-- The owners after a call that allocates for `taker`. -/
noncomputable def ownerAfter (owner : Nat → Option Nat) (pm pm' : Pmem) (taker : Option Nat) :
    Nat → Option Nat := fun x =>
  if AddrFree pm' x then none else if AddrFree pm x then taker else owner x

def StackRun.start (s₀ : ProcTable) (s : Paging) : StackRun where
  mem := { procs := procInit s₀, paging := s }
  owner := fun _ => none

def StackRun.step (r : StackRun) (c : MemCall) (r' : StackRun) : Prop :=
  ∃ contents m' events, (r.mem.withMem contents).call c = some (m', events) ∧
    r' = ⟨m', ownerAfter r.owner r.mem.paging.pm m'.paging.pm (c.allocatesFor r.mem)⟩

/-! ### Private stacks -/

/-- The addresses of a stack that starts at `top`. -/
def stackBelow (top : Nat) : Set Nat := Set.Ico (top - procKstackSize) top

/-- The stacks of live user processes are on pages allocated for them, and no two live processes
share a part of their stacks. -/
structure StacksPrivate (r : StackRun) : Prop where
  own : ∀ i, Alive (r.mem.procs.table i) → (r.mem.procs.table i).isUser = true →
    ∀ a ∈ stackBelow (r.mem.procs.table i).kernelStack, r.owner (a - a % pageSize) = some i
  apart : ∀ i j, i ≠ j → Alive (r.mem.procs.table i) → Alive (r.mem.procs.table j) →
    Disjoint (stackBelow (r.mem.procs.table i).kernelStack)
      (stackBelow (r.mem.procs.table j).kernelStack)

/-- The condition on a call, in the state before it: a new user process gets no stack, and the
stack of a forked process meets no other. -/
def StackAllowed (r : StackRun) : MemCall → Prop
  | .spawnUser .. => procFirstUnused r.mem.procs = none ∨
      (pmemAllocPage (pmemAllocPage r.mem.paging.pm).1).2 = 0
  | .fork => procGetCurrent r.mem.procs = none ∨ procFirstUnused r.mem.procs = none ∨
      ∀ j, Alive (r.mem.procs.table j) →
        Disjoint (stackBelow (kstackTop (pmemAllocPage r.mem.paging.pm).2))
          (stackBelow (r.mem.procs.table j).kernelStack)
  | _ => True

theorem stackBelow_zero : stackBelow 0 = ∅ := by simp [stackBelow]

theorem notMem_stackBelow {top a : Nat} (htop : top = 0) : a ∉ stackBelow top := by
  rw [htop, stackBelow_zero]
  exact Set.notMem_empty a

/-! ### What a call does to the stacks -/

/-- A call after which every stack is one that was there before. -/
structure NoNewStack (m m' : ProcMem) : Prop where
  base : m'.paging.pm.base = m.paging.pm.base
  old : ∀ i, Alive (m'.procs.table i) → (m'.procs.table i).kernelStack ≠ 0 →
    m'.procs.table i = m.procs.table i
  unused : ∀ i, (m'.procs.table i).state = .unused → (m.procs.table i).state = .unused
  free : ∀ x, AddrFree m.paging.pm x → AddrFree m'.paging.pm x

/-- A call that fills `slot` with a process whose stack is on `page`, if that is not null. -/
structure NewStack (m m' : ProcMem) (slot page : Nat) : Prop where
  base : m'.paging.pm.base = m.paging.pm.base
  unused : (m.procs.table slot).state = .unused
  others : ∀ j, j ≠ slot → m'.procs.table j = m.procs.table j
  alive : Alive (m'.procs.table slot)
  top : (m'.procs.table slot).kernelStack = kstackTop page
  aligned : page % 4096 = 0
  below : page + procKstackSize < 2 ^ 64
  taken : page ≠ 0 → ∀ x, AddrFree m.paging.pm x → ¬ AddrFree m'.paging.pm x → x ≤ page

theorem NoNewStack.refl (m : ProcMem) : NoNewStack m m :=
  ⟨rfl, fun _ _ _ => rfl, fun _ h => h, fun _ h => h⟩

theorem NewStack.kstackTop_eq {m m' : ProcMem} {slot page : Nat} (h : NewStack m m' slot page)
    (hpage : page ≠ 0) : kstackTop page = page + procKstackSize := by
  unfold kstackTop
  rw [if_pos hpage, Nat.mod_eq_of_lt h.below]

/-! What the memory held before does not matter. -/

theorem NoNewStack.forget {m m' : ProcMem} {contents : Nat → PtIndex → Word}
    (h : NoNewStack (m.withMem contents) m') : NoNewStack m m' :=
  ⟨h.base, h.old, h.unused, h.free⟩

theorem NewStack.forget {m m' : ProcMem} {contents : Nat → PtIndex → Word} {slot page : Nat}
    (h : NewStack (m.withMem contents) m' slot page) : NewStack m m' slot page :=
  ⟨h.base, h.unused, h.others, h.alive, h.top, h.aligned, h.below, h.taken⟩

theorem alive_created {s s' : ProcTable} {slot : Nat} (h : Created s s' slot) :
    Alive (s'.table slot) := by
  unfold Alive
  rw [h.state]
  simp

theorem memSpawnUser_stack {m : ProcMem} (h : PmemPlaced m.paging.pm) (name : Option CStr)
    (entry stackTop : Nat) {slot : Nat} (hslot : procFirstUnused m.procs = some slot) :
    NewStack m (memSpawnUser m name entry stackTop) slot
        (pmemAllocPage (pmemAllocPage m.paging.pm).1).2 ∧
      ((memSpawnUser m name entry stackTop).procs.table slot).isUser = true := by
  obtain ⟨hpm, hpage⟩ := pagingCreateAddressSpace_pm m.paging
  have hfirst := pmemAllocPage_handed h
  have hsecond := pmemAllocPage_handed (h.congr hfirst.base)
  unfold memSpawnUser
  rw [hslot]
  dsimp only
  unfold allocKstack
  obtain ⟨space, hspace⟩ : ∃ space, pagingCreateAddressSpace m.paging = space := ⟨_, rfl⟩
  rw [hspace] at hpm hpage ⊢
  rw [hpm]
  obtain ⟨one, hone⟩ : ∃ one, pmemAllocPage m.paging.pm = one := ⟨_, rfl⟩
  rw [hone] at hfirst hsecond ⊢
  obtain ⟨two, htwo⟩ : ∃ two, pmemAllocPage one.1 = two := ⟨_, rfl⟩
  rw [htwo] at hsecond ⊢
  dsimp only
  obtain ⟨s', hs', hcreated, -⟩ := procSpawnUser_spec name entry stackTop space.2 two.2 hslot
  obtain ⟨huser, -, htop⟩ := procSpawnUser_entry name entry stackTop space.2 two.2 hslot
  rw [hs'] at huser htop ⊢
  refine ⟨⟨hsecond.base.trans hfirst.base, procFirstUnused_state hslot, hcreated.others,
    alive_created hcreated, htop, hsecond.aligned, hsecond.below, fun hne x hx hnot => ?_⟩, huser⟩
  dsimp only at hnot
  rw [hsecond.free, hfirst.free] at hnot
  by_cases hx₁ : x = one.2
  · rw [hx₁]
    exact hfirst.lowest _ ((hfirst.free _).mp (hsecond.wasFree hne)).1
  · by_contra hgt
    exact hnot ⟨⟨hx, hx₁⟩, by omega⟩

theorem memFork_stack {m : ProcMem} (h : PmemPlaced m.paging.pm) {parent slot : Nat}
    (hparent : procGetCurrent m.procs = some parent) (hslot : procFirstUnused m.procs = some slot)
    (hkernel : (m.procs.table parent).isUser = false) :
    NewStack m (memFork m) slot (pmemAllocPage m.paging.pm).2 ∧
      ((memFork m).procs.table slot).isUser = false := by
  have hhanded := pmemAllocPage_handed h
  unfold memFork
  rw [hparent, hslot]
  dsimp only
  rw [if_neg (by simp [hkernel])]
  unfold allocKstack
  obtain ⟨res, hres⟩ : ∃ res, pmemAllocPage m.paging.pm = res := ⟨_, rfl⟩
  rw [hres] at hhanded ⊢
  dsimp only
  have hclone : ¬ CloneFails m.procs parent 0 := by simp [CloneFails, hkernel]
  obtain ⟨s', hs', hcreated, -⟩ := procFork_spec res.2 hparent hslot hclone
  obtain ⟨huser, htop⟩ := procFork_entry res.2 hparent hslot hkernel
  rw [hs'] at huser htop ⊢
  refine ⟨⟨hhanded.base, procFirstUnused_state hslot, hcreated.others, alive_created hcreated, htop,
    hhanded.aligned, hhanded.below, fun _ x hx hnot => ?_⟩, huser⟩
  dsimp only at hnot
  rw [hhanded.free] at hnot
  by_contra hgt
  exact hnot ⟨hx, by omega⟩

theorem memExit_stack (m : ProcMem) (pid : Nat) (exitCode : Int) (cr3 : Nat) :
    NoNewStack m (memExit m pid exitCode cr3) := by
  rcases memExit_cases m pid exitCode cr3 with ⟨heq, -⟩ | ⟨i, -, -, -, -, heq⟩
  · rw [heq]
    exact NoNewStack.refl m
  · rw [heq]
    obtain ⟨hbase, hkeep⟩ :=
      pmemFreeAll_keeps (exitPages m.paging (m.procs.table i) cr3) m.paging.pm
    refine ⟨hbase, fun j hj _ => ?_, fun j hj => ?_, hkeep⟩
    · by_cases hji : j = i
      · subst hji
        simp [ProcTable.put, Alive] at hj
      · exact Function.update_of_ne hji _ _
    · by_cases hji : j = i
      · subst hji
        simp [ProcTable.put] at hj
      · rwa [show (m.procs.put i _).table j = m.procs.table j from
          Function.update_of_ne hji _ _] at hj

theorem procSpawnKernel_stack {m : ProcMem} {name : Option CStr} {res : Spawned}
    (hcall : procSpawnKernel m.procs name = some res) :
    NoNewStack m { m with procs := res.procs } := by
  have hpages : ∀ slot, res.slot = some slot → procPages (res.procs.table slot) = [] :=
    fun _ => procSpawnKernel_pages hcall
  rcases procSpawnKernel_cases hcall with rfl | ⟨s', slot, rfl, hcreated⟩
  · exact NoNewStack.refl m
  · refine ⟨rfl, fun j _ htop => ?_, fun j hj => ?_, fun x hx => hx⟩
    · by_cases hj : j = slot
      · subst hj
        have hnone : procPages (s'.table j) = [] := hpages j rfl
        have htop : (s'.table j).kernelStack ≠ 0 := htop
        simp [procPages, htop] at hnone
      · exact hcreated.others j hj
    · by_cases hjs : j = slot
      · subst hjs
        exact absurd hj (alive_created hcreated).1
      · dsimp only at hj
        rwa [hcreated.others j hjs] at hj

/-! ### One call -/

theorem ownerAfter_some {owner : Nat → Option Nat} {pm pm' : Pmem} {taker : Option Nat} {x i : Nat}
    (h : ownerAfter owner pm pm' taker x = some i) :
    ¬ AddrFree pm' x ∧ (AddrFree pm x ∧ taker = some i ∨ owner x = some i) := by
  unfold ownerAfter at h
  split at h
  · exact absurd h (by simp)
  · rename_i hfree
    split at h
    · rename_i hwas
      exact ⟨hfree, .inl ⟨hwas, h⟩⟩
    · exact ⟨hfree, .inr h⟩

/-- No stack of a live process has its upper page allocated for the process. -/
structure StackInv (r : StackRun) : Prop where
  index : ∃ m n, KernelIndex r.mem.procs m n
  placed : PmemPlaced r.mem.paging.pm
  owned : ∀ x i, r.owner x = some i → (r.mem.procs.table i).state ≠ .unused
  gap : ∀ i, Alive (r.mem.procs.table i) → (r.mem.procs.table i).kernelStack ≠ 0 →
    procKstackSize ≤ (r.mem.procs.table i).kernelStack ∧
      (r.mem.procs.table i).kernelStack % 4096 = 0 ∧
      r.owner ((r.mem.procs.table i).kernelStack - pageSize) ≠ some i

/-- What a call does: no new stack, or a new one, with the condition it was allowed under. -/
def StackEffect (r : StackRun) (c : MemCall) (r' : StackRun) : Prop :=
  (NoNewStack r.mem r'.mem ∧ StackAllowed r c) ∨
    ∃ slot page, NewStack r.mem r'.mem slot page ∧ c.allocatesFor r.mem = some slot ∧
      (((r'.mem.procs.table slot).isUser = true ∧ (StackAllowed r c ↔ page = 0)) ∨
        ((r'.mem.procs.table slot).isUser = false ∧ (StackAllowed r c ↔
          ∀ j, Alive (r.mem.procs.table j) →
            Disjoint (stackBelow (kstackTop page)) (stackBelow (r.mem.procs.table j).kernelStack))))

namespace StackInv

variable {r r' : StackRun} {c : MemCall}

theorem init (s₀ : ProcTable) {s : Paging} (hplaced : PmemPlaced s.pm) :
    StackInv (StackRun.start s₀ s) :=
  ⟨⟨0, 0, KernelIndex.init s₀⟩, hplaced, fun _ _ h => absurd h (by simp [StackRun.start]),
    fun _ h => absurd rfl h.1⟩

theorem effect (h : StackInv r) (hstep : r.step c r') :
    (∃ m n, KernelIndex r'.mem.procs m n) ∧ StackEffect r c r' := by
  obtain ⟨m, n, hindex⟩ := h.index
  obtain ⟨contents, m', events, hcall, rfl⟩ := hstep
  have hplaced : PmemPlaced (r.mem.withMem contents).paging.pm := h.placed
  have hindex' : KernelIndex (r.mem.withMem contents).procs m n := hindex
  have hsame := (NoNewStack.refl (r.mem.withMem contents)).forget
  cases c with
  | spawnKernel name =>
      obtain ⟨res, hres, heq⟩ := Option.map_eq_some_iff.mp hcall
      obtain ⟨rfl, -⟩ := Prod.mk.inj heq
      exact ⟨hindex'.spawnKernel name hres, .inl ⟨(procSpawnKernel_stack hres).forget, trivial⟩⟩
  | spawnUser name entry stackTop =>
      obtain ⟨rfl, -⟩ := Prod.mk.inj (Option.some.inj hcall)
      refine ⟨hindex'.memSpawnUser name entry stackTop, ?_⟩
      cases hslot : procFirstUnused r.mem.procs with
      | none =>
          have hnothing : memSpawnUser (r.mem.withMem contents) name entry stackTop =
              r.mem.withMem contents := by
            unfold memSpawnUser
            rw [show procFirstUnused (r.mem.withMem contents).procs = none from hslot]
          rw [hnothing]
          exact .inl ⟨hsame, .inl hslot⟩
      | some slot =>
          obtain ⟨hnew, huser⟩ := memSpawnUser_stack hplaced name entry stackTop hslot
          refine .inr ⟨slot, _, hnew.forget, hslot, .inl ⟨huser, ?_⟩⟩
          rw [StackAllowed, hslot]
          exact ⟨fun hor => hor.resolve_left (by simp), .inr⟩
  | fork =>
      obtain ⟨rfl, -⟩ := Prod.mk.inj (Option.some.inj hcall)
      refine ⟨hindex'.memFork, ?_⟩
      by_cases hnone : procGetCurrent r.mem.procs = none ∨ procFirstUnused r.mem.procs = none
      · have hnothing : memFork (r.mem.withMem contents) = r.mem.withMem contents := by
          unfold memFork
          split
          · rename_i hparent hslot
            rcases hnone with hnone | hnone
            · exact absurd (hparent.symm.trans hnone) (by simp)
            · exact absurd (hslot.symm.trans hnone) (by simp)
          · rfl
        rw [hnothing]
        refine .inl ⟨hsame, ?_⟩
        rw [StackAllowed, ← or_assoc]
        exact .inl hnone
      · rw [not_or] at hnone
        obtain ⟨parent, hparent⟩ := Option.ne_none_iff_exists'.mp hnone.1
        obtain ⟨slot, hslot⟩ := Option.ne_none_iff_exists'.mp hnone.2
        obtain ⟨hnew, huser⟩ := memFork_stack hplaced hparent hslot (hindex.current hparent)
        refine .inr ⟨slot, _, hnew.forget, hslot, .inr ⟨huser, ?_⟩⟩
        rw [StackAllowed, or_iff_right hnone.1, or_iff_right hnone.2]
        rfl
  | exec load cr3 =>
      obtain ⟨rfl, -⟩ := Prod.mk.inj (Option.some.inj hcall)
      rw [(hindex'.memExec load cr3).1]
      exact ⟨⟨m, n, hindex⟩, .inl ⟨hsame, trivial⟩⟩
  | exit pid exitCode cr3 =>
      obtain ⟨rfl, -⟩ := Prod.mk.inj (Option.some.inj hcall)
      exact ⟨⟨m, n, hindex'.exit pid exitCode cr3⟩, .inl ⟨(memExit_stack _ _ _ _).forget, trivial⟩⟩
  | setCurrent pid =>
      obtain ⟨rfl, -⟩ := Prod.mk.inj (Option.some.inj hcall)
      exact ⟨⟨m, n, hindex.setCurrent pid⟩, .inl ⟨⟨rfl, hsame.old, hsame.unused, hsame.free⟩, trivial⟩⟩

/-- **The upper page of a stack is never the process's own**, whatever calls are made. -/
theorem step (h : StackInv r) (hstep : r.step c r') : StackInv r' := by
  have hps : pageSize = 4096 := rfl
  have hks : procKstackSize = 8192 := rfl
  obtain ⟨hindex, heffect⟩ := h.effect hstep
  obtain ⟨contents, m', events, -, rfl⟩ := hstep
  rcases heffect with ⟨hnone, -⟩ | ⟨slot, page, hnew, htaker, -⟩
  · have howner : ∀ x i, ownerAfter r.owner r.mem.paging.pm m'.paging.pm (c.allocatesFor r.mem) x =
        some i → r.owner x = some i := by
      intro x i hx
      obtain ⟨hfree, ⟨hwas, -⟩ | hsame⟩ := ownerAfter_some hx
      · exact absurd (hnone.free x hwas) hfree
      · exact hsame
    refine ⟨hindex, h.placed.congr hnone.base, fun x i hx hunused => ?_, fun i halive htop => ?_⟩
    · exact h.owned x i (howner x i hx) (hnone.unused i hunused)
    · have hsame := hnone.old i halive htop
      dsimp only at halive htop ⊢
      rw [hsame] at halive htop ⊢
      obtain ⟨hle, halign, hgap⟩ := h.gap i halive htop
      exact ⟨hle, halign, fun hx => hgap (howner _ i hx)⟩
  · rw [htaker] at *
    refine ⟨hindex, h.placed.congr hnew.base, fun x i hx hunused => ?_, fun i halive htop => ?_⟩
    · have hne : i ≠ slot := by
        intro heq
        subst heq
        exact hnew.alive.1 hunused
      dsimp only at hunused
      rw [hnew.others i hne] at hunused
      obtain ⟨-, ⟨-, htaken⟩ | hsame⟩ := ownerAfter_some hx
      · exact hne (Option.some.inj htaken).symm
      · exact h.owned x i hsame hunused
    · by_cases hi : i = slot
      · subst hi
        dsimp only at halive htop ⊢
        rw [hnew.top] at htop ⊢
        have hpage : page ≠ 0 := by
          intro hzero
          rw [hzero] at htop
          exact htop rfl
        have hbelow := hnew.below
        have haligned := hnew.aligned
        rw [hnew.kstackTop_eq hpage]
        refine ⟨by omega, by omega, fun hx => ?_⟩
        obtain ⟨hfree, ⟨hwas, -⟩ | hsame⟩ := ownerAfter_some hx
        · have := hnew.taken hpage _ hwas hfree
          omega
        · exact h.owned _ i hsame hnew.unused
      · have hsame := hnew.others i hi
        dsimp only at halive htop ⊢
        rw [hsame] at halive htop ⊢
        obtain ⟨hle, halign, hgap⟩ := h.gap i halive htop
        refine ⟨hle, halign, fun hx => ?_⟩
        obtain ⟨-, ⟨-, htaken⟩ | hsame⟩ := ownerAfter_some hx
        · exact hi (Option.some.inj htaken).symm
        · exact hgap hsame

/-- A user process with a stack has no private one. -/
theorem no_user_stack (h : StackInv r) (hprivate : StacksPrivate r) {i : Nat}
    (halive : Alive (r.mem.procs.table i)) (huser : (r.mem.procs.table i).isUser = true) :
    (r.mem.procs.table i).kernelStack = 0 := by
  have hps : pageSize = 4096 := rfl
  have hks : procKstackSize = 8192 := rfl
  by_contra htop
  obtain ⟨hle, halign, hgap⟩ := h.gap i halive htop
  have hown := hprivate.own i halive huser ((r.mem.procs.table i).kernelStack - pageSize)
    ⟨by omega, by omega⟩
  rw [show ((r.mem.procs.table i).kernelStack - pageSize) % pageSize = 0 by rw [hps]; omega,
    Nat.sub_zero] at hown
  exact hgap hown

/-- A call without a new stack keeps private stacks private. -/
theorem private_kept (h : StackInv r) (hprivate : StacksPrivate r)
    (hkept : NoNewStack r.mem r'.mem) : StacksPrivate r' := by
  have hold : ∀ i, Alive (r'.mem.procs.table i) →
      ∀ a ∈ stackBelow (r'.mem.procs.table i).kernelStack,
        r'.mem.procs.table i = r.mem.procs.table i := by
    intro i halive a ha
    exact hkept.old i halive fun hzero => notMem_stackBelow hzero ha
  refine ⟨fun i halive huser a ha => ?_, fun i j hij hi hj => ?_⟩
  · have hsame := hold i halive a ha
    rw [hsame] at halive huser ha
    exact absurd ha (notMem_stackBelow (h.no_user_stack hprivate halive huser))
  · rw [Set.disjoint_left]
    intro a hai haj
    have hsi := hold i hi a hai
    have hsj := hold j hj a haj
    rw [hsi] at hi hai
    rw [hsj] at hj haj
    exact Set.disjoint_left.mp (hprivate.apart i j hij hi hj) hai haj

/-- So does a new stack that meets no other, unless a user process gets it. -/
theorem private_new (h : StackInv r) (hprivate : StacksPrivate r) {slot page : Nat}
    (hnew : NewStack r.mem r'.mem slot page)
    (huser : (r'.mem.procs.table slot).isUser = true → page = 0)
    (hmeets : ∀ j, Alive (r.mem.procs.table j) →
      Disjoint (stackBelow (kstackTop page)) (stackBelow (r.mem.procs.table j).kernelStack)) :
    StacksPrivate r' := by
  have hslot : ∀ j, j ≠ slot → Alive (r'.mem.procs.table j) →
      Disjoint (stackBelow (r'.mem.procs.table slot).kernelStack)
        (stackBelow (r'.mem.procs.table j).kernelStack) := by
    intro j hj halive
    rw [hnew.others j hj] at halive ⊢
    rw [hnew.top]
    exact hmeets j halive
  refine ⟨fun i halive hu a ha => ?_, fun i j hij hi hj => ?_⟩
  · by_cases his : i = slot
    · subst his
      rw [hnew.top, huser hu] at ha
      exact absurd ha (notMem_stackBelow rfl)
    · rw [hnew.others i his] at halive hu ha
      exact absurd ha (notMem_stackBelow (h.no_user_stack hprivate halive hu))
  · by_cases his : i = slot
    · subst his
      exact hslot j (Ne.symm hij) hj
    · by_cases hjs : j = slot
      · subst hjs
        exact (hslot i hij hi).symm
      · rw [hnew.others i his] at hi ⊢
        rw [hnew.others j hjs] at hj ⊢
        exact hprivate.apart i j hij hi hj

/-- **A call keeps the stacks private exactly when it is allowed.** -/
theorem private_iff (h : StackInv r) (hprivate : StacksPrivate r) (hstep : r.step c r') :
    StacksPrivate r' ↔ StackAllowed r c := by
  have hinv := h.step hstep
  obtain ⟨-, ⟨hkept, hallowed⟩ | ⟨slot, page, hnew, -, ⟨huser, hiff⟩ | ⟨hkernel, hiff⟩⟩⟩ :=
    h.effect hstep
  · exact ⟨fun _ => hallowed, fun _ => h.private_kept hprivate hkept⟩
  · rw [hiff]
    constructor
    · intro hprivate'
      have htop := hinv.no_user_stack hprivate' hnew.alive huser
      rw [hnew.top] at htop
      by_contra hpage
      rw [hnew.kstackTop_eq hpage] at htop
      exact hpage (Nat.eq_zero_of_add_eq_zero htop).1
    · intro hpage
      refine h.private_new hprivate hnew (fun _ => hpage) fun j _ => ?_
      rw [hpage, show kstackTop 0 = 0 from rfl, stackBelow_zero]
      exact Set.empty_disjoint _
  · rw [hiff]
    constructor
    · intro hprivate' j halive
      have hj : j ≠ slot := by
        intro heq
        subst heq
        exact halive.1 hnew.unused
      have hsame := hnew.others j hj
      have hdisjoint := hprivate'.apart slot j (Ne.symm hj) hnew.alive (by rw [hsame]; exact halive)
      rwa [hnew.top, hsame] at hdisjoint
    · intro hmeets
      refine h.private_new hprivate hnew (fun hu => ?_) hmeets
      rw [hkernel] at hu
      exact absurd hu (by simp)

end StackInv

theorem stacksPrivate_start (s₀ : ProcTable) (s : Paging) : StacksPrivate (StackRun.start s₀ s) :=
  ⟨fun _ halive => absurd rfl halive.1, fun _ _ _ halive => absurd rfl halive.1⟩

/--
**Kernel stacks are private while no user process gets one.**  In every run whose calls are allowed,
the stacks of live user processes are on pages allocated for them and no two live processes share
a part of their stacks; and the next call keeps that exactly when it is allowed.
-/
theorem kernel_stacks_private_iff (s₀ : ProcTable) {s : Paging} (hplaced : PmemPlaced s.pm)
    {calls : List MemCall} {r : StackRun}
    (hrun : Executes (Guarded StackAllowed StackRun.step) (StackRun.start s₀ s) calls r) :
    StacksPrivate r ∧ ∀ c r', r.step c r' → (StacksPrivate r' ↔ StackAllowed r c) := by
  have hinv : StackInv r ∧ StacksPrivate r := by
    refine Executes.invariant (P := fun r => StackInv r ∧ StacksPrivate r)
      (fun r₁ c r₂ h hstep => ?_) hrun ⟨StackInv.init s₀ hplaced, stacksPrivate_start s₀ s⟩
    exact ⟨h.1.step hstep.2, (h.1.private_iff h.2 hstep.2).mpr hstep.1⟩
  exact ⟨hinv.2, fun c r' hstep => hinv.1.private_iff hinv.2 hstep⟩

theorem freshPmem_placed : PmemPlaced freshPmem := ⟨by decide, by decide, by decide⟩

/-- A kernel process forks: its child is a kernel process with the only stack. -/
theorem kernel_stacks_private_fork :
    ∃ r, Executes (Guarded StackAllowed StackRun.step) (StackRun.start blankProcs emptySpace)
        [.spawnKernel none, .setCurrent 1, .fork] r ∧
      StacksPrivate r ∧ ∀ c r', r.step c r' → (StacksPrivate r' ↔ StackAllowed r c) := by
  obtain ⟨res, hres⟩ : ∃ res, procSpawnKernel (procInit blankProcs) none = some res :=
    Option.isSome_iff_exists.mp (by decide)
  have hold := procSpawnKernel_stack (m := (StackRun.start blankProcs emptySpace).mem) hres
  have hnone : ∀ j, Alive (res.procs.table j) → (res.procs.table j).kernelStack = 0 := by
    intro j halive
    by_contra htop
    have hsame := hold.old j halive htop
    dsimp only at hsame
    rw [hsame] at halive
    exact absurd rfl halive.1
  have hmeets : ∀ j, Alive (res.procs.table j) →
      Disjoint (stackBelow (kstackTop (pmemAllocPage emptySpace.pm).2))
        (stackBelow (res.procs.table j).kernelStack) := by
    intro j halive
    rw [hnone j halive, stackBelow_zero]
    exact Set.disjoint_empty _
  have hspawn : StackRun.step (StackRun.start blankProcs emptySpace) (.spawnKernel none)
      ⟨⟨res.procs, emptySpace⟩, _⟩ :=
    ⟨emptySpace.mem, _, [], by rw [ProcMem.call]; exact congrArg _ hres, rfl⟩
  have hrun : Executes (Guarded StackAllowed StackRun.step) (StackRun.start blankProcs emptySpace)
      [.spawnKernel none, .setCurrent 1, .fork] _ :=
    .cons ⟨trivial, hspawn⟩ (.cons ⟨trivial, emptySpace.mem, _, _, rfl, rfl⟩
      (.cons ⟨.inr (.inr hmeets), emptySpace.mem, _, _, rfl, rfl⟩ (.nil _)))
  exact ⟨_, hrun, kernel_stacks_private_iff blankProcs freshPmem_placed hrun⟩

/-- One user process is created, and the upper page of its kernel stack is not its own. -/
theorem spawn_user_stack_not_private :
    ∃ r, Executes StackRun.step (StackRun.start blankProcs emptySpace)
        [.spawnUser none 0x400000 0x7ff000] r ∧ ¬ StacksPrivate r := by
  have hinv := StackInv.init blankProcs (s := emptySpace) freshPmem_placed
  have hfirst : procFirstUnused (procInit blankProcs) = some 0 := by decide
  have hpage : 0x100000 ≤ (pmemAllocPage (pmemAllocPage freshPmem).1).2 := by
    have hpage := pmemAfter_alloc 1 (by decide)
    rwa [pmemAfter, Function.iterate_one] at hpage
  refine ⟨_, .cons ⟨emptySpace.mem, _, _, rfl, rfl⟩ (.nil _), fun hprivate => ?_⟩
  rw [hinv.private_iff (stacksPrivate_start blankProcs emptySpace)
    ⟨emptySpace.mem, _, _, rfl, rfl⟩] at hprivate
  rcases hprivate with hnone | hzero
  · exact absurd (hfirst.symm.trans hnone) (by simp)
  · have hzero : (pmemAllocPage (pmemAllocPage freshPmem).1).2 = 0 := hzero
    omega

end BrightS
