/-
The scheduler's slot table over runs.

While every removal takes the last slot, the slots `0, …, n - 1` are exactly the
runnable ones and hold the registered processes in order (`SlotsExact`).  Scheduling
and yielding write the process table and the processor only.  A removal from the
middle moves the slots behind it down without moving their bits, and afterwards the
highest bit belongs to no slot (`SlotsExact.remove_middle`).
-/
import BrightS.Lib.Runs
import BrightS.Kernel.Sched

namespace BrightS

open Runs Words

/-! ### Runs -/

inductive SchedCall where
  | addProcess (pid : Nat)
  | removeProcess (pid : Nat)
  | schedule
  | yield
  | tick
  | setTrapFrame (tf : Option ProcCtx)
  /-- The rest of the kernel changes the process table. -/
  | procTable (table : Nat → ProcInfo)

/-- The scheduler, and the table indexes of the processes that were given a slot and not
removed since. -/
structure SchedRun where
  sched : Sched
  registered : List Nat

def SchedRun.next (r : SchedRun) : SchedCall → SchedRun
  | .addProcess pid =>
      let s' := (schedAddProcess r.sched pid).1
      { sched := s'
        registered := if s'.slotCount = r.sched.slotCount then r.registered
          else r.registered ++ [s'.pidToSlot r.sched.slotCount] }
  | .removeProcess pid =>
      let res := schedRemoveProcess r.sched pid
      { sched := res.1
        registered := if res.2 = 0 then
            r.registered.eraseP fun idx => (r.sched.table idx).pid == pid
          else r.registered }
  | .schedule => { r with sched := (schedSchedule r.sched).1 }
  | .yield => { r with sched := (schedYield r.sched).1 }
  | .tick => { r with sched := schedTick r.sched }
  | .setTrapFrame tf => { r with sched := schedSetTrapFrame r.sched tf }
  | .procTable table => { r with sched := { r.sched with table := table } }

def SchedRun.step (r : SchedRun) (c : SchedCall) (r' : SchedRun) : Prop := r' = r.next c

def SchedRun.init (s : Sched) : SchedRun := { sched := schedInit s, registered := [] }

/-- A slot refers to the table entry. -/
def HasSlot (s : Sched) (idx : Nat) : Prop := ∃ slot, slot < s.slotCount ∧ s.pidToSlot slot = idx

def setBits (w : Word) : Nat := (List.range 64).countP fun i => bitTest w i

/-- The count and the bitmap describe the registered processes and nothing else. -/
structure RunnableExact (r : SchedRun) : Prop where
  count : r.sched.totalRunnable = setBits r.sched.runnableBitmap
  below : ∀ i, bitTest r.sched.runnableBitmap i = true → i < r.sched.slotCount
  exact : ∀ i, bitTest r.sched.runnableBitmap i = true ↔
    i < r.sched.slotCount ∧ r.sched.pidToSlot i ∈ r.registered

/-- A removal finds its process in the last slot, or not at all. -/
def RemovesLast (r : SchedRun) : SchedCall → Prop
  | .removeProcess pid => ∀ i, schedSlotOf r.sched pid = some i → i + 1 = r.sched.slotCount
  | _ => True

/-! ### Switching leaves the slots alone -/

/-- Slots, bitmap and count are the same. -/
structure SameSlots (s s' : Sched) : Prop where
  pidToSlot : s'.pidToSlot = s.pidToSlot
  slotCount : s'.slotCount = s.slotCount
  runnableBitmap : s'.runnableBitmap = s.runnableBitmap
  totalRunnable : s'.totalRunnable = s.totalRunnable

namespace SameSlots

variable {s s' s'' : Sched}

theorem refl (s : Sched) : SameSlots s s := ⟨rfl, rfl, rfl, rfl⟩

theorem trans (h : SameSlots s s') (h' : SameSlots s' s'') : SameSlots s s'' :=
  ⟨h'.pidToSlot.trans h.pidToSlot, h'.slotCount.trans h.slotCount,
    h'.runnableBitmap.trans h.runnableBitmap, h'.totalRunnable.trans h.totalRunnable⟩

theorem put (s : Sched) (idx : Nat) (p : ProcInfo) : SameSlots s (s.put idx p) :=
  ⟨rfl, rfl, rfl, rfl⟩

theorem dispatch (s : Sched) (next idx : Nat) : SameSlots s (schedDispatch s next idx) :=
  ⟨rfl, rfl, rfl, rfl⟩

theorem schedule (s : Sched) : SameSlots s (schedSchedule s).1 := by
  unfold schedSchedule
  split
  · exact ⟨rfl, rfl, rfl, rfl⟩
  · split
    · exact ⟨rfl, rfl, rfl, rfl⟩
    · split
      · exact ⟨rfl, rfl, rfl, rfl⟩
      · exact dispatch s _ _

theorem save (s : Sched) (slot : Nat) : SameSlots s (saveContext s slot) := by
  unfold saveContext
  split
  · exact put s _ _
  · exact refl s

theorem restore (s : Sched) (slot : Nat) : SameSlots s (restoreContext s slot) := by
  unfold restoreContext
  split
  · exact ⟨rfl, rfl, rfl, rfl⟩
  · exact refl s

theorem preempt (s : Sched) : SameSlots s (schedPreempt s) := by
  unfold schedPreempt
  split
  · split
    · exact put s _ _
    · exact refl s
  · exact refl s

theorem yield (s : Sched) : SameSlots s (schedYield s).1 := by
  unfold schedYield
  split
  · exact refl s
  · have hsave := (save s s.currentSlot).trans (preempt _)
    dsimp only
    split
    · exact hsave
    · split
      · exact hsave
      · exact hsave.trans ((dispatch _ _ _).trans (restore _ _))

theorem tick (s : Sched) : SameSlots s (schedTick s) := by
  unfold schedTick
  dsimp only
  split
  · split
    · have hyield := yield { s with
        ticks := (s.ticks + 1) % 2 ^ 64
        timesliceRemaining := (s.timesliceRemaining + (2 ^ 32 - 1)) % 2 ^ 32 }
      exact ⟨hyield.pidToSlot, hyield.slotCount, hyield.runnableBitmap, hyield.totalRunnable⟩
    · exact ⟨rfl, rfl, rfl, rfl⟩
  · exact ⟨rfl, rfl, rfl, rfl⟩

end SameSlots

/-! ### The invariant -/

/-- The first `slotCount` slots are the runnable ones and hold the registered processes. -/
structure SlotsExact (r : SchedRun) : Prop where
  inTable : r.sched.slotCount ≤ schedMaxProc
  registered : r.registered = (List.range r.sched.slotCount).map r.sched.pidToSlot
  bits : ∀ i, bitTest r.sched.runnableBitmap i = decide (i < r.sched.slotCount)
  count : r.sched.totalRunnable = r.sched.slotCount

theorem countP_range_lt (n : Nat) : ∀ k, (List.range k).countP (fun i => decide (i < n)) = min k n
  | 0 => by simp
  | k + 1 => by
      rw [List.range_succ, List.countP_append, countP_range_lt n k]
      by_cases hk : k < n
      · simp [hk]
        omega
      · simp [hk]
        omega

namespace SlotsExact

variable {r : SchedRun}

theorem runnableExact (h : SlotsExact r) : RunnableExact r := by
  refine ⟨?_, fun i hi => ?_, fun i => ?_⟩
  · have hfun : (fun i => bitTest r.sched.runnableBitmap i) =
        fun i => decide (i < r.sched.slotCount) := funext h.bits
    rw [setBits, hfun, countP_range_lt, h.count]
    exact (min_eq_right h.inTable).symm
  · rw [h.bits] at hi
    exact of_decide_eq_true hi
  · rw [h.bits, h.registered]
    simp only [decide_eq_true_eq, List.mem_map, List.mem_range]
    exact ⟨fun hi => ⟨hi, i, hi, rfl⟩, fun hi => hi.1⟩

theorem init (s : Sched) : SlotsExact (SchedRun.init s) :=
  ⟨Nat.zero_le _, rfl, fun i => by simp [SchedRun.init, schedInit], rfl⟩

theorem congr (h : SlotsExact r) {s' : Sched} (hs : SameSlots r.sched s') :
    SlotsExact { r with sched := s' } :=
  ⟨by rw [hs.slotCount]; exact h.inTable, by rw [hs.slotCount, hs.pidToSlot]; exact h.registered,
    fun i => by rw [hs.runnableBitmap, hs.slotCount]; exact h.bits i,
    by rw [hs.totalRunnable, hs.slotCount]; exact h.count⟩

theorem add (h : SlotsExact r) (pid : Nat) : SlotsExact (r.next (.addProcess pid)) := by
  have hmax : schedMaxProc = 64 := rfl
  have hle := h.inTable
  have hcount := h.count
  have hsame : SlotsExact { r with
      registered := if r.sched.slotCount = r.sched.slotCount then r.registered
        else r.registered ++ [r.sched.pidToSlot r.sched.slotCount] } := by
    rw [if_pos rfl]
    exact h
  unfold SchedRun.next schedAddProcess
  dsimp only
  split
  · exact hsame
  · rename_i hroom
    split
    · exact hsame
    · split
      · exact hsame
      · rename_i i hfound
        dsimp only
        rw [if_neg (by omega), Function.update_self]
        refine ⟨by dsimp only; omega, ?_, fun j => ?_, ?_⟩
        · dsimp only
          rw [List.range_succ, List.map_append, List.map_singleton, Function.update_self,
            h.registered]
          congr 1
          refine List.map_congr_left fun j hj => ?_
          rw [Function.update_of_ne (Nat.ne_of_lt (List.mem_range.mp hj))]
        · dsimp only
          rw [bitTest_bitSet _ (by omega), h.bits, ← Bool.decide_or]
          congr 1
          apply propext
          omega
        · dsimp only
          omega

theorem remove_none (h : SlotsExact r) {pid : Nat} (hslot : schedSlotOf r.sched pid = none) :
    SlotsExact (r.next (.removeProcess pid)) := by
  unfold SchedRun.next schedRemoveProcess
  dsimp only
  rw [hslot]
  exact h

/-- Removing the last slot leaves a shorter table of the same kind. -/
theorem remove_last (h : SlotsExact r) {pid i : Nat} (hslot : schedSlotOf r.sched pid = some i)
    (hlast : i + 1 = r.sched.slotCount) : SlotsExact (r.next (.removeProcess pid)) := by
  have hmax : schedMaxProc = 64 := rfl
  have hle := h.inTable
  have hcount := h.count
  obtain ⟨hmatch, -, hbefore⟩ := List.find?_range_eq_some.mp hslot
  have hset : bitTest r.sched.runnableBitmap i = true := by
    rw [h.bits]
    exact decide_eq_true (by omega)
  unfold SchedRun.next schedRemoveProcess
  dsimp only
  rw [hslot]
  dsimp only
  rw [if_pos rfl, if_pos hset]
  refine ⟨by dsimp only; omega, ?_, fun j => ?_, ?_⟩
  · dsimp only
    -- The process in the last slot is the first one with this pid, so it is the one erased.
    rw [h.registered, ← hlast, List.range_succ, List.map_append, List.map_singleton,
      List.eraseP_append_right]
    · have herase : [r.sched.pidToSlot i].eraseP (fun idx => (r.sched.table idx).pid == pid) = [] :=
        List.eraseP_cons_of_pos hmatch
      rw [herase, List.append_nil, Nat.add_sub_cancel]
      refine List.map_congr_left fun j hj => ?_
      have := List.mem_range.mp hj
      rw [if_neg (by omega)]
    · intro idx hidx
      obtain ⟨j, hj, rfl⟩ := List.mem_map.mp hidx
      have := hbefore j (List.mem_range.mp hj)
      simpa using this
  · dsimp only
    rw [bitTest_bitClear _ (by omega), h.bits]
    by_cases hj : j = i
    · subst hj
      rw [decide_eq_true rfl, decide_eq_false (show ¬ j < r.sched.slotCount - 1 by omega)]
      rfl
    · have hiff : (j < r.sched.slotCount) ↔ (j < r.sched.slotCount - 1) := by omega
      simp only [hj, decide_false, Bool.not_false, Bool.true_and, hiff]
  · dsimp only
    omega

/-- Removing any other slot leaves the highest bit without a slot. -/
theorem remove_middle (h : SlotsExact r) {pid i : Nat} (hslot : schedSlotOf r.sched pid = some i)
    (hmiddle : i + 1 ≠ r.sched.slotCount) : ¬ RunnableExact (r.next (.removeProcess pid)) := by
  intro hexact
  have hmax : schedMaxProc = 64 := rfl
  have hle := h.inTable
  obtain ⟨-, hmem, -⟩ := List.find?_range_eq_some.mp hslot
  have hi := List.mem_range.mp hmem
  have hbelow := hexact.below (r.sched.slotCount - 1)
  unfold SchedRun.next schedRemoveProcess at hbelow
  dsimp only at hbelow
  rw [hslot] at hbelow
  dsimp only at hbelow
  rw [bitTest_bitClear _ (by omega), h.bits,
    decide_eq_true (show r.sched.slotCount - 1 < r.sched.slotCount by omega),
    decide_eq_false (show ¬ r.sched.slotCount - 1 = i by omega)] at hbelow
  exact absurd (hbelow rfl) (lt_irrefl _)

theorem next (h : SlotsExact r) {c : SchedCall} (hc : RemovesLast r c) : SlotsExact (r.next c) := by
  cases c with
  | addProcess pid => exact h.add pid
  | removeProcess pid =>
      cases hslot : schedSlotOf r.sched pid with
      | none => exact h.remove_none hslot
      | some i => exact h.remove_last hslot (hc i hslot)
  | schedule => exact h.congr (SameSlots.schedule r.sched)
  | yield => exact h.congr (SameSlots.yield r.sched)
  | tick => exact h.congr (SameSlots.tick r.sched)
  | setTrapFrame tf => exact h.congr ⟨rfl, rfl, rfl, rfl⟩
  | procTable table => exact h.congr ⟨rfl, rfl, rfl, rfl⟩

end SlotsExact

/--
**The bitmap follows the slots as long as removals take the last one.**  In every state such a
run reaches the count, the bits and the registered processes agree, and they agree after the
next call exactly when that call is no removal from an earlier slot.
-/
theorem sched_runnable_exact_iff (s₀ : Sched) {calls : List SchedCall} {r : SchedRun}
    (hrun : Executes (Guarded RemovesLast SchedRun.step) (SchedRun.init s₀) calls r) :
    RunnableExact r ∧ ∀ c, RunnableExact (r.next c) ↔ RemovesLast r c := by
  have hinv : SlotsExact r := by
    refine hrun.invariant (fun r c r' h hstep => ?_) (SlotsExact.init s₀)
    obtain ⟨hguard, rfl⟩ := hstep
    exact h.next hguard
  refine ⟨hinv.runnableExact, fun c => ⟨fun hexact => ?_, fun hc => (hinv.next hc).runnableExact⟩⟩
  cases c with
  | removeProcess pid =>
      intro i hslot
      by_contra hmiddle
      exact hinv.remove_middle hslot hmiddle hexact
  | _ => trivial

/-- Entry `i` holds the process with pid `i + 1`; nothing is scheduled yet. -/
def threeProcs : Sched where
  ticks := 0
  dispatches := 0
  pidToSlot _ := 0
  slotCount := 0
  runnableBitmap := 0
  currentSlot := 0
  currentPid := 0
  totalRunnable := 0
  trapFrame := none
  timesliceRemaining := schedQuantum
  table i :=
    { pid := if i < 3 then i + 1 else 0, ppid := 0, state := if i < 3 then .runnable else .unused,
      name := [], exitCode := 0, fdTable := fun _ => 0, cwd := ['/'], isUser := false, cr3 := 0,
      userEntry := 0, userStackTop := 0, brk := 0, brkStart := 0, kernelStack := 0,
      ctx := userCtx 0 0 }
  cr3 := 0
  tssRsp0 := 0

/-- Two processes are added, one is run, the second is removed. -/
theorem sched_runnable_exact_remove_second :
    ∃ r, Executes (Guarded RemovesLast SchedRun.step) (SchedRun.init threeProcs)
        [.addProcess 1, .addProcess 2, .schedule, .removeProcess 2] r ∧
      RunnableExact r ∧ ∀ c, RunnableExact (r.next c) ↔ RemovesLast r c := by
  have hslot : schedSlotOf ((((SchedRun.init threeProcs).next (.addProcess 1)).next
      (.addProcess 2)).next .schedule).sched 2 = some 1 := by decide +kernel
  have hcount : ((((SchedRun.init threeProcs).next (.addProcess 1)).next
      (.addProcess 2)).next .schedule).sched.slotCount = 2 := by decide +kernel
  have hrun : Executes (Guarded RemovesLast SchedRun.step) (SchedRun.init threeProcs)
      [.addProcess 1, .addProcess 2, .schedule, .removeProcess 2] _ :=
    .cons ⟨trivial, rfl⟩ (.cons ⟨trivial, rfl⟩ (.cons ⟨trivial, rfl⟩
      (.cons ⟨fun i hi => by
        rw [hslot] at hi
        rw [hcount, ← Option.some.inj hi], rfl⟩ (.nil _))))
  exact ⟨_, hrun, sched_runnable_exact_iff threeProcs hrun⟩

/-- Of two processes the first is removed: the second one moves to slot 0, whose bit is clear,
and the bit of slot 1, which is gone, stays set. -/
theorem sched_remove_first_strands_bit :
    ∃ r, Executes SchedRun.step (SchedRun.init threeProcs)
        [.addProcess 1, .addProcess 2, .removeProcess 1] r ∧
      r.sched.slotCount = 1 ∧ r.sched.pidToSlot 0 = 1 ∧ r.registered = [1] ∧
      bitTest r.sched.runnableBitmap 0 = false ∧ bitTest r.sched.runnableBitmap 1 = true ∧
      ¬ RunnableExact r := by
  refine ⟨_, .cons rfl (.cons rfl (.cons rfl (.nil _))), by decide +kernel, by decide +kernel,
    by decide +kernel, by decide +kernel, by decide +kernel, fun hexact => ?_⟩
  exact absurd (hexact.below 1 (by decide +kernel)) (by decide +kernel)

end BrightS
