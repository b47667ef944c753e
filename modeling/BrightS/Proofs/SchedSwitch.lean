/-
What a yield does.

A yield that goes through saves the trap frame into the process of the current slot,
picks the next runnable slot and loads the registers of the process found there
(`schedYield_some`).  One that does not go through changes the saved registers and the
state of the current process at most (`schedYield_none`).  While the first `slotCount`
slots are exactly the runnable ones, the pick is the next slot, round the table.
-/
import BrightS.Proofs.Sched
import BrightS.Kernel.Tasks

namespace BrightS

open Runs Words

/-! ### Leaving the current process -/

/-- Save the registers of the current process, and mark it runnable. -/
def schedLeave (s : Sched) : Sched := schedPreempt (saveContext s s.currentSlot)

/-- The table index of the current process. -/
def currentProc (s : Sched) : Option Nat := getProcBySlot s s.currentSlot

variable {s : Sched}

theorem schedPreempt_ctx (s : Sched) (i : Nat) :
    ((schedPreempt s).table i).ctx = (s.table i).ctx ∧
      ((schedPreempt s).table i).pid = (s.table i).pid := by
  unfold schedPreempt
  split
  · rename_i idx _
    split
    · by_cases hi : i = idx
      · subst hi
        simp [Sched.put]
      · simp [Sched.put, Function.update_of_ne hi]
    · exact ⟨rfl, rfl⟩
  · exact ⟨rfl, rfl⟩

/-- What is left alone: the slots, the position in them and the trap frame. -/
structure SamePlace (s s' : Sched) : Prop extends SameSlots s s' where
  currentSlot : s'.currentSlot = s.currentSlot
  currentPid : s'.currentPid = s.currentPid
  trapFrame : s'.trapFrame = s.trapFrame

theorem SamePlace.currentProc {s s' : Sched} (h : SamePlace s s') :
    currentProc s' = currentProc s := by
  unfold BrightS.currentProc getProcBySlot
  rw [h.currentSlot, h.slotCount, h.pidToSlot]

theorem schedLeave_place (s : Sched) : SamePlace s (schedLeave s) := by
  have hsave : SamePlace s (saveContext s s.currentSlot) := by
    unfold saveContext
    split
    · exact ⟨⟨rfl, rfl, rfl, rfl⟩, rfl, rfl, rfl⟩
    · exact ⟨⟨rfl, rfl, rfl, rfl⟩, rfl, rfl, rfl⟩
  have hpreempt : ∀ t : Sched, SamePlace t (schedPreempt t) := by
    intro t
    unfold schedPreempt
    split
    · split
      · exact ⟨⟨rfl, rfl, rfl, rfl⟩, rfl, rfl, rfl⟩
      · exact ⟨⟨rfl, rfl, rfl, rfl⟩, rfl, rfl, rfl⟩
    · exact ⟨⟨rfl, rfl, rfl, rfl⟩, rfl, rfl, rfl⟩
  have hthen := hpreempt (saveContext s s.currentSlot)
  exact ⟨hsave.toSameSlots.trans hthen.toSameSlots, hthen.currentSlot.trans hsave.currentSlot,
    hthen.currentPid.trans hsave.currentPid, hthen.trapFrame.trans hsave.trapFrame⟩

theorem schedLeave_pid (s : Sched) (i : Nat) :
    ((schedLeave s).table i).pid = (s.table i).pid := by
  refine (schedPreempt_ctx _ i).2.trans ?_
  unfold saveContext
  split
  · rename_i idx _ _ _
    by_cases hi : i = idx
    · subst hi
      simp [Sched.put]
    · simp [Sched.put, Function.update_of_ne hi]
  · rfl

/-- The current process has the trap frame saved. -/
theorem schedLeave_ctx_current {idx : Nat} {tf : ProcCtx} (hcur : currentProc s = some idx)
    (htf : s.trapFrame = some tf) : ((schedLeave s).table idx).ctx = tf := by
  refine (schedPreempt_ctx _ idx).1.trans ?_
  unfold saveContext
  unfold currentProc at hcur
  rw [hcur, htf]
  simp [Sched.put]

theorem schedLeave_ctx_other {i : Nat} (hi : currentProc s ≠ some i) :
    ((schedLeave s).table i).ctx = (s.table i).ctx := by
  refine (schedPreempt_ctx _ i).1.trans ?_
  unfold saveContext
  split
  · rename_i idx _ hget _
    have hne : i ≠ idx := by
      intro heq
      subst heq
      exact hi hget
    simp [Sched.put, Function.update_of_ne hne]
  · rfl

theorem schedLeave_state (s : Sched) (i : Nat) :
    ((schedLeave s).table i).state = (s.table i).state ∨
      ((schedLeave s).table i).state = .runnable ∧ (s.table i).state = .running := by
  have hsave : ((saveContext s s.currentSlot).table i).state = (s.table i).state := by
    unfold saveContext
    split
    · rename_i idx _ _ _
      by_cases hi : i = idx
      · subst hi
        simp [Sched.put]
      · simp [Sched.put, Function.update_of_ne hi]
    · rfl
  rw [← hsave]
  unfold schedLeave schedPreempt
  split
  · rename_i idx _
    split
    · rename_i hrunning
      by_cases hi : i = idx
      · subst hi
        exact .inr ⟨by simp [Sched.put], hrunning⟩
      · exact .inl (by simp [Sched.put, Function.update_of_ne hi])
    · exact .inl rfl
  · exact .inl rfl

/-! ### The yield -/

theorem findNextRunnable_congr {s s' : Sched} (h : SameSlots s s') (start : Nat) :
    findNextRunnable s' start = findNextRunnable s start := by
  unfold findNextRunnable
  rw [h.runnableBitmap]

theorem getProcBySlot_congr {s s' : Sched} (h : SameSlots s s') (slot : Nat) :
    getProcBySlot s' slot = getProcBySlot s slot := by
  unfold getProcBySlot
  rw [h.slotCount, h.pidToSlot]

theorem getProcBySlot_some {slot idx : Nat} (hget : getProcBySlot s slot = some idx) :
    slot < s.slotCount ∧ s.pidToSlot slot = idx := by
  unfold getProcBySlot at hget
  split at hget
  · exact absurd hget (by simp)
  · rename_i hlt
    exact ⟨by omega, Option.some.inj hget⟩

theorem schedYield_refused (h : s.currentPid = 0 ∨ s.totalRunnable ≤ 1) :
    schedYield s = (s, -1) := by
  unfold schedYield
  rw [if_pos h]

theorem schedYield_eq (h : ¬ (s.currentPid = 0 ∨ s.totalRunnable ≤ 1)) :
    schedYield s =
      match findNextRunnable s (s.currentSlot + 1) with
      | none => (schedLeave s, -1)
      | some next =>
          match getProcBySlot s next with
          | none => (schedLeave s, -1)
          | some idx => (restoreContext (schedDispatch (schedLeave s) next idx) next, 0) := by
  have hplace := schedLeave_place s
  rw [← findNextRunnable_congr hplace.toSameSlots, ← hplace.currentSlot,
    ← funext (getProcBySlot_congr hplace.toSameSlots)]
  unfold schedYield
  rw [if_neg h]
  rfl

/-- A yield that finds no process ends after the save, if it comes that far. -/
theorem schedYield_none (h : yieldChoice s = none) :
    (schedYield s).2 = -1 ∧ ((schedYield s).1 = s ∨ (schedYield s).1 = schedLeave s) := by
  unfold yieldChoice at h
  split at h
  · rename_i hrefused
    rw [schedYield_refused hrefused]
    exact ⟨rfl, .inl rfl⟩
  · rename_i hgo
    rw [schedYield_eq hgo]
    cases hfind : findNextRunnable s (s.currentSlot + 1) with
    | none => exact ⟨rfl, .inr rfl⟩
    | some next =>
        rw [hfind, Option.bind_some] at h
        dsimp only
        rw [h]
        exact ⟨rfl, .inr rfl⟩

theorem schedDispatch_entry (s : Sched) (next idx i : Nat) :
    ((schedDispatch s next idx).table i).ctx = (s.table i).ctx ∧
      ((schedDispatch s next idx).table i).pid = (s.table i).pid ∧
      ((schedDispatch s next idx).table i).state =
        if i = idx then .running else (s.table i).state := by
  by_cases hi : i = idx
  · subst hi
    simp [schedDispatch, schedMarkDispatch, Sched.put]
  · simp [schedDispatch, schedMarkDispatch, Sched.put, hi]

/-- The process `idx` in slot `next` has taken over from the current one. -/
structure Switched (s s' : Sched) (next idx : Nat) : Prop extends SameSlots s s' where
  inSlot : getProcBySlot s next = some idx
  currentSlot : s'.currentSlot = next
  currentPid : s'.currentPid = (s.table idx).pid
  trapFrame : s'.trapFrame = s.trapFrame.map fun _ => ((schedLeave s).table idx).ctx
  pid : ∀ i, (s'.table i).pid = (s.table i).pid
  ctx : ∀ i, (s'.table i).ctx = ((schedLeave s).table i).ctx
  state : ∀ i, (s'.table i).state = if i = idx then .running else ((schedLeave s).table i).state

theorem restoreContext_table (s : Sched) (slot : Nat) :
    (restoreContext s slot).table = s.table := by
  unfold restoreContext
  split <;> rfl

theorem schedYield_some {idx : Nat} (h : yieldChoice s = some idx) :
    (schedYield s).2 = 0 ∧ ∃ next, findNextRunnable s (s.currentSlot + 1) = some next ∧
      Switched s (schedYield s).1 next idx := by
  unfold yieldChoice at h
  split at h
  · exact absurd h (by simp)
  · rename_i hgo
    obtain ⟨next, hfind, hget⟩ := Option.bind_eq_some_iff.mp h
    rw [schedYield_eq hgo, hfind]
    dsimp only
    rw [hget]
    dsimp only
    refine ⟨rfl, next, rfl, ?_⟩
    have hplace := schedLeave_place s
    have hslots : SameSlots s (schedDispatch (schedLeave s) next idx) :=
      hplace.toSameSlots.trans (SameSlots.dispatch _ next idx)
    have hentry := schedDispatch_entry (schedLeave s) next idx
    have hget' : getProcBySlot (schedDispatch (schedLeave s) next idx) next = some idx :=
      (getProcBySlot_congr hslots next).trans hget
    have hframe : (schedDispatch (schedLeave s) next idx).trapFrame = s.trapFrame :=
      hplace.trapFrame
    refine ⟨hslots.trans (SameSlots.restore _ next), hget, ?_, ?_, ?_, fun i => ?_, fun i => ?_,
      fun i => ?_⟩
    · unfold restoreContext
      split <;> rfl
    · rw [← schedLeave_pid s idx]
      unfold restoreContext
      split <;> rfl
    · unfold restoreContext
      rw [hget', hframe]
      cases htf : s.trapFrame with
      | none => exact hframe.trans htf
      | some tf => exact congrArg some (hentry idx).1
    · rw [restoreContext_table, ← schedLeave_pid s i]
      exact (hentry i).2.1
    · rw [restoreContext_table]
      exact (hentry i).1
    · rw [restoreContext_table]
      exact (hentry i).2.2

theorem yieldChoice_isSome_iff (s : Sched) :
    (schedYield s).2 = 0 ↔ ∃ idx, yieldChoice s = some idx := by
  cases hchoice : yieldChoice s with
  | none => simp [(schedYield_none hchoice).1]
  | some idx => simp [(schedYield_some hchoice).1]

/-! ### Additions, schedules and ticks -/

theorem schedAddProcess_cases (s : Sched) (pid : Nat) :
    (schedAddProcess s pid).1 = s ∨
      ∃ i, s.slotCount < schedMaxProc ∧ (s.table i).pid = pid ∧
        (schedAddProcess s pid).1 =
          { s with
            slotCount := s.slotCount + 1
            pidToSlot := Function.update s.pidToSlot s.slotCount i
            runnableBitmap := bitSet s.runnableBitmap s.slotCount
            totalRunnable := (s.totalRunnable + 1) % 2 ^ 32 } := by
  unfold schedAddProcess
  split
  · exact .inl rfl
  · rename_i hroom
    split
    · exact .inl rfl
    · split
      · exact .inl rfl
      · rename_i i hfound
        have hpid := List.find?_some hfound
        exact .inr ⟨i, by omega, by simpa using hpid, rfl⟩

theorem schedSchedule_some {idx : Nat} (h : scheduleChoice s = some idx) :
    ∃ next, findNextRunnable s s.currentSlot = some next ∧ getProcBySlot s next = some idx ∧
      schedSchedule s = (schedDispatch s next idx, 0) := by
  unfold scheduleChoice at h
  split at h
  · exact absurd h (by simp)
  · rename_i hgo
    obtain ⟨next, hfind, hget⟩ := Option.bind_eq_some_iff.mp h
    refine ⟨next, hfind, hget, ?_⟩
    unfold schedSchedule
    rw [if_neg hgo, hfind]
    dsimp only
    rw [hget]

theorem schedSchedule_none (h : scheduleChoice s = none) :
    schedSchedule s = ({ s with currentPid := 0 }, -1) := by
  unfold scheduleChoice at h
  unfold schedSchedule
  split at h
  · rename_i hzero
    rw [if_pos hzero]
  · rename_i hgo
    rw [if_neg hgo]
    cases hfind : findNextRunnable s s.currentSlot with
    | none => rfl
    | some next =>
        rw [hfind, Option.bind_some] at h
        dsimp only
        rw [h]

/-- A tick counts, and at the end of the time slice it yields. -/
theorem schedTick_cases (s : Sched) :
    ∃ counted, SamePlace s counted ∧ counted.table = s.table ∧
      ((schedTick s = counted ∧ tickChoice s = none) ∨
        (schedTick s = (schedYield counted).1 ∧ tickChoice s = yieldChoice counted)) := by
  unfold schedTick tickChoice
  by_cases hpid : s.currentPid = 0
  · exact ⟨{ s with ticks := (s.ticks + 1) % 2 ^ 64 }, ⟨⟨rfl, rfl, rfl, rfl⟩, rfl, rfl, rfl⟩, rfl,
      .inl (by simp [hpid])⟩
  · refine ⟨{ s with
      ticks := (s.ticks + 1) % 2 ^ 64
      timesliceRemaining := (s.timesliceRemaining + (2 ^ 32 - 1)) % 2 ^ 32 },
      ⟨⟨rfl, rfl, rfl, rfl⟩, rfl, rfl, rfl⟩, rfl, ?_⟩
    dsimp only
    rw [if_pos hpid]
    by_cases hover : (s.timesliceRemaining + (2 ^ 32 - 1)) % 2 ^ 32 = 0
    · rw [if_pos hover, if_pos ⟨hpid, hover⟩]
      exact .inr ⟨rfl, rfl⟩
    · rw [if_neg hover, if_neg (fun h => hover h.2)]
      exact .inl ⟨rfl, rfl⟩

/-! ### The search for the next slot -/

/-- A slot that may run is found where the search starts. -/
theorem findNextRunnable_start {start : Nat} (hset : bitTest s.runnableBitmap start = true) :
    findNextRunnable s start = some start := by
  have hlt : start < 64 := by
    by_contra hge
    rw [bitTest_of_ge _ (Nat.not_lt.mp hge)] at hset
    exact absurd hset (by simp)
  have hhigh : lowestBit (s.runnableBitmap &&& ~~~((1#64 <<< start) - 1#64)) = start := by
    refine lowestBit_eq ?_ fun j hj => ?_
    · rw [bitTest_and_not_below _ hlt, hset]
      simp
    · rw [bitTest_and_not_below _ hlt]
      simp [Nat.not_le.mpr hj]
  unfold findNextRunnable
  dsimp only
  rw [if_neg (ne_zero_of_bitTest hset), Nat.mod_eq_of_lt hlt]
  rcases Nat.eq_zero_or_pos start with hzero | hpos
  · subst hzero
    rw [if_neg (by simp), if_neg (by simp)]
    exact congrArg some (lowestBit_eq hset fun j hj => absurd hj (Nat.not_lt_zero j))
  · have hne : s.runnableBitmap &&& ~~~((1#64 <<< start) - 1#64) ≠ 0#64 := by
      refine ne_zero_of_bitTest (i := start) ?_
      rw [bitTest_and_not_below _ hlt, hset]
      simp
    rw [if_pos ⟨hpos, hlt, hne⟩, hhigh]

/-- When something may run from `start` on, what is found is not before `start`. -/
theorem findNextRunnable_ge {start i next : Nat} (hset : bitTest s.runnableBitmap i = true)
    (hpos : 0 < start) (hi : start ≤ i) (hfind : findNextRunnable s start = some next) :
    start ≤ next := by
  have hi64 : i < 64 := by
    by_contra hge
    rw [bitTest_of_ge _ (Nat.not_lt.mp hge)] at hset
    exact absurd hset (by simp)
  have hlt : start < 64 := by omega
  have hhigh : s.runnableBitmap &&& ~~~((1#64 <<< start) - 1#64) ≠ 0#64 := by
    refine ne_zero_of_bitTest (i := i) ?_
    rw [bitTest_and_not_below _ hlt, hset]
    simp [hi]
  unfold findNextRunnable at hfind
  dsimp only at hfind
  rw [if_neg (ne_zero_of_bitTest hset), Nat.mod_eq_of_lt hlt, if_pos ⟨hpos, hlt, hhigh⟩] at hfind
  have hbit := bitTest_lowestBit hhigh
  rw [Option.some.inj hfind, bitTest_and_not_below _ hlt] at hbit
  simp only [Bool.and_eq_true, decide_eq_true_eq] at hbit
  exact hbit.2

/-- When nothing may run from `start` on, the search begins again at slot 0. -/
theorem findNextRunnable_wrap {start : Nat} (hset : bitTest s.runnableBitmap 0 = true)
    (hpos : 0 < start) (hle : start ≤ 64)
    (hnone : ∀ i, start ≤ i → bitTest s.runnableBitmap i = false) :
    findNextRunnable s start = some 0 := by
  have hzero : ∀ j < 0, bitTest s.runnableBitmap j = false :=
    fun j hj => absurd hj (Nat.not_lt_zero j)
  unfold findNextRunnable
  dsimp only
  rw [if_neg (ne_zero_of_bitTest hset)]
  rcases Nat.lt_or_ge start 64 with hlt | hge
  · have hhigh : s.runnableBitmap &&& ~~~((1#64 <<< start) - 1#64) = 0#64 := by
      refine (eq_zero_iff _).mpr fun i => ?_
      rw [bitTest_and_not_below _ hlt]
      by_cases hi : start ≤ i
      · simp [hnone i hi]
      · simp [hi]
    have hlow : bitTest (s.runnableBitmap &&& ((1#64 <<< start) - 1#64)) 0 = true := by
      rw [bitTest_and_below _ hlt, hset]
      simp [hpos]
    rw [Nat.mod_eq_of_lt hlt, if_neg (by simp [hhigh]), if_pos (ne_zero_of_bitTest hlow)]
    exact congrArg some (lowestBit_eq hlow fun j hj => absurd hj (Nat.not_lt_zero j))
  · -- The shift by 64 keeps no bit, and the whole bitmap is searched.
    have heq : start = 64 := by omega
    subst heq
    rw [if_neg (by simp), if_neg (by simp)]
    exact congrArg some (lowestBit_eq hset hzero)

/-! ### The first slot in the cyclic order -/

/-- The slots in the order a search from `start` takes them: to the last one, and on from 0. -/
def slotsFrom (start : Nat) : List Nat := List.range' start (64 - start) ++ List.range' 0 start

/-- The first set bit of a segment is the lowest one of what the word has there. -/
theorem find?_segment {w part : Word} {a n : Nat}
    (hpart : ∀ i, bitTest part i = (bitTest w i && decide (a ≤ i ∧ i < a + n))) :
    (List.range' a n).find? (bitTest w) =
      if part = 0#64 then none else some (lowestBit part) := by
  by_cases hzero : part = 0#64
  · rw [if_pos hzero, List.find?_eq_none]
    intro i hi
    have hclear := (eq_zero_iff part).mp hzero i
    rw [hpart, decide_eq_true (List.mem_range'_1.mp hi), Bool.and_true] at hclear
    simp [hclear]
  · have hset := bitTest_lowestBit hzero
    rw [hpart, Bool.and_eq_true, decide_eq_true_eq] at hset
    rw [if_neg hzero, List.find?_range'_eq_some]
    refine ⟨hset.1, List.mem_range'_1.mpr hset.2, ?_⟩
    intro j hj hlt
    have hclear := bitTest_of_lt_lowestBit hlt
    have hin : a ≤ j ∧ j < a + n := ⟨hj, by omega⟩
    rw [hpart, decide_eq_true hin, Bool.and_true] at hclear
    simp [hclear]

section

variable {w : Word} {start : Nat}

/-- The bits that the search looks at first. -/
theorem bitTest_from (w : Word) (hstart : start < 64) (i : Nat) :
    bitTest (w &&& ~~~((1#64 <<< start) - 1#64)) i =
      (bitTest w i && decide (start ≤ i ∧ i < start + (64 - start))) := by
  rw [bitTest_and_not_below _ hstart]
  by_cases hi : i < 64
  · have hiff : (start ≤ i ∧ i < start + (64 - start)) ↔ start ≤ i := by omega
    rw [decide_eq_decide.mpr hiff]
  · rw [bitTest_of_ge _ (Nat.not_lt.mp hi)]
    rfl

/-- The bits that it looks at afterwards. -/
theorem bitTest_below (w : Word) (hstart : start < 64) (i : Nat) :
    bitTest (w &&& ((1#64 <<< start) - 1#64)) i =
      (bitTest w i && decide (0 ≤ i ∧ i < 0 + start)) := by
  rw [bitTest_and_below _ hstart]
  have hiff : (0 ≤ i ∧ i < 0 + start) ↔ i < start := by omega
  rw [decide_eq_decide.mpr hiff]

/-- A bit that is not in the first part is in the second. -/
theorem below_ne_zero (hstart : start < 64) (hw : w ≠ 0#64)
    (hnone : w &&& ~~~((1#64 <<< start) - 1#64) = 0#64) :
    w &&& ((1#64 <<< start) - 1#64) ≠ 0#64 := by
  intro hbelow
  refine hw ((eq_zero_iff w).mpr fun i => ?_)
  have hhigh := bitTest_from w hstart i
  have hlow := bitTest_below w hstart i
  rw [hnone, bitTest_zero] at hhigh
  rw [hbelow, bitTest_zero] at hlow
  by_cases hi : i < start
  · simpa [hi] using hlow.symm
  · by_cases hi64 : i < 64
    · have hin : start ≤ i ∧ i < start + (64 - start) := by omega
      simpa [hin] using hhigh.symm
    · exact bitTest_of_ge w (Nat.not_lt.mp hi64)

theorem findNextRunnable_eq_none {s : Sched} :
    findNextRunnable s start = none ↔ s.runnableBitmap = 0#64 := by
  unfold findNextRunnable
  dsimp only
  split_ifs with hzero
  · exact iff_of_true rfl hzero
  all_goals exact iff_of_false (by simp) hzero

end

/-- **The search finds the first slot that may run, going round the table from `start`, and
fails only when there is none.** -/
theorem findNextRunnable_cyclic (s : Sched) {start : Nat} (hstart : start < 64) :
    findNextRunnable s start = (slotsFrom start).find? (bitTest s.runnableBitmap) ∧
      (findNextRunnable s start = none ↔ s.runnableBitmap = 0#64) := by
  refine ⟨?_, findNextRunnable_eq_none⟩
  rw [slotsFrom, List.find?_append, find?_segment (bitTest_from s.runnableBitmap hstart),
    find?_segment (bitTest_below s.runnableBitmap hstart)]
  unfold findNextRunnable
  dsimp only
  rw [Nat.mod_eq_of_lt hstart]
  by_cases hzero : s.runnableBitmap = 0#64
  · simp [hzero]
  · rw [if_neg hzero]
    rcases Nat.eq_zero_or_pos start with rfl | hpos
    · -- No bit is below 0, and the whole bitmap is searched at the end.
      have hall : s.runnableBitmap &&& ~~~((1#64 <<< 0) - 1#64) = s.runnableBitmap := by
        rw [show ~~~((1#64 <<< 0) - 1#64) = BitVec.allOnes 64 by decide, BitVec.and_allOnes]
      rw [hall]
      simp [hzero]
    · by_cases hnone : s.runnableBitmap &&& ~~~((1#64 <<< start) - 1#64) = 0#64
      · have hsome := below_ne_zero hstart hzero hnone
        rw [if_neg (fun h => h.2.2 hnone), if_pos hsome, if_pos hnone, if_neg hsome]
        rfl
      · rw [if_pos ⟨hpos, hstart, hnone⟩, if_neg hnone]
        rfl

/-- From slot 5 on, the next of the slots 2 and 9 is 9. -/
theorem findNextRunnable_cyclic_two :
    findNextRunnable { threeProcs with runnableBitmap := 0x204 } 5 =
        (slotsFrom 5).find? (bitTest 0x204) ∧
      (findNextRunnable { threeProcs with runnableBitmap := 0x204 } 5 = none ↔
        (0x204 : Word) = 0#64) :=
  findNextRunnable_cyclic { threeProcs with runnableBitmap := 0x204 } (by decide)

end BrightS
