/-
Registers of processes that wait.

A process that is switched out has its registers in its table entry.  While it waits the
entry is not written: a save goes to the current process, and a dispatch of another
process changes states and positions only (`Away.next`).  The switch that comes back to it
loads what was saved (`sched_context_preserved`).
-/
import BrightS.Proofs.SchedSwitch

namespace BrightS

open Runs Words

/-! ### Runs of switches -/

/-- No removal, a trap frame is set and stays set, and nobody else writes the process table. -/
def SwitchesOnly : SchedCall → Prop
  | .removeProcess _ => False
  | .procTable _ => False
  | .setTrapFrame tf => tf.isSome
  | _ => True

/-- The table index of the process that a call dispatches. -/
def SchedRun.dispatches (r : SchedRun) : SchedCall → Option Nat
  | .schedule => scheduleChoice r.sched
  | .yield => yieldChoice r.sched
  | .tick => tickChoice r.sched
  | _ => none

/-- The slots are exact, and the current slot is one of them once there are any. -/
structure Placed (r : SchedRun) : Prop where
  exact : SlotsExact r
  current : r.sched.currentSlot < r.sched.slotCount ∨ r.sched.currentSlot = 0

namespace Placed

variable {r : SchedRun}

theorem init (s₀ : Sched) : Placed (SchedRun.init s₀) := ⟨SlotsExact.init s₀, .inr rfl⟩

/-- With exact slots a schedule stays with the current process. -/
theorem scheduleChoice_eq (h : Placed r) {idx : Nat} (hchoice : scheduleChoice r.sched = some idx) :
    currentProc r.sched = some idx ∧
      (schedSchedule r.sched).1 = schedDispatch r.sched r.sched.currentSlot idx := by
  obtain ⟨next, hfind, hget, heq⟩ := schedSchedule_some hchoice
  have hlt : r.sched.currentSlot < r.sched.slotCount := by
    rcases h.current with hlt | hzero
    · exact hlt
    · have := (getProcBySlot_some hget).1
      omega
  have hset : bitTest r.sched.runnableBitmap r.sched.currentSlot = true := by
    rw [h.exact.bits]
    exact decide_eq_true hlt
  have hnext : next = r.sched.currentSlot := by
    rw [findNextRunnable_start hset] at hfind
    exact (Option.some.inj hfind).symm
  subst hnext
  exact ⟨hget, by rw [heq]⟩

/-- A yield moves to another slot of the table, or stays. -/
theorem yield_slot (s : Sched) :
    (schedYield s).1.currentSlot = s.currentSlot ∨ (schedYield s).1.currentSlot < s.slotCount := by
  cases hchoice : yieldChoice s with
  | none =>
      rcases (schedYield_none hchoice).2 with heq | heq
      · exact .inl (by rw [heq])
      · exact .inl (by rw [heq]; exact (schedLeave_place s).currentSlot)
  | some idx =>
      obtain ⟨-, next, -, hswitch⟩ := schedYield_some hchoice
      exact .inr (by rw [hswitch.currentSlot]; exact (getProcBySlot_some hswitch.inSlot).1)

/-- The table does not shrink, and a call that leaves the current slot goes to one in the table. -/
theorem moves (r : SchedRun) {c : SchedCall} (hc : SwitchesOnly c) :
    r.sched.slotCount ≤ (r.next c).sched.slotCount ∧
      ((r.next c).sched.currentSlot = r.sched.currentSlot ∨
        (r.next c).sched.currentSlot < r.sched.slotCount) := by
  cases c with
  | removeProcess pid => exact hc.elim
  | procTable table => exact hc.elim
  | setTrapFrame tf => exact ⟨le_refl _, .inl rfl⟩
  | addProcess pid =>
      dsimp only [SchedRun.next]
      rcases schedAddProcess_cases r.sched pid with heq | ⟨i, -, -, heq⟩
      · rw [heq]
        exact ⟨le_refl _, .inl rfl⟩
      · rw [heq]
        exact ⟨Nat.le_succ _, .inl rfl⟩
  | schedule =>
      dsimp only [SchedRun.next]
      refine ⟨(SameSlots.schedule r.sched).slotCount.ge, ?_⟩
      cases hchoice : scheduleChoice r.sched with
      | none =>
          rw [schedSchedule_none hchoice]
          exact .inl rfl
      | some idx =>
          obtain ⟨next, -, hget, heq⟩ := schedSchedule_some hchoice
          rw [heq]
          exact .inr (getProcBySlot_some hget).1
  | yield => exact ⟨(SameSlots.yield r.sched).slotCount.ge, yield_slot r.sched⟩
  | tick =>
      dsimp only [SchedRun.next]
      refine ⟨(SameSlots.tick r.sched).slotCount.ge, ?_⟩
      obtain ⟨counted, hplace, -, ⟨heq, -⟩ | ⟨heq, -⟩⟩ := schedTick_cases r.sched
      · exact .inl (by rw [heq, hplace.currentSlot])
      · rw [heq, ← hplace.currentSlot, ← hplace.slotCount]
        exact yield_slot counted

theorem next (h : Placed r) {c : SchedCall} (hc : SwitchesOnly c) : Placed (r.next c) := by
  obtain ⟨hgrows, hmoves⟩ := moves r hc
  refine ⟨h.exact.next ?_, ?_⟩
  · cases c with
    | removeProcess pid => exact hc.elim
    | _ => trivial
  · have hcur := h.current
    omega

end Placed

/-! ### A process that waits -/

/-- Process `idx` waits with the registers `R` saved. -/
structure Away (s : Sched) (idx : Nat) (R : ProcCtx) : Prop where
  inTable : s.currentSlot < s.slotCount
  waits : currentProc s ≠ some idx
  saved : (s.table idx).ctx = R
  frame : s.trapFrame.isSome = true

namespace Away

variable {s s' : Sched} {idx : Nat} {R : ProcCtx}

theorem congr (h : Away s idx R) (hplace : SamePlace s s')
    (hctx : (s'.table idx).ctx = (s.table idx).ctx) : Away s' idx R :=
  ⟨by rw [hplace.currentSlot, hplace.slotCount]; exact h.inTable,
    by rw [hplace.currentProc]; exact h.waits, hctx.trans h.saved,
    by rw [hplace.trapFrame]; exact h.frame⟩

theorem switched (h : Away s idx R) {next idx' : Nat} (hswitch : Switched s s' next idx')
    (hne : idx' ≠ idx) : Away s' idx R := by
  refine ⟨?_, ?_, ?_, ?_⟩
  · rw [hswitch.currentSlot, hswitch.slotCount]
    exact (getProcBySlot_some hswitch.inSlot).1
  · have hcur : currentProc s' = some idx' := by
      unfold currentProc
      rw [hswitch.currentSlot, getProcBySlot_congr hswitch.toSameSlots]
      exact hswitch.inSlot
    rw [hcur]
    exact fun heq => hne (Option.some.inj heq)
  · rw [hswitch.ctx, schedLeave_ctx_other h.waits]
    exact h.saved
  · rw [hswitch.trapFrame, Option.isSome_map]
    exact h.frame

theorem yield (h : Away s idx R) (hne : yieldChoice s ≠ some idx) : Away (schedYield s).1 idx R := by
  cases hchoice : yieldChoice s with
  | none =>
      rcases (schedYield_none hchoice).2 with heq | heq
      · rw [heq]
        exact h
      · rw [heq]
        exact h.congr (schedLeave_place s) (schedLeave_ctx_other h.waits)
  | some idx' =>
      obtain ⟨-, next, -, hswitch⟩ := schedYield_some hchoice
      exact h.switched hswitch fun heq => hne (hchoice.trans (congrArg some heq))

/-- The yield that comes back to a process loads what was saved. -/
theorem restored (h : Away s idx R) (hchoice : yieldChoice s = some idx) :
    (schedYield s).1.trapFrame = some R := by
  obtain ⟨-, next, -, hswitch⟩ := schedYield_some hchoice
  obtain ⟨tf, htf⟩ := Option.isSome_iff_exists.mp h.frame
  rw [hswitch.trapFrame, htf, Option.map_some, schedLeave_ctx_other h.waits, h.saved]

variable {r : SchedRun}

/-- **A call that dispatches other processes leaves the waiting one as it is.** -/
theorem next (h : Away r.sched idx R) (hplaced : Placed r) {c : SchedCall} (hc : SwitchesOnly c)
    (hother : r.dispatches c ≠ some idx) : Away (r.next c).sched idx R := by
  cases c with
  | removeProcess pid => exact hc.elim
  | procTable table => exact hc.elim
  | setTrapFrame tf => exact ⟨h.inTable, h.waits, h.saved, hc⟩
  | yield => exact h.yield hother
  | addProcess pid =>
      show Away (schedAddProcess r.sched pid).1 idx R
      rcases schedAddProcess_cases r.sched pid with heq | ⟨i, -, -, heq⟩
      · rw [heq]
        exact h
      · rw [heq]
        refine ⟨Nat.lt_succ_of_lt h.inTable, fun hcur => h.waits ?_, h.saved, h.frame⟩
        obtain ⟨-, hidx⟩ := getProcBySlot_some hcur
        dsimp only at hidx
        rw [Function.update_of_ne (Nat.ne_of_lt h.inTable)] at hidx
        unfold currentProc getProcBySlot
        rw [if_neg (Nat.not_le.mpr h.inTable)]
        exact congrArg some hidx
  | schedule =>
      cases hchoice : scheduleChoice r.sched with
      | none =>
          show Away (schedSchedule r.sched).1 idx R
          rw [schedSchedule_none hchoice]
          exact ⟨h.inTable, h.waits, h.saved, h.frame⟩
      | some idx' =>
          obtain ⟨hcur, heq⟩ := hplaced.scheduleChoice_eq hchoice
          show Away (schedSchedule r.sched).1 idx R
          rw [heq]
          exact ⟨h.inTable, h.waits, (schedDispatch_entry _ _ _ _).1.trans h.saved, h.frame⟩
  | tick =>
      obtain ⟨counted, hplace, htable, ⟨heq, -⟩ | ⟨heq, hchoice⟩⟩ := schedTick_cases r.sched
      · show Away (schedTick r.sched) idx R
        rw [heq]
        exact h.congr hplace (by rw [htable])
      · show Away (schedTick r.sched) idx R
        rw [heq]
        refine (h.congr hplace (by rw [htable])).yield ?_
        rw [← hchoice]
        exact hother

/-- The dispatch of the waiting process loads its registers. -/
theorem dispatched (h : Away r.sched idx R) (hplaced : Placed r) {c : SchedCall}
    (hback : r.dispatches c = some idx) : (r.next c).sched.trapFrame = some R := by
  cases c with
  | yield => exact h.restored hback
  | schedule => exact absurd (hplaced.scheduleChoice_eq hback).1 h.waits
  | tick =>
      obtain ⟨counted, hplace, htable, ⟨-, hnone⟩ | ⟨heq, hchoice⟩⟩ := schedTick_cases r.sched
      · exact absurd (hnone.symm.trans hback) (by simp)
      · show (schedTick r.sched).trapFrame = some R
        rw [heq]
        exact (h.congr hplace (by rw [htable])).restored (hchoice.symm.trans hback)
  | _ => exact absurd hback (by simp [SchedRun.dispatches])

/-- A yield that goes through leaves the current process waiting, unless it comes back to it at
once. -/
theorem of_yield {tf : ProcCtx} (hcur : currentProc s = some idx) (htf : s.trapFrame = some tf)
    {idx' : Nat} (hchoice : yieldChoice s = some idx') :
    (idx' = idx → (schedYield s).1.trapFrame = some tf) ∧
      (idx' ≠ idx → Away (schedYield s).1 idx tf) := by
  obtain ⟨-, next, -, hswitch⟩ := schedYield_some hchoice
  have hsaved := schedLeave_ctx_current hcur htf
  have hcur' : currentProc (schedYield s).1 = some idx' := by
    unfold currentProc
    rw [hswitch.currentSlot, getProcBySlot_congr hswitch.toSameSlots]
    exact hswitch.inSlot
  refine ⟨fun heq => ?_, fun hne => ⟨(getProcBySlot_some hcur').1, ?_, ?_, ?_⟩⟩
  · rw [hswitch.trapFrame, htf, Option.map_some, heq, hsaved]
  · rw [hcur']
    exact fun heq => hne (Option.some.inj heq)
  · rw [hswitch.ctx]
    exact hsaved
  · rw [hswitch.trapFrame, htf]
    rfl

end Away

/-- A call that dispatches some process leaves the current one waiting, unless it dispatches the
current one. -/
theorem Placed.dispatch_away {r : SchedRun} (h : Placed r) {c : SchedCall} {idx idx' : Nat}
    {tf : ProcCtx} (hcur : currentProc r.sched = some idx) (htf : r.sched.trapFrame = some tf)
    (hdispatch : r.dispatches c = some idx') :
    (idx' = idx → (r.next c).sched.trapFrame = some tf) ∧
      (idx' ≠ idx → Away (r.next c).sched idx tf) := by
  cases c with
  | yield => exact Away.of_yield hcur htf hdispatch
  | schedule =>
      obtain ⟨hcur', heq⟩ := h.scheduleChoice_eq hdispatch
      refine ⟨fun _ => ?_, fun hne => absurd (Option.some.inj (hcur'.symm.trans hcur)) hne⟩
      show (schedSchedule r.sched).1.trapFrame = some tf
      rw [heq]
      exact htf
  | tick =>
      obtain ⟨counted, hplace, -, ⟨-, hnone⟩ | ⟨heq, hchoice⟩⟩ := schedTick_cases r.sched
      · exact absurd (hnone.symm.trans hdispatch) (by simp)
      · dsimp only [SchedRun.next]
        rw [heq]
        exact Away.of_yield (hplace.currentProc.trans hcur) (hplace.trapFrame.trans htf)
          (hchoice.symm.trans hdispatch)
  | _ => exact absurd hdispatch (by simp [SchedRun.dispatches])

/--
**A process comes back to its own registers.**  In any run of additions, schedules, yields,
ticks and writes to the trap frame, let a call switch out the current process `idx` while the
trap frame holds `R`.  The next call that dispatches `idx` leaves `R` in the trap frame, whatever
was put there in between.
-/
theorem sched_context_preserved (s₀ : Sched) {calls : List SchedCall} {r : SchedRun}
    (hrun : Executes (Guarded (fun _ c => SwitchesOnly c) SchedRun.step) (SchedRun.init s₀) calls r)
    {c₀ : SchedCall} {idx idx' : Nat} {R : ProcCtx} (hc₀ : SwitchesOnly c₀)
    (hout : r.dispatches c₀ = some idx') (hcur : currentProc r.sched = some idx)
    (hframe : r.sched.trapFrame = some R) :
    (idx' = idx → (r.next c₀).sched.trapFrame = some R) ∧
      (idx' ≠ idx → ∀ (others : List SchedCall) (r' : SchedRun) (c : SchedCall),
        Executes (Guarded (fun r c => SwitchesOnly c ∧ r.dispatches c ≠ some idx) SchedRun.step)
          (r.next c₀) others r' →
        r'.dispatches c = some idx → (r'.next c).sched.trapFrame = some R) := by
  have hplaced : Placed r := by
    refine hrun.invariant (fun r c r' h hstep => ?_) (Placed.init s₀)
    obtain ⟨hc, rfl⟩ := hstep
    exact h.next hc
  obtain ⟨hsame, haway⟩ := hplaced.dispatch_away hcur hframe hout
  refine ⟨hsame, fun hne others r' c hothers hback => ?_⟩
  have hwaits : Placed r' ∧ Away r'.sched idx R := by
    refine hothers.invariant (P := fun r => Placed r ∧ Away r.sched idx R)
      (fun r c r' h hstep => ?_) ⟨hplaced.next hc₀, haway hne⟩
    obtain ⟨⟨hc, hother⟩, rfl⟩ := hstep
    exact ⟨h.1.next hc, h.2.next h.1 hc hother⟩
  exact hwaits.2.dispatched hwaits.1 hback

/-- Two processes are registered, the trap frame is set and the first process is run. -/
def twoWithFrame : SchedRun :=
  ((((SchedRun.init threeProcs).next (.addProcess 1)).next (.addProcess 2)).next
    (.setTrapFrame (some (userCtx 7 8)))).next .schedule

/-- The second process runs for a while and yields: the first has its registers back. -/
theorem sched_context_preserved_two :
    (((twoWithFrame.next .yield).next (.setTrapFrame (some (userCtx 1 2)))).next
      .yield).sched.trapFrame = some (userCtx 7 8) := by
  have hrun : Executes (Guarded (fun _ c => SwitchesOnly c) SchedRun.step) (SchedRun.init threeProcs)
      [.addProcess 1, .addProcess 2, .setTrapFrame (some (userCtx 7 8)), .schedule] twoWithFrame :=
    .cons ⟨trivial, rfl⟩ (.cons ⟨trivial, rfl⟩ (.cons ⟨rfl, rfl⟩ (.cons ⟨trivial, rfl⟩ (.nil _))))
  have hout : twoWithFrame.dispatches .yield = some 1 := by decide +kernel
  have hother : (twoWithFrame.next .yield).dispatches
      (.setTrapFrame (some (userCtx 1 2))) ≠ some 0 := by simp [SchedRun.dispatches]
  have hback : ((twoWithFrame.next .yield).next (.setTrapFrame (some (userCtx 1 2)))).dispatches
      .yield = some 0 := by decide +kernel
  have hyields : SwitchesOnly .yield := trivial
  have hothers : Executes
      (Guarded (fun r c => SwitchesOnly c ∧ r.dispatches c ≠ some 0) SchedRun.step)
      (twoWithFrame.next .yield) [.setTrapFrame (some (userCtx 1 2))]
      ((twoWithFrame.next .yield).next (.setTrapFrame (some (userCtx 1 2)))) :=
    .cons ⟨⟨rfl, hother⟩, rfl⟩ (.nil _)
  exact (sched_context_preserved threeProcs hrun hyields hout (by decide +kernel)
    (by decide +kernel)).2 (by decide) _ _ .yield hothers hback

end BrightS
