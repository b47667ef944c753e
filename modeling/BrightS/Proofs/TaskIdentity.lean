/-
Who is running: two answers.

`kernel/proc.c` and `kernel/sched.c` each have a current pid.  The boot code sets both; a
switch sets the scheduler's only (`Tasks.turn_pids`).  So the two agree for as long as no
switch goes to a process with another pid (`current_pids_agree_iff`), which with distinct
processes is every switch (`switch_parts_pids`).
-/
import BrightS.Proofs.SchedRounds

namespace BrightS

open Runs Words

/-- What happens to the scheduler once the system runs. -/
inductive Turn where
  | tick
  | yield
  | setTrapFrame (tf : Option ProcCtx)

/-- The table index of the process that is switched to. -/
def Turn.choice (s : Sched) : Turn → Option Nat
  | .tick => tickChoice s
  | .yield => yieldChoice s
  | .setTrapFrame _ => none

def Tasks.turn (t : Tasks) : Turn → Tasks
  | .tick => t.afterSched (schedTick t.sched)
  | .yield => t.afterSched (schedYield t.sched).1
  | .setTrapFrame tf => t.afterSched (schedSetTrapFrame t.sched tf)

def Tasks.takes (t : Tasks) (c : Turn) (t' : Tasks) : Prop := t' = t.turn c

/-- Boot: `proc_set_current`, then `sched_schedule`. -/
def bootTasks (t : Tasks) (pid : Nat) : Tasks :=
  let t := t.afterProcs (procSetCurrent t.procs pid)
  t.afterSched (schedSchedule t.sched).1

/-- System calls act for the process that was switched to. -/
def PidsAgree (t : Tasks) : Prop := t.procs.currentPid = t.sched.currentPid

instance (t : Tasks) : Decidable (PidsAgree t) :=
  inferInstanceAs (Decidable (t.procs.currentPid = t.sched.currentPid))

/-- A switch, if there is one, goes to a process with the pid of the one it leaves. -/
def StaysWithPid (t : Tasks) (c : Turn) : Prop :=
  ∀ idx, c.choice t.sched = some idx → (t.sched.table idx).pid = t.sched.currentPid

theorem schedYield_currentPid (s : Sched) :
    (schedYield s).1.currentPid =
      ((yieldChoice s).map fun idx => (s.table idx).pid).getD s.currentPid := by
  cases hchoice : yieldChoice s with
  | none =>
      rcases (schedYield_none hchoice).2 with heq | heq
      · rw [heq]
        rfl
      · rw [heq]
        exact (schedLeave_place s).currentPid
  | some idx =>
      obtain ⟨-, next, -, hswitch⟩ := schedYield_some hchoice
      exact hswitch.currentPid

/-- **A turn leaves the pid of the process code, and gives the scheduler that of its choice.** -/
theorem Tasks.turn_pids (t : Tasks) (c : Turn) :
    (t.turn c).procs.currentPid = t.procs.currentPid ∧
      (t.turn c).sched.currentPid =
        ((c.choice t.sched).map fun idx => (t.sched.table idx).pid).getD t.sched.currentPid := by
  cases c with
  | setTrapFrame tf => exact ⟨rfl, rfl⟩
  | yield => exact ⟨rfl, schedYield_currentPid t.sched⟩
  | tick =>
      refine ⟨rfl, ?_⟩
      show (schedTick t.sched).currentPid = _
      dsimp only [Turn.choice]
      obtain ⟨counted, hplace, htable, ⟨heq, hnone⟩ | ⟨heq, hchoice⟩⟩ := schedTick_cases t.sched
      · rw [heq, hnone, hplace.currentPid]
        rfl
      · rw [heq, hchoice, schedYield_currentPid, htable, hplace.currentPid]

/-- After a switch the pids agree when they did and the switch stays with the pid. -/
theorem PidsAgree.turn_iff {t : Tasks} (h : PidsAgree t) (c : Turn) :
    ((c.choice t.sched).isSome = true → PidsAgree (t.turn c)) ↔ StaysWithPid t c := by
  obtain ⟨hprocs, hsched⟩ := t.turn_pids c
  unfold PidsAgree StaysWithPid at *
  rw [hprocs, hsched, h]
  cases c.choice t.sched with
  | none => simp
  | some idx => simp [eq_comm]

theorem PidsAgree.turn {t : Tasks} (h : PidsAgree t) {c : Turn} (hstays : StaysWithPid t c) :
    PidsAgree (t.turn c) := by
  cases hchoice : c.choice t.sched with
  | none =>
      obtain ⟨hprocs, hsched⟩ := t.turn_pids c
      rw [hchoice] at hsched
      exact hprocs.trans (h.trans hsched.symm)
  | some idx => exact (h.turn_iff c).mpr hstays (by rw [hchoice]; rfl)

/--
**The two current pids agree as long as the system stays with one pid.**  After boot, and over
any run of ticks and yields whose switches all stay with the pid they leave, the process code
and the scheduler have the same current pid; and a further switch keeps this exactly when it
stays with the pid as well.
-/
theorem current_pids_agree_iff {t₀ t : Tasks} {pid : Nat} {turns : List Turn}
    (hboot : (bootTasks t₀ pid).sched.currentPid = pid)
    (hrun : Executes (Guarded StaysWithPid Tasks.takes) (bootTasks t₀ pid) turns t) :
    PidsAgree t ∧ ∀ c : Turn, ((c.choice t.sched).isSome = true → PidsAgree (t.turn c)) ↔
      StaysWithPid t c := by
  have hagree : PidsAgree t := by
    refine hrun.invariant (fun t c t' h hstep => ?_) (Eq.symm hboot)
    obtain ⟨hstays, rfl⟩ := hstep
    exact h.turn hstays
  exact ⟨hagree, hagree.turn_iff⟩

/-- **With distinct pids every switch parts the two.** -/
theorem switch_parts_pids {t : Tasks} (hrunnable : AllRunnable t.sched)
    (hmany : 2 ≤ t.sched.slotCount)
    (hcur : t.sched.currentPid = (t.sched.table (t.sched.pidToSlot t.sched.currentSlot)).pid)
    (hdistinct : Set.InjOn (fun slot => (t.sched.table (t.sched.pidToSlot slot)).pid)
      {slot | slot < t.sched.slotCount})
    (hagree : PidsAgree t) {idx : Nat} (hchoice : yieldChoice t.sched = some idx) :
    ¬ PidsAgree (t.turn .yield) := by
  intro hafter
  have hstays := (hagree.turn_iff .yield).mp (fun _ => hafter) idx hchoice
  obtain ⟨-, next, hfind, hswitch⟩ := schedYield_some hchoice
  obtain ⟨hnext, hidx⟩ := getProcBySlot_some hswitch.inSlot
  rw [← hidx, hcur] at hstays
  have hsame : next = t.sched.currentSlot := hdistinct hnext hrunnable.current hstays
  have hslot := hrunnable.next_slot hfind hnext
  have hlt := hrunnable.current
  rcases Nat.lt_or_ge (t.sched.currentSlot + 1) t.sched.slotCount with hless | hge
  · rw [Nat.mod_eq_of_lt hless] at hslot
    omega
  · have hlast : t.sched.currentSlot + 1 = t.sched.slotCount := by omega
    rw [hlast, Nat.mod_self] at hslot
    omega

/-- The process table of `threeProcs`, with nothing set up besides. -/
def threeTasks (s : Sched) : Tasks where
  procs :=
    { table := threeProcs.table, pidToIndex := fun _ => procMax, freeSlotsBitmap := 0, nextPid := 4,
      currentPid := 0 }
  sched := s

/-- One process is registered: ticks and yields switch to nobody. -/
theorem current_pids_agree_alone :
    ∃ t, Executes (Guarded StaysWithPid Tasks.takes)
        (bootTasks (threeTasks (schedAddProcess (schedInit threeProcs) 1).1) 1) [.tick, .yield] t ∧
      PidsAgree t ∧ ∀ c : Turn, ((c.choice t.sched).isSome = true → PidsAgree (t.turn c)) ↔
        StaysWithPid t c := by
  have hstays : ∀ (t : Tasks) (c : Turn), c.choice t.sched = none → StaysWithPid t c := by
    intro t c hnone idx hidx
    exact absurd (hnone.symm.trans hidx) (by simp)
  have hrun : Executes (Guarded StaysWithPid Tasks.takes)
      (bootTasks (threeTasks (schedAddProcess (schedInit threeProcs) 1).1) 1) [.tick, .yield] _ :=
    .cons ⟨hstays _ _ (by decide +kernel), rfl⟩ (.cons ⟨hstays _ _ (by decide +kernel), rfl⟩ (.nil _))
  exact ⟨_, hrun, current_pids_agree_iff (by decide +kernel) hrun⟩

/-- Two processes are registered and the first is current for both.  It yields: the second runs,
and system calls still act for the first. -/
theorem current_pids_differ_after_yield :
    ∃ t, Executes Tasks.takes (bootTasks (threeTasks twoScheduled) 1) [.yield] t ∧
      PidsAgree (bootTasks (threeTasks twoScheduled) 1) ∧
      (schedYield (bootTasks (threeTasks twoScheduled) 1).sched).2 = 0 ∧
      t.procs.currentPid = 1 ∧ t.sched.currentPid = 2 ∧ ¬ PidsAgree t := by
  refine ⟨_, .cons rfl (.nil _), by decide +kernel, by decide +kernel, by decide +kernel,
    by decide +kernel, fun hagree => ?_⟩
  exact absurd hagree (by decide +kernel)

end BrightS
