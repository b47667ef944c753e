/-
Yields take turns.

When every registered process is runnable, a yield that goes through moves on by one
slot, and from the last slot to the first (`YieldsTo.slot_eq`).  As many yields as there
are slots therefore visit each slot once (`sched_yields_in_turn`).
-/
import BrightS.Proofs.SchedSwitch

namespace BrightS

open Runs Words

/-- A yield that goes through, to the process in slot `slot`.  Before it anything may happen that
leaves the slots and the position in them as they are. -/
def YieldsTo (s : Sched) (slot : Nat) (s' : Sched) : Prop :=
  ∃ before, SameSlots s before ∧ before.currentSlot = s.currentSlot ∧
    schedYield before = (s', 0) ∧ slot = s'.currentSlot

theorem YieldsTo.of_ok {s : Sched} {slot : Nat} (hok : (schedYield s).2 = 0)
    (hslot : (schedYield s).1.currentSlot = slot) : YieldsTo s slot (schedYield s).1 :=
  ⟨s, .refl s, rfl, Prod.ext rfl hok, hslot.symm⟩

/-- Every registered process may run, and one of them is the current one. -/
structure AllRunnable (s : Sched) : Prop where
  runnable : ∀ slot < s.slotCount, bitTest s.runnableBitmap slot = true
  current : s.currentSlot < s.slotCount

namespace AllRunnable

variable {s s' : Sched}

theorem le_max (h : AllRunnable s) : s.slotCount ≤ 64 := by
  by_contra hgt
  have hset := h.runnable 64 (by omega)
  rw [bitTest_of_ge _ (le_refl 64)] at hset
  exact absurd hset (by simp)

theorem congr (h : AllRunnable s) (hslots : SameSlots s s') (hcur : s'.currentSlot < s.slotCount) :
    AllRunnable s' := by
  refine ⟨fun slot hslot => ?_, by rw [hslots.slotCount]; exact hcur⟩
  rw [hslots.runnableBitmap]
  rw [hslots.slotCount] at hslot
  exact h.runnable slot hslot

/-- A slot the search finds behind the current one is the next one, round the table. -/
theorem next_slot (h : AllRunnable s) {next : Nat}
    (hfind : findNextRunnable s (s.currentSlot + 1) = some next) (hnext : next < s.slotCount) :
    next = (s.currentSlot + 1) % s.slotCount := by
  have hmax := h.le_max
  have hcur := h.current
  rcases Nat.lt_or_ge (s.currentSlot + 1) s.slotCount with hlt | hge
  · rw [findNextRunnable_start (h.runnable _ hlt)] at hfind
    rw [Nat.mod_eq_of_lt hlt, Option.some.inj hfind]
  · have hlast : s.currentSlot + 1 = s.slotCount := by omega
    rw [hlast, Nat.mod_self]
    -- A bit beyond the last slot would have been found first, and led to no slot.
    have hnone : ∀ i, s.currentSlot + 1 ≤ i → bitTest s.runnableBitmap i = false := by
      intro i hi
      by_contra hset
      have hfound := findNextRunnable_ge (Bool.not_eq_false _ ▸ hset) (Nat.succ_pos _) hi hfind
      omega
    rw [findNextRunnable_wrap (h.runnable 0 (by omega)) (by omega) (by omega) hnone] at hfind
    exact (Option.some.inj hfind).symm

/-- **One yield moves on by one slot.** -/
theorem yieldsTo (h : AllRunnable s) {slot : Nat} (hyield : YieldsTo s slot s') :
    slot = (s.currentSlot + 1) % s.slotCount ∧ s'.currentSlot = slot ∧ SameSlots s s' ∧
      AllRunnable s' := by
  obtain ⟨before, hslots, hcur, hok, rfl⟩ := hyield
  have hbefore : AllRunnable before := h.congr hslots (by rw [hcur]; exact h.current)
  obtain ⟨idx, hchoice⟩ := (yieldChoice_isSome_iff before).mp (by rw [hok])
  obtain ⟨-, next, hfind, hswitch⟩ := schedYield_some hchoice
  rw [hok] at hswitch
  have hnext := (getProcBySlot_some hswitch.inSlot).1
  have heq := hbefore.next_slot hfind hnext
  rw [hcur, hslots.slotCount] at heq
  rw [hslots.slotCount] at hnext
  have hsame : SameSlots s s' := hslots.trans hswitch.toSameSlots
  exact ⟨hswitch.currentSlot.trans heq, rfl, hsame,
    h.congr hsame (by rw [hswitch.currentSlot]; exact hnext)⟩

/-- The slots that a run of yields visits, in order. -/
theorem visits {slots : List Nat} (hrun : Executes YieldsTo s slots s') (h : AllRunnable s) :
    slots = (List.range slots.length).map (fun k => (s.currentSlot + 1 + k) % s.slotCount) ∧
      s'.currentSlot = (s.currentSlot + slots.length) % s.slotCount := by
  induction hrun with
  | nil s => exact ⟨rfl, (Nat.mod_eq_of_lt h.current).symm⟩
  | @cons s mid final slot rest hyield _ ih =>
      obtain ⟨hslot, hmid, hsame, hmidRunnable⟩ := h.yieldsTo hyield
      obtain ⟨hrest, hfinal⟩ := ih hmidRunnable
      rw [hmid, hslot, hsame.slotCount] at hrest hfinal
      constructor
      · rw [List.length_cons, List.range_succ_eq_map, List.map_cons, List.map_map]
        refine congrArg₂ List.cons hslot (hrest.trans (List.map_congr_left fun k _ => ?_))
        show _ = (s.currentSlot + 1 + (k + 1)) % s.slotCount
        rw [Nat.add_assoc, Nat.mod_add_mod]
        congr 1
        omega
      · rw [hfinal, Nat.mod_add_mod, List.length_cons]
        congr 1
        omega

end AllRunnable

/-- Counting up from any start modulo `n`, `n` steps long, meets every number below `n` once. -/
theorem perm_range_mod (start n : Nat) :
    ((List.range n).map fun k => (start + k) % n).Perm (List.range n) := by
  have hrotate : ((List.range n).map fun k => (start + k) % n) = (List.range n).rotate start := by
    refine List.ext_getElem (by simp) fun k hk hk' => ?_
    rw [List.getElem_rotate, List.getElem_map, List.getElem_range, List.getElem_range,
      List.length_range, Nat.add_comm]
  rw [hrotate]
  exact List.rotate_perm _ _

/--
**Round-robin.**  Let every registered process be runnable and let as many yields go through as
there are registered processes.  They dispatch the process of each slot exactly once and end
where they began; so, when no process is registered twice, each process is dispatched once.
-/
theorem sched_yields_in_turn {s s' : Sched} {slots : List Nat} (h : AllRunnable s)
    (hrun : Executes YieldsTo s slots s') (hlength : slots.length = s.slotCount) :
    slots.Perm (List.range s.slotCount) ∧ s'.currentSlot = s.currentSlot ∧
      (Set.InjOn s.pidToSlot {slot | slot < s.slotCount} →
        ∀ slot < s.slotCount, (slots.map s.pidToSlot).count (s.pidToSlot slot) = 1) := by
  obtain ⟨hvisits, hend⟩ := h.visits hrun
  rw [hlength] at hvisits hend
  have hperm : slots.Perm (List.range s.slotCount) := by
    rw [hvisits]
    exact perm_range_mod _ _
  refine ⟨hperm, ?_, fun hinj slot hslot => ?_⟩
  · rw [hend, Nat.add_mod_right, Nat.mod_eq_of_lt h.current]
  · have hnodup : ((List.range s.slotCount).map s.pidToSlot).Nodup := by
      refine List.nodup_range.map_on fun i hi j hj heq => ?_
      exact hinj (List.mem_range.mp hi) (List.mem_range.mp hj) heq
    rw [(hperm.map s.pidToSlot).count_eq]
    exact List.count_eq_one_of_mem hnodup (List.mem_map.mpr ⟨slot, List.mem_range.mpr hslot, rfl⟩)

/-- Two processes are registered and the first is run. -/
def twoScheduled : Sched :=
  (schedSchedule (schedAddProcess (schedAddProcess (schedInit threeProcs) 1).1 2).1).1

/-- Two processes take turns. -/
theorem sched_two_yields_in_turn :
    ∃ slots s', Executes YieldsTo twoScheduled slots s' ∧ slots.Perm (List.range 2) ∧
      s'.currentSlot = twoScheduled.currentSlot ∧
      ∀ slot < 2, (slots.map twoScheduled.pidToSlot).count (twoScheduled.pidToSlot slot) = 1 := by
  have hcount : twoScheduled.slotCount = 2 := by decide +kernel
  have hrunnable : AllRunnable twoScheduled := by
    refine ⟨fun slot hslot => ?_, by decide +kernel⟩
    rw [hcount] at hslot
    interval_cases slot
    · decide +kernel
    · decide +kernel
  have htoSecond : YieldsTo twoScheduled 1 (schedYield twoScheduled).1 :=
    .of_ok (by decide +kernel) (by decide +kernel)
  have htoFirst : YieldsTo (schedYield twoScheduled).1 0 (schedYield (schedYield twoScheduled).1).1 :=
    .of_ok (by decide +kernel) (by decide +kernel)
  have hrun := Executes.cons htoSecond (.cons htoFirst (.nil _))
  have hslot : ∀ slot < 2, twoScheduled.pidToSlot slot = slot := by decide +kernel
  obtain ⟨hperm, hend, honce⟩ := sched_yields_in_turn hrunnable hrun hcount.symm
  rw [hcount] at hperm honce
  refine ⟨_, _, hrun, hperm, hend, honce fun i hi j hj heq => ?_⟩
  rwa [hslot i hi, hslot j hj] at heq

end BrightS
