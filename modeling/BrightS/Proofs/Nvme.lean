/-
When every call gets the completion of its own command.

A call waits for its completion before it returns, so at any time at most one command is on its
way: it lies in the submission ring, or the drive is working on it, or its completion is written
and not read.  In each of these stages the slot that the driver looks at is the one that the
drive writes next or has just written, and the mark in it tells the two apart.

So the rings are right.  But a call looks only once: it is answered if the completion is there
when its loop begins (`LooksInTime`), and never if it is not (`Stuck`).
-/
import BrightS.Lib.Runs
import BrightS.Kernel.Nvme

namespace BrightS

open PhaseRing Runs

/-- The mark of a completion. -/
def completionMark (cqe : WithLabel NvmeCqe) : Nat := cqe.entry.status % 2

def completionStatus (cqe : WithLabel NvmeCqe) : Nat := cqe.entry.status / 2 % 2 ^ 15

/-- What an answer took out of the completion ring. -/
def NvmeAnswer.taken : NvmeAnswer → Option (Option Nat × Nat)
  | .completed label status => some (label, status)
  | _ => none

def NvmeSystem.consumed (s : NvmeSystem) : List (Option Nat × Nat) :=
  s.answers.filterMap fun a => a.2.taken

/-- An answer is the completion of the call's own command; a call is only turned down for the
number of its blocks. -/
def Answered (calls : List NvmeCall) : Nat × NvmeAnswer → Prop
  | (call, .rejected) => ∃ c, calls[call]? = some c ∧ 513 < c.nblocks
  | (_, .mismatch) => False
  | (call, .completed label _) => label = some call

/-! ### Where the command of a call is -/

/-- The driver has read what the drive has written. -/
structure Level (s : NvmeSystem) : Prop where
  head : s.driver.ioCqHead = s.drive.cqTail
  phase : s.driver.ioPhase = s.drive.phase
  account : s.consumed = s.completions

/-- The completion of the given call is written and not read. -/
structure Behind (s : NvmeSystem) (call cid : Nat) : Prop where
  tail : s.drive.cqTail = nextPos nvmeIoQDepth s.driver.ioCqHead
  phase : s.drive.phase = nextPhase nvmeIoQDepth s.driver.ioCqHead s.driver.ioPhase
  mark : completionMark (s.ioCq s.driver.ioCqHead) = s.driver.ioPhase
  label : (s.ioCq s.driver.ioCqHead).label = some call
  cid : (s.ioCq s.driver.ioCqHead).entry.cid = cid
  account : s.completions =
    s.consumed ++ [(some call, completionStatus (s.ioCq s.driver.ioCqHead))]

/-- The loop of the latest call is running. -/
structure Waits (s : NvmeSystem) (call cid : Nat) : Prop where
  waiting : s.waiting = some (call, cid)
  call_eq : call = s.answers.length
  calls : s.calls.length = call + 1

inductive NvmeStage (s : NvmeSystem) : Prop where
  | idle (hwaiting : s.waiting = none) (hcalls : s.calls.length = s.answers.length)
      (hsq : s.drive.sqHead = s.driver.ioSqTail) (hrunning : s.drive.running = [])
      (hlevel : Level s)
  | queued (call : Nat) (cmd : NvmeCmd) (hwaits : Waits s call cmd.cid)
      (hsq : s.driver.ioSqTail = nextPos nvmeIoQDepth s.drive.sqHead)
      (hslot : s.ioSq s.drive.sqHead = ⟨some call, cmd⟩) (hrunning : s.drive.running = [])
      (hlevel : Level s)
  | running (call : Nat) (cmd : NvmeCmd) (hwaits : Waits s call cmd.cid)
      (hsq : s.drive.sqHead = s.driver.ioSqTail) (hrunning : s.drive.running = [⟨some call, cmd⟩])
      (hlevel : Level s)
  | completed (call cid : Nat) (hwaits : Waits s call cid)
      (hsq : s.drive.sqHead = s.driver.ioSqTail) (hrunning : s.drive.running = [])
      (hbehind : Behind s call cid)

structure NvmeOk (s : NvmeSystem) : Prop where
  ring : Written nvmeIoQDepth completionMark s.ioCq s.drive.cqTail s.drive.phase
  doorbell : s.sqDoorbell = s.driver.ioSqTail
  order : s.answers.map (·.1) = List.range s.answers.length
  answered : ∀ a ∈ s.answers, Answered s.calls a
  fresh : s.loaded = none
  stage : NvmeStage s

theorem nvmeOk_start (addr : Nat) : NvmeOk (nvmeStart addr) where
  ring := written_init (by decide) fun _ _ => rfl
  doorbell := rfl
  order := rfl
  answered := fun a ha => absurd ha (List.not_mem_nil)
  fresh := rfl
  stage := .idle rfl rfl rfl rfl ⟨rfl, rfl, rfl⟩

theorem nextPos_ne {pos : Nat} : pos ≠ nextPos nvmeIoQDepth pos := by
  unfold nextPos nvmeIoQDepth
  omega

/-- A call more does not change what is known of the answers. -/
theorem Answered.more_calls {calls : List NvmeCall} {a : Nat × NvmeAnswer} (h : Answered calls a)
    (c : NvmeCall) : Answered (calls ++ [c]) a := by
  obtain ⟨call, answer⟩ := a
  cases answer with
  | rejected =>
      obtain ⟨old, hold, hblocks⟩ := h
      have hlt := (List.getElem?_eq_some_iff.mp hold).1
      exact ⟨old, (List.getElem?_append_left hlt).trans hold, hblocks⟩
  | mismatch => exact h
  | completed label status => exact h

/-- The next call is answered. -/
theorem order_snoc {answers : List (Nat × NvmeAnswer)} {call : Nat} {answer : NvmeAnswer}
    (h : answers.map (·.1) = List.range answers.length) (hcall : call = answers.length) :
    (answers ++ [(call, answer)]).map (·.1) = List.range (answers ++ [(call, answer)]).length := by
  rw [List.map_append, h, List.length_append, List.length_singleton, List.range_succ, hcall]
  rfl

/-! ### The steps -/

/-- What a call does before its loop: only the identifier and the list of pages change in the
driver. -/
theorem nvmeCommand_frame (dr : NvmeDriver) (c : NvmeCall) :
    (nvmeCommand dr c).1.ioSqTail = dr.ioSqTail ∧
      (nvmeCommand dr c).1.ioCqHead = dr.ioCqHead ∧
      (nvmeCommand dr c).1.ioPhase = dr.ioPhase := by
  unfold nvmeCommand
  dsimp only [allocCid]
  split_ifs <;> exact ⟨rfl, rfl, rfl⟩

theorem nvmeCommand_none {dr : NvmeDriver} {c : NvmeCall} (h : (nvmeCommand dr c).2 = none) :
    513 < c.nblocks := by
  unfold nvmeCommand at h
  dsimp only at h
  split_ifs at h with hmany hlong
  · omega

theorem NvmeOk.submit {s : NvmeSystem} (h : NvmeOk s) (hwaiting : s.waiting = none)
    (c : NvmeCall) : NvmeOk (s.submit c) := by
  obtain ⟨htail, hhead, hphase⟩ := nvmeCommand_frame s.driver c
  cases h.stage with
  | queued call cmd hwaits => exact absurd hwaiting (by rw [hwaits.waiting]; simp)
  | running call cmd hwaits => exact absurd hwaiting (by rw [hwaits.waiting]; simp)
  | completed call cid hwaits => exact absurd hwaiting (by rw [hwaits.waiting]; simp)
  | idle _ hcalls hsq hrunning hlevel =>
      unfold NvmeSystem.submit
      dsimp only
      split
      · rename_i dr hcommand
        rw [hcommand] at htail hhead hphase
        have hblocks : 513 < c.nblocks := nvmeCommand_none (by rw [hcommand])
        refine ⟨h.ring, h.doorbell.trans htail.symm, order_snoc h.order hcalls, ?_, h.fresh, ?_⟩
        · intro a ha
          rcases List.mem_append.mp ha with ha | ha
          · exact (h.answered a ha).more_calls c
          · rw [List.mem_singleton.mp ha]
            exact ⟨c, List.getElem?_concat_length, hblocks⟩
        · refine .idle hwaiting ?_ (hsq.trans htail.symm) hrunning
            ⟨hhead.trans hlevel.head, hphase.trans hlevel.phase, ?_⟩
          · simp [hcalls]
          · rw [← hlevel.account]
            simp [NvmeSystem.consumed, NvmeAnswer.taken]
      · rename_i dr cmd hcommand
        rw [hcommand] at htail hhead hphase
        refine ⟨h.ring, rfl, h.order, fun a ha => (h.answered a ha).more_calls c,
          rfl, ?_⟩
        refine .queued s.calls.length cmd ⟨rfl, hcalls, by simp⟩ ?_ ?_ hrunning
          ⟨hhead.trans hlevel.head, hphase.trans hlevel.phase, hlevel.account⟩
        · dsimp only [nextPos]
          rw [htail, ← hsq]
        · dsimp only
          rw [hsq, htail, Function.update_self]

/-- The cell that the driver looks at still bears the mark of the pass before. -/
theorem NvmeOk.unmarked {s : NvmeSystem} (h : NvmeOk s) (hlevel : Level s) :
    completionMark (s.ioCq s.driver.ioCqHead) ≠ s.driver.ioPhase := by
  rw [hlevel.head, hlevel.phase]
  exact h.ring.unmarked

/-- The loop ends with the completion that the drive wrote for the call. -/
theorem poll_behind {s : NvmeSystem} {call cid : Nat} (hfresh : s.loaded = none)
    (h : Behind s call cid) : s.poll call cid =
      { s with
        driver :=
          { s.driver with
            ioCqHead := nextPos nvmeIoQDepth s.driver.ioCqHead
            ioPhase := nextPhase nvmeIoQDepth s.driver.ioCqHead s.driver.ioPhase }
        cqDoorbell := nextPos nvmeIoQDepth s.driver.ioCqHead
        waiting := none
        answers := s.answers ++
          [(call, .completed (some call) (completionStatus (s.ioCq s.driver.ioCqHead)))] } := by
  have hdone : nvmePollIo s.driver (s.loaded.getD (completionMark (s.ioCq s.driver.ioCqHead)))
      (s.ioCq s.driver.ioCqHead).entry cid =
      .done
        { s.driver with
          ioCqHead := nextPos nvmeIoQDepth s.driver.ioCqHead
          ioPhase := nextPhase nvmeIoQDepth s.driver.ioCqHead s.driver.ioPhase }
        (completionStatus (s.ioCq s.driver.ioCqHead)) := by
    rw [hfresh]
    exact (if_neg (not_not.mpr h.mark)).trans (if_neg (not_not.mpr h.cid))
  unfold NvmeSystem.poll
  dsimp only
  rw [show (s.ioCq s.driver.ioCqHead).entry.status % 2 =
    completionMark (s.ioCq s.driver.ioCqHead) from rfl, hdone, ← h.label]

/-! ### One look -/

/-- When the loop of a call looks at the ring, the drive has completed the command of the call. -/
def LooksInTime (s : NvmeSystem) : NvmeEvent → Prop
  | .poll => ∀ w, s.waiting = some w → some w.1 ∈ s.completions.map Prod.fst
  | _ => True

/-- What the driver has read so far belongs to the calls that have returned. -/
theorem NvmeOk.consumed_before {s : NvmeSystem} (h : NvmeOk s) {call : Nat}
    (hmem : some call ∈ s.consumed.map Prod.fst) : call < s.answers.length := by
  obtain ⟨⟨label, status⟩, hconsumed, hlabel⟩ := List.mem_map.mp hmem
  obtain ⟨⟨call', answer⟩, hanswer, htaken⟩ := List.mem_filterMap.mp hconsumed
  have hown := h.answered _ hanswer
  cases answer with
  | rejected => exact absurd htaken (by simp [NvmeAnswer.taken])
  | mismatch => exact absurd htaken (by simp [NvmeAnswer.taken])
  | completed label' status' =>
      obtain ⟨rfl, rfl⟩ := Prod.mk.inj (Option.some.inj htaken)
      obtain rfl : call = call' := Option.some.inj (hlabel.symm.trans hown)
      have hin : call ∈ s.answers.map (·.1) := List.mem_map.mpr ⟨_, hanswer, rfl⟩
      rw [h.order] at hin
      exact List.mem_range.mp hin

/-- The driver has not read the completion of the call that waits. -/
theorem NvmeOk.late {s : NvmeSystem} (h : NvmeOk s) (hlevel : Level s) {call cid : Nat}
    (hwaits : Waits s call cid) : ¬ LooksInTime s .poll := by
  intro hin
  have hmem := hin (call, cid) hwaits.waiting
  rw [← hlevel.account] at hmem
  have hlt := h.consumed_before hmem
  rw [hwaits.call_eq] at hlt
  exact lt_irrefl _ hlt

/-- **A round of the loop** that comes in time. -/
theorem NvmeOk.poll {s : NvmeSystem} (h : NvmeOk s) {call cid : Nat}
    (hwaiting : s.waiting = some (call, cid)) (hin : LooksInTime s .poll) :
    NvmeOk (s.poll call cid) := by
  cases h.stage with
  | idle hnone => exact absurd hwaiting (by rw [hnone]; simp)
  | queued call' cmd hwaits hsq hslot hrunning hlevel => exact absurd hin (h.late hlevel hwaits)
  | running call' cmd hwaits hsq hrunning hlevel => exact absurd hin (h.late hlevel hwaits)
  | completed call' cid' hwaits hsq hrunning hbehind =>
      obtain ⟨rfl, rfl⟩ := Prod.mk.inj (Option.some.inj (hwaits.waiting.symm.trans hwaiting))
      rw [poll_behind h.fresh hbehind]
      refine ⟨h.ring, h.doorbell, order_snoc h.order hwaits.call_eq, ?_, h.fresh, ?_⟩
      · intro a ha
        rcases List.mem_append.mp ha with ha | ha
        · exact h.answered a ha
        · rw [List.mem_singleton.mp ha]
          rfl
      · refine .idle rfl ?_ hsq hrunning ⟨hbehind.tail.symm, hbehind.phase.symm, ?_⟩
        · rw [hwaits.calls, hwaits.call_eq]
          simp
        · rw [hbehind.account]
          simp [NvmeSystem.consumed, NvmeAnswer.taken]

theorem NvmeOk.fetch {s : NvmeSystem} (h : NvmeOk s) (hsome : s.drive.sqHead ≠ s.sqDoorbell) :
    NvmeOk s.fetch := by
  cases h.stage with
  | idle _ _ hsq => exact absurd (hsq.trans h.doorbell.symm) hsome
  | running _ _ _ hsq => exact absurd (hsq.trans h.doorbell.symm) hsome
  | completed _ _ _ hsq => exact absurd (hsq.trans h.doorbell.symm) hsome
  | queued call cmd hwaits hsq hslot hrunning hlevel =>
      have hrun : s.fetch.drive.running = [⟨some call, cmd⟩] := by
        unfold NvmeSystem.fetch
        dsimp only
        rw [hrunning, hslot, List.nil_append]
      exact ⟨h.ring, h.doorbell, h.order, h.answered, h.fresh,
        .running call cmd ⟨hwaits.waiting, hwaits.call_eq, hwaits.calls⟩ hsq.symm hrun
          ⟨hlevel.head, hlevel.phase, hlevel.account⟩⟩

/-- The drive writes the completion where the driver looks. -/
theorem Level.complete {s : NvmeSystem} (h : Level s) (hphase : s.drive.phase < 2) {call : Nat}
    {cmd : NvmeCmd} {status : Nat} (hstatus : status < 2 ^ 15) (dw0 dw1 : Nat) :
    Behind (s.complete ⟨some call, cmd⟩ [] dw0 dw1 status) call cmd.cid := by
  have hslot : (s.complete ⟨some call, cmd⟩ [] dw0 dw1 status).ioCq s.driver.ioCqHead =
      ⟨some call, { dw0 := dw0, dw1 := dw1, sqHead := s.drive.sqHead, sqId := 1
                    cid := cmd.cid, status := status * 2 + s.drive.phase }⟩ := by
    unfold NvmeSystem.complete
    dsimp only
    rw [h.head, Function.update_self]
  have hmark : (status * 2 + s.drive.phase) % 2 = s.drive.phase := by omega
  have hreturn : (status * 2 + s.drive.phase) / 2 % 2 ^ 15 = status := by omega
  exact {
    tail := congrArg (nextPos nvmeIoQDepth) h.head.symm
    phase := congrArg₂ (nextPhase nvmeIoQDepth) h.head.symm h.phase.symm
    mark := (congrArg completionMark hslot).trans (hmark.trans h.phase.symm)
    label := congrArg WithLabel.label hslot
    cid := congrArg (fun cqe => cqe.entry.cid) hslot
    account := by
      have hst := (congrArg completionStatus hslot).trans hreturn
      change s.completions ++ [(some call, status)] = s.consumed ++ [(some call, _)]
      rw [h.account]
      exact congrArg (fun st => s.completions ++ [(some call, st)]) hst.symm }

theorem NvmeOk.complete {s : NvmeSystem} (h : NvmeOk s) {cmd : WithLabel NvmeCmd}
    {rest : List (WithLabel NvmeCmd)} (hcmd : s.drive.running = cmd :: rest) {status : Nat}
    (hstatus : status < 2 ^ 15) (dw0 dw1 : Nat) : NvmeOk (s.complete cmd rest dw0 dw1 status) := by
  cases h.stage with
  | idle _ _ _ hrunning => exact absurd hcmd (by rw [hrunning]; simp)
  | queued _ _ _ _ _ hrunning => exact absurd hcmd (by rw [hrunning]; simp)
  | completed _ _ _ _ hrunning => exact absurd hcmd (by rw [hrunning]; simp)
  | running call own hwaits hsq hrunning hlevel =>
      obtain ⟨rfl, rfl⟩ := List.cons.inj (hcmd.symm.trans hrunning)
      have hphase := h.ring.phase_lt
      have hmark : (status * 2 + s.drive.phase) % 2 = s.drive.phase := by omega
      exact ⟨h.ring.write hmark, h.doorbell, h.order, h.answered, h.fresh,
        .completed call own.cid ⟨hwaits.waiting, hwaits.call_eq, hwaits.calls⟩ hsq rfl
          (hlevel.complete hphase hstatus dw0 dw1)⟩

/-- **Whatever the driver or the drive does next, the rings and the answers stay matched**, if no
loop looks too early. -/
theorem nvmeOk_next {s s' : NvmeSystem} {e : NvmeEvent} (h : NvmeOk s) (hin : LooksInTime s e)
    (hnext : s.next e = some s') : NvmeOk s' := by
  cases e with
  | submit c =>
      rw [NvmeSystem.next] at hnext
      split_ifs at hnext with hwaiting
      rw [← Option.some.inj hnext]
      exact h.submit hwaiting c
  | poll =>
      obtain ⟨⟨call, cid⟩, hwaiting, rfl⟩ := Option.map_eq_some_iff.mp hnext
      exact h.poll hwaiting hin
  | fetch =>
      rw [NvmeSystem.next] at hnext
      split_ifs at hnext with hnone
      rw [← Option.some.inj hnext]
      exact h.fetch hnone
  | complete dw0 dw1 status =>
      rw [NvmeSystem.next] at hnext
      split at hnext
      · exact absurd hnext (by simp)
      · rename_i cmd rest hcmd
        split_ifs at hnext with hstatus
        rw [← Option.some.inj hnext]
        exact h.complete hcmd hstatus dw0 dw1

/-! ### Every call -/

/-- One step of the driver or the drive. -/
def NvmeStep (s : NvmeSystem) (e : NvmeEvent) (s' : NvmeSystem) : Prop := s.next e = some s'

def NvmeEvent.IsSubmit : NvmeEvent → Prop
  | .submit _ => True
  | _ => False

/-- The calls are answered in their order, each with the completion of its own command; between
two calls the drive's completions have all been read, and the driver is where the drive is. -/
structure NvmeMatched (s : NvmeSystem) : Prop where
  order : s.answers.map (·.1) = List.range s.answers.length
  answered : ∀ a ∈ s.answers, Answered s.calls a
  returned : s.waiting = none →
    s.calls.length = s.answers.length ∧ s.consumed = s.completions ∧
      s.driver.ioCqHead = s.drive.cqTail ∧ s.driver.ioPhase = s.drive.phase

/-- The call that waits can return, without another call. -/
def NvmeAnswerable (s : NvmeSystem) : Prop :=
  ∃ events s', (∀ e ∈ events, ¬ e.IsSubmit) ∧ Executes NvmeStep s events s' ∧ s'.waiting = none

theorem Behind.answerable {s : NvmeSystem} {call cid : Nat} (hfresh : s.loaded = none)
    (hwaits : Waits s call cid) (h : Behind s call cid) : NvmeAnswerable s := by
  have hstep : NvmeStep s .poll (s.poll call cid) := by
    unfold NvmeStep NvmeSystem.next
    rw [hwaits.waiting]
    rfl
  refine ⟨[.poll], _, fun e he => ?_, .cons hstep (.nil _), ?_⟩
  · rw [List.mem_singleton.mp he]
    exact id
  · rw [poll_behind hfresh h]

/-- A step that is no call comes first. -/
theorem NvmeAnswerable.of_step {s s' : NvmeSystem} {e : NvmeEvent} (hstep : NvmeStep s e s')
    (he : ¬ e.IsSubmit) (h : NvmeAnswerable s') : NvmeAnswerable s := by
  obtain ⟨events, last, hevents, hrun, hlast⟩ := h
  exact ⟨e :: events, last, List.forall_mem_cons.mpr ⟨he, hevents⟩, .cons hstep hrun, hlast⟩

/-- The drive completes the command, and the call reads it. -/
theorem Level.answerable {s : NvmeSystem} (h : Level s) (hfresh : s.loaded = none)
    (hphase : s.drive.phase < 2) {call : Nat} {cmd : NvmeCmd} (hwaits : Waits s call cmd.cid)
    (hrunning : s.drive.running = [⟨some call, cmd⟩]) : NvmeAnswerable s := by
  have hstep : NvmeStep s (.complete 0 0 0) (s.complete ⟨some call, cmd⟩ [] 0 0 0) := by
    unfold NvmeStep
    rw [NvmeSystem.next, hrunning]
    exact if_pos (by decide)
  have hwaits' : Waits (s.complete ⟨some call, cmd⟩ [] 0 0 0) call cmd.cid :=
    ⟨hwaits.waiting, hwaits.call_eq, hwaits.calls⟩
  exact .of_step hstep id ((h.complete hphase (by decide) 0 0).answerable hfresh hwaits')

theorem NvmeOk.answerable {s : NvmeSystem} (h : NvmeOk s) (hwaiting : s.waiting ≠ none) :
    NvmeAnswerable s := by
  cases h.stage with
  | idle hnone => exact absurd hnone hwaiting
  | running call cmd hwaits _ hrunning hlevel =>
      exact hlevel.answerable h.fresh h.ring.phase_lt hwaits hrunning
  | completed call cid hwaits _ _ hbehind => exact hbehind.answerable h.fresh hwaits
  | queued call cmd hwaits hsq hslot hrunning hlevel =>
      have hsome : s.drive.sqHead ≠ s.sqDoorbell := by
        rw [h.doorbell, hsq]
        exact nextPos_ne
      have hstep : NvmeStep s .fetch s.fetch := if_neg hsome
      have hrun : s.fetch.drive.running = [⟨some call, cmd⟩] := by
        unfold NvmeSystem.fetch
        dsimp only
        rw [hrunning, hslot, List.nil_append]
      have hlevel' : Level s.fetch := ⟨hlevel.head, hlevel.phase, hlevel.account⟩
      exact .of_step hstep id (hlevel'.answerable h.fresh h.ring.phase_lt
        ⟨hwaits.waiting, hwaits.call_eq, hwaits.calls⟩ hrun)

theorem NvmeOk.matched {s : NvmeSystem} (h : NvmeOk s) : NvmeMatched s := by
  refine ⟨h.order, h.answered, fun hnone => ?_⟩
  cases h.stage with
  | idle _ hcalls _ _ hlevel => exact ⟨hcalls, hlevel.account, hlevel.head, hlevel.phase⟩
  | queued call cmd hwaits => exact absurd (hwaits.waiting.symm.trans hnone) (by simp)
  | running call cmd hwaits => exact absurd (hwaits.waiting.symm.trans hnone) (by simp)
  | completed call cid hwaits => exact absurd (hwaits.waiting.symm.trans hnone) (by simp)

/-! ### A look too early -/

/-- The loop of a call has loaded a phase bit that it does not wait for. -/
structure Stuck (s : NvmeSystem) (w : Nat × Nat) : Prop where
  waiting : s.waiting = some w
  early : ∃ phase, s.loaded = some phase ∧ phase ≠ s.driver.ioPhase

theorem NvmeOk.stuck {s : NvmeSystem} (h : NvmeOk s) {w : Nat × Nat} (hwaiting : s.waiting = some w)
    (hlate : ¬ LooksInTime s .poll) : Stuck (s.poll w.1 w.2) w := by
  have hlevel : Level s := by
    cases h.stage with
    | idle _ _ _ _ hlevel => exact hlevel
    | queued _ _ _ _ _ _ hlevel => exact hlevel
    | running _ _ _ _ _ hlevel => exact hlevel
    | completed call cid hwaits _ _ hbehind =>
        refine absurd (fun w hw => ?_) hlate
        obtain rfl := Option.some.inj (hwaits.waiting.symm.trans hw)
        rw [hbehind.account]
        simp
  have hagain : nvmePollIo s.driver (s.loaded.getD (completionMark (s.ioCq s.driver.ioCqHead)))
      (s.ioCq s.driver.ioCqHead).entry w.2 = .again := by
    rw [h.fresh]
    exact if_pos (h.unmarked hlevel)
  unfold NvmeSystem.poll
  dsimp only
  rw [show (s.ioCq s.driver.ioCqHead).entry.status % 2 =
    completionMark (s.ioCq s.driver.ioCqHead) from rfl, hagain, h.fresh]
  exact ⟨hwaiting, _, rfl, h.unmarked hlevel⟩

/-- Nothing that the drive does reaches the loop. -/
theorem Stuck.next {s s' : NvmeSystem} {w : Nat × Nat} {e : NvmeEvent} (h : Stuck s w)
    (hstep : NvmeStep s e s') : Stuck s' w := by
  obtain ⟨phase, hloaded, hne⟩ := h.early
  unfold NvmeStep at hstep
  cases e with
  | submit c =>
      rw [NvmeSystem.next, if_neg (by rw [h.waiting]; simp)] at hstep
      exact absurd hstep (by simp)
  | poll =>
      obtain ⟨w', -, rfl⟩ := Option.map_eq_some_iff.mp hstep
      have hagain : nvmePollIo s.driver phase (s.ioCq s.driver.ioCqHead).entry w'.2 = .again :=
        if_pos hne
      unfold NvmeSystem.poll
      dsimp only
      rw [hloaded, Option.getD_some, hagain]
      exact ⟨h.waiting, phase, rfl, hne⟩
  | fetch =>
      rw [NvmeSystem.next] at hstep
      split_ifs at hstep
      rw [← Option.some.inj hstep]
      exact ⟨h.waiting, h.early⟩
  | complete dw0 dw1 status =>
      rw [NvmeSystem.next] at hstep
      split at hstep
      · exact absurd hstep (by simp)
      · split_ifs at hstep
        rw [← Option.some.inj hstep]
        exact ⟨h.waiting, h.early⟩

theorem Stuck.run {s s' : NvmeSystem} {w : Nat × Nat} {events : List NvmeEvent} (h : Stuck s w)
    (hrun : Executes NvmeStep s events s') : Stuck s' w :=
  hrun.invariant (P := fun s => Stuck s w) (fun _ _ _ h hstep => h.next hstep) h

theorem nvmeOk_run {addr : Nat} {events : List NvmeEvent} {s : NvmeSystem}
    (hrun : Executes (Guarded LooksInTime NvmeStep) (nvmeStart addr) events s) : NvmeOk s :=
  hrun.invariant (P := NvmeOk) (fun _ _ _ h hstep => nvmeOk_next h hstep.1 hstep.2)
    (nvmeOk_start addr)

/--
**When every call is answered with the completion of its own command, and leaves the driver where
the drive writes next.**  In every run in which the loops look in time this holds, and a call that
waits can return; and after a look that comes too early the call waits for ever.
-/
theorem nvme_completions_matched {addr : Nat} {events : List NvmeEvent} {s : NvmeSystem}
    (hrun : Executes (Guarded LooksInTime NvmeStep) (nvmeStart addr) events s) :
    (NvmeMatched s ∧ (s.waiting ≠ none → NvmeAnswerable s)) ∧
      ∀ s', NvmeStep s .poll s' → ¬ LooksInTime s .poll → ∀ later last,
        Executes NvmeStep s' later last → last.waiting = s.waiting ∧ ¬ NvmeAnswerable last := by
  have hok := nvmeOk_run hrun
  refine ⟨⟨hok.matched, hok.answerable⟩, fun s' hpoll hlate later last hlast => ?_⟩
  obtain ⟨w, hwaiting, rfl⟩ := Option.map_eq_some_iff.mp hpoll
  have hstuck := (hok.stuck hwaiting hlate).run hlast
  refine ⟨hstuck.waiting.trans hwaiting.symm, ?_⟩
  rintro ⟨events, s'', -, hrun', hnone⟩
  exact absurd ((hstuck.run hrun').waiting.symm.trans hnone) (by simp)

instance (s : NvmeSystem) : (e : NvmeEvent) → Decidable (LooksInTime s e)
  | .poll => inferInstanceAs
      (Decidable (∀ w, s.waiting = some w → some w.1 ∈ s.completions.map Prod.fst))
  | .submit _ | .fetch | .complete _ _ _ => inferInstanceAs (Decidable True)

/-- A read, a read of too many blocks, and a write whose command the drive has not taken: the write
can return, but not after a look at the ring. -/
theorem nvme_completions_matched_reads :
    ∃ s, Executes (Guarded LooksInTime NvmeStep) (nvmeStart 0)
        [.submit ⟨2, 16, 8, 0x10000⟩, .fetch, .complete 0 0 0, .poll,
          .submit ⟨2, 16, 514, 0x10000⟩, .submit ⟨1, 24, 1, 0x20000⟩] s ∧
      s.answers = [(0, .completed (some 0) 0), (1, .rejected)] ∧ NvmeAnswerable s ∧
      ∃ s', NvmeStep s .poll s' ∧ ¬ NvmeAnswerable s' := by
  have heval : (runAll (testedNext (fun s e => decide (LooksInTime s e)) NvmeSystem.next)
      (nvmeStart 0) [.submit ⟨2, 16, 8, 0x10000⟩, .fetch, .complete 0 0 0, .poll,
        .submit ⟨2, 16, 514, 0x10000⟩, .submit ⟨1, 24, 1, 0x20000⟩]).map
          (fun s => (s.answers, s.waiting, decide (LooksInTime s .poll))) =
      some ([(0, .completed (some 0) 0), (1, .rejected)], some (2, 3), false) := by decide +kernel
  obtain ⟨s, hs, hstate⟩ := Option.map_eq_some_iff.mp heval
  obtain ⟨hanswers, hrest⟩ := Prod.mk.inj hstate
  obtain ⟨hwaiting, hlate⟩ := Prod.mk.inj hrest
  have hrun : Executes (Guarded LooksInTime NvmeStep) (nvmeStart 0) _ s :=
    executes_tested (fun s e h => of_decide_eq_true h) (fun _ _ _ h => h) hs
  obtain ⟨⟨-, hanswerable⟩, hnever⟩ := nvme_completions_matched hrun
  have hpoll : NvmeStep s .poll (s.poll 2 3) := by
    unfold NvmeStep NvmeSystem.next
    rw [hwaiting]
    rfl
  exact ⟨s, hrun, hanswers, hanswerable (by rw [hwaiting]; simp), _, hpoll,
    (hnever _ hpoll (of_decide_eq_false hlate) [] _ (.nil _)).2⟩

/-- The first read after the start, which looks at the ring before the drive has completed it: the
completion comes, and the call does not return. -/
theorem nvme_call_never_returns :
    ∃ s, Executes NvmeStep (nvmeStart 0)
        [.submit ⟨2, 16, 8, 0x10000⟩, .poll, .fetch, .complete 0 0 0] s ∧
      s.completions = [(some 0, 0)] ∧ s.waiting = some (0, 1) ∧ ¬ NvmeAnswerable s := by
  have heval : (runAll NvmeSystem.next (nvmeStart 0)
      [.submit ⟨2, 16, 8, 0x10000⟩, .poll, .fetch, .complete 0 0 0]).map
        (fun s => (s.completions, s.waiting, s.loaded, s.driver.ioPhase)) =
      some ([(some 0, 0)], some (0, 1), some 0, 1) := by decide +kernel
  obtain ⟨s, hs, hstate⟩ := Option.map_eq_some_iff.mp heval
  obtain ⟨hcompletions, hrest⟩ := Prod.mk.inj hstate
  obtain ⟨hwaiting, hrest⟩ := Prod.mk.inj hrest
  obtain ⟨hloaded, hphase⟩ := Prod.mk.inj hrest
  have hstuck : Stuck s (0, 1) := ⟨hwaiting, 0, hloaded, by rw [hphase]; decide⟩
  refine ⟨s, executes_runAll (fun _ _ _ h => h) hs, hcompletions, hwaiting, ?_⟩
  rintro ⟨events, last, -, hrun, hnone⟩
  exact absurd ((hstuck.run hrun).waiting.symm.trans hnone) (by simp)

end BrightS
