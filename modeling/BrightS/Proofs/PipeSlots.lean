/-
Pipe slots.

The counter of pipes only grows, so a slot is used once.  A pipe that is open is one of the
pipes made, hence creation fails for want of slots after sixteen creations even when every
pipe has been closed since.
-/
import BrightS.Proofs.Pipe

namespace BrightS

open Bytes Runs

/-! ### Runs -/

inductive PipeEvent where
  | call (c : PipeCall)
  | closeRead (idx : Int)
  | closeWrite (idx : Int)

def Pipes.event (s : Pipes) (e : PipeEvent) (s' : Pipes) : Prop :=
  match e with
  | .call c => s.step c s'
  | .closeRead idx => s' = pipesCloseRead s idx
  | .closeWrite idx => s' = pipesCloseWrite s idx

def PipeEvent.creates : PipeEvent → Bool
  | .call .create => true
  | _ => false

/-! ### Open pipes -/

/-- The pipe was made and has an end that is open. -/
def Pipes.hasOpenEnd (s : Pipes) (i : Nat) : Bool :=
  decide (i < s.pipeCount) && ((s.pipeTable i).readEndOpen || (s.pipeTable i).writeEndOpen)

/-- How many pipes are open. -/
def Pipes.openCount (s : Pipes) : Nat := (List.range maxPipes).countP s.hasOpenEnd

/-- A pipe is to be had while fewer than sixteen are open, and it is none of those. -/
structure Pipes.Recycles (s : Pipes) : Prop where
  succeeds : s.openCount < maxPipes → (pipeCreate s).2 ≠ none
  unused : ∀ i, (pipeCreate s).2 = some i → s.hasOpenEnd i = false

section Counts

variable {s s' : Pipes}

theorem pipeCreate_full (h : maxPipes ≤ s.pipeCount) : pipeCreate s = (s, none) := by
  rw [pipeCreate, if_pos h]

theorem pipeCreate_next (h : s.pipeCount < maxPipes) :
    (pipeCreate s).2 = some s.pipeCount ∧ (pipeCreate s).1.pipeCount = s.pipeCount + 1 := by
  rw [pipeCreate, if_neg (Nat.not_le.mpr h)]
  exact ⟨rfl, rfl⟩

theorem hasOpenEnd_of_le {i : Nat} (h : s.pipeCount ≤ i) : s.hasOpenEnd i = false := by
  rw [Pipes.hasOpenEnd, decide_eq_false (Nat.not_lt.mpr h), Bool.false_and]

theorem openCount_le (s : Pipes) : s.openCount ≤ maxPipes := by
  have hle := List.countP_le_length (p := s.hasOpenEnd) (l := List.range maxPipes)
  rwa [List.length_range] at hle

/-- If every slot is open, every slot was used. -/
theorem openCount_full (h : s.openCount = maxPipes) : maxPipes ≤ s.pipeCount := by
  have hall : (List.range maxPipes).countP s.hasOpenEnd = (List.range maxPipes).length := by
    rw [List.length_range]
    exact h
  by_contra hlt
  have hopen := List.countP_eq_length.mp hall s.pipeCount (List.mem_range.mpr (Nat.not_le.mp hlt))
  rw [hasOpenEnd_of_le (le_refl _)] at hopen
  exact Bool.noConfusion hopen

/-- What a creation is asked for, it does unless all slots are used and some pipe is closed. -/
theorem recycles_iff (s : Pipes) :
    s.Recycles ↔ s.pipeCount < maxPipes ∨ s.openCount = maxPipes := by
  constructor
  · intro h
    by_contra hnot
    rw [not_or] at hnot
    have hless : s.openCount < maxPipes := Nat.lt_of_le_of_ne (openCount_le s) hnot.2
    refine h.succeeds hless ?_
    rw [pipeCreate_full (Nat.not_lt.mp hnot.1)]
  · rintro (hlt | hfull)
    · obtain ⟨hcreate, -⟩ := pipeCreate_next hlt
      refine ⟨fun _ => by rw [hcreate]; exact Option.some_ne_none _, fun i hi => ?_⟩
      rw [hcreate, Option.some.injEq] at hi
      exact hasOpenEnd_of_le hi.le
    · refine ⟨fun hless => absurd hfull (Nat.ne_of_lt hless), fun i hi => ?_⟩
      rw [pipeCreate_full (openCount_full hfull)] at hi
      exact absurd hi (by simp)

/-! ### The counter -/

theorem pipesCloseRead_pipeCount (s : Pipes) (idx : Int) :
    (pipesCloseRead s idx).pipeCount = s.pipeCount := by
  unfold pipesCloseRead
  split <;> rfl

theorem pipesCloseWrite_pipeCount (s : Pipes) (idx : Int) :
    (pipesCloseWrite s idx).pipeCount = s.pipeCount := by
  unfold pipesCloseWrite
  split <;> rfl

theorem pipesWrite_pipeCount (s : Pipes) (idx : Int) (src : Option (List Byte)) :
    (pipesWrite s idx src).1.pipeCount = s.pipeCount := by
  unfold pipesWrite
  split <;> rfl

theorem pipesRead_pipeCount (s : Pipes) (idx : Int) (dst : Bool) (n : Nat) :
    (pipesRead s idx dst n).1.pipeCount = s.pipeCount := by
  unfold pipesRead
  split <;> rfl

/-- The counter is the number of creations so far, up to sixteen. -/
theorem pipeCount_event {e : PipeEvent} (h : s.event e s') :
    s'.pipeCount = if e.creates = true ∧ s.pipeCount < maxPipes then s.pipeCount + 1
      else s.pipeCount := by
  cases e with
  | closeRead idx =>
      rw [show s' = _ from h, pipesCloseRead_pipeCount]
      rfl
  | closeWrite idx =>
      rw [show s' = _ from h, pipesCloseWrite_pipeCount]
      rfl
  | call c =>
      cases c with
      | create =>
          rw [show s' = (pipeCreate s).1 from h]
          by_cases hlt : s.pipeCount < maxPipes
          · rw [if_pos ⟨rfl, hlt⟩]
            exact (pipeCreate_next hlt).2
          · rw [if_neg fun hcond => hlt hcond.2, pipeCreate_full (Nat.not_lt.mp hlt)]
      | write idx src ret =>
          have hwrite : pipesWrite s idx src = (s', ret) := h
          have hsame := pipesWrite_pipeCount s idx src
          rw [hwrite] at hsame
          exact hsame
      | read idx dst n out ret =>
          have hread : pipesRead s idx dst n = (s', out, ret) := h
          have hsame := pipesRead_pipeCount s idx dst n
          rw [hread] at hsame
          exact hsame

theorem pipeCount_run {events : List PipeEvent} (hrun : Executes Pipes.event s events s')
    (hle : s.pipeCount ≤ maxPipes) :
    s'.pipeCount = min maxPipes (s.pipeCount + events.countP PipeEvent.creates) := by
  induction hrun with
  | nil s => rw [List.countP_nil, Nat.add_zero, Nat.min_eq_right hle]
  | @cons s s₁ s' e events hstep _ ih =>
      have hone := pipeCount_event hstep
      rw [List.countP_cons]
      by_cases hcreates : e.creates = true
      · by_cases hlt : s.pipeCount < maxPipes
        · rw [if_pos ⟨hcreates, hlt⟩] at hone
          rw [ih (by omega), hone, if_pos hcreates]
          congr 1
          omega
        · rw [if_neg fun hcond => hlt hcond.2] at hone
          rw [ih (by omega), hone, if_pos hcreates]
          omega
      · rw [if_neg fun hcond => hcreates hcond.1] at hone
        rw [ih (by omega), hone, if_neg hcreates, Nat.add_zero]

end Counts

/-! ### The result -/

/--
**Pipe slots are used once.**  In any state a run reaches, a pipe is to be had while fewer than
sixteen are open, and none that is open is given out, exactly if fewer than sixteen pipes were
asked for so far or all sixteen are open.
-/
theorem pipe_slots_recycled_iff {pipeTable : Nat → Pipe} {s : Pipes} {events : List PipeEvent}
    (hrun : Executes Pipes.event (Pipes.start pipeTable) events s) :
    s.Recycles ↔ events.countP PipeEvent.creates < maxPipes ∨ s.openCount = maxPipes := by
  have hcount := pipeCount_run hrun (Nat.zero_le _)
  rw [show (Pipes.start pipeTable).pipeCount = 0 from rfl, Nat.zero_add] at hcount
  rw [recycles_iff, hcount]
  refine or_congr_left ?_
  rw [min_lt_iff]
  exact or_iff_right (lt_irrefl _)

/-- The tables before any pipe was made. -/
def closedPipes : Nat → Pipe := fun _ => ⟨fun _ => 0, 0, 0, 0, false, false⟩

/-- After one pipe was made and closed there are fifteen more. -/
theorem pipe_slots_recycled_one :
    ∃ s, Executes Pipes.event (Pipes.start closedPipes)
        [.call .create, .closeRead 0, .closeWrite 0] s ∧ s.Recycles := by
  have hrun : Executes Pipes.event (Pipes.start closedPipes)
      [.call .create, .closeRead 0, .closeWrite 0] _ := .cons rfl (.cons rfl (.cons rfl (.nil _)))
  exact ⟨_, hrun, (pipe_slots_recycled_iff hrun).mpr (.inl (by decide))⟩

/-- Sixteen pipes are made and one of them is closed, yet there is no slot for another. -/
theorem pipe_slot_lost : ¬ ∀ (s : Pipes) (events : List PipeEvent),
    Executes Pipes.event (Pipes.start closedPipes) events s → s.Recycles := by
  intro hall
  have hmany : ∀ n s, ∃ s', Executes Pipes.event s (List.replicate n (.call .create)) s' := by
    intro n
    induction n with
    | zero => exact fun s => ⟨s, .nil s⟩
    | succ n ih =>
        intro s
        obtain ⟨s', hrest⟩ := ih (pipeCreate s).1
        exact ⟨s', .cons rfl hrest⟩
  obtain ⟨s, hcreated⟩ := hmany maxPipes (Pipes.start closedPipes)
  have hcount := pipeCount_run hcreated (Nat.zero_le _)
  rw [show (Pipes.start closedPipes).pipeCount = 0 from rfl, List.countP_replicate, Nat.zero_add,
    if_pos (show (PipeEvent.call .create).creates = true from rfl), Nat.min_self] at hcount
  have hclosed : Executes Pipes.event s [.closeRead 0, .closeWrite 0]
      (pipesCloseWrite (pipesCloseRead s 0) 0) := .cons rfl (.cons rfl (.nil _))
  rcases (recycles_iff _).mp (hall _ _ (hcreated.append hclosed)) with hless | hfull
  · rw [pipesCloseWrite_pipeCount, pipesCloseRead_pipeCount, hcount] at hless
    exact absurd hless (lt_irrefl _)
  · have hget : ∀ s' : Pipes, s'.pipeCount = maxPipes → pipeGet s' 0 = some 0 := by
      intro s' hs'
      exact pipeGet_eq_some.mpr ⟨by rw [hs']; decide, rfl⟩
    have hopen := List.countP_eq_length.mp (hfull.trans List.length_range.symm) 0 (by decide)
    rw [pipesCloseWrite, hget _ ((pipesCloseRead_pipeCount s 0).trans hcount)] at hopen
    rw [pipesCloseRead, hget s hcount] at hopen
    simp [Pipes.hasOpenEnd, Pipes.put, pipeCloseRead, pipeCloseWrite] at hopen

end BrightS
