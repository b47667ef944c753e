/-
A ring whose entries carry the phase of the pass they were written in.

The producer fills the cells of a ring one after another and marks each with the phase of its
pass; at the end of the ring the phase is inverted.  The consumer sees the cell at its own
position, and knows from the mark whether the producer has been there in this pass: as long as
the producer has not, the cell still holds the mark of the pass before.
-/
import Mathlib.Logic.Function.Basic
import Mathlib.Order.Basic
import Mathlib.Tactic.IntervalCases

namespace PhaseRing

variable {α : Type}

/-- The position and the phase after `pos` has been passed. -/
def nextPos (cap pos : Nat) : Nat := (pos + 1) % cap

def nextPhase (cap pos phase : Nat) : Nat := if nextPos cap pos = 0 then phase ^^^ 1 else phase

/-- The producer is at `tail`: the cells before it are marked with its phase, the others with the
inverted one. -/
structure Written (cap : Nat) (mark : α → Nat) (cells : Nat → α) (tail phase : Nat) : Prop where
  tail_lt : tail < cap
  phase_lt : phase < 2
  before : ∀ i, i < tail → mark (cells i) = phase
  after : ∀ i, tail ≤ i → i < cap → mark (cells i) = phase ^^^ 1

variable {cap tail phase : Nat} {mark : α → Nat} {cells : Nat → α}

theorem invert_invert (phase : Nat) : phase ^^^ 1 ^^^ 1 = phase := by
  rw [Nat.xor_assoc, Nat.xor_self, Nat.xor_zero]

theorem invert_ne {phase : Nat} (h : phase < 2) : phase ^^^ 1 ≠ phase := by
  interval_cases phase <;> decide

theorem invert_lt {phase : Nat} (h : phase < 2) : phase ^^^ 1 < 2 := by
  interval_cases phase <;> decide

/-- Before the producer has been at a cell, the cell bears the other mark. -/
theorem Written.unmarked (h : Written cap mark cells tail phase) : mark (cells tail) ≠ phase := by
  rw [h.after tail (le_refl _) h.tail_lt]
  exact invert_ne h.phase_lt

/-- The producer writes its cell and moves on. -/
theorem Written.write (h : Written cap mark cells tail phase) {x : α} (hx : mark x = phase) :
    Written cap mark (Function.update cells tail x) (nextPos cap tail)
      (nextPhase cap tail phase) := by
  have hlt := h.tail_lt
  have hmarks : ∀ i, i ≤ tail → mark (Function.update cells tail x i) = phase := by
    intro i hi
    by_cases heq : i = tail
    · rw [heq, Function.update_self, hx]
    · rw [Function.update_of_ne heq]
      exact h.before i (lt_of_le_of_ne hi heq)
  unfold nextPhase nextPos
  by_cases hend : tail + 1 = cap
  · rw [hend, Nat.mod_self, if_pos rfl]
    refine ⟨by omega, invert_lt h.phase_lt, fun i hi => absurd hi (Nat.not_lt_zero i), ?_⟩
    intro i _ hi
    rw [invert_invert]
    exact hmarks i (by omega)
  · rw [Nat.mod_eq_of_lt (show tail + 1 < cap by omega), if_neg (Nat.succ_ne_zero tail)]
    refine ⟨by omega, h.phase_lt, fun i hi => hmarks i (by omega), ?_⟩
    intro i hle hi
    rw [Function.update_of_ne (by omega)]
    exact h.after i (by omega) hi

/-- A ring that has not been written yet: its cells are marked 0, and the first pass marks 1. -/
theorem written_init (hcap : 0 < cap) (hzero : ∀ i, i < cap → mark (cells i) = 0) :
    Written cap mark cells 0 1 :=
  ⟨hcap, by decide, fun i hi => absurd hi (Nat.not_lt_zero i), fun i _ hi => hzero i hi⟩

end PhaseRing
