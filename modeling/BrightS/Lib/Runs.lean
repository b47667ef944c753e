/-
Runs of a system that is driven by calls.

A subsystem of a kernel is a state and a set of calls; what is proved about it
is proved of every state some sequence of calls leads to.  `Executes` is that
sequence, with the calls kept, so that a run can be asked which calls it made.
`Guarded` restricts the calls to those a condition on the state allows, which is
how a property that only holds for well-behaved callers is stated.
-/
import Mathlib

namespace Runs

variable {σ ι : Type}

/-- The calls `as`, made in order, take the first state to the last. -/
inductive Executes (step : σ → ι → σ → Prop) : σ → List ι → σ → Prop where
  | nil (s : σ) : Executes step s [] s
  | cons {s mid final a rest} :
      step s a mid → Executes step mid rest final → Executes step s (a :: rest) final

/-- The steps whose call the condition `G` allows in the state before it. -/
def Guarded (G : σ → ι → Prop) (step : σ → ι → σ → Prop) : σ → ι → σ → Prop :=
  fun s a s' => G s a ∧ step s a s'

/-- What every step preserves, every run preserves. -/
theorem Executes.invariant {step : σ → ι → σ → Prop} {P : σ → Prop}
    (hstep : ∀ s a s', P s → step s a s' → P s') {s s' : σ} {as : List ι}
    (h : Executes step s as s') (hs : P s) : P s' := by
  induction h with
  | nil => exact hs
  | cons ha _ ih => exact ih (hstep _ _ _ hs ha)

/-- One run after another. -/
theorem Executes.append {step : σ → ι → σ → Prop} {s mid s' : σ} {as bs : List ι}
    (h : Executes step s as mid) (h' : Executes step mid bs s') : Executes step s (as ++ bs) s' := by
  induction h with
  | nil => exact h'
  | cons ha _ ih => exact .cons ha (ih h')

/-- What holds of the state and the calls made so far is kept by every step, so it holds after
every run. -/
theorem Executes.history {step : σ → ι → σ → Prop} {P : σ → List ι → Prop}
    (hstep : ∀ s as a s', P s as → step s a s' → P s' (as ++ [a])) {s s' : σ} {as : List ι}
    (h : Executes step s as s') (hs : P s []) : P s' as := by
  have hall : ∀ before, P s before → P s' (before ++ as) := by
    clear hs
    induction h with
    | nil =>
        intro before hs
        rwa [List.append_nil]
    | cons ha _ ih =>
        intro before hs
        have hnext := ih _ (hstep _ _ _ _ hs ha)
        rwa [List.append_assoc] at hnext
  exact hall [] hs

/-- The state a system is in after the calls, if all of them are defined. -/
def runAll (next : σ → ι → Option σ) : σ → List ι → Option σ
  | s, [] => some s
  | s, a :: rest => (next s a).bind fun s' => runAll next s' rest

theorem executes_runAll {step : σ → ι → σ → Prop} {next : σ → ι → Option σ}
    (hnext : ∀ s a s', next s a = some s' → step s a s') :
    ∀ {as : List ι} {s s' : σ}, runAll next s as = some s' → Executes step s as s' := by
  intro as
  induction as with
  | nil =>
      intro s s' hrun
      rw [← Option.some.inj hrun]
      exact .nil s
  | cons a rest ih =>
      intro s s' hrun
      obtain ⟨mid, hmid, hrest⟩ := Option.bind_eq_some_iff.mp hrun
      exact .cons (hnext s a mid hmid) (ih hrest)

/-- The next state, for a call that a test lets pass. -/
def testedNext (test : σ → ι → Bool) (next : σ → ι → Option σ) (s : σ) (a : ι) : Option σ :=
  if test s a then next s a else none

/-- A run whose calls all pass a test for the condition is a guarded one. -/
theorem executes_tested {step : σ → ι → σ → Prop} {G : σ → ι → Prop} {test : σ → ι → Bool}
    {next : σ → ι → Option σ} (htest : ∀ s a, test s a = true → G s a)
    (hnext : ∀ s a s', next s a = some s' → step s a s') {as : List ι} {s s' : σ}
    (hrun : runAll (testedNext test next) s as = some s') :
    Executes (Guarded G step) s as s' := by
  refine executes_runAll (fun s a s' hstep => ?_) hrun
  unfold testedNext at hstep
  split at hstep
  next hpass => exact ⟨htest s a hpass, hnext s a s' hstep⟩
  next => exact absurd hstep (by simp)

end Runs
