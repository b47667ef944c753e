/-
One system as another sees it.

A run of a system is explained by a simpler one when every step of the first is a step of the
second, between the states that the second sees.  `Executes.refine` is for an abstraction that is
a function, together with an invariant of the first system; `Executes.simulate` for a relation.
-/
import BrightS.Lib.Runs

namespace Runs

variable {σ τ ι : Type}

/-- A relation that every step keeps explains every run. -/
theorem Executes.simulate {step : σ → ι → σ → Prop} {spec : τ → ι → τ → Prop} {R : σ → τ → Prop}
    (hstep : ∀ s t a s', R s t → step s a s' → ∃ t', spec t a t' ∧ R s' t') {s s' : σ}
    {as : List ι} (h : Executes step s as s') {t : τ} (hR : R s t) :
    ∃ t', Executes spec t as t' ∧ R s' t' := by
  induction h generalizing t with
  | nil => exact ⟨t, .nil t, hR⟩
  | cons ha _ ih =>
      obtain ⟨mid, hspec, hmid⟩ := hstep _ _ _ _ hR ha
      obtain ⟨t', hrest, hlast⟩ := ih hmid
      exact ⟨t', .cons hspec hrest, hlast⟩

/-- The case of an abstraction function and an invariant. -/
theorem Executes.refine {step : σ → ι → σ → Prop} {spec : τ → ι → τ → Prop} {inv : σ → Prop}
    (abs : σ → τ) (hstep : ∀ s a s', inv s → step s a s' → inv s' ∧ spec (abs s) a (abs s'))
    {s s' : σ} {as : List ι} (h : Executes step s as s') (hs : inv s) :
    inv s' ∧ Executes spec (abs s) as (abs s') := by
  obtain ⟨t', hrun, hinv, rfl⟩ := h.simulate (R := fun s t => inv s ∧ t = abs s)
    (fun s t a s' hR ha => by
      obtain ⟨hinv, rfl⟩ := hR
      obtain ⟨hinv', hspec⟩ := hstep s a s' hinv ha
      exact ⟨abs s', hspec, hinv', rfl⟩) ⟨hs, rfl⟩
  exact ⟨hinv, hrun⟩

/-- A run with a call in it has a state before the call and one behind it. -/
theorem Executes.split {step : σ → ι → σ → Prop} {s s' : σ} {before later : List ι} {a : ι}
    (h : Executes step s (before ++ a :: later) s') :
    ∃ s₁ s₂, Executes step s before s₁ ∧ step s₁ a s₂ ∧ Executes step s₂ later s' := by
  induction before generalizing s with
  | nil =>
      cases h with
      | cons hstep hrest => exact ⟨s, _, .nil s, hstep, hrest⟩
  | cons b before ih =>
      cases h with
      | cons hstep hrest =>
          obtain ⟨s₁, s₂, hbefore, ha, hlater⟩ := ih hrest
          exact ⟨s₁, s₂, .cons hstep hbefore, ha, hlater⟩

end Runs
