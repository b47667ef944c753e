/-
Parties that hand each other messages.

Every party has a state, and its state records what the party ever emitted.  A step is one
party's: it makes a call of its own, or it receives a message that some party emitted at any
time before.  So messages arrive in any order, as often as one likes, or never.

What is proved of all runs is proved of one party at a time.  `Machine.Sound` is what a party
keeps as long as it hears good messages and which makes it say good ones; a fact that no step of
its own party undoes is `Machine.Stable`, and holds from some event on if the event brings it
about (`Machine.After`).
-/
import BrightS.Lib.Refinements

namespace Parties

open Runs

variable {ι σ Msg Call : Type}

/-- What one party can do. -/
structure Machine (σ Msg Call : Type) where
  call : σ → Call → σ → Prop
  receive : σ → Msg → σ → Prop
  emitted : σ → List Msg

inductive Event (ι Msg Call : Type) where
  | call (p : ι) (c : Call)
  | deliver (src dst : ι) (msg : Msg)

variable [DecidableEq ι]

namespace Machine

variable (M : Machine σ Msg Call)

def Step (s : ι → σ) (e : Event ι Msg Call) (s' : ι → σ) : Prop :=
  match e with
  | .call p c => ∃ q, M.call (s p) c q ∧ s' = Function.update s p q
  | .deliver src dst msg =>
      msg ∈ M.emitted (s src) ∧ ∃ q, M.receive (s dst) msg q ∧ s' = Function.update s dst q

/-- `inv` is kept by a party that hears messages their senders may say, and says only such. -/
structure Sound (good : ι → Msg → Prop) (inv : ι → σ → Prop) : Prop where
  call : ∀ {p s c s'}, inv p s → M.call s c s' → inv p s'
  receive : ∀ {p src msg s s'}, inv p s → good src msg → M.receive s msg s' → inv p s'
  emits : ∀ {p s}, inv p s → ∀ msg ∈ M.emitted s, good p msg

/-- No step of a party that has `P` takes it away. -/
structure Stable (P : σ → Prop) : Prop where
  call : ∀ {s c s'}, P s → M.call s c s' → P s'
  receive : ∀ {msg s s'}, P s → M.receive s msg s' → P s'

/-- In every run, `P` holds from the event on. -/
def After (start : ι → σ) (e : Event ι Msg Call) (P : (ι → σ) → Prop) : Prop :=
  ∀ before later s, Executes M.Step start (before ++ e :: later) s → P s

variable {M} {s s' : ι → σ} {es : List (Event ι Msg Call)}

theorem update_all {inv : ι → σ → Prop} (hs : ∀ p, inv p (s p)) {p : ι} {q : σ} (hq : inv p q) :
    ∀ r, inv r (Function.update s p q r) := by
  intro r
  by_cases hr : r = p
  · rw [hr, Function.update_self]
    exact hq
  · rw [Function.update_of_ne hr]
    exact hs r

/-- **Good messages stay among the parties.** -/
theorem Sound.run {good : ι → Msg → Prop} {inv : ι → σ → Prop} (h : M.Sound good inv)
    (hrun : Executes M.Step s es s') (hs : ∀ p, inv p (s p)) : ∀ p, inv p (s' p) := by
  refine Executes.invariant (P := fun s => ∀ p, inv p (s p)) ?_ hrun hs
  intro s e s' hs hstep
  cases e with
  | call p c =>
      obtain ⟨q, hq, rfl⟩ := hstep
      exact update_all hs (h.call (hs p) hq)
  | deliver src dst msg =>
      obtain ⟨hin, q, hq, rfl⟩ := hstep
      exact update_all hs (h.receive (hs dst) (h.emits (hs src) msg hin) hq)

/-- What is stable for a party survives the steps of all others. -/
theorem Stable.run {P : σ → Prop} (h : M.Stable P) (hrun : Executes M.Step s es s') {p : ι}
    (hp : P (s p)) : P (s' p) := by
  refine Executes.invariant (P := fun s => P (s p)) ?_ hrun hp
  intro s e s' hs hstep
  have hkeep : ∀ {r q}, (r = p → P q) → P (Function.update s r q p) := by
    intro r q hq
    by_cases hr : p = r
    · rw [← hr, Function.update_self]
      exact hq hr.symm
    · rw [Function.update_of_ne hr]
      exact hs
  cases e with
  | call r c =>
      obtain ⟨q, hq, rfl⟩ := hstep
      exact hkeep fun hr => h.call (by rw [hr]; exact hs) hq
  | deliver src dst msg =>
      obtain ⟨-, q, hq, rfl⟩ := hstep
      exact hkeep fun hr => h.receive (by rw [hr]; exact hs) hq

/-- **From the event on**: what a call of a party brings about and its steps keep. -/
theorem after_call {start : ι → σ} {inv : ι → σ → Prop} {good : ι → Msg → Prop}
    (h : M.Sound good inv) (hstart : ∀ p, inv p (start p)) {P : σ → Prop} (hP : M.Stable P)
    {p : ι} {c : Call} (hcall : ∀ s s', inv p s → M.call s c s' → P s') :
    M.After start (.call p c) fun s => P (s p) := by
  intro before later s hrun
  obtain ⟨s₁, s₂, hbefore, hstep, hlater⟩ := hrun.split
  obtain ⟨q, hq, rfl⟩ := hstep
  refine hP.run hlater ?_
  rw [Function.update_self]
  exact hcall _ _ (h.run hbefore hstart p) hq

theorem after_deliver {start : ι → σ} {inv : ι → σ → Prop} {good : ι → Msg → Prop}
    (h : M.Sound good inv) (hstart : ∀ p, inv p (start p)) {P : σ → Prop} (hP : M.Stable P)
    {src dst : ι} {msg : Msg} (hreceive : ∀ s s', inv dst s → M.receive s msg s' → P s') :
    M.After start (.deliver src dst msg) fun s => P (s dst) := by
  intro before later s hrun
  obtain ⟨s₁, s₂, hbefore, hstep, hlater⟩ := hrun.split
  obtain ⟨-, q, hq, rfl⟩ := hstep
  refine hP.run hlater ?_
  rw [Function.update_self]
  exact hreceive _ _ (h.run hbefore hstart dst) hq

end Machine

end Parties
