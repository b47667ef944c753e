/-
Computations that have no result on some inputs.

`DefinedIff o v P` says of a computation `o` that it has the result `v` exactly if `P` holds.  It
is proved along the computation: a value is always there, one step after the other needs the
conditions of both (`DefinedIff.bind`), and a branch needs that of its case (`DefinedIff.ite`).
So a function on numbers of a limited range is compared with the same function on all numbers,
and the condition that comes out is where the two agree.
-/
import Mathlib.Data.Option.Basic

namespace Defined

variable {α β : Type} {o o' : Option α} {v v' w : α} {P P' Q : Prop}

/-- The computation has the result `v` if `P` holds, and otherwise none. -/
def DefinedIff (o : Option α) (v : α) (P : Prop) : Prop := (P → o = some v) ∧ (¬ P → o = none)

theorem DefinedIff.value (v : α) : DefinedIff (some v) v True :=
  ⟨fun _ => rfl, fun hno => absurd trivial hno⟩

theorem DefinedIff.congr (h : DefinedIff o v P) (hiff : P ↔ P') : DefinedIff o v P' :=
  ⟨fun hp => h.1 (hiff.mpr hp), fun hno => h.2 fun hp => hno (hiff.mp hp)⟩

/-- A computation that is known to have a result. -/
theorem DefinedIff.of_holds (h : DefinedIff o v P) (hp : P) : DefinedIff o v True :=
  h.congr (iff_true_intro hp)

/-- The second step is looked at only where the first one has its result. -/
theorem DefinedIff.bind {f : α → Option β} {w : β} (h : DefinedIff o v P)
    (hf : P → DefinedIff (f v) w Q) : DefinedIff (o >>= f) w (P ∧ Q) := by
  by_cases hp : P
  · rw [h.1 hp]
    exact (hf hp).congr (iff_and_self.mpr fun _ => hp)
  · rw [h.2 hp]
    exact ⟨fun hpq => absurd hpq.1 hp, fun _ => rfl⟩

/-- A first step that always has its result. -/
theorem DefinedIff.after {f : α → Option β} {w : β} (h : DefinedIff o v True)
    (hf : DefinedIff (f v) w Q) : DefinedIff (o >>= f) w Q :=
  (h.bind fun _ => hf).congr (iff_of_eq (true_and Q))

theorem DefinedIff.ite {c : Prop} [Decidable c] (hyes : c → DefinedIff o v P)
    (hno : ¬ c → DefinedIff o' v' P') :
    DefinedIff (if c then o else o') (if c then v else v') ((c → P) ∧ (¬ c → P')) := by
  by_cases hc : c
  · rw [if_pos hc, if_pos hc]
    exact (hyes hc).congr ⟨fun hp => ⟨fun _ => hp, fun hnot => absurd hc hnot⟩, fun h => h.1 hc⟩
  · rw [if_neg hc, if_neg hc]
    exact (hno hc).congr ⟨fun hp => ⟨fun hcase => absurd hcase hc, fun _ => hp⟩, fun h => h.2 hc⟩

/-- A result there is can only be that one. -/
theorem DefinedIff.eq_some (h : DefinedIff o v P) (hsome : o = some w) : P ∧ w = v := by
  by_cases hp : P
  · exact ⟨hp, Option.some.inj (hsome.symm.trans (h.1 hp))⟩
  · exact absurd (hsome.symm.trans (h.2 hp)) (Option.some_ne_none w)

end Defined
