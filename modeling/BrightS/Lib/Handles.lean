/-
Handles on shared objects.

A table of handles leads to objects, several handles possibly to the same one, and a
set holds the objects that are in use.  `Exact` says that the objects in use are those
with a handle: none is released early and none is kept without a handle.  The rules
below say what opening, sharing and dropping handles do to it.  `Sound` is the half of it
that keeps a handle from leading nowhere.

Dropping handles together with the objects behind them is the delicate one:
`Exact.drop_iff` says that it keeps the correspondence exactly when no other handle
leads to one of those objects.
-/
import Mathlib

namespace Handles

variable {H O : Type}

/-- The objects in use are those some handle leads to. -/
def Exact (refs : H → Option O) (live : Set O) : Prop :=
  ∀ o, o ∈ live ↔ ∃ h, refs h = some o

/-- Every handle leads to an object that is in use. -/
def Sound (refs : H → Option O) (live : Set O) : Prop := ∀ h o, refs h = some o → o ∈ live

/-- The objects the handles in `D` lead to. -/
def objects (refs : H → Option O) (D : Set H) : Set O := {o | ∃ h ∈ D, refs h = some o}

/-- No handle outside `D` leads to an object of a handle in `D`. -/
def Private (refs : H → Option O) (D : Set H) : Prop :=
  ∀ h o, refs h = some o → o ∈ objects refs D → h ∈ D

/-- The handles outside `D` are the same, those in `D` are gone. -/
def Drops (refs : H → Option O) (D : Set H) (refs' : H → Option O) : Prop :=
  (∀ h ∉ D, refs' h = refs h) ∧ ∀ h ∈ D, refs' h = none

namespace Exact

variable {refs refs' : H → Option O} {live : Set O}

theorem mem (hexact : Exact refs live) {h : H} {o : O} (hh : refs h = some o) : o ∈ live :=
  (hexact o).mpr ⟨h, hh⟩

/-- A new object with its first handle. -/
theorem acquire (hexact : Exact refs live) {h : H} {o : O} (hfree : refs h = none)
    (hself : refs' h = some o) (hother : ∀ h', h' ≠ h → refs' h' = refs h') :
    Exact refs' (insert o live) := by
  intro x
  constructor
  · intro hx
    rcases hx with rfl | hx
    · exact ⟨h, hself⟩
    · obtain ⟨h', hh'⟩ := (hexact x).mp hx
      have hne : h' ≠ h := by
        intro heq
        rw [heq, hfree] at hh'
        exact absurd hh' (by simp)
      exact ⟨h', (hother h' hne).trans hh'⟩
  · rintro ⟨h', hh'⟩
    by_cases heq : h' = h
    · rw [heq, hself] at hh'
      exact .inl (Option.some.inj hh').symm
    · exact .inr (hexact.mem ((hother h' heq).symm.trans hh'))

/-- New handles on objects that have one. -/
theorem share (hexact : Exact refs live) (hkeep : ∀ h o, refs h = some o → refs' h = some o)
    (hnew : ∀ h o, refs' h = some o → ∃ h', refs h' = some o) : Exact refs' live := by
  intro x
  constructor
  · intro hx
    obtain ⟨h, hh⟩ := (hexact x).mp hx
    exact ⟨h, hkeep h x hh⟩
  · rintro ⟨h, hh⟩
    obtain ⟨h', hh'⟩ := hnew h x hh
    exact hexact.mem hh'

/-- Dropped handles take their objects with them when nobody else uses these. -/
theorem drop (hexact : Exact refs live) {D : Set H} (hdrop : Drops refs D refs')
    (hprivate : Private refs D) : Exact refs' (live \ objects refs D) := by
  intro x
  constructor
  · rintro ⟨hx, hnot⟩
    obtain ⟨h, hh⟩ := (hexact x).mp hx
    have hout : h ∉ D := fun hD => hnot ⟨h, hD, hh⟩
    exact ⟨h, (hdrop.1 h hout).trans hh⟩
  · rintro ⟨h, hh⟩
    have hout : h ∉ D := by
      intro hD
      rw [hdrop.2 h hD] at hh
      exact absurd hh (by simp)
    have hold : refs h = some x := (hdrop.1 h hout).symm.trans hh
    exact ⟨hexact.mem hold, fun hobj => hout (hprivate h x hold hobj)⟩

/-- Dropping handles with their objects is right exactly when the objects are theirs alone. -/
theorem drop_iff (hexact : Exact refs live) {D : Set H} (hdrop : Drops refs D refs') :
    Exact refs' (live \ objects refs D) ↔ Private refs D := by
  constructor
  · intro hafter h o hh hobj
    by_contra hout
    exact (hafter.mem ((hdrop.1 h hout).trans hh)).2 hobj
  · exact hexact.drop hdrop

theorem sound (hexact : Exact refs live) : Sound refs live := fun _ _ hh => hexact.mem hh

end Exact

namespace Sound

variable {refs refs' : H → Option O} {live live' : Set O}

/-- Handles on objects that had one stay sound, whatever else comes into use. -/
theorem share (hsound : Sound refs live) (hnew : ∀ h o, refs' h = some o → ∃ h', refs h' = some o)
    (hlive : live ⊆ live') : Sound refs' live' := by
  intro h o hh
  obtain ⟨h', hh'⟩ := hnew h o hh
  exact hlive (hsound h' o hh')

/-- A new object with its first handle. -/
theorem acquire (hsound : Sound refs live) {h : H} {o : O} (hself : refs' h = some o)
    (hother : ∀ h', h' ≠ h → refs' h' = refs h') : Sound refs' (insert o live) := by
  intro h' x hh'
  by_cases heq : h' = h
  · rw [heq, hself] at hh'
    exact .inl (Option.some.inj hh').symm
  · rw [hother h' heq] at hh'
    exact .inr (hsound h' x hh')

/-- Dropping handles with their objects is safe exactly when the objects are theirs alone. -/
theorem drop_iff (hsound : Sound refs live) {D : Set H} (hdrop : Drops refs D refs') :
    Sound refs' (live \ objects refs D) ↔ Private refs D := by
  constructor
  · intro hafter h o hh hobj
    by_contra hout
    exact (hafter h o ((hdrop.1 h hout).trans hh)).2 hobj
  · intro hprivate h o hh
    have hout : h ∉ D := by
      intro hD
      rw [hdrop.2 h hD] at hh
      exact absurd hh (by simp)
    have hold : refs h = some o := (hdrop.1 h hout).symm.trans hh
    exact ⟨hsound h o hold, fun hobj => hout (hprivate h o hold hobj)⟩

/-- Turning the handle `h₂` to the object of `h₁`, with the object it led to before. -/
theorem move_iff (hsound : Sound refs live) {h₁ h₂ : H} {o : O} (hfrom : refs h₁ = some o)
    (hself : refs' h₂ = some o) (hother : ∀ h, h ≠ h₂ → refs' h = refs h) :
    Sound refs' (live \ objects refs {h₂}) ↔ Private refs {h₂} ∧ h₁ ≠ h₂ := by
  constructor
  · intro hafter
    refine ⟨fun h x hh hobj => ?_, ?_⟩
    · by_contra hout
      exact (hafter h x ((hother h hout).trans hh)).2 hobj
    · rintro rfl
      exact (hafter h₁ o hself).2 ⟨h₁, rfl, hfrom⟩
  · rintro ⟨hprivate, hne⟩ h x hh
    by_cases heq : h = h₂
    · rw [heq, hself] at hh
      obtain rfl := Option.some.inj hh
      exact ⟨hsound h₁ o hfrom, fun hobj => hne (hprivate h₁ o hfrom hobj)⟩
    · rw [hother h heq] at hh
      exact ⟨hsound h x hh, fun hobj => heq (hprivate h x hh hobj)⟩

end Sound

namespace Exact

variable {refs refs' : H → Option O} {live : Set O}

/-- The same for the exact correspondence. -/
theorem move_iff (hexact : Exact refs live) {h₁ h₂ : H} {o : O} (hfrom : refs h₁ = some o)
    (hself : refs' h₂ = some o) (hother : ∀ h, h ≠ h₂ → refs' h = refs h) :
    Exact refs' (live \ objects refs {h₂}) ↔ Private refs {h₂} ∧ h₁ ≠ h₂ := by
  have hmove := hexact.sound.move_iff hfrom hself hother
  refine ⟨fun hafter => hmove.mp hafter.sound, fun hright x => ⟨fun hx => ?_, fun hx => ?_⟩⟩
  · obtain ⟨h, hh⟩ := (hexact x).mp hx.1
    have hne : h ≠ h₂ := fun heq => hx.2 ⟨h, heq, hh⟩
    exact ⟨h, (hother h hne).trans hh⟩
  · obtain ⟨h, hh⟩ := hx
    exact hmove.mpr hright h x hh

end Exact

end Handles
