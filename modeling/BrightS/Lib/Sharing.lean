/-
Memory shared between address spaces.

A space is what it maps: for each address a frame and whether it may be written.  A set
of spaces is isolated when no frame that one of them may write is mapped in another.
The two ways to keep it so are a change to one space that respects what the others map,
and a copy that takes write permission from both sides.
-/
import Mathlib

namespace Sharing

variable {R A F : Type}

/-- What the spaces map. -/
abbrev View (R A F : Type) := R → A → Option (F × Bool)

def Maps (V : View R A F) (r : R) (f : F) : Prop := ∃ a w, V r a = some (f, w)

def Writes (V : View R A F) (r : R) (f : F) : Prop := ∃ a, V r a = some (f, true)

def Isolated (V : View R A F) (live : List R) : Prop :=
  ∀ r ∈ live, ∀ r' ∈ live, r ≠ r' → ∀ f, Writes V r f → ¬ Maps V r' f

/-- The space `root` may map `f`, and may do so with write permission. -/
def MayMap (V : View R A F) (live : List R) (root : R) (f : F) (writable : Bool) : Prop :=
  ∀ r ∈ live, r ≠ root → ¬ Writes V r f ∧ (writable = true → ¬ Maps V r f)

/-- The same page without write permission. -/
def readOnly : Option (F × Bool) → Option (F × Bool)
  | some (f, _) => some (f, false)
  | none => none

theorem MayMap.weaken {V : View R A F} {live : List R} {root : R} {f : F}
    (h : MayMap V live root f true) (w : Bool) : MayMap V live root f w :=
  fun r hr hne => ⟨(h r hr hne).1, fun _ => (h r hr hne).2 rfl⟩

theorem readOnly_eq_some {p : Option (F × Bool)} {f : F} {w : Bool}
    (h : readOnly p = some (f, w)) : w = false ∧ ∃ w', p = some (f, w') := by
  cases p with
  | none => simp [readOnly] at h
  | some p =>
      simp only [readOnly, Option.some.injEq, Prod.mk.injEq] at h
      exact ⟨h.2.symm, p.2, by rw [← h.1]⟩

section Keep

variable {V V' : View R A F} {live live' : List R}

theorem Maps.congr {r : R} (h : ∀ a, V' r a = V r a) {f : F} (hm : Maps V' r f) : Maps V r f := by
  obtain ⟨a, w, ha⟩ := hm
  exact ⟨a, w, by rw [← h, ha]⟩

theorem Writes.congr {r : R} (h : ∀ a, V' r a = V r a) {f : F} (hw : Writes V' r f) :
    Writes V r f := by
  obtain ⟨a, ha⟩ := hw
  exact ⟨a, by rw [← h, ha]⟩

/-- Fewer spaces, with what they mapped before, or new ones that map nothing. -/
theorem Isolated.subset (h : Isolated V live)
    (hsub : ∀ r ∈ live', (r ∈ live ∧ ∀ a, V' r a = V r a) ∨ ∀ a, V' r a = none) :
    Isolated V' live' := by
  intro r hr r' hr' hne f hw hm
  rcases hsub r hr with ⟨hin, heq⟩ | hnone
  · rcases hsub r' hr' with ⟨hin', heq'⟩ | hnone
    · exact h r hin r' hin' hne f (hw.congr heq) (hm.congr heq')
    · obtain ⟨a, w, ha⟩ := hm
      rw [hnone] at ha
      simp at ha
  · obtain ⟨a, ha⟩ := hw
    rw [hnone] at ha
    simp at ha

/-- One space changes, and what is new in it may be mapped there. -/
theorem Isolated.change (h : Isolated V live) (root : R)
    (hothers : ∀ r ∈ live, r ≠ root → ∀ a, V' r a = V r a)
    (hroot : ∀ a f w, V' root a = some (f, w) →
      V root a = some (f, w) ∨ MayMap V live root f w) : Isolated V' live := by
  intro r hr r' hr' hne f hw hm
  by_cases hrr : r = root
  · subst hrr
    have hm' := hm.congr (hothers r' hr' hne.symm)
    obtain ⟨a, ha⟩ := hw
    rcases hroot a f true ha with hold | hmay
    · exact h r hr r' hr' hne f ⟨a, hold⟩ hm'
    · exact (hmay r' hr' hne.symm).2 rfl hm'
  · have hw' := hw.congr (hothers r hr hrr)
    by_cases hrr' : r' = root
    · subst hrr'
      obtain ⟨a, w, ha⟩ := hm
      rcases hroot a f w ha with hold | hmay
      · exact h r hr r' hr' hne f hw' ⟨a, w, hold⟩
      · exact (hmay r hr hrr).1 hw'
    · exact h r hr r' hr' hne f hw' (hm.congr (hothers r' hr' hrr'))

/-- A space is copied, at the addresses where the copy succeeds, and both sides lose write
permission there.  A frame that the source maps twice must be copied at its writable address if
it is copied at all. -/
theorem Isolated.share {src dst : R} (h : Isolated V live) (hsrc : src ∈ live)
    (hothers : ∀ r ∈ live, r ≠ src → ∀ a, V' r a = V r a)
    (hcopy : ∀ a, (V' dst a = readOnly (V src a) ∧ V' src a = readOnly (V src a)) ∨
      (V' dst a = none ∧ V' src a = V src a))
    (halias : ∀ a b f w, V src a = some (f, true) → V src b = some (f, w) → V' dst b ≠ none →
      V' dst a ≠ none) : Isolated V' (dst :: live) := by
  have hdstMaps : ∀ {b f w}, V' dst b = some (f, w) → w = false ∧ ∃ w', V src b = some (f, w') := by
    intro b f w hb
    rcases hcopy b with ⟨hd, -⟩ | ⟨hd, -⟩
    · exact readOnly_eq_some (hd.symm.trans hb)
    · rw [hd] at hb
      simp at hb
  have hsrcMaps : ∀ {b f w}, V' src b = some (f, w) →
      (w = false ∨ V' dst b = none) ∧ ∃ w', V src b = some (f, w') ∧ (w = true → w' = true) := by
    intro b f w hb
    rcases hcopy b with ⟨-, hs⟩ | ⟨hd, hs⟩
    · obtain ⟨rfl, w', hw'⟩ := readOnly_eq_some (hs.symm.trans hb)
      exact ⟨Or.inl rfl, w', hw', fun ht => absurd ht (by simp)⟩
    · exact ⟨Or.inr hd, w, by rw [← hs, hb], id⟩
  -- What an old space maps or may write, it did before.
  have hold : ∀ r ∈ live, ∀ f, (Maps V' r f → Maps V r f) ∧ (Writes V' r f → Writes V r f) := by
    intro r hr f
    by_cases hrs : r = src
    · subst hrs
      constructor
      · rintro ⟨b, w, hb⟩
        obtain ⟨-, w', hw', -⟩ := hsrcMaps hb
        exact ⟨b, w', hw'⟩
      · rintro ⟨b, hb⟩
        obtain ⟨-, w', hw', ht⟩ := hsrcMaps hb
        exact ⟨b, by rw [hw', ht rfl]⟩
    · exact ⟨fun hm => hm.congr (hothers r hr hrs), fun hw => hw.congr (hothers r hr hrs)⟩
  intro r hr r' hr' hne f hw hm
  rcases List.mem_cons.mp hr with rfl | hin
  · obtain ⟨a, ha⟩ := hw
    exact absurd (hdstMaps ha).1 (by simp)
  · rcases List.mem_cons.mp hr' with rfl | hin'
    · obtain ⟨b, w, hb⟩ := hm
      obtain ⟨-, w', hw'⟩ := hdstMaps hb
      by_cases hrs : r = src
      · subst hrs
        obtain ⟨a, ha⟩ := hw
        obtain ⟨hgap, wa, hwa, ht⟩ := hsrcMaps ha
        have hnone := hgap.resolve_left (by simp)
        rw [ht rfl] at hwa
        exact halias a b f w' hwa hw' (by rw [hb]; simp) hnone
      · exact h r hin src hsrc hrs f ((hold r hin f).2 hw) ⟨b, w', hw'⟩
    · exact h r hin r' hin' hne f ((hold r hin f).2 hw) ((hold r' hin' f).1 hm)

end Keep

end Sharing
