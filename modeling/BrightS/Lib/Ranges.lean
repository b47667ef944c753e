/-
Handing out ranges of numbered units.

An allocator owns units numbered from zero.  Some of them are usable, some of the
usable ones are free, and each live allocation is a range of consecutive units.
`Sound` says that nothing is promised twice: a unit is free or in at most one live
range, and only usable units are either.  Taking a range of free units and giving
a live range back both keep it, whatever the allocator's search or its bookkeeping
looks like.
-/
import Mathlib

namespace Ranges

structure Range where
  start : Nat
  len : Nat
  deriving DecidableEq, Repr

/-- The unit lies in the range. -/
def Range.Has (r : Range) (i : Nat) : Prop := r.start ≤ i ∧ i < r.start + r.len

/-- The ranges share no unit. -/
def Range.Apart (r s : Range) : Prop := ∀ i, ¬ (r.Has i ∧ s.Has i)

theorem Range.Apart.symm {r s : Range} (h : r.Apart s) : s.Apart r :=
  fun i hi => h i ⟨hi.2, hi.1⟩

/-- Ranges that share no unit are no longer, taken together, than what they lie in. -/
theorem sum_len_le {lo hi : Nat} {rs : List Range} (hapart : rs.Pairwise Range.Apart)
    (hin : ∀ r ∈ rs, ∀ i, r.Has i → lo ≤ i ∧ i < hi) : (rs.map (·.len)).sum ≤ hi - lo := by
  have hunits : ∃ units : Finset Nat, units.card = (rs.map (·.len)).sum ∧
      ∀ i, i ∈ units ↔ ∃ r ∈ rs, r.Has i := by
    clear hin
    induction rs with
    | nil => exact ⟨∅, rfl, by simp⟩
    | cons r rest ih =>
        obtain ⟨hr, hrest⟩ := List.pairwise_cons.mp hapart
        obtain ⟨units, hcard, hmem⟩ := ih hrest
        have hdisjoint : Disjoint (Finset.Ico r.start (r.start + r.len)) units := by
          rw [Finset.disjoint_left]
          intro i hi hi'
          obtain ⟨s, hs, hsi⟩ := (hmem i).mp hi'
          exact hr s hs i ⟨Finset.mem_Ico.mp hi, hsi⟩
        refine ⟨Finset.Ico r.start (r.start + r.len) ∪ units, ?_, fun i => ?_⟩
        · rw [Finset.card_union_of_disjoint hdisjoint, Nat.card_Ico, hcard, List.map_cons,
            List.sum_cons]
          omega
        · rw [Finset.mem_union, Finset.mem_Ico, hmem]
          simp [Range.Has]
  obtain ⟨units, hcard, hmem⟩ := hunits
  have hsub : units ⊆ Finset.Ico lo hi := by
    intro i hi
    obtain ⟨r, hr, hri⟩ := (hmem i).mp hi
    exact Finset.mem_Ico.mpr (hin r hr i hri)
  have hle := Finset.card_le_card hsub
  rwa [hcard, Nat.card_Ico] at hle

/-- Free and live units are usable, and none is promised twice. -/
structure Sound (usable free : Nat → Prop) (live : List Range) : Prop where
  freeUsable : ∀ i, free i → usable i
  liveUsable : ∀ r ∈ live, ∀ i, r.Has i → usable i
  liveUsed : ∀ r ∈ live, ∀ i, r.Has i → ¬ free i
  apart : live.Pairwise Range.Apart

namespace Sound

variable {usable free free' : Nat → Prop} {live : List Range} {r : Range}

/-- Nothing is live at first. -/
theorem empty (h : ∀ i, free i → usable i) : Sound usable free [] :=
  ⟨h, by simp, by simp, List.Pairwise.nil⟩

theorem take (h : Sound usable free live) (hr : ∀ i, r.Has i → free i)
    (hfree : ∀ i, free' i ↔ free i ∧ ¬ r.Has i) : Sound usable free' (r :: live) := by
  refine ⟨fun i hi => h.freeUsable i ((hfree i).mp hi).1, ?_, ?_, ?_⟩
  · intro s hs i hi
    rcases List.mem_cons.mp hs with rfl | hs
    · exact h.freeUsable i (hr i hi)
    · exact h.liveUsable s hs i hi
  · intro s hs i hi hc
    rcases List.mem_cons.mp hs with rfl | hs
    · exact ((hfree i).mp hc).2 hi
    · exact h.liveUsed s hs i hi ((hfree i).mp hc).1
  · refine List.Pairwise.cons (fun s hs i hi => ?_) h.apart
    exact h.liveUsed s hs i hi.2 (hr i hi.1)

theorem give (h : Sound usable free live) (hr : r ∈ live)
    (hfree : ∀ i, free' i ↔ free i ∨ r.Has i) : Sound usable free' (live.erase r) := by
  have happart : (r :: live.erase r).Pairwise Range.Apart :=
    ((List.perm_cons_erase hr).pairwise_iff fun hrs => hrs.symm).mp h.apart
  obtain ⟨hothers, hrest⟩ := List.pairwise_cons.mp happart
  refine ⟨fun i hi => ?_, ?_, ?_, hrest⟩
  · rcases (hfree i).mp hi with hi | hi
    · exact h.freeUsable i hi
    · exact h.liveUsable r hr i hi
  · exact fun s hs => h.liveUsable s (List.mem_of_mem_erase hs)
  · intro s hs i hi hc
    rcases (hfree i).mp hc with hc | hc
    · exact h.liveUsed s (List.mem_of_mem_erase hs) i hi hc
    · exact hothers s hs i ⟨hc, hi⟩

end Sound

end Ranges
