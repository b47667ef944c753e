/-
What a normalised path looks like.

`CanonicalName` says it of the string alone, by splitting it at its slashes.  The
scanning loop keeps a stack of segments that are neither empty nor dots and contain
no slash, so splitting what it joins gives the stack back.
-/
import BrightS.Kernel.Path

namespace BrightS

/-- A leading slash, and behind it segments that are not empty and not dots.  The root and a
path with a trailing slash have an empty segment. -/
def CanonicalName (path : CStr) : Prop :=
  ∃ rest, path = '/' :: rest ∧
    ∀ seg ∈ rest.splitOn '/', seg ≠ [] ∧ seg ≠ ['.'] ∧ seg ≠ ['.', '.']

/-- A segment the scan may keep. -/
structure GoodSegment (seg : CStr) : Prop where
  nonempty : seg ≠ []
  noSlash : '/' ∉ seg
  notDot : seg ≠ ['.']
  notDotDot : seg ≠ ['.', '.']

theorem endSegment_good {segs out : List CStr} {seg : CStr} (hsegs : ∀ s ∈ segs, GoodSegment s)
    (hne : seg ≠ []) (hslash : '/' ∉ seg) (h : endSegment segs seg = some out) :
    ∀ s ∈ out, GoodSegment s := by
  unfold endSegment at h
  by_cases hdot : seg = ['.']
  · rw [if_pos hdot, Option.some.injEq] at h
    exact h ▸ hsegs
  · rw [if_neg hdot] at h
    by_cases hdots : seg = ['.', '.']
    · rw [if_pos hdots, Option.some.injEq] at h
      subst h
      exact fun s hs => hsegs s (List.mem_of_mem_dropLast hs)
    · rw [if_neg hdots] at h
      by_cases hfull : pathMaxSegs ≤ segs.length
      · rw [if_pos hfull] at h
        simp at h
      · rw [if_neg hfull, Option.some.injEq] at h
        subst h
        intro s hs
        rcases List.mem_append.mp hs with hs | hs
        · exact hsegs s hs
        · rw [List.mem_singleton.mp hs]
          exact ⟨hne, hslash, hdot, hdots⟩

/-- The invariant of the scan: the stack is good and the open segment has no slash. -/
theorem pathSegments_good (segMax : Nat) (path : CStr) :
    ∀ {seg : CStr} {segs out : List CStr}, (∀ s ∈ segs, GoodSegment s) → '/' ∉ seg →
      pathSegments segMax path seg segs = some out → ∀ s ∈ out, GoodSegment s := by
  induction path with
  | nil =>
      intro seg segs out hsegs hslash h
      rw [pathSegments] at h
      by_cases hne : seg = []
      · rw [if_pos hne, Option.some.injEq] at h
        exact h ▸ hsegs
      · rw [if_neg hne] at h
        exact endSegment_good hsegs hne hslash h
  | cons c rest ih =>
      intro seg segs out hsegs hslash h
      rw [pathSegments] at h
      by_cases hc : c = '/'
      · rw [if_pos hc] at h
        by_cases hne : seg = []
        · rw [if_pos hne] at h
          exact ih hsegs (by simp) h
        · rw [if_neg hne, Option.bind_eq_some_iff] at h
          obtain ⟨segs', hend, hrest⟩ := h
          exact ih (endSegment_good hsegs hne hslash hend) (by simp) hrest
      · rw [if_neg hc] at h
        by_cases hlong : segMax ≤ seg.length
        · rw [if_pos hlong] at h
          simp at h
        · rw [if_neg hlong] at h
          refine ih hsegs ?_ h
          rw [List.mem_append, not_or, List.mem_singleton]
          exact ⟨hslash, fun h => hc h.symm⟩

theorem joinSegments_canonical {segs : List CStr} (hne : segs ≠ [])
    (hgood : ∀ s ∈ segs, GoodSegment s) : CanonicalName (joinSegments segs) := by
  refine ⟨_, rfl, ?_⟩
  rw [List.splitOn_intercalate '/' (fun s hs => (hgood s hs).noSlash) hne]
  exact fun s hs => ⟨(hgood s hs).nonempty, (hgood s hs).notDot, (hgood s hs).notDotDot⟩

/-- A normalised path is the root or canonical, and fits its buffer. -/
theorem normalizePath_canonical {segMax cap : Nat} {path out : CStr}
    (h : normalizePath segMax cap path = some out) :
    (out = ['/'] ∨ CanonicalName out) ∧ out.length < cap := by
  obtain ⟨segs, hsegs, hjoin⟩ := Option.bind_eq_some_iff.mp h
  have hgood := pathSegments_good segMax path (by simp) (by simp) hsegs
  by_cases hfit : (joinSegments segs).length < cap
  · rw [if_pos hfit, Option.some.injEq] at hjoin
    subst hjoin
    refine ⟨?_, hfit⟩
    by_cases hne : segs = []
    · left
      rw [hne]
      rfl
    · exact Or.inr (joinSegments_canonical hne hgood)
  · rw [if_neg hfit] at hjoin
    simp at hjoin

end BrightS
