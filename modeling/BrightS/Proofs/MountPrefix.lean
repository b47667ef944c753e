/-
The mount a path belongs to.

What the search loop counts (`coverLen`) is, for normalised prefixes, the length of a prefix that
is the path or is followed in it by a slash.  Two prefixes of one path that are equally long are
the same, so with distinct prefixes the longest mount does not depend on where it is in the table.

The search is right, but what it finds below the mount stays in an array that is gone when the
function returns: on a miss no caller may read the relative path.
-/
import BrightS.Proofs.PathStack
import BrightS.Proofs.Vfs2

namespace BrightS

/-- The path is the prefix, or goes on behind it with a slash; the root covers every path. -/
def MountCovers (mp norm : CStr) : Prop := mp = ['/'] ∨ mp = norm ∨ mp ++ ['/'] <+: norm

instance (mp norm : CStr) : Decidable (MountCovers mp norm) :=
  inferInstanceAs (Decidable (_ ∨ _ ∨ _))

/-- A prefix and what is below it; the root on either side adds nothing. -/
def joinBelow (mp rel : CStr) : CStr :=
  if rel = ['/'] then mp else if mp = ['/'] then rel else mp ++ rel

/-- The prefixes of the active mounts are normalised, and no two are the same. -/
structure MountsDistinct (s : Vfs2) : Prop where
  normalized : ∀ i, (s.mountTable i).active = true →
    vfsNormalize (s.mountTable i).mountPrefix = some (s.mountTable i).mountPrefix
  distinct : ∀ i j, (s.mountTable i).active = true → (s.mountTable j).active = true →
    (s.mountTable i).mountPrefix = (s.mountTable j).mountPrefix → i = j

instance (s : Vfs2) : Decidable (MountsDistinct s) :=
  decidable_of_iff (_ ∧ _) ⟨fun h => ⟨h.1, h.2⟩, fun h => ⟨h.normalized, h.distinct⟩⟩

section Prefixes

variable {mp norm : CStr}

theorem normalized_ne_nil {path : CStr} (h : vfsNormalize path = some norm) : norm ≠ [] := by
  obtain ⟨segs, rfl, -⟩ := normalizePath_segments h
  exact List.cons_ne_nil _ _

/-- A normalised path does not end behind a slash, but for the root. -/
theorem normalized_no_trailing {path front : CStr} (h : vfsNormalize path = some (front ++ ['/'])) :
    front = [] := by
  rcases (normalizePath_canonical h).1 with hroot | hcanon
  · have hlen := congrArg List.length hroot
    rw [List.length_append] at hlen
    exact List.eq_nil_of_length_eq_zero (by simpa using hlen)
  · exact absurd hcanon CanonicalName.no_trailing

theorem coverLen_eq : coverLen norm mp = if MountCovers mp norm then mp.length else 0 := by
  unfold coverLen
  by_cases hroot : mp = ['/']
  · rw [if_pos hroot, if_pos (show MountCovers mp norm from .inl hroot), hroot]
    rfl
  rw [if_neg hroot]
  refine if_congr ?_ rfl rfl
  rw [MountCovers, or_iff_right hroot, List.isPrefixOf_iff_prefix]
  constructor
  · rintro ⟨⟨rest, rfl⟩, hnext⟩
    rw [List.drop_left] at hnext
    rcases hnext with hend | hslash
    · rw [List.head?_eq_none_iff.mp hend, List.append_nil]
      exact .inl rfl
    · obtain ⟨below, rfl⟩ := List.head?_eq_some_iff.mp hslash
      exact .inr ⟨below, by rw [List.append_assoc]; rfl⟩
  · rintro (rfl | ⟨below, rfl⟩)
    · exact ⟨List.prefix_refl _, .inl (by rw [List.drop_length]; rfl)⟩
    · rw [List.append_assoc]
      exact ⟨List.prefix_append .., .inr (by rw [List.drop_left]; rfl)⟩

/-- What is below a prefix leads back to the path. -/
theorem joinBelow_pathBelow {path : CStr} (hnorm : vfsNormalize path = some norm) (hne : mp ≠ [])
    (hcovers : MountCovers mp norm) : joinBelow mp (pathBelow norm mp) = norm := by
  unfold pathBelow joinBelow
  by_cases hroot : mp = ['/']
  · rw [if_pos hroot, if_pos hroot, hroot]
    split
    · rename_i hsame
      exact hsame.symm
    · rfl
  rw [if_neg hroot, if_neg hroot]
  rcases hcovers.resolve_left hroot with rfl | ⟨below, rfl⟩
  · rw [List.drop_length]
    rfl
  · have hdrop : (mp ++ ['/'] ++ below).drop mp.length = '/' :: below := by
      rw [List.append_assoc, List.drop_left]
      rfl
    have hbelow : '/' :: below ≠ ['/'] := by
      intro hslash
      obtain rfl : below = [] := (List.cons.inj hslash).2
      rw [List.append_nil] at hnorm
      exact hne (normalized_no_trailing hnorm)
    rw [hdrop]
    show (if '/' :: below = ['/'] then mp else mp ++ '/' :: below) = _
    rw [if_neg hbelow, List.append_assoc]
    rfl

/-- Both are the beginning of the path. -/
theorem MountCovers.eq_of_length {mp' : CStr} (h : MountCovers mp norm) (h' : MountCovers mp' norm)
    (hnorm : ['/'] <+: norm) (hlen : mp.length = mp'.length) : mp = mp' := by
  have hbelow : ∀ {q : CStr}, MountCovers q norm → q <+: norm := by
    rintro q (rfl | rfl | hslash)
    · exact hnorm
    · exact List.prefix_refl _
    · exact (List.prefix_append q ['/']).trans hslash
  exact (List.prefix_of_prefix_length_le (hbelow h) (hbelow h') hlen.le).eq_of_length hlen

end Prefixes

/-- What the path is resolved to: no mount if none covers it, else the longest one that does, with
the path below it. -/
def ResolvesTo (s : Vfs2) (norm : CStr) : Option (MountId × CStr) → Prop
  | none => ∀ i, (s.mountTable i).active = true → ¬ MountCovers (s.mountTable i).mountPrefix norm
  | some (m, rel) =>
      (s.mountTable m).active = true ∧ MountCovers (s.mountTable m).mountPrefix norm ∧
        (∀ i, (s.mountTable i).active = true → MountCovers (s.mountTable i).mountPrefix norm →
          i ≠ m → (s.mountTable i).mountPrefix.length < (s.mountTable m).mountPrefix.length) ∧
        joinBelow (s.mountTable m).mountPrefix rel = norm

/-- **The search finds the longest prefix**, wherever the mounts are in the table. -/
theorem uncachedResolve_longest {s : Vfs2} (hmounts : MountsDistinct s) {path norm : CStr}
    (hnorm : vfsNormalize path = some norm) : ResolvesTo s norm (uncachedResolve s path) := by
  have hne : ∀ i, (s.mountTable i).active = true → (s.mountTable i).mountPrefix ≠ [] := fun i hi =>
    normalized_ne_nil (hmounts.normalized i hi)
  have hlen : ∀ i, (s.mountTable i).active = true → mountLen s norm i =
      if MountCovers (s.mountTable i).mountPrefix norm then (s.mountTable i).mountPrefix.length
      else 0 :=
    fun i hi => by rw [mountLen, if_pos hi, coverLen_eq]
  have hpos : ∀ i, 0 < mountLen s norm i ↔
      (s.mountTable i).active = true ∧ MountCovers (s.mountTable i).mountPrefix norm := by
    intro i
    by_cases hi : (s.mountTable i).active = true
    · rw [hlen i hi, and_iff_right hi]
      split
      · rename_i hcovers
        exact ⟨fun _ => hcovers, fun _ => List.length_pos_iff.mpr (hne i hi)⟩
      · rename_i hnot
        exact ⟨fun h => absurd h (by simp), fun h => absurd h hnot⟩
    · rw [mountLen, if_neg hi]
      exact ⟨fun h => absurd h (by simp), fun h => absurd h.1 hi⟩
  cases hres : uncachedResolve s path with
  | none =>
      intro i hi hcovers
      rw [uncachedResolve, hnorm, Option.bind_some, Option.map_eq_none_iff, longestMount,
        List.argmax_eq_none, List.filter_eq_nil_iff] at hres
      exact hres i (List.mem_finRange i) (decide_eq_true ((hpos i).mpr ⟨hi, hcovers⟩))
  | some res =>
      obtain ⟨m, rel⟩ := res
      obtain ⟨norm', hnorm', hlongest, hrel⟩ := uncachedResolve_eq_some_iff.mp hres
      rw [hnorm] at hnorm'
      obtain rfl := Option.some.inj hnorm'
      obtain ⟨hm, hall⟩ := longestMount_eq_some_iff.mp hlongest
      obtain ⟨hactive, hcovers⟩ := (hpos m).mp hm
      have hroot : ['/'] <+: norm := by
        obtain ⟨segs, rfl, -⟩ := normalizePath_segments hnorm
        exact ⟨_, rfl⟩
      refine ⟨hactive, hcovers, fun i hi hci him => ?_, ?_⟩
      · have hle := (hall i).1
        rw [hlen i hi, hlen m hactive, if_pos hci, if_pos hcovers] at hle
        refine lt_of_le_of_ne hle fun hsame => him ?_
        exact hmounts.distinct i m hi hactive (hci.eq_of_length hcovers hroot hsame)
      · rw [hrel]
        exact joinBelow_pathBelow hnorm (hne m hactive) hcovers

/-- What a caller gets of a path: the mount, and a relative path that it may read. -/
def vfs2Usable (s : Vfs2) (path : CStr) : Option (MountId × Option CStr) :=
  let r := vfs2Resolve s (some path)
  r.2.map fun found => (found.1, found.2.read r.1)

/-- The result is no mount if none covers the path, else the longest one that does, with a relative
path that can be read and is the path below the mount. -/
def LongestFor (s : Vfs2) (path norm : CStr) : Prop :=
  (vfs2Usable s path = none ∧ ResolvesTo s norm none) ∨
    ∃ m rel, vfs2Usable s path = some (m, some rel) ∧ ResolvesTo s norm (some (m, rel))

/-- A path that is not in the cache is searched for. -/
theorem vfs2Resolve_miss {s : Vfs2} {path : CStr} (hmiss : cachedPath s path = none) :
    (uncachedResolve s path = none ∧ vfs2Resolve s (some path) = (s, none)) ∨
      ∃ k rel, uncachedResolve s path = some (k, rel) ∧
        (vfs2Resolve s (some path)).2 = some (k, .automatic rel) := by
  rcases vfs2Resolve_cases s path with ⟨i, k, hk, hpath, -⟩ | hnone | ⟨k, rel, hsome, heq⟩
  · have hhit := List.find?_eq_none.mp hmiss i (List.mem_finRange i)
    rw [hk, hpath] at hhit
    simp at hhit
  · exact .inl hnone
  · exact .inr ⟨k, rel, hsome, congrArg Prod.snd heq⟩

/--
**When resolution returns the longest prefix and what is below it.**  For a path that is not in
the cache the mount is always right, and so is the text that the function has found when it
returns; but the caller may read it only in the case where there is nothing to read, that is, if
no active mount covers the path.
-/
theorem vfs2_resolve_longest {s : Vfs2} (hmounts : MountsDistinct s) {path norm : CStr}
    (hnorm : vfsNormalize path = some norm) (hmiss : cachedPath s path = none) :
    ResolvesTo s norm (vfs2Resolved s (some path)) ∧
      (LongestFor s path norm ↔
        ∀ i, (s.mountTable i).active = true → ¬ MountCovers (s.mountTable i).mountPrefix norm) := by
  have hlongest := uncachedResolve_longest hmounts hnorm
  rcases vfs2Resolve_miss hmiss with ⟨hnone, heq⟩ | ⟨k, rel, hsome, heq⟩
  · have hresolved : vfs2Resolved s (some path) = none := by
      unfold vfs2Resolved
      rw [heq]
      rfl
    have husable : vfs2Usable s path = none := by
      unfold vfs2Usable
      rw [heq]
      rfl
    rw [hnone] at hlongest
    rw [hresolved]
    exact ⟨hlongest, fun _ => hlongest, fun hno => .inl ⟨husable, hno⟩⟩
  · have hresolved : vfs2Resolved s (some path) = some (k, rel) := by
      unfold vfs2Resolved
      dsimp only
      rw [heq]
      rfl
    have husable : vfs2Usable s path = some (k, none) := by
      unfold vfs2Usable
      dsimp only
      rw [heq]
      rfl
    rw [hsome] at hlongest
    rw [hresolved]
    refine ⟨hlongest, fun h => ?_, fun hno => absurd hlongest.2.1 (hno k hlongest.1)⟩
    -- The relative path that was found lies in the dead array.
    rcases h with ⟨hnull, -⟩ | ⟨m, text, hread, -⟩
    · exact absurd (husable.symm.trans hnull) (by simp)
    · exact absurd (husable.symm.trans hread) (by simp)

/-- The root, `/a`, `/ab` and `/a/b`, the longest ones first. -/
def nestedMounts : Vfs2 :=
  { vfs2Zero with
    mountTable := fun i =>
      if i.val = 0 then ⟨['/', 'a', '/', 'b'], 1, true⟩
      else if i.val = 1 then ⟨['/', 'a', 'b'], 2, true⟩
      else if i.val = 2 then ⟨['/', 'a'], 3, true⟩
      else if i.val = 5 then ⟨['/'], 4, true⟩
      else ⟨[], 0, false⟩
    mountBitmap := 0x27 }

/-- The only mount is `/c`. -/
def besideMounts : Vfs2 := (vfs2Mount (vfs2Init vfs2Zero) (some ['/', 'c']) 1).1

/-- For `/a/./bc` the mount on `/a` is found, and the text is `/bc`, but no caller may read it; where
only `/c` is mounted, no mount is returned. -/
theorem vfs2_resolve_longest_nested :
    ResolvesTo nestedMounts ['/', 'a', '/', 'b', 'c'] (some (2, ['/', 'b', 'c'])) ∧
      ¬ LongestFor nestedMounts ['/', 'a', '/', '.', '/', 'b', 'c'] ['/', 'a', '/', 'b', 'c'] ∧
      LongestFor besideMounts ['/', 'a', '/', '.', '/', 'b', 'c'] ['/', 'a', '/', 'b', 'c'] := by
  obtain ⟨hnested, hbeside, hnorm, hmiss, hmiss', hfound, hcovers, hnone⟩ :
      MountsDistinct nestedMounts ∧ MountsDistinct besideMounts ∧
      vfsNormalize ['/', 'a', '/', '.', '/', 'b', 'c'] = some ['/', 'a', '/', 'b', 'c'] ∧
      cachedPath nestedMounts ['/', 'a', '/', '.', '/', 'b', 'c'] = none ∧
      cachedPath besideMounts ['/', 'a', '/', '.', '/', 'b', 'c'] = none ∧
      vfs2Resolved nestedMounts (some ['/', 'a', '/', '.', '/', 'b', 'c']) =
        some (2, ['/', 'b', 'c']) ∧
      ((nestedMounts.mountTable 2).active = true ∧
        MountCovers (nestedMounts.mountTable 2).mountPrefix ['/', 'a', '/', 'b', 'c']) ∧
      ∀ i, (besideMounts.mountTable i).active = true →
        ¬ MountCovers (besideMounts.mountTable i).mountPrefix ['/', 'a', '/', 'b', 'c'] := by
    decide +kernel
  obtain ⟨hresolves, hiff⟩ := vfs2_resolve_longest hnested hnorm hmiss
  rw [hfound] at hresolves
  exact ⟨hresolves, fun h => hiff.mp h 2 hcovers.1 hcovers.2,
    (vfs2_resolve_longest hbeside hnorm hmiss').2.mpr hnone⟩

/-- The first resolution after the root was mounted: the mount is the right one, and there is no
relative path that the caller may read. -/
theorem vfs2_resolve_dead_path :
    vfs2Usable (vfs2Mount (vfs2Init vfs2Zero) (some ['/']) 1).1 ['/', 'a'] = some (0, none) ∧
      ¬ LongestFor (vfs2Mount (vfs2Init vfs2Zero) (some ['/']) 1).1 ['/', 'a'] ['/', 'a'] := by
  have husable : vfs2Usable (vfs2Mount (vfs2Init vfs2Zero) (some ['/']) 1).1 ['/', 'a'] =
      some (0, none) := by decide +kernel
  refine ⟨husable, ?_⟩
  rintro (⟨hnull, -⟩ | ⟨m, text, hread, -⟩)
  · exact absurd (husable.symm.trans hnull) (by simp)
  · exact absurd (husable.symm.trans hread) (by simp)

end BrightS
