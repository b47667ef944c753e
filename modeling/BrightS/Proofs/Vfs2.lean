/-
The path cache and the mount table.

`uncachedResolve` is what resolution is for: among the active mounts whose prefix covers
the normalised path, the longest.  The search loop computes it (`resolveLoop_eq`), and a
cache entry is right when it holds what it says of its path.  Neither mounting nor
unmounting looks at the cache, and both of its strings are cut off at 127 characters, so
entries stay right only in runs that never do what would make one wrong
(`CacheRespected`); `vfs2_mount_over_cached_path` is a run that does.
-/
import BrightS.Kernel.Vfs2
import BrightS.Lib.Runs

namespace BrightS

open Runs

/-! ### The longest prefix -/

/-- How much of a path a prefix covers, zero if it does not cover the path.  The root covers
every path. -/
def coverLen (norm mp : CStr) : Nat :=
  if mp = ['/'] then 1
  else if mp.isPrefixOf norm ∧
      ((norm.drop mp.length).head? = none ∨ (norm.drop mp.length).head? = some '/') then mp.length
  else 0

/-- What is left of the path below a prefix. -/
def pathBelow (norm mp : CStr) : CStr :=
  if mp = ['/'] then norm
  else if (norm.drop mp.length).head? = none then ['/']
  else norm.drop mp.length

/-- The same for a slot of the mount table. -/
def mountLen (s : Vfs2) (norm : CStr) (i : MountId) : Nat :=
  if (s.mountTable i).active then coverLen norm (s.mountTable i).mountPrefix else 0

/-- The first of the mounts that cover most of the path. -/
def longestMount (s : Vfs2) (norm : CStr) : Option MountId :=
  ((List.finRange vfsMaxMounts).filter fun i => 0 < mountLen s norm i).argmax (mountLen s norm)

/-- Resolution without a cache. -/
def uncachedResolve (s : Vfs2) (path : CStr) : Option (MountId × CStr) :=
  (vfsNormalize path).bind fun norm =>
    (longestMount s norm).map fun i => (i, pathBelow norm (s.mountTable i).mountPrefix)

section Search

variable {s : Vfs2} {norm : CStr}

theorem vfsStrCopy_of_lt {cap : Nat} {src : CStr} (h : src.length < cap) :
    vfsStrCopy cap src = src := by
  rw [vfsStrCopy, List.take_of_length_le (by omega)]

/-- One iteration takes the slot if it covers more. -/
theorem resolveStep_eq (hnorm : norm.length < 256) (b : BestMount) (i : MountId) :
    resolveStep s norm b i =
      if b.bestLen < mountLen s norm i then
        ⟨some i, mountLen s norm i, pathBelow norm (s.mountTable i).mountPrefix⟩
      else b := by
  unfold resolveStep mountLen
  cases hactive : (s.mountTable i).active with
  | false => simp
  | true =>
      rw [if_neg (by simp), if_pos rfl]
      dsimp only
      generalize (s.mountTable i).mountPrefix = mp
      have hroot : (mp.length = 1 ∧ mp.head? = some '/') ↔ mp = ['/'] := by
        constructor
        · rintro ⟨hlen, hhead⟩
          obtain ⟨c, rfl⟩ := List.length_eq_one_iff.mp hlen
          simpa using hhead
        · rintro rfl
          simp
      by_cases hmp : mp = ['/']
      · rw [if_pos (hroot.mpr hmp), coverLen, if_pos hmp, pathBelow, if_pos hmp,
          vfsStrCopy_of_lt hnorm]
      · rw [if_neg (fun h => hmp (hroot.mp h)), coverLen, if_neg hmp, pathBelow, if_neg hmp]
        by_cases hcover : mp.isPrefixOf norm = true ∧ ((norm.drop mp.length).head? = none ∨
            (norm.drop mp.length).head? = some '/')
        · have hfits : (if (norm.drop mp.length).head? = none then ['/']
              else norm.drop mp.length).length < 256 := by
            split
            · decide
            · rw [List.length_drop]
              omega
          rw [if_pos hcover, if_pos hcover.1, if_pos hcover.2, vfsStrCopy_of_lt hfits]
        · rw [if_neg hcover, if_neg (Nat.not_lt_zero _)]
          by_cases hpre : mp.isPrefixOf norm = true
          · rw [if_pos hpre, if_neg (fun hnext => hcover ⟨hpre, hnext⟩)]
          · rw [if_neg hpre]

/-- The search over the first slots finds the longest among them. -/
theorem resolve_prefix (hnorm : norm.length < 256) (l : List MountId) :
    l.foldl (resolveStep s norm) ⟨none, 0, []⟩ =
      match (l.filter fun i => 0 < mountLen s norm i).argmax (mountLen s norm) with
      | none => ⟨none, 0, []⟩
      | some i => ⟨some i, mountLen s norm i, pathBelow norm (s.mountTable i).mountPrefix⟩ := by
  induction l using List.reverseRecOn with
  | nil => rfl
  | append_singleton l i ih =>
      rw [List.foldl_append, List.foldl_cons, List.foldl_nil, ih, resolveStep_eq hnorm,
        List.filter_append]
      by_cases hpos : 0 < mountLen s norm i
      · have hone : [i].filter (fun i => decide (0 < mountLen s norm i)) = [i] := by simp [hpos]
        rw [hone, List.argmax_concat]
        cases hbest : (l.filter fun i => decide (0 < mountLen s norm i)).argmax (mountLen s norm) with
        | none => simp [hpos]
        | some k =>
            dsimp only
            split <;> rfl
      · have hnone : [i].filter (fun i => decide (0 < mountLen s norm i)) = [] := by simp [hpos]
        rw [hnone, List.append_nil, if_neg (by omega)]

/-- The search finds the longest mount. -/
theorem resolveLoop_eq (hnorm : norm.length < 256) :
    resolveLoop s norm =
      match longestMount s norm with
      | none => ⟨none, 0, []⟩
      | some i => ⟨some i, mountLen s norm i, pathBelow norm (s.mountTable i).mountPrefix⟩ :=
  resolve_prefix hnorm _

/-- In an ascending list the order of the places is the order of the elements. -/
theorem idxOf_le_idxOf {l : List MountId} (hl : l.Pairwise (· < ·)) {i j : MountId} (hi : i ∈ l)
    (hj : j ∈ l) : l.idxOf i ≤ l.idxOf j ↔ i ≤ j := by
  induction l with
  | nil => simp at hi
  | cons k rest ih =>
      rw [List.pairwise_cons] at hl
      by_cases hik : k = i
      · subst hik
        rcases List.mem_cons.mp hj with rfl | hj
        · simp
        · simp [(hl.1 j hj).le]
      · have hi' := (List.mem_cons.mp hi).resolve_left (Ne.symm hik)
        rw [List.idxOf_cons_ne _ hik]
        by_cases hjk : k = j
        · subst hjk
          simp [hl.1 i hi']
        · have hj' := (List.mem_cons.mp hj).resolve_left (Ne.symm hjk)
          rw [List.idxOf_cons_ne _ hjk, ← ih hl.2 hi' hj']
          omega

theorem longestMount_eq_some_iff {k : MountId} :
    longestMount s norm = some k ↔ 0 < mountLen s norm k ∧
      ∀ j, mountLen s norm j ≤ mountLen s norm k ∧
        (mountLen s norm j = mountLen s norm k → k ≤ j) := by
  have hsorted : ((List.finRange vfsMaxMounts).filter
      fun i => decide (0 < mountLen s norm i)).Pairwise (· < ·) :=
    (List.pairwise_lt_finRange _).filter _
  have hmem : ∀ j, j ∈ (List.finRange vfsMaxMounts).filter (fun i => decide (0 < mountLen s norm i)) ↔
      0 < mountLen s norm j := by
    intro j
    simp
  rw [longestMount, List.argmax_eq_some_iff]
  simp only [hmem]
  constructor
  · rintro ⟨hk, hmax, hfirst⟩
    refine ⟨hk, fun j => ?_⟩
    by_cases hj : 0 < mountLen s norm j
    · refine ⟨hmax j hj, fun heq => ?_⟩
      exact (idxOf_le_idxOf hsorted ((hmem k).mpr hk) ((hmem j).mpr hj)).mp (hfirst j hj heq.ge)
    · exact ⟨by omega, fun heq => by omega⟩
  · rintro ⟨hk, hall⟩
    refine ⟨hk, fun j _ => (hall j).1, fun j hj hge => ?_⟩
    exact (idxOf_le_idxOf hsorted ((hmem k).mpr hk) ((hmem j).mpr hj)).mpr
      ((hall j).2 (le_antisymm (hall j).1 hge))

theorem uncachedResolve_eq_some_iff {path rel : CStr} {k : MountId} :
    uncachedResolve s path = some (k, rel) ↔ ∃ norm, vfsNormalize path = some norm ∧
      longestMount s norm = some k ∧ rel = pathBelow norm (s.mountTable k).mountPrefix := by
  rw [uncachedResolve, Option.bind_eq_some_iff]
  refine exists_congr fun norm => and_congr_right fun _ => ?_
  rw [Option.map_eq_some_iff]
  constructor
  · rintro ⟨i, hi, heq⟩
    obtain ⟨rfl, rfl⟩ := Prod.mk.inj heq
    exact ⟨hi, rfl⟩
  · rintro ⟨hk, rfl⟩
    exact ⟨k, hk, rfl⟩

theorem vfsNormalize_lt {path norm : CStr} (h : vfsNormalize path = some norm) :
    norm.length < 256 := by
  obtain ⟨segs, -, hjoin⟩ := Option.bind_eq_some_iff.mp h
  split at hjoin
  · rename_i hfit
    rw [Option.some.injEq] at hjoin
    rw [← hjoin]
    exact hfit
  · simp at hjoin

end Search

/-! ### What each call does -/

/-- Flags and bits agree, and every cache entry holds what its path resolves to. -/
structure CacheOk (s : Vfs2) : Prop where
  bits : ∀ i, mountUsed s i = (s.mountTable i).active
  entries : ∀ i k, (s.pathCache i).mount = some k →
    uncachedResolve s (s.pathCache i).path = some (k, (s.pathCache i).relPath)

section Calls

variable {s : Vfs2}

/-- A resolution that misses the cache gives the uncached result and stores it, cut off. -/
theorem vfs2Resolve_cases (s : Vfs2) (path : CStr) :
    (∃ i k, (s.pathCache i).mount = some k ∧ (s.pathCache i).path = path ∧
        vfs2Resolve s (some path) = (s, some (k, .cached i))) ∨
      (uncachedResolve s path = none ∧ vfs2Resolve s (some path) = (s, none)) ∨
      ∃ k rel, uncachedResolve s path = some (k, rel) ∧
        vfs2Resolve s (some path) = ({ s with
          pathCache := Function.update s.pathCache s.pathCacheNext
            ⟨vfsStrCopy 128 path, some k, vfsStrCopy 128 rel⟩
          pathCacheNext := s.pathCacheNext + 1 }, some (k, .automatic rel)) := by
  unfold vfs2Resolve uncachedResolve
  dsimp only
  cases hnorm : vfsNormalize path with
  | none => exact Or.inr (Or.inl ⟨rfl, rfl⟩)
  | some norm =>
      dsimp only
      cases hhit : cachedPath s path with
      | some i =>
          left
          have hi := List.find?_some hhit
          rw [Bool.and_eq_true, beq_iff_eq, Option.isSome_iff_exists] at hi
          obtain ⟨⟨k, hk⟩, hpath⟩ := hi
          exact ⟨i, k, hk, hpath, by dsimp only; rw [hk]; rfl⟩
      | none =>
          right
          dsimp only
          rw [resolveLoop_eq (vfsNormalize_lt hnorm), Option.bind_some]
          cases hbest : longestMount s norm with
          | none => exact Or.inl ⟨rfl, rfl⟩
          | some k => exact Or.inr ⟨k, _, rfl, rfl⟩

/-- The result is right if the entries are. -/
theorem CacheOk.resolve (h : CacheOk s) (path : CStr) :
    vfs2Resolved s (some path) = uncachedResolve s path := by
  unfold vfs2Resolved
  rcases vfs2Resolve_cases s path with ⟨i, k, hk, hpath, heq⟩ | ⟨hnone, heq⟩ | ⟨k, rel, hsome, heq⟩
  · rw [heq, ← hpath, h.entries i k hk]
    rfl
  · rw [heq, hnone]
    rfl
  · rw [heq, hsome]
    rfl

/-- The strings of the cache have room for the path and its result. -/
def FitsCache (s : Vfs2) (path : CStr) : Prop :=
  ∀ k rel, uncachedResolve s path = some (k, rel) → path.length ≤ 127 ∧ rel.length ≤ 127

theorem CacheOk.after_resolve (h : CacheOk s) {path : CStr} (hfits : FitsCache s path) :
    CacheOk (vfs2Resolve s (some path)).1 := by
  rcases vfs2Resolve_cases s path with ⟨i, k, -, -, heq⟩ | ⟨-, heq⟩ | ⟨k, rel, hsome, heq⟩
  · rw [heq]
    exact h
  · rw [heq]
    exact h
  · obtain ⟨hpath, hrel⟩ := hfits k rel hsome
    rw [heq]
    refine ⟨h.bits, fun i k' hk' => ?_⟩
    dsimp only at hk' ⊢
    -- Resolution without the cache does not read the cache.
    show uncachedResolve s _ = _
    by_cases hi : i = s.pathCacheNext
    · rw [hi, Function.update_self] at hk' ⊢
      dsimp only at hk' ⊢
      rw [← Option.some.inj hk', vfsStrCopy_of_lt (by omega), vfsStrCopy_of_lt (by omega), hsome]
    · rw [Function.update_of_ne hi] at hk' ⊢
      exact h.entries i k' hk'

/-- Changing one slot that the path does not resolve to. -/
theorem longestMount_update {norm : CStr} {k j : MountId} {m : VfsMount} {s' : Vfs2}
    (htable : s'.mountTable = Function.update s.mountTable j m)
    (hk : longestMount s norm = some k) (hjk : j ≠ k)
    (hlen : m.active = true → coverLen norm m.mountPrefix < mountLen s norm k ∨
      (coverLen norm m.mountPrefix = mountLen s norm k ∧ k < j)) :
    longestMount s' norm = some k := by
  have hother : ∀ i, i ≠ j → mountLen s' norm i = mountLen s norm i := by
    intro i hi
    unfold mountLen
    rw [htable, Function.update_of_ne hi]
  rw [longestMount_eq_some_iff] at hk ⊢
  rw [hother k hjk.symm]
  refine ⟨hk.1, fun i => ?_⟩
  by_cases hi : i = j
  · subst hi
    have hself : mountLen s' norm i = if m.active then coverLen norm m.mountPrefix else 0 := by
      unfold mountLen
      rw [htable, Function.update_self]
    have hpos := hk.1
    rw [hself]
    cases hactive : m.active with
    | false => exact ⟨by simp, fun heq => by simp at heq; omega⟩
    | true =>
        rw [if_pos rfl]
        rcases hlen hactive with hlt | ⟨heq, hki⟩
        · exact ⟨hlt.le, fun heq => by omega⟩
        · exact ⟨heq.le, fun _ => hki.le⟩
  · rw [hother i hi]
    exact hk.2 i

theorem uncachedResolve_update {path rel : CStr} {k j : MountId} {m : VfsMount} {s' : Vfs2}
    (htable : s'.mountTable = Function.update s.mountTable j m)
    (hres : uncachedResolve s path = some (k, rel)) (hjk : j ≠ k)
    (hlen : ∀ norm, vfsNormalize path = some norm → m.active = true →
      coverLen norm m.mountPrefix < mountLen s norm k ∨
        (coverLen norm m.mountPrefix = mountLen s norm k ∧ k < j)) :
    uncachedResolve s' path = some (k, rel) := by
  obtain ⟨norm, hnorm, hk, hrel⟩ := uncachedResolve_eq_some_iff.mp hres
  refine uncachedResolve_eq_some_iff.mpr
    ⟨norm, hnorm, longestMount_update htable hk hjk (hlen norm hnorm), ?_⟩
  rw [hrel, htable, Function.update_of_ne hjk.symm]

/-- A resolved mount is active. -/
theorem active_of_resolve {path rel : CStr} {k : MountId}
    (h : uncachedResolve s path = some (k, rel)) : (s.mountTable k).active = true := by
  obtain ⟨norm, -, hk, -⟩ := uncachedResolve_eq_some_iff.mp h
  have hpos := (longestMount_eq_some_iff.mp hk).1
  unfold mountLen at hpos
  split at hpos
  · assumption
  · simp at hpos

end Calls

/-! ### Runs -/

inductive Vfs2Call where
  | mount (path : Option CStr) (sb : Nat)
  | umount (path : Option CStr)
  | resolve (path : Option CStr)

def Vfs2.step (s : Vfs2) (c : Vfs2Call) (s' : Vfs2) : Prop :=
  match c with
  | .mount path sb => s' = (vfs2Mount s path sb).1
  | .umount path => s' = (vfs2Umount s path).1
  | .resolve path => s' = (vfs2Resolve s path).1

/-- A new mount does not take a cached path from its mount: it covers less of the path, or as much
from a later slot. -/
def MountRespectsCache (s : Vfs2) (path : CStr) (sb : Nat) : Prop :=
  ∀ j ∈ mountSlot s path sb, ∀ i k, (s.pathCache i).mount = some k →
    ∀ norm ∈ vfsNormalize (s.pathCache i).path,
      coverLen norm (vfsStrCopy 128 path) < mountLen s norm k ∨
        (coverLen norm (vfsStrCopy 128 path) = mountLen s norm k ∧ k < j)

/-- What the callers have to see to, since the cache is never invalidated. -/
def CacheRespected (s : Vfs2) : Vfs2Call → Prop
  | .mount (some path) sb => MountRespectsCache s path sb
  | .umount (some path) => ∀ j ∈ mountedAt s path, ∀ i, (s.pathCache i).mount ≠ some j
  | .resolve (some path) => FitsCache s path
  | _ => True

theorem mountUsed_set (w : BitVec 8) (i j : MountId) :
    (w ||| BitVec.twoPow 8 i.val).getLsbD j.val = (decide (j = i) || w.getLsbD j.val) := by
  rw [BitVec.getLsbD_or, BitVec.getLsbD_twoPow, Bool.or_comm]
  simp [Fin.ext_iff, eq_comm, i.isLt]

theorem mountUsed_clear (w : BitVec 8) (i j : MountId) :
    (w &&& ~~~(BitVec.twoPow 8 i.val)).getLsbD j.val = (!decide (j = i) && w.getLsbD j.val) := by
  rw [BitVec.getLsbD_and, BitVec.getLsbD_not, BitVec.getLsbD_twoPow, Bool.and_comm]
  simp [Fin.ext_iff, eq_comm, i.isLt, j.isLt]

theorem CacheOk.after_mount {s : Vfs2} (h : CacheOk s) {path : CStr} {sb : Nat}
    (hguard : MountRespectsCache s path sb) : CacheOk (vfs2Mount s (some path) sb).1 := by
  unfold vfs2Mount
  dsimp only
  cases hslot : mountSlot s path sb with
  | none => exact h
  | some j =>
      have hfree : mountUsed s j = false := by
        unfold mountSlot at hslot
        split at hslot
        · simp at hslot
        · split at hslot
          · simp at hslot
          · simpa using List.find?_some hslot
      refine ⟨fun i => ?_, fun i k hk => ?_⟩
      · unfold mountUsed
        dsimp only
        rw [mountUsed_set]
        by_cases hi : i = j
        · simp [hi]
        · rw [Function.update_of_ne hi, decide_eq_false hi, Bool.false_or]
          exact h.bits i
      · have hres := h.entries i k hk
        refine uncachedResolve_update rfl hres ?_ fun norm hnorm _ =>
          hguard j hslot i k hk norm hnorm
        rintro rfl
        rw [h.bits, active_of_resolve hres] at hfree
        exact Bool.noConfusion hfree

theorem CacheOk.after_umount {s : Vfs2} (h : CacheOk s) {path : CStr}
    (hguard : CacheRespected s (.umount (some path))) : CacheOk (vfs2Umount s (some path)).1 := by
  unfold vfs2Umount
  dsimp only
  cases hslot : mountedAt s path with
  | none => exact h
  | some j =>
      refine ⟨fun i => ?_, fun i k hk => ?_⟩
      · unfold mountUsed
        dsimp only
        rw [mountUsed_clear]
        by_cases hi : i = j
        · simp [hi]
        · rw [Function.update_of_ne hi, decide_eq_false hi, Bool.not_false, Bool.true_and]
          exact h.bits i
      · refine uncachedResolve_update rfl (h.entries i k hk) ?_ fun _ _ hactive =>
          Bool.noConfusion hactive
        rintro rfl
        exact hguard j hslot i hk

theorem cacheOk_step (s : Vfs2) (c : Vfs2Call) (s' : Vfs2) (h : CacheOk s)
    (hstep : Guarded CacheRespected Vfs2.step s c s') : CacheOk s' := by
  obtain ⟨hguard, hstep⟩ := hstep
  cases c with
  | mount path sb =>
      obtain rfl := hstep
      cases path with
      | none => exact h
      | some path => exact h.after_mount hguard
  | umount path =>
      obtain rfl := hstep
      cases path with
      | none => exact h
      | some path => exact h.after_umount hguard
  | resolve path =>
      obtain rfl := hstep
      cases path with
      | none => exact h
      | some path => exact h.after_resolve hguard

theorem vfs2Init_cacheOk : CacheOk (vfs2Init vfs2Zero) :=
  ⟨by decide, fun _ _ hk => absurd hk (by simp [vfs2Init, vfs2Zero])⟩

/--
**The path cache is transparent** in every run whose calls respect it: every path resolves through
the cache to the mount and the relative path that the longest active prefix gives.
-/
theorem vfs2_cache_transparent {calls : List Vfs2Call} {s : Vfs2}
    (hrun : Executes (Guarded CacheRespected Vfs2.step) (vfs2Init vfs2Zero) calls s) (path : CStr) :
    vfs2Resolved s (some path) = uncachedResolve s path :=
  (hrun.invariant cacheOk_step vfs2Init_cacheOk).resolve path

/-- The table after the root was mounted and `/a/b` resolved. -/
def rootMounted : Vfs2 :=
  (vfs2Resolve (vfs2Mount (vfs2Init vfs2Zero) (some ['/']) 1).1 (some ['/', 'a', '/', 'b'])).1

theorem rootMounted_fits : FitsCache (vfs2Mount (vfs2Init vfs2Zero) (some ['/']) 1).1
    ['/', 'a', '/', 'b'] := by
  intro k rel h
  have heq : uncachedResolve (vfs2Mount (vfs2Init vfs2Zero) (some ['/']) 1).1 ['/', 'a', '/', 'b'] =
      some (0, ['/', 'a', '/', 'b']) := by decide +kernel
  rw [heq] at h
  obtain ⟨rfl, rfl⟩ := Prod.mk.inj (Option.some.inj h)
  decide

/-- Mounting beside what is cached. -/
theorem vfs2_cache_transparent_beside :
    ∃ s, Executes (Guarded CacheRespected Vfs2.step) (vfs2Init vfs2Zero)
        [.mount (some ['/']) 1, .resolve (some ['/', 'a', '/', 'b']), .mount (some ['/', 'c']) 2] s ∧
      vfs2Resolved s (some ['/', 'a', '/', 'b']) = uncachedResolve s ['/', 'a', '/', 'b'] := by
  have hmount : MountRespectsCache (vfs2Init vfs2Zero) ['/'] 1 := by
    intro j _ i k hk
    simp [vfs2Init, vfs2Zero] at hk
  have hbeside : MountRespectsCache rootMounted ['/', 'c'] 2 := by
    unfold MountRespectsCache
    decide +kernel
  have hrun : Executes (Guarded CacheRespected Vfs2.step) (vfs2Init vfs2Zero)
      [.mount (some ['/']) 1, .resolve (some ['/', 'a', '/', 'b']), .mount (some ['/', 'c']) 2]
      (vfs2Mount rootMounted (some ['/', 'c']) 2).1 :=
    .cons ⟨hmount, rfl⟩ (.cons ⟨rootMounted_fits, rfl⟩ (.cons ⟨hbeside, rfl⟩ (.nil _)))
  exact ⟨_, hrun, vfs2_cache_transparent hrun _⟩

/-- A mount over a path that is cached: the cache still answers with the root. -/
theorem vfs2_mount_over_cached_path :
    ∃ s, Executes Vfs2.step (vfs2Init vfs2Zero)
        [.mount (some ['/']) 1, .resolve (some ['/', 'a', '/', 'b']), .mount (some ['/', 'a']) 2] s ∧
      vfs2Resolved s (some ['/', 'a', '/', 'b']) = some (0, ['/', 'a', '/', 'b']) ∧
      uncachedResolve s ['/', 'a', '/', 'b'] = some (1, ['/', 'b']) := by
  refine ⟨(vfs2Mount rootMounted (some ['/', 'a']) 2).1,
    .cons rfl (.cons rfl (.cons rfl (.nil _))), ?_, ?_⟩ <;> decide +kernel

end BrightS
