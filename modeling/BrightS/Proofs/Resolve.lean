/-
Relative paths that do not fit.

The buffer for the working directory and the path is filled as far as it goes, and what is in it
is normalised.  Scanning a joined path is scanning its parts (`pathSegments_append`), so a path
that was copied whole has the right result.  One that was cut off may have another: going up to
the root, along a run of slashes and down again behind the end of the buffer.
-/
import BrightS.Proofs.PathStack

namespace BrightS

/-! ### Parts of a path -/

/-- A scan goes through the part before a slash and then through the part behind it. -/
theorem pathSegments_append (segMax : Nat) (before behind : CStr) :
    ∀ {seg : CStr} {segs : List CStr},
      pathSegments segMax (before ++ '/' :: behind) seg segs =
        (pathSegments segMax before seg segs).bind (pathSegments segMax behind []) := by
  induction before with
  | nil =>
      intro seg segs
      rw [List.nil_append, pathSegments, pathSegments, if_pos rfl]
      split
      · rfl
      · rfl
  | cons c rest ih =>
      intro seg segs
      rw [List.cons_append, pathSegments, pathSegments]
      by_cases hc : c = '/'
      · rw [if_pos hc, if_pos hc]
        by_cases hne : seg = []
        · rw [if_pos hne, if_pos hne, ih]
        · rw [if_neg hne, if_neg hne, Option.bind_assoc]
          exact congrArg _ (funext fun segs' => ih)
      · rw [if_neg hc, if_neg hc]
        by_cases hlong : segMax ≤ seg.length
        · rw [if_pos hlong, if_pos hlong]
          rfl
        · rw [if_neg hlong, if_neg hlong, ih]

/-- The slash that is put behind the working directory. -/
def combineSlash (cwd path : CStr) : CStr :=
  if cwd ≠ [] ∧ cwd.getLast? ≠ some '/' ∧ path ≠ [] then ['/'] else []

theorem combineSlash_length (cwd path : CStr) : (combineSlash cwd path).length ≤ 1 := by
  unfold combineSlash
  split <;> simp

/-- A working directory always fits. -/
theorem combinePath_eq {cwd : CStr} (hcwd : cwd.length < procCwdLen) (path : CStr) :
    combinePath cwd path = cwd ++ combineSlash cwd path ++
      path.take (procCombinedMax - (cwd.length + (combineSlash cwd path).length)) := by
  have hlen : procCwdLen = 128 := rfl
  have hmax : procCombinedMax = 254 := rfl
  have htake : cwd.take procCombinedMax = cwd := List.take_of_length_le (by omega)
  have hcond : (cwd ≠ [] ∧ cwd.getLast? ≠ some '/' ∧ path ≠ [] ∧ cwd.length < procCombinedMax) ↔
      (cwd ≠ [] ∧ cwd.getLast? ≠ some '/' ∧ path ≠ []) := by
    rw [and_iff_left (a := path ≠ []) (by omega)]
  unfold combinePath combineSlash
  dsimp only
  rw [htake]
  by_cases hslash : cwd ≠ [] ∧ cwd.getLast? ≠ some '/' ∧ path ≠ []
  · rw [if_pos (hcond.mpr hslash), if_pos hslash, List.length_append]
  · rw [if_neg fun h => hslash (hcond.mp h), if_neg hslash, List.append_nil, List.length_nil,
      Nat.add_zero]

/-- The parts are scanned as if there were always a slash between them. -/
theorem pathSegments_combine (segMax : Nat) (cwd path tail : CStr) (htail : path = [] → tail = []) :
    pathSegments segMax (cwd ++ combineSlash cwd path ++ tail) [] [] =
      (pathSegments segMax cwd [] []).bind (pathSegments segMax tail []) := by
  unfold combineSlash
  by_cases hempty : cwd = []
  · rw [if_neg fun h => h.1 hempty, hempty]
    rfl
  by_cases hlast : cwd.getLast? = some '/'
  · rw [if_neg fun h => h.2.1 hlast, List.append_nil]
    obtain ⟨front, rfl⟩ := List.getLast?_eq_some_iff.mp hlast
    have hfront : pathSegments segMax (front ++ '/' :: []) [] [] =
        (pathSegments segMax front [] []).bind (pathSegments segMax [] []) :=
      pathSegments_append segMax front []
    have hend : (pathSegments segMax [] [] : List CStr → Option (List CStr)) = some := by
      funext segs
      rw [pathSegments, if_pos rfl]
    rw [hend, Option.bind_fun_some] at hfront
    rw [List.append_assoc, List.singleton_append, pathSegments_append, hfront]
  by_cases hpath : path = []
  · rw [if_neg fun h => h.2.2 hpath, htail hpath, List.append_nil, List.append_nil]
    have hend : (pathSegments segMax [] [] : List CStr → Option (List CStr)) = some := by
      funext segs
      rw [pathSegments, if_pos rfl]
    rw [hend, Option.bind_fun_some]
  · rw [if_pos ⟨hempty, hlast, hpath⟩, List.append_assoc, List.singleton_append,
      pathSegments_append]

/-! ### A path that is cut off -/

/-- Sixteen times up, a dot and slashes. -/
def climbPath (slashes : Nat) : CStr :=
  (List.replicate pathMaxSegs ['.', '.', '/']).flatten ++ '.' :: List.replicate slashes '/'

theorem climbPath_length (slashes : Nat) : (climbPath slashes).length = slashes + 49 := by
  simp [climbPath, pathMaxSegs]

theorem climbPath_slash (slashes : Nat) (tail : CStr) :
    climbPath slashes ++ '/' :: tail = climbPath (slashes + 1) ++ tail := by
  rw [climbPath, climbPath, List.replicate_succ']
  simp

/-- The first part of a climb is one with fewer slashes. -/
theorem climbPath_take {slashes m : Nat} (hlow : 49 ≤ m) (hhigh : m ≤ slashes + 49) :
    (climbPath slashes).take m = climbPath (m - 49) := by
  have hdots : (List.replicate pathMaxSegs ['.', '.', '/']).flatten.length = 48 := by
    simp [pathMaxSegs]
  rw [climbPath, climbPath, List.take_append, List.take_of_length_le (by omega), hdots,
    show m - 48 = m - 49 + 1 by omega, List.take_succ_cons, List.take_replicate]
  congr 3
  omega

theorem pathSegments_slashes (segMax : Nat) (segs : List CStr) (tail : CStr) :
    ∀ n, pathSegments segMax (List.replicate n '/' ++ tail) [] segs =
      pathSegments segMax tail [] segs := by
  intro n
  induction n with
  | zero => rfl
  | succ n ih => rw [List.replicate_succ, List.cons_append, pathSegments, if_pos rfl, if_pos rfl, ih]

/-- Whatever the stack was, the scan is at the root behind the climb. -/
theorem pathSegments_climb {segs : List CStr} (hfew : segs.length ≤ pathMaxSegs) (slashes : Nat)
    (tail : CStr) :
    pathSegments 63 (climbPath slashes ++ '/' :: tail) [] segs = pathSegments 63 tail [] [] := by
  have hdots : ∀ (k : Nat) (segs : List CStr) (rest : CStr), segs.length ≤ k →
      pathSegments 63 ((List.replicate k ['.', '.', '/']).flatten ++ rest) [] segs =
        pathSegments 63 rest [] [] := by
    intro k
    induction k with
    | zero =>
        intro segs rest hlen
        rw [List.eq_nil_of_length_eq_zero (Nat.le_zero.mp hlen)]
        rfl
    | succ k ih =>
        intro segs rest hlen
        have hup : ∀ more : CStr, pathSegments 63 ('.' :: '.' :: '/' :: more) [] segs =
            pathSegments 63 more [] segs.dropLast := fun more => by
          simp [pathSegments, endSegment]
        have hshort : segs.dropLast.length ≤ k := by
          rw [List.length_dropLast]
          omega
        rw [List.replicate_succ, List.flatten_cons, List.append_assoc]
        exact (hup _).trans (ih _ rest hshort)
  have hdot : ∀ more : CStr, pathSegments 63 ('.' :: '/' :: more) [] [] =
      pathSegments 63 more [] [] := fun more => by
    simp [pathSegments, endSegment]
  have hslashes : List.replicate slashes '/' ++ '/' :: tail =
      '/' :: (List.replicate slashes '/' ++ tail) := by
    rw [← List.singleton_append, ← List.append_assoc, ← List.replicate_succ']
    rfl
  rw [climbPath, List.append_assoc, hdots pathMaxSegs segs _ hfew, List.cons_append, hslashes,
    hdot, pathSegments_slashes]

/-- Where a working directory can be left: the directory scans, and the result has room. -/
theorem resolve_cut {cwd path : CStr} {segs : List CStr} {cap slashes : Nat} (hcap : 2 ≤ cap)
    (hcwd : cwd.length < procCwdLen) (hsegs : pathSegments 63 cwd [] [] = some segs)
    (hpath : path = climbPath slashes ++ '/' :: ['x'])
    (hlong : procCombinedMax < cwd.length + (combineSlash cwd path).length + path.length) :
    procResolvePath cwd path cap = some ['/'] ∧
      joinSegments (stackEval ((cwd ++ '/' :: path).splitOn '/')) = ['/', 'x'] := by
  have hslash := combineSlash_length cwd path
  have hlen : procCwdLen = 128 := rfl
  have hmax : procCombinedMax = 254 := rfl
  obtain ⟨hscans, rfl⟩ := pathSegments_some.mp hsegs
  have hfew : (stackEval (cwd.splitOn '/')).length ≤ pathMaxSegs := by
    have hlast := hscans.2 (cwd.splitOn '/').length
    rw [List.take_length] at hlast
    exact hlast
  have hne : path ≠ [] := by
    rw [hpath]
    simp
  constructor
  · have hrel : path.head? ≠ some '/' := by
      rw [hpath]
      simp [climbPath, pathMaxSegs, List.replicate_succ]
    unfold procResolvePath
    rw [if_neg (by omega), if_neg hrel, combinePath_eq hcwd]
    -- What is copied ends among the slashes.
    obtain ⟨kept, hkept⟩ : ∃ kept, path.take
        (procCombinedMax - (cwd.length + (combineSlash cwd path).length)) =
          climbPath kept ++ '/' :: [] := by
      have hclimb := climbPath_length (slashes + 1)
      have hlength : path.length = slashes + 51 := by
        rw [hpath, climbPath_slash, List.length_append, hclimb, List.length_singleton]
      refine ⟨procCombinedMax - (cwd.length + (combineSlash cwd path).length) - 50, ?_⟩
      rw [climbPath_slash, List.append_nil]
      generalize (combineSlash cwd path).length = len at hslash hlong ⊢
      rw [hpath, climbPath_slash, List.take_append_of_le_length (by omega),
        climbPath_take (by omega) (by omega)]
      congr 1
      omega
    rw [hkept, normalizePath, pathSegments_combine 63 cwd path _ fun h => absurd h hne, hsegs,
      Option.bind_some, pathSegments_climb hfew]
    have hroot : (joinSegments []).length < cap := by
      show 1 < cap
      omega
    exact if_pos hroot
  · have hwhole : pathSegments 63 (cwd ++ '/' :: path) [] [] =
        (pathSegments 63 cwd [] []).bind (pathSegments 63 path []) :=
      pathSegments_append 63 cwd path
    rw [hsegs, Option.bind_some, hpath, pathSegments_climb hfew] at hwhole
    obtain ⟨-, heval⟩ := pathSegments_some.mp (hwhole.trans rfl)
    rw [hpath, ← heval]
    rfl

/-- A path that was copied whole has its normalisation for a result. -/
theorem resolve_whole {cwd path out : CStr} {cap : Nat} (hcwd : cwd.length < procCwdLen)
    (hrel : path.head? ≠ some '/')
    (hfits : cwd.length + (combineSlash cwd path).length + path.length ≤ procCombinedMax)
    (h : procResolvePath cwd path cap = some out) :
    out = joinSegments (stackEval ((cwd ++ '/' :: path).splitOn '/')) := by
  unfold procResolvePath at h
  by_cases hcap : cap < 2
  · rw [if_pos hcap] at h
    exact absurd h (by simp)
  · rw [if_neg hcap, if_neg hrel, combinePath_eq hcwd, List.take_of_length_le (by omega)] at h
    have hjoined : pathSegments 63 (cwd ++ '/' :: path) [] [] =
        (pathSegments 63 cwd [] []).bind (pathSegments 63 path []) :=
      pathSegments_append 63 cwd path
    rw [← pathSegments_combine 63 cwd path path id] at hjoined
    unfold normalizePath at h
    rw [← hjoined] at h
    exact (normalizePath_some.mp h).2.1

/--
**When no path of a length is cut off.**  Every relative path of `n` characters that resolves has
the normalisation of the whole path for a result, if and only if nothing resolves here at all, or
the working directory, a slash and `n` characters fit into the buffer.
-/
theorem resolve_path_whole_iff {cwd : CStr} (hcwd : cwd.length < procCwdLen) (cap n : Nat) :
    (∀ path : CStr, path.head? ≠ some '/' → path.length = n →
        ∀ out, procResolvePath cwd path cap = some out →
          out = joinSegments (stackEval ((cwd ++ '/' :: path).splitOn '/'))) ↔
      cap < 2 ∨ pathSegments 63 cwd [] [] = none ∨
        cwd.length + (if cwd = [] ∨ cwd.getLast? = some '/' then 0 else 1) + n ≤
          procCombinedMax := by
  have hlen : procCwdLen = 128 := rfl
  have hmax : procCombinedMax = 254 := rfl
  constructor
  · intro hall
    by_contra hnot
    rw [not_or, not_or, not_lt, not_le] at hnot
    obtain ⟨hcap, hscans, hlong⟩ := hnot
    obtain ⟨segs, hsegs⟩ := Option.ne_none_iff_exists'.mp hscans
    have hsep : (if cwd = [] ∨ cwd.getLast? = some '/' then 0 else 1) ≤ 1 := by
      split <;> omega
    obtain ⟨path, hpath⟩ : ∃ path, path = climbPath (n - 51) ++ '/' :: ['x'] := ⟨_, rfl⟩
    have hlength : path.length = n := by
      rw [hpath, climbPath_slash, List.length_append, climbPath_length, List.length_singleton]
      omega
    have hne : path ≠ [] := by
      rw [hpath]
      simp
    have hslash : (combineSlash cwd path).length =
        if cwd = [] ∨ cwd.getLast? = some '/' then 0 else 1 := by
      unfold combineSlash
      by_cases hskip : cwd = [] ∨ cwd.getLast? = some '/'
      · rw [if_pos hskip, if_neg fun h => hskip.elim h.1 h.2.1]
        rfl
      · rw [not_or] at hskip
        rw [if_pos ⟨hskip.1, hskip.2, hne⟩, if_neg fun h => h.elim hskip.1 hskip.2]
        rfl
    obtain ⟨hres, htrue⟩ := resolve_cut hcap hcwd hsegs hpath (by rw [hslash, hlength]; exact hlong)
    have hrel : path.head? ≠ some '/' := by
      rw [hpath]
      simp [climbPath, pathMaxSegs, List.replicate_succ]
    have heq := hall path hrel hlength _ hres
    rw [htrue] at heq
    simp at heq
  · intro hor path hrel hlength out h
    rcases hor with hcap | hnone | hfits
    · unfold procResolvePath at h
      rw [if_pos hcap] at h
      exact absurd h (by simp)
    · unfold procResolvePath at h
      by_cases hcap : cap < 2
      · rw [if_pos hcap] at h
        exact absurd h (by simp)
      · rw [if_neg hcap, if_neg hrel, combinePath_eq hcwd, normalizePath,
          pathSegments_combine 63 cwd path _ fun hnil => by rw [hnil]; exact List.take_nil,
          hnone] at h
        exact absurd h (by simp)
    · refine resolve_whole hcwd hrel ?_ h
      rw [hlength]
      refine le_trans (Nat.add_le_add_right (Nat.add_le_add_left ?_ _) _) hfits
      unfold combineSlash
      split
      · rename_i hslash
        rw [if_neg fun h => h.elim hslash.1 hslash.2.1]
        rfl
      · exact Nat.zero_le _

/-- In `/home` a path of five characters is safe. -/
theorem resolve_path_whole_home :
    procResolvePath ['/', 'h', 'o', 'm', 'e'] ['.', '.', '/', 'e', 'x'] 256 =
        some ['/', 'e', 'x'] ∧
      ['/', 'e', 'x'] = joinSegments
        (stackEval ((['/', 'h', 'o', 'm', 'e'] ++ '/' :: ['.', '.', '/', 'e', 'x']).splitOn '/')) := by
  have hout : procResolvePath ['/', 'h', 'o', 'm', 'e'] ['.', '.', '/', 'e', 'x'] 256 =
      some ['/', 'e', 'x'] := by rfl
  have hsafe := (resolve_path_whole_iff
    (show ['/', 'h', 'o', 'm', 'e'].length < procCwdLen by decide) 256 5).mpr (.inr (.inr (by decide)))
  exact ⟨hout, hsafe _ (by decide) rfl _ hout⟩

/-- The last segment is behind the end of the buffer, and the root is the result. -/
theorem resolve_path_cut :
    procResolvePath ['/'] (climbPath 300 ++ '/' :: ['x']) 256 = some ['/'] ∧
      joinSegments (stackEval ((['/'] ++ '/' :: (climbPath 300 ++ '/' :: ['x'])).splitOn '/')) =
        ['/', 'x'] := by
  refine resolve_cut (by decide) (by decide) (show pathSegments 63 ['/'] [] [] = some [] by decide) rfl ?_
  have hlength := climbPath_length 301
  have hmax : procCombinedMax = 254 := rfl
  rw [climbPath_slash, List.length_append, hlength]
  simp only [List.length_singleton]
  omega

end BrightS
