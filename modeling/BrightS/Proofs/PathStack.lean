/-
Normalisation as the evaluation of a stack.

The scan and its limits are one thing, the path they compute another: `stackEval` goes through
the segments between the slashes without any limit.  `normalizePath_eq` says that the scan
succeeds within its limits and then has the result of the evaluation.  So all copies of the scan
agree where they succeed, a result is its own normalisation, and what a scan makes of a relative
path depends on the whole path only if the whole path was in the buffer.
-/
import BrightS.Kernel.Ramfs
import BrightS.Kernel.Resolve
import BrightS.Kernel.Vfs2
import BrightS.Proofs.Path

namespace BrightS

/-! ### The stack -/

/-- One segment: empty ones and dots are skipped, and double dots remove the last one, if any. -/
def stackStep (stack : List CStr) (seg : CStr) : List CStr :=
  if seg = [] ∨ seg = ['.'] then stack
  else if seg = ['.', '.'] then stack.dropLast
  else stack ++ [seg]

def stackEval (segs : List CStr) : List CStr := segs.foldl stackStep []

/-- The stack is never higher than the scan has room for. -/
def StackFits (stack segs : List CStr) : Prop :=
  ∀ k, ((segs.take k).foldl stackStep stack).length ≤ pathMaxSegs

theorem stackFits_nil {stack : List CStr} (h : stack.length ≤ pathMaxSegs) : StackFits stack [] :=
  fun k => by
    rw [List.take_nil]
    exact h

theorem stackFits_cons {stack segs : List CStr} {seg : CStr} (h : stack.length ≤ pathMaxSegs) :
    StackFits stack (seg :: segs) ↔ StackFits (stackStep stack seg) segs := by
  constructor
  · intro hfits k
    have hk := hfits (k + 1)
    rw [List.take_succ_cons, List.foldl_cons] at hk
    exact hk
  · intro hfits k
    cases k with
    | zero => exact h
    | succ k =>
        rw [List.take_succ_cons, List.foldl_cons]
        exact hfits k

/-- Ending a segment is a step of the stack, if there is room for it. -/
theorem endSegment_eq {stack : List CStr} {seg : CStr} (hne : seg ≠ [])
    (h : stack.length ≤ pathMaxSegs) :
    endSegment stack seg =
      if (stackStep stack seg).length ≤ pathMaxSegs then some (stackStep stack seg) else none := by
  unfold endSegment
  by_cases hdot : seg = ['.']
  · have hstep : stackStep stack seg = stack := if_pos (.inr hdot)
    rw [if_pos hdot, hstep, if_pos h]
  have hstep : stackStep stack seg =
      if seg = ['.', '.'] then stack.dropLast else stack ++ [seg] :=
    if_neg fun hor => hor.elim hne hdot
  rw [if_neg hdot, hstep]
  by_cases hdots : seg = ['.', '.']
  · have hpop : stack.dropLast.length ≤ pathMaxSegs := by
      rw [List.length_dropLast]
      omega
    rw [if_pos hdots, if_pos hdots, if_pos hpop]
  · rw [if_neg hdots, if_neg hdots, List.length_append, List.length_singleton]
    by_cases hfull : pathMaxSegs ≤ stack.length
    · rw [if_pos hfull, if_neg (by omega)]
    · rw [if_neg hfull, if_pos (by omega)]

/-- Whether all segments are short enough and the stack is never too high. -/
def Scans (segMax : Nat) (stack segs : List CStr) : Prop :=
  (∀ seg ∈ segs, seg.length ≤ segMax) ∧ StackFits stack segs

open Classical in
/-- **The scan evaluates the segments**, the open one first. -/
theorem pathSegments_eq (segMax : Nat) (path : CStr) :
    ∀ {seg : CStr} {stack : List CStr}, seg.length ≤ segMax → stack.length ≤ pathMaxSegs →
      pathSegments segMax path seg stack =
        if Scans segMax stack ((path.splitOn '/').modifyHead (seg ++ ·)) then
          some (((path.splitOn '/').modifyHead (seg ++ ·)).foldl stackStep stack)
        else none := by
  induction path with
  | nil =>
      intro seg stack hseg hstack
      rw [pathSegments, List.splitOn_nil, List.modifyHead_cons, List.append_nil, List.foldl_cons,
        List.foldl_nil]
      by_cases hne : seg = []
      · have hscans : Scans segMax stack [seg] := by
          refine ⟨fun s hs => by rw [List.mem_singleton.mp hs]; exact hseg, ?_⟩
          rw [stackFits_cons hstack, hne]
          exact stackFits_nil hstack
        rw [if_pos hne, if_pos hscans, hne]
        rfl
      · rw [if_neg hne, endSegment_eq hne hstack]
        refine if_congr ?_ rfl rfl
        rw [Scans, stackFits_cons hstack]
        constructor
        · intro hle
          exact ⟨fun s hs => by rw [List.mem_singleton.mp hs]; exact hseg, stackFits_nil hle⟩
        · intro hscans
          exact hscans.2 0
  | cons c rest ih =>
      intro seg stack hseg hstack
      rw [pathSegments, List.splitOn_cons_eq_if_modifyHead]
      by_cases hc : c = '/'
      · have hsplit : (c == '/') = true := by
          rw [hc]
          rfl
        rw [if_pos hc, if_pos hsplit, List.modifyHead_cons, List.append_nil]
        have hcons : Scans segMax stack (seg :: rest.splitOn '/') ↔
            Scans segMax (stackStep stack seg) (rest.splitOn '/') := by
          rw [Scans, Scans, stackFits_cons hstack, List.forall_mem_cons, and_iff_right hseg]
        have hid : ∀ l : List CStr, l.modifyHead ([] ++ ·) = l := fun l => by
          cases l <;> rfl
        by_cases hne : seg = []
        · rw [if_pos hne, ih (by simp) hstack, hid]
          have hskip : stackStep stack seg = stack := if_pos (.inl hne)
          rw [hskip] at hcons
          rw [List.foldl_cons, hskip]
          exact if_congr hcons.symm rfl rfl
        · rw [if_neg hne, endSegment_eq hne hstack]
          by_cases hfits : (stackStep stack seg).length ≤ pathMaxSegs
          · rw [if_pos hfits, Option.bind_some, ih (by simp) hfits, hid, List.foldl_cons]
            exact if_congr hcons.symm rfl rfl
          · rw [if_neg hfits, Option.bind_none, if_neg]
            intro hscans
            exact hfits ((hcons.mp hscans).2 0)
      · have hsplit : ¬ (c == '/') = true := by simpa using hc
        rw [if_neg hc, if_neg hsplit, List.modifyHead_modifyHead]
        have hcompose : ((fun x : CStr => seg ++ x) ∘ fun x => c :: x) =
            fun x => (seg ++ [c]) ++ x := by
          funext x
          simp
        by_cases hlong : segMax ≤ seg.length
        · rw [if_pos hlong, if_neg]
          rintro ⟨hshort, -⟩
          rw [hcompose] at hshort
          cases hsplit : rest.splitOn '/' with
          | nil => exact List.splitOn_ne_nil '/' rest hsplit
          | cons first others =>
              rw [hsplit, List.modifyHead_cons] at hshort
              have hfirst := hshort _ (List.mem_cons_self ..)
              simp only [List.length_append, List.length_singleton] at hfirst
              omega
        · rw [if_neg hlong, ih (by simp; omega) hstack, hcompose]

/-- A scan that succeeds was within its limits and evaluates the segments. -/
theorem pathSegments_some {segMax : Nat} {path : CStr} {segs : List CStr} :
    pathSegments segMax path [] [] = some segs ↔
      Scans segMax [] (path.splitOn '/') ∧ segs = stackEval (path.splitOn '/') := by
  have hid : (path.splitOn '/').modifyHead ([] ++ ·) = path.splitOn '/' := by
    cases path.splitOn '/' <;> rfl
  rw [pathSegments_eq segMax path (Nat.zero_le _) (Nat.zero_le _), hid]
  by_cases hscans : Scans segMax [] (path.splitOn '/')
  · rw [if_pos hscans, and_iff_right hscans, Option.some.injEq]
    exact eq_comm
  · rw [if_neg hscans]
    exact ⟨fun h => absurd h (by simp), fun h => absurd h.1 hscans⟩

theorem normalizePath_some {segMax cap : Nat} {path out : CStr} :
    normalizePath segMax cap path = some out ↔
      Scans segMax [] (path.splitOn '/') ∧
        out = joinSegments (stackEval (path.splitOn '/')) ∧ out.length < cap := by
  unfold normalizePath
  rw [Option.bind_eq_some_iff]
  constructor
  · rintro ⟨segs, hsegs, hjoin⟩
    obtain ⟨hscans, rfl⟩ := pathSegments_some.mp hsegs
    by_cases hfit : (joinSegments (stackEval (path.splitOn '/'))).length < cap
    · rw [if_pos hfit, Option.some.injEq] at hjoin
      exact ⟨hscans, hjoin.symm, hjoin ▸ hfit⟩
    · rw [if_neg hfit] at hjoin
      exact absurd hjoin (by simp)
  · rintro ⟨hscans, rfl, hfit⟩
    exact ⟨_, pathSegments_some.mpr ⟨hscans, rfl⟩, if_pos hfit⟩

/-! ### Paths that are normalised -/

/-- Nothing canonical ends with a slash. -/
theorem CanonicalName.no_trailing {front : CStr} : ¬ CanonicalName (front ++ ['/']) := by
  rintro ⟨rest, hrest, hsegs⟩
  refine (hsegs [] ?_).1 rfl
  cases front with
  | nil =>
      obtain rfl : [] = rest := (List.cons.inj hrest).2
      simp
  | cons c front =>
      have hrest : front ++ ['/'] = rest := (List.cons.inj hrest).2
      rw [← hrest, List.splitOn_append_cons_self]
      simp

theorem stackEval_good {segs : List CStr} (hgood : ∀ s ∈ segs, GoodSegment s) (stack : List CStr) :
    segs.foldl stackStep stack = stack ++ segs := by
  induction segs generalizing stack with
  | nil => exact (List.append_nil stack).symm
  | cons seg rest ih =>
      have hseg := hgood seg (by simp)
      have hstep : stackStep stack seg = stack ++ [seg] := by
        unfold stackStep
        rw [if_neg fun hor => hor.elim hseg.nonempty hseg.notDot, if_neg hseg.notDotDot]
      rw [List.foldl_cons, hstep, ih fun s hs => hgood s (by simp [hs]), List.append_assoc]
      rfl

theorem mem_foldl_stackStep {segs stack : List CStr} {seg : CStr}
    (h : seg ∈ segs.foldl stackStep stack) : seg ∈ stack ∨ seg ∈ segs := by
  induction segs generalizing stack with
  | nil => exact .inl h
  | cons a rest ih =>
      rcases ih h with hin | hin
      · unfold stackStep at hin
        split_ifs at hin
        · exact .inl hin
        · exact .inl (List.mem_of_mem_dropLast hin)
        · rcases List.mem_append.mp hin with hin | hin
          · exact .inl hin
          · exact .inr (by simp [List.mem_singleton.mp hin])
      · exact .inr (List.mem_cons_of_mem _ hin)

/-- The segments of a joined path are what was joined, behind an empty one. -/
theorem splitOn_joinSegments {segs : List CStr} (hgood : ∀ s ∈ segs, GoodSegment s) :
    (joinSegments segs).splitOn '/' = [] :: if segs = [] then [[]] else segs := by
  rw [joinSegments, List.splitOn_cons_eq_if_modifyHead, if_pos (show ('/' == '/') = true from rfl)]
  split
  · rename_i hnil
    rw [hnil]
    rfl
  · rename_i hne
    rw [List.splitOn_intercalate '/' (fun s hs => (hgood s hs).noSlash) hne]

/-- A joined path evaluates to what was joined. -/
theorem scans_joinSegments {segMax : Nat} {segs : List CStr} (hgood : ∀ s ∈ segs, GoodSegment s)
    (hshort : ∀ s ∈ segs, s.length ≤ segMax) (hfew : segs.length ≤ pathMaxSegs) :
    Scans segMax [] ((joinSegments segs).splitOn '/') ∧
      stackEval ((joinSegments segs).splitOn '/') = segs := by
  have hempty : stackStep [] [] = [] := if_pos (.inl rfl)
  rw [splitOn_joinSegments hgood, Scans, stackEval, stackFits_cons (Nat.zero_le _), List.foldl_cons,
    hempty, List.forall_mem_cons]
  by_cases hnil : segs = []
  · rw [if_pos hnil, hnil]
    refine ⟨⟨⟨Nat.zero_le _, by simp⟩, ?_⟩, rfl⟩
    rw [stackFits_cons (Nat.zero_le _), hempty]
    exact stackFits_nil (Nat.zero_le _)
  · rw [if_neg hnil]
    refine ⟨⟨⟨Nat.zero_le _, hshort⟩, fun k => ?_⟩, stackEval_good hgood []⟩
    rw [stackEval_good fun s hs => hgood s (List.mem_of_mem_take hs), List.nil_append,
      List.length_take]
    omega

theorem normalizePath_segments {segMax cap : Nat} {path out : CStr}
    (h : normalizePath segMax cap path = some out) :
    ∃ segs, out = joinSegments segs ∧ segs = stackEval (path.splitOn '/') ∧
      (∀ s ∈ segs, GoodSegment s) ∧ (∀ s ∈ segs, s.length ≤ segMax) ∧
      segs.length ≤ pathMaxSegs ∧ out.length < cap := by
  obtain ⟨hscans, hout, hfit⟩ := normalizePath_some.mp h
  have hsegs := pathSegments_some.mpr ⟨hscans, rfl⟩
  refine ⟨_, hout, rfl, pathSegments_good segMax path (by simp) (by simp) hsegs, fun s hs => ?_,
    ?_, hfit⟩
  · rcases mem_foldl_stackStep hs with hin | hin
    · simp at hin
    · exact hscans.1 s hin
  · have hlast := hscans.2 (path.splitOn '/').length
    rw [List.take_length] at hlast
    exact hlast

/-- What a scan makes of a path, another one with room for it leaves as it is. -/
theorem normalizePath_again {segMax cap segMax' cap' : Nat} {path out : CStr}
    (h : normalizePath segMax cap path = some out) (hseg : segMax ≤ segMax')
    (hcap : out.length < cap') : normalizePath segMax' cap' out = some out := by
  obtain ⟨segs, rfl, -, hgood, hshort, hfew, -⟩ := normalizePath_segments h
  obtain ⟨hscans, heval⟩ :=
    scans_joinSegments hgood (fun s hs => (hshort s hs).trans hseg) hfew
  exact normalizePath_some.mpr ⟨hscans, by rw [heval], hcap⟩

/--
**Normalisation is canonical.**  What it returns is the root or has proper segments only, is the
stack of the segments, and is its own normalisation; it is refused exactly if a segment has
`ramfsMaxName` characters or more, the stack would be too high or the result does not fit.
-/
theorem normalize_path_canonical (path : CStr) (cap : Nat) :
    (∀ out, normalizePath (ramfsMaxName - 1) cap path = some out →
        (out = ['/'] ∨ CanonicalName out) ∧
          out = joinSegments (stackEval (path.splitOn '/')) ∧
          normalizePath (ramfsMaxName - 1) cap out = some out) ∧
      (normalizePath (ramfsMaxName - 1) cap path = none ↔
        (∃ seg ∈ path.splitOn '/', ramfsMaxName ≤ seg.length) ∨
          (∃ k, pathMaxSegs < (stackEval ((path.splitOn '/').take k)).length) ∨
          cap ≤ (joinSegments (stackEval (path.splitOn '/'))).length) := by
  refine ⟨fun out h => ?_, ?_⟩
  · obtain ⟨hcanonical, hfit⟩ := normalizePath_canonical h
    obtain ⟨-, hout, -⟩ := normalizePath_some.mp h
    exact ⟨hcanonical, hout, normalizePath_again h (le_refl _) hfit⟩
  · have hmax : ramfsMaxName = 128 := rfl
    rw [← Option.not_isSome_iff_eq_none, Option.isSome_iff_exists]
    constructor
    · intro hnone
      by_contra hall
      rw [not_or, not_or] at hall
      obtain ⟨hshort, hfits, hcap⟩ := hall
      refine hnone ⟨_, normalizePath_some.mpr ⟨⟨fun seg hseg => ?_, fun k => ?_⟩, rfl, by omega⟩⟩
      · by_contra hlong
        exact hshort ⟨seg, hseg, by omega⟩
      · by_contra hhigh
        exact hfits ⟨k, not_le.mp hhigh⟩
    · rintro hor ⟨out, h⟩
      obtain ⟨⟨hshort, hfits⟩, rfl, hcap⟩ := normalizePath_some.mp h
      rcases hor with ⟨seg, hseg, hlong⟩ | ⟨k, hhigh⟩ | hbig
      · have := hshort seg hseg
        omega
      · exact absurd (hfits k) (not_le.mpr hhigh)
      · omega

/-! ### The copies of the scan -/

/-- Two scans that both succeed have the same result, whatever their limits. -/
theorem normalizePath_agree {segMax cap segMax' cap' : Nat} {path out out' : CStr}
    (h : normalizePath segMax cap path = some out)
    (h' : normalizePath segMax' cap' path = some out') : out = out' := by
  rw [(normalizePath_some.mp h).2.1, (normalizePath_some.mp h').2.1]

/-- What the four normalisers make of a path; the one of a process only if it is absolute. -/
def normalizers (cwd path : CStr) (cap cap' : Nat) : List (Option CStr) :=
  [ramfsNormalize (some path), vfsNormalize path,
    if path.head? = some '/' then procResolvePath cwd path cap else none,
    lightshellNormalize path cap']

theorem normalizers_some {cwd path out : CStr} {cap cap' : Nat}
    (h : some out ∈ normalizers cwd path cap cap') :
    ∃ segMax cap₁, normalizePath segMax cap₁ path = some out := by
  simp only [normalizers, List.mem_cons, List.not_mem_nil, or_false] at h
  rcases h with h | h | h | h
  · exact ⟨_, _, h.symm⟩
  · exact ⟨_, _, h.symm⟩
  · split at h
    · rename_i habs
      unfold procResolvePath at h
      rw [if_pos habs] at h
      split at h
      · exact absurd h (by simp)
      · exact ⟨_, _, h.symm⟩
    · exact absurd h (by simp)
  · exact ⟨_, _, h.symm⟩

/--
**The normalisers agree.**  Those that succeed on a path have the same result; and a system call
that resolves an absolute path, normalises it for the file systems and then in the ramfs comes to
what the ramfs alone makes of it.
-/
theorem normalizers_agree (cwd path : CStr) (cap cap' : Nat) :
    (∀ a b, some a ∈ normalizers cwd path cap cap' → some b ∈ normalizers cwd path cap cap' →
        a = b) ∧
      (path.head? = some '/' → ∀ a b c, procResolvePath cwd path cap = some a →
        vfsNormalize a = some b → ramfsNormalize (some b) = some c →
          ramfsNormalize (some path) = some c) := by
  refine ⟨fun a b ha hb => ?_, fun habs a b c ha hb hc => ?_⟩
  · obtain ⟨segMax, cap₁, ha⟩ := normalizers_some ha
    obtain ⟨segMax', cap₂, hb⟩ := normalizers_some hb
    exact normalizePath_agree ha hb
  · unfold procResolvePath at ha
    rw [if_pos habs] at ha
    split at ha
    · exact absurd ha (by simp)
    · have hc : normalizePath (ramfsMaxName - 1) ramfsMaxName b = some c := hc
      -- Each stage after the first one leaves the path as it is.
      have hfit := (normalizePath_canonical hb).2
      have hab : a = b := by
        have hsame := normalizePath_again ha (le_refl 63) (lt_add_one a.length)
        exact normalizePath_agree hsame hb
      have hbc : b = c := by
        have hsame := normalizePath_again hb (le_refl 63) (lt_add_one b.length)
        exact normalizePath_agree hsame hc
      obtain ⟨hscans, hout, -⟩ := normalizePath_some.mp ha
      have hlast := (normalizePath_canonical hc).2
      refine normalizePath_some.mpr ⟨⟨fun seg hseg => ?_, hscans.2⟩, by rw [← hbc, ← hab, hout], hlast⟩
      exact (hscans.1 seg hseg).trans (by decide)

end BrightS
