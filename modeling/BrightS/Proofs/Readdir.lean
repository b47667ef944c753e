/-
What listing a directory shows.

The listing goes through the table up to the number of entries that are in use, so it is the lines
of the children with small numbers (`vfs2ReaddirRamfs_dir`).  It is all of them exactly if no
deletion has left a hole before one.  The root has no entry, and opening it is refused.
-/
import BrightS.Kernel.Readdir
import BrightS.Proofs.PathStack
import BrightS.Proofs.RamfsVfs

namespace BrightS

open Runs

variable {T : Type}

/-- Entry `i` is directly below the directory, and this is its line. -/
def Ramfs.Child (fs : Ramfs) (dirName : CStr) (i : Nat) (line : CStr) : Prop :=
  i < ramfsMaxFiles ∧ (fs i).inUse = true ∧ ∃ base, '/' ∉ base ∧
    (fs i).name = (if dirName = ['/'] then [] else dirName) ++ '/' :: base ∧
    line = base ++ if (fs i).isDir then ['/'] else []

/-- One line after the other. -/
def joinLines (lines : List CStr) : CStr := ['\n'].intercalate lines

/-- The lines of the children, each once. -/
def ListsExactly (fs : Ramfs) (dirName : CStr) (r : Int × CStr) : Prop :=
  ∃ lines : List CStr, lines.Nodup ∧ (∀ line, line ∈ lines ↔ ∃ i, fs.Child dirName i line) ∧
    r = (((joinLines lines).length : Int), joinLines lines)

/-- More than all names and two more characters for each take. -/
def ListingFits (fs : Ramfs) (bufSize : Nat) : Prop :=
  ((((List.range ramfsMaxFiles).map fun i => (fs i).name.length + 2).sum : Nat) : Int) <
    toFd bufSize

/-! ### Lines -/

/-- The room that lines take, each with its separator. -/
def linesSize (lines : List CStr) : Nat := (lines.map fun line => line.length + 1).sum

theorem linesSize_append (l r : List CStr) : linesSize (l ++ r) = linesSize l + linesSize r := by
  simp [linesSize]

theorem linesSize_singleton (line : CStr) : linesSize [line] = line.length + 1 := by
  simp [linesSize]

theorem linesSize_mem {lines : List CStr} {line : CStr} (h : line ∈ lines) :
    line.length + 1 ≤ linesSize lines := by
  obtain ⟨before, behind, rfl⟩ := List.append_of_mem h
  rw [linesSize_append, ← List.singleton_append, linesSize_append, linesSize_singleton]
  omega

theorem length_joinLines (lines : List CStr) : (joinLines lines).length = linesSize lines - 1 := by
  induction lines with
  | nil => rfl
  | cons line rest ih =>
      cases rest with
      | nil => simp [joinLines, linesSize]
      | cons line' rest =>
          unfold joinLines at ih ⊢
          rw [List.intercalate_cons_cons]
          simp only [linesSize, List.map_cons, List.sum_cons, List.length_append] at ih ⊢
          rw [ih]
          simp
          omega

theorem joinLines_append {lines : List CStr} (hne : ∀ line ∈ lines, line ≠ []) (line : CStr) :
    joinLines (lines ++ [line]) =
      joinLines lines ++ (if joinLines lines = [] then [] else ['\n']) ++ line := by
  induction lines with
  | nil => simp [joinLines]
  | cons first rest ih =>
      have hfirst : first ≠ [] := hne first List.mem_cons_self
      cases rest with
      | nil => simp [joinLines, List.intercalate_cons_cons, hfirst]
      | cons second rest =>
          have hrest := ih fun l hl => hne l (List.mem_cons_of_mem _ hl)
          have hsecond : joinLines (second :: rest) ≠ [] := by
            have hlen := length_joinLines (second :: rest)
            have hsize : 2 ≤ linesSize (second :: rest) := by
              have := List.length_pos_iff.mpr (hne second (by simp))
              simp only [linesSize, List.map_cons, List.sum_cons]
              omega
            intro hnil
            rw [hnil, List.length_nil] at hlen
            omega
          rw [if_neg hsecond] at hrest
          have hcons : ∀ l, joinLines (first :: second :: l) =
              first ++ ['\n'] ++ joinLines (second :: l) := fun _ => List.intercalate_cons_cons
          rw [List.cons_append, List.cons_append, hcons, ← List.cons_append, hrest, hcons,
            if_neg (by simp [hfirst])]
          simp

/-! ### Children -/

section Children

variable {fs : Ramfs} {dirName name base : CStr} {i : Nat}

theorem lastBase_noSlash (hbase : '/' ∉ name) : lastBase name base = base := by
  induction name generalizing base with
  | nil => rfl
  | cons c rest ih =>
      rw [List.mem_cons, not_or] at hbase
      rw [lastBase, if_neg fun hc => hbase.1 hc.symm, ih hbase.2]

theorem lastBase_child (hbase : '/' ∉ base) :
    lastBase ((dirName ++ '/' :: base).drop dirName.length) (dirName ++ '/' :: base) = base := by
  rw [List.drop_left, lastBase, if_pos rfl, lastBase_noSlash hbase]

theorem isDirectChild_iff (hroot : dirName ≠ ['/']) :
    isDirectChild dirName name = true ↔ ∃ base, '/' ∉ base ∧ name = dirName ++ '/' :: base := by
  unfold isDirectChild
  rw [if_neg hroot, Bool.and_eq_true, Bool.and_eq_true, List.isPrefixOf_iff_prefix]
  constructor
  · rintro ⟨⟨⟨rest, rfl⟩, hslash⟩, hno⟩
    cases rest with
    | nil => simp at hslash
    | cons c base =>
        obtain rfl : c = '/' := by simpa using hslash
        have hdrop : (dirName ++ '/' :: base).drop (dirName.length + 1) = base := by
          rw [← List.drop_drop, List.drop_left]
          rfl
        rw [hdrop] at hno
        exact ⟨base, by simpa using hno, rfl⟩
  · rintro ⟨base, hbase, rfl⟩
    have hdrop : (dirName ++ '/' :: base).drop (dirName.length + 1) = base := by
      rw [← List.drop_drop, List.drop_left]
      rfl
    rw [hdrop]
    exact ⟨⟨List.prefix_append .., by simp⟩, by simpa using hbase⟩

/-- What the loop writes for an entry, if anything. -/
def listedLine (fs : Ramfs) (dirName : CStr) (i : Nat) : Option CStr :=
  (ramfsNameAt fs i).bind fun name =>
    if isDirectChild dirName name = false then none else
    some (lastBase (name.drop dirName.length) name ++ if ramfsIsDirFd fs i then ['/'] else [])

theorem listedLine_iff (hroot : dirName ≠ ['/']) (line : CStr) :
    listedLine fs dirName i = some line ↔ fs.Child dirName i line := by
  unfold listedLine Ramfs.Child
  rw [if_neg hroot]
  by_cases hi : i < ramfsMaxFiles ∧ (fs i).inUse = true
  · obtain ⟨hi, huse⟩ := hi
    have hat : ramfsNameAt fs i = some (fs i).name := by simp [ramfsNameAt, huse, hi]
    rw [hat, Option.bind_some, and_iff_right hi, and_iff_right huse, ramfsIsDirFd_eq hi huse]
    by_cases hchild : isDirectChild dirName (fs i).name = true
    · obtain ⟨base, hbase, hname⟩ := (isDirectChild_iff hroot).mp hchild
      rw [if_neg (by simp [hchild]), hname, lastBase_child hbase, Option.some_inj]
      constructor
      · rintro rfl
        exact ⟨base, hbase, rfl, rfl⟩
      · rintro ⟨base', -, hsame, rfl⟩
        rw [(List.cons.inj (List.append_cancel_left hsame)).2]
    · rw [if_pos (by simpa using hchild)]
      refine iff_of_false (by simp) ?_
      rintro ⟨base, hbase, hname, -⟩
      exact hchild ((isDirectChild_iff hroot).mpr ⟨base, hbase, hname⟩)
  · have hat : ramfsNameAt fs i = none := by
      unfold ramfsNameAt
      rw [if_pos]
      by_contra hgood
      rw [not_or, Bool.not_eq_false] at hgood
      exact hi ⟨by omega, hgood.2⟩
    rw [hat]
    exact iff_of_false (by simp) fun h => hi ⟨h.1, h.2.1⟩

/-- Two children are never on the same line. -/
theorem Ramfs.Child.unique (htree : RamfsTree fs) {j : Nat} {line : CStr}
    (hi : fs.Child dirName i line) (hj : fs.Child dirName j line) : i = j := by
  obtain ⟨hi, hui, base, hbase, hname, hline⟩ := hi
  obtain ⟨hj, huj, base', hbase', hname', hline'⟩ := hj
  have hsame : base = base' := by
    have hcut : ∀ {b : CStr} (d : Bool), '/' ∉ b → (b ++ if d then ['/'] else []).takeWhile
        (· ≠ '/') = b := by
      intro b d hb
      rw [List.takeWhile_append_of_pos fun c hc => by
        simpa using fun h : c = '/' => hb (h ▸ hc)]
      cases d <;> simp
    rw [← hcut (fs i).isDir hbase, ← hcut (fs j).isDir hbase', ← hline, ← hline']
  exact htree.distinct i j hi hj hui huj (by rw [hname, hname', hsame])

theorem Ramfs.Child.ne_nil (htree : RamfsTree fs) {line : CStr} (h : fs.Child dirName i line) :
    line ≠ [] := by
  obtain ⟨hi, huse, base, -, hname, rfl⟩ := h
  intro hnil
  obtain ⟨rfl, -⟩ := List.append_eq_nil_iff.mp hnil
  have hcanon := htree.canonical i hi huse
  rw [hname] at hcanon
  exact hcanon.no_trailing

theorem Ramfs.Child.length_le {line : CStr} (h : fs.Child dirName i line) :
    line.length ≤ (fs i).name.length := by
  obtain ⟨-, -, base, -, hname, rfl⟩ := h
  have hslash : (if (fs i).isDir then ['/'] else []).length ≤ 1 := by split <;> simp
  rw [hname]
  simp only [List.length_append, List.length_cons]
  omega

end Children

/-! ### The loop -/

/-- With room for all lines the loop writes them behind those it starts with. -/
theorem readdirLoop_lines {fs : Ramfs} (htree : RamfsTree fs) {dirName : CStr}
    (hroot : dirName ≠ ['/']) {bufSize : Int} (indices : List Nat) :
    ∀ {lines : List CStr} {pos : Nat}, (∀ line ∈ lines, line ≠ []) →
      (linesSize (lines ++ indices.filterMap (listedLine fs dirName)) : Int) < bufSize →
      (readdirLoop fs dirName bufSize indices (joinLines lines) pos).1 =
        joinLines (lines ++ indices.filterMap (listedLine fs dirName)) := by
  induction indices with
  | nil =>
      intro lines pos _ _
      rw [List.filterMap_nil, List.append_nil]
      rfl
  | cons i rest ih =>
      intro lines pos hne hroom
      cases hline : listedLine fs dirName i with
      | none =>
          rw [List.filterMap_cons_none hline] at hroom ⊢
          have hskip : readdirLoop fs dirName bufSize (i :: rest) (joinLines lines) pos =
              readdirLoop fs dirName bufSize rest (joinLines lines) pos := by
            unfold listedLine at hline
            rw [readdirLoop]
            cases hat : ramfsNameAt fs i with
            | none => rfl
            | some name =>
                rw [hat, Option.bind_some] at hline
                dsimp only
                by_cases hchild : isDirectChild dirName name = false
                · rw [if_pos hchild]
                · rw [if_neg hchild] at hline
                  exact absurd hline (by simp)
          rw [hskip]
          exact ih hne hroom
      | some line =>
          have hline_ne := ((listedLine_iff hroot line).mp hline).ne_nil htree
          have hsplit : lines ++ line :: rest.filterMap (listedLine fs dirName) =
              (lines ++ [line]) ++ rest.filterMap (listedLine fs dirName) := by simp
          rw [List.filterMap_cons_some hline, hsplit] at hroom ⊢
          have hne' : ∀ l ∈ lines ++ [line], l ≠ [] := by
            intro l hl
            rcases List.mem_append.mp hl with hl | hl
            · exact hne l hl
            · rw [List.mem_singleton.mp hl]
              exact hline_ne
          have hwrite : ∃ pos', readdirLoop fs dirName bufSize (i :: rest) (joinLines lines) pos =
              readdirLoop fs dirName bufSize rest (joinLines (lines ++ [line])) pos' := by
            unfold listedLine at hline
            rw [readdirLoop]
            cases hat : ramfsNameAt fs i with
            | none =>
                rw [hat] at hline
                exact absurd hline (by simp)
            | some name =>
                rw [hat, Option.bind_some] at hline
                dsimp only
                by_cases hchild : isDirectChild dirName name = false
                · rw [if_pos hchild] at hline
                  exact absurd hline (by simp)
                · rw [if_neg hchild] at hline ⊢
                  obtain rfl := Option.some.inj hline
                  have hlen := length_joinLines lines
                  rw [linesSize_append, linesSize_append, linesSize_singleton,
                    List.length_append] at hroom
                  rw [if_neg (by omega), joinLines_append hne, List.append_assoc,
                    List.append_assoc]
                  exact ⟨_, rfl⟩
          obtain ⟨pos', hwrite⟩ := hwrite
          rw [hwrite]
          exact ih hne' hroom

/-! ### The call -/

/-- The line of every entry, with its separator, is shorter than the name and two characters. -/
theorem linesSize_le {fs : Ramfs} {dirName : CStr} (hroot : dirName ≠ ['/']) (indices : List Nat) :
    linesSize (indices.filterMap (listedLine fs dirName)) ≤
      (indices.map fun i => (fs i).name.length + 2).sum := by
  induction indices with
  | nil => exact le_refl _
  | cons i rest ih =>
      rw [List.map_cons, List.sum_cons]
      cases hline : listedLine fs dirName i with
      | none =>
          rw [List.filterMap_cons_none hline]
          omega
      | some line =>
          have hle := ((listedLine_iff hroot line).mp hline).length_le
          rw [List.filterMap_cons_some hline, ← List.singleton_append, linesSize_append,
            linesSize_singleton]
          omega

theorem ramfsCount_le (fs : Ramfs) : ramfsCount fs ≤ ramfsMaxFiles := by
  unfold ramfsCount
  exact List.countP_le_length.trans_eq List.length_range

/-- What a directory of the table is listed as. -/
theorem vfs2ReaddirRamfs_dir {w : RamfsVfs T} (htree : RamfsTree w.fs) {path name : CStr}
    (hnorm : ramfsNormalize (some path) = some name) (hroot : name ≠ ['/']) {idx : Nat}
    (hidx : idx < ramfsMaxFiles) (huse : (w.fs idx).inUse = true) (hdir : (w.fs idx).isDir = true)
    (hname : (w.fs idx).name = name) {bufSize : Nat} (hbuf : ListingFits w.fs bufSize) :
    (vfs2ReaddirRamfs w (some path) bufSize).2 =
      (((joinLines ((List.range (ramfsCount w.fs)).filterMap (listedLine w.fs name))).length : Int),
        joinLines ((List.range (ramfsCount w.fs)).filterMap (listedLine w.fs name))) := by
  have hopen : ramfsOpen w.fs (some path) = some idx := by
    rw [ramfsOpen_eq hnorm hroot, htree.findName_iff]
    exact ⟨hidx, huse, hname⟩
  have hpath : path ≠ ['/'] := by
    rintro rfl
    exact hroot (Option.some.inj (hnorm.symm.trans rfl))
  have hinodes : ¬ ramfsVfsMaxInodes ≤ idx := by
    have hmax : ramfsMaxFiles = 32 := rfl
    have hsize : ramfsVfsMaxInodes = 64 := rfl
    omega
  have hisdir : ramfsIsDirFd w.fs idx = true := by rw [ramfsIsDirFd_eq hidx huse, hdir]
  have hat : ramfsNameAt w.fs idx = some name := by
    unfold ramfsNameAt
    rw [if_neg (by simp [huse, hidx]), hname]
  have hroom : (linesSize ([] ++ (List.range (ramfsCount w.fs)).filterMap
      (listedLine w.fs name)) : Int) < toFd bufSize := by
    have hle := @linesSize_le w.fs name hroot (List.range (ramfsCount w.fs))
    have hsum := ((List.range_sublist.mpr (ramfsCount_le w.fs)).map fun i =>
      (w.fs i).name.length + 2).sum_le_sum fun n _ => Nat.zero_le n
    unfold ListingFits at hbuf
    rw [List.nil_append]
    omega
  have hloop : ∀ pos, (readdirLoop w.fs name (toFd bufSize) (List.range (ramfsCount w.fs)) []
      pos).1 = joinLines ((List.range (ramfsCount w.fs)).filterMap (listedLine w.fs name)) :=
    fun pos => readdirLoop_lines htree hroot _ (by simp) hroom
  have hlookup : ramfsSbLookup w path =
      (w.setInode idx ⟨vfsIfDir, ramfsFileSize w.fs idx, idx⟩, some idx) := by
    unfold ramfsSbLookup
    rw [if_neg hpath, hopen]
    dsimp only
    rw [if_neg hinodes, hisdir]
    rfl
  unfold vfs2ReaddirRamfs ramfsSbReaddir
  dsimp only
  rw [hopen]
  dsimp only
  rw [if_neg (by simp [hisdir]), hlookup]
  unfold ramfsVfsReaddir
  dsimp only
  rw [setInode_fs, toFd_entry hidx, hisdir, if_neg (by simp), Int.toNat_natCast, hat]
  dsimp only
  have hzero : (toFd 0).toNat = 0 := rfl
  rw [hzero, List.drop_zero, hloop]

theorem vfs2ReaddirRamfs_root {w : RamfsVfs T} {path : CStr}
    (hnorm : ramfsNormalize (some path) = some ['/']) (bufSize : Nat) :
    (vfs2ReaddirRamfs w (some path) bufSize).2 = (-1, []) := by
  have hopen : ramfsOpen w.fs (some path) = none := by
    unfold ramfsOpen
    rw [hnorm]
    exact if_pos rfl
  unfold vfs2ReaddirRamfs ramfsSbReaddir
  dsimp only
  rw [hopen]

section Listed

variable {fs : Ramfs} {name : CStr}

theorem mem_listed (hroot : name ≠ ['/']) {n : Nat} {line : CStr} :
    line ∈ (List.range n).filterMap (listedLine fs name) ↔ ∃ i, i < n ∧ fs.Child name i line := by
  rw [List.mem_filterMap]
  simp only [List.mem_range, listedLine_iff hroot]

theorem nodup_listed (htree : RamfsTree fs) (hroot : name ≠ ['/']) (n : Nat) :
    ((List.range n).filterMap (listedLine fs name)).Nodup := by
  refine List.nodup_range.filterMap fun i j line hi hj => ?_
  exact ((listedLine_iff hroot line).mp hi).unique htree ((listedLine_iff hroot line).mp hj)

/-- The lines up to an entry are all of them exactly if no child comes behind. -/
theorem listsExactly_range_iff (htree : RamfsTree fs) (hroot : name ≠ ['/']) {n : Nat}
    (hn : n ≤ ramfsMaxFiles) :
    ListsExactly fs name
        (((joinLines ((List.range n).filterMap (listedLine fs name))).length : Int),
          joinLines ((List.range n).filterMap (listedLine fs name))) ↔
      ∀ i line, fs.Child name i line → i < n := by
  constructor
  · rintro ⟨lines, hnodup, hmem, heq⟩ i line hchild
    by_contra hin
    -- Listing the whole table takes the room of `lines`, and that is more.
    have hperm : lines.Perm ((List.range ramfsMaxFiles).filterMap (listedLine fs name)) := by
      refine (List.perm_ext_iff_of_nodup hnodup (nodup_listed htree hroot _)).mpr fun l => ?_
      rw [hmem, mem_listed hroot]
      constructor
      · rintro ⟨j, hj⟩
        exact ⟨j, hj.1, hj⟩
      · rintro ⟨j, -, hj⟩
        exact ⟨j, hj⟩
    have hsize : linesSize lines =
        linesSize ((List.range ramfsMaxFiles).filterMap (listedLine fs name)) :=
      (hperm.map _).sum_eq
    obtain ⟨m, hm⟩ := Nat.exists_eq_add_of_le hn
    have hsplit : (List.range ramfsMaxFiles).filterMap (listedLine fs name) =
        (List.range n).filterMap (listedLine fs name) ++
          ((List.range m).map (n + ·)).filterMap (listedLine fs name) := by
      rw [hm, List.range_add, List.filterMap_append]
    have hrest : line ∈ ((List.range m).map (n + ·)).filterMap (listedLine fs name) := by
      have hi := hchild.1
      refine List.mem_filterMap.mpr ⟨i, ?_, (listedLine_iff hroot line).mpr hchild⟩
      exact List.mem_map.mpr ⟨i - n, List.mem_range.mpr (by omega), by omega⟩
    have hpos : 2 ≤ linesSize (((List.range m).map (n + ·)).filterMap (listedLine fs name)) := by
      have hle := linesSize_mem hrest
      have := List.length_pos_iff.mpr (hchild.ne_nil htree)
      omega
    have hlen := congrArg List.length (congrArg Prod.snd heq)
    dsimp only at hlen
    rw [length_joinLines, length_joinLines, hsize, hsplit, linesSize_append] at hlen
    omega
  · intro hall
    refine ⟨_, nodup_listed htree hroot n, fun line => ?_, rfl⟩
    rw [mem_listed hroot]
    constructor
    · rintro ⟨i, -, hi⟩
      exact ⟨i, hi⟩
    · rintro ⟨i, hi⟩
      exact ⟨i, hall i line hi, hi⟩

end Listed

/--
**When a listing is exact.**  After every run, and in a buffer that is large enough, a directory is
listed as its children, each on a line of its own, exactly if it is not the root and no child has a
number from the count of the entries in use on.
-/
theorem readdir_exact_iff {fs₀ : Ramfs} {calls : List RamfsCall} {w : RamfsVfs T}
    (hrun : Executes Ramfs.step (ramfsInit fs₀) calls w.fs) {path name : CStr}
    (hnorm : ramfsNormalize (some path) = some name)
    (hdir : name = ['/'] ∨ ∃ i, i < ramfsMaxFiles ∧ (w.fs i).inUse = true ∧
      (w.fs i).isDir = true ∧ (w.fs i).name = name)
    {bufSize : Nat} (hbuf : ListingFits w.fs bufSize) :
    ListsExactly w.fs name (vfs2ReaddirRamfs w (some path) bufSize).2 ↔
      name ≠ ['/'] ∧ ∀ i line, w.fs.Child name i line → i < ramfsCount w.fs := by
  have htree : RamfsTree w.fs :=
    hrun.invariant (fun _ _ _ h hstep => h.call hstep.choose_spec) (ramfsTree_init fs₀)
  by_cases hroot : name = ['/']
  · rw [hroot] at hnorm
    rw [vfs2ReaddirRamfs_root hnorm]
    refine iff_of_false ?_ fun h => h.1 hroot
    rintro ⟨lines, -, -, heq⟩
    have hret := congrArg Prod.fst heq
    dsimp only at hret
    omega
  · obtain ⟨i, hi, huse, hisdir, hname⟩ := hdir.resolve_left hroot
    rw [vfs2ReaddirRamfs_dir htree hnorm hroot hi huse hisdir hname hbuf, and_iff_right hroot]
    exact listsExactly_range_iff htree hroot (ramfsCount_le w.fs)

/-- The file system behind the VFS, with a terminal that says nothing. -/
def vfsOf (fs : Ramfs) : RamfsVfs Unit := ⟨fs, fun _ => ⟨0, 0, 0⟩, ()⟩

/-- A directory with a file and a directory. -/
def dirRamfs : Ramfs :=
  let fs := (ramfsMkdir (ramfsInit blankRamfs) (some ['/', 'd'])).1
  let fs := (ramfsCreate fs (some ['/', 'd', '/', 'x'])).1
  (ramfsMkdir fs (some ['/', 'd', '/', 's'])).1

/-- A directory with a file, and a file in the root that is removed. -/
def holeRamfs : Ramfs :=
  let fs := (ramfsMkdir (ramfsInit blankRamfs) (some ['/', 'd'])).1
  let fs := (ramfsCreate fs (some ['/', 'a'])).1
  let fs := (ramfsCreate fs (some ['/', 'd', '/', 'x'])).1
  (ramfsUnlink fs (some ['/', 'a'])).1

theorem readdir_exact_full :
    Executes Ramfs.step (ramfsInit blankRamfs) [.mkdir (some ['/', 'd']),
        .create (some ['/', 'd', '/', 'x']), .mkdir (some ['/', 'd', '/', 's'])] dirRamfs ∧
      ListsExactly dirRamfs ['/', 'd']
        (vfs2ReaddirRamfs (vfsOf dirRamfs) (some ['/', 'd']) 8192).2 := by
  have hrun : Executes Ramfs.step (ramfsInit blankRamfs) [.mkdir (some ['/', 'd']),
      .create (some ['/', 'd', '/', 'x']), .mkdir (some ['/', 'd', '/', 's'])]
      (vfsOf dirRamfs).fs := .cons ⟨_, rfl⟩ (.cons ⟨_, rfl⟩ (.cons ⟨_, rfl⟩ (.nil _)))
  have hnorm : ramfsNormalize (some ['/', 'd']) = some ['/', 'd'] := by decide +kernel
  have hdir : 0 < ramfsMaxFiles ∧ (dirRamfs 0).inUse = true ∧ (dirRamfs 0).isDir = true ∧
      (dirRamfs 0).name = ['/', 'd'] := by decide +kernel
  have hbuf : ListingFits dirRamfs 8192 := by
    unfold ListingFits
    decide +kernel
  have hused : ∀ i, i < ramfsMaxFiles → (dirRamfs i).inUse = true → i < ramfsCount dirRamfs := by
    decide +kernel
  exact ⟨hrun, (readdir_exact_iff hrun hnorm (.inr ⟨0, hdir⟩) hbuf).mpr
    ⟨by decide, fun i _ hchild => hused i hchild.1 hchild.2.1⟩⟩

/-- Its only entry is behind the hole, and is not listed. -/
theorem readdir_misses_child :
    Executes Ramfs.step (ramfsInit blankRamfs) [.mkdir (some ['/', 'd']), .create (some ['/', 'a']),
        .create (some ['/', 'd', '/', 'x']), .unlink (some ['/', 'a'])] holeRamfs ∧
      (vfs2ReaddirRamfs (vfsOf holeRamfs) (some ['/', 'd']) 8192).2 = (0, []) ∧
      ¬ ListsExactly holeRamfs ['/', 'd']
        (vfs2ReaddirRamfs (vfsOf holeRamfs) (some ['/', 'd']) 8192).2 := by
  have hrun : Executes Ramfs.step (ramfsInit blankRamfs) [.mkdir (some ['/', 'd']),
      .create (some ['/', 'a']), .create (some ['/', 'd', '/', 'x']), .unlink (some ['/', 'a'])]
      holeRamfs := .cons ⟨_, rfl⟩ (.cons ⟨_, rfl⟩ (.cons ⟨_, rfl⟩ (.cons ⟨_, rfl⟩ (.nil _))))
  have hresult : (vfs2ReaddirRamfs (vfsOf holeRamfs) (some ['/', 'd']) 8192).2 = (0, []) := by
    decide +kernel
  have hchild : holeRamfs.Child ['/', 'd'] 2 ['x'] := by
    refine ⟨by decide, ?_, ['x'], by decide, ?_, ?_⟩
    · decide +kernel
    · decide +kernel
    · decide +kernel
  refine ⟨hrun, hresult, ?_⟩
  rw [hresult]
  rintro ⟨lines, -, hmem, heq⟩
  have hsize := linesSize_mem ((hmem ['x']).mpr ⟨2, hchild⟩)
  have hempty : joinLines lines = [] := (congrArg Prod.snd heq).symm
  have hlen := length_joinLines lines
  rw [hempty, List.length_nil] at hlen
  have htwo : 2 ≤ linesSize lines := hsize
  omega

end BrightS
